import AmitX.SmkFs.ExtentMap
/-!
# Rebuild — the extents of a file taken out and put back (`file.c`)

Truncating and punching take the first 32 extents of a record into a table, strip all of them and put back what stays of
each one in the table; the blocks of what does not stay are freed, whatever `bitmap_free_range` returns.
-/
namespace AmitX
namespace SmkFs

open Prog Volume Pieces Run

/-! ## The table -/

section

variable {attrs attrs' : List Attr} {type : AttrType} {s s' : Mount} {e : Extent}

theorem collect_take : ∀ (attrs : List Attr) (es : List Extent), es.length ≤ extentTableSize →
    (recordIterateAttr .extents collectCb attrs es).2 =
      (es ++ (extentsOf attrs).map Prod.snd).take extentTableSize
  | [], es, h => by
    rw [recordIterateAttr, extentsOf, List.filterMap_nil, List.map_nil, List.append_nil, List.take_of_length_le h]
  | a :: attrs, es, h => by
    rw [recordIterateAttr]
    by_cases ht : a.type = .extents
    · rw [if_pos ht, collectCb]
      cases he : a.data.asExtent with
      | none =>
        rw [extentsOf_cons_none (by rw [Attr.extent, if_pos ht, he]; rfl)]
        exact collect_take attrs es h
      | some e =>
        rw [extentsOf_cons_some (extent_of_type ht he), List.map_cons]
        by_cases hfull : extentTableSize ≤ es.length
        · rw [List.take_append_of_le_length hfull]
          have ih := collect_take attrs es h
          rw [List.take_append_of_le_length hfull] at ih
          simp only [if_pos hfull]
          exact ih
        · have ih := collect_take attrs (es ++ [e]) (by simp; omega)
          rw [List.append_assoc] at ih
          simp only [if_neg hfull]
          exact ih
    · rw [if_neg ht, extentsOf_cons_none (extent_of_ne ht)]
      exact collect_take attrs es h

theorem table_pieces (attrs : List Attr) : ((recordIterateAttr .extents collectCb attrs []).2).map Extent.piece =
    (pieces attrs).take extentTableSize := by
  rw [collect_take attrs [] (Nat.zero_le _), List.nil_append, List.map_take, List.map_map]
  rfl

/-! ## Stripping -/

theorem filter_dropLastAttr {p q : Attr → Bool} (h : ∀ a, p a = true → q a = false) (attrs : List Attr) :
    (dropLastAttr p attrs).filter q = attrs.filter q := by
  rw [← List.filterMap_eq_filter]
  apply filterMap_dropLastAttr
  intro a ha
  simp [h a ha]

theorem length_dropLastAttr {p : Attr → Bool} {a : Attr} (ha : a ∈ attrs) (hp : p a = true) :
    (dropLastAttr p attrs).length = attrs.length - 1 := by
  rw [dropLastAttr, List.length_reverse, List.length_eraseP_of_mem (List.mem_reverse.2 ha) hp, List.length_reverse]

theorem stripAttr_eq (type : AttrType) : ∀ (n : Nat) (attrs : List Attr), attrs.length ≤ n →
    stripAttr type n attrs = attrs.filter (fun a => a.type ≠ type)
  | 0, attrs, h => by
    rw [List.length_eq_zero_iff.1 (Nat.le_zero.1 h)]
    rfl
  | n + 1, attrs, h => by
    rw [stripAttr, recordFindAttr]
    cases hf : attrs.find? (fun a => a.type = type) with
    | none =>
      rw [List.find?_eq_none] at hf
      exact (List.filter_eq_self.2 (fun a ha => by simpa using hf a ha)).symm
    | some a =>
      have htype := List.find?_some (p := fun a : Attr => decide (a.type = type)) hf
      have hlen := length_dropLastAttr (p := fun a => a.type = type) (List.mem_of_find?_eq_some hf) htype
      have ih := stripAttr_eq type n (recordRemoveAttr type attrs) (by
        rw [recordRemoveAttr, hlen]
        omega)
      rw [Option.map_some]
      dsimp only
      rw [ih, recordRemoveAttr, filter_dropLastAttr (by simp)]

theorem blockPairs_strip : blockPairs (stripAttr .extents attrs.length attrs) = [] := by
  have hnone : extentsOf (attrs.filter (fun a => a.type ≠ .extents)) = [] := by
    rw [extentsOf, List.filterMap_eq_nil_iff]
    intro a ha
    exact extent_of_ne (by simpa using (List.mem_filter.1 ha).2)
  rw [stripAttr_eq _ _ _ (Nat.le_refl _), blockPairs, pieces, hnone]
  rfl

theorem fileSize_strip : fileSize (stripAttr .extents attrs.length attrs) = fileSize attrs := by
  rw [stripAttr_eq _ _ _ (Nat.le_refl _), fileSize, fileSize, recordFindAttr, recordFindAttr, List.find?_filter]
  congr 4
  funext a
  by_cases h : a.type = .fsize
  · simp [h]
  · simp [h]

/-! ## Putting back -/

theorem blockPairs_push (e : Extent) (attrs : List Attr) :
    blockPairs (attrs ++ [newExtent e attrs]) = blockPairs attrs ++ e.piece.pairs := by
  rw [blockPairs, pieces_push, graph_append, graph_cons, graph_nil, List.append_nil]
  rfl

theorem fileSize_push (e : Extent) (attrs : List Attr) : fileSize (attrs ++ [newExtent e attrs]) = fileSize attrs := by
  rw [fileSize, fileSize, recordFindAttr, recordFindAttr, List.find?_append]
  simp [newExtent]

theorem ok_orAbort {α : Type} {m : FsM α} {err : Err} {a : α} (h : orAbort m err s = (.ok a, s')) :
    m s = (.ok a, s') := by
  refine ok_catchWith h (fun _ s₁ hk => ?_)
  obtain ⟨_, _, _, ht⟩ := ok_bind hk
  cases ht

theorem ok_abortOnError {α : Type} {m : FsM α} {a : α} (h : abortOnError m s = (.ok a, s')) : m s = (.ok a, s') := by
  refine ok_catchWith h (fun _ s₁ hk => ?_)
  obtain ⟨_, _, _, ht⟩ := ok_bind hk
  cases ht

theorem ok_onAttrs {m : Prog (List Attr) Err Unit} (h : onAttrs m attrs s = (.ok attrs', s')) :
    m attrs = (.ok (), attrs') ∧ s' = s := by
  unfold onAttrs at h
  rcases hm : m attrs with ⟨e | u, xs⟩
  · rw [hm] at h
    cases h
  · rw [hm] at h
    cases h
    exact ⟨rfl, rfl⟩

theorem ok_putExtent (h : putExtent e attrs s = (.ok attrs', s')) : attrs' = attrs ++ [newExtent e attrs] ∧ s' = s := by
  obtain ⟨hadd, rfl⟩ := ok_onAttrs (ok_orAbort h)
  refine ⟨?_, rfl⟩
  rcases recordAddAttr_extent attrBufSize e attrs with ⟨_, hbad⟩ | hok
  · rw [hadd] at hbad
    cases hbad
  · rw [hadd] at hok
    exact (Prod.ext_iff.1 hok).2

end

/-! ## Freeing -/

/-- `bitmap_free_range` of the blocks of a piece, if it has any. -/
def freePiece (s : Mount) (p : Piece) : Except Err Unit × Mount :=
  if p.len = 0 then (.ok (), s) else bitmapFreeRange p.dst p.len s

/-- **One extent of the table**: `freed` of it is freed, and `kept` of what it maps is put back. -/
structure BodyStep (freed : Piece) (kept : List (Nat × Nat)) (attrs attrs' : List Attr) (s s' : Mount) : Prop where
  state : s' = (freePiece s freed).2
  pairs : blockPairs attrs' = blockPairs attrs ++ kept
  size : fileSize attrs' = fileSize attrs

section

variable {attrs attrs' : List Attr} {s s' : Mount} {e : Extent} {p : Piece} {kept : List (Nat × Nat)}

theorem freePiece_of_len (h : p.len = 0) : freePiece s p = (.ok (), s) := if_pos h

theorem freePiece_state (s : Mount) (p : Piece) : (freePiece s p).2 = (bitmapFreeRange p.dst p.len s).2 := by
  rw [freePiece]
  split
  · rename_i h
    rw [h]
    rfl
  · rfl

theorem ok_freeIgnored {start n : Nat} {α : Type} {a : α} {f : Unit → FsM α}
    (h : ((bitmapFreeRange start n).ignore >>= f) s = (.ok a, s')) (hdst : start = p.dst) (hlen : n = p.len) :
    f () (freePiece s p).2 = (.ok a, s') := by
  obtain ⟨_, s₁, hfree, hrest⟩ := ok_bind h
  cases hfree
  rw [freePiece_state, ← hdst, ← hlen]
  exact hrest

theorem BodyStep.keep (h : putExtent e attrs s = (.ok attrs', s')) (hlen : p.len = 0) :
    BodyStep p e.piece.pairs attrs attrs' s s' := by
  obtain ⟨rfl, rfl⟩ := ok_putExtent h
  exact ⟨by rw [freePiece_of_len hlen], blockPairs_push e attrs, fileSize_push e attrs⟩

theorem BodyStep.drop (h : (pure attrs : FsM (List Attr)) (freePiece s p).2 = (.ok attrs', s')) :
    BodyStep p [] attrs attrs' s s' := by
  cases h
  exact ⟨rfl, (List.append_nil _).symm, rfl⟩

theorem BodyStep.part (h : putExtent e attrs (freePiece s p).2 = (.ok attrs', s')) :
    BodyStep p e.piece.pairs attrs attrs' s s' := by
  obtain ⟨rfl, rfl⟩ := ok_putExtent h
  exact ⟨rfl, blockPairs_push e attrs, fileSize_push e attrs⟩

theorem rebuild_ok {body : Extent → List Attr → FsM (List Attr)} (freed : Extent → Piece)
    (keeps : Extent → List (Nat × Nat)) : ∀ (es : List Extent) {attrs : List Attr} {s : Mount},
    (∀ e ∈ es, ∀ {attrs attrs' s s'}, body e attrs s = (.ok attrs', s') →
      BodyStep (freed e) (keeps e) attrs attrs' s s') →
    rebuild body es attrs s = (.ok attrs', s') →
      s' = (run freePiece s (es.map freed)).2 ∧ blockPairs attrs' = blockPairs attrs ++ es.flatMap keeps ∧
        fileSize attrs' = fileSize attrs
  | [], attrs, s, _, h => by
    cases h
    exact ⟨rfl, (List.append_nil _).symm, rfl⟩
  | e :: es, attrs, s, hbody, h => by
    obtain ⟨attrs₁, s₁, hone, hrest⟩ := ok_bind h
    have hstep := hbody e List.mem_cons_self hone
    obtain ⟨hstate, hpairs, hsize⟩ := rebuild_ok freed keeps es (fun e he => hbody e (List.mem_cons_of_mem _ he)) hrest
    refine ⟨?_, ?_, hsize.trans hstep.size⟩
    · rw [hstate, hstep.state]
      rfl
    · rw [hpairs, hstep.pairs, List.append_assoc, List.flatMap_cons]

end

/-! ## What the frees leave -/

section

variable {v v' w : Volume} {s n : Nat}

theorem LeavesFiles.refl (v : Volume) : LeavesFiles v v := ⟨fun _ _ _ => rfl, rfl, id, rfl⟩

theorem LeavesFiles.trans (h : LeavesFiles v w) (h' : LeavesFiles w v') : LeavesFiles v v' := by
  refine ⟨fun b hj hb => ?_, h'.layout.trans h.layout, fun hr => h'.ring (h.ring hr), h'.mounted.trans h.mounted⟩
  rw [h'.view b (by rw [h.layout]; exact hj) (by rw [h.layout]; exact hb), h.view b hj hb]

/-- Only the journal and the bitmap have changed, and of the bits only those of the blocks `s`, …, `s + n - 1`. -/
structure FreeFrame (v : Volume) (s n : Nat) (v' : Volume) : Prop where
  leaves : LeavesFiles v v'
  used : ∀ j < v.sb.dataBlocks, ¬(s ≤ j ∧ j < s + n) → v'.used j = v.used j

theorem FreeFrame.refl (v : Volume) (s n : Nat) : FreeFrame v s n v := ⟨.refl v, fun _ _ _ => rfl⟩

theorem FreeFrame.step (h : FreeFrame v s n w) (hlv : LeavesFiles w v')
    (hused : ∀ j < w.sb.dataBlocks, ¬(s ≤ j ∧ j < s + n) → v'.used j = w.used j) : FreeFrame v s n v' :=
  ⟨h.leaves.trans hlv, fun j hj hout => (hused j (by rw [h.leaves.layout]; exact hj) hout).trans (h.used j hj hout)⟩

theorem FreeFrame.journal (h : FreeFrame v s n w) (hl : v.sb.toLayout.WF) (hring : v.RingOk)
    (hsteps : JournalSteps w v') : FreeFrame v s n v' := by
  have hr := h.leaves.ring hring
  have hlv := hsteps.leavesFiles hr
  have hlw : w.sb.toLayout.WF := by
    rw [h.leaves.layout]
    exact hl
  exact h.step hlv (fun j hj _ => sameUsed_of_view hlw hlv.layout (hsteps hr).view j hj)

theorem vwp_bitmapFreeRange_frame (F : Prop) (hl : v.sb.toLayout.WF) (hring : v.RingOk)
    (hn : s + n ≤ v.sb.dataBlocks) : vwp F (bitmapFreeRange (v.sb.dataStart + s) n)
      (fun _ v' => FreeFrame v s n v') (fun _ v' => FreeFrame v s n v') v := by
  have hfill : ∀ k ≤ n, ∀ j, ¬(s ≤ j ∧ j < s + n) → fill v.used s k false j = v.used j := fun k hk j hout => by
    rw [fill, if_neg (by omega)]
  unfold bitmapFreeRange
  refine wpAbs_bind (wpAbs_failIf (fun _ => .refl v s n) (fun _ => wpAbs_bind (vwp_malloc ?_ (fun _ => ?_))))
  · refine wpAbs_bind (wpAbs_failIf (fun _ => .refl v s n) (fun _ => ?_))
    have hloop := @fwp_bitmapFreeLoop F F v s hl n 0 v (by omega) (Cleared.refl v s)
    rw [Nat.zero_add, usedIn_zero] at hloop
    refine wpAbs_seq hloop (fun freed v1 h => ?_) (fun _ v1 h => ?_)
    · have h1 : FreeFrame v s n v1 := ⟨h.2.1.frame.leavesFiles, fun j hj hout => by
        rw [h.2.1.used j hj, hfill n (Nat.le_refl n) j hout]⟩
      refine wpAbs_when (fun _ => ?_) (fun _ => h1)
      refine wpAbs_elseDo (wpAbs_mono (journalWriteEntry_steps .free (v.sb.dataStart + s) freed 0 .zero v1)
        (fun _ v2 h2 => ?_) (fun _ v2 h2 => ?_))
      · refine vwp_modifyMem ((h1.journal hl hring h2).step (allocFrame_mapFreeBlocks v2 _).leavesFiles (fun j _ _ => ?_))
        rw [used_mapFreeBlocks]
      · have hundo := wpAbs_forRange (π := faultView F F) (F := fun _ w => FreeFrame v s n w)
          (b := fun j => (bitmapSet (v.sb.dataStart + s + j)).ignore) (I := fun _ w => FreeFrame v s n w) freed 0
          (h1.journal hl hring h2) (fun j w _ hj hw => ?_)
        · exact wpAbs_seq hundo (fun _ _ h => wpAbs_throw h) (fun _ _ h => h)
        · refine wpAbs_ignore (wpAbs_mono (vwp_bitmapSet F w _) (fun _ w' hw' => ?_) (fun _ w' hw' => ?_))
          · obtain ⟨-, rfl⟩ := hw'
            have hfreed := usedIn_le v.used s n
            obtain ⟨rfl, -⟩ := h
            have hlay : w.sb.toLayout = v.sb.toLayout := hw.leaves.layout
            have hstart : w.sb.dataStart = v.sb.dataStart := congrArg Layout.dataStart hlay
            refine hw.step (allocFrame_bitmapSet (by rw [hlay]; exact hl) ?_).leavesFiles (fun i hi hout => ?_)
            · rw [hlay]
              omega
            · rw [used_bitmapSet, Function.update_of_ne (by omega)]
          · rw [hw'.1]
            exact hw
    · obtain ⟨-, -, hframe, k, hk, hused⟩ := h
      exact ⟨hframe.leavesFiles, fun j hj hout => by rw [hused j hj, hfill k (by omega) j hout]⟩
  · exact wpAbs_bind (wpAbs_failIf (fun _ => .refl v s n) (fun h => absurd rfl h))

def InData (l : Layout) (p : Piece) : Prop := ∀ b ∈ p.pairs.map Prod.snd, l.dataStart ≤ b ∧ b < l.totalBlocks

theorem InData.bounds {l : Layout} {p : Piece} (h : InData l p) (hlen : p.len ≠ 0) :
    l.dataStart ≤ p.dst ∧ p.dst + p.len ≤ l.totalBlocks := by
  have hfirst := h p.dst (mem_targets.2 ⟨Nat.le_refl _, by omega⟩)
  have hlast := h (p.dst + (p.len - 1)) (mem_targets.2 ⟨by omega, by omega⟩)
  omega

theorem leaves_freePiece {s : Mount} {p : Piece} (hl : s.vol.sb.toLayout.WF) (hring : s.vol.RingOk)
    (hp : InData s.vol.sb.toLayout p) : LeavesFiles s.vol (freePiece s p).2.vol := by
  by_cases hlen : p.len = 0
  · rw [freePiece_of_len hlen]
    exact .refl s.vol
  obtain ⟨hlow, hhigh⟩ := hp.bounds hlen
  have hspec := vwp_bitmapFreeRange_frame True (s := p.dst - s.vol.sb.dataStart) (n := p.len) hl hring (by
    rw [hl.dataBlocks_eq]
    omega)
  rw [Nat.add_sub_cancel' hlow] at hspec
  rw [freePiece_state]
  rcases hrun : bitmapFreeRange p.dst p.len s with ⟨e | a, s'⟩
  · have h := wp_error (wp_of_vwp hspec) hrun
    exact h.leaves
  · have h := wp_ok (wp_of_vwp hspec) hrun
    exact h.leaves

theorem leaves_frees : ∀ {s : Mount} (ps : List Piece), s.vol.sb.toLayout.WF → s.vol.RingOk →
    (∀ p ∈ ps, InData s.vol.sb.toLayout p) → LeavesFiles s.vol (run freePiece s ps).2.vol
  | s, [], _, _, _ => .refl s.vol
  | s, p :: ps, hl, hring, hps => by
    have hone := leaves_freePiece hl hring (hps p List.mem_cons_self)
    exact hone.trans (leaves_frees ps (by rw [hone.layout]; exact hl) (hone.ring hring) (fun q hq => by
      rw [hone.layout]
      exact hps q (List.mem_cons_of_mem _ hq)))

end

/-! ## The transaction around it -/

section

variable {D H : Prop} {v : Volume} {s s₀ s₁ s' : Mount} {id : Nat} {rec rec' : Record} {attrs attrs' : List Attr}

theorem fwp_journalStartTransaction (D H : Prop) (v : Volume) : fwp D H journalStartTransaction
    (fun _ v' => JournalSteps v v' ∧ v'.journalInTransaction = true) (fun _ v' => JournalSteps v v') v := by
  have hset : ∀ w : Volume, fwp D H (setInTransaction true) (fun _ v' => v'.journalInTransaction = true)
      (fun _ _ => True) w := fun _ => vwp_modifyMem rfl
  have hin : fwp D H journalStartTransaction (fun _ v' => v'.journalInTransaction = true) (fun _ _ => True) v := by
    unfold journalStartTransaction
    refine wpAbs_bind (vwp_getMem (wpAbs_bind (wpAbs_failIf (fun _ => trivial) (fun _ => ?_))))
    refine wpAbs_seq (wpAbs_when (P := fun _ _ => True) (F := fun _ _ => True) (fun _ => ?_) (fun _ => trivial))
      (fun _ w _ => wpAbs_bind (vwp_getSb ?_)) (fun _ _ h => h)
    · exact wpAbs_orThrow (wpAbs_mono (journalCheckpoint_steps v) (fun _ _ _ => trivial) (fun _ _ _ => trivial))
    · refine wpAbs_seq (wpAbs_when (P := fun _ _ => True) (F := fun _ _ => True) (fun _ => ?_) (fun _ => trivial))
        (fun _ w' _ => hset w') (fun _ _ h => h)
      refine wpAbs_seq (R := fun _ _ => True) (G := fun _ _ => True) ?_ (fun _ w' _ => ?_) (fun _ _ h => h)
      · exact wpAbs_orThrow (wpAbs_mono (journalCheckpoint_steps w) (fun _ _ _ => trivial) (fun _ _ _ => trivial))
      · exact wpAbs_bind (vwp_getSb (wpAbs_failIf (fun _ => trivial) (fun _ => trivial)))
  exact wpAbs_mono (wpAbs_and hin (journalStartTransaction_steps v)) (fun _ _ h => ⟨h.2, h.1⟩) (fun _ _ h => h.2)

theorem fwp_writeBegin (D H : Prop) (v : Volume) (id : Nat) : fwp D H (writeBegin id)
    (fun attrs v' => JournalSteps v v' ∧ v'.journalInTransaction = true ∧ ∃ rec, v.FileAt id rec attrs)
    (fun _ _ => True) v := by
  unfold writeBegin
  refine wpAbs_bind (vwp_getMem (wpAbs_bind (wpAbs_failIf (fun _ => trivial) (fun _ => ?_))))
  refine wpAbs_bind (wpAbs_orThrow (wpAbs_mono (fwp_recordRead_at D H v id) (fun x w h => ?_) (fun _ _ _ => trivial)))
  obtain ⟨rfl, hr⟩ := h
  refine wpAbs_bind (wpAbs_failIf (fun _ => trivial) (fun hfile => ?_))
  rw [Decidable.not_not] at hfile
  exact wpAbs_seq (wpAbs_orThrow (wpAbs_mono (fwp_journalStartTransaction D H w) (fun _ _ h => h)
    (fun _ _ _ => trivial))) (fun _ _ h => wpAbs_pure ⟨h.1, h.2, x.1, hr, hfile⟩) (fun _ _ h => h)

theorem writeBegin_run (hl : s.vol.sb.toLayout.WF) (hring : s.vol.RingOk) (h : writeBegin id s = (.ok attrs, s₀)) :
    (LeavesFiles s.vol s₀.vol ∧ SameUsed s.vol s₀.vol) ∧ s₀.vol.journalInTransaction = true ∧
      (s.Reliable → s₀.Reliable) ∧ ∃ rec, s.vol.FileAt id rec attrs := by
  obtain ⟨hsteps, htxn, hfile⟩ := wp_ok (wp_of_vwp (fwp_writeBegin True True s.vol id)) h
  have hlv := hsteps.leavesFiles hring
  refine ⟨⟨hlv, sameUsed_of_view hl hlv.layout (hsteps hring).view⟩, htxn, fun hs => ?_, hfile⟩
  have hinv := (fwp_apply (P := fun _ _ => True) (wpAbs_mono (fwp_writeBegin False False s.vol id)
    (fun _ _ _ => trivial) (fun _ _ _ => trivial)) ⟨fun h => hs.1 h, fun h => hs.2 h⟩).1
  rw [h] at hinv
  exact ⟨fun h => hinv.1 h, fun h => hinv.2 h⟩

theorem writeBegin_of_parts {m : Mem} {x : Record × List Attr} {s₁ s₂ s₃ : Mount} {a : Unit}
    (h1 : getMem s = (.ok m, s₁)) (h2 : ¬(m.mounted = false ∨ id = 0)) (h3 : (recordRead id).orThrow .io s₁ = (.ok x, s₂))
    (h4 : ¬x.1.objectType ≠ .file) (h5 : journalStartTransaction.orThrow .journal s₂ = (.ok a, s₃)) :
    writeBegin id s = (.ok x.2, s₃) := by
  unfold writeBegin
  rw [bind_of_ok h1, failIf, if_neg h2]
  show ((recordRead id).orThrow .io >>= _) s₁ = _
  rw [bind_of_ok h3]
  show (failIf (x.1.objectType ≠ .file) Err.inval >>= _) s₂ = _
  rw [failIf, if_neg h4]
  show (journalStartTransaction.orThrow .journal >>= _) s₂ = _
  rw [bind_of_ok h5]
  rfl

theorem readFile_parts {m : Mem} {x : Record × List Attr} {s₂ : Mount} (hf : s.vol.FileAt id rec attrs)
    (hmem : getMem s = (.ok m, s₁)) (hread : (recordRead id).orThrow .io s₁ = (.ok x, s₂)) :
    m = s.toMem ∧ x = (rec, attrs) ∧ s₂.vol = s.vol := by
  obtain ⟨hm, hs⟩ : m = s.toMem ∧ s₁ = s := by
    cases hmem
    exact ⟨rfl, rfl⟩
  obtain ⟨hsame, hr⟩ := wp_ok (wp_of_vwp (fwp_recordRead_at True True s₁.vol id)) (ok_orThrow hread)
  rw [hs] at hr hsame
  obtain ⟨hrec, hattrs⟩ := hr.unique hf.toRecordAt
  exact ⟨hm, Prod.ext hrec hattrs, hsame⟩

/-- **The record written and the transaction committed.** -/
structure Rewritten (v : Volume) (id : Nat) (rec : Record) (attrs : List Attr) (v' : Volume) : Prop where
  room : journalIsFull v.sb = false
  layout : v'.sb.toLayout = v.sb.toLayout
  ring : v'.RingOk
  record : v'.RecordAt id rec attrs
  used : SameUsed v v'
  mounted : v'.mounted = v.mounted
  view : ∀ b, v.sb.dataStart ≤ b → b ≠ (v.mrtEntry id).physicalBlock → v'.view b = v.view b

theorem ok_rewrite (hl : s.vol.sb.toLayout.WF) (hring : s.vol.RingOk) (hr : s.vol.RecordAt id rec attrs)
    (hslot : s.vol.sb.dataStart ≤ (s.vol.mrtEntry id).physicalBlock) (hgen : rec'.generation = rec.generation)
    (hwrite : recordWrite id rec' attrs' s = (.ok (), s₁)) (hcommit : journalCommit s₁ = (.ok (), s')) :
    Rewritten s.vol id rec' attrs' s'.vol := by
  obtain ⟨hroom, w, hw, hvol⟩ := wp_ok (wp_of_vwp (fwp_recordWrite True True s.vol id rec' attrs')) hwrite
  have hcommitted := wp_of_vwp (journalCommit_steps s₁.vol)
  have hsteps := wp_ok hcommitted hcommit
  have hlv := hw.leavesFiles hring
  have hlw : w.sb.toLayout.WF := by
    rw [hlv.layout]
    exact hl
  have hentry : w.mrtEntry id = s.vol.mrtEntry id := congrFun (hlv.mrtEntry hl) id
  have hblock : w.sb.dataStart ≤ (s.vol.mrtEntry id).physicalBlock := by
    rw [hlv.layout]
    exact hslot
  have hbound : w.Bound id := (hlv.bound hl).2 hr.bound
  have hput : s₁.vol.RecordAt id rec' attrs' := by
    rw [hvol]
    refine ⟨(bound_writeData hlw hblock).2 hbound, ?_, ?_⟩
    · rw [mrtEntry_writeData hlw hblock hbound.1, hentry, Volume.write_view, Function.update_self]
    · rw [mrtEntry_writeData hlw hblock hbound.1, hentry, hgen, hr.generation]
  have hlay₁ : s₁.vol.sb.toLayout = s.vol.sb.toLayout := by
    rw [hvol]
    exact hlv.layout
  have hl₁ : s₁.vol.sb.toLayout.WF := by
    rw [hlay₁]
    exact hl
  have hring₁ : s₁.vol.RingOk := by
    rw [hvol]
    exact hlv.ring hring
  have hlv' := hsteps.leavesFiles hring₁
  refine ⟨hroom, hlv'.layout.trans hlay₁, hlv'.ring hring₁, ?_, fun j hj => ?_, ?_, fun b hb hne => ?_⟩
  · refine (hlv'.recordAt hl₁ (fun _ => ?_)).2 hput
    rw [hvol, mrtEntry_writeData hlw hblock hbound.1, hentry]
    exact hblock
  · rw [sameUsed_of_view hl₁ hlv'.layout (hsteps hring₁).view j (by rw [hlay₁]; exact hj), hvol,
      used_writeData hlw hblock (by rw [hlv.layout]; exact hj),
      sameUsed_of_view hl hlv.layout (hw hring).view j hj]
  · rw [hlv'.mounted, hvol]
    exact hlv.mounted
  · rw [hlv'.view_of_data hl₁ (by rw [hlay₁]; exact hb), hvol, Volume.write_view, Function.update_of_ne hne,
      hlv.view_of_data hl hb]

end

/-! ## A volume with one file -/

/-- The blocks of a volume of 8192 blocks, all of them in use: record 2 has the attributes, and the data are `x`. -/
def fileBlock (attrs : List Attr) (x : UInt8) (b : Nat) : BlockData :=
  if b = 138 then .mrt (fun i => if i = 2 then ⟨170, mrtfAllocated, 1⟩ else ⟨0, 0, 0⟩)
  else if b = 170 then .record ⟨2, .file, attrs.length, 1, 1, false⟩ attrs
  else if b < 170 then .bitmap (fun _ => true)
  else .raw (fun _ => x)

def fileDisk (attrs : List Attr) (x : UInt8) : Mount :=
  { blankMount ⟨mkfsLayout 8192 512, ⟨0, 0, 0, 0, false, 0⟩, ⟨0, 0, 0⟩⟩ with
    mounted := true
    dev := ⟨cacheInit { blankDrive with base := fileBlock attrs x }, cacheInit_wf _⟩ }

theorem fileLayout_facts : 0 < (mkfsLayout 8192 512).journalLength ∧
    (mkfsLayout 8192 512).mrtStart + 2 / entriesPerBlock = 138 ∧ 2 % entriesPerBlock = 2 ∧
    2 < (mkfsLayout 8192 512).mrtCapacity ∧
    (mkfsLayout 8192 512).bitmapStart + (mkfsLayout 8192 512).bitmapLength = 138 ∧
    (mkfsLayout 8192 512).dataStart = 170 ∧ (mkfsLayout 8192 512).dataBlocks = 8022 := by
  decide +kernel

section

variable (attrs : List Attr) (x : UInt8)

theorem fileDisk_view (b : Nat) : (fileDisk attrs x).vol.view b = fileBlock attrs x b := by
  have hcold : ¬(fileDisk attrs x).dev.1.Cached b := by
    rintro ⟨j, hj, -⟩
    cases hj
  exact Drive.content_of_uncached hcold

theorem fileDisk_ready : (fileDisk attrs x).Reliable ∧ (fileDisk attrs x).vol.sb.toLayout.WF ∧
    (fileDisk attrs x).vol.RingOk := by
  refine ⟨⟨?_, ?_⟩, (mkfsLayout_facts (by decide) (by decide)).1, ?_⟩
  · rintro ⟨o, ho, -⟩
    simp [fileDisk, blankMount, cacheInit, blankDrive] at ho
  · simp [Mount.HeapFaulty, fileDisk, blankMount]
  · exact fileLayout_facts.1

theorem fileDisk_entry : (fileDisk attrs x).vol.mrtEntry 2 = ⟨170, mrtfAllocated, 1⟩ := by
  obtain ⟨-, hstart, hslot, -⟩ := fileLayout_facts
  have hblock : (fileDisk attrs x).vol.mrtBlock 2 = 138 := hstart
  rw [Volume.mrtEntry, hblock, fileDisk_view, hslot]
  rfl

theorem fileDisk_file : (fileDisk attrs x).vol.FileAt 2 ⟨2, .file, attrs.length, 1, 1, false⟩ attrs := by
  refine ⟨⟨?_, ?_, ?_⟩, rfl⟩
  · unfold Volume.Bound
    rw [fileDisk_entry]
    exact ⟨fileLayout_facts.2.2.2.1, by decide, by decide, by decide⟩
  · rw [fileDisk_entry, fileDisk_view]
    rfl
  · rw [fileDisk_entry]

theorem fileDisk_used {i : Nat} (hi : i < (fileDisk attrs x).vol.sb.dataBlocks) : (fileDisk attrs x).vol.used i = true := by
  have hl : (mkfsLayout 8192 512).WF := (mkfsLayout_facts (by decide) (by decide)).1
  have hin : (mkfsLayout 8192 512).InBitmap ((mkfsLayout 8192 512).bitmapBlock i) := hl.inBitmap hi
  obtain ⟨-, -, -, -, hstart, -⟩ := fileLayout_facts
  have hlt := hin.2
  have hview : (fileDisk attrs x).vol.view ((mkfsLayout 8192 512).bitmapBlock i) = .bitmap (fun _ => true) := by
    rw [fileDisk_view, fileBlock, if_neg (by omega), if_neg (by omega), if_pos (by omega)]
  show ((fileDisk attrs x).vol.view ((mkfsLayout 8192 512).bitmapBlock i)).bits (i % bitsPerBlock) = true
  rw [hview, BlockData.bits_bitmap]

theorem fileDisk_fileOk (h : Extents attrs) (hdata : ∀ b ∈ (blockPairs attrs).map Prod.snd, 170 < b ∧ b < 8192) :
    (fileDisk attrs x).vol.FileOk 2 attrs := by
  have howned : (fileDisk attrs x).vol.owned 2 attrs = 170 :: (blockPairs attrs).map Prod.snd := by
    rw [Volume.owned, fileDisk_entry]
  have hstart : (fileDisk attrs x).vol.sb.dataStart = 170 := fileLayout_facts.2.2.2.2.2.1
  have hblocks : (fileDisk attrs x).vol.sb.dataBlocks = 8022 := fileLayout_facts.2.2.2.2.2.2
  refine ⟨h, ?_, fun b hb => ?_⟩
  · rw [howned, List.nodup_cons]
    exact ⟨fun hmem => absurd (hdata 170 hmem).1 (by omega), h.injective⟩
  · have hbounds : 170 ≤ b ∧ b < 8192 := by
      rw [howned] at hb
      rcases List.mem_cons.1 hb with rfl | hb
      · exact ⟨Nat.le_refl _, by decide⟩
      · have := hdata b hb
        omega
    have hidx : b - (fileDisk attrs x).vol.sb.dataStart < (fileDisk attrs x).vol.sb.dataBlocks := by
      rw [hstart, hblocks]
      omega
    exact ⟨by rw [hstart]; exact hbounds.1, hidx, fileDisk_used attrs x hidx⟩

end

def twoBlocks : List Attr := [⟨.extents, 0, .extent ⟨0, 300, 2⟩⟩, ⟨.fsize, 0, .u64 8192⟩]

theorem twoBlocks_ok (x : UInt8) : (fileDisk twoBlocks x).vol.FileOk 2 twoBlocks := by
  refine fileDisk_fileOk twoBlocks x ⟨⟨?_, by decide, by decide, by decide⟩, ?_, ?_⟩ (by decide)
  · intro a ha ht
    simp only [twoBlocks, List.mem_cons, List.not_mem_nil, or_false] at ha
    rcases ha with rfl | rfl
    · exact ⟨_, rfl⟩
    · cases ht
  · unfold Functional
    decide
  · unfold Injective
    decide

end SmkFs
end AmitX
