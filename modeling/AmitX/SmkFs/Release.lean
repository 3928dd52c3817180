import AmitX.SmkFs.DirFrame
import AmitX.SmkFs.MrtRun
/-!
# Release — what the removal of the last link gives back (`record_free`, `smkfs_delete_record`)

The frees of `record_free` are followed one by one: those of the extents in the table, which has room for 32, that of the
record's own block and that of its slot.  A free is refused where the journal is full, or where its range has more blocks
than an entry can count; a commit that returned OK says that the journal never was full.  No step frees the tree of a
directory.
-/
namespace AmitX
namespace SmkFs

open Prog Volume Pieces Pages

/-! ## One free after the other -/

/-- Since `v` the blocks in `X` have been freed, and besides only those in `C` changed. -/
structure Freeing (C X : Nat → Prop) (v w : Volume) : Prop where
  beside : Beside C X v w
  gone : ∀ j < v.sb.dataBlocks, (w.used j = true ↔ v.used j = true ∧ ¬X (v.sb.dataStart + j))

def AddRange (X : Nat → Prop) (start n : Nat) (b : Nat) : Prop := X b ∨ start ≤ b ∧ b < start + n

section

variable {F : Prop} {C X : Nat → Prop} {v w w' : Volume} {start n : Nat}

theorem Freeing.same (h : Freeing C X v w) (hb : Beside C X v w') (hused : ∀ j < v.sb.dataBlocks, w'.used j = w.used j) :
    Freeing C X v w' := ⟨hb, fun j hj => by rw [hused j hj, h.gone j hj]⟩

theorem Freeing.congr {Y : Nat → Prop} (h : Freeing C X v w) (hXY : ∀ b, X b ↔ Y b) : Freeing C Y v w := by
  obtain rfl : X = Y := funext (fun b => propext (hXY b))
  exact h

theorem Freeing.journal (h : Freeing C X v w) (hl : v.sb.toLayout.WF) (hsteps : JournalSteps w w') : Freeing C X v w' := by
  have hs := hsteps h.beside.ring
  refine h.same (h.beside.journal hl hsteps) (fun j hj => ?_)
  exact sameUsed_of_view (h.beside.wf hl) hs.layout hs.view j (by rw [h.beside.layout]; exact hj)

theorem Freeing.write (h : Freeing C X v w) (hl : v.sb.toLayout.WF) {b : Nat} (hb : v.sb.dataStart ≤ b) (hC : C b)
    {x : BlockData} : Freeing C X v (w.write b x) := by
  refine h.same (h.beside.write hl hb hC) (fun j hj => ?_)
  exact used_writeData (h.beside.wf hl) (by rw [h.beside.layout]; exact hb) (by rw [h.beside.layout]; exact hj)

theorem Freeing.index (h : Freeing C X v w) (hl : v.sb.toLayout.WF) (hlow : v.sb.dataStart ≤ start)
    (hhigh : start + n ≤ v.sb.totalBlocks) : w.sb.dataStart + (start - v.sb.dataStart) = start ∧
      start - v.sb.dataStart + n ≤ w.sb.dataBlocks := by
  have hstart : w.sb.dataStart = v.sb.dataStart := congrArg Layout.dataStart h.beside.layout
  have hblocks : w.sb.dataBlocks = v.sb.dataBlocks := congrArg Layout.dataBlocks h.beside.layout
  rw [hstart, hblocks, hl.dataBlocks_eq]
  omega

theorem Freeing.clear (h : Freeing C X v w) (hl : v.sb.toLayout.WF) (hlow : v.sb.dataStart ≤ start)
    (hf : FreeFrame w (start - v.sb.dataStart) n w')
    (hc : ∀ j < w.sb.dataBlocks, w'.used j = fill w.used (start - v.sb.dataStart) n false j) :
    Freeing C (AddRange X start n) v w' := by
  have hblocks : w.sb.dataBlocks = v.sb.dataBlocks := congrArg Layout.dataBlocks h.beside.layout
  refine ⟨?_, fun j hj => ?_⟩
  · refine (h.beside.mono (fun _ hb => hb) (fun _ hb => Or.inl hb)).free hl (fun j hj => Or.inr ?_) hf
    omega
  · rw [hc j (by rw [hblocks]; exact hj), fill, AddRange]
    split
    · simp only [Bool.false_eq_true, false_iff, not_and, not_not]
      intro _
      right
      omega
    · rw [h.gone j hj, not_or]
      refine and_congr_right (fun _ => (and_iff_left ?_).symm)
      omega

/-- **A free of blocks in use, where nothing fails**: it clears them, or the journal was full, or the range is too long for
an entry and nothing has changed. -/
theorem fwp_freeRange (hl : v.sb.toLayout.WF) (h : Freeing C X v w) (hopen : w.MemHas Mem.Open)
    (hlow : v.sb.dataStart ≤ start) (hhigh : start + n ≤ v.sb.totalBlocks) (hpos : 0 < n)
    (hused : ∀ b, start ≤ b → b < start + n → v.used (b - v.sb.dataStart) = true ∧ ¬X b) :
    fwp False False (bitmapFreeRange start n)
      (fun _ w' => Freeing C (AddRange X start n) v w' ∧ n ≤ journalDataMax)
      (fun _ w' => Freeing C X v w' ∧ (w.MemHas Mem.Full ∨ journalDataMax < n)) w := by
  obtain ⟨hidx, hn⟩ := h.index hl hlow hhigh
  have hblocks : w.sb.dataBlocks = v.sb.dataBlocks := congrArg Layout.dataBlocks h.beside.layout
  have hall : ∀ j < n, w.used (start - v.sb.dataStart + j) = true := fun j hj => by
    obtain ⟨hu, hx⟩ := hused (start + j) (by omega) (by omega)
    rw [h.gone _ (by omega), show v.sb.dataStart + (start - v.sb.dataStart + j) = start + j by omega]
    rw [show start + j - v.sb.dataStart = start - v.sb.dataStart + j by omega] at hu
    exact ⟨hu, hx⟩
  have hspec := wpAbs_and (wpAbs_and (vwp_bitmapFreeRange_frame False (h.beside.wf hl) h.beside.ring hn)
    (vwp_bitmapFreeRange False (h.beside.wf hl) h.beside.ring hn))
    (fwp_bitmapFreeRange_used (h.beside.wf hl) hn hpos hall)
  rw [hidx] at hspec
  refine wpAbs_mono hspec (fun _ w' hw => ⟨h.clear hl hlow hw.1.1 hw.1.2.1, ?_⟩) (fun _ w' hw => ?_)
  · have hacc := hw.2.2
    simp only [journalAccepts, Bool.and_eq_true, decide_eq_true_eq] at hacc
    exact hacc.2
  · obtain ⟨⟨hf, -⟩, -, hacc, hsame⟩ := hw
    refine ⟨h.same (h.beside.leaves hl hf.leaves (fun j hj _ => hsame j hj)) (fun j hj => hsame j (by omega)), ?_⟩
    by_contra hno
    rw [not_or, Nat.not_lt] at hno
    rw [accepts_of hopen (by simpa [Volume.MemHas, Mem.Full] using hno.1) hno.2] at hacc
    cases hacc

/-! ## The journal never full -/

/-- The journal is full, or the frees so far have gone as `X` says and the transaction is open. -/
def Stage (C X : Nat → Prop) (v w : Volume) : Prop :=
  w.MemHas Mem.Full ∨ w.MemHas Mem.Open ∧ Freeing C X v w

theorem Stage.step {m : FsM Unit} {Y : Nat → Prop} (h : Stage C X v w) (hfull : KeepsMem False Mem.Full m)
    (hopen : KeepsMem False Mem.Open m)
    (hstep : w.MemHas Mem.Open → Freeing C X v w → fwp False False m (fun _ w' => w.MemHas Mem.Full ∨ Freeing C Y v w')
      (fun _ w' => w.MemHas Mem.Full ∨ Freeing C Y v w') w) :
    fwp False False m.ignore (fun _ w' => Stage C Y v w') (fun _ _ => False) w := by
  refine wpAbs_ignore ?_
  rcases h with hf | ⟨ho, hfree⟩
  · exact wpAbs_mono (hfull w hf) (fun _ _ h => Or.inl h.2) (fun _ _ h => Or.inl h)
  · by_cases hf : w.MemHas Mem.Full
    · exact wpAbs_mono (hfull w hf) (fun _ _ h => Or.inl h.2) (fun _ _ h => Or.inl h)
    · exact wpAbs_mono (wpAbs_and (hopen w ho) (hstep ho hfree))
        (fun _ _ h => Or.inr ⟨h.1.2, h.2.resolve_left hf⟩) (fun _ _ h => Or.inr ⟨h.1, h.2.resolve_left hf⟩)

def AddShort (X : Nat → Prop) (start n : Nat) (b : Nat) : Prop := X b ∨ n ≤ journalDataMax ∧ start ≤ b ∧ b < start + n

theorem Stage.free (hl : v.sb.toLayout.WF) (h : Stage C X v w) (hlow : v.sb.dataStart ≤ start)
    (hhigh : start + n ≤ v.sb.totalBlocks) (hpos : 0 < n)
    (hused : ∀ b, start ≤ b → b < start + n → v.used (b - v.sb.dataStart) = true ∧ ¬X b) :
    fwp False False (bitmapFreeRange start n).ignore (fun _ w' => Stage C (AddShort X start n) v w')
      (fun _ _ => False) w := by
  refine h.step (keepsMem_bitmapFreeRange lasts_full _ _) (keepsMem_bitmapFreeRange lasts_open _ _) (fun ho hfree => ?_)
  refine wpAbs_mono (fwp_freeRange hl hfree ho hlow hhigh hpos hused) (fun _ w' hw => Or.inr ?_) (fun _ w' hw => ?_)
  · exact hw.1.congr (fun b => or_congr_right (and_iff_right hw.2).symm)
  · refine hw.2.imp id (fun hlong => hw.1.congr (fun b => ?_))
    exact (or_iff_left (fun hin => absurd hin.1 (Nat.not_le.2 hlong))).symm

end

/-! ## The extents in the table -/

def ExtentIn (l : Layout) (e : Extent) : Prop :=
  l.dataStart ≤ e.physicalBlock ∧ e.physicalBlock + e.blockCount ≤ l.totalBlocks

def AddAll (X : Nat → Prop) (es : List Extent) (b : Nat) : Prop :=
  X b ∨ ∃ e ∈ es, e.physicalBlock ≤ b ∧ b < e.physicalBlock + e.blockCount

def AddAllShort (X : Nat → Prop) (es : List Extent) : Nat → Prop :=
  AddAll X (es.filter (fun e => e.blockCount ≤ journalDataMax))

section

variable {F : Prop} {C X : Nat → Prop} {v w : Volume} {e : Extent} {es : List Extent} {b : Nat}

theorem addAll_nil : AddAll X [] b ↔ X b := by simp [AddAll]

theorem addAll_cons : AddAll X (e :: es) b ↔ AddAll (AddRange X e.physicalBlock e.blockCount) es b := by
  simp only [AddAll, AddRange, List.mem_cons, exists_eq_or_imp, or_assoc]

theorem addAllShort_cons : AddAllShort X (e :: es) b ↔
    AddAllShort (AddShort X e.physicalBlock e.blockCount) es b := by
  unfold AddAllShort
  by_cases hlen : e.blockCount ≤ journalDataMax
  · rw [List.filter_cons_of_pos (by simpa using hlen), addAll_cons]
    simp only [AddAll, AddRange, AddShort, hlen, true_and]
  · rw [List.filter_cons_of_neg (by simpa using hlen)]
    simp only [AddAll, AddShort, hlen, false_and, or_false]

def InUseYet (v : Volume) (X : Nat → Prop) (e : Extent) : Prop :=
  ∀ b, e.physicalBlock ≤ b → b < e.physicalBlock + e.blockCount → v.used (b - v.sb.dataStart) = true ∧ ¬X b

theorem Stage.freeTable (hl : v.sb.toLayout.WF) : ∀ (es : List Extent) {X : Nat → Prop} {w : Volume},
    Stage C X v w → (∀ e ∈ es, ExtentIn v.sb.toLayout e ∧ 0 < e.blockCount ∧ InUseYet v X e) →
    Injective (es.map Extent.piece) →
    fwp False False (forEach (fun e => (bitmapFreeRange e.physicalBlock e.blockCount).ignore) es)
      (fun _ w' => Stage C (AddAllShort X es) v w') (fun _ _ => False) w
  | [], _, _, h, _, _ => wpAbs_pure (h.imp id (fun h => ⟨h.1, h.2.congr (fun _ => addAll_nil.symm)⟩))
  | e :: es, X, _, h, hin, hinj => by
    obtain ⟨⟨hlow, hhigh⟩, hpos, hyet⟩ := hin e List.mem_cons_self
    rw [List.map_cons, Injective, graph_cons, List.map_append, List.nodup_append] at hinj
    obtain ⟨-, hinj, hapart⟩ := hinj
    refine wpAbs_seq (h.free hl hlow hhigh hpos hyet) (fun _ w' hw => ?_) (fun _ _ h => h)
    refine wpAbs_mono (Stage.freeTable hl es hw (fun e' he' => ?_) hinj)
      (fun _ _ h => h.imp id (fun h => ⟨h.1, h.2.congr (fun _ => addAllShort_cons.symm)⟩)) (fun _ _ h => h)
    obtain ⟨hin', hpos', hyet'⟩ := hin e' (List.mem_cons_of_mem _ he')
    refine ⟨hin', hpos', fun b h1 h2 => ⟨(hyet' b h1 h2).1, ?_⟩⟩
    rintro (hX | ⟨-, h3, h4⟩)
    · exact (hyet' b h1 h2).2 hX
    · -- the extents lead to different blocks
      have hb : b ∈ e.piece.pairs.map Prod.snd := mem_targets.2 ⟨h3, h4⟩
      have hb' : b ∈ (graph (es.map Extent.piece)).map Prod.snd := by
        obtain ⟨x, hx, hxb⟩ := List.mem_map.1 (mem_targets.2 ⟨h1, h2⟩ : b ∈ e'.piece.pairs.map Prod.snd)
        exact List.mem_map.2 ⟨x, mem_graph.2 ⟨_, List.mem_map_of_mem he', hx⟩, hxb⟩
      exact hapart b hb b hb' rfl

end

/-! ## The slot -/

/-- The frees have gone as `X` says, and of the table only slot `id` has changed, which is free. -/
structure SlotFreed (id : Nat) (X : Nat → Prop) (v w : Volume) : Prop where
  layout : w.sb.toLayout = v.sb.toLayout
  ring : w.RingOk
  gone : ∀ j < v.sb.dataBlocks, (w.used j = true ↔ v.used j = true ∧ ¬X (v.sb.dataStart + j))
  entry : ∀ k < v.sb.mrtCapacity, w.mrtEntry k = Function.update v.mrtEntry id (v.mrtEntry id).freed k

section

variable {F : Prop} {C X : Nat → Prop} {v w w' : Volume} {id : Nat}

theorem used_setMrtEntry (hl : v.sb.toLayout.WF) {e : MrtEntry} {j : Nat} (hj : j < v.sb.dataBlocks) :
    (v.setMrtEntry id e).used j = v.used j := by
  have hne : v.sb.bitmapBlock j ≠ v.mrtBlock id := fun heq => by
    have hin := hl.inBitmap hj
    rw [heq] at hin
    exact hl.not_bitmap_of_mrt (Nat.le_add_right _ _) hin
  exact congrArg (fun x : BlockData => x.bits (j % bitsPerBlock)) (Function.update_of_ne hne _ _)

theorem vwp_mrtFreeEntry (F : Prop) (hl : v.sb.toLayout.WF) (hring : v.RingOk) : vwp F (mrtFreeEntry id)
    (fun _ w => MrtSets id (v.mrtEntry id).freed (fun n => add64 n 1) v w ∧ SameUsed v w) (fun _ _ => True) v := by
  unfold mrtFreeEntry
  refine wpAbs_bind (vwp_getSb (wpAbs_bind (wpAbs_failIf (fun _ => trivial) (fun _ => ?_))))
  refine wpAbs_bind (vwp_readBlock ?_ (fun _ => trivial))
  refine wpAbs_seq (vwp_mrtStoreEntry F v _ _ _ _ _) (fun _ w h => vwp_modifyMem ?_) (fun _ _ h => h)
  have hset : JournalSteps (v.setMrtEntry id (v.mrtEntry id).freed) w := h
  have hs := hset hring
  refine ⟨mrtSets_mapMrtFree ⟨hs.layout, hs.head, fun k hk => ?_, by rw [hs.counters]; rfl⟩, fun j hj => ?_⟩
  · rw [sameMrt_of_view (v := v.setMrtEntry id _) hl hs.layout hs.view k hk, mrtEntry_setMrtEntry]
  · have hsame := sameUsed_of_view (v := v.setMrtEntry id _) hl hs.layout hs.view j hj
    exact hsame.trans (used_setMrtEntry hl hj)

theorem fwp_mrtFreeEntry_room (hl : v.sb.toLayout.WF) (hopen : v.MemHas Mem.Open) (hroom : ¬v.MemHas Mem.Full)
    (hid : id < v.sb.mrtCapacity) : fwp False False (mrtFreeEntry id) (fun _ _ => True) (fun _ _ => False) v := by
  have hsec : ¬(False ∨ ¬v.sectorOk) := not_faulty hl
  unfold mrtFreeEntry
  refine wpAbs_bind (vwp_getSb (wpAbs_bind (wpAbs_failIf (fun h => absurd hid (Nat.not_lt.2 h)) (fun _ => ?_))))
  refine wpAbs_bind (vwp_readBlock ?_ hsec)
  refine wpAbs_seq (R := fun _ _ => True) ?_ (fun _ _ _ => vwp_modifyMem trivial) (fun _ _ h => h)
  refine wpAbs_bind (vwp_writeBlock (wpAbs_bind (vwp_getMem (wpAbs_ite (fun _ => ?_) (fun _ => wpAbs_pure trivial)))) hsec)
  refine wpAbs_elseDo (wpAbs_mono (fwp_journalWriteEntry False False _ _ _ _ _ _) (fun _ _ _ => wpAbs_pure trivial)
    (fun _ w h => ?_))
  rcases h with ⟨hacc, -⟩ | ⟨hf, -⟩ | ⟨hf, -⟩
  · have hyes : journalAccepts v.toMem mrtEntrySize = true :=
      accepts_of hopen (by simpa [Volume.MemHas, Mem.Full] using hroom) (by decide)
    exact absurd hyes (by rw [show journalAccepts v.toMem mrtEntrySize = false from hacc]; decide)
  · exact hf.elim
  · exact absurd hf hsec

theorem Freeing.slot (h : Freeing C X v w) (hl : v.sb.toLayout.WF) (hC : ∀ b, C b → v.sb.dataStart ≤ b)
    (hid : id < v.sb.mrtCapacity) {f : Nat → Nat} (hs : MrtSets id (w.mrtEntry id).freed f w w') (hu : SameUsed w w') :
    SlotFreed id X v w' := by
  have hlay := h.beside.layout
  refine ⟨hs.layout.trans hlay, hs.ring, fun j hj => ?_, fun k hk => ?_⟩
  · rw [hu j (by rw [hlay]; exact hj), h.gone j hj]
  · rw [hs.entry k (by rw [hlay]; exact hk), h.beside.mrtEntry hC hl hid]
    by_cases hki : k = id
    · rw [hki, Function.update_self, Function.update_self]
    · rw [Function.update_of_ne hki, Function.update_of_ne hki, h.beside.mrtEntry hC hl hk]

theorem Stage.slot (hl : v.sb.toLayout.WF) (hC : ∀ b, C b → v.sb.dataStart ≤ b) (hid : id < v.sb.mrtCapacity)
    (h : Stage C X v w) : fwp False False (mrtFreeEntry id).ignore
      (fun _ w' => w'.MemHas Mem.Full ∨ SlotFreed id X v w') (fun _ _ => False) w := by
  refine wpAbs_ignore ?_
  by_cases hf : w.MemHas Mem.Full
  · exact wpAbs_mono (keepsMem_mrtFreeEntry lasts_full id w hf) (fun _ _ h => Or.inl h.2) (fun _ _ h => Or.inl h)
  · obtain ⟨ho, hfree⟩ := h.resolve_left hf
    have hlw := hfree.beside.wf hl
    have hidw : id < w.sb.mrtCapacity := by
      rw [hfree.beside.layout]
      exact hid
    refine wpAbs_mono (wpAbs_and (vwp_mrtFreeEntry False hlw hfree.beside.ring)
      (fwp_mrtFreeEntry_room hlw ho hf hidw)) (fun _ w' hw => Or.inr ?_) (fun _ _ hw => hw.2.elim)
    exact hfree.slot hl hC hid hw.1.1 hw.1.2

end

/-! ## The record -/

def tableOfExtents (attrs : List Attr) : List Extent := (recordIterateAttr .extents extentRemoveCb attrs []).2

theorem tableOfExtents_pieces (attrs : List Attr) :
    (tableOfExtents attrs).map Extent.piece = (pieces attrs).take extentTableSize := table_pieces attrs

section

variable {F : Prop} {X : Nat → Prop} {v w : Volume} {id : Nat} {rec rec' : Record} {attrs attrs' : List Attr}

abbrev Volume.RecordBlock (v : Volume) (id b : Nat) : Prop := b = (v.mrtEntry id).physicalBlock

/-- What a removal needs of the record's block and its extents. -/
structure Volume.Freeable (v : Volume) (id : Nat) (rec : Record) (attrs : List Attr) : Prop where
  layout : v.sb.toLayout.WF
  ring : v.RingOk
  record : v.RecordAt id rec attrs
  blocks : v.FileOk id attrs

theorem Volume.Freeable.low (h : v.Freeable id rec attrs) : ∀ b, v.RecordBlock id b → v.sb.dataStart ≤ b := by
  rintro b rfl
  exact (h.blocks.inUse _ List.mem_cons_self).low

theorem Volume.Freeable.high (h : v.Freeable id rec attrs) : (v.mrtEntry id).physicalBlock + 1 ≤ v.sb.totalBlocks := by
  have huse := h.blocks.inUse _ List.mem_cons_self
  have hlow := huse.low
  have hhigh := huse.high
  rw [h.layout.dataBlocks_eq] at hhigh
  omega

theorem Freeing.entry (h : Freeing (v.RecordBlock id) X v w) (hv : v.Freeable id rec attrs) :
    w.mrtEntry id = v.mrtEntry id := h.beside.mrtEntry hv.low hv.layout hv.record.bound.1

theorem vwp_recordWrite_freeing (F : Prop) (hv : v.Freeable id rec attrs) (h : Freeing (v.RecordBlock id) X v w)
    (rec' : Record) (attrs' : List Attr) : vwp F (recordWrite id rec' attrs')
      (fun _ w' => Freeing (v.RecordBlock id) X v w') (fun _ w' => Freeing (v.RecordBlock id) X v w') w := by
  refine wpAbs_mono (fwp_recordWrite F F w id rec' attrs') (fun _ w' hw => ?_) (fun _ w' hw => h.journal hv.layout hw)
  obtain ⟨-, x, hx, rfl⟩ := hw
  rw [h.entry hv]
  exact (h.journal hv.layout hx).write hv.layout (hv.low _ rfl) rfl

theorem vwp_recordMarkDeleted_freeing (F : Prop) (hv : v.Freeable id rec attrs)
    (h : Freeing (v.RecordBlock id) X v w) (b : Nat) : vwp F (recordMarkDeleted id b)
      (fun _ w' => Freeing (v.RecordBlock id) X v w') (fun _ _ => False) w := by
  refine wpAbs_elseDo (vwp_readBlock ?_ (fun _ => wpAbs_pure h))
  cases w.view b with
  | record r a => exact wpAbs_ignore (vwp_recordWrite_freeing F hv h _ _)
  | raw _ | super _ | node _ | mrt _ | bitmap _ | journal _ _ => exact wpAbs_pure h

theorem Volume.Freeable.view (hv : v.Freeable id rec attrs) :
    v.view (v.mrtEntry id).physicalBlock = .record rec attrs := hv.record.view

theorem Volume.Freeable.table (hv : v.Freeable id rec attrs) : ∀ e ∈ tableOfExtents attrs,
    ExtentIn v.sb.toLayout e ∧ 0 < e.blockCount ∧ InUseYet v (fun _ => False) e := by
  intro e he
  have hpiece : e.piece ∈ (pieces attrs).take extentTableSize := by
    rw [← tableOfExtents_pieces]
    exact List.mem_map_of_mem he
  have hmem := List.mem_of_mem_take hpiece
  have hpos : 0 < e.piece.len := by
    obtain ⟨x, hx, heq⟩ := List.mem_map.1 hmem
    rw [← heq]
    exact hv.blocks.extents.nonempty x hx
  have huse : ∀ b, e.physicalBlock ≤ b → b < e.physicalBlock + e.blockCount → v.InUse b := fun b h1 h2 => by
    refine hv.blocks.inUse b (List.mem_cons_of_mem _ ?_)
    obtain ⟨x, hx, rfl⟩ := List.mem_map.1 (mem_targets.2 ⟨h1, h2⟩ : b ∈ e.piece.pairs.map Prod.snd)
    exact List.mem_map.2 ⟨x, mem_graph.2 ⟨_, hmem, hx⟩, rfl⟩
  have hpos : 0 < e.blockCount := hpos
  have hfirst := huse e.physicalBlock (Nat.le_refl _) (by omega)
  have hlast := huse (e.physicalBlock + (e.blockCount - 1)) (by omega) (by omega)
  have h1 := hfirst.low
  have h2 := hlast.high
  rw [hv.layout.dataBlocks_eq] at h2
  refine ⟨⟨h1, ?_⟩, hpos, fun b hb hb' => ⟨(huse b hb hb').used, fun h => h⟩⟩
  omega

theorem Volume.Freeable.apart (hv : v.Freeable id rec attrs) {es : List Extent}
    (hes : ∀ e ∈ es, e ∈ tableOfExtents attrs) : ¬AddAll (fun _ => False) es (v.mrtEntry id).physicalBlock := by
  rintro (hno | ⟨e, he, h1, h2⟩)
  · exact hno
  · refine (List.nodup_cons.1 hv.blocks.nodup).1 ?_
    have hpiece : e.piece ∈ (pieces attrs).take extentTableSize := by
      rw [← tableOfExtents_pieces]
      exact List.mem_map_of_mem (hes e he)
    obtain ⟨x, hx, heq⟩ := List.mem_map.1 (mem_targets.2 ⟨h1, h2⟩ : _ ∈ e.piece.pairs.map Prod.snd)
    exact List.mem_map.2 ⟨x, mem_graph.2 ⟨_, List.mem_of_mem_take hpiece, hx⟩, heq⟩

theorem SlotFreed.mapRecordCount (h : SlotFreed id X v w) (f : Nat → Nat) :
    SlotFreed id X v (w.mapMem (Mem.mapRecordCount f)) := ⟨h.layout, h.ring, h.gone, h.entry⟩

theorem Stage.write {m : FsM Unit} (h : Stage (v.RecordBlock id) X v w) (hfull : KeepsMem False Mem.Full m)
    (hopen : KeepsMem False Mem.Open m) (hstep : Freeing (v.RecordBlock id) X v w →
      vwp False m (fun _ w' => Freeing (v.RecordBlock id) X v w') (fun _ _ => True) w) :
    fwp False False m (fun _ w' => Stage (v.RecordBlock id) X v w') (fun _ _ => True) w := by
  rcases h with hf | ⟨ho, hfree⟩
  · exact wpAbs_mono (hfull w hf) (fun _ _ h => Or.inl h.2) (fun _ _ _ => trivial)
  · exact wpAbs_mono (wpAbs_and (hopen w ho) (hstep hfree)) (fun _ _ h => Or.inr ⟨h.1.2, h.2⟩) (fun _ _ _ => trivial)

/-- **`record_free`, where nothing fails**: the journal is full at its end, or the blocks that an entry can count and that
are in the table are free, and so is the slot. -/
theorem fwp_recordFree (hv : v.Freeable id rec attrs) (hopen : v.MemHas Mem.Open) : fwp False False (recordFree id)
    (fun _ w => w.MemHas Mem.Full ∨
      SlotFreed id (AddRange (AddAllShort (fun _ => False) (tableOfExtents attrs)) (v.mrtEntry id).physicalBlock 1) v w)
    (fun _ _ => True) v := by
  have hsec : v.sectorOk := sectorOk_of_wf hv.layout
  have hresolve : fwp False False (mrtResolve id) (fun e w => w = v ∧ e = v.mrtEntry id) (fun _ _ => False) v :=
    wpAbs_mono (fwp_mrtResolve_bound False False v id) (fun _ _ h => ⟨h.1, h.2.1⟩)
      (fun _ _ h => (h.2 hv.record.bound hsec).2)
  have hfirst : Stage (v.RecordBlock id) (fun _ => False) v v :=
    Or.inr ⟨hopen, .refl _ _ hv.ring, fun j _ => (and_iff_left (fun h => h)).symm⟩
  have hinj : Injective ((tableOfExtents attrs).map Extent.piece) := by
    rw [tableOfExtents_pieces]
    exact hv.blocks.extents.injective.of_sublist ((List.take_sublist _ _).flatMap _)
  refine wpAbs_elseDo (wpAbs_mono hresolve (fun e w h => ?_) (fun _ _ h => h.elim))
  obtain ⟨rfl, rfl⟩ := h
  refine wpAbs_seq (R := fun _ w' => Stage (w.RecordBlock id) (AddAllShort (fun _ => False) (tableOfExtents attrs)) w w')
    (G := fun _ _ => True) ?_ (fun _ w' hw => ?_) (fun _ _ h => h)
  · refine wpAbs_elseDo (wpAbs_mono hresolve (fun e w' h => ?_) (fun _ _ h => h.elim))
    obtain ⟨rfl, rfl⟩ := h
    refine wpAbs_elseDo (vwp_readBlock ?_ (fun h => absurd h (not_faulty hv.layout)))
    rw [hv.view]
    refine wpAbs_seq (hfirst.freeTable hv.layout _ hv.table hinj) (fun _ w hw => ?_) (fun _ _ h => h.elim)
    refine hw.write (keepsMem_recordWrite lasts_full _ _ _).ignore (keepsMem_recordWrite lasts_open _ _ _).ignore
      (fun hfree => wpAbs_ignore (vwp_recordWrite_freeing False hv hfree _ _))
  · refine wpAbs_seq (hw.write (keepsMem_recordMarkDeleted lasts_full _ _) (keepsMem_recordMarkDeleted lasts_open _ _)
      (fun hfree => wpAbs_mono (vwp_recordMarkDeleted_freeing False hv hfree _) (fun _ _ h => h)
        (fun _ _ _ => trivial))) (fun _ w' hw => ?_) (fun _ _ h => h)
    have hone := hw.free hv.layout (hv.low _ rfl) hv.high Nat.one_pos (fun b h1 h2 => by
      obtain rfl : b = (w.mrtEntry id).physicalBlock := by omega
      exact ⟨(hv.blocks.inUse _ List.mem_cons_self).used, hv.apart (fun e he => List.mem_of_mem_filter he)⟩)
    refine wpAbs_seq hone (fun _ w' hw => ?_) (fun _ _ h => h.elim)
    refine wpAbs_seq (hw.slot hv.layout hv.low hv.record.bound.1) (fun _ w' hw => vwp_modifyMem ?_) (fun _ _ h => h.elim)
    refine hw.imp (fun h => h) (fun hfreed => ?_)
    have hset : AddShort (AddAllShort (fun _ => False) (tableOfExtents attrs)) (w.mrtEntry id).physicalBlock 1 =
        AddRange (AddAllShort (fun _ => False) (tableOfExtents attrs)) (w.mrtEntry id).physicalBlock 1 := by
      funext b
      exact propext (or_congr_right (and_iff_right (by decide)))
    rw [← hset]
    exact hfreed.mapRecordCount _

end

/-! ## Everything, or not -/

/-- The extents fit into the table, and none has more blocks than an entry of the journal can count. -/
def ReleaseFits (attrs : List Attr) : Prop :=
  (pieces attrs).length ≤ extentTableSize ∧ ∀ p ∈ pieces attrs, p.len ≤ journalDataMax

section

variable {s s' : Mount} {v w : Volume} {id b : Nat} {rec : Record} {attrs : List Attr} {p q : Piece}

theorem addAllShort_iff : AddAllShort (fun _ => False) (tableOfExtents attrs) b ↔
    ∃ p ∈ (pieces attrs).take extentTableSize, p.len ≤ journalDataMax ∧ b ∈ p.pairs.map Prod.snd := by
  rw [← tableOfExtents_pieces]
  simp only [AddAllShort, AddAll, false_or, List.mem_filter, decide_eq_true_eq, and_assoc]
  constructor
  · rintro ⟨e, he, hlen, hb⟩
    exact ⟨e.piece, List.mem_map_of_mem he, hlen, mem_targets.2 hb⟩
  · rintro ⟨p, hp, hlen, hb⟩
    obtain ⟨e, he, rfl⟩ := List.mem_map.1 hp
    exact ⟨e, he, hlen, mem_targets.1 hb⟩

theorem mem_owned : b ∈ v.owned id attrs ↔ b = (v.mrtEntry id).physicalBlock ∨
    ∃ p ∈ pieces attrs, b ∈ p.pairs.map Prod.snd := by
  rw [Volume.owned, List.mem_cons, blockPairs, graph, List.map_flatMap, List.mem_flatMap]

theorem Volume.FileOk.piece_unique (h : v.FileOk id attrs) (hp : p ∈ pieces attrs) (hq : q ∈ pieces attrs)
    (hbp : b ∈ p.pairs.map Prod.snd) (hbq : b ∈ q.pairs.map Prod.snd) : p = q := by
  have hnodup := h.extents.injective
  rw [Injective, graph, List.map_flatMap, List.nodup_flatMap] at hnodup
  have : Std.Symm (Function.onFun List.Disjoint fun p : Piece => p.pairs.map Prod.snd) := ⟨fun _ _ hd => hd.symm⟩
  by_contra hne
  exact hnodup.2.forall hp hq hne hbp hbq

theorem SlotFreed.keeps (h : SlotFreed id (AddRange (AddAllShort (fun _ => False) (tableOfExtents attrs))
      (v.mrtEntry id).physicalBlock 1) v w) (hv : v.Freeable id rec attrs) (hp : p ∈ pieces attrs) (hb : b ∈ p.pairs.map Prod.snd)
    (hout : ∀ q ∈ (pieces attrs).take extentTableSize, q.len ≤ journalDataMax → b ∉ q.pairs.map Prod.snd) :
    v.sb.dataStart ≤ b ∧ b - v.sb.dataStart < v.sb.dataBlocks ∧ w.used (b - v.sb.dataStart) = true := by
  have hmem : b ∈ (blockPairs attrs).map Prod.snd := by
    rw [blockPairs, graph, List.map_flatMap, List.mem_flatMap]
    exact ⟨p, hp, hb⟩
  have huse := hv.blocks.inUse b (List.mem_cons_of_mem _ hmem)
  refine ⟨huse.low, huse.high, (h.gone _ huse.high).2 ⟨huse.used, ?_⟩⟩
  rw [Nat.add_sub_cancel' huse.low]
  rintro (hX | ⟨hlow, hhigh⟩)
  · obtain ⟨q, hq, hlen, hbq⟩ := addAllShort_iff.1 hX
    exact hout q hq hlen hbq
  · have hrec : b = (v.mrtEntry id).physicalBlock := by omega
    exact (List.nodup_cons.1 hv.blocks.nodup).1 (hrec ▸ hmem)

/-- **`record_free`, where nothing fails** and the journal has room at its end.  The slot of the record is free and no other
slot has changed, no block has come into use, and the blocks that went out of use are exactly those the record owned if and
only if its extents fit into the table and none has more blocks than an entry of the journal can count. -/
theorem record_free_exact (hs : s.Reliable) (hv : s.vol.Freeable id rec attrs) (hopen : s.vol.MemHas Mem.Open)
    (hrun : recordFree id s = (.ok (), s')) (hroom : ¬s'.vol.MemHas Mem.Full) :
    (∀ k < s.vol.sb.mrtCapacity, s'.vol.mrtEntry k = if k = id then (s.vol.mrtEntry id).freed else s.vol.mrtEntry k) ∧
      (∀ j < s.vol.sb.dataBlocks, s'.vol.used j = true → s.vol.used j = true) ∧
      ((∀ j < s.vol.sb.dataBlocks, s'.vol.used j = true ↔
          s.vol.used j = true ∧ s.vol.sb.dataStart + j ∉ s.vol.owned id attrs) ↔ ReleaseFits attrs) := by
  have hpost := (fwp_apply (P := fun r w => r = .ok () → w.MemHas Mem.Full ∨ SlotFreed id (AddRange
      (AddAllShort (fun _ => False) (tableOfExtents attrs)) (s.vol.mrtEntry id).physicalBlock 1) s.vol w)
    (wpAbs_mono (fwp_recordFree hv hopen) (fun _ _ h _ => h) (fun _ _ _ he => by cases he))
    ⟨fun h => absurd h hs.1, fun h => absurd h hs.2⟩).2
  rw [hrun] at hpost
  have hfreed := (hpost rfl).resolve_left hroom
  refine ⟨fun k hk => ?_, fun j hj hu => ((hfreed.gone j hj).1 hu).1, fun hall => ⟨?_, fun p hp => ?_⟩, fun hfits j hj => ?_⟩
  · rw [hfreed.entry k hk, Function.update_apply]
  · -- a piece behind the table
    by_contra hmany
    have hdrop : (pieces attrs).drop extentTableSize ≠ [] := by rwa [ne_eq, List.drop_eq_nil_iff]
    obtain ⟨p, hp⟩ := List.exists_mem_of_ne_nil _ hdrop
    have hpos : 0 < p.len := by
      obtain ⟨x, hx, rfl⟩ := List.mem_map.1 (List.mem_of_mem_drop hp)
      exact hv.blocks.extents.nonempty x hx
    have hb : p.dst ∈ p.pairs.map Prod.snd := mem_targets.2 ⟨Nat.le_refl _, by omega⟩
    obtain ⟨hlow, hhigh, hused⟩ := hfreed.keeps hv (List.mem_of_mem_drop hp) hb (fun q hq _ hbq => by
      have hnodup := hv.blocks.extents.injective
      rw [Injective, graph_take extentTableSize, List.map_append, List.nodup_append] at hnodup
      refine hnodup.2.2 p.dst ?_ p.dst ?_ rfl
      · rw [graph, List.map_flatMap, List.mem_flatMap]
        exact ⟨q, hq, hbq⟩
      · rw [graph, List.map_flatMap, List.mem_flatMap]
        exact ⟨p, hp, hb⟩)
    refine ((hall _ hhigh).1 hused).2 (mem_owned.2 (.inr ⟨p, List.mem_of_mem_drop hp, ?_⟩))
    rwa [Nat.add_sub_cancel' hlow]
  · -- a piece that is too long
    by_contra hlong
    have hb : p.dst ∈ p.pairs.map Prod.snd := mem_targets.2 ⟨Nat.le_refl _, by omega⟩
    obtain ⟨hlow, hhigh, hused⟩ := hfreed.keeps hv hp hb (fun q hq hlen hbq =>
      hlong (hv.blocks.piece_unique hp (List.mem_of_mem_take hq) hb hbq ▸ hlen))
    refine ((hall _ hhigh).1 hused).2 (mem_owned.2 (.inr ⟨p, hp, ?_⟩))
    rwa [Nat.add_sub_cancel' hlow]
  · rw [hfreed.gone j hj, mem_owned]
    refine and_congr_right (fun _ => not_congr ?_)
    rw [AddRange, addAllShort_iff, List.take_of_length_le hfits.1, or_comm]
    refine or_congr (by omega) ⟨?_, ?_⟩
    · rintro ⟨p, hp, -, hb⟩
      exact ⟨p, hp, hb⟩
    · rintro ⟨p, hp, hb⟩
      exact ⟨p, hp, hfits.2 p hp, hb⟩

end

def openDisk : Mount := { fileDisk twoBlocks 0 with journalInTransaction := true }

theorem record_free_exact_two : ReleaseFits twoBlocks ∧
    ∀ j < openDisk.vol.sb.dataBlocks, (recordFree 2 openDisk).2.vol.used j = true ↔
      openDisk.vol.used j = true ∧ openDisk.vol.sb.dataStart + j ∉ openDisk.vol.owned 2 twoBlocks := by
  obtain ⟨hs, hl, hring⟩ := fileDisk_ready twoBlocks 0
  have hr := (fileDisk_file twoBlocks 0).toRecordAt
  have hf := twoBlocks_ok 0
  have hv : openDisk.vol.Freeable 2 ⟨2, .file, twoBlocks.length, 1, 1, false⟩ twoBlocks :=
    ⟨hl, hring, ⟨hr.bound, hr.view, hr.generation⟩,
      ⟨hf.extents, hf.nodup, fun b hb => ⟨(hf.inUse b hb).low, (hf.inUse b hb).high, (hf.inUse b hb).used⟩⟩⟩
  have hok : (recordFree 2 openDisk).1 = .ok () := by decide +kernel
  have hroom : ¬(recordFree 2 openDisk).2.vol.MemHas Mem.Full := by
    unfold Volume.MemHas Mem.Full
    decide +kernel
  have hfits : ReleaseFits twoBlocks := ⟨by decide, by decide⟩
  exact ⟨hfits, (record_free_exact (s := openDisk) hs hv rfl (Prod.ext hok rfl) hroom).2.2.2 hfits⟩

end SmkFs
end AmitX
