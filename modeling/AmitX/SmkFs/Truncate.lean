import AmitX.SmkFs.Rebuild
/-!
# Truncate — what a truncation keeps and what it frees (`smkfs_truncate`)

Where every extent of the file is in the table and every free returns OK, the map of the file is cut at the new end and
the blocks behind it are freed, no others.  An extent that is not in the table is lost with its blocks; a free that the
journal refuses, as it does a range of more blocks than an entry can count, leaves its blocks in use.
-/
namespace AmitX
namespace SmkFs

open Prog Volume Pieces Run

/-! ## Frees that return OK -/

def AllFreed (s : Mount) (ps : List Piece) : Prop := Allowed freePiece (fun _ s p => (freePiece s p).1 = .ok ()) s ps

section

variable {s : Mount} {p : Piece} {ps : List Piece} {j : Nat}

theorem allFreed_cons : AllFreed s (p :: ps) ↔ (freePiece s p).1 = .ok () ∧ AllFreed (freePiece s p).2 ps :=
  allowed_cons (B := fun s p => (freePiece s p).1 = .ok ())

theorem used_freePiece (hl : s.vol.sb.toLayout.WF) (hring : s.vol.RingOk) (hp : InData s.vol.sb.toLayout p)
    (hok : (freePiece s p).1 = .ok ()) (hj : j < s.vol.sb.dataBlocks) : (freePiece s p).2.vol.used j = true ↔
      s.vol.used j = true ∧ s.vol.sb.dataStart + j ∉ p.pairs.map Prod.snd := by
  by_cases hlen : p.len = 0
  · rw [freePiece_of_len hlen, pairs_of_len hlen]
    simp
  · obtain ⟨hlow, hhigh⟩ := hp.bounds hlen
    rw [freePiece, if_neg hlen] at hok ⊢
    have hidx : s.vol.sb.dataStart + (p.dst - s.vol.sb.dataStart) = p.dst := Nat.add_sub_cancel' hlow
    have hrun : bitmapFreeRange (s.vol.sb.dataStart + (p.dst - s.vol.sb.dataStart)) p.len s =
        (.ok (), (bitmapFreeRange p.dst p.len s).2) := by
      rw [hidx]
      exact Prod.ext hok rfl
    have hcleared := (clearedAndLogged_of_ok hl hring (by rw [hl.dataBlocks_eq]; omega) hrun).1
    rw [hcleared j hj, fill, mem_targets]
    split
    · rename_i hin
      simp only [Bool.false_eq_true, false_iff, not_and]
      intro _
      omega
    · rename_i hout
      refine (and_iff_left ?_).symm
      omega

theorem used_frees : ∀ {s : Mount} {ps : List Piece}, s.vol.sb.toLayout.WF → s.vol.RingOk →
    (∀ p ∈ ps, InData s.vol.sb.toLayout p) → AllFreed s ps → ∀ j < s.vol.sb.dataBlocks,
      ((run freePiece s ps).2.vol.used j = true ↔
        s.vol.used j = true ∧ s.vol.sb.dataStart + j ∉ (graph ps).map Prod.snd)
  | s, [], _, _, _, _, j, _ => by simp [run]
  | s, p :: ps, hl, hring, hps, hok, j, hj => by
    obtain ⟨hone, hrest⟩ := allFreed_cons.1 hok
    have hp := hps p List.mem_cons_self
    have hlv := leaves_freePiece hl hring hp
    have ih := used_frees (s := (freePiece s p).2) (by rw [hlv.layout]; exact hl) (hlv.ring hring) (fun q hq => by
      rw [hlv.layout]
      exact hps q (List.mem_cons_of_mem _ hq)) hrest j (by rw [hlv.layout]; exact hj)
    rw [run, ih, used_freePiece hl hring hp hone hj, hlv.layout, graph_cons, List.map_append, List.mem_append, not_or,
      and_assoc]

end

/-! ## Frees where no transfer fails -/

section

variable {s : Mount} {p : Piece} {ps : List Piece} {j : Nat}

theorem journalIsFull_congr {sb sb' : Superblock} (hl : sb'.toLayout = sb.toLayout) (hr : sb'.toRing = sb.toRing) :
    journalIsFull sb' = journalIsFull sb := by
  unfold journalIsFull journalNextPos
  rw [hl, hr]

/-- What a free of blocks in use comes to where nothing fails. -/
structure FreeOutcome (s : Mount) (p : Piece) : Prop where
  reliable : (freePiece s p).2.Reliable
  inTransaction : (freePiece s p).2.vol.journalInTransaction = true
  full : journalIsFull s.vol.sb = true → journalIsFull (freePiece s p).2.vol.sb = true
  result : (freePiece s p).1 = .ok () ∧ p.len ≤ journalDataMax ∨
    (freePiece s p).1 ≠ .ok () ∧ 0 < p.len ∧ SameUsed s.vol (freePiece s p).2.vol ∧
      (journalIsFull s.vol.sb = true ∨ journalDataMax < p.len)

theorem freeOutcome (hs : s.Reliable) (htxn : s.vol.journalInTransaction = true) (hl : s.vol.sb.toLayout.WF)
    (hp : InData s.vol.sb.toLayout p)
    (hused : ∀ b ∈ p.pairs.map Prod.snd, s.vol.used (b - s.vol.sb.dataStart) = true) : FreeOutcome s p := by
  by_cases hlen : p.len = 0
  · have hrun := freePiece_of_len (s := s) hlen
    exact ⟨by rw [hrun]; exact hs, by rw [hrun]; exact htxn, by rw [hrun]; exact id,
      Or.inl ⟨by rw [hrun], by rw [hlen]; exact Nat.zero_le _⟩⟩
  obtain ⟨hlow, hhigh⟩ := hp.bounds hlen
  have hidx : s.vol.sb.dataStart + (p.dst - s.vol.sb.dataStart) = p.dst := Nat.add_sub_cancel' hlow
  have hspec := fwp_bitmapFreeRange_used (v := s.vol) (s := p.dst - s.vol.sb.dataStart) (n := p.len) hl
    (by rw [hl.dataBlocks_eq]; omega) (Nat.pos_of_ne_zero hlen) (fun j hj => by
      have := hused (p.dst + j) (mem_targets.2 ⟨by omega, by omega⟩)
      rw [show p.dst - s.vol.sb.dataStart + j = p.dst + j - s.vol.sb.dataStart by omega]
      exact this)
  rw [hidx] at hspec
  have hpost := fwp_apply (P := fun r v => v.journalInTransaction = true ∧
    (journalIsFull s.vol.sb = true → journalIsFull v.sb = true) ∧ (r = .ok () ∧ p.len ≤ journalDataMax ∨
      r ≠ .ok () ∧ 0 < p.len ∧ SameUsed s.vol v ∧ (journalIsFull s.vol.sb = true ∨ journalDataMax < p.len)))
    (wpAbs_mono hspec (fun _ v h => ?_) (fun e v h => ?_)) ⟨fun h => hs.1 h, fun h => hs.2 h⟩
  · obtain ⟨hinv, htxn', hfull, hres⟩ := hpost
    have hpiece : freePiece s p = bitmapFreeRange p.dst p.len s := if_neg hlen
    exact ⟨by rw [hpiece]; exact ⟨fun h => hinv.1 h, fun h => hinv.2 h⟩, by rw [hpiece]; exact htxn',
      by rw [hpiece]; exact hfull, by rw [hpiece]; exact hres⟩
  · obtain ⟨hin, hacc⟩ := h
    simp only [journalAccepts, Bool.and_eq_true, Bool.not_eq_true', decide_eq_true_eq] at hacc
    refine ⟨hin.trans htxn, fun hfull => ?_, Or.inl ⟨rfl, hacc.2⟩⟩
    rw [hacc.1.2] at hfull
    cases hfull
  · obtain ⟨hsame, hacc, hbits⟩ := h
    refine ⟨hsame.inTransaction.trans htxn, fun hfull => ?_, Or.inr ⟨by simp, Nat.pos_of_ne_zero hlen, hbits, ?_⟩⟩
    · rw [journalIsFull_congr hsame.layout hsame.ring]
      exact hfull
    · by_contra hno
      rw [not_or, Bool.not_eq_true, Nat.not_lt] at hno
      rw [accepts_of htxn hno.1 hno.2] at hacc
      cases hacc

/-- **Frees of blocks in use, where nothing fails**: they all return OK, of ranges that an entry can count; or the blocks
of one stay in use, because it is too long or the journal was full and stays so. -/
structure FreesOutcome (s : Mount) (ps : List Piece) : Prop where
  full : journalIsFull s.vol.sb = true → journalIsFull (run freePiece s ps).2.vol.sb = true
  outside : ∀ j < s.vol.sb.dataBlocks, s.vol.sb.dataStart + j ∉ (graph ps).map Prod.snd →
    (run freePiece s ps).2.vol.used j = s.vol.used j
  result : AllFreed s ps ∧ (∀ p ∈ ps, p.len ≤ journalDataMax) ∨
    (journalIsFull (run freePiece s ps).2.vol.sb = true ∨ ∃ p ∈ ps, journalDataMax < p.len) ∧
      ∃ b ∈ (graph ps).map Prod.snd, (run freePiece s ps).2.vol.used (b - s.vol.sb.dataStart) = true

theorem freesOutcome : ∀ {s : Mount} (ps : List Piece), s.Reliable → s.vol.journalInTransaction = true →
    s.vol.sb.toLayout.WF → s.vol.RingOk → (∀ p ∈ ps, InData s.vol.sb.toLayout p) → Injective ps →
    (∀ b ∈ (graph ps).map Prod.snd, s.vol.used (b - s.vol.sb.dataStart) = true) → FreesOutcome s ps
  | s, [], _, _, _, _, _, _, _ => by
    refine ⟨id, fun _ _ _ => rfl, Or.inl ⟨allowed_nil s, fun p hp => ?_⟩⟩
    cases hp
  | s, p :: ps, hs, htxn, hl, hring, hps, hinj, hused => by
    rw [Injective, graph_cons, List.map_append, List.nodup_append] at hinj
    obtain ⟨-, hinj, hapart⟩ := hinj
    have hp := hps p List.mem_cons_self
    have hown : ∀ b ∈ p.pairs.map Prod.snd, b ∈ (graph (p :: ps)).map Prod.snd := fun b hb => by
      rw [graph_cons, List.map_append]
      exact List.mem_append_left _ hb
    have hrest : ∀ b ∈ (graph ps).map Prod.snd, b ∈ (graph (p :: ps)).map Prod.snd := fun b hb => by
      rw [graph_cons, List.map_append]
      exact List.mem_append_right _ hb
    have hone := freeOutcome hs htxn hl hp (fun b hb => hused b (hown b hb))
    have hlv := leaves_freePiece hl hring hp
    have hl' : (freePiece s p).2.vol.sb.toLayout.WF := by
      rw [hlv.layout]
      exact hl
    have hps' : ∀ q ∈ p :: ps, InData (freePiece s p).2.vol.sb.toLayout q := fun q hq => by
      rw [hlv.layout]
      exact hps q hq
    -- an index of a block of the pieces
    have hindex : ∀ q ∈ p :: ps, ∀ b ∈ q.pairs.map Prod.snd, b - s.vol.sb.dataStart < s.vol.sb.dataBlocks ∧
        s.vol.sb.dataStart + (b - s.vol.sb.dataStart) = b := fun q hq b hb => by
      obtain ⟨hlow, hhigh⟩ := hps q hq b hb
      rw [hl.dataBlocks_eq]
      omega
    have hkeep : ∀ j < s.vol.sb.dataBlocks, s.vol.sb.dataStart + j ∉ p.pairs.map Prod.snd →
        (freePiece s p).2.vol.used j = s.vol.used j := fun j hj hout => by
      rcases hone.result with ⟨hok, -⟩ | ⟨-, -, hsame, -⟩
      · rw [Bool.eq_iff_iff, used_freePiece hl hring hp hok hj]
        exact and_iff_left hout
      · exact hsame j hj
    have ih := freesOutcome ps hone.reliable hone.inTransaction hl' (hlv.ring hring)
      (fun q hq => hps' q (List.mem_cons_of_mem _ hq)) hinj (fun b hb => by
        obtain ⟨x, hx, rfl⟩ := List.mem_map.1 hb
        obtain ⟨q, hq, hxq⟩ := mem_graph.1 (show (x.1, x.2) ∈ graph ps from hx)
        obtain ⟨hlt, hadd⟩ := hindex q (List.mem_cons_of_mem _ hq) x.2 (List.mem_map.2 ⟨_, hxq, rfl⟩)
        rw [hlv.layout, hkeep _ hlt (fun hmem => by
          rw [hadd] at hmem
          exact hapart _ hmem _ hb rfl)]
        exact hused x.2 (hrest x.2 hb))
    have hdata : (freePiece s p).2.vol.sb.dataBlocks = s.vol.sb.dataBlocks := congrArg Layout.dataBlocks hlv.layout
    have hstart : (freePiece s p).2.vol.sb.dataStart = s.vol.sb.dataStart := congrArg Layout.dataStart hlv.layout
    refine ⟨fun hfull => ih.full (hone.full hfull), fun j hj hout => ?_, ?_⟩
    · have hnot : s.vol.sb.dataStart + j ∉ p.pairs.map Prod.snd ∧ s.vol.sb.dataStart + j ∉ (graph ps).map Prod.snd :=
        ⟨fun h => hout (hown _ h), fun h => hout (hrest _ h)⟩
      have hafter := ih.outside j (by rw [hdata]; exact hj) (by rw [hstart]; exact hnot.2)
      exact hafter.trans (hkeep j hj hnot.1)
    · rcases hone.result with ⟨hok, hlen⟩ | ⟨-, hpos, hsame, hwhy⟩
      · rcases ih.result with ⟨hall, hlens⟩ | ⟨hwhy, b, hb, hstays⟩
        · refine Or.inl ⟨allFreed_cons.2 ⟨hok, hall⟩, fun q hq => ?_⟩
          rcases List.mem_cons.1 hq with rfl | hq
          · exact hlen
          · exact hlens q hq
        · refine Or.inr ⟨hwhy.imp id (fun ⟨q, hq, hlong⟩ => ⟨q, List.mem_cons_of_mem _ hq, hlong⟩), b, hrest b hb, ?_⟩
          rw [← hstart]
          exact hstays
      · -- the first block of the piece stays in use
        have hfirst : p.dst ∈ p.pairs.map Prod.snd := mem_targets.2 ⟨Nat.le_refl _, by omega⟩
        obtain ⟨hlt, hadd⟩ := hindex p List.mem_cons_self p.dst hfirst
        refine Or.inr ⟨?_, p.dst, hown _ hfirst, ?_⟩
        · rcases hwhy with hfull | hlong
          · exact Or.inl (ih.full (hone.full hfull))
          · exact Or.inr ⟨p, List.mem_cons_self, hlong⟩
        · have hafter := ih.outside (p.dst - s.vol.sb.dataStart) (by rw [hdata]; exact hlt) (by
            rw [hstart, hadd]
            exact fun hmem => hapart _ hfirst _ hmem rfl)
          rw [run, hafter, hsame _ hlt]
          exact hused _ (hown _ hfirst)

end

/-! ## The call -/

def truncateFrees (newSize : Nat) (attrs : List Attr) : List Piece :=
  if blocksOf newSize < blocksOf (fileSize attrs) then
    ((pieces attrs).take extentTableSize).map (fun p => p.above (blocksOf newSize))
  else []

def truncateKept (newSize : Nat) (attrs : List Attr) : List (Nat × Nat) :=
  if blocksOf newSize < blocksOf (fileSize attrs) then
    graph (((pieces attrs).take extentTableSize).map (fun p => p.below (blocksOf newSize)))
  else blockPairs attrs

section

variable {s s' s₀ : Mount} {id newSize newBlocks : Nat} {rec : Record} {attrs attrs' : List Attr} {e : Extent}

theorem truncateExtent_step (h : truncateExtent newBlocks e attrs s = (.ok attrs', s')) :
    BodyStep (e.piece.above newBlocks) (e.piece.below newBlocks).pairs attrs attrs' s s' := by
  unfold truncateExtent at h
  split at h
  · rename_i hpast
    rw [pairs_of_len (p := e.piece.below newBlocks) (by simp only [Piece.below, Extent.piece]; omega)]
    apply BodyStep.drop
    apply ok_freeIgnored h
    · simp only [Piece.above, Extent.piece]
      omega
    · simp only [Piece.above, Extent.piece]
      omega
  · split at h
    · rename_i hcut
      have hpart : e.piece.below newBlocks = ({ e with blockCount := newBlocks - e.logicalOffset } : Extent).piece := by
        simp only [Piece.below, Extent.piece, Piece.mk.injEq, true_and]
        omega
      rw [hpart]
      apply BodyStep.part
      exact ok_freeIgnored h rfl rfl
    · have hwhole : e.piece.below newBlocks = e.piece := by
        simp only [Piece.below, Extent.piece, Piece.mk.injEq, true_and]
        omega
      rw [hwhole]
      apply BodyStep.keep h
      simp only [Piece.above, Extent.piece]
      omega

theorem truncateBlocks_ok
    (h : (if blocksOf newSize < blocksOf (fileSize attrs) then truncateBlocks (blocksOf newSize) attrs
      else pure attrs : FsM (List Attr)) s = (.ok attrs', s')) :
    s' = (run freePiece s (truncateFrees newSize attrs)).2 ∧ blockPairs attrs' = truncateKept newSize attrs := by
  rw [truncateFrees, truncateKept]
  split at h
  · rename_i hstrip
    have htable : ((recordIterateAttr .extents truncateCollectCb attrs []).2).map Extent.piece =
        (pieces attrs).take extentTableSize := table_pieces attrs
    obtain ⟨hstate, hpairs, -⟩ := rebuild_ok (fun e => e.piece.above (blocksOf newSize))
      (fun e => (e.piece.below (blocksOf newSize)).pairs) _ (fun e _ _ _ _ _ hone => truncateExtent_step hone) h
    rw [if_pos hstrip, if_pos hstrip, graph_map, ← htable, List.map_map, List.flatMap_map]
    refine ⟨hstate, ?_⟩
    rw [hpairs, blockPairs_strip, List.nil_append]
  · rename_i hkeep
    cases h
    rw [if_neg hkeep, if_neg hkeep]
    exact ⟨rfl, rfl⟩

/-- **What a truncation that returned OK has done**: its frees, and the pairs that are kept in the record. -/
structure Truncation (s s' : Mount) (id newSize : Nat) (attrs : List Attr) (s₀ : Mount) : Prop where
  begun : writeBegin id s = (.ok attrs, s₀)
  steps : LeavesFiles s.vol s₀.vol ∧ SameUsed s.vol s₀.vol
  inTransaction : s₀.vol.journalInTransaction = true
  reliable : s.Reliable → s₀.Reliable
  room : journalIsFull (run freePiece s₀ (truncateFrees newSize attrs)).2.vol.sb = false
  record : ∃ rec attrs', s'.vol.RecordAt id rec attrs' ∧ blockPairs attrs' = truncateKept newSize attrs
  layout : s'.vol.sb.toLayout = s.vol.sb.toLayout
  used : ∀ j < s.vol.sb.dataBlocks, s'.vol.used j = (run freePiece s₀ (truncateFrees newSize attrs)).2.vol.used j

theorem truncateFrees_sublist (newSize : Nat) (attrs : List Attr) :
    (graph (truncateFrees newSize attrs)).Sublist (blockPairs attrs) := by
  rw [truncateFrees]
  split
  · exact (graph_map_sublist (fun p => above_sublist p _) _).trans ((List.take_sublist _ _).flatMap _)
  · exact List.nil_sublist _

theorem truncateFrees_inData (newSize : Nat) {v : Volume} (hl : v.sb.toLayout.WF) (hok : v.FileOk id attrs) :
    ∀ p ∈ truncateFrees newSize attrs, InData v.sb.toLayout p := by
  intro p hp b hb
  have hgraph : b ∈ (graph (truncateFrees newSize attrs)).map Prod.snd := by
    obtain ⟨x, hx, rfl⟩ := List.mem_map.1 hb
    exact List.mem_map.2 ⟨x, mem_graph.2 ⟨p, hp, hx⟩, rfl⟩
  have huse := hok.inUse b (List.mem_cons_of_mem _ (((truncateFrees_sublist newSize attrs).map _).subset hgraph))
  have hlow := huse.low
  have hhigh := huse.high
  rw [hl.dataBlocks_eq] at hhigh
  omega

theorem truncation_ok (hl : s.vol.sb.toLayout.WF) (hring : s.vol.RingOk) (hf : s.vol.FileAt id rec attrs)
    (hok : s.vol.FileOk id attrs) (hsize : newSize < fileSize attrs)
    (hrun : smkfsTruncate id newSize s = (.ok (), s')) : ∃ s₀, Truncation s s' id newSize attrs s₀ := by
  unfold smkfsTruncate at hrun
  obtain ⟨m, s₁, hmem, hrun₁⟩ := ok_bind hrun
  obtain ⟨_, s₂, hcheck, hrun₂⟩ := ok_bind hrun₁
  obtain ⟨hnamed, rfl⟩ := ok_failIf hcheck
  obtain ⟨x, s₃, hread, hrun₃⟩ := ok_bind hrun₂
  obtain ⟨-, rfl, -⟩ := readFile_parts hf hmem hread
  dsimp only at hrun₃
  obtain ⟨_, s₄, hcheck, hrun₄⟩ := ok_bind hrun₃
  obtain ⟨htype, rfl⟩ := ok_failIf hcheck
  rw [if_neg (Nat.ne_of_lt hsize)] at hrun₄
  obtain ⟨_, s₀, hstart, hrun₅⟩ := ok_bind hrun₄
  have hbegun : writeBegin id s = (.ok attrs, s₀) := writeBegin_of_parts hmem hnamed hread htype hstart
  obtain ⟨⟨hlv, hused⟩, htxn, hreliable, -⟩ := writeBegin_run hl hring hbegun
  simp only [hsize, true_and] at hrun₅
  obtain ⟨attrs₁, s₅, hblocks, hrun₆⟩ : ∃ attrs₁ s₅,
      (if blocksOf newSize < blocksOf (fileSize attrs) then truncateBlocks (blocksOf newSize) attrs
        else pure attrs : FsM (List Attr)) s₀ = (.ok attrs₁, s₅) ∧
      (do
        let attrs ← orAbort (onAttrs (recordAddAttr attrBufSize .fsize (.u64 newSize)) (recordRemoveAttr .fsize attrs₁))
          .nospc
        abortOnError (recordWrite id rec attrs)
        journalCommit.orThrow .journal : FsM Unit) s₅ = (.ok (), s') := by
    by_cases hstrip : blocksOf newSize < blocksOf (fileSize attrs)
    · rw [if_pos hstrip] at hrun₅ ⊢
      exact ok_bind hrun₅
    · rw [if_neg hstrip] at hrun₅ ⊢
      exact ok_bind hrun₅
  obtain ⟨hstate, hpairs⟩ := truncateBlocks_ok hblocks
  obtain ⟨attrs₂, s₆, hput, hrun₇⟩ := ok_bind hrun₆
  obtain ⟨hadd, hsame⟩ := ok_onAttrs (ok_orAbort hput)
  rw [hsame, hstate] at hrun₇
  obtain ⟨_, s₇, hwrite, hcommit⟩ := ok_bind hrun₇
  have hl₀ : s₀.vol.sb.toLayout.WF := by
    rw [hlv.layout]
    exact hl
  have hfrees := leaves_frees (truncateFrees newSize attrs) hl₀ (hlv.ring hring) (by
    rw [hlv.layout]
    exact truncateFrees_inData newSize hl hok)
  have hlv' := hlv.trans hfrees
  have hslot : s.vol.sb.dataStart ≤ (s.vol.mrtEntry id).physicalBlock := (hok.inUse _ List.mem_cons_self).low
  have hr := (hlv'.recordAt hl (fun _ => hslot)).2 hf.toRecordAt
  have hdone := ok_rewrite (by rw [hlv'.layout]; exact hl) (hlv'.ring hring) hr
    (by rw [hlv'.mrtEntry hl, hlv'.layout]; exact hslot) rfl
    (ok_abortOnError hwrite) (ok_orThrow hcommit)
  refine ⟨s₀, hbegun, ⟨hlv, hused⟩, htxn, hreliable, hdone.room, ⟨rec, attrs₂, hdone.record, ?_⟩,
    hdone.layout.trans hlv'.layout, fun j hj => hdone.used j (by rw [hlv'.layout]; exact hj)⟩
  rw [← hpairs]
  apply blockPairs_congr
  rw [extentsOf_addSize hadd, extentsOf_removeAttr (by decide)]

end

/-! ## What is kept and what is freed -/

def ceilBlocks (newSize : Nat) : Nat := (newSize + (blockSize - 1)) / blockSize

/-- **What a truncation is for**: the blocks below the new end lie where they lay, those from there on are not found, and
the blocks of the disk that were freed are exactly those in which these lay. -/
structure Mount.Truncates (s : Mount) (id newSize : Nat) (s' : Mount) : Prop where
  below : ∀ l < ceilBlocks newSize, s'.resolve id l = s.resolve id l
  beyond : ∀ l, ceilBlocks newSize ≤ l → (extentResolve id l s'.faultless).1 = .error .notfound
  freed : ∀ j < s.sb.dataBlocks, (s.vol.used j = true ∧ s'.vol.used j = false) ↔
    ∃ l, ceilBlocks newSize ≤ l ∧ s.resolve id l = some (s.sb.dataStart + j)

/-- The extents all fit into the table, if they are taken out; if not, nothing is mapped behind the new end. -/
def TruncateFits (newSize : Nat) (attrs : List Attr) : Prop :=
  if blocksOf newSize < blocksOf (fileSize attrs) then (extentsOf attrs).length ≤ extentTableSize
  else ∀ l, ceilBlocks newSize ≤ l → blockOf attrs l = none

/-- Every `bitmap_free_range` of the truncation returns OK. -/
def Mount.FreesPass (s : Mount) (id newSize : Nat) : Prop :=
  ∀ attrs s₀, writeBegin id s = (.ok attrs, s₀) → AllFreed s₀ (truncateFrees newSize attrs)

section

variable {s s' s₀ : Mount} {id newSize l b : Nat} {rec : Record} {attrs attrs' : List Attr}

theorem blocksOf_eq (hold : fileSize attrs < 2 ^ 64) (hsize : newSize < fileSize attrs)
    (hstrip : blocksOf newSize < blocksOf (fileSize attrs)) : blocksOf newSize = ceilBlocks newSize := by
  have hblock : blockSize = 4096 := rfl
  unfold blocksOf add64 at hstrip
  rw [hblock] at hstrip
  unfold blocksOf add64 ceilBlocks
  rw [hblock]
  omega

theorem truncateKept_sublist (newSize : Nat) (attrs : List Attr) :
    (truncateKept newSize attrs).Sublist (blockPairs attrs) := by
  rw [truncateKept]
  split
  · exact (graph_map_sublist (fun p => below_sublist p _) _).trans ((List.take_sublist _ _).flatMap _)
  · exact List.Sublist.refl _

theorem functional_kept (h : Extents attrs) (hkept : blockPairs attrs' = truncateKept newSize attrs) :
    Functional (pieces attrs') := by
  apply h.functional.of_sublist
  rw [← blockPairs, hkept]
  exact truncateKept_sublist newSize attrs

theorem Volume.RecordAt.notfound (hr : s.vol.RecordAt id rec attrs) (hs : s.vol.sectorOk) (hnone : blockOf attrs l = none) :
    (extentResolve id l s.faultless).1 = .error .notfound := by
  obtain ⟨hd, hh⟩ := faultless_reliable s
  have hpost := (fwp_apply (s := s.faultless) (P := fun r _ => r = .error .notfound)
    (wpAbs_mono (fwp_extentResolve False False s.faultless.vol id l) (fun e _ h => ?_) (fun e _ h => ?_))
    ⟨fun h => hd h, fun h => hh h⟩).2
  · exact hpost
  · obtain ⟨-, rec', attrs', hr', hblock⟩ := h
    rw [← (hr.unique hr').2, hnone] at hblock
    cases hblock
  · rcases h.2 rec attrs hr hs with ⟨rfl, -⟩ | ⟨-, h⟩ | ⟨-, h⟩
    · rfl
    · exact h.elim
    · exact h.elim

theorem Truncation.lookups (h : Truncation s s' id newSize attrs s₀) (hl : s.vol.sb.toLayout.WF) :
    ∃ attrs', blockPairs attrs' = truncateKept newSize attrs ∧ (∀ l, s'.resolve id l = blockOf attrs' l) ∧
      ∀ l, blockOf attrs' l = none → (extentResolve id l s'.faultless).1 = .error .notfound := by
  obtain ⟨rec, attrs', hr, hkept⟩ := h.record
  have hsec : s'.vol.sectorOk := sectorOk_of_wf (by
    rw [h.layout]
    exact hl)
  exact ⟨attrs', hkept, fun l => resolve_eq hr hsec, fun l hnone => hr.notfound hsec hnone⟩

theorem mem_truncateFrees (hstrip : blocksOf newSize < blocksOf (fileSize attrs)) :
    b ∈ (graph (truncateFrees newSize attrs)).map Prod.snd ↔
      ∃ l, blocksOf newSize ≤ l ∧ (l, b) ∈ graph ((pieces attrs).take extentTableSize) := by
  rw [truncateFrees, if_pos hstrip]
  simp only [List.mem_map, Prod.exists, exists_eq_right, mem_graph_above]
  exact exists_congr (fun l => and_comm)

theorem take_pieces (h : (extentsOf attrs).length ≤ extentTableSize) : (pieces attrs).take extentTableSize = pieces attrs :=
  List.take_of_length_le (by rw [pieces, List.length_map]; exact h)

theorem blockOf_kept (hext : Extents attrs) (hstrip : blocksOf newSize < blocksOf (fileSize attrs))
    (hfit : (extentsOf attrs).length ≤ extentTableSize) (hkept : blockPairs attrs' = truncateKept newSize attrs) (l : Nat) :
    blockOf attrs' l = if l < blocksOf newSize then blockOf attrs l else none := by
  have hfilter := lookup_filter (P := fun l => decide (l < blocksOf newSize)) hext.functional
    (functional_kept hext hkept) (fun x => by
      rw [← blockPairs, hkept, truncateKept, if_pos hstrip, take_pieces hfit, mem_graph_below, decide_eq_true_eq]) l
  simp only [decide_eq_true_eq] at hfilter
  exact hfilter

theorem used_of_mapped {j : Nat} (hok : s.vol.FileOk id attrs) (h : (l, s.vol.sb.dataStart + j) ∈ blockPairs attrs) :
    s.vol.used j = true := by
  have huse := (hok.inUse _ (List.mem_cons_of_mem _ (List.mem_map.2 ⟨_, h, rfl⟩))).used
  rwa [Nat.add_sub_cancel_left] at huse

theorem Truncation.truncates (h : Truncation s s' id newSize attrs s₀) (hl : s.vol.sb.toLayout.WF) (hring : s.vol.RingOk)
    (hf : s.vol.FileAt id rec attrs) (hok : s.vol.FileOk id attrs) (hold : fileSize attrs < 2 ^ 64)
    (hsize : newSize < fileSize attrs) (hfits : TruncateFits newSize attrs)
    (hpass : AllFreed s₀ (truncateFrees newSize attrs)) : s.Truncates id newSize s' := by
  obtain ⟨attrs', hkept, hresolve, hnone⟩ := h.lookups hl
  obtain ⟨⟨hlv, hsame⟩, hused⟩ := And.intro h.steps h.used
  have hsec : s.vol.sectorOk := sectorOk_of_wf hl
  have hold' : ∀ l, s.resolve id l = blockOf attrs l := fun l => resolve_eq hf.toRecordAt hsec
  have hlayout : s₀.vol.sb.toLayout = s.vol.sb.toLayout := hlv.layout
  have hfrees : ∀ j < s.vol.sb.dataBlocks, (s'.vol.used j = true ↔
      s.vol.used j = true ∧ s.vol.sb.dataStart + j ∉ (graph (truncateFrees newSize attrs)).map Prod.snd) := by
    intro j hj
    have hrun := used_frees (by rw [hlayout]; exact hl) (hlv.ring hring)
      (by rw [hlayout]; exact truncateFrees_inData newSize hl hok) hpass j (by rw [hlayout]; exact hj)
    rw [hused j hj, hrun, hsame j hj, hlayout]
  have hfreed : (∀ {j}, s.vol.sb.dataStart + j ∈ (graph (truncateFrees newSize attrs)).map Prod.snd ↔
      ∃ l, ceilBlocks newSize ≤ l ∧ s.resolve id l = some (s.vol.sb.dataStart + j)) →
      ∀ j < s.vol.sb.dataBlocks, (s.vol.used j = true ∧ s'.vol.used j = false) ↔
        ∃ l, ceilBlocks newSize ≤ l ∧ s.resolve id l = some (s.vol.sb.dataStart + j) := by
    intro htargets j hj
    rw [← htargets, ← Bool.not_eq_true, hfrees j hj, not_and, Decidable.not_not]
    refine ⟨fun hx => hx.2 hx.1, fun hx => ⟨?_, fun _ => hx⟩⟩
    obtain ⟨l, -, hl'⟩ := htargets.1 hx
    exact used_of_mapped hok ((blockOf_eq_some hok.extents).1 ((hold' l).symm.trans hl'))
  unfold TruncateFits at hfits
  by_cases hstrip : blocksOf newSize < blocksOf (fileSize attrs)
  · rw [if_pos hstrip] at hfits
    have hceil := blocksOf_eq hold hsize hstrip
    have hcut := blockOf_kept hok.extents hstrip hfits hkept
    rw [hceil] at hcut
    refine ⟨fun l hlt => ?_, fun l hle => ?_, hfreed (fun {j} => ?_)⟩
    · rw [hresolve, hcut, if_pos hlt, hold']
    · apply hnone
      rw [hcut, if_neg (by omega)]
    · rw [mem_truncateFrees hstrip, hceil, take_pieces hfits]
      exact exists_congr (fun l => and_congr_right (fun _ => by rw [hold', blockOf_eq_some hok.extents, blockPairs]))
  · rw [if_neg hstrip] at hfits
    rw [truncateKept, if_neg hstrip] at hkept
    have hcopy : ∀ l, blockOf attrs' l = blockOf attrs l := by
      have hgraph := lookup_congr hok.extents.functional (functional_kept hok.extents
        (show blockPairs attrs' = truncateKept newSize attrs by rw [hkept, truncateKept, if_neg hstrip]))
        (fun x => by rw [← blockPairs, hkept, blockPairs])
      exact fun l => congrFun hgraph l
    refine ⟨fun l _ => by rw [hresolve, hcopy, hold'], fun l hle => hnone l (by rw [hcopy, hfits l hle]),
      hfreed (fun {j} => ?_)⟩
    rw [truncateFrees, if_neg hstrip]
    refine iff_of_false (by simp) ?_
    rintro ⟨l, hle, hsome⟩
    rw [hold', hfits l hle] at hsome
    cases hsome

/-- An extent that is not in the table keeps a truncation from doing what it is for: it is lost below the new end, or its
blocks stay in use behind it. -/
theorem Truncation.fits (h : Truncation s s' id newSize attrs s₀) (hl : s.vol.sb.toLayout.WF)
    (hf : s.vol.FileAt id rec attrs) (hok : s.vol.FileOk id attrs) (hout : ∀ j < s.vol.sb.dataBlocks,
      s.vol.sb.dataStart + j ∉ (graph (truncateFrees newSize attrs)).map Prod.snd → s'.vol.used j = s.vol.used j)
    (htrunc : s.Truncates id newSize s') : TruncateFits newSize attrs := by
  obtain ⟨attrs', hkept, hresolve, -⟩ := h.lookups hl
  have hold' : ∀ l, s.resolve id l = blockOf attrs l := fun l => resolve_eq hf.toRecordAt (sectorOk_of_wf hl)
  unfold TruncateFits
  split
  · rename_i hstrip
    rw [truncateKept, if_pos hstrip] at hkept
    by_contra hmany
    -- the first pair of an extent behind the table
    have hdrop : (pieces attrs).drop extentTableSize ≠ [] := by
      rw [ne_eq, List.drop_eq_nil_iff, pieces, List.length_map]
      exact hmany
    obtain ⟨p, hp⟩ := List.exists_mem_of_ne_nil _ hdrop
    have hlen : 0 < p.len := by
      obtain ⟨x, hx, rfl⟩ := List.mem_map.1 (List.mem_of_mem_drop hp)
      exact hok.extents.nonempty x hx
    have hpair : (p.src, p.dst) ∈ graph ((pieces attrs).drop extentTableSize) :=
      mem_graph.2 ⟨p, hp, mem_pairs.2 ⟨Nat.le_refl _, by omega, by omega⟩⟩
    have hmapped : (p.src, p.dst) ∈ blockPairs attrs := by
      rw [blockPairs, graph_take extentTableSize]
      exact List.mem_append_right _ hpair
    have hsome : s.resolve id p.src = some p.dst := by
      rw [hold']
      exact (blockOf_eq_some hok.extents).2 hmapped
    have hsrc : ∀ b, (p.src, b) ∉ graph ((pieces attrs).take extentTableSize) := fun b hb => by
      have hnodup := hok.extents.functional
      rw [Functional, graph_take extentTableSize, List.map_append, List.nodup_append] at hnodup
      exact hnodup.2.2 _ (List.mem_map.2 ⟨_, hb, rfl⟩) _ (List.mem_map.2 ⟨_, hpair, rfl⟩) rfl
    have hdst : ∀ l, (l, p.dst) ∉ graph ((pieces attrs).take extentTableSize) := fun l hb => by
      have hnodup := hok.extents.injective
      rw [Injective, graph_take extentTableSize, List.map_append, List.nodup_append] at hnodup
      exact hnodup.2.2 _ (List.mem_map.2 ⟨_, hb, rfl⟩) _ (List.mem_map.2 ⟨_, hpair, rfl⟩) rfl
    by_cases hlow : p.src < ceilBlocks newSize
    · have hafter := (htrunc.below _ hlow).trans hsome
      rw [hresolve] at hafter
      have hin := mem_of_lookup hafter
      rw [← blockPairs, hkept, mem_graph_below] at hin
      exact hsrc _ hin.1
    · have huse := hok.inUse p.dst (List.mem_cons_of_mem _ (List.mem_map.2 ⟨_, hmapped, rfl⟩))
      have hidx : s.vol.sb.dataStart + (p.dst - s.vol.sb.dataStart) = p.dst := Nat.add_sub_cancel' huse.low
      have hclear := ((htrunc.freed _ huse.high).2 ⟨p.src, by omega, by rw [hsome]; exact congrArg some hidx.symm⟩).2
      rw [hout _ huse.high (by
        rw [hidx, mem_truncateFrees hstrip]
        rintro ⟨l, -, hl'⟩
        exact hdst l hl'), huse.used] at hclear
      cases hclear
  · rename_i hkeep
    intro l hle
    rw [truncateKept, if_neg hkeep] at hkept
    have hnone := htrunc.beyond l hle
    have hafter : s'.resolve id l = none := by
      rw [Mount.resolve, hnone]
    rw [hresolve, blockOf, lookup_eq_none, ← blockPairs, hkept] at hafter
    exact lookup_eq_none.2 hafter

/-- **When a truncation does what it is for.**  Whatever fails, it does where the extents fit into the table and every free
returns OK.  Where nothing fails, it does exactly where they fit and no range that is freed has more blocks than an entry
can count. -/
theorem truncate_exact (hl : s.vol.sb.toLayout.WF) (hring : s.vol.RingOk) (hf : s.vol.FileAt id rec attrs)
    (hok : s.vol.FileOk id attrs) (hold : fileSize attrs < 2 ^ 64) (hsize : newSize < fileSize attrs)
    (hrun : smkfsTruncate id newSize s = (.ok (), s')) :
    (TruncateFits newSize attrs → s.FreesPass id newSize → s.Truncates id newSize s') ∧
      (s.Reliable → (s.Truncates id newSize s' ↔
        TruncateFits newSize attrs ∧ ∀ p ∈ truncateFrees newSize attrs, p.len ≤ journalDataMax)) := by
  obtain ⟨s₀, h⟩ := truncation_ok hl hring hf hok hsize hrun
  refine ⟨fun hfits hpass => h.truncates hl hring hf hok hold hsize hfits (hpass attrs s₀ h.begun), fun hs => ?_⟩
  obtain ⟨⟨hlv, hsame⟩, hused⟩ := And.intro h.steps h.used
  have hlayout : s₀.vol.sb.toLayout = s.vol.sb.toLayout := hlv.layout
  have hdata := truncateFrees_inData newSize hl hok
  have hmap : ∀ b ∈ (graph (truncateFrees newSize attrs)).map Prod.snd, b ∈ s.vol.owned id attrs := fun b hb =>
    List.mem_cons_of_mem _ (((truncateFrees_sublist newSize attrs).map _).subset hb)
  have hout := freesOutcome (truncateFrees newSize attrs) (h.reliable hs) h.inTransaction
    (by rw [hlayout]; exact hl) (hlv.ring hring) (by rw [hlayout]; exact hdata)
    (hok.extents.injective.of_sublist (truncateFrees_sublist newSize attrs)) (fun b hb => by
      have huse := hok.inUse b (hmap b hb)
      rw [hlayout, hsame _ huse.high]
      exact huse.used)
  constructor
  · intro htrunc
    have hkeeps : ∀ j < s.vol.sb.dataBlocks,
        s.vol.sb.dataStart + j ∉ (graph (truncateFrees newSize attrs)).map Prod.snd → s'.vol.used j = s.vol.used j :=
      fun j hj hnot => by
        rw [hused j hj, hout.outside j (by rw [hlayout]; exact hj) (by rw [hlayout]; exact hnot), hsame j hj]
    refine ⟨h.fits hl hf hok hkeeps htrunc, ?_⟩
    rcases hout.result with ⟨-, hlens⟩ | ⟨-, b, hb, hstays⟩
    · exact hlens
    · -- a block that stays in use lay behind the new end
      by_cases hstrip : blocksOf newSize < blocksOf (fileSize attrs)
      · have huse := hok.inUse b (hmap b hb)
        have hidx : s.vol.sb.dataStart + (b - s.vol.sb.dataStart) = b := Nat.add_sub_cancel' huse.low
        obtain ⟨l, hle, hpair⟩ := (mem_truncateFrees hstrip).1 hb
        rw [blocksOf_eq hold hsize hstrip] at hle
        have hmapped : (l, b) ∈ blockPairs attrs := by
          rw [blockPairs, graph_take extentTableSize]
          exact List.mem_append_left _ hpair
        have hsome : s.resolve id l = some b :=
          (resolve_eq hf.toRecordAt (sectorOk_of_wf hl)).trans ((blockOf_eq_some hok.extents).2 hmapped)
        have hclear := ((htrunc.freed _ huse.high).2 ⟨l, hle, by rw [hsome]; exact congrArg some hidx.symm⟩).2
        rw [hlayout] at hstays
        rw [hused _ huse.high, hstays] at hclear
        cases hclear
      · rw [truncateFrees, if_neg hstrip] at hb
        cases hb
  · rintro ⟨hfits, hlens⟩
    rcases hout.result with ⟨hpass, -⟩ | ⟨hfull | ⟨p, hp, hlong⟩, -⟩
    · exact h.truncates hl hring hf hok hold hsize hfits hpass
    · rw [h.room] at hfull
      cases hfull
    · exact absurd (hlens p hp) (Nat.not_le.2 hlong)

end

/-! ## A file that is cut, and one that is not -/

/-- A file of two blocks cut down to one byte. -/
theorem truncate_exact_two :
    (fileDisk twoBlocks 0).Truncates 2 1 (smkfsTruncate 2 1 (fileDisk twoBlocks 0)).2 := by
  obtain ⟨hs, hl, hring⟩ := fileDisk_ready twoBlocks 0
  have hok : (smkfsTruncate 2 1 (fileDisk twoBlocks 0)).1 = .ok () := by decide +kernel
  have hiff := (truncate_exact hl hring (fileDisk_file twoBlocks 0) (twoBlocks_ok 0) (by decide) (by decide)
    (Prod.ext hok rfl)).2 hs
  have hstrip : blocksOf 1 < blocksOf (fileSize twoBlocks) := by decide +kernel
  refine hiff.2 ⟨?_, by decide +kernel⟩
  rw [TruncateFits, if_pos hstrip]
  decide

def manyExtents : List Attr :=
  (List.range 33).map (fun i => ⟨.extents, i, .extent ⟨2 * i, 300 + 2 * i, 1⟩⟩) ++ [⟨.fsize, 0, .u64 266240⟩]

theorem manyExtents_ok (x : UInt8) : (fileDisk manyExtents x).vol.FileOk 2 manyExtents := by
  refine fileDisk_fileOk manyExtents x ⟨⟨?_, by decide, by decide, by decide⟩, ?_, ?_⟩ (by decide)
  · intro a ha ht
    rcases List.mem_append.1 ha with ha | ha
    · obtain ⟨i, -, rfl⟩ := List.mem_map.1 ha
      exact ⟨_, rfl⟩
    · rw [List.mem_singleton.1 ha] at ht
      cases ht
  · unfold Functional
    decide
  · unfold Injective
    decide

/-- **A file of 33 extents, truncated**: the last extent is in no table, its block stays in use and belongs to no file. -/
theorem not_truncates : ¬∀ {s s' : Mount} {id newSize : Nat} {rec : Record} {attrs : List Attr},
    s.vol.sb.toLayout.WF → s.vol.RingOk → s.vol.FileAt id rec attrs → s.vol.FileOk id attrs →
    fileSize attrs < 2 ^ 64 → newSize < fileSize attrs → smkfsTruncate id newSize s = (.ok (), s') →
      s.Truncates id newSize s' := by
  intro h
  obtain ⟨-, hl, hring⟩ := fileDisk_ready manyExtents 0
  have hok : (smkfsTruncate 2 1 (fileDisk manyExtents 0)).1 = .ok () := by decide +kernel
  have htrunc := h hl hring (fileDisk_file manyExtents 0) (manyExtents_ok 0) (by decide) (by decide) (Prod.ext hok rfl)
  have hmapped : (fileDisk manyExtents 0).resolve 2 64 = some ((fileDisk manyExtents 0).sb.dataStart + 194) := by
    decide +kernel
  have hclear := ((htrunc.freed 194 (by decide +kernel)).2 ⟨64, by decide, hmapped⟩).2
  have hstays : (smkfsTruncate 2 1 (fileDisk manyExtents 0)).2.vol.used 194 = true := by decide +kernel
  rw [hstays] at hclear
  cases hclear

end SmkFs
end AmitX
