import AmitX.SmkFs.ReadSpec
import AmitX.SmkFs.Rebuild
/-!
# PuncHole — what a punched hole clears (`smkfs_punc_hole`)

The hole is rounded outwards to whole blocks, so that the bytes beside it in its first and last block are cleared with
it; and an extent that is not in the table is lost.  A punch clears only the hole exactly where all the bytes that it
clears outside are zeros.
-/
namespace AmitX
namespace SmkFs

open Prog Volume Pieces Run

/-! ## The extents of the table -/

/-- The pair is not of a logical block in `[holeStart, holeEnd)`. -/
def outsideHole (holeStart holeEnd : Nat) (x : Nat × Nat) : Bool := decide ¬(holeStart ≤ x.1 ∧ x.1 < holeEnd)

/-- The ends of the hole are in order, or all of the extent lies behind the first or before the second. -/
def HoleFits (holeStart holeEnd : Nat) (p : Piece) : Prop :=
  holeStart ≤ holeEnd ∨ holeEnd ≤ p.src ∨ p.src + p.len ≤ holeStart

section

variable {s s' : Mount} {holeStart holeEnd : Nat} {attrs attrs' : List Attr} {e : Extent}

theorem puncExtent_step (hfits : HoleFits holeStart holeEnd e.piece) (hcount : e.blockCount < 2 ^ 32)
    (hphys : e.physicalBlock + e.blockCount < 2 ^ 64) (h : puncExtent holeStart holeEnd e attrs s = (.ok attrs', s')) :
    BodyStep ((e.piece.above holeStart).below holeEnd) (e.piece.pairs.filter (outsideHole holeStart holeEnd))
      attrs attrs' s s' := by
  have hfits : holeStart ≤ holeEnd ∨ holeEnd ≤ e.logicalOffset ∨ e.logicalOffset + e.blockCount ≤ holeStart := hfits
  unfold puncExtent at h
  dsimp only at h
  split at h
  · rename_i hout
    have hall : e.piece.pairs.filter (outsideHole holeStart holeEnd) = e.piece.pairs := by
      rw [List.filter_eq_self]
      rintro ⟨l, b⟩ hlb
      have hbounds := mem_pairs.1 hlb
      simp only [Extent.piece] at hbounds
      simp only [outsideHole, decide_eq_true_eq]
      omega
    rw [hall]
    apply BodyStep.keep h
    simp only [Piece.below, Piece.above, Extent.piece]
    omega
  rename_i hin
  have hle : holeStart ≤ holeEnd := by omega
  have hpairs : e.piece.pairs.filter (outsideHole holeStart holeEnd) =
      (e.piece.below holeStart).pairs ++ (e.piece.above holeEnd).pairs := pairs_filter e.piece hle
  rw [hpairs]
  split at h
  · have hlow : (e.piece.below holeStart).pairs = [] := pairs_of_len (by simp only [Piece.below, Extent.piece]; omega)
    have hhigh : (e.piece.above holeEnd).pairs = [] := pairs_of_len (by simp only [Piece.above, Extent.piece]; omega)
    rw [hlow, hhigh]
    apply BodyStep.drop
    apply ok_freeIgnored h
    · simp only [Piece.below, Piece.above, Extent.piece]
      omega
    · simp only [Piece.below, Piece.above, Extent.piece]
      omega
  split at h
  · obtain ⟨attrs₁, s₁, hleft, hrest⟩ := ok_bind h
    obtain ⟨rfl, rfl⟩ := ok_putExtent hleft
    have hsub : sub64 holeEnd holeStart = holeEnd - holeStart := by
      unfold sub64
      omega
    have hmod : (holeEnd - holeStart) % 2 ^ 32 = holeEnd - holeStart := Nat.mod_eq_of_lt (by omega)
    have hadd : add64 (e.physicalBlock + (holeStart - e.logicalOffset)) (holeEnd - holeStart) =
        e.physicalBlock + (holeEnd - e.logicalOffset) := by
      rw [add64_of_lt (by omega)]
      omega
    rw [hsub, hmod, hadd] at hrest
    have hright := ok_freeIgnored (p := (e.piece.above holeStart).below holeEnd) hrest
      (by simp only [Piece.below, Piece.above, Extent.piece])
      (by simp only [Piece.below, Piece.above, Extent.piece]; omega)
    have hstep := BodyStep.part hright
    have hleftPiece : ({ e with blockCount := holeStart - e.logicalOffset } : Extent).piece = e.piece.below holeStart := by
      simp only [Piece.below, Extent.piece, Piece.mk.injEq, true_and]
      omega
    have hrightPiece : (Extent.mk holeEnd (e.physicalBlock + (holeEnd - e.logicalOffset))
        (e.logicalOffset + e.blockCount - holeEnd)).piece = e.piece.above holeEnd := by
      simp only [Piece.above, Extent.piece, Piece.mk.injEq, true_and]
      omega
    refine ⟨hstep.state, ?_, hstep.size.trans (fileSize_push _ _)⟩
    rw [hstep.pairs, blockPairs_push, hleftPiece, hrightPiece, List.append_assoc]
  split at h
  · obtain ⟨attrs₁, s₁, hleft, hrest⟩ := ok_bind h
    obtain ⟨rfl, rfl⟩ := ok_putExtent hleft
    have hdone := ok_freeIgnored (p := (e.piece.above holeStart).below holeEnd) hrest
      (by simp only [Piece.below, Piece.above, Extent.piece])
      (by simp only [Piece.below, Piece.above, Extent.piece]; omega)
    have hstep := BodyStep.drop hdone
    have hhigh : (e.piece.above holeEnd).pairs = [] := pairs_of_len (by simp only [Piece.above, Extent.piece]; omega)
    have hleftPiece : ({ e with blockCount := holeStart - e.logicalOffset } : Extent).piece = e.piece.below holeStart := by
      simp only [Piece.below, Extent.piece, Piece.mk.injEq, true_and]
      omega
    refine ⟨hstep.state, ?_, hstep.size.trans (fileSize_push _ _)⟩
    rw [hstep.pairs, blockPairs_push, hleftPiece, hhigh, List.append_assoc]
  split at h
  · have hlow : (e.piece.below holeStart).pairs = [] := pairs_of_len (by simp only [Piece.below, Extent.piece]; omega)
    have hrightPiece : (Extent.mk holeEnd (e.physicalBlock + (holeEnd - e.logicalOffset))
        (e.logicalOffset + e.blockCount - holeEnd)).piece = e.piece.above holeEnd := by
      simp only [Piece.above, Extent.piece, Piece.mk.injEq, true_and]
      omega
    rw [hlow, List.nil_append, ← hrightPiece]
    apply BodyStep.part
    apply ok_freeIgnored h
    · simp only [Piece.below, Piece.above, Extent.piece]
      omega
    · simp only [Piece.below, Piece.above, Extent.piece]
      omega
  · -- no case is left
    omega

end

/-! ## The call -/

def holeLen (attrs : List Attr) (offset len : Nat) : Nat :=
  if fileSize attrs < add64 offset len then fileSize attrs - offset else len

def holeEnd (attrs : List Attr) (offset len : Nat) : Nat := blocksOf (add64 offset (holeLen attrs offset len))

def puncFrees (attrs : List Attr) (offset len : Nat) : List Piece :=
  ((pieces attrs).take extentTableSize).map (fun p => (p.above (offset / blockSize)).below (holeEnd attrs offset len))

/-- The ends of the hole are in order, or no extent in the table lies around both; where `offset + len` wraps they need
not be. -/
def PuncFits (attrs : List Attr) (offset len : Nat) : Prop :=
  ∀ p ∈ (pieces attrs).take extentTableSize, HoleFits (offset / blockSize) (holeEnd attrs offset len) p

section

variable {s s' : Mount} {id offset len pos : Nat} {rec : Record} {attrs attrs' : List Attr}
  {other : BlockData → Nat → UInt8}

theorem puncFrees_inData {v : Volume} (hl : v.sb.toLayout.WF) (hok : v.FileOk id attrs) :
    ∀ p ∈ puncFrees attrs offset len, InData v.sb.toLayout p := by
  intro q hq b hb
  obtain ⟨p, hp, rfl⟩ := List.mem_map.1 hq
  have hmem : b ∈ (blockPairs attrs).map Prod.snd := by
    obtain ⟨x, hx, rfl⟩ := List.mem_map.1 hb
    exact List.mem_map.2 ⟨x, mem_graph.2 ⟨p, List.mem_of_mem_take hp, (mem_above.1 (mem_below.1 hx).1).1⟩, rfl⟩
  have huse := hok.inUse b (List.mem_cons_of_mem _ hmem)
  have hlow := huse.low
  have hhigh := huse.high
  rw [hl.dataBlocks_eq] at hhigh
  omega

theorem extent_end {v : Volume} (hl : v.sb.toLayout.WF) (hok : v.FileOk id attrs) {x : Nat × Extent}
    (hx : x ∈ extentsOf attrs) : x.2.physicalBlock + x.2.blockCount < 2 ^ 64 := by
  have hpos := hok.extents.nonempty x hx
  have hlast : x.2.physicalBlock + (x.2.blockCount - 1) ∈ (blockPairs attrs).map Prod.snd := by
    have hpair : x.2.physicalBlock + (x.2.blockCount - 1) ∈ x.2.piece.pairs.map Prod.snd := mem_targets.2 (by
      simp only [Extent.piece]
      omega)
    obtain ⟨y, hy, hyb⟩ := List.mem_map.1 hpair
    exact List.mem_map.2 ⟨y, mem_graph.2 ⟨x.2.piece, List.mem_map.2 ⟨x, hx, rfl⟩, hy⟩, hyb⟩
  have huse := hok.inUse _ (List.mem_cons_of_mem _ hlast)
  have hlow := huse.low
  have hhigh := huse.high
  have htotal := hl.total
  rw [hl.dataBlocks_eq] at hhigh
  omega

/-- **What a punch that returned OK has done**, whatever failed: the record maps the pairs of the table outside the hole,
and the data are as they were. -/
structure Punch (s s' : Mount) (id offset len : Nat) (rec : Record) (attrs : List Attr) (attrs' : List Attr) : Prop where
  named : s.mounted = true ∧ id ≠ 0
  file : s'.vol.FileAt id rec attrs'
  pairs : blockPairs attrs' = (graph ((pieces attrs).take extentTableSize)).filter
    (outsideHole (offset / blockSize) (holeEnd attrs offset len))
  size : fileSize attrs' = fileSize attrs
  layout : s'.vol.sb.toLayout = s.vol.sb.toLayout
  mounted : s'.mounted = true
  view : ∀ b, s.vol.sb.dataStart ≤ b → b ≠ (s.vol.mrtEntry id).physicalBlock → s'.vol.view b = s.vol.view b

theorem punch_ok (hl : s.vol.sb.toLayout.WF) (hring : s.vol.RingOk) (hf : s.vol.FileAt id rec attrs)
    (hok : s.vol.FileOk id attrs) (hcount : ∀ x ∈ extentsOf attrs, x.2.blockCount < 2 ^ 32)
    (hfits : PuncFits attrs offset len) (hrun : smkfsPuncHole id offset len s = (.ok (), s')) :
    (s.mounted = true ∧ id ≠ 0) ∧ (fileSize attrs ≤ offset ∧ s'.vol = s.vol ∨
      offset < fileSize attrs ∧ ∃ attrs', Punch s s' id offset len rec attrs attrs') := by
  unfold smkfsPuncHole at hrun
  obtain ⟨m, s₁, hmem, hrun₁⟩ := ok_bind hrun
  obtain ⟨_, s₂, hcheck, hrun₂⟩ := ok_bind hrun₁
  obtain ⟨hchecked, rfl⟩ := ok_failIf hcheck
  obtain ⟨x, s₃, hread, hrun₃⟩ := ok_bind hrun₂
  obtain ⟨hm, rfl, hvol⟩ := readFile_parts hf hmem hread
  dsimp only at hrun₃
  obtain ⟨_, s₄, hcheck, hrun₄⟩ := ok_bind hrun₃
  obtain ⟨htype, rfl⟩ := ok_failIf hcheck
  have hnamed : s.mounted = true ∧ id ≠ 0 := by
    rw [hm] at hchecked
    simp only [not_or, Bool.not_eq_false] at hchecked
    exact ⟨hchecked.1, hchecked.2.1⟩
  refine ⟨hnamed, ?_⟩
  by_cases hpast : fileSize attrs ≤ offset
  · rw [if_pos hpast] at hrun₄
    cases hrun₄
    exact Or.inl ⟨hpast, hvol⟩
  rw [if_neg hpast] at hrun₄
  refine Or.inr ⟨Nat.lt_of_not_le hpast, ?_⟩
  obtain ⟨_, s₀, hstart, hrun₅⟩ := ok_bind hrun₄
  have hbegun : writeBegin id s = (.ok attrs, s₀) :=
    writeBegin_of_parts hmem (fun h => hchecked (h.imp_right Or.inl)) hread htype hstart
  obtain ⟨⟨hlv, -⟩, -, -, -⟩ := writeBegin_run hl hring hbegun
  obtain ⟨attrs₁, s₅, hblocks, hrun₆⟩ := ok_bind hrun₅
  obtain ⟨_, s₆, hwrite, hcommit⟩ := ok_bind hrun₆
  have htable : ((recordIterateAttr .extents puncCollectCb attrs []).2).map Extent.piece =
      (pieces attrs).take extentTableSize := table_pieces attrs
  have hmem' : ∀ e ∈ (recordIterateAttr .extents puncCollectCb attrs []).2, ∃ x ∈ extentsOf attrs, x.2 = e := by
    intro e he
    rw [show puncCollectCb = collectCb from rfl, collect_take attrs [] (Nat.zero_le _), List.nil_append] at he
    exact List.mem_map.1 (List.mem_of_mem_take he)
  obtain ⟨hstate, hpairs, hsize⟩ := rebuild_ok
    (fun e => (e.piece.above (offset / blockSize)).below (holeEnd attrs offset len))
    (fun e => e.piece.pairs.filter (outsideHole (offset / blockSize) (holeEnd attrs offset len))) _
    (fun e he _ _ _ _ hone => by
      obtain ⟨x, hx, rfl⟩ := hmem' e he
      refine puncExtent_step (hfits x.2.piece ?_) (hcount x hx) (extent_end hl hok hx) hone
      rw [← htable]
      exact List.mem_map.2 ⟨x.2, he, rfl⟩) hblocks
  have hfreed : s₅ = (run freePiece s₀ (puncFrees attrs offset len)).2 := by
    rw [hstate, puncFrees, ← htable, List.map_map]
    rfl
  rw [hfreed] at hwrite
  have hfrees := leaves_frees (puncFrees attrs offset len) (s := s₀) (by rw [hlv.layout]; exact hl)
    (hlv.ring hring) (by
      rw [hlv.layout]
      exact puncFrees_inData hl hok)
  have hlv' := hlv.trans hfrees
  have hslot : s.vol.sb.dataStart ≤ (s.vol.mrtEntry id).physicalBlock := (hok.inUse _ List.mem_cons_self).low
  have hr := (hlv'.recordAt hl (fun _ => hslot)).2 hf.toRecordAt
  have hdone := ok_rewrite (by rw [hlv'.layout]; exact hl) (hlv'.ring hring) hr
    (by rw [hlv'.mrtEntry hl, hlv'.layout]; exact hslot) rfl
    (ok_abortOnError hwrite) (ok_orThrow hcommit)
  refine ⟨attrs₁, hnamed, ⟨hdone.record, hf.file⟩, ?_, hsize.trans fileSize_strip, hdone.layout.trans hlv'.layout,
    hdone.mounted.trans (hlv'.mounted.trans hnamed.1), fun b hb hne => ?_⟩
  · rw [hpairs, blockPairs_strip, List.nil_append, graph, List.filter_flatMap, ← htable, List.flatMap_map]
  · rw [hdone.view b (by rw [hlv'.layout]; exact hb) (by rw [hlv'.mrtEntry hl]; exact hne), hlv'.view_of_data hl hb]

end

/-! ## What a read gives afterwards -/

def InHole (offset len pos : Nat) : Prop := offset ≤ pos ∧ pos < offset + len

def Covered (offset len pos : Nat) : Prop :=
  offset ≤ pos / blockSize * blockSize ∧ (pos / blockSize + 1) * blockSize ≤ offset + len

/-- **What punching a hole is for**: the size stays, the blocks that the hole covers read as zeros, and outside the hole
every byte is what it was. -/
def Mount.Punches (other : BlockData → Nat → UInt8) (s : Mount) (id offset len : Nat) (s' : Mount) : Prop :=
  ∃ size old new, s.ReadsAs other id size old ∧ s'.ReadsAs other id size new ∧
    (∀ pos < size, ¬InHole offset len pos → new pos = old pos) ∧
    ∀ pos < size, InHole offset len pos → Covered offset len pos → new pos = 0

/-- The position lies in a block that the hole takes, rounded to blocks, or that no extent of the table maps. -/
def Punched (attrs : List Attr) (offset len pos : Nat) : Prop :=
  (offset / blockSize ≤ pos / blockSize ∧ pos / blockSize < holeEnd attrs offset len) ∨
    lookup ((pieces attrs).take extentTableSize) (pos / blockSize) = none

/-- Every byte that is cleared outside the hole is zero, and so is every byte that is not in a block the hole covers. -/
def PuncHarmless (other : BlockData → Nat → UInt8) (v : Volume) (attrs : List Attr) (offset len : Nat) : Prop :=
  (∀ pos < fileSize attrs, ¬InHole offset len pos → Punched attrs offset len pos → byteAt other v attrs pos = 0) ∧
    ∀ pos < fileSize attrs, InHole offset len pos → Covered offset len pos → ¬Punched attrs offset len pos →
      byteAt other v attrs pos = 0

section

variable {s s' : Mount} {id offset len pos : Nat} {rec : Record} {attrs attrs' : List Attr}
  {other : BlockData → Nat → UInt8}

theorem punched_of_covered (hwrap : offset + len < 2 ^ 64) (hsize : fileSize attrs + (blockSize - 1) < 2 ^ 64)
    (hpos : pos < fileSize attrs) (h : Covered offset len pos) : Punched attrs offset len pos := by
  obtain ⟨hlow, hhigh⟩ := h
  have hblock : blockSize = 4096 := rfl
  refine Or.inl ⟨?_, ?_⟩
  · have := Nat.div_le_div_right (c := blockSize) hlow
    rwa [Nat.mul_div_cancel _ (by decide)] at this
  · have hadd : add64 offset len = offset + len := add64_of_lt hwrap
    unfold holeEnd holeLen blocksOf
    rw [hadd]
    rw [hblock] at hlow hhigh hsize ⊢
    split
    · rename_i hpast
      have hto : add64 offset (fileSize attrs - offset) = fileSize attrs := by
        rw [add64_of_lt (by omega)]
        omega
      rw [hto, add64_of_lt hsize]
      omega
    · rw [hadd, add64_of_lt (by omega)]
      omega

theorem puncFits_of_lt (hwrap : offset + len < 2 ^ 64) (hsize : fileSize attrs + (blockSize - 1) < 2 ^ 64)
    (hin : offset < fileSize attrs) : PuncFits attrs offset len := by
  have hblock : blockSize = 4096 := rfl
  have hadd : add64 offset len = offset + len := add64_of_lt hwrap
  intro p _
  apply Or.inl
  unfold holeEnd holeLen blocksOf
  rw [hadd]
  rw [hblock] at hsize ⊢
  split
  · have hto : add64 offset (fileSize attrs - offset) = fileSize attrs := by
      rw [add64_of_lt (by omega)]
      omega
    rw [hto, add64_of_lt hsize]
    omega
  · rw [hadd, add64_of_lt (by omega)]
    omega

theorem functional_table (h : Extents attrs) : Functional ((pieces attrs).take extentTableSize) :=
  h.functional.of_sublist ((List.take_sublist _ _).flatMap _)

theorem Punch.lookup_eq (h : Punch s s' id offset len rec attrs attrs') (hext : Extents attrs) (l : Nat) :
    blockOf attrs' l = if offset / blockSize ≤ l ∧ l < holeEnd attrs offset len then none
      else lookup ((pieces attrs).take extentTableSize) l := by
  have htable := functional_table hext
  have hafter : Functional (pieces attrs') := by
    apply htable.of_sublist
    rw [← blockPairs, h.pairs]
    exact List.filter_sublist
  have hfilter := lookup_filter (P := fun l => decide ¬(offset / blockSize ≤ l ∧ l < holeEnd attrs offset len)) htable hafter
    (fun x => by rw [← blockPairs, h.pairs, List.mem_filter, outsideHole]) l
  rw [blockOf, hfilter]
  by_cases hin : offset / blockSize ≤ l ∧ l < holeEnd attrs offset len
  · rw [if_pos hin, if_neg (by simp [hin])]
  · rw [if_neg hin, if_pos (decide_eq_true hin)]

theorem Punch.byteAt_punched (h : Punch s s' id offset len rec attrs attrs') (hext : Extents attrs)
    (hp : Punched attrs offset len pos) : byteAt other s'.vol attrs' pos = 0 := by
  have hnone : blockOf attrs' (pos / blockSize) = none := by
    rw [h.lookup_eq hext]
    rcases hp with hin | hout
    · rw [if_pos hin]
    · rw [hout, ite_self]
  simp only [byteAt, byteIn, hnone]

theorem Punch.byteAt_kept (h : Punch s s' id offset len rec attrs attrs') (hok : s.vol.FileOk id attrs)
    (hp : ¬Punched attrs offset len pos) : byteAt other s'.vol attrs' pos = byteAt other s.vol attrs pos := by
  rw [Punched, not_or] at hp
  obtain ⟨b, hb⟩ := Option.ne_none_iff_exists'.1 hp.2
  have hafter : blockOf attrs' (pos / blockSize) = some b := by
    rw [h.lookup_eq hok.extents, if_neg hp.1, hb]
  have hpair : (pos / blockSize, b) ∈ blockPairs attrs := ((List.take_sublist _ _).flatMap _).subset (mem_of_lookup hb)
  have hbefore := (blockOf_eq_some hok.extents).2 hpair
  have hmem : b ∈ (blockPairs attrs).map Prod.snd := List.mem_map.2 ⟨_, hpair, rfl⟩
  have hlow := (hok.inUse b (List.mem_cons_of_mem _ hmem)).low
  have hne : b ≠ (s.vol.mrtEntry id).physicalBlock := by
    rintro rfl
    exact (List.nodup_cons.1 hok.nodup).1 hmem
  simp only [byteAt, byteIn, hafter, hbefore, h.view b hlow hne]

/-- **When a punch does what it is for**, whatever fails in it: the hole lies behind the file, or every byte that is
cleared outside the hole was zero. -/
theorem punc_hole_exact (other : BlockData → Nat → UInt8) (hl : s.vol.sb.toLayout.WF) (hring : s.vol.RingOk)
    (hf : s.vol.FileAt id rec attrs) (hok : s.vol.FileOk id attrs)
    (hcount : ∀ x ∈ extentsOf attrs, x.2.blockCount < 2 ^ 32) (hsize : fileSize attrs < 2 ^ 64)
    (hfits : PuncFits attrs offset len) (hrun : smkfsPuncHole id offset len s = (.ok (), s')) :
    s.Punches other id offset len s' ↔
      fileSize attrs ≤ offset ∨ PuncHarmless other s.vol attrs offset len := by
  have hsec : s.vol.sectorOk := sectorOk_of_wf hl
  obtain ⟨⟨hm, hid⟩, ⟨hpast, hvol⟩ | ⟨hin, attrs', h⟩⟩ := punch_ok hl hring hf hok hcount hfits hrun
  · have hm' : s'.mounted = true := by
      rw [← hm]
      exact congrArg (fun v : Volume => v.mounted) hvol
    have hold := readsAs_file other hf hsec hm hid
    have hnew : s'.ReadsAs other id (fileSize attrs) (byteAt other s.vol attrs) := by
      have hread := readsAs_file other (s := s') (by rw [hvol]; exact hf) (by rw [hvol]; exact hsec) hm' hid
      rwa [hvol] at hread
    refine iff_of_true ⟨_, _, _, hold, hnew, fun _ _ _ => rfl, fun pos hpos hhole _ => ?_⟩ (Or.inl hpast)
    have := hhole.1
    omega
  · have hold := readsAs_file other hf hsec hm hid
    have hafter := readsAs_file other h.file (sectorOk_of_wf (by rw [h.layout]; exact hl)) h.mounted hid
    have hnew := hafter
    rw [h.size] at hnew
    constructor
    · rintro ⟨size, old, new, hold', hnew', hkeep, hzero⟩
      have hsize' : fileSize attrs' < 2 ^ 64 := by
        rw [h.size]
        exact hsize
      refine Or.inr ⟨fun pos hpos hout hp => ?_, fun pos hpos hhole hcov hp => ?_⟩
      · obtain ⟨hlt, heq⟩ := readsAs_unique hold' hold hsize hpos
        have heq' := (readsAs_unique hnew' hafter hsize' (by rw [h.size]; exact hpos)).2
        rw [← heq, ← hkeep pos hlt hout, heq', h.byteAt_punched hok.extents hp]
      · obtain ⟨hlt, heq⟩ := readsAs_unique hnew' hafter hsize' (by rw [h.size]; exact hpos)
        rw [← h.byteAt_kept hok hp, ← heq, hzero pos hlt hhole hcov]
    · rintro (hpast | ⟨hzero, hcovered⟩)
      · exact absurd hpast (Nat.not_le.2 hin)
      refine ⟨_, _, _, hold, hnew, fun pos hpos hout => ?_, fun pos hpos hhole hcov => ?_⟩
      · by_cases hp : Punched attrs offset len pos
        · rw [h.byteAt_punched hok.extents hp, hzero pos hpos hout hp]
        · exact h.byteAt_kept hok hp
      · by_cases hp : Punched attrs offset len pos
        · exact h.byteAt_punched hok.extents hp
        · rw [h.byteAt_kept hok hp, hcovered pos hpos hhole hcov hp]

end

/-- The first block of a file of two blocks punched out. -/
theorem punc_hole_exact_block : (fileDisk twoBlocks 7).Punches (fun _ _ => 0) 2 0 4096
    (smkfsPuncHole 2 0 4096 (fileDisk twoBlocks 7)).2 := by
  obtain ⟨-, hl, hring⟩ := fileDisk_ready twoBlocks 7
  have hok : (smkfsPuncHole 2 0 4096 (fileDisk twoBlocks 7)).1 = .ok () := by decide +kernel
  have hsize : fileSize twoBlocks = 8192 := by decide
  have hend : holeEnd twoBlocks 0 4096 = 1 := by decide +kernel
  have hmapped : ∀ l < 2, lookup ((pieces twoBlocks).take extentTableSize) l ≠ none := by decide
  refine (punc_hole_exact (fun _ _ => 0) hl hring (fileDisk_file twoBlocks 7) (twoBlocks_ok 7) (by decide) (by decide)
    (puncFits_of_lt (by decide) (by decide) (by decide)) (Prod.ext hok rfl)).2 (Or.inr ⟨?_, ?_⟩)
  · intro pos hpos hout hp
    rw [hsize] at hpos
    simp only [InHole] at hout
    rcases hp with ⟨-, hlt⟩ | hnone
    · rw [hend, show blockSize = 4096 from rfl] at hlt
      omega
    · exact absurd hnone (hmapped _ (by rw [show blockSize = 4096 from rfl]; omega))
  · intro pos hpos _ hcov hp
    exact absurd (punched_of_covered (by decide) (by decide) hpos hcov) hp

/-- **One byte punched out of a file**: the bytes behind it in its block are cleared with it. -/
theorem not_punches : ¬∀ {s s' : Mount} {id offset len : Nat} {rec : Record} {attrs : List Attr}
    (other : BlockData → Nat → UInt8), s.vol.sb.toLayout.WF → s.vol.RingOk → s.vol.FileAt id rec attrs →
    s.vol.FileOk id attrs → (∀ x ∈ extentsOf attrs, x.2.blockCount < 2 ^ 32) → fileSize attrs < 2 ^ 64 →
    smkfsPuncHole id offset len s = (.ok (), s') → s.Punches other id offset len s' := by
  intro h
  obtain ⟨-, hl, hring⟩ := fileDisk_ready twoBlocks 7
  have hok : (smkfsPuncHole 2 0 1 (fileDisk twoBlocks 7)).1 = .ok () := by decide +kernel
  obtain ⟨size, old, new, hold, hnew, hkeep, -⟩ := h (fun _ _ => 0) hl hring (fileDisk_file twoBlocks 7) (twoBlocks_ok 7)
    (by decide) (by decide) (Prod.ext hok rfl)
  have hbefore : (smkfsRead (fun _ _ => 0) 2 1 1 (fileDisk twoBlocks 7).faultless).1 = .ok [7] := by decide +kernel
  have hafter : (smkfsRead (fun _ _ => 0) 2 1 1 (smkfsPuncHole 2 0 1 (fileDisk twoBlocks 7)).2.faultless).1 = .ok [0] := by
    decide +kernel
  have hold := Except.ok.inj ((hold 1 1 (by decide)).symm.trans hbefore)
  have hnew := Except.ok.inj ((hnew 1 1 (by decide)).symm.trans hafter)
  have hone : min 1 (size - 1) = 1 := by
    have hlen := congrArg List.length hold
    simpa using hlen
  rw [hone] at hold hnew
  have hsame := hkeep 1 (by omega) (by unfold InHole; omega)
  simp at hold hnew
  rw [hold, hnew] at hsame
  cases hsame

end SmkFs
end AmitX
