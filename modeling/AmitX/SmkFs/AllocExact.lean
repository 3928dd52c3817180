import AmitX.SmkFs.FreeSpace
/-!
# AllocExact — allocating and freeing when nothing fails (`bitmap.c`)

In a transaction whose journal has room an allocator finds a run whenever there is one: a region shows the runs inside it,
whatever its counter says, and the search of the whole bitmap shows every run.  A freed range is logged with its number
of blocks in `data_length`, which the journal bounds like a payload.
-/
namespace AmitX
namespace SmkFs

open Prog Volume

/-! ## A search that finds nothing -/

theorem scanRun_complete {f : Nat → Bool} {count k : Nat} (hcount : 0 < count) : ∀ {n bit : Nat} {run run' : Nat × Nat},
    (∀ s, k ≤ s → s + count ≤ bit → ¬ClearRun f s count) →
    (∀ s, k ≤ s → s ≤ bit → ClearRun f s (bit - s) → bit - s ≤ run.2) →
    scanRun f count n bit run = .inr run' → ∀ s, k ≤ s → s + count ≤ bit + n → ¬ClearRun f s count
  | 0, _, _, _, hbefore, _, _ => hbefore
  | n + 1, bit, (rs, rl), run', hbefore, hlongest, h => by
    simp only [scanRun] at h
    have hshift : bit + (n + 1) = bit + 1 + n := by omega
    rw [hshift]
    split at h
    · rename_i hbit
      refine scanRun_complete hcount (fun s hs hle hclear => ?_) (fun s hs hle hclear => ?_) h
      · by_cases hlt : s + count ≤ bit
        · exact hbefore s hs hlt hclear
        · rw [hclear bit (by omega) (by omega)] at hbit
          cases hbit
      · by_cases hlt : s ≤ bit
        · rw [hclear bit hlt (by omega)] at hbit
          cases hbit
        · omega
    · split at h
      · cases h
      · rename_i hshort
        refine scanRun_complete hcount (fun s hs hle hclear => ?_) (fun s hs hle hclear => ?_) h
        · by_cases hlt : s + count ≤ bit
          · exact hbefore s hs hlt hclear
          · have := hlongest s hs (by omega) (fun i hi hi' => hclear i hi (by omega))
            omega
        · by_cases hlt : s ≤ bit
          · have := hlongest s hs hlt (fun i hi hi' => hclear i hi (by omega))
            omega
          · omega

/-- No `n` free blocks of the data area follow one another. -/
def NoRun (v : Volume) (n : Nat) : Prop := ∀ s, s + n ≤ v.sb.dataBlocks → ¬ClearRun v.used s n

theorem noRun_of_linearRun {v : Volume} {n : Nat} {run : Nat × Nat} (hn : 0 < n)
    (h : linearRun v.sb.toLayout v.used n = .inr run) : NoRun v n := by
  intro s hs
  refine scanRun_complete (k := 0) hn (fun s _ hle => by omega) (fun s _ hle _ => ?_) h s (Nat.zero_le s) (by omega)
  simp only
  omega

/-! ## Allocation -/

/-- The run at `s` was free and is taken; no other bit of the bitmap has changed. -/
structure Taken (v : Volume) (n s : Nat) (v' : Volume) : Prop where
  inside : s + n ≤ v.sb.dataBlocks
  clear : ClearRun v.used s n
  layout : v'.sb.toLayout = v.sb.toLayout
  used : ∀ i, v.sb.InBitmap (v.sb.bitmapBlock i) → v'.used i = fill v.used s n true i

/-- What an allocator has done when nothing failed: nothing at all, or it has taken a run. -/
def AllocExact (v : Volume) (n b : Nat) (v' : Volume) : Prop :=
  (b = 0 ∧ v' = v) ∨ ∃ s, b = v.sb.dataStart + s ∧ Taken v n s v'

/-- The conditions under which nothing fails: the journal takes an entry for `n` blocks. -/
structure AllocReady (v : Volume) (n : Nat) : Prop where
  wf : v.sb.toLayout.WF
  ring : v.RingOk
  accepts : journalAccepts v.toMem n = true

section

variable {v v1 v' : Volume} {n s b : Nat}

theorem Taken.mapMem (h : Taken v n s v') {f : Mem → Mem} (hf : (f v'.toMem).sb.toLayout = v'.sb.toLayout) :
    Taken v n s (v'.mapMem f) := by
  refine ⟨h.inside, h.clear, hf.trans h.layout, fun i hi => ?_⟩
  rw [used_mapMem hf, h.used i hi]

theorem fwp_bitmapLogAlloc_ok (hv : AllocReady v n) (hmem : v1.toMem = v.toMem) (hb : s + n ≤ v.sb.dataBlocks)
    (hclear : ClearRun v.used s n) (hused : v1.used = fill v.used s n true) :
    fwp False False (bitmapLogAlloc (v.sb.dataStart + s) n)
      (fun r v2 => r = v.sb.dataStart + s ∧ Taken v n s v2) (fun _ _ => False) v1 := by
  have hl1 : v1.sb.toLayout = v.sb.toLayout := by rw [hmem]
  have hsector : (Mem.mapFreeBlocks (fun k => sub64 k n) v.toMem).sectorOk :=
    sectorOk_of_wf (by rw [mapFreeBlocks_layout]; exact hv.wf)
  have hring : (v1.mapMem (Mem.mapFreeBlocks (fun k => sub64 k n))).RingOk :=
    ringOk_mapFreeBlocks _ (by unfold RingOk; rw [hmem]; exact hv.ring)
  unfold bitmapLogAlloc
  refine wpAbs_bind (vwp_modifyMem (wpAbs_elseDo (wpAbs_mono (fwp_journalWriteEntry False False _ .alloc _ n 0 .zero)
    (fun _ v2 h => wpAbs_pure ?_) (fun _ v2 h => ?_))))
  · obtain ⟨-, rfl⟩ := h
    refine ⟨rfl, hb, hclear, ?_, fun i hi => ?_⟩
    · rw [logEntry_layout, layout_mapFreeBlocks, hl1]
    · have hview := (journalSteps_logEntry (v1.mapMem (Mem.mapFreeBlocks (fun k => sub64 k n))) .alloc
        (v.sb.dataStart + s) n 0 .zero hring).view
      rw [Volume.used, logEntry_layout, hview _ (by
        rw [layout_mapFreeBlocks, hl1]
        exact hv.wf.not_inJournal hi), ← hused, layout_mapFreeBlocks]
      rfl
  · rw [mapMem_toMem, accepts_mapFreeBlocks, hmem, hv.accepts] at h
    rcases h with ⟨h, -⟩ | ⟨h, -⟩ | ⟨h, -⟩
    · cases h
    · exact h.elim
    · exact (h.elim id (fun hs => hs hsector)).elim

theorem fwp_bitmapAllocInRegion_ok (hv : AllocReady v n) (hn : 0 < n) (r : Nat) :
    fwp False False (bitmapAllocInRegion r n) (AllocExact v n) (fun _ _ => False) v := by
  have hsector : v.sectorOk := sectorOk_of_wf hv.wf
  unfold bitmapAllocInRegion
  refine wpAbs_bind (vwp_getMem (wpAbs_ite (fun _ => wpAbs_pure (.inl ⟨rfl, rfl⟩)) (fun hstop => ?_)))
  refine wpAbs_ite (fun _ => wpAbs_pure (.inl ⟨rfl, rfl⟩)) (fun _ => wpAbs_bind (vwp_malloc ?_ (fun h => h.elim)))
  refine wpAbs_ite (fun h => absurd h (by simp)) (fun _ => wpAbs_elseDo (vwp_readBlock ?_
    (fun h => (h.elim id (fun hs => hs hsector)).elim)))
  have hscan : scanRun (fun bit => (v.view (v.sb.bitmapBlock (r * regionBlocks))).bits (bit % bitsPerBlock)) n
      (min (r * regionBlocks + regionBlocks) v.sb.dataBlocks - r * regionBlocks) (r * regionBlocks) (0, 0) =
        regionRun v.sb.toLayout v.used r n := by
    refine scanRun_congr n _ (fun i hi hi' => ?_)
    rw [used, bitmapBlock_of_region hi (by omega)]
  rw [hscan]
  cases hrun : regionRun v.sb.toLayout v.used r n with
  | inr _ => exact wpAbs_pure (.inl ⟨rfl, rfl⟩)
  | inl s =>
    obtain ⟨hlo, hhi, hb, hclear⟩ := regionRun_sound hn hrun
    refine wpAbs_elseDo (vwp_writeBlock ?_ (fun h => (h.elim id (fun hs => hs hsector)).elim))
    refine wpAbs_seq (fwp_bitmapLogAlloc_ok hv rfl hb hclear (used_write_setRun (fun j hj =>
      bitmapBlock_of_region (by omega) (by omega)))) (fun b v2 h => wpAbs_bind (vwp_modifyMem (wpAbs_pure ?_)))
      (fun _ _ h => h)
    exact .inr ⟨s, h.1, h.2.mapMem (by rw [mapRegion_sb])⟩

theorem fwp_bitmapTryRegions_ok (hv : AllocReady v n) (hn : 0 < n) {start : Nat} {next : Nat → Nat} : ∀ m k,
    fwp False False (bitmapTryRegions n start next k m) (AllocExact v n) (fun _ _ => False) v
  | 0, _ => wpAbs_pure (.inl ⟨rfl, rfl⟩)
  | m + 1, k => by
    rw [bitmapTryRegions]
    refine wpAbs_bind (vwp_getMem (wpAbs_ite (fun _ => ?_) (fun _ => fwp_bitmapTryRegions_ok hv hn m (k + 1))))
    refine wpAbs_seq (fwp_bitmapAllocInRegion_ok hv hn _) (fun b v' h => ?_) (fun _ _ h => h)
    refine wpAbs_ite (fun hb => wpAbs_bind (vwp_modifyMem (wpAbs_pure ?_))) (fun hb => ?_)
    · rcases h with ⟨h0, -⟩ | ⟨s, hs, ht⟩
      · exact absurd h0 hb
      · exact .inr ⟨s, hs, ht.mapMem rfl⟩
    · rw [Decidable.not_not] at hb
      rcases h with ⟨-, h⟩ | ⟨s, hs, -⟩
      · rw [h]
        exact fwp_bitmapTryRegions_ok hv hn m (k + 1)
      · have := hv.wf.journalStart
        have := hv.wf.journal
        have := hv.wf.bitmap
        have := hv.wf.mrt
        omega

theorem fwp_scanRunLinear_ok (hs : v.sectorOk) : ∀ (k bb : Nat) (run : Nat × Nat),
    fwp False False (scanRunLinear v.sb n bb k run) (fun _ _ => True) (fun _ _ => False) v
  | 0, _, _ => wpAbs_pure trivial
  | k + 1, bb, run => by
    rw [scanRunLinear]
    refine wpAbs_bind (vwp_readBlock ?_ (fun h => h.elim id (fun h => h hs)))
    cases scanRun (fun bit => (v.view (v.sb.bitmapStart + bb)).bits (bit % bitsPerBlock)) n
        (min bitsPerBlock (v.sb.dataBlocks - bb * bitsPerBlock)) (bb * bitsPerBlock) run with
    | inl s => exact wpAbs_pure trivial
    | inr run' => exact fwp_scanRunLinear_ok hs k (bb + 1) run'

/-- What the search of the whole bitmap has done: it fails only where there is no run. -/
def AllocComplete (v : Volume) (n b : Nat) (v' : Volume) : Prop := AllocExact v n b v' ∧ (b = 0 → NoRun v n)

theorem fwp_bitmapAllocRangeLinear_ok (hv : AllocReady v n) (hn : 0 < n) :
    fwp False False (bitmapAllocRangeLinear n) (AllocComplete v n) (fun _ _ => False) v := by
  have hpos : 0 < v.sb.dataStart := by
    have := hv.wf.journalStart
    have := hv.wf.journal
    have := hv.wf.bitmap
    have := hv.wf.mrt
    omega
  unfold bitmapAllocRangeLinear
  refine wpAbs_ite (fun h => by omega) (fun _ => wpAbs_bind (vwp_malloc ?_ (fun h => h.elim)))
  refine wpAbs_bind (vwp_malloc ?_ (fun h => h.elim))
  refine wpAbs_ite (fun h => by simp at h) (fun _ => wpAbs_bind (vwp_getSb (wpAbs_elseDo ?_)))
  have hscan : fwp False False (scanRunLinear v.sb n 0 v.sb.bitmapLength (0, 0))
      (fun found v' => v' = v ∧ found = (linearRun v.sb.toLayout v.used n).elim some (fun _ => none))
      (fun _ _ => False) v := by
    have hcov : min (v.sb.bitmapLength * bitsPerBlock) (v.sb.dataBlocks - 0 * bitsPerBlock) = v.sb.dataBlocks := by
      have := hv.wf.covers
      rw [Nat.zero_mul, Nat.sub_zero, hv.wf.dataBlocks_eq]
      omega
    have hfound := vwp_scanRunLinear False (v := v) (n := n) v.sb.bitmapLength 0 (0, 0)
    rw [hcov, Nat.zero_mul] at hfound
    exact wpAbs_mono (wpAbs_and hfound (fwp_scanRunLinear_ok (sectorOk_of_wf hv.wf) _ _ _)) (fun _ _ h => h.1)
      (fun _ _ h => h.2)
  refine wpAbs_mono hscan (fun found v' h => ?_) (fun _ _ h => h.elim)
  obtain ⟨rfl, rfl⟩ := h
  cases hrun : linearRun v'.sb.toLayout v'.used n with
  | inr _ => exact wpAbs_pure ⟨.inl ⟨rfl, rfl⟩, fun _ => noRun_of_linearRun hn hrun⟩
  | inl s =>
    obtain ⟨hb, hclear⟩ := linearRun_sound hn hrun
    refine wpAbs_elseDo (wpAbs_mono (vwp_bitmapMarks False hv.wf hb) (fun _ v1 h1 => ?_) (fun _ _ h => h.1.elim))
    obtain ⟨-, hmem, hused⟩ := h1
    refine wpAbs_seq (fwp_bitmapLogAlloc_ok hv hmem hb hclear hused) (fun b v2 h => ?_) (fun _ _ h => h)
    have hregions : fwp False False (forRange (fun j => modifyMem (Mem.mapRegion ((s + j) / regionBlocks)
        (fun k => if 0 < k then k - 1 else k))) 0 n) (fun _ v3 => Taken v' n s v3) (fun _ _ => False) v2 := by
      refine wpAbs_mono (wpAbs_forRange (I := fun _ v3 => Taken v' n s v3) n 0 h.2
        (fun j v3 _ _ hI => vwp_modifyMem (hI.mapMem (by rw [mapRegion_sb])))) (fun _ _ h => h) (fun _ _ h => h)
    refine wpAbs_seq hregions (fun _ v3 h3 => wpAbs_pure ⟨.inr ⟨s, h.1, h3⟩, fun h0 => ?_⟩) (fun _ _ h => h)
    omega

theorem fwp_regionsThenLinear_ok (hv : AllocReady v n) (hn : 0 < n) {start m : Nat} {next : Nat → Nat} :
    fwp False False (do
      let block ← bitmapTryRegions n start next 0 m
      if block ≠ 0 then pure block else bitmapAllocRangeLinear n) (AllocComplete v n) (fun _ _ => False) v := by
  refine wpAbs_seq (fwp_bitmapTryRegions_ok hv hn m 0) (fun b v' h => wpAbs_ite (fun hb => ?_) (fun hb => ?_))
    (fun _ _ h => h)
  · exact wpAbs_pure ⟨h, fun h0 => absurd h0 hb⟩
  · rw [Decidable.not_not] at hb
    rcases h with ⟨-, h⟩ | ⟨s, hs, -⟩
    · rw [h]
      exact fwp_bitmapAllocRangeLinear_ok hv hn
    · have := hv.wf.journalStart
      have := hv.wf.journal
      have := hv.wf.bitmap
      have := hv.wf.mrt
      omega

theorem fwp_bitmapAlloc_ok (hv : AllocReady v 1) :
    fwp False False bitmapAlloc (AllocComplete v 1) (fun _ _ => False) v := by
  unfold bitmapAlloc
  refine wpAbs_bind (vwp_getMem ?_)
  cases v.regions with
  | none => exact fwp_bitmapAllocRangeLinear_ok hv Nat.one_pos
  | some _ => exact fwp_regionsThenLinear_ok hv Nat.one_pos

theorem fwp_bitmapAllocRange_ok (hv : AllocReady v n) (hn : 0 < n) :
    fwp False False (bitmapAllocRange n) (AllocComplete v n) (fun _ _ => False) v := by
  unfold bitmapAllocRange
  refine wpAbs_bind (vwp_getMem (wpAbs_ite (fun h0 => by omega) (fun _ => wpAbs_ite (fun h1 => ?_) (fun _ => ?_))))
  · subst h1
    exact fwp_bitmapAlloc_ok hv
  · exact wpAbs_ite (fun _ => fwp_regionsThenLinear_ok hv hn) (fun _ => fwp_bitmapAllocRangeLinear_ok hv hn)

/-! ## Allocation where no block is free -/

theorem fwp_malloc_bind {α : Type} {D H : Prop} {f : Bool → FsM α} {Q : α → Volume → Prop} {E : Err → Volume → Prop}
    (h : ∀ r, fwp D H (f r) Q E v) : fwp D H (malloc >>= f) Q E v :=
  wpAbs_bind (vwp_malloc (h true) (fun _ => h false))

theorem vwp_bitmapAllocInRegion_noRun (F : Prop) (hn : 0 < n) (hno : NoRun v n) (r : Nat) :
    vwp F (bitmapAllocInRegion r n) (fun b v' => b = 0 ∧ v' = v) (fun _ _ => False) v := by
  unfold bitmapAllocInRegion
  refine wpAbs_bind (vwp_getMem (wpAbs_ite (fun _ => wpAbs_pure ⟨rfl, rfl⟩) (fun hstop => ?_)))
  refine wpAbs_ite (fun _ => wpAbs_pure ⟨rfl, rfl⟩) (fun _ => fwp_malloc_bind (fun buf => ?_))
  refine wpAbs_ite (fun _ => wpAbs_pure ⟨rfl, rfl⟩) (fun _ => wpAbs_elseDo (vwp_readBlock ?_
    (fun _ => wpAbs_pure ⟨rfl, rfl⟩)))
  have hscan : scanRun (fun bit => (v.view (v.sb.bitmapBlock (r * regionBlocks))).bits (bit % bitsPerBlock)) n
      (min (r * regionBlocks + regionBlocks) v.sb.dataBlocks - r * regionBlocks) (r * regionBlocks) (0, 0) =
        regionRun v.sb.toLayout v.used r n := by
    refine scanRun_congr n _ (fun i hi hi' => ?_)
    rw [used, bitmapBlock_of_region hi (by omega)]
  rw [hscan]
  cases hrun : regionRun v.sb.toLayout v.used r n with
  | inr _ => exact wpAbs_pure ⟨rfl, rfl⟩
  | inl s =>
    obtain ⟨-, -, hb, hclear⟩ := regionRun_sound hn hrun
    exact absurd hclear (hno s hb)

theorem vwp_bitmapTryRegions_noRun (F : Prop) (hn : 0 < n) (hno : NoRun v n) {start : Nat} {next : Nat → Nat} :
    ∀ m k, vwp F (bitmapTryRegions n start next k m) (fun b v' => b = 0 ∧ v' = v) (fun _ _ => False) v
  | 0, _ => wpAbs_pure ⟨rfl, rfl⟩
  | m + 1, k => by
    rw [bitmapTryRegions]
    have ih : vwp F (bitmapTryRegions n start next (k + 1) m) (fun b v' => b = 0 ∧ v' = v) (fun _ _ => False) v :=
      vwp_bitmapTryRegions_noRun F hn hno m (k + 1)
    refine wpAbs_bind (vwp_getMem (wpAbs_ite (fun _ => ?_) (fun _ => ih)))
    refine wpAbs_seq (vwp_bitmapAllocInRegion_noRun F hn hno _) (fun b v' h => ?_) (fun _ _ h => h)
    obtain ⟨rfl, rfl⟩ := h
    exact wpAbs_ite (fun h => absurd rfl h) (fun _ => ih)

theorem vwp_bitmapAllocRangeLinear_noRun (F : Prop) (hl : v.sb.toLayout.WF) (hno : NoRun v n) :
    vwp F (bitmapAllocRangeLinear n) (fun b v' => b = 0 ∧ v' = v) (fun _ _ => False) v := by
  unfold bitmapAllocRangeLinear
  refine wpAbs_ite (fun _ => wpAbs_pure ⟨rfl, rfl⟩) (fun hn => ?_)
  have hcov : min (v.sb.bitmapLength * bitsPerBlock) (v.sb.dataBlocks - 0 * bitsPerBlock) = v.sb.dataBlocks := by
    have := hl.covers
    rw [Nat.zero_mul, Nat.sub_zero, hl.dataBlocks_eq]
    omega
  have hfound : vwp F (scanRunLinear v.sb n 0 v.sb.bitmapLength (0, 0)) (fun found v' => v' = v ∧
      found = (linearRun v.sb.toLayout v.used n).elim some (fun _ => none)) (fun _ v' => v' = v) v := by
    have hfound := vwp_scanRunLinear F (v := v) (n := n) v.sb.bitmapLength 0 (0, 0)
    rwa [hcov, Nat.zero_mul] at hfound
  refine fwp_malloc_bind (fun buf => fwp_malloc_bind (fun jBuf => wpAbs_ite (fun _ => wpAbs_pure ⟨rfl, rfl⟩) (fun _ => ?_)))
  refine wpAbs_bind (vwp_getSb (wpAbs_elseDo (wpAbs_mono hfound (fun found v' h => ?_)
    (fun _ v' h => wpAbs_pure ⟨rfl, h⟩))))
  obtain ⟨rfl, rfl⟩ := h
  cases hrun : linearRun v'.sb.toLayout v'.used n with
  | inr _ => exact wpAbs_pure ⟨rfl, rfl⟩
  | inl s =>
    obtain ⟨hb, hclear⟩ := linearRun_sound (Nat.pos_of_ne_zero hn) hrun
    exact absurd hclear (hno s hb)

theorem vwp_bitmapAlloc_noRun (F : Prop) (hl : v.sb.toLayout.WF) (hno : NoRun v 1) :
    vwp F bitmapAlloc (fun b v' => b = 0 ∧ v' = v) (fun _ _ => False) v := by
  unfold bitmapAlloc
  refine wpAbs_bind (vwp_getMem ?_)
  cases v.regions with
  | none => exact vwp_bitmapAllocRangeLinear_noRun F hl hno
  | some _ =>
    refine wpAbs_seq (vwp_bitmapTryRegions_noRun F Nat.one_pos hno _ 0) (fun b v' h => ?_) (fun _ _ h => h)
    obtain ⟨rfl, rfl⟩ := h
    exact wpAbs_ite (fun h => absurd rfl h) (fun _ => vwp_bitmapAllocRangeLinear_noRun F hl hno)

end

/-! ## The allocators on a mount -/

/-- The allocator `m` takes `n` free blocks that follow one another, and fails only where there are none. -/
def SoundAndComplete (m : FsM Nat) (n : Nat) (s : Mount) : Prop :=
  ∃ b s', m s = (.ok b, s') ∧ AllocComplete s.vol n b s'.vol

theorem soundAndComplete_of_fwp {m : FsM Nat} {n : Nat} {s : Mount} (hs : s.Reliable)
    (h : fwp False False m (AllocComplete s.vol n) (fun _ _ => False) s.vol) : SoundAndComplete m n s := by
  have hpost := (fwp_apply (P := fun r v => ∃ b, r = .ok b ∧ AllocComplete s.vol n b v)
    (wpAbs_mono h (fun b _ hb => ⟨b, rfl, hb⟩) (fun _ _ hf => hf.elim)) ⟨fun hf => hs.1 hf, fun hf => hs.2 hf⟩).2
  obtain ⟨b, hb, hdone⟩ := hpost
  exact ⟨b, (m s).2, Prod.ext hb rfl, hdone⟩

theorem accepts_of {m : Mem} {n : Nat} (htxn : m.journalInTransaction = true) (hfree : journalIsFull m.sb = false)
    (hn : n ≤ 4032) : journalAccepts m n = true := by
  have hmax : journalDataMax = 4032 := rfl
  simp [journalAccepts, htxn, hfree, hmax, hn]

/-- **Allocation is sound and complete.**  Where nothing fails and the journal has room, both allocators take a run of
free blocks of the data area, whose bits alone change, or return 0 where there is none, whatever the regions count. -/
theorem bitmap_alloc_sound_complete (s : Mount) (n : Nat) (hs : s.Reliable) (hl : s.vol.sb.toLayout.WF)
    (hring : s.vol.RingOk) (htxn : s.journalInTransaction = true) (hfree : journalIsFull s.sb = false)
    (h1 : 1 ≤ n) (h2 : n ≤ 4032) :
    SoundAndComplete (bitmapAllocRange n) n s ∧ (n = 1 → SoundAndComplete bitmapAlloc 1 s) := by
  have hroom : journalAccepts s.toMem n = true := accepts_of htxn hfree h2
  refine ⟨soundAndComplete_of_fwp hs (fwp_bitmapAllocRange_ok ⟨hl, hring, hroom⟩ h1), fun hone => ?_⟩
  subst hone
  exact soundAndComplete_of_fwp hs (fwp_bitmapAlloc_ok ⟨hl, hring, hroom⟩)

def smallTransaction : Mount := (journalStartTransaction smallMount).2

theorem smallTransaction_ready : smallTransaction.Reliable ∧ smallTransaction.vol.sb.toLayout.WF ∧
    smallTransaction.vol.RingOk ∧ smallTransaction.journalInTransaction = true ∧
    journalIsFull smallTransaction.sb = false := by
  have hl : smallTransaction.vol.sb.toLayout = mkfsLayout 16 512 := by decide +kernel
  refine ⟨⟨?_, ?_⟩, ?_, (by decide +kernel : smallTransaction.vol.sb.journalHead < smallTransaction.vol.sb.journalLength),
    by decide +kernel, by decide +kernel⟩
  · have h : smallTransaction.dev.1.outcomes = [] := by decide +kernel
    rintro ⟨o, ho, -⟩
    rw [h] at ho
    cases ho
  · have h : smallTransaction.heap = [] := by decide +kernel
    simp [Mount.HeapFaulty, h]
  · rw [hl]
    exact (mkfsLayout_facts (by decide) (by decide)).1

theorem bitmap_alloc_sound_complete_small : SoundAndComplete (bitmapAllocRange 2) 2 smallTransaction := by
  obtain ⟨hs, hl, hring, htxn, hfree⟩ := smallTransaction_ready
  exact (bitmap_alloc_sound_complete smallTransaction 2 hs hl hring htxn hfree (by decide) (by decide)).1

/-! ## Freeing a range of allocated blocks -/

/-- The bits of the run at `s` are clear, no other bit of the bitmap has changed, and `n` more blocks are free. -/
structure Freed (v : Volume) (s n : Nat) (v' : Volume) : Prop where
  layout : v'.sb.toLayout = v.sb.toLayout
  used : ∀ i, v.sb.InBitmap (v.sb.bitmapBlock i) → v'.used i = fill v.used s n false i
  free : v'.sb.freeBlocks = add64 v.sb.freeBlocks n

/-- The blocks `s`, …, `s + n - 1` of the bitmap cleared and counted in their regions. -/
def Volume.clearRun (v : Volume) (s : Nat) : Nat → Volume
  | 0 => v
  | n + 1 => ((v.clearRun s n).setUsed (s + n) false).mapMem (countRegion (s + n))

section

variable {v : Volume} {s n : Nat}

theorem clearRun_sb (v : Volume) (s : Nat) : ∀ n, (v.clearRun s n).sb = v.sb
  | 0 => rfl
  | n + 1 => by
    rw [Volume.clearRun, mapMem_toMem, countRegion_sb, setUsed_toMem]
    exact clearRun_sb v s n

theorem clearRun_inTransaction (v : Volume) (s : Nat) :
    ∀ n, (v.clearRun s n).journalInTransaction = v.journalInTransaction
  | 0 => rfl
  | n + 1 => clearRun_inTransaction v s n

theorem used_clearRun (v : Volume) (s : Nat) : ∀ n, (v.clearRun s n).used = fill v.used s n false
  | 0 => (fill_zero _ _ _).symm
  | n + 1 => by
    rw [Volume.clearRun, used_mapMem (by rw [countRegion_sb]), used_setUsed, used_clearRun v s n, fill_succ]

theorem runs_bitmapFreeLoop (hl : v.sb.toLayout.WF) : ∀ n i, (∀ j, i ≤ j → j < i + n → v.used (s + j) = true) →
    Runs (bitmapFreeLoop (v.sb.dataStart + s) i n i) (v.clearRun s i) (i + n) (v.clearRun s (i + n))
  | 0, i, _ => runs_pure _ _
  | n + 1, i, hused => by
    have hsb := clearRun_sb v s i
    have hs : (v.clearRun s i).sectorOk := sectorOk_of_wf (by rw [hsb]; exact hl)
    have hidx : v.sb.dataStart + s + i - (v.clearRun s i).sb.dataStart = s + i := by rw [hsb]; omega
    have hbit : (v.clearRun s i).used (s + i) = true := by
      rw [used_clearRun, fill_clear_of_lt]
      exact hused i (Nat.le_refl i) (by omega)
    rw [show i + (n + 1) = i + 1 + n by omega, bitmapFreeLoop]
    refine runs_getSb.bind (Runs.ite_neg (by rw [hsb]; omega) ?_)
    rw [hidx]
    have hs1 : ((v.clearRun s i).mapMem (countRegion (s + i))).sectorOk := hs
    have hwrite : Runs (writeBlock ((v.clearRun s i).sb.bitmapBlock (s + i))
        (((v.clearRun s i).view ((v.clearRun s i).sb.bitmapBlock (s + i))).setBit ((s + i) % bitsPerBlock) false))
        ((v.clearRun s i).mapMem (countRegion (s + i))) () (v.clearRun s (i + 1)) := runs_writeBlock hs1 _ _
    have hrest := runs_bitmapFreeLoop hl n (i + 1) (fun j hj hj' => hused j (by omega) (by omega))
    exact (runs_readBlock hs _).bind (Runs.ite_pos hbit ((runs_modifyMem _).bind (hwrite.bind hrest)))

theorem runs_bitmapFreeRange (hl : v.sb.toLayout.WF) (hring : v.RingOk) (hacc : journalAccepts v.toMem n = true)
    (hn : 0 < n) (hused : ∀ j < n, v.used (s + j) = true) :
    ∃ v', Runs (bitmapFreeRange (v.sb.dataStart + s) n) v () v' ∧ Freed v s n v' := by
  have hloop := @runs_bitmapFreeLoop v s hl n 0 (fun j _ hj => hused j (by omega))
  rw [Nat.zero_add] at hloop
  have hsb := clearRun_sb v s n
  have hl1 : (v.clearRun s n).sb.toLayout.WF := by rw [hsb]; exact hl
  have hring1 : (v.clearRun s n).RingOk := by unfold RingOk; rw [hsb]; exact hring
  have hacc1 : journalAccepts (v.clearRun s n).toMem n = true := by
    rw [← hacc]
    exact accepts_congr (by rw [hsb]) (by rw [hsb]) (clearRun_inTransaction v s n) n
  have hstep := journalSteps_logEntry (v.clearRun s n) .free (v.sb.dataStart + s) n 0 .zero hring1
  have hlog : Runs (journalLogFree (v.sb.dataStart + s) n) (v.clearRun s n) ()
      ((v.clearRun s n).logEntry .free (v.sb.dataStart + s) n 0 .zero) :=
    runs_journalWriteEntry (sectorOk_of_wf hl1) hacc1 .free (v.sb.dataStart + s) 0 .zero
  refine ⟨((v.clearRun s n).logEntry .free (v.sb.dataStart + s) n 0 .zero).mapMem
    (Mem.mapFreeBlocks (fun k => add64 k n)), ?_, ?_, fun i hi => ?_, ?_⟩
  · exact (runs_failIf (by omega)).bind (runs_malloc.bind ((runs_failIf (by simp)).bind (hloop.bind
      (runs_when_pos hn (hlog.elseDo (runs_modifyMem _))))))
  · rw [layout_mapFreeBlocks, logEntry_layout, hsb]
  · rw [used_mapFreeBlocks, Volume.used, logEntry_layout, hstep.view _ (by rw [hsb]; exact hl.not_inJournal hi),
      ← used_clearRun, Volume.used]
  · rw [mapMem_toMem, mapFreeBlocks_freeBlocks, logEntry_counters, hsb]

theorem fwp_bitmapFreeRange_refused (hl : v.sb.toLayout.WF) (hacc : journalAccepts v.toMem n = false)
    (hused : ∀ j < n, v.used (s + j) = true) :
    fwp False False (bitmapFreeRange (v.sb.dataStart + s) n) (fun _ _ => False) (fun _ _ => True) v := by
  unfold bitmapFreeRange
  refine wpAbs_bind (wpAbs_failIf (fun _ => trivial) (fun hn => wpAbs_bind (vwp_malloc ?_ False.elim)))
  refine wpAbs_bind (wpAbs_failIf (fun _ => trivial) (fun _ => ?_))
  have hloop := @runs_bitmapFreeLoop v s hl n 0 (fun j _ hj => hused j (by omega))
  rw [Nat.zero_add] at hloop
  have hsb := clearRun_sb v s n
  refine wpAbs_seq hloop (fun freed v1 h => ?_) (fun _ _ _ => trivial)
  obtain ⟨rfl, rfl⟩ := h
  refine wpAbs_when (fun _ => ?_) (fun h0 => absurd (Nat.pos_of_ne_zero hn) h0)
  refine wpAbs_elseDo (wpAbs_mono (fwp_journalWriteEntry False False _ .free _ _ 0 .zero) (fun _ v2 h2 => ?_)
    (fun _ v2 _ => ?_))
  · have hacc1 := @accepts_congr v.toMem (v.clearRun s freed).toMem (by rw [hsb]) (by rw [hsb])
      (clearRun_inTransaction v s freed) freed
    rw [hacc1, hacc] at h2
    cases h2.1
  · have hundo : fwp False False (forRange (fun j => (bitmapSet (v.sb.dataStart + s + j)).ignore) 0 freed)
        (fun _ _ => True) (fun _ _ => True) v2 :=
      wpAbs_forRange (I := fun _ _ => True) freed 0 trivial (fun j v3 _ _ _ => wpAbs_ignore
        (wpAbs_mono (vwp_bitmapSet False v3 _) (fun _ _ _ => trivial) (fun _ _ _ => trivial)))
    exact wpAbs_seq hundo (fun _ _ _ => wpAbs_throw trivial) (fun _ _ _ => trivial)

end

theorem not_ok_of_fwp {α : Type} {m : FsM α} {s s' : Mount} {a : α} (hs : s.Reliable)
    (h : fwp False False m (fun _ _ => False) (fun _ _ => True) s.vol) : m s ≠ (.ok a, s') := by
  intro hrun
  have hpost := (fwp_apply (P := fun r _ => ∃ e, r = .error e) (wpAbs_mono h (fun _ _ hf => hf.elim)
    (fun e _ _ => ⟨e, rfl⟩)) ⟨fun hf => hs.1 hf, fun hf => hs.2 hf⟩).2
  obtain ⟨e, he⟩ := hpost
  rw [hrun] at he
  cases he

/-- `bitmap_free_range` succeeds and frees the range. -/
def Frees (start n : Nat) (s : Mount) : Prop :=
  ∃ s', bitmapFreeRange start n s = (.ok (), s') ∧ Freed s.vol (start - s.sb.dataStart) n s'.vol

structure AllUsed (v : Volume) (start n : Nat) : Prop where
  low : v.sb.dataStart ≤ start
  high : start + n ≤ v.sb.totalBlocks
  used : ∀ i, start ≤ i → i < start + n → v.used (i - v.sb.dataStart) = true

/-- **Which allocated ranges can be freed.**  The journal entry of a free keeps the number of blocks in its payload
length, so that the journal refuses ranges longer than a payload. -/
theorem bitmap_free_range_iff (s : Mount) (start n : Nat) (hs : s.Reliable) (hl : s.vol.sb.toLayout.WF)
    (hring : s.vol.RingOk) (htxn : s.journalInTransaction = true) (hfree : journalIsFull s.sb = false)
    (hused : AllUsed s.vol start n) : Frees start n s ↔ 1 ≤ n ∧ n ≤ 4032 := by
  have hstart : start = s.vol.sb.dataStart + (start - s.vol.sb.dataStart) := by
    have := hused.low
    omega
  have hall : ∀ j < n, s.vol.used (start - s.vol.sb.dataStart + j) = true := fun j hj => by
    have := hused.used (start + j) (by omega) (by omega)
    rw [← this]
    congr 1
    omega
  constructor
  · rintro ⟨s', hrun, -⟩
    by_contra hn
    have hfails : fwp False False (bitmapFreeRange start n) (fun _ _ => False) (fun _ _ => True) s.vol := by
      by_cases h0 : n = 0
      · exact wpAbs_bind (wpAbs_failIf (fun _ => trivial) (fun h => absurd h0 h))
      · have hacc : journalAccepts s.vol.toMem n = false := by
          have hmax : journalDataMax = 4032 := rfl
          simp only [journalAccepts, hmax, Bool.and_eq_false_imp, decide_eq_false_iff_not]
          omega
        rw [hstart]
        exact fwp_bitmapFreeRange_refused hl hacc hall
    exact not_ok_of_fwp hs hfails hrun
  · rintro ⟨h1, h2⟩
    obtain ⟨v', hrun, hfreed⟩ := runs_bitmapFreeRange hl hring (accepts_of htxn hfree h2) h1 hall
    rw [← hstart] at hrun
    obtain ⟨s', hrun', hv, -⟩ := hrun.apply hs.1 hs.2
    exact ⟨s', hrun', hv ▸ hfreed⟩

def fullMount : Mount :=
  { blankMount ⟨mkfsLayout 8192 512, ⟨0, 0, 0, 0, false, 0⟩, ⟨0, 0, 0⟩⟩ with
    journalInTransaction := true
    dev := ⟨cacheInit { blankDrive with base := fun _ => .bitmap (fun _ => true) }, cacheInit_wf _⟩ }

theorem fullMount_ready : fullMount.Reliable ∧ fullMount.vol.sb.toLayout.WF ∧ fullMount.vol.RingOk ∧
    fullMount.journalInTransaction = true ∧ journalIsFull fullMount.sb = false := by
  refine ⟨⟨?_, ?_⟩, (mkfsLayout_facts (by decide) (by decide)).1, ?_, rfl, by decide +kernel⟩
  · rintro ⟨o, ho, -⟩
    simp [fullMount, blankMount, cacheInit, blankDrive] at ho
  · simp [Mount.HeapFaulty, fullMount, blankMount]
  · exact (by decide +kernel : fullMount.vol.sb.journalHead < fullMount.vol.sb.journalLength)

theorem fullMount_used (i : Nat) : fullMount.vol.used i = true := by
  have hview : fullMount.vol.view (fullMount.vol.sb.bitmapBlock i) = .bitmap (fun _ => true) := by
    have hcold : ¬fullMount.dev.1.Cached (fullMount.vol.sb.bitmapBlock i) := by
      rintro ⟨j, hj, -⟩
      cases hj
    exact Drive.content_of_uncached hcold
  rw [used, hview, BlockData.bits_bitmap]

/-- An allocated range of 4032 blocks is freed. -/
theorem bitmap_free_range_full : Frees 170 4032 fullMount := by
  obtain ⟨hs, hl, hring, htxn, hfree⟩ := fullMount_ready
  exact (bitmap_free_range_iff fullMount 170 4032 hs hl hring htxn hfree
    ⟨by decide +kernel, by decide +kernel, fun i _ _ => fullMount_used _⟩).2 ⟨by decide, by decide⟩

/-- **A range of 4033 blocks.**  Its count does not fit into the data of a journal entry. -/
theorem not_bitmap_free_range : ¬∀ (s : Mount) (start n : Nat), s.Reliable → s.vol.sb.toLayout.WF → s.vol.RingOk →
    s.journalInTransaction = true → journalIsFull s.sb = false → 0 < n → AllUsed s.vol start n → Frees start n s := by
  intro hall
  obtain ⟨hs, hl, hring, htxn, hfree⟩ := fullMount_ready
  obtain ⟨s', hrun, -⟩ := hall fullMount 170 4033 hs hl hring htxn hfree (by decide)
    ⟨by decide +kernel, by decide +kernel, fun i _ _ => fullMount_used _⟩
  have hstart : fullMount.vol.sb.dataStart + 0 = 170 := by decide +kernel
  have hrefused := @fwp_bitmapFreeRange_refused fullMount.vol 0 4033 hl (by decide +kernel) (fun j _ => fullMount_used _)
  rw [hstart] at hrefused
  exact not_ok_of_fwp hs hrefused hrun

end SmkFs
end AmitX
