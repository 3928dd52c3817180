import AmitX.SmkFs.Alloc
/-!
# AllocSpec — what the allocators do to a volume

The bits of a run are marked, counted and logged together.  A refused run is cleared again bit by bit, and the
counters follow the calls of `bitmap_clear`: a region's `free_count` stops at the size of the region.
-/
namespace AmitX
namespace SmkFs

open Prog Volume

/-- The areas of a volume follow one another: superblock, journal, bitmap, MRT, data. -/
structure Layout.WF (l : Layout) : Prop where
  journalStart : 0 < l.journalStart
  journal : l.journalStart + l.journalLength ≤ l.bitmapStart
  bitmap : l.bitmapStart + l.bitmapLength ≤ l.mrtStart
  mrt : l.mrtStart + l.mrtLength ≤ l.dataStart
  data : l.dataStart ≤ l.totalBlocks
  total : l.totalBlocks < 2 ^ 64
  covers : l.totalBlocks - l.dataStart ≤ l.bitmapLength * bitsPerBlock
  capacity : l.mrtCapacity = l.mrtLength * entriesPerBlock
  sector : blockSize % l.sectorSize = 0

/-- Block `b` belongs to the bitmap. -/
def Layout.InBitmap (l : Layout) (b : Nat) : Prop := l.bitmapStart ≤ b ∧ b < l.bitmapStart + l.bitmapLength

theorem Layout.WF.dataBlocks_eq {l : Layout} (h : l.WF) : l.dataBlocks = l.totalBlocks - l.dataStart := by
  unfold Layout.dataBlocks
  exact sub64_of_le h.data h.total

theorem Layout.WF.inBitmap {l : Layout} (h : l.WF) {i : Nat} (hi : i < l.dataBlocks) :
    l.InBitmap (l.bitmapBlock i) := by
  refine ⟨Nat.le_add_right _ _, Nat.add_lt_add_left ?_ _⟩
  have := h.covers
  rw [h.dataBlocks_eq] at hi
  exact Nat.div_lt_of_lt_mul (by rw [Nat.mul_comm]; omega)

theorem Layout.WF.not_inJournal {l : Layout} (h : l.WF) {b : Nat} (hb : l.InBitmap b) : ¬l.InJournal b := by
  have := h.journal
  have := h.journalStart
  rintro (h0 | h0) <;> have := hb.1 <;> omega

/-- Only the bitmap, what the journal owns, and the counters have changed. -/
structure AllocFrame (v v' : Volume) : Prop where
  view : ∀ b, ¬v.sb.InJournal b → ¬v.sb.InBitmap b → v'.view b = v.view b
  layout : v'.sb.toLayout = v.sb.toLayout
  counters : ∃ n, v'.sb.toCounters = { v.sb.toCounters with freeBlocks := n }
  inTransaction : v'.journalInTransaction = v.journalInTransaction
  regionCount : v'.regionCount = v.regionCount
  regions : v'.regions.isSome = v.regions.isSome
  mounted : v'.mounted = v.mounted
  ring : v.RingOk → v'.RingOk

theorem AllocFrame.refl (v : Volume) : AllocFrame v v :=
  ⟨fun _ _ _ => rfl, rfl, ⟨_, rfl⟩, rfl, rfl, rfl, rfl, id⟩

theorem AllocFrame.trans {v v' v'' : Volume} (h : AllocFrame v v') (h' : AllocFrame v' v'') : AllocFrame v v'' := by
  obtain ⟨n, hn⟩ := h.counters
  obtain ⟨n', hn'⟩ := h'.counters
  refine ⟨fun b hj hb => ?_, h'.layout.trans h.layout, ⟨n', by rw [hn', hn]⟩, h'.inTransaction.trans h.inTransaction,
    h'.regionCount.trans h.regionCount, h'.regions.trans h.regions, h'.mounted.trans h.mounted,
    fun hr => h'.ring (h.ring hr)⟩
  rw [h'.view b (by rw [h.layout]; exact hj) (by rw [h.layout]; exact hb), h.view b hj hb]

theorem allocFrame_mapRegion (v : Volume) (r : Nat) (f : Nat → Nat) : AllocFrame v (v.mapMem (Mem.mapRegion r f)) :=
  ⟨fun _ _ _ => rfl, rfl, ⟨_, rfl⟩, rfl, rfl, by cases h : v.regions <;> simp [Mem.mapRegion, h], rfl, id⟩

theorem allocFrame_mapFreeBlocks (v : Volume) (f : Nat → Nat) : AllocFrame v (v.mapMem (Mem.mapFreeBlocks f)) :=
  ⟨fun _ _ _ => rfl, rfl, ⟨_, rfl⟩, rfl, rfl, rfl, rfl, id⟩

theorem allocFrame_mapCounts (v : Volume) (f : Nat → Nat) (r : Nat) (g : Nat → Nat) :
    AllocFrame v (v.mapMem (fun m => (m.mapFreeBlocks f).mapRegion r g)) :=
  (allocFrame_mapFreeBlocks v f).trans (allocFrame_mapRegion (v.mapMem (Mem.mapFreeBlocks f)) r g)

theorem allocFrame_countTaken (v : Volume) (idx : Nat) : AllocFrame v (v.mapMem (countTaken idx)) :=
  allocFrame_mapCounts v (fun n => sub64 n 1) (idx / regionBlocks) (fun n => if 0 < n then n - 1 else n)

theorem allocFrame_countFreed (v : Volume) (idx : Nat) : AllocFrame v (v.mapMem (countFreed idx)) := by
  have := allocFrame_mapCounts v (fun n => add64 n 1) (idx / regionBlocks)
    (fun n => if n < bitmapRegionSize v.sb.toLayout (idx / regionBlocks) then n + 1 else n)
  unfold Volume.mapMem countFreed at *
  exact this

theorem allocFrame_write {v : Volume} {b : Nat} (x : BlockData) (hb : v.sb.InBitmap b) : AllocFrame v (v.write b x) :=
  ⟨fun c _ hc => Function.update_of_ne (fun h => hc (by rw [h]; exact hb)) _ _, rfl, ⟨_, rfl⟩, rfl, rfl, rfl, rfl, id⟩

theorem allocFrame_bumpSequence (v : Volume) : AllocFrame v v.bumpSequence :=
  ⟨fun _ _ _ => rfl, rfl, ⟨_, rfl⟩, rfl, rfl, rfl, rfl, id⟩

theorem allocFrame_logEntry {v : Volume} (h : v.RingOk) (op : JournalOp) (target len rid : Nat) (p : BlockData) :
    AllocFrame v (v.logEntry op target len rid p) := by
  have hs := journalSteps_logEntry v op target len rid p h
  exact ⟨fun b hj _ => hs.view b hj, rfl, ⟨_, rfl⟩, rfl, rfl, rfl, rfl, fun _ => hs.head⟩

section

variable {v : Volume} {idx : Nat}

theorem allocFrame_setUsed (hl : v.sb.toLayout.WF) (hi : idx < v.sb.dataBlocks) (b : Bool) :
    AllocFrame v (v.setUsed idx b) :=
  allocFrame_write _ (hl.inBitmap hi)

theorem allocFrame_bitmapSet (hl : v.sb.toLayout.WF) (hi : idx < v.sb.dataBlocks) :
    AllocFrame v (v.bitmapSet idx) := by
  refine (allocFrame_setUsed hl hi true).trans ?_
  unfold Volume.bitmapSet
  cases v.used idx with
  | true => exact AllocFrame.refl _
  | false => exact allocFrame_countTaken _ _

theorem allocFrame_bitmapClear (hl : v.sb.toLayout.WF) (hi : idx < v.sb.dataBlocks) :
    AllocFrame v (v.bitmapClear idx) := by
  refine (allocFrame_setUsed hl hi false).trans ?_
  unfold Volume.bitmapClear
  cases v.used idx with
  | true => exact allocFrame_countFreed _ _
  | false => exact AllocFrame.refl _

end

/-! ## The bits of the data area -/

def SameUsed (v v' : Volume) : Prop := ∀ i < v.sb.dataBlocks, v'.used i = v.used i

theorem clears_of_sameUsed {v v' : Volume} (hu : SameUsed v v') :
    clears v'.used v.sb.dataBlocks = clears v.used v.sb.dataBlocks :=
  clears_congr hu

theorem sameUsed_of_view {v v' : Volume} (hl : v.sb.toLayout.WF) (hlay : v'.sb.toLayout = v.sb.toLayout)
    (hview : ∀ b, ¬v.sb.InJournal b → v'.view b = v.view b) : SameUsed v v' := by
  intro i hi
  unfold Volume.used
  rw [hlay, hview _ (hl.not_inJournal (hl.inBitmap hi))]

/-! ## Runs -/

/-- The bits `s`, …, `s + n - 1` of the bitmap are clear. -/
def ClearRun (f : Nat → Bool) (s n : Nat) : Prop := ∀ i, s ≤ i → i < s + n → f i = false

theorem scanRun_sound {f : Nat → Bool} {count k : Nat} (hcount : 0 < count) : ∀ {n bit : Nat} {run : Nat × Nat}
    {s : Nat}, k ≤ bit → (0 < run.2 → k ≤ run.1 ∧ run.1 + run.2 = bit ∧ ClearRun f run.1 run.2) →
    run.2 < count → scanRun f count n bit run = .inl s → k ≤ s ∧ s + count ≤ bit + n ∧ ClearRun f s count
  | 0, _, _, _, _, _, _, h => by simp [scanRun] at h
  | n + 1, bit, (rs, rl), s, hlo, hrun, hrl, h => by
    simp only [scanRun] at h
    split at h
    · have := scanRun_sound (n := n) (k := k) hcount (by omega) (by simp) hcount h
      exact ⟨this.1, by omega, this.2.2⟩
    · rename_i hbit
      have hbit : f bit = false := by simpa using hbit
      have hnew : k ≤ (if rl = 0 then bit else rs) ∧ (if rl = 0 then bit else rs) + (rl + 1) = bit + 1 ∧
          ClearRun f (if rl = 0 then bit else rs) (rl + 1) := by
        by_cases h0 : rl = 0
        · rw [if_pos h0]
          refine ⟨hlo, by omega, fun i hi hi' => ?_⟩
          rw [show i = bit by omega, hbit]
        · rw [if_neg h0]
          obtain ⟨h1, h2, h3⟩ := hrun (Nat.pos_of_ne_zero h0)
          simp only at h1 h2 h3
          refine ⟨h1, by omega, fun i hi hi' => ?_⟩
          by_cases hib : i = bit
          · rw [hib, hbit]
          · exact h3 i hi (by omega)
      split at h
      · rename_i hc
        simp only [Sum.inl.injEq] at h
        subst h
        have hcl : count = rl + 1 := by simp only at hrl; omega
        rw [hcl]
        exact ⟨hnew.1, by omega, hnew.2.2⟩
      · rename_i hc
        have := scanRun_sound (n := n) hcount (by omega : k ≤ bit + 1) (fun _ => hnew) (by simpa using hc) h
        exact ⟨this.1, by omega, this.2.2⟩

theorem scanRun_congr {f g : Nat → Bool} (count : Nat) : ∀ {n bit : Nat} (run : Nat × Nat),
    (∀ i, bit ≤ i → i < bit + n → f i = g i) → scanRun f count n bit run = scanRun g count n bit run
  | 0, _, _, _ => rfl
  | n + 1, bit, (rs, rl), h => by
    have ih : ∀ run, scanRun f count n (bit + 1) run = scanRun g count n (bit + 1) run := fun run =>
      scanRun_congr count run (fun i hi hi' => h i (by omega) (by omega))
    simp only [scanRun, ih, h bit (Nat.le_refl _) (by omega)]

theorem scanRun_append (f : Nat → Bool) (count : Nat) : ∀ (m n bit : Nat) (run : Nat × Nat),
    scanRun f count (m + n) bit run =
      (scanRun f count m bit run).elim Sum.inl (fun run' => scanRun f count n (bit + m) run')
  | 0, n, bit, run => by simp [scanRun]
  | m + 1, n, bit, (rs, rl) => by
    rw [show m + 1 + n = (m + n) + 1 by omega]
    simp only [scanRun, scanRun_append f count m n, show bit + 1 + m = bit + (m + 1) by omega]
    split
    · rfl
    · split <;> rfl

/-- The bits of a run set to `b`. -/
def fill (f : Nat → Bool) (s n : Nat) (b : Bool) (i : Nat) : Bool := if s ≤ i ∧ i < s + n then b else f i

theorem fill_zero (f : Nat → Bool) (s : Nat) (b : Bool) : fill f s 0 b = f := by
  funext i
  unfold fill
  rw [if_neg (by omega)]

theorem fill_succ (f : Nat → Bool) (s n : Nat) (b : Bool) :
    fill f s (n + 1) b = Function.update (fill f s n b) (s + n) b := by
  funext i
  unfold fill
  by_cases hi : i = s + n
  · subst hi
    rw [Function.update_self, if_pos (by omega)]
  · rw [Function.update_of_ne hi]
    by_cases h : s ≤ i ∧ i < s + n
    · rw [if_pos h, if_pos (by omega)]
    · rw [if_neg h, if_neg (by omega)]

theorem clears_fill {f : Nat → Bool} {s N : Nat} : ∀ {n : Nat}, ClearRun f s n → s + n ≤ N →
    clears (fill f s n true) N + n = clears f N
  | 0, _, _ => by rw [fill_zero, Nat.add_zero]
  | n + 1, h, hN => by
    have ih := clears_fill (n := n) (N := N) (fun i hi hi' => h i hi (by omega)) (by omega)
    have hs : fill f s n true (s + n) = false := by
      unfold fill
      rw [if_neg (by omega)]
      exact h _ (by omega) (by omega)
    have := clears_set hs N
    rw [if_pos (by omega)] at this
    rw [fill_succ]
    omega

/-- How many blocks of a run lie in region `r`. -/
def runIn (s n r : Nat) : Nat := Nat.count (fun j => (s + j) / regionBlocks = r) n

theorem runIn_zero (s r : Nat) : runIn s 0 r = 0 := Nat.count_zero _

theorem runIn_succ (s n r : Nat) : runIn s (n + 1) r = runIn s n r + if r = (s + n) / regionBlocks then 1 else 0 := by
  unfold runIn
  rw [Nat.count_succ]
  simp only [eq_comm]

theorem regionClears_fill {l : Layout} {f : Nat → Bool} {s : Nat} (r : Nat) : ∀ {n : Nat}, ClearRun f s n →
    s + n ≤ l.dataBlocks → regionClears l (fill f s n true) r + runIn s n r = regionClears l f r
  | 0, _, _ => by rw [fill_zero, runIn_zero, Nat.add_zero]
  | n + 1, h, hN => by
    have ih := regionClears_fill r (n := n) (fun i hi hi' => h i hi (by omega)) (by omega : s + n ≤ l.dataBlocks)
    have hs : fill f s n true (s + n) = false := by
      unfold fill
      rw [if_neg (by omega)]
      exact h _ (by omega) (by omega)
    have := regionClears_set (by omega : s + n < l.dataBlocks) hs r
    rw [fill_succ, runIn_succ]
    omega

theorem runIn_of_region {s n r : Nat} (h : r * regionBlocks ≤ s) (h' : s + n ≤ r * regionBlocks + regionBlocks)
    (i : Nat) : runIn s n i = if i = r then n else 0 := by
  have hdiv : ∀ j < n, (s + j) / regionBlocks = r := by
    intro j hj
    rw [Nat.div_eq_iff regionBlocks_pos]
    omega
  have : ∀ m ≤ n, runIn s m i = if i = r then m else 0 := by
    intro m
    induction m with
    | zero => intro _; rw [runIn_zero, ite_self]
    | succ m ih =>
      intro hm
      rw [runIn_succ, ih (by omega), hdiv m (by omega)]
      split <;> omega
  exact this n (Nat.le_refl n)

attribute [irreducible] runIn

/-- The first run of `n` free blocks of a region. -/
def regionRun (l : Layout) (f : Nat → Bool) (r n : Nat) : Nat ⊕ (Nat × Nat) :=
  scanRun f n (min (r * regionBlocks + regionBlocks) l.dataBlocks - r * regionBlocks) (r * regionBlocks) (0, 0)

/-- The first run of `n` free blocks of the data area. -/
def linearRun (l : Layout) (f : Nat → Bool) (n : Nat) : Nat ⊕ (Nat × Nat) := scanRun f n l.dataBlocks 0 (0, 0)

theorem regionRun_sound {l : Layout} {f : Nat → Bool} {r n s : Nat} (hn : 0 < n) (h : regionRun l f r n = .inl s) :
    r * regionBlocks ≤ s ∧ s + n ≤ r * regionBlocks + regionBlocks ∧ s + n ≤ l.dataBlocks ∧ ClearRun f s n := by
  have := scanRun_sound (k := r * regionBlocks) hn (Nat.le_refl _) (by simp) hn h
  refine ⟨this.1, ?_, ?_, this.2.2⟩ <;> omega

theorem linearRun_sound {l : Layout} {f : Nat → Bool} {n s : Nat} (hn : 0 < n) (h : linearRun l f n = .inl s) :
    s + n ≤ l.dataBlocks ∧ ClearRun f s n := by
  have := scanRun_sound (k := 0) hn (Nat.le_refl _) (by simp) hn h
  exact ⟨by omega, this.2.2⟩

theorem regionRun_congr {l : Layout} {f g : Nat → Bool} (h : ∀ i < l.dataBlocks, f i = g i) (r n : Nat) :
    regionRun l f r n = regionRun l g r n :=
  scanRun_congr n _ (fun i _ hi => h i (by omega))

theorem linearRun_congr {l : Layout} {f g : Nat → Bool} (h : ∀ i < l.dataBlocks, f i = g i) (n : Nat) :
    linearRun l f n = linearRun l g n :=
  scanRun_congr n _ (fun i _ hi => h i (by omega))

/-! ## Counting one bit -/

theorem add64_clears {f : Nat → Bool} {l : Layout} {idx : Nat} (hi : idx < l.dataBlocks) (h : f idx = true) :
    add64 (clears f l.dataBlocks) 1 = clears (Function.update f idx false) l.dataBlocks := by
  have h1 := clears_clear h l.dataBlocks
  have h2 := clears_le (Function.update f idx false) l.dataBlocks
  have h3 := dataBlocks_lt l
  rw [if_pos hi] at h1
  rw [add64_of_lt (by omega), h1]

theorem sub64_clears {f : Nat → Bool} {l : Layout} {idx : Nat} (hi : idx < l.dataBlocks) (h : f idx = false) :
    sub64 (clears f l.dataBlocks) 1 = clears (Function.update f idx true) l.dataBlocks := by
  have h1 := clears_set h l.dataBlocks
  have h2 := clears_le f l.dataBlocks
  have h3 := dataBlocks_lt l
  rw [if_pos hi] at h1
  rw [sub64_of_le (by omega) (by omega)]
  omega

section

variable {v : Volume} {idx : Nat}

theorem layout_bitmapSet : (v.bitmapSet idx).sb.toLayout = v.sb.toLayout := by
  unfold Volume.bitmapSet
  split <;> simp [Volume.setUsed_toMem]

theorem layout_bitmapClear : (v.bitmapClear idx).sb.toLayout = v.sb.toLayout := by
  unfold Volume.bitmapClear
  split <;> simp [Volume.setUsed_toMem]

theorem freeExact_bitmapSet (h : v.FreeExact) (hi : idx < v.sb.dataBlocks) : (v.bitmapSet idx).FreeExact := by
  unfold FreeExact at *
  rw [used_bitmapSet, layout_bitmapSet]
  cases hu : v.used idx with
  | true =>
    rw [Function.update_eq_self_iff.2 hu.symm, bitmapSet_of_used hu]
    exact h
  | false =>
    rw [bitmapSet_of_clear hu, mapMem_toMem, countTaken_freeBlocks, setUsed_toMem, h]
    exact sub64_clears hi hu

theorem freeExact_bitmapClear (h : v.FreeExact) (hi : idx < v.sb.dataBlocks) : (v.bitmapClear idx).FreeExact := by
  unfold FreeExact at *
  rw [used_bitmapClear, layout_bitmapClear]
  cases hu : v.used idx with
  | false =>
    rw [Function.update_eq_self_iff.2 hu.symm, bitmapClear_of_clear hu]
    exact h
  | true =>
    rw [bitmapClear_of_used hu, mapMem_toMem, countFreed_freeBlocks, setUsed_toMem, h]
    exact add64_clears hi hu

theorem regions_bitmapClear (hu : v.used idx = true) {c : Nat → Nat} (h : (v.bitmapClear idx).regions = some c) :
    ∃ c', v.regions = some c' ∧ ∀ i < v.regionCount, c i =
      if i = idx / regionBlocks then
        if c' i < bitmapRegionSize v.sb.toLayout i then c' i + 1 else c' i
      else c' i := by
  rw [bitmapClear_of_used hu, mapMem_toMem, countFreed, setUsed_toMem] at h
  obtain ⟨c', hc', hall⟩ := mapRegion_regions h
  rw [mapFreeBlocks_regions] at hc'
  rw [mapFreeBlocks_regionCount] at hall
  refine ⟨c', hc', fun i hi => ?_⟩
  rw [hall i hi]
  by_cases hr : i = idx / regionBlocks
  · rw [if_pos hr, if_pos hr, ← hr]
  · rw [if_neg hr, if_neg hr]

theorem regions_bitmapSet (hu : v.used idx = false) {c : Nat → Nat} (h : (v.bitmapSet idx).regions = some c) :
    ∃ c', v.regions = some c' ∧ ∀ i < v.regionCount, c i =
      if i = idx / regionBlocks then if 0 < c' i then c' i - 1 else c' i else c' i := by
  rw [bitmapSet_of_clear hu, mapMem_toMem, countTaken, setUsed_toMem] at h
  obtain ⟨c', hc', hall⟩ := mapRegion_regions h
  rw [mapFreeBlocks_regions] at hc'
  rw [mapFreeBlocks_regionCount] at hall
  exact ⟨c', hc', hall⟩

theorem regionCount_bitmapSet : (v.bitmapSet idx).regionCount = v.regionCount := by
  cases hu : v.used idx with
  | true =>
    rw [bitmapSet_of_used hu]
    rfl
  | false =>
    rw [bitmapSet_of_clear hu, mapMem_toMem, countTaken, mapRegion_regionCount, mapFreeBlocks_regionCount,
      setUsed_toMem]

theorem regionCount_bitmapClear : (v.bitmapClear idx).regionCount = v.regionCount := by
  cases hu : v.used idx with
  | false =>
    rw [bitmapClear_of_clear hu]
    rfl
  | true =>
    rw [bitmapClear_of_used hu, mapMem_toMem, countFreed, mapRegion_regionCount, mapFreeBlocks_regionCount,
      setUsed_toMem]

theorem regionsExact_bitmapSet (h : v.RegionsExact) (hi : idx < v.sb.dataBlocks) : (v.bitmapSet idx).RegionsExact := by
  intro c hc i hir
  rw [regionCount_bitmapSet] at hir
  rw [used_bitmapSet, layout_bitmapSet]
  cases hu : v.used idx with
  | true =>
    rw [bitmapSet_of_used hu] at hc
    rw [Function.update_eq_self_iff.2 hu.symm]
    exact h c hc i hir
  | false =>
    obtain ⟨c', hc', hall⟩ := regions_bitmapSet hu hc
    rw [hall i hir]
    have h1 := h c' hc' i hir
    have h2 := regionClears_set hi hu i
    split at h2
    · rename_i hr
      rw [if_pos hr, if_pos (by omega)]
      omega
    · rename_i hr
      rw [if_neg hr]
      omega

theorem regionsExact_bitmapClear (h : v.RegionsExact) (hi : idx < v.sb.dataBlocks) :
    (v.bitmapClear idx).RegionsExact := by
  intro c hc i hir
  rw [regionCount_bitmapClear] at hir
  rw [used_bitmapClear, layout_bitmapClear]
  cases hu : v.used idx with
  | false =>
    rw [bitmapClear_of_clear hu] at hc
    rw [Function.update_eq_self_iff.2 hu.symm]
    exact h c hc i hir
  | true =>
    obtain ⟨c', hc', hall⟩ := regions_bitmapClear hu hc
    rw [hall i hir]
    have h1 := h c' hc' i hir
    have h2 := regionClears_clear hi hu i
    have h3 := regionClears_le v.sb.toLayout (Function.update v.used idx false) i
    split at h2
    · rename_i hr
      rw [if_pos hr, if_pos (by omega)]
      omega
    · rename_i hr
      rw [if_neg hr]
      omega

end

/-! ## Undoing an allocation -/

/-- The volume after `j` of the `n` bits of a run, marked over the bitmap `u`, are cleared again. -/
structure Undone (u : Nat → Bool) (s n : Nat) (v : Volume) (j : Nat) (v' : Volume) : Prop where
  used : ∀ i < v.sb.dataBlocks, v'.used i = fill u (s + j) (n - j) true i
  free : v.FreeExact → v'.FreeExact
  regions : ∀ c, v'.regions = some c → ∃ c', v.regions = some c' ∧ ∀ i < v.regionCount,
    c' i ≤ bitmapRegionSize v.sb.toLayout i →
      c i = min (c' i + runIn s j i) (bitmapRegionSize v.sb.toLayout i)
  ring : v'.sb.toRing = v.sb.toRing

def SameOutside (s n : Nat) (v v' : Volume) : Prop := ∀ i, ¬(s ≤ i ∧ i < s + n) → v'.used i = v.used i

theorem cappedSucc (a t size : Nat) :
    (if min (a + t) size < size then min (a + t) size + 1 else min (a + t) size) = min (a + (t + 1)) size := by
  split <;> omega

/-- **Clearing a run again.**  Unless something fails, the bits are those from before the run was marked, and a region's
`free_count` has grown by the blocks of the run in it, up to the region's size. -/
theorem vwp_undoAlloc (F : Prop) {v : Volume} {u : Nat → Bool} {s n : Nat} (hl : v.sb.toLayout.WF)
    (hrun : s + n ≤ v.sb.dataBlocks) (hu : ∀ i < v.sb.dataBlocks, v.used i = fill u s n true i)
    (hclear : ClearRun u s n) :
    vwp F (forRange (fun j => (bitmapClear (v.sb.dataStart + s + j)).ignore) 0 n)
      (fun _ v' => AllocFrame v v' ∧ SameOutside s n v v' ∧ (F ∨ Undone u s n v n v')) (fun _ _ => False) v := by
  have h0 : AllocFrame v v ∧ SameOutside s n v v ∧ (F ∨ Undone u s n v 0 v) := by
    refine ⟨AllocFrame.refl v, fun _ _ => rfl, Or.inr ⟨hu, id, fun c hc => ⟨c, hc, fun i _ hle => ?_⟩, rfl⟩⟩
    rw [runIn_zero, Nat.add_zero, Nat.min_eq_left hle]
  have := wpAbs_forRange (π := volView F) (F := fun _ _ => False)
    (b := fun j => (bitmapClear (v.sb.dataStart + s + j)).ignore)
    (I := fun j v' => AllocFrame v v' ∧ SameOutside s n v v' ∧ (F ∨ Undone u s n v j v')) n 0 h0 (fun j v' _ hj hI => ?_)
  · simpa only [Nat.zero_add] using this
  obtain ⟨hfr, hout, hun⟩ := hI
  have hidx : v.sb.dataStart + s + j - v'.sb.dataStart = s + j := by rw [hfr.layout]; omega
  refine wpAbs_ignore (wpAbs_mono (vwp_bitmapClear F v' _) (fun _ v'' h => ?_) (fun _ v'' h => ?_))
  · obtain ⟨_, rfl⟩ := h
    rw [hidx]
    have hi : s + j < v'.sb.dataBlocks := by rw [hfr.layout]; omega
    have hl' : v'.sb.toLayout.WF := by
      rw [hfr.layout]
      exact hl
    refine ⟨hfr.trans (allocFrame_bitmapClear hl' hi), fun i hi' => ?_, hun.imp id (fun hun => ?_)⟩
    · rw [used_bitmapClear, Function.update_of_ne (by omega), hout i hi']
    have hbit : v'.used (s + j) = true := by
      rw [hun.used (s + j) (by omega)]
      unfold fill
      rw [if_pos (by omega)]
    refine ⟨fun i hiv => ?_, fun h => freeExact_bitmapClear (hun.free h) hi, fun c hc => ?_, ?_⟩
    · rw [used_bitmapClear]
      by_cases hij : i = s + j
      · subst hij
        rw [Function.update_self]
        unfold fill
        rw [if_neg (by omega), hclear _ (by omega) (by omega)]
      · rw [Function.update_of_ne hij, hun.used i hiv]
        unfold fill
        by_cases hin : s + j ≤ i ∧ i < s + j + (n - j)
        · rw [if_pos hin, if_pos (by omega)]
        · rw [if_neg hin, if_neg (by omega)]
    · obtain ⟨c1, hc1, hall⟩ := regions_bitmapClear hbit hc
      obtain ⟨c', hc', hall'⟩ := hun.regions c1 hc1
      refine ⟨c', hc', fun i hi hle => ?_⟩
      rw [hall i (by rw [hfr.regionCount]; exact hi), hfr.layout, hall' i hi hle, runIn_succ]
      by_cases hr : i = (s + j) / regionBlocks
      · rw [if_pos hr, if_pos hr, cappedSucc]
      · rw [if_neg hr, if_neg hr, Nat.add_zero]
    · rw [bitmapClear_of_used hbit, mapMem_toMem, countFreed_ring, setUsed_toMem]
      exact hun.ring
  · obtain ⟨rfl, hfail⟩ := h
    have hF : F := by
      rcases hfail (by rw [hfr.layout]; omega) with hF | hs
      · exact hF
      · exact absurd (by unfold Mem.sectorOk; rw [hfr.layout]; exact hl.sector) hs
    exact ⟨hfr, hout, Or.inl hF⟩

/-! ## Logging an allocation -/

structure Volume.Counted (v : Volume) : Prop where
  free : v.FreeExact
  regions : v.RegionsExact

/-- Logged: the marked run stays, and `free_blocks` has lost its length. -/
structure Logged (u : Nat → Bool) (v v' : Volume) : Prop where
  used : SameUsed v v'
  free : v.sb.freeBlocks = clears u v.sb.dataBlocks → v'.FreeExact
  regions : v'.regions = v.regions

/-- Refused: the bits are those of `u` again, and the regions have been given the run, up to their size. -/
structure Refused (u : Nat → Bool) (s n : Nat) (v v' : Volume) : Prop where
  used : ∀ i < v.sb.dataBlocks, v'.used i = u i
  free : v.sb.freeBlocks = clears u v.sb.dataBlocks → v'.FreeExact
  regions : ∀ c, v'.regions = some c → ∃ c', v.regions = some c' ∧ ∀ i < v.regionCount,
    c' i ≤ bitmapRegionSize v.sb.toLayout i →
      c i = min (c' i + runIn s n i) (bitmapRegionSize v.sb.toLayout i)
  ring : v'.sb.toRing = v.sb.toRing

section

variable {v : Volume} {u : Nat → Bool} {s n : Nat}

theorem used_mapFreeBlocks (f : Nat → Nat) : (v.mapMem (Mem.mapFreeBlocks f)).used = v.used :=
  used_mapMem (mapFreeBlocks_layout f v.toMem)

theorem sectorOk_of_wf {m : Mem} (h : m.sb.toLayout.WF) : m.sectorOk := h.sector

theorem layout_mapFreeBlocks (f : Nat → Nat) : (v.mapMem (Mem.mapFreeBlocks f)).sb.toLayout = v.sb.toLayout :=
  mapFreeBlocks_layout f v.toMem

theorem used_bumpSequence (v : Volume) : v.bumpSequence.used = v.used := used_mapMem rfl

theorem ringOk_mapFreeBlocks (f : Nat → Nat) (h : v.RingOk) : (v.mapMem (Mem.mapFreeBlocks f)).RingOk := by
  unfold RingOk at *
  rw [mapMem_toMem, mapFreeBlocks_ring, mapFreeBlocks_layout]
  exact h

theorem accepts_mapFreeBlocks (f : Nat → Nat) (m : Mem) (len : Nat) :
    journalAccepts (m.mapFreeBlocks f) len = journalAccepts m len := by
  unfold journalAccepts journalIsFull journalNextPos
  rw [mapFreeBlocks_ring, mapFreeBlocks_layout]
  rfl

theorem freeExact_of_marked (hrun : s + n ≤ v.sb.dataBlocks) (hclear : ClearRun u s n)
    (hu : ∀ i < v.sb.dataBlocks, v.used i = fill u s n true i) (hfree : v.sb.freeBlocks = clears u v.sb.dataBlocks) :
    (v.mapMem (Mem.mapFreeBlocks (fun k => sub64 k n))).FreeExact := by
  have h1 := clears_fill hclear hrun
  have h2 := clears_le u v.sb.dataBlocks
  have h3 := dataBlocks_lt v.sb.toLayout
  unfold FreeExact
  rw [used_mapFreeBlocks, mapMem_toMem, mapFreeBlocks_freeBlocks, mapFreeBlocks_layout, hfree, clears_congr hu,
    sub64_of_le (by omega) (by omega)]
  omega

theorem vwp_bitmapLogAlloc (F : Prop) (hl : v.sb.toLayout.WF) (hring : v.RingOk) (hrun : s + n ≤ v.sb.dataBlocks)
    (hclear : ClearRun u s n) (hu : ∀ i < v.sb.dataBlocks, v.used i = fill u s n true i) :
    vwp F (bitmapLogAlloc (v.sb.dataStart + s) n)
      (fun r v' => AllocFrame v v' ∧ (∀ i < v.sb.dataBlocks, ¬(s ≤ i ∧ i < s + n) → v'.used i = v.used i) ∧
        ((r = v.sb.dataStart + s ∧ journalAccepts v.toMem n = true ∧ Logged u v v') ∨
          (r = 0 ∧ (F ∨ journalAccepts v.toMem n = false ∧ Refused u s n v v'))))
      (fun _ _ => False) v := by
  unfold bitmapLogAlloc
  have hfr1 : AllocFrame v (v.mapMem (Mem.mapFreeBlocks (fun k => sub64 k n))) := allocFrame_mapFreeBlocks v _
  refine wpAbs_bind (vwp_modifyMem (wpAbs_elseDo ?_))
  refine wpAbs_mono (vwp_journalWriteEntry F _ .alloc _ n 0 .zero) (fun _ v' h => ?_) (fun e v' h => ?_)
  · obtain ⟨hacc, rfl⟩ := h
    rw [mapMem_toMem, accepts_mapFreeBlocks] at hacc
    have hring1 := ringOk_mapFreeBlocks (fun k => sub64 k n) hring
    have hfr2 := allocFrame_logEntry hring1 .alloc (v.sb.dataStart + s) n 0 .zero
    have hl1 : (v.mapMem (Mem.mapFreeBlocks (fun k => sub64 k n))).sb.toLayout.WF := by
      rw [layout_mapFreeBlocks]
      exact hl
    have hsu := sameUsed_of_view hl1 hfr2.layout
      (journalSteps_logEntry _ .alloc (v.sb.dataStart + s) n 0 .zero hring1).view
    have hsame : SameUsed v ((v.mapMem (Mem.mapFreeBlocks (fun k => sub64 k n))).logEntry .alloc
        (v.sb.dataStart + s) n 0 .zero) := fun i hi => by
      rw [hsu i (by rw [layout_mapFreeBlocks]; exact hi), used_mapFreeBlocks]
    refine wpAbs_pure ⟨hfr1.trans hfr2, fun i hi _ => hsame i hi, Or.inl ⟨rfl, hacc, hsame, fun hfree => ?_, ?_⟩⟩
    · have := freeExact_of_marked hrun hclear hu hfree
      unfold FreeExact at this ⊢
      rw [hfr2.layout, clears_of_sameUsed hsu, ← this, logEntry_counters]
    · rw [logEntry_regions, mapMem_toMem, mapFreeBlocks_regions]
  · have hun : AllocFrame v v' ∧ v'.used = v.used ∧ (F ∨ journalAccepts v.toMem n = false ∧
        v' = v.mapMem (Mem.mapFreeBlocks (fun k => sub64 k n))) := by
      rw [mapMem_toMem, accepts_mapFreeBlocks] at h
      rcases h with ⟨hacc, rfl⟩ | ⟨hf, h⟩
      · exact ⟨hfr1, used_mapFreeBlocks _, Or.inr ⟨hacc, rfl⟩⟩
      · have hF : F := hf.resolve_right (fun hs => hs (sectorOk_of_wf (by rw [mapFreeBlocks_layout]; exact hl)))
        rcases h with rfl | rfl
        · exact ⟨hfr1, used_mapFreeBlocks _, Or.inl hF⟩
        · exact ⟨hfr1.trans (allocFrame_bumpSequence _), (used_bumpSequence _).trans (used_mapFreeBlocks _), Or.inl hF⟩
    obtain ⟨hfr, hused, hres⟩ := hun
    have hl' : v'.sb.toLayout.WF := by
      rw [hfr.layout]
      exact hl
    refine wpAbs_seq (R := fun _ v'' => AllocFrame v' v'' ∧ SameOutside s n v' v'' ∧ (F ∨ Undone u s n v' n v''))
      (G := fun _ _ => False) ?_ (fun _ v'' h => wpAbs_pure ⟨hfr.trans h.1, fun i _ hi => ?_, Or.inr ⟨rfl, ?_⟩⟩)
      (fun _ _ h => h)
    · have := vwp_undoAlloc F (v := v') (u := u) (s := s) (n := n) hl' (by rw [hfr.layout]; exact hrun)
        (fun i hi => by rw [hused]; exact hu i (by rw [← hfr.layout]; exact hi)) hclear
      rwa [hfr.layout] at this
    · rw [h.2.1 i hi, hused]
    · rcases hres with hF | ⟨hacc, rfl⟩
      · exact Or.inl hF
      refine h.2.2.imp id (fun hun => ⟨hacc, fun i hi => ?_, fun hfree => ?_, ?_, ?_⟩)
      · rw [hun.used i (by rw [layout_mapFreeBlocks]; exact hi), Nat.sub_self, fill_zero]
      · exact hun.free (freeExact_of_marked hrun hclear hu hfree)
      · intro c hc
        obtain ⟨c', hc', hall⟩ := hun.regions c hc
        rw [mapMem_toMem, mapFreeBlocks_regions] at hc'
        rw [layout_mapFreeBlocks, mapMem_toMem, mapFreeBlocks_regionCount] at hall
        refine ⟨c', hc', fun i hi hle => ?_⟩
        rw [hall i hi hle]
      · rw [hun.ring, mapMem_toMem, mapFreeBlocks_ring]

end

/-! ## Allocation -/

/-- The run was marked over the bits of `v`, nothing else, and logged. -/
structure ExactlyTaken (v : Volume) (n s : Nat) (v' : Volume) : Prop where
  used : ∀ i < v.sb.dataBlocks, v'.used i = fill v.used s n true i
  accepts : journalAccepts v.toMem n = true

/-- A run an allocator may try: the first one of a region, or the first one of the data area. -/
def TriedRun (v : Volume) (n s : Nat) : Prop :=
  (∃ r < v.regionCount, regionRun v.sb.toLayout v.used r n = .inl s) ∨ linearRun v.sb.toLayout v.used n = .inl s

/-- The journal takes an entry for `n` blocks, or every run that may be tried lies in regions with at least as many
allocated blocks as the run has there, so that clearing it again stops at no region's size. -/
def AllocSafe (v : Volume) (n : Nat) : Prop :=
  journalAccepts v.toMem n = true ∨ ∀ s, TriedRun v n s → ∀ i < v.regionCount,
    regionClears v.sb.toLayout v.used i + runIn s n i ≤ bitmapRegionSize v.sb.toLayout i

/-- What an allocator of `n` blocks that returned `r` has done.  A used block stays used whatever fails; the rest is
exact unless something failed. -/
structure AllocPost (F : Prop) (v : Volume) (n r : Nat) (v' : Volume) : Prop where
  frame : AllocFrame v v'
  keeps : ∀ i < v.sb.dataBlocks, v.used i = true → v'.used i = true
  result : (r ≠ 0 ∧ ∃ s, r = v.sb.dataStart + s ∧ s + n ≤ v.sb.dataBlocks ∧ ClearRun v.used s n ∧
      (∀ i, s ≤ i → i < s + n → v'.used i = true) ∧ (F ∨ ExactlyTaken v n s v')) ∨
    (r = 0 ∧ (F ∨ SameUsed v v' ∧ v'.sb.toRing = v.sb.toRing))
  counts : F ∨ (v.Counted → AllocSafe v n → v'.Counted)

theorem AllocPost.unchanged {F : Prop} {v : Volume} {n : Nat} : AllocPost F v n 0 v :=
  ⟨AllocFrame.refl v, fun _ _ h => h, Or.inr ⟨rfl, Or.inr ⟨fun _ _ => rfl, rfl⟩⟩, Or.inr (fun h _ => h)⟩

theorem accepts_congr {m m' : Mem} (hl : m'.sb.toLayout = m.sb.toLayout) (hr : m'.sb.toRing = m.sb.toRing)
    (ht : m'.journalInTransaction = m.journalInTransaction) (len : Nat) :
    journalAccepts m' len = journalAccepts m len := by
  unfold journalAccepts journalIsFull journalNextPos
  rw [hl, hr, ht]

section

variable {F : Prop} {v v' v'' : Volume} {n s r : Nat}

theorem AllocSafe.congr (hfr : AllocFrame v v') (hu : SameUsed v v') (hr : v'.sb.toRing = v.sb.toRing)
    (h : AllocSafe v n) : AllocSafe v' n := by
  rcases h with h | h
  · exact Or.inl ((accepts_congr hfr.layout hr hfr.inTransaction n).trans h)
  · refine Or.inr (fun s hs i hi => ?_)
    rw [hfr.regionCount] at hi
    rw [hfr.layout, regionClears_congr hu]
    refine h s ?_ i hi
    rcases hs with ⟨r, hr, hs⟩ | hs
    · rw [hfr.layout, regionRun_congr hu] at hs
      rw [hfr.regionCount] at hr
      exact Or.inl ⟨r, hr, hs⟩
    · rw [hfr.layout, linearRun_congr hu] at hs
      exact Or.inr hs

theorem ExactlyTaken.congr (hfr : AllocFrame v v') (hu : SameUsed v v') (hr : v'.sb.toRing = v.sb.toRing)
    (h : ExactlyTaken v' n s v'') : ExactlyTaken v n s v'' := by
  refine ⟨fun i hi => ?_, (accepts_congr hfr.layout hr hfr.inTransaction n).symm.trans h.accepts⟩
  rw [h.used i (by rw [hfr.layout]; exact hi)]
  unfold fill
  rw [hu i hi]

theorem clearRun_of_keeps (hk : ∀ i < v.sb.dataBlocks, v.used i = true → v'.used i = true)
    (hs : s + n ≤ v.sb.dataBlocks) (h : ClearRun v'.used s n) : ClearRun v.used s n := by
  intro i hi hi'
  refine Bool.eq_false_iff.2 (fun hu => ?_)
  have := hk i (by omega) hu
  rw [h i hi hi'] at this
  exact absurd this (by simp)

theorem AllocPost.trans (h : AllocPost F v n 0 v') (h' : AllocPost F v' n r v'') : AllocPost F v n r v'' := by
  have hfail : F ∨ SameUsed v v' ∧ v'.sb.toRing = v.sb.toRing := by
    rcases h.result with ⟨h0, _⟩ | ⟨_, h0⟩
    · exact absurd rfl h0
    · exact h0
  refine ⟨h.frame.trans h'.frame, fun i hi hu => h'.keeps i (by rw [h.frame.layout]; exact hi) (h.keeps i hi hu),
    ?_, ?_⟩
  · rcases h'.result with ⟨hne, s, hs, hb, hc, hmark, hex⟩ | ⟨h0, hex⟩
    · rw [h.frame.layout] at hs hb
      refine Or.inl ⟨hne, s, hs, hb, clearRun_of_keeps h.keeps hb hc, hmark, ?_⟩
      rcases hfail, hex with ⟨hF | ⟨hu, hr⟩, hF' | hex⟩
      · exact Or.inl hF
      · exact Or.inl hF
      · exact Or.inl hF'
      · exact Or.inr (hex.congr h.frame hu hr)
    · refine Or.inr ⟨h0, ?_⟩
      rcases hfail, hex with ⟨hF | ⟨hu, hr⟩, hF' | ⟨hu', hr'⟩⟩
      · exact Or.inl hF
      · exact Or.inl hF
      · exact Or.inl hF'
      · exact Or.inr ⟨fun i hi => (hu' i (by rw [h.frame.layout]; exact hi)).trans (hu i hi), hr'.trans hr⟩
  · rcases hfail, h.counts, h'.counts with ⟨hF | ⟨hu, hr⟩, hF' | hc, hF'' | hc'⟩
    all_goals first | exact Or.inl ‹F› | exact Or.inr (fun hv hs => hc' (hc hv hs) (hs.congr h.frame hu hr))

end

/-! ## One region -/

theorem bitmapBlock_of_region {l : Layout} {r i : Nat} (h : r * regionBlocks ≤ i)
    (h' : i < r * regionBlocks + regionBlocks) : l.bitmapBlock i = l.bitmapBlock (r * regionBlocks) := by
  unfold Layout.bitmapBlock
  simp only [regionBlocks, bitsPerBlock] at *
  omega

theorem used_write_setRun {v : Volume} {b s : Nat} : ∀ {n : Nat}, (∀ j < n, v.sb.bitmapBlock (s + j) = b) →
    (v.write b ((v.view b).setRun s n)).used = fill v.used s n true
  | 0, _ => by
    rw [fill_zero, BlockData.setRun, Volume.write, Function.update_eq_self]
  | n + 1, h => by
    have ih := used_write_setRun (n := n) (fun j hj => h j (by omega))
    have hb := h n (by omega)
    have hstep : v.write b ((v.view b).setRun s (n + 1)) = (v.write b ((v.view b).setRun s n)).setUsed (s + n) true := by
      rw [setUsed, write_toMem, hb, BlockData.setRun]
      unfold Volume.write
      simp only [Function.update_self, Function.update_idem]
    rw [hstep, used_setUsed, ih, fill_succ]

theorem sub32_region {a b n : Nat} (h : b + n = a) (ha : a ≤ regionBlocks) : sub32 a n = b := by
  unfold regionBlocks at ha
  rw [sub32_of_le (by omega) (by omega)]
  omega

theorem used_mapRegion {v : Volume} (r : Nat) (f : Nat → Nat) : (v.mapMem (Mem.mapRegion r f)).used = v.used :=
  used_mapMem (by rw [mapRegion_sb])

theorem regionsExact_mapRegion {v : Volume} {r : Nat} {f : Nat → Nat}
    (h : ∀ c, v.regions = some c → ∀ i < v.regionCount,
      (if i = r then f (c i) else c i) = regionClears v.sb.toLayout v.used i) :
    (v.mapMem (Mem.mapRegion r f)).RegionsExact := by
  intro c hc i hi
  rw [mapMem_toMem] at hc
  rw [mapMem_toMem, mapRegion_regionCount] at hi
  obtain ⟨c', hc', hall⟩ := mapRegion_regions hc
  rw [hall i hi, h c' hc' i hi, used_mapRegion, mapMem_toMem, mapRegion_sb]

theorem freeExact_mapRegion {v : Volume} (r : Nat) (f : Nat → Nat) (h : v.FreeExact) :
    (v.mapMem (Mem.mapRegion r f)).FreeExact := by
  unfold FreeExact at *
  rw [used_mapRegion, mapMem_toMem, mapRegion_sb]
  exact h

theorem allocPost_of_log {F : Prop} {v v1 v2 v3 : Volume} {s n r : Nat} (hl : v.sb.toLayout.WF)
    (hb : s + n ≤ v.sb.dataBlocks) (hclear : ClearRun v.used s n) (htried : TriedRun v n s)
    (hfr1 : AllocFrame v v1) (hmem : v1.toMem = v.toMem) (hused1 : v1.used = fill v.used s n true)
    (hfr2 : AllocFrame v1 v2) (hout : ∀ i < v1.sb.dataBlocks, ¬(s ≤ i ∧ i < s + n) → v2.used i = v1.used i)
    (h2 : (r = v.sb.dataStart + s ∧ journalAccepts v1.toMem n = true ∧ Logged v.used v1 v2) ∨
      (r = 0 ∧ (F ∨ journalAccepts v1.toMem n = false ∧ Refused v.used s n v1 v2)))
    (hfr3 : AllocFrame v2 v3) (hu3 : v3.used = v2.used) (hr3 : v3.sb.toRing = v2.sb.toRing)
    (hf3 : v2.FreeExact → v3.FreeExact) (hlog : Logged v.used v1 v2 → v.RegionsExact → v3.RegionsExact)
    (href : Refused v.used s n v1 v2 → v.RegionsExact → (∀ i < v.regionCount,
      regionClears v.sb.toLayout v.used i + runIn s n i ≤ bitmapRegionSize v.sb.toLayout i) → v3.RegionsExact) :
    AllocPost F v n r v3 := by
  have hds : 0 < v.sb.dataStart := by
    have := hl.journalStart
    have := hl.journal
    have := hl.bitmap
    have := hl.mrt
    omega
  rw [hmem] at hout h2
  refine ⟨(hfr1.trans hfr2).trans hfr3, fun i hi hu => ?_, ?_, ?_⟩
  · have hni : ¬(s ≤ i ∧ i < s + n) := fun h => by
      rw [hclear i h.1 h.2] at hu
      simp at hu
    rw [hu3, hout i hi hni, hused1, fill, if_neg hni, hu]
  · rcases h2 with ⟨hr, hacc, hlogged⟩ | ⟨hr, hF | ⟨_, hrefused⟩⟩
    · have hu2 : ∀ i < v.sb.dataBlocks, v3.used i = fill v.used s n true i := fun i hi => by
        rw [hu3, hlogged.used i (by rw [hmem]; exact hi), hused1]
      refine Or.inl ⟨by omega, s, hr, hb, hclear, fun i hi hi' => ?_, Or.inr ⟨hu2, hacc⟩⟩
      rw [hu2 i (by omega), fill, if_pos ⟨hi, hi'⟩]
    · exact Or.inr ⟨hr, Or.inl hF⟩
    · refine Or.inr ⟨hr, Or.inr ⟨fun i hi => ?_, ?_⟩⟩
      · rw [hu3, hrefused.used i (by rw [hmem]; exact hi)]
      · rw [hr3, hrefused.ring, hmem]
  · rcases h2 with ⟨_, _, hlogged⟩ | ⟨_, hF | ⟨hacc, hrefused⟩⟩
    · refine Or.inr (fun hv _ => ⟨hf3 (hlogged.free ?_), hlog hlogged hv.regions⟩)
      rw [hmem]
      exact hv.free
    · exact Or.inl hF
    · refine Or.inr (fun hv hsafe => ⟨hf3 (hrefused.free ?_), href hrefused hv.regions ?_⟩)
      · rw [hmem]
        exact hv.free
      · rcases hsafe with hacc' | hsafe
        · rw [hacc] at hacc'
          simp at hacc'
        · exact hsafe s htried

theorem regionsExact_logged {v v1 v2 : Volume} {s n r : Nat} (hn : v2.regionCount = v.regionCount)
    (hl : v2.sb.toLayout = v.sb.toLayout) (hmem : v1.toMem = v.toMem) (hused1 : v1.used = fill v.used s n true)
    (hb : s + n ≤ v.sb.dataBlocks) (hclear : ClearRun v.used s n) (hrun : ∀ i, runIn s n i = if i = r then n else 0)
    (hlog : Logged v.used v1 v2) (hv : v.RegionsExact) :
    (v2.mapMem (Mem.mapRegion r (fun k => sub32 k n))).RegionsExact := by
  refine regionsExact_mapRegion (fun c hc i hi => ?_)
  rw [hlog.regions, hmem] at hc
  rw [hn] at hi
  have h1 := hv c hc i hi
  have h2 := regionClears_fill i hclear hb
  have h3 : regionClears v2.sb.toLayout v2.used i = regionClears v.sb.toLayout (fill v.used s n true) i := by
    rw [hl]
    refine regionClears_congr (fun j hj => ?_) i
    rw [hlog.used j (by rw [hmem]; exact hj), hused1]
  have h4 := regionClears_le v.sb.toLayout v.used i
  have h5 := bitmapRegionSize_le v.sb.toLayout i
  rw [hrun] at h2
  rw [h3]
  by_cases hir : i = r
  · rw [if_pos hir] at h2 ⊢
    rw [h1]
    exact sub32_region h2 (by omega)
  · rw [if_neg hir] at h2 ⊢
    omega

theorem regionsExact_refused {v v1 v2 : Volume} {s n r : Nat} (hn : v2.regionCount = v.regionCount)
    (hl : v2.sb.toLayout = v.sb.toLayout) (hmem : v1.toMem = v.toMem)
    (hrun : ∀ i, runIn s n i = if i = r then n else 0) (href : Refused v.used s n v1 v2) (hv : v.RegionsExact)
    (hroom : ∀ i < v.regionCount,
      regionClears v.sb.toLayout v.used i + runIn s n i ≤ bitmapRegionSize v.sb.toLayout i) :
    (v2.mapMem (Mem.mapRegion r (fun k => sub32 k n))).RegionsExact := by
  refine regionsExact_mapRegion (fun c hc i hi => ?_)
  rw [hn] at hi
  obtain ⟨c', hc', hall⟩ := href.regions c hc
  rw [hmem] at hc' hall
  have h1 := hv c' hc' i hi
  have h2 := hroom i hi
  have h3 : regionClears v2.sb.toLayout v2.used i = regionClears v.sb.toLayout v.used i := by
    rw [hl]
    exact regionClears_congr (fun j hj => href.used j (by rw [hmem]; exact hj)) i
  have h4 := bitmapRegionSize_le v.sb.toLayout i
  rw [h3, hall i hi (by omega), h1, Nat.min_eq_left h2, hrun]
  rw [hrun] at h2
  by_cases hir : i = r
  · rw [if_pos hir] at h2 ⊢
    rw [if_pos hir]
    exact sub32_region rfl (by omega)
  · rw [if_neg hir, if_neg hir, Nat.add_zero]

theorem vwp_bitmapTakeRun (F : Prop) {v : Volume} {r n : Nat} (hl : v.sb.toLayout.WF) (hring : v.RingOk)
    (hn : 0 < n) (hr : r < v.regionCount) :
    vwp F (bitmapTakeRun v.sb r n (v.view (v.sb.bitmapBlock (r * regionBlocks))) (regionRun v.sb.toLayout v.used r n))
      (fun b v' => AllocPost F v n b v') (fun _ _ => False) v := by
  cases hrun : regionRun v.sb.toLayout v.used r n with
  | inr _ => exact wpAbs_pure .unchanged
  | inl s =>
    obtain ⟨hlo, hhi, hb, hclear⟩ := regionRun_sound hn hrun
    refine wpAbs_elseDo (vwp_writeBlock ?_ (fun _ => wpAbs_pure .unchanged))
    have hused1 := used_write_setRun (v := v) (b := v.sb.bitmapBlock (r * regionBlocks)) (s := s) (n := n)
      (fun j hj => bitmapBlock_of_region (by omega) (by omega))
    have hfr1 := allocFrame_write (v := v) ((v.view (v.sb.bitmapBlock (r * regionBlocks))).setRun s n)
      (hl.inBitmap (i := r * regionBlocks) (by omega))
    have hmem : (v.write (v.sb.bitmapBlock (r * regionBlocks))
      ((v.view (v.sb.bitmapBlock (r * regionBlocks))).setRun s n)).toMem = v.toMem := rfl
    generalize v.write (v.sb.bitmapBlock (r * regionBlocks))
      ((v.view (v.sb.bitmapBlock (r * regionBlocks))).setRun s n) = v1 at hused1 hfr1 hmem
    have hlog := vwp_bitmapLogAlloc F (v := v1) (u := v.used) (s := s) (n := n) (by rw [hmem]; exact hl)
      (hfr1.ring hring) (by rw [hmem]; exact hb) hclear (fun i _ => by rw [hused1])
    rw [hmem] at hlog
    refine wpAbs_seq hlog (fun b v2 h => wpAbs_bind (vwp_modifyMem (wpAbs_pure ?_))) (fun _ _ h => h)
    obtain ⟨hfr2, hout, h2⟩ := h
    have hrunIn := runIn_of_region hlo hhi
    have hn2 : v2.regionCount = v.regionCount := (hfr1.trans hfr2).regionCount
    have hl2 : v2.sb.toLayout = v.sb.toLayout := (hfr1.trans hfr2).layout
    exact allocPost_of_log hl hb hclear (Or.inl ⟨r, hr, hrun⟩) hfr1 hmem hused1 hfr2 (by rw [hmem]; exact hout)
      (by rw [hmem]; exact h2) (allocFrame_mapRegion v2 r _) (used_mapRegion r _) (by rw [mapMem_toMem, mapRegion_sb])
      (freeExact_mapRegion r _) (regionsExact_logged hn2 hl2 hmem hused1 hb hclear hrunIn)
      (fun href hv hroom => regionsExact_refused hn2 hl2 hmem hrunIn href hv hroom)

theorem vwp_bitmapAllocInRegion (F : Prop) {v : Volume} {r n : Nat} (hl : v.sb.toLayout.WF) (hring : v.RingOk)
    (hn : 0 < n) (hr : r < v.regionCount) :
    vwp F (bitmapAllocInRegion r n) (fun b v' => AllocPost F v n b v') (fun _ _ => False) v := by
  unfold bitmapAllocInRegion
  refine wpAbs_bind (vwp_getMem (wpAbs_ite (fun _ => wpAbs_pure .unchanged) (fun hstop => ?_)))
  refine wpAbs_ite (fun _ => wpAbs_pure .unchanged) (fun _ => wpAbs_bind (vwp_malloc ?_ (fun _ => ?_)))
  swap
  · exact wpAbs_ite (fun _ => wpAbs_pure .unchanged) (fun h => absurd rfl h)
  refine wpAbs_ite (fun _ => wpAbs_pure .unchanged) (fun _ => wpAbs_elseDo (vwp_readBlock ?_ ?_))
  swap
  · exact fun _ => wpAbs_pure .unchanged
  have hscan : scanRun (fun bit => (v.view (v.sb.bitmapBlock (r * regionBlocks))).bits (bit % bitsPerBlock)) n
      (min (r * regionBlocks + regionBlocks) v.sb.dataBlocks - r * regionBlocks) (r * regionBlocks) (0, 0) =
        regionRun v.sb.toLayout v.used r n := by
    refine scanRun_congr n _ (fun i hi hi' => ?_)
    rw [used, bitmapBlock_of_region hi (by omega)]
  rw [hscan]
  exact vwp_bitmapTakeRun F hl hring hn hr

/-! ## The whole bitmap -/

theorem vwp_scanRunLinear (F : Prop) {v : Volume} {n : Nat} : ∀ (k bb : Nat) (run : Nat × Nat),
    vwp F (scanRunLinear v.sb n bb k run)
      (fun found v' => v' = v ∧ found = (scanRun v.used n (min (k * bitsPerBlock)
        (v.sb.dataBlocks - bb * bitsPerBlock)) (bb * bitsPerBlock) run).elim some (fun _ => none))
      (fun _ v' => v' = v) v
  | 0, bb, run => by
    rw [scanRunLinear]
    exact wpAbs_pure ⟨rfl, by rw [Nat.zero_mul, Nat.zero_min, scanRun, Sum.elim_inr]⟩
  | k + 1, bb, run => by
    have ih := vwp_scanRunLinear F (v := v) (n := n) k (bb + 1)
    rw [scanRunLinear]
    refine wpAbs_bind (vwp_readBlock ?_ (fun _ => rfl))
    have hscan : scanRun (fun bit => (v.view (v.sb.bitmapStart + bb)).bits (bit % bitsPerBlock)) n
        (min bitsPerBlock (v.sb.dataBlocks - bb * bitsPerBlock)) (bb * bitsPerBlock) run =
          scanRun v.used n (min bitsPerBlock (v.sb.dataBlocks - bb * bitsPerBlock)) (bb * bitsPerBlock) run := by
      refine scanRun_congr n _ (fun i hi hi' => ?_)
      have hdiv : i / bitsPerBlock = bb := by
        rw [Nat.div_eq_iff bitsPerBlock_pos]
        omega
      rw [used, Layout.bitmapBlock, hdiv]
    have hsplit : min ((k + 1) * bitsPerBlock) (v.sb.dataBlocks - bb * bitsPerBlock) =
        min bitsPerBlock (v.sb.dataBlocks - bb * bitsPerBlock) +
          min (k * bitsPerBlock) (v.sb.dataBlocks - (bb + 1) * bitsPerBlock) := by
      rw [Nat.add_mul, Nat.add_mul]
      omega
    rw [hscan, hsplit, scanRun_append]
    cases scanRun v.used n (min bitsPerBlock (v.sb.dataBlocks - bb * bitsPerBlock)) (bb * bitsPerBlock) run with
    | inl s =>
      rw [Sum.elim_inl, Sum.elim_inl]
      exact wpAbs_pure ⟨rfl, by rw [Sum.elim_inl]⟩
    | inr run' =>
      rw [Sum.elim_inr, Sum.elim_inr]
      refine wpAbs_mono (ih run') (fun found v' h => ⟨h.1, h.2.trans ?_⟩) (fun _ _ h => h)
      by_cases hle : bitsPerBlock ≤ v.sb.dataBlocks - bb * bitsPerBlock
      · rw [Nat.min_eq_left hle, Nat.add_mul, Nat.one_mul]
      · have h0 : min (k * bitsPerBlock) (v.sb.dataBlocks - (bb + 1) * bitsPerBlock) = 0 := by
          rw [Nat.add_mul]
          omega
        rw [h0, scanRun, scanRun]

theorem vwp_bitmapMarks (F : Prop) {v : Volume} {s n : Nat} (hl : v.sb.toLayout.WF) (hb : s + n ≤ v.sb.dataBlocks) :
    vwp F (forRange (fun j => bitmapMark v.sb (s + j)) 0 n)
      (fun _ v' => AllocFrame v v' ∧ v'.toMem = v.toMem ∧ v'.used = fill v.used s n true)
      (fun _ v' => F ∧ AllocFrame v v' ∧ ∀ i, v.used i = true → v'.used i = true) v := by
  have := wpAbs_forRange (π := volView F) (F := fun _ v' => F ∧ AllocFrame v v' ∧ ∀ i, v.used i = true → v'.used i = true)
    (b := fun j => bitmapMark v.sb (s + j))
    (I := fun j v' => AllocFrame v v' ∧ v'.toMem = v.toMem ∧ v'.used = fill v.used s j true) n 0
    ⟨AllocFrame.refl v, rfl, (fill_zero _ _ _).symm⟩ (fun j v' _ hj hI => ?_)
  · simpa only [Nat.zero_add] using this
  obtain ⟨hfr, hmem, hused⟩ := hI
  have hmono : ∀ i, v.used i = true → v'.used i = true := fun i hi => by
    rw [hused, fill]
    split
    · rfl
    · exact hi
  have hF : F ∨ ¬v'.sectorOk → F := fun h => h.resolve_right (fun hs => hs (sectorOk_of_wf (by rw [hmem]; exact hl)))
  unfold bitmapMark
  refine wpAbs_bind (vwp_readBlock (vwp_writeBlock ?_ (fun h => ⟨hF h, hfr, hmono⟩)) (fun h => ⟨hF h, hfr, hmono⟩))
  have hset : v'.write (v.sb.bitmapBlock (s + j)) ((v'.view (v.sb.bitmapBlock (s + j))).setBit
      ((s + j) % bitsPerBlock) true) = v'.setUsed (s + j) true := by rw [setUsed, hmem]
  rw [hset]
  refine ⟨hfr.trans (allocFrame_setUsed (by rw [hmem]; exact hl) (by rw [hmem]; omega) true), hmem, ?_⟩
  rw [used_setUsed, hused, fill_succ]

theorem takenOne (a t : Nat) : (if 0 < a - t then a - t - 1 else a - t) = a - (t + 1) := by
  split <;> omega

theorem vwp_takeRegions (F : Prop) {v : Volume} {s n : Nat} :
    vwp F (forRange (fun j => modifyMem (Mem.mapRegion ((s + j) / regionBlocks)
        (fun k => if 0 < k then k - 1 else k))) 0 n)
      (fun _ v' => AllocFrame v v' ∧ v'.used = v.used ∧ v'.sb = v.sb ∧ v'.regionCount = v.regionCount ∧
        ∀ c, v'.regions = some c → ∃ c', v.regions = some c' ∧ ∀ i < v.regionCount, c i = c' i - runIn s n i)
      (fun _ _ => False) v := by
  have := wpAbs_forRange (π := volView F) (F := fun _ _ => False)
    (b := fun j => modifyMem (Mem.mapRegion ((s + j) / regionBlocks) (fun k => if 0 < k then k - 1 else k)))
    (I := fun j v' => AllocFrame v v' ∧ v'.used = v.used ∧ v'.sb = v.sb ∧ v'.regionCount = v.regionCount ∧
      ∀ c, v'.regions = some c → ∃ c', v.regions = some c' ∧ ∀ i < v.regionCount, c i = c' i - runIn s j i) n 0
    ⟨AllocFrame.refl v, rfl, rfl, rfl, fun c hc => ⟨c, hc, fun i _ => by rw [runIn_zero, Nat.sub_zero]⟩⟩
    (fun j v' _ hj hI => ?_)
  · simpa only [Nat.zero_add] using this
  obtain ⟨hfr, hused, hsb, hn, hreg⟩ := hI
  refine vwp_modifyMem ⟨hfr.trans (allocFrame_mapRegion v' _ _), (used_mapRegion _ _).trans hused, ?_, ?_, ?_⟩
  · rw [mapMem_toMem, mapRegion_sb, hsb]
  · rw [mapMem_toMem, mapRegion_regionCount, hn]
  · intro c hc
    rw [mapMem_toMem] at hc
    obtain ⟨c1, hc1, hall1⟩ := mapRegion_regions hc
    obtain ⟨c', hc', hall⟩ := hreg c1 hc1
    refine ⟨c', hc', fun i hi => ?_⟩
    rw [hall1 i (by rw [hn]; exact hi), hall i hi, runIn_succ]
    by_cases hr : i = (s + j) / regionBlocks
    · rw [if_pos hr, if_pos hr, takenOne]
    · rw [if_neg hr, if_neg hr, Nat.add_zero]

theorem vwp_bitmapTakeLinear (F : Prop) {v : Volume} {n : Nat} (hl : v.sb.toLayout.WF) (hring : v.RingOk)
    (hn : 0 < n) :
    vwp F (bitmapTakeLinear v.sb n ((linearRun v.sb.toLayout v.used n).elim some (fun _ => none)))
      (fun b v' => AllocPost F v n b v') (fun _ _ => False) v := by
  cases hrun : linearRun v.sb.toLayout v.used n with
  | inr _ =>
    rw [Sum.elim_inr]
    exact wpAbs_pure .unchanged
  | inl s =>
    rw [Sum.elim_inl]
    obtain ⟨hb, hclear⟩ := linearRun_sound hn hrun
    refine wpAbs_elseDo (wpAbs_mono (vwp_bitmapMarks F hl hb) (fun _ v1 h1 => ?_) (fun _ v1 h1 => wpAbs_pure ?_))
    · obtain ⟨hfr1, hmem, hused1⟩ := h1
      have hlog := vwp_bitmapLogAlloc F (v := v1) (u := v.used) (s := s) (n := n) (by rw [hmem]; exact hl)
        (hfr1.ring hring) (by rw [hmem]; exact hb) hclear (fun i _ => by rw [hused1])
      rw [hmem] at hlog
      refine wpAbs_seq hlog (fun b v2 h => ?_) (fun _ _ h => h)
      obtain ⟨hfr2, hout, h2⟩ := h
      refine wpAbs_seq (vwp_takeRegions F (v := v2) (s := s) (n := n)) (fun _ v3 h3 => wpAbs_pure ?_) (fun _ _ h => h)
      obtain ⟨hfr3, hu3, hsb3, hn3, hreg3⟩ := h3
      have hn2 : v2.regionCount = v.regionCount := (hfr1.trans hfr2).regionCount
      have hl2 : v2.sb.toLayout = v.sb.toLayout := (hfr1.trans hfr2).layout
      refine allocPost_of_log hl hb hclear (Or.inr hrun) hfr1 hmem hused1 hfr2 (by rw [hmem]; exact hout)
        (by rw [hmem]; exact h2) hfr3 hu3 (by rw [hsb3]) (fun hf => by unfold FreeExact at *; rw [hsb3, hu3, hf])
        (fun hlogged hv c hc i hi => ?_) (fun href hv hroom c hc i hi => ?_)
      · obtain ⟨c', hc', hall⟩ := hreg3 c hc
        rw [hlogged.regions, hmem] at hc'
        rw [hn3, hn2] at hi
        have h2 := regionClears_fill i hclear hb
        rw [hall i (by rw [hn2]; exact hi), hv c' hc' i hi, ← h2, Nat.add_sub_cancel, hsb3, hl2, hu3]
        exact regionClears_congr (fun j hj => by rw [hlogged.used j (by rw [hmem]; exact hj), hused1]) i
      · obtain ⟨c', hc', hall⟩ := hreg3 c hc
        obtain ⟨c1, hc1, hall1⟩ := href.regions c' hc'
        rw [hmem] at hc1 hall1
        rw [hn3, hn2] at hi
        have h1 := hv c1 hc1 i hi
        have h2 := hroom i hi
        rw [hall i (by rw [hn2]; exact hi), hall1 i hi (by omega), h1, Nat.min_eq_left h2, Nat.add_sub_cancel, hsb3,
          hl2, hu3]
        exact regionClears_congr (fun j hj => by rw [href.used j (by rw [hmem]; exact hj)]) i
    · exact ⟨h1.2.1, fun i _ hu => h1.2.2 i hu, Or.inr ⟨rfl, Or.inl h1.1⟩, Or.inl h1.1⟩

theorem vwp_bitmapAllocRangeLinear (F : Prop) {v : Volume} {n : Nat} (hl : v.sb.toLayout.WF) (hring : v.RingOk) :
    vwp F (bitmapAllocRangeLinear n) (fun b v' => AllocPost F v n b v') (fun _ _ => False) v := by
  unfold bitmapAllocRangeLinear
  refine wpAbs_ite (fun _ => wpAbs_pure .unchanged) (fun hn => ?_)
  refine wpAbs_bind (wpAbs_mono (P := fun _ v' => v' = v) (F := fun _ _ => False) (vwp_malloc rfl (fun _ => rfl))
    (fun buf v' h => ?_) (fun _ _ h => h))
  subst h
  refine wpAbs_bind (wpAbs_mono (P := fun _ v'' => v'' = v') (F := fun _ _ => False) (vwp_malloc rfl (fun _ => rfl))
    (fun jBuf v'' h => ?_) (fun _ _ h => h))
  subst h
  refine wpAbs_ite (fun _ => wpAbs_pure .unchanged) (fun _ => wpAbs_bind (vwp_getSb (wpAbs_elseDo ?_)))
  refine wpAbs_mono (vwp_scanRunLinear F (v := v'') v''.sb.bitmapLength 0 (0, 0)) (fun found v1 h => ?_)
    (fun _ v1 h => h ▸ wpAbs_pure .unchanged)
  obtain ⟨rfl, rfl⟩ := h
  have hcov : min (v1.sb.bitmapLength * bitsPerBlock) (v1.sb.dataBlocks - 0 * bitsPerBlock) = v1.sb.dataBlocks := by
    have := hl.covers
    rw [Nat.zero_mul, Nat.sub_zero, hl.dataBlocks_eq]
    omega
  rw [hcov, Nat.zero_mul]
  exact vwp_bitmapTakeLinear F hl hring (Nat.pos_of_ne_zero hn)

/-! ## The public allocators -/

theorem AllocFrame.wf {v v' : Volume} (h : AllocFrame v v') (hl : v.sb.toLayout.WF) : v'.sb.toLayout.WF := by
  rw [h.layout]
  exact hl

theorem AllocPost.hint {F : Prop} {v v' : Volume} {n r k : Nat} (h : AllocPost F v n r v') :
    AllocPost F v n r (v'.mapMem (fun m => { m with allocHintRegion := k })) :=
  ⟨⟨h.frame.view, h.frame.layout, h.frame.counters, h.frame.inTransaction, h.frame.regionCount, h.frame.regions,
    h.frame.mounted, h.frame.ring⟩, h.keeps, by
      rcases h.result with ⟨hne, s, hs, hb, hc, hm, hex⟩ | ⟨h0, hex⟩
      · exact Or.inl ⟨hne, s, hs, hb, hc, hm, hex.imp id (fun hex => ⟨hex.used, hex.accepts⟩)⟩
      · exact Or.inr ⟨h0, hex⟩,
    h.counts.imp id (fun hc hv hs => ⟨(hc hv hs).free, (hc hv hs).regions⟩)⟩

theorem vwp_bitmapTryRegions (F : Prop) {n start : Nat} {next : Nat → Nat} (hn : 0 < n) : ∀ (m k : Nat) {v : Volume},
    v.sb.toLayout.WF → v.RingOk → 0 < v.regionCount →
    vwp F (bitmapTryRegions n start next k m) (fun b v' => AllocPost F v n b v') (fun _ _ => False) v
  | 0, _, v, _, _, _ => wpAbs_pure .unchanged
  | m + 1, k, v, hl, hring, hcount => by
    have ih := fun {v' : Volume} => @vwp_bitmapTryRegions F n start next hn m (k + 1) v'
    rw [bitmapTryRegions]
    refine wpAbs_bind (vwp_getMem (wpAbs_ite (fun hfree => ?_) (fun _ => ih hl hring hcount)))
    refine wpAbs_seq (vwp_bitmapAllocInRegion F hl hring hn (Nat.mod_lt _ hcount)) (fun b v' h => ?_) (fun _ _ h => h)
    refine wpAbs_ite (fun _ => wpAbs_bind (vwp_modifyMem (wpAbs_pure h.hint))) (fun hb => ?_)
    rw [Decidable.not_not] at hb
    subst hb
    exact wpAbs_mono (ih (h.frame.wf hl) (h.frame.ring hring) (by rw [h.frame.regionCount]; exact hcount))
      (fun _ _ h' => h.trans h') (fun _ _ h => h)

theorem vwp_regionsThenLinear (F : Prop) {n start m : Nat} {next : Nat → Nat} (hn : 0 < n) {v : Volume}
    (hl : v.sb.toLayout.WF) (hring : v.RingOk) (hm : m = v.regionCount) :
    vwp F (do
      let block ← bitmapTryRegions n start next 0 m
      if block ≠ 0 then pure block else bitmapAllocRangeLinear n)
      (fun b v' => AllocPost F v n b v') (fun _ _ => False) v := by
  have htry : vwp F (bitmapTryRegions n start next 0 m) (fun b v' => AllocPost F v n b v') (fun _ _ => False) v := by
    by_cases h0 : m = 0
    · rw [h0]
      exact wpAbs_pure .unchanged
    · exact vwp_bitmapTryRegions F hn m 0 hl hring (by omega)
  refine wpAbs_seq htry (fun b v' h => wpAbs_ite (fun _ => wpAbs_pure h) (fun hb => ?_)) (fun _ _ h => h)
  rw [Decidable.not_not] at hb
  subst hb
  exact wpAbs_mono (vwp_bitmapAllocRangeLinear F (h.frame.wf hl) (h.frame.ring hring)) (fun _ _ h' => h.trans h')
    (fun _ _ h => h)

theorem vwp_bitmapAlloc (F : Prop) {v : Volume} (hl : v.sb.toLayout.WF) (hring : v.RingOk) :
    vwp F bitmapAlloc (fun b v' => AllocPost F v 1 b v') (fun _ _ => False) v := by
  unfold bitmapAlloc
  refine wpAbs_bind (vwp_getMem ?_)
  cases v.regions with
  | none => exact vwp_bitmapAllocRangeLinear F hl hring
  | some _ => exact vwp_regionsThenLinear F Nat.one_pos hl hring rfl

theorem vwp_bitmapAllocRange (F : Prop) {v : Volume} {n : Nat} (hl : v.sb.toLayout.WF) (hring : v.RingOk) :
    vwp F (bitmapAllocRange n) (fun b v' => AllocPost F v n b v') (fun _ _ => False) v := by
  unfold bitmapAllocRange
  refine wpAbs_bind (vwp_getMem (wpAbs_ite (fun _ => wpAbs_pure .unchanged) (fun hn => ?_)))
  refine wpAbs_ite (fun h1 => ?_) (fun _ => wpAbs_ite (fun _ => ?_) (fun _ => vwp_bitmapAllocRangeLinear F hl hring))
  · subst h1
    exact vwp_bitmapAlloc F hl hring
  · exact vwp_regionsThenLinear F (Nat.pos_of_ne_zero hn) hl hring rfl

/-! ## Freeing -/

/-- How many of the blocks `s`, …, `s + n - 1` are used. -/
def usedIn (f : Nat → Bool) (s n : Nat) : Nat := Nat.count (fun j => f (s + j) = true) n

end SmkFs
end AmitX
