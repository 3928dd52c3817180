import AmitX.Lib.Bits
import AmitX.Mm.Pmm
import Mathlib.Data.List.Range
/-!
# PmmSpec — what the functions of the frame allocator do to the bitmap and the counter

The loops over ranges of frames set or clear the bits of the range and no others, and keep the counter exact below the
last frame.  A search answers with frames that are free.
-/
namespace AmitX
namespace Mm

open Bits

theorem word_of_lt {a : Arch} {n : Nat} (h : n < 2 ^ a.bits) : a.word n = n := Nat.mod_eq_of_lt h

theorem word_lt (a : Arch) (n : Nat) : a.word n < 2 ^ a.bits := Nat.mod_lt _ (Nat.two_pow_pos _)

theorem two_pow_bits (a : Arch) : 2 ^ 32 ≤ 2 ^ a.bits := by cases a <;> decide

/-! ## Single frames -/

/-- The counter is the number of set bits below the last frame. -/
structure Counted (a : Arch) (m : Pmm) : Prop where
  used : m.usedFrames = sets m.bitmap m.totalFrames
  small : m.totalFrames < 2 ^ a.bits

theorem Counted.take {a : Arch} {m : Pmm} {f : Nat} (h : Counted a m) (hf : f < m.totalFrames)
    (hb : m.bitmap f = false) : Counted a (takeFrame a m f) where
  used := by
    have hset := sets_set hb m.totalFrames
    rw [if_pos hf] at hset
    have hle := sets_le (Function.update m.bitmap f true) m.totalFrames
    have hs := h.small
    change a.word (m.usedFrames + 1) = sets (Function.update m.bitmap f true) m.totalFrames
    rw [word_of_lt (by rw [h.used]; omega), h.used, hset]
  small := h.small

theorem Counted.release {a : Arch} {m : Pmm} {f : Nat} (h : Counted a m) (hf : f < m.totalFrames) :
    Counted a (releaseFrame a m f) := by
  unfold releaseFrame bitmapTest
  split
  · next hb =>
    have hclear := sets_clear hb m.totalFrames
    rw [if_pos hf] at hclear
    have hle := sets_le m.bitmap m.totalFrames
    have hs := h.small
    refine ⟨?_, h.small⟩
    change a.word (m.usedFrames + 2 ^ a.bits - 1) = sets (Function.update m.bitmap f false) m.totalFrames
    rw [h.used, ← hclear, show sets (Function.update m.bitmap f false) m.totalFrames + 1 + 2 ^ a.bits - 1
      = sets (Function.update m.bitmap f false) m.totalFrames + 2 ^ a.bits by omega, Arch.word, Nat.add_mod_right]
    exact Nat.mod_eq_of_lt (by omega)
  · exact h

theorem Counted.reserve {a : Arch} {m : Pmm} {f : Nat} (h : Counted a m) (hf : f < m.totalFrames) :
    Counted a (reserveFrame a m f) := by
  unfold reserveFrame bitmapTest
  split
  · exact h
  · next hb => exact h.take hf (Bool.eq_false_iff.2 hb)

/-! ## Ranges of frames -/

/-- The bits of `frames` set, or cleared. -/
def fill (b : Nat → Bool) (frames : List Nat) (v : Bool) : Nat → Bool := fun f => if f ∈ frames then v else b f

theorem fill_nil (b : Nat → Bool) (v : Bool) : fill b [] v = b := by
  funext f
  simp [fill]

theorem fill_cons (b : Nat → Bool) (f : Nat) (frames : List Nat) (v : Bool) :
    fill b (f :: frames) v = fill (Function.update b f v) frames v := by
  funext g
  by_cases hg : g = f
  · subst hg
    simp [fill]
  · simp [fill, hg]

theorem foldl_fill {step : Pmm → Nat → Pmm} {v : Bool}
    (hstep : ∀ m f, (step m f).bitmap = Function.update m.bitmap f v ∧ (step m f).totalFrames = m.totalFrames ∧
      (step m f).bitmapSize = m.bitmapSize) : ∀ (frames : List Nat) (m : Pmm),
    (frames.foldl step m).bitmap = fill m.bitmap frames v ∧ (frames.foldl step m).totalFrames = m.totalFrames ∧
      (frames.foldl step m).bitmapSize = m.bitmapSize
  | [], m => ⟨(fill_nil _ _).symm, rfl, rfl⟩
  | f :: frames, m => by
    obtain ⟨h1, h2, h3⟩ := foldl_fill hstep frames (step m f)
    obtain ⟨s1, s2, s3⟩ := hstep m f
    rw [List.foldl_cons, h1, h2, h3, s1, s2, s3, fill_cons]
    exact ⟨rfl, rfl, rfl⟩

theorem takeFrame_bitmap (a : Arch) (m : Pmm) (f : Nat) : (takeFrame a m f).bitmap = Function.update m.bitmap f true ∧
    (takeFrame a m f).totalFrames = m.totalFrames ∧ (takeFrame a m f).bitmapSize = m.bitmapSize := ⟨rfl, rfl, rfl⟩

theorem reserveFrame_bitmap (a : Arch) (m : Pmm) (f : Nat) :
    (reserveFrame a m f).bitmap = Function.update m.bitmap f true ∧
      (reserveFrame a m f).totalFrames = m.totalFrames ∧ (reserveFrame a m f).bitmapSize = m.bitmapSize := by
  unfold reserveFrame bitmapTest
  split
  · next hb => exact ⟨(Function.update_eq_self_iff.2 hb.symm).symm, rfl, rfl⟩
  · exact takeFrame_bitmap a m f

theorem releaseFrame_bitmap (a : Arch) (m : Pmm) (f : Nat) :
    (releaseFrame a m f).bitmap = Function.update m.bitmap f false ∧
      (releaseFrame a m f).totalFrames = m.totalFrames ∧ (releaseFrame a m f).bitmapSize = m.bitmapSize := by
  unfold releaseFrame bitmapTest
  split
  · exact ⟨rfl, rfl, rfl⟩
  · next hb => exact ⟨(Function.update_eq_self_iff.2 (Bool.eq_false_iff.2 hb).symm).symm, rfl, rfl⟩

theorem Counted.foldl {a : Arch} {step : Pmm → Nat → Pmm} (ht : ∀ m f, (step m f).totalFrames = m.totalFrames)
    (hstep : ∀ m f, Counted a m → f < m.totalFrames → Counted a (step m f)) : ∀ (frames : List Nat) (m : Pmm),
    (∀ f ∈ frames, f < m.totalFrames) → Counted a m → Counted a (frames.foldl step m)
  | [], _, _, h => h
  | f :: frames, m, hf, h => by
    refine Counted.foldl ht hstep frames _ (fun g hg => ?_) (hstep m f h (hf f (by simp)))
    rw [ht]
    exact hf g (by simp [hg])

theorem Counted.takeAll {a : Arch} : ∀ (frames : List Nat) (m : Pmm), frames.Nodup →
    (∀ f ∈ frames, f < m.totalFrames ∧ m.bitmap f = false) → Counted a m → Counted a (frames.foldl (takeFrame a) m)
  | [], _, _, _, h => h
  | f :: frames, m, hn, hf, h => by
    obtain ⟨hnf, hn⟩ := List.nodup_cons.1 hn
    obtain ⟨hlt, hb⟩ := hf f (by simp)
    refine Counted.takeAll frames _ hn (fun g hg => ?_) (h.take hlt hb)
    obtain ⟨hlt', hb'⟩ := hf g (by simp [hg])
    refine ⟨hlt', ?_⟩
    change Function.update m.bitmap f true g = false
    rw [Function.update_of_ne (by rintro rfl; exact hnf hg)]
    exact hb'

theorem frameRange_eq {a : Arch} {frame count : Nat} (h : frame + count ≤ 2 ^ a.bits) :
    frameRange a frame count = List.range' frame count := by
  rw [frameRange, List.range'_eq_map_range]
  refine List.map_congr_left (fun i hi => ?_)
  rw [List.mem_range] at hi
  exact word_of_lt (by omega)

theorem mem_range'_iff {f s n : Nat} : f ∈ List.range' s n ↔ s ≤ f ∧ f < s + n := by
  rw [List.mem_range'_1]

theorem mem_regionFrames {a : Arch} {total start length f : Nat} :
    f ∈ regionFrames a total start length ↔ start / frameSize ≤ f ∧
      f < a.word (start + length + frameSizeMask) / frameSize ∧ f < total := by
  rw [regionFrames, mem_range'_iff]
  omega

/-! ## Regions -/

def RegionFrame (a : Arch) (total start length f : Nat) : Prop := length ≠ 0 ∧ f ∈ regionFrames a total start length

instance (a : Arch) (total start length f : Nat) : Decidable (RegionFrame a total start length f) :=
  decidable_of_iff (length ≠ 0 ∧ start / frameSize ≤ f ∧ f < a.word (start + length + frameSizeMask) / frameSize ∧
    f < total) (and_congr_right' mem_regionFrames.symm)

theorem pmmReserveRegion_bitmap (a : Arch) (start length : Nat) (m : Pmm) :
    (pmmReserveRegion a start length m).bitmap =
        (fun f => if RegionFrame a m.totalFrames start length f then true else m.bitmap f) ∧
      (pmmReserveRegion a start length m).totalFrames = m.totalFrames ∧
      (pmmReserveRegion a start length m).bitmapSize = m.bitmapSize := by
  unfold pmmReserveRegion RegionFrame
  by_cases hl : length = 0
  · simp [hl]
  · obtain ⟨h1, h2, h3⟩ := foldl_fill (reserveFrame_bitmap a) (regionFrames a m.totalFrames start length) m
    rw [if_neg hl]
    refine ⟨h1.trans (funext fun f => ?_), h2, h3⟩
    simp only [fill, ne_eq, hl, not_false_eq_true, true_and]

theorem pmmUnreserveRegion_bitmap (a : Arch) (start length : Nat) (m : Pmm) :
    (pmmUnreserveRegion a start length m).bitmap =
        (fun f => if RegionFrame a m.totalFrames start length f then false else m.bitmap f) ∧
      (pmmUnreserveRegion a start length m).totalFrames = m.totalFrames ∧
      (pmmUnreserveRegion a start length m).bitmapSize = m.bitmapSize := by
  unfold pmmUnreserveRegion RegionFrame
  by_cases hl : length = 0
  · simp [hl]
  · obtain ⟨h1, h2, h3⟩ := foldl_fill (releaseFrame_bitmap a) (regionFrames a m.totalFrames start length) m
    rw [if_neg hl]
    refine ⟨h1.trans (funext fun f => ?_), h2, h3⟩
    simp only [fill, ne_eq, hl, not_false_eq_true, true_and]

theorem Counted.reserveRegion {a : Arch} {m : Pmm} (h : Counted a m) (start length : Nat) :
    Counted a (pmmReserveRegion a start length m) := by
  unfold pmmReserveRegion
  split
  · exact h
  · exact Counted.foldl (fun m f => (reserveFrame_bitmap a m f).2.1) (fun m f hm hf => hm.reserve hf) _ m
      (fun f hf => (mem_regionFrames.1 hf).2.2) h

theorem Counted.unreserveRegion {a : Arch} {m : Pmm} (h : Counted a m) (start length : Nat) :
    Counted a (pmmUnreserveRegion a start length m) := by
  unfold pmmUnreserveRegion
  split
  · exact h
  · exact Counted.foldl (fun m f => (releaseFrame_bitmap a m f).2.1) (fun m f hm hf => hm.release hf) _ m
      (fun f hf => (mem_regionFrames.1 hf).2.2) h

/-! ## Searches -/

theorem findFirstFree_sound {m : Pmm} {f : Nat} (h : findFirstFree m = some f) :
    f < m.totalFrames ∧ m.bitmap f = false := by
  obtain ⟨i, _, hi⟩ := List.exists_of_findSome?_eq_some (Option.join_eq_some_iff.1 h)
  unfold scanByte at hi
  split at hi
  · cases hi
  · obtain ⟨j, _, hj⟩ := List.exists_of_findSome?_eq_some hi
    split at hj
    · cases hj
    · split at hj
      · cases hj
      · next hlt hb =>
        cases hj
        exact ⟨Nat.lt_of_not_le hlt, Bool.eq_false_iff.2 hb⟩

theorem scanRun_eq (m : Pmm) (count : Nat) : ∀ n i runStart runLen,
    scanRun m count n i runStart runLen = Bits.firstRun m.bitmap count n i runStart runLen
  | 0, _, _, _ => rfl
  | n + 1, i, runStart, runLen => by
    simp only [scanRun, Bits.firstRun, bitmapTest, scanRun_eq m count n]

theorem findFirstFreeN_sound {m : Pmm} {count f : Nat} (h : findFirstFreeN count m = some f) :
    0 < count ∧ ∀ k < count, f + k < m.totalFrames ∧ m.bitmap (f + k) = false := by
  unfold findFirstFreeN at h
  split at h
  · cases h
  · split at h
    · next hc =>
      subst hc
      refine ⟨by omega, fun k hk => ?_⟩
      obtain rfl : k = 0 := by omega
      exact findFirstFree_sound h
    · have hc : 0 < count := by omega
      rw [scanRun_eq] at h
      refine ⟨hc, fun k hk => ?_⟩
      have := Bits.firstRun_sound (by omega) (by omega) h k hk
      exact ⟨by omega, this.2⟩

theorem skipUsed_sound {m : Pmm} : ∀ {n i : Nat}, m.totalFrames ≤ i + n → skipUsed m n i < m.totalFrames →
    m.bitmap (skipUsed m n i) = false
  | 0, i, hn, h => absurd h (Nat.not_lt.2 hn)
  | n + 1, i, hn, h => by
    unfold skipUsed at h ⊢
    split
    · next hc =>
      rw [if_pos hc] at h
      exact skipUsed_sound (by omega) h
    · next hc =>
      rw [if_neg hc] at h
      exact Bool.eq_false_iff.2 (fun hb => hc ⟨h, hb⟩)

theorem findAligned_sound {a : Arch} {count align : Nat} {m : Pmm} {f : Nat} (h : findAligned a count align m = some f) :
    (∃ i < m.totalFrames, m.bitmap i = false ∧ f = alignUp a i align) ∧ a.word (f + count) ≤ m.totalFrames ∧
      ∀ k < count, m.bitmap (a.word (f + k)) = false := by
  refine Loop.loop_post (I := fun _ => True) (Q := fun r => ∀ f, r = some f →
    (∃ i < m.totalFrames, m.bitmap i = false ∧ f = alignUp a i align) ∧ a.word (f + count) ≤ m.totalFrames ∧
      ∀ k < count, m.bitmap (a.word (f + k)) = false) (fun _ _ _ _ => trivial) ?_ trivial
    (Option.join_eq_some_iff.1 h) f rfl
  rintro i r - hr f rfl
  unfold alignedTurn at hr
  dsimp only at hr
  split at hr
  · cases hr
  · next hi =>
    split at hr
    · cases hr
    · next hsum =>
      split at hr
      · cases hr
      · next hnone =>
        cases hr
        have hlt := Nat.lt_of_not_le hi
        refine ⟨⟨_, hlt, skipUsed_sound (by omega) hlt, rfl⟩, Nat.le_of_not_lt hsum, fun k hk => ?_⟩
        exact Bool.eq_false_iff.2 (List.find?_eq_none.1 hnone k (List.mem_range.2 hk))

/-! ## Initialization -/

theorem unreserveAll_bitmap (a : Arch) : ∀ (regions : List (Nat × Nat)) (m : Pmm),
    (regions.foldl (fun m r => pmmUnreserveRegion a r.1 r.2 m) m).bitmap =
        (fun f => if ∃ r ∈ regions, RegionFrame a m.totalFrames r.1 r.2 f then false else m.bitmap f) ∧
      (regions.foldl (fun m r => pmmUnreserveRegion a r.1 r.2 m) m).totalFrames = m.totalFrames ∧
      (regions.foldl (fun m r => pmmUnreserveRegion a r.1 r.2 m) m).bitmapSize = m.bitmapSize
  | [], m => ⟨funext fun f => by simp, rfl, rfl⟩
  | r :: regions, m => by
    obtain ⟨h1, h2, h3⟩ := unreserveAll_bitmap a regions (pmmUnreserveRegion a r.1 r.2 m)
    obtain ⟨s1, s2, s3⟩ := pmmUnreserveRegion_bitmap a r.1 r.2 m
    rw [List.foldl_cons, h1, h2, h3, s1, s2, s3]
    refine ⟨funext fun f => ?_, rfl, rfl⟩
    by_cases hr : RegionFrame a m.totalFrames r.1 r.2 f
    · simp [hr]
    · simp only [List.exists_mem_cons_iff, hr, false_or, if_false]

theorem Counted.unreserveAll {a : Arch} : ∀ (regions : List (Nat × Nat)) {m : Pmm}, Counted a m →
    Counted a (regions.foldl (fun m r => pmmUnreserveRegion a r.1 r.2 m) m)
  | [], _, h => h
  | r :: regions, _, h => Counted.unreserveAll regions (h.unreserveRegion r.1 r.2)

/-- The frames that are marked as used again: the low memory, the kernel with the bitmap, the screen. -/
def InitReserved (a : Arch) (l : Loader) (info : BootInfo) (f : Nat) : Prop :=
  RegionFrame a (initFrames a info) 0 mib f ∨
    RegionFrame a (initFrames a info) mib (a.word (kernelEnd a l info + 2 ^ a.bits - mib)) f ∨
    RegionFrame a (initFrames a info) vgaMemPhys frameSize f

def InitTouched (a : Arch) (l : Loader) (info : BootInfo) (f : Nat) : Prop :=
  ∃ r ∈ initRegions a l info, RegionFrame a (initFrames a info) r.1 r.2 f

instance (a : Arch) (l : Loader) (info : BootInfo) (f : Nat) : Decidable (InitReserved a l info f) :=
  inferInstanceAs (Decidable (_ ∨ _ ∨ _))

instance (a : Arch) (l : Loader) (info : BootInfo) (f : Nat) : Decidable (InitTouched a l info f) :=
  inferInstanceAs (Decidable (∃ r ∈ _, _))

theorem pmmInit_bitmap (a : Arch) (l : Loader) (info : BootInfo) :
    (pmmInit a l info).bitmap = (fun f => if InitReserved a l info f then true
        else if InitTouched a l info f then false
        else decide (f < 8 * initBitmapSize a info) || l.memory f) ∧
      (pmmInit a l info).totalFrames = initFrames a info := by
  unfold pmmInit
  dsimp only
  obtain ⟨h1, h2, _⟩ := unreserveAll_bitmap a (initRegions a l info)
    ⟨fun frame => decide (frame < 8 * initBitmapSize a info) || l.memory frame, initFrames a info, initFrames a info,
      initBitmapSize a info⟩
  generalize (initRegions a l info).foldl (fun m r => pmmUnreserveRegion a r.1 r.2 m) _ = m1 at h1 h2
  obtain ⟨b2, t2, _⟩ := pmmReserveRegion_bitmap a 0 mib m1
  generalize pmmReserveRegion a 0 mib m1 = m2 at b2 t2
  obtain ⟨b3, t3, _⟩ :=
    pmmReserveRegion_bitmap a mib (a.word (kernelEnd a l info + 2 ^ a.bits - mib)) m2
  generalize pmmReserveRegion a mib _ m2 = m3 at b3 t3
  obtain ⟨b4, t4, _⟩ := pmmReserveRegion_bitmap a vgaMemPhys frameSize m3
  dsimp only at h1 h2
  rw [b4, t4, b3, t3, b2, t2, h1, h2]
  refine ⟨funext fun f => ?_, rfl⟩
  by_cases hres : InitReserved a l info f
  · rw [if_pos hres]
    rcases hres with h | h | h <;> simp [h]
  · rw [if_neg hres]
    obtain ⟨hl, hk, hv⟩ : _ ∧ _ ∧ _ := by simpa only [InitReserved, not_or] using hres
    simp only [hv, hk, hl, if_false]
    rfl

theorem initFrames_le {a : Arch} {info : BootInfo} (h : initFrames a info + 7 < 2 ^ a.bits) :
    initFrames a info ≤ 8 * initBitmapSize a info := by
  rw [initBitmapSize, word_of_lt h]
  omega

theorem counted_pmmInit {a : Arch} {info : BootInfo} (l : Loader) (h : initFrames a info + 7 < 2 ^ a.bits) :
    Counted a (pmmInit a l info) := by
  unfold pmmInit
  dsimp only
  refine Counted.reserveRegion (Counted.reserveRegion (Counted.reserveRegion (Counted.unreserveAll _ ?_) _ _) _ _) _ _
  refine ⟨(sets_of_forall (fun i hi => ?_)).symm, word_lt a _⟩
  have := initFrames_le h
  have hlt : i < 8 * initBitmapSize a info := Nat.lt_of_lt_of_le hi this
  simp [hlt]

theorem RegionFrame.lt {a : Arch} {total start length f : Nat} (h : RegionFrame a total start length f) :
    f < 2 ^ a.bits / frameSize ∧ f < total := by
  have hm := mem_regionFrames.1 h.2
  have hw := word_lt a (start + length + frameSizeMask)
  refine ⟨Nat.lt_of_lt_of_le hm.2.1 ?_, hm.2.2⟩
  exact Nat.div_le_div_right (Nat.le_of_lt hw)

end Mm
end AmitX
