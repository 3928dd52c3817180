import AmitX.Lib.Align
import AmitX.Mm.PmmInit
/-!
# PmmAligned — aligned ranges of frames (`pmm_alloc_aligned`)

The search goes from one free frame to the next aligned one and tests the range that begins there; a used frame in it is
where the search goes on.  It misses no range and ends, unless the sum of frame number and count wraps: then the check
against the last frame lets a range through that has no end.
-/
namespace AmitX
namespace Mm

open Bits

/-- A bitmap with a bit for every frame; the first frame is reserved, and so are the frames without an address. -/
structure FrameBitmap (a : Arch) (m : Pmm) : Prop where
  small : m.totalFrames < 2 ^ a.bits
  covers : m.totalFrames ≤ 8 * m.bitmapSize
  first : m.bitmap 0 = true
  high : ∀ f < m.totalFrames, 2 ^ a.bits / frameSize ≤ f → m.bitmap f = true

/-- Free frames in a row, from a multiple of `align` on. -/
structure AlignedRun (m : Pmm) (count align f : Nat) : Prop where
  dvd : align ∣ f
  free : ∀ k < count, f + k < m.totalFrames ∧ m.bitmap (f + k) = false

/-- **Correct, complete and terminating.** -/
structure AlignedExact (a : Arch) (m : Pmm) (count align : Nat) : Prop where
  ends : 1 < align → ∃ n r, Loop.loop (alignedTurn a count align m) n 0 = some r
  valid : (pmmAllocAligned a count align m).1 ≠ physAddrInvalid → ∃ f,
    (pmmAllocAligned a count align m).1 = f * frameSize ∧ AlignedRun m count align f ∧
      ∀ g, (pmmAllocAligned a count align m).2.bitmap g = true ↔ m.bitmap g = true ∨ f ≤ g ∧ g < f + count
  invalid : (pmmAllocAligned a count align m).1 = physAddrInvalid →
    (pmmAllocAligned a count align m).2 = m ∧ ∀ f, ¬AlignedRun m count align f

def SearchExact (m : Pmm) (count align : Nat) : Option Nat → Prop
  | some f => AlignedRun m count align f
  | none => ∀ c, ¬AlignedRun m count align c

/-- From every free frame on, the aligned range passes the last frame number; one that begins behind a used frame passes
it so far that its wrapped end is not behind the last frame, and no bit is set up to the last frame number but one. -/
def Wraps (a : Arch) (m : Pmm) (count align : Nat) : Prop :=
  1 < align ∧ (∀ i < m.totalFrames, m.bitmap i = false → 2 ^ a.bits ≤ Align.roundUp i align + count) ∧
    ∃ i < m.totalFrames, m.bitmap i = false ∧ m.bitmap (i - 1) = true ∧
      Align.roundUp i align + count ≤ 2 ^ a.bits + m.totalFrames ∧
      ∀ f, Align.roundUp i align ≤ f → f + 1 < 2 ^ a.bits → m.bitmap f = false

section

variable {a : Arch} {m : Pmm} {count align i f n k : Nat}

/-! ## The bitmap at boot -/

theorem pmmInit_bitmapSize (a : Arch) (l : Loader) (info : BootInfo) :
    (pmmInit a l info).bitmapSize = initBitmapSize a info := by
  unfold pmmInit
  dsimp only
  rw [(pmmReserveRegion_bitmap a _ _ _).2.2, (pmmReserveRegion_bitmap a _ _ _).2.2,
    (pmmReserveRegion_bitmap a _ _ _).2.2, (unreserveAll_bitmap a _ _).2.2]

theorem initFrames_pos (a : Arch) (info : BootInfo) : 0 < initFrames a info := by
  unfold initFrames initRam
  dsimp only
  generalize (if info.valid then info.totalRam else 16 * mib) = ram
  split
  · cases a <;> decide
  · next hne => exact Nat.pos_of_ne_zero hne

theorem frameBitmap_boot {magicOk : Bool} {l : Loader} (h : bootFrames a magicOk l + 7 < 2 ^ a.bits) :
    FrameBitmap a (bootPmm a magicOk l) := by
  have hinv := (runInv_boot h).inv
  obtain ⟨hb, ht⟩ := pmmInit_bitmap a l (kernelEarlyInit magicOk l.tags).2
  refine ⟨hinv.small, ?_, ?_, hinv.high⟩
  · rw [bootPmm, ht, pmmInit_bitmapSize]
    exact initFrames_le h
  · rw [bootPmm, hb]
    exact if_pos (Or.inl (regionFrame_low.2 ⟨by decide, initFrames_pos a _⟩))

/-! ## Rounding up -/

theorem alignUp_eq (h : i + (2 ^ k - 1) < 2 ^ a.bits) : alignUp a i (2 ^ k) = Align.roundUp i (2 ^ k) := by
  have hsum := Nat.div_add_mod' (i + (2 ^ k - 1)) (2 ^ k)
  unfold alignUp Align.roundUp
  rw [word_of_lt h, Nat.and_two_pow_sub_one_eq_mod]
  omega

theorem FrameBitmap.pos (h : FrameBitmap a m) (hi : m.bitmap i = false) : 0 < i := by
  rcases Nat.eq_zero_or_pos i with rfl | hpos
  · rw [h.first] at hi
    cases hi
  · exact hpos

theorem frames_bits (a : Arch) : 2 ^ a.bits / frameSize = 2 ^ (a.bits - 12) := by cases a <;> decide

theorem FrameBitmap.lt_high (h : FrameBitmap a m) (hi : i < m.totalFrames) (hb : m.bitmap i = false) :
    i < 2 ^ (a.bits - 12) := by
  rw [← frames_bits]
  by_contra hge
  rw [h.high i hi (Nat.le_of_not_lt hge)] at hb
  cases hb

theorem bits_pos (a : Arch) : 32 ≤ a.bits := by cases a <;> decide

theorem FrameBitmap.roundUp_le (h : FrameBitmap a m) (hi : i < m.totalFrames) (hb : m.bitmap i = false) :
    Align.roundUp i (2 ^ k) ≤ 2 ^ max k (a.bits - 12) := by
  have hlt := h.lt_high hi hb
  have hle : 2 ^ (a.bits - 12) ≤ 2 ^ max k (a.bits - 12) := Nat.pow_le_pow_right (by decide) (Nat.le_max_right _ _)
  exact Align.roundUp_le_of_dvd (by omega) (Nat.pow_dvd_pow 2 (Nat.le_max_left _ _))

theorem two_pow_max_lt (a : Arch) (hk : k < 32) : 2 * 2 ^ max k (a.bits - 12) ≤ 2 ^ a.bits := by
  have hb := bits_pos a
  have hle : 2 ^ (max k (a.bits - 12) + 1) ≤ 2 ^ a.bits := Nat.pow_le_pow_right (by decide) (by omega)
  rwa [Nat.pow_succ, Nat.mul_comm] at hle

theorem FrameBitmap.alignUp_eq (h : FrameBitmap a m) (hi : i < m.totalFrames) (hb : m.bitmap i = false) (hk : k < 32) :
    alignUp a i (2 ^ k) = Align.roundUp i (2 ^ k) := by
  refine Mm.alignUp_eq ?_
  have h1 := h.lt_high hi hb
  have h2 : 2 ^ (a.bits - 12) ≤ 2 ^ max k (a.bits - 12) := Nat.pow_le_pow_right (by decide) (Nat.le_max_right _ _)
  have h3 : 2 ^ k ≤ 2 ^ max k (a.bits - 12) := Nat.pow_le_pow_right (by decide) (Nat.le_max_left _ _)
  have h4 := two_pow_max_lt a hk
  omega

/-! ## One turn -/

theorem skipUsed_spec : ∀ {n i : Nat}, i ≤ skipUsed m n i ∧ ∀ f, i ≤ f → f < skipUsed m n i → m.bitmap f = true
  | 0, i => ⟨Nat.le_refl i, fun f h1 h2 => absurd h1 (Nat.not_le.2 h2)⟩
  | n + 1, i => by
    unfold skipUsed
    split
    · next hc =>
      obtain ⟨hle, hset⟩ := skipUsed_spec (n := n) (i := i + 1)
      refine ⟨by omega, fun f h1 h2 => ?_⟩
      rcases Nat.eq_or_lt_of_le h1 with rfl | h1
      · exact hc.2
      · exact hset f h1 h2
    · exact ⟨Nat.le_refl i, fun f h1 h2 => absurd h1 (Nat.not_le.2 h2)⟩

/-- The range of a turn: it is refused, it has a used frame, or it is the answer. -/
def rangeTurn (a : Arch) (count : Nat) (m : Pmm) (aligned : Nat) : Nat ⊕ Option Nat :=
  if m.totalFrames < a.word (aligned + count) then .inr none
  else
    match (List.range count).find? (fun j => bitmapTest m (a.word (aligned + j))) with
    | some j => .inl (a.word (aligned + j + 1))
    | none => .inr (some aligned)

theorem FrameBitmap.turn_cases (h : FrameBitmap a m) (count : Nat) (hk : k < 32) (i : Nat) :
    alignedTurn a count (2 ^ k) m i = .inr none ∧ (∀ f, i ≤ f → f < m.totalFrames → m.bitmap f = true) ∨
    ∃ s, i ≤ s ∧ s < m.totalFrames ∧ m.bitmap s = false ∧ (∀ f, i ≤ f → f < s → m.bitmap f = true) ∧
      alignedTurn a count (2 ^ k) m i = rangeTurn a count m (Align.roundUp s (2 ^ k)) := by
  obtain ⟨hle, hset⟩ := skipUsed_spec (m := m) (n := m.totalFrames - i) (i := i)
  by_cases hs : m.totalFrames ≤ skipUsed m (m.totalFrames - i) i
  · refine Or.inl ⟨?_, fun f h1 h2 => hset f h1 (by omega)⟩
    unfold alignedTurn
    exact if_pos hs
  · have hlt := Nat.lt_of_not_le hs
    have hfree := skipUsed_sound (m := m) (by omega) hlt
    refine Or.inr ⟨_, hle, hlt, hfree, hset, ?_⟩
    have halign := h.alignUp_eq hlt hfree hk
    unfold alignedTurn rangeTurn
    refine (if_neg hs).trans ?_
    dsimp only
    exact halign ▸ rfl

theorem rangeTurn_used (hsum : a.word (i + count) ≤ m.totalFrames) (hf : i ≤ f) (hlt : f < i + count)
    (hfit : f + 1 < 2 ^ a.bits) (hset : m.bitmap f = true) :
    ∃ g, i ≤ g ∧ g ≤ f ∧ m.bitmap g = true ∧ rangeTurn a count m i = .inl (g + 1) := by
  unfold rangeTurn
  rw [if_neg (Nat.not_lt.2 hsum)]
  cases hfind : (List.range count).find? (fun j => bitmapTest m (a.word (i + j))) with
  | none =>
    have h0 := List.find?_range_eq_none.1 hfind (f - i) (by omega)
    rw [Nat.add_sub_cancel' hf, word_of_lt (by omega), bitmapTest, hset] at h0
    cases h0
  | some j =>
    obtain ⟨hj, -, hmin⟩ := List.find?_range_eq_some.1 hfind
    have hle : j ≤ f - i := by
      by_contra hgt
      have h0 := hmin (f - i) (by omega)
      rw [Nat.add_sub_cancel' hf, word_of_lt (by omega), bitmapTest, hset] at h0
      cases h0
    rw [word_of_lt (by omega)] at hj
    refine ⟨i + j, by omega, by omega, hj, ?_⟩
    change Sum.inl (a.word (i + j + 1)) = _
    rw [word_of_lt (by omega)]

theorem rangeTurn_free (hsum : a.word (i + count) ≤ m.totalFrames) (hfit : i + count ≤ 2 ^ a.bits)
    (hfree : ∀ j < count, m.bitmap (i + j) = false) : rangeTurn a count m i = .inr (some i) := by
  unfold rangeTurn
  rw [if_neg (Nat.not_lt.2 hsum), List.find?_range_eq_none.2]
  intro j hj
  rw [word_of_lt (by omega), bitmapTest, hfree j hj]
  rfl

/-! ## The search, where no sum wraps -/

/-- A sum that wraps: from every free frame on, or the count is one of a range. -/
def Passed (a : Arch) (m : Pmm) (count align i : Nat) : Prop :=
  i = 0 ∨ count ≤ m.totalFrames ∨ ∀ s < m.totalFrames, m.bitmap s = false → 2 ^ a.bits ≤ Align.roundUp s align + count

/-- Where the search is: no range begins before `i`, and the frame before `i` is used. -/
structure Searched (a : Arch) (m : Pmm) (count align i : Nat) : Prop where
  runs : ∀ c, AlignedRun m count align c → i ≤ c
  used : i ≠ 0 → m.bitmap (i - 1) = true
  passed : Passed a m count align i

theorem AlignedRun.le (hr : AlignedRun m count align f) (h : 0 < count) : f + count ≤ m.totalFrames := by
  have := (hr.free (count - 1) (by omega)).1
  omega

theorem AlignedRun.roundUp_le {c s : Nat} (hr : AlignedRun m count align c) (h : 0 < count) (hi : i ≤ c)
    (hset : ∀ f, i ≤ f → f < s → m.bitmap f = true) : Align.roundUp s align ≤ c := by
  refine Align.roundUp_le_of_dvd ?_ hr.dvd
  by_contra hlt
  have h1 := hset c hi (by omega)
  have h2 := (hr.free 0 h).2
  rw [Nat.add_zero, h1] at h2
  cases h2

theorem FrameBitmap.used_before (h : FrameBitmap a m) {s : Nat} (hi : i ≤ s) (hs : m.bitmap s = false)
    (hset : ∀ f, i ≤ f → f < s → m.bitmap f = true) (hused : i ≠ 0 → m.bitmap (i - 1) = true) :
    m.bitmap (s - 1) = true := by
  rcases Nat.eq_or_lt_of_le hi with rfl | hlt
  · exact hused (Nat.ne_of_gt (h.pos hs))
  · exact hset (s - 1) (by omega) (by omega)

theorem roundUp_first_le {s t : Nat} (hset : ∀ f, 0 ≤ f → f < s → m.bitmap f = true) (ht : m.bitmap t = false) :
    Align.roundUp s (2 ^ k) ≤ Align.roundUp t (2 ^ k) := by
  have hst : s ≤ t := by
    by_contra hlt
    have := hset t (Nat.zero_le t) (by omega)
    rw [ht] at this
    cases this
  exact Align.roundUp_le_of_dvd (Nat.le_trans hst (Align.le_roundUp (Nat.two_pow_pos k))) (Align.dvd_roundUp t (2 ^ k))

theorem FrameBitmap.used_of_wrap (h : FrameBitmap a m) (hk : k < 32) (hlarge : 1 < 2 ^ k) (hnot : ¬Wraps a m count (2 ^ k)) {s : Nat}
    (hi : i ≤ s) (hs : s < m.totalFrames) (hfree : m.bitmap s = false) (hset : ∀ f, i ≤ f → f < s → m.bitmap f = true)
    (hsearch : Searched a m count (2 ^ k) i) (hcount : count < 2 ^ 32) (hwrap : 2 ^ a.bits ≤ Align.roundUp s (2 ^ k) + count)
    (hsum : a.word (Align.roundUp s (2 ^ k) + count) ≤ m.totalFrames) :
    ∃ f, Align.roundUp s (2 ^ k) ≤ f ∧ f + 1 < 2 ^ a.bits ∧ m.bitmap f = true := by
  have hround := h.roundUp_le (k := k) hs hfree
  have hmax := two_pow_max_lt a hk
  have hb32 := two_pow_bits a
  by_contra hnone
  have hclear : ∀ f, Align.roundUp s (2 ^ k) ≤ f → f + 1 < 2 ^ a.bits → m.bitmap f = false := fun f h1 h2 =>
    Bool.eq_false_iff.2 (fun hb => hnone ⟨f, h1, h2, hb⟩)
  have hend : Align.roundUp s (2 ^ k) + count ≤ 2 ^ a.bits + m.totalFrames := by
    have hword : a.word (Align.roundUp s (2 ^ k) + count) = Align.roundUp s (2 ^ k) + count - 2 ^ a.bits := by
      unfold Arch.word
      rw [Nat.mod_eq_sub_mod hwrap, Nat.mod_eq_of_lt (by omega)]
    omega
  -- so there is a free frame whose sum does not wrap
  refine hnot ⟨hlarge, fun t ht hbt => ?_, s, hs, hfree, h.used_before hi hfree hset hsearch.used, hend, hclear⟩
  rcases hsearch.passed with rfl | hle | hall
  · -- `s` is the first free frame
    have := roundUp_first_le (k := k) hset hbt
    omega
  · -- the frames without an address would be free
    have hpos := h.pos hfree
    have hlow := Align.le_roundUp (x := s) (Nat.two_pow_pos k)
    have htot : m.totalFrames ≤ 2 ^ (a.bits - 12) ∨ m.totalFrames ≤ Align.roundUp s (2 ^ k) := by
      by_contra hcon
      push Not at hcon
      have h1 := h.high (max (2 ^ (a.bits - 12)) (Align.roundUp s (2 ^ k))) (by omega) (by rw [frames_bits]; omega)
      have h2 := hclear (max (2 ^ (a.bits - 12)) (Align.roundUp s (2 ^ k))) (by omega) (by have := h.small; omega)
      rw [h1] at h2
      cases h2
    have hpow : 2 ^ (a.bits - 12) + 2 ^ max k (a.bits - 12) < 2 ^ a.bits := by
      have hlt : 2 ^ (a.bits - 12) < 2 ^ (a.bits - 1) := Nat.pow_lt_pow_right (by decide) (by have := bits_pos a; omega)
      have hle : 2 ^ max k (a.bits - 12) ≤ 2 ^ (a.bits - 1) := Nat.pow_le_pow_right (by decide) (by have := bits_pos a; omega)
      have heq : 2 ^ (a.bits - 1) * 2 = 2 ^ a.bits := by
        rw [← Nat.pow_succ, Nat.succ_eq_add_one, Nat.sub_add_cancel (by have := bits_pos a; omega)]
      omega
    have hbig : 2 ^ (a.bits - 12) < m.totalFrames := by omega
    have htot := htot.resolve_left (by omega)
    have hklt : a.bits - 12 < k := by
      by_contra hge
      rw [Nat.max_eq_right (by omega)] at hround
      omega
    have hone : ∀ u < m.totalFrames, m.bitmap u = false → Align.roundUp u (2 ^ k) = 2 ^ k := fun u hu hbu => by
      have h1 := h.roundUp_le (k := k) hu hbu
      rw [Nat.max_eq_left (by omega)] at h1
      have h2 := h.pos hbu
      have h3 := Align.le_roundUp (x := u) (Nat.two_pow_pos k)
      obtain ⟨q, hq⟩ := Align.dvd_roundUp u (2 ^ k)
      rcases Nat.eq_zero_or_pos q with rfl | hqpos
      · omega
      · have := Nat.le_mul_of_pos_right (2 ^ k) hqpos
        omega
    rw [hone t ht hbt, ← hone s hs hfree]
    exact hwrap
  · exact hall t ht hbt

/-- **What a turn does**: it goes on, it ends where no range is, or it answers with a range. -/
inductive TurnOk (a : Arch) (m : Pmm) (count align i : Nat) : Nat ⊕ Option Nat → Prop
  | next (i' : Nat) (hlt : i < i') (hle : i < m.totalFrames) (h : Searched a m count align i') :
      TurnOk a m count align i (.inl i')
  | none (h : ∀ c, ¬AlignedRun m count align c) : TurnOk a m count align i (.inr none)
  | found (f : Nat) (h : AlignedRun m count align f) : TurnOk a m count align i (.inr (some f))

theorem FrameBitmap.range_ok (h : FrameBitmap a m) (hcount : 0 < count) {s : Nat} (hi : i ≤ s)
    (hs : s < m.totalFrames) (hset : ∀ f, i ≤ f → f < s → m.bitmap f = true)
    (hsearch : Searched a m count (2 ^ k) i) (hfit : Align.roundUp s (2 ^ k) + count < 2 ^ a.bits) :
    TurnOk a m count (2 ^ k) i (rangeTurn a count m (Align.roundUp s (2 ^ k))) := by
  have hlow := Align.le_roundUp (x := s) (Nat.two_pow_pos k)
  have hrun : ∀ c, AlignedRun m count (2 ^ k) c → Align.roundUp s (2 ^ k) ≤ c := fun c hc =>
    hc.roundUp_le hcount (hsearch.runs c hc) hset
  by_cases hsum : a.word (Align.roundUp s (2 ^ k) + count) ≤ m.totalFrames
  · have hle : Align.roundUp s (2 ^ k) + count ≤ m.totalFrames := by rwa [word_of_lt hfit] at hsum
    have hsmall := h.small
    by_cases hused : ∃ f, Align.roundUp s (2 ^ k) ≤ f ∧ f < Align.roundUp s (2 ^ k) + count ∧ m.bitmap f = true
    · obtain ⟨f, h1, h2, h3⟩ := hused
      obtain ⟨g, hg1, hg2, hg3, hturn⟩ := rangeTurn_used (a := a) hsum h1 h2 (by omega) h3
      rw [hturn]
      refine .next _ (by omega) (by omega) ⟨fun c hc => ?_, fun _ => hg3, Or.inr (Or.inl (by omega))⟩
      -- a range that begins at `g` or before contains `g`
      by_contra hlt
      have h1 := hrun c hc
      have h2 := (hc.free (g - c) (by omega)).2
      rw [Nat.add_sub_cancel' (by omega), hg3] at h2
      cases h2
    · have hclear : ∀ j < count, m.bitmap (Align.roundUp s (2 ^ k) + j) = false := fun j hj =>
        Bool.eq_false_iff.2 (fun hb => hused ⟨_, Nat.le_add_right _ _, by omega, hb⟩)
      rw [rangeTurn_free hsum (Nat.le_of_lt hfit) hclear]
      exact .found _ ⟨Align.dvd_roundUp _ _, fun j hj => ⟨by omega, hclear j hj⟩⟩
  · have hturn : rangeTurn a count m (Align.roundUp s (2 ^ k)) = .inr none := if_pos (Nat.lt_of_not_le hsum)
    rw [hturn]
    refine .none (fun c hc => ?_)
    have h1 := hrun c hc
    have h2 := hc.le hcount
    rw [word_of_lt hfit] at hsum
    omega

theorem FrameBitmap.wrap_ok (h : FrameBitmap a m) (hk : k < 32) (hlarge : 1 < 2 ^ k) (hcount : 0 < count)
    (hc32 : count < 2 ^ 32) (hnot : ¬Wraps a m count (2 ^ k)) {s : Nat} (hi : i ≤ s) (hs : s < m.totalFrames)
    (hfree : m.bitmap s = false) (hset : ∀ f, i ≤ f → f < s → m.bitmap f = true)
    (hsearch : Searched a m count (2 ^ k) i) (hwrap : 2 ^ a.bits ≤ Align.roundUp s (2 ^ k) + count) :
    TurnOk a m count (2 ^ k) i (rangeTurn a count m (Align.roundUp s (2 ^ k))) := by
  have hlow := Align.le_roundUp (x := s) (Nat.two_pow_pos k)
  have hno : ∀ c, ¬AlignedRun m count (2 ^ k) c := fun c hc => by
    have h1 := hc.roundUp_le hcount (hsearch.runs c hc) hset
    have h2 := hc.le hcount
    have h3 := h.small
    omega
  by_cases hsum : a.word (Align.roundUp s (2 ^ k) + count) ≤ m.totalFrames
  · obtain ⟨f, h1, h2, h3⟩ := h.used_of_wrap hk hlarge hnot hi hs hfree hset hsearch hc32 hwrap hsum
    obtain ⟨g, hg1, hg2, hg3, hturn⟩ := rangeTurn_used hsum h1 (by omega) h2 h3
    rw [hturn]
    refine .next _ (by omega) (by omega) ⟨fun c hc => absurd hc (hno c), fun _ => hg3, ?_⟩
    rcases hsearch.passed with rfl | hle | hall
    · -- `s` is the first free frame, and its sum wraps
      refine Or.inr (Or.inr (fun t ht hbt => ?_))
      have := roundUp_first_le (k := k) hset hbt
      omega
    · exact Or.inr (Or.inl hle)
    · exact Or.inr (Or.inr hall)
  · have hturn : rangeTurn a count m (Align.roundUp s (2 ^ k)) = .inr none := if_pos (Nat.lt_of_not_le hsum)
    rw [hturn]
    exact .none hno

theorem Searched.turn (h : FrameBitmap a m) (hk : k < 32) (hlarge : 1 < 2 ^ k) (hcount : 0 < count)
    (hc32 : count < 2 ^ 32) (hnot : ¬Wraps a m count (2 ^ k)) (hsearch : Searched a m count (2 ^ k) i) :
    TurnOk a m count (2 ^ k) i (alignedTurn a count (2 ^ k) m i) := by
  rcases h.turn_cases count hk i with ⟨hturn, hset⟩ | ⟨s, hi, hs, hfree, hset, hturn⟩
  · rw [hturn]
    refine .none (fun c hc => ?_)
    have h1 := hc.free 0 hcount
    rw [Nat.add_zero, hset c (hsearch.runs c hc) h1.1] at h1
    cases h1.2
  · rw [hturn]
    rcases Nat.lt_or_ge (Align.roundUp s (2 ^ k) + count) (2 ^ a.bits) with hfit | hwrap
    · exact h.range_ok hcount hi hs hset hsearch hfit
    · exact h.wrap_ok hk hlarge hcount hc32 hnot hi hs hfree hset hsearch hwrap

theorem searched_zero : Searched a m count align 0 :=
  ⟨fun c _ => Nat.zero_le c, fun h => absurd rfl h, Or.inl rfl⟩

theorem findAligned_exact (h : FrameBitmap a m) (hk : k < 32) (hlarge : 1 < 2 ^ k) (hcount : 0 < count)
    (hc32 : count < 2 ^ 32) (hnot : ¬Wraps a m count (2 ^ k)) :
    ∃ r, Loop.loop (alignedTurn a count (2 ^ k) m) (m.totalFrames + 1) 0 = some r ∧ SearchExact m count (2 ^ k) r := by
  obtain ⟨r, hr⟩ := @Loop.loop_total _ _ (alignedTurn a count (2 ^ k) m) (Searched a m count (2 ^ k))
    (fun i => m.totalFrames - i) (fun i i' hi hturn => by
      have hok := hi.turn h hk hlarge hcount hc32 hnot
      rw [hturn] at hok
      cases hok with
      | next _ hlt hle hnext => exact ⟨hnext, by omega⟩)
    (m.totalFrames + 1) 0 searched_zero (Nat.lt_succ_of_le (Nat.sub_le m.totalFrames 0))
  refine ⟨r, hr, ?_⟩
  refine @Loop.loop_post _ _ (alignedTurn a count (2 ^ k) m) (Searched a m count (2 ^ k)) (SearchExact m count (2 ^ k))
    ?_ ?_ _ _ _ searched_zero hr
  · intro i i' hi hturn
    have hok := hi.turn h hk hlarge hcount hc32 hnot
    rw [hturn] at hok
    cases hok with
    | next _ hlt hle hnext => exact hnext
  · intro i r hi hturn
    have hok := hi.turn h hk hlarge hcount hc32 hnot
    rw [hturn] at hok
    cases hok with
    | none hno => exact hno
    | found f hrun => exact hrun

/-! ## The search, where a sum wraps -/

structure Trap (a : Arch) (m : Pmm) (count align i : Nat) : Prop where
  lt : i < m.totalFrames
  free : m.bitmap i = false
  used : m.bitmap (i - 1) = true
  wraps : ∀ s < m.totalFrames, m.bitmap s = false → 2 ^ a.bits ≤ Align.roundUp s align + count
  fits : Align.roundUp i align + count ≤ 2 ^ a.bits + m.totalFrames
  clear : ∀ f, Align.roundUp i align ≤ f → f + 1 < 2 ^ a.bits → m.bitmap f = false

theorem Wraps.trap (h : Wraps a m count align) : ∃ i, Trap a m count align i := by
  obtain ⟨-, hwraps, i, h1, h2, h3, h4, h5⟩ := h
  exact ⟨i, h1, h2, h3, hwraps, h4, h5⟩

/-- A range that ends with the last frame number, which is that of no frame. -/
structure Runaway (a : Arch) (m : Pmm) (count f : Nat) : Prop where
  sum : f + count = 2 ^ a.bits
  last : m.bitmap (2 ^ a.bits - 1) = false

theorem Trap.turn (h : FrameBitmap a m) (hk : k < 32) (hcount : 0 < count) {t : Nat} (ht : Trap a m count (2 ^ k) t)
    (hi : i ≤ t) :
    (∃ i' ≤ t, alignedTurn a count (2 ^ k) m i = .inl i' ∧
      (Runaway a m count (Align.roundUp t (2 ^ k)) → i < i')) ∨
    Runaway a m count (Align.roundUp t (2 ^ k)) ∧
      alignedTurn a count (2 ^ k) m i = .inr (some (Align.roundUp t (2 ^ k))) := by
  have hsmall := h.small
  rcases h.turn_cases count hk i with ⟨-, hset⟩ | ⟨s, his, hs, hfree, hset, hturn⟩
  · have := hset t hi ht.lt
    rw [ht.free] at this
    cases this
  have hst : s ≤ t := by
    by_contra hlt
    have := hset t hi (by omega)
    rw [ht.free] at this
    cases this
  have hle : Align.roundUp s (2 ^ k) ≤ Align.roundUp t (2 ^ k) := Align.roundUp_le_of_dvd
    (Nat.le_trans hst (Align.le_roundUp (Nat.two_pow_pos k))) (Align.dvd_roundUp t (2 ^ k))
  have hwrap := ht.wraps s hs hfree
  have hfits := ht.fits
  have htlow := Align.le_roundUp (x := t) (Nat.two_pow_pos k)
  have hslow := Align.le_roundUp (x := s) (Nat.two_pow_pos k)
  have hthalf := h.roundUp_le (k := k) ht.lt ht.free
  have hmax := two_pow_max_lt a hk
  have hpos := h.pos ht.free
  rw [hturn]
  rcases Nat.eq_or_lt_of_le hle with heq | hlt
  · -- the range of the trap: nothing is used up to the last frame number
    rw [heq] at hwrap ⊢
    have hword : a.word (Align.roundUp t (2 ^ k) + count) = Align.roundUp t (2 ^ k) + count - 2 ^ a.bits := by
      unfold Arch.word
      rw [Nat.mod_eq_sub_mod hwrap, Nat.mod_eq_of_lt (by omega)]
    have hsum : ¬m.totalFrames < a.word (Align.roundUp t (2 ^ k) + count) := by omega
    unfold rangeTurn
    rw [if_neg hsum]
    cases hfind : (List.range count).find? (fun j => bitmapTest m (a.word (Align.roundUp t (2 ^ k) + j))) with
    | none =>
      have hall := List.find?_range_eq_none.1 hfind
      have hsum : Align.roundUp t (2 ^ k) + count = 2 ^ a.bits := by
        by_contra hne
        have h0 := hall (2 ^ a.bits - Align.roundUp t (2 ^ k)) (by omega)
        rw [Nat.add_sub_cancel' (by omega), Arch.word, Nat.mod_self, bitmapTest, h.first] at h0
        cases h0
      refine Or.inr ⟨⟨hsum, ?_⟩, rfl⟩
      have h0 := hall (count - 1) (by omega)
      rw [word_of_lt (by omega), show Align.roundUp t (2 ^ k) + (count - 1) = 2 ^ a.bits - 1 by omega, bitmapTest] at h0
      simpa using h0
    | some j =>
      obtain ⟨hj, hmem, -⟩ := List.find?_range_eq_some.1 hfind
      have hjlt := List.mem_range.1 hmem
      -- the used frame is the last frame number or the first frame
      have hback : a.word (Align.roundUp t (2 ^ k) + j + 1) ≤ 1 ∧
          ¬Runaway a m count (Align.roundUp t (2 ^ k)) := by
        rcases Nat.lt_trichotomy (Align.roundUp t (2 ^ k) + j + 1) (2 ^ a.bits) with h1 | h1 | h1
        · rw [word_of_lt (by omega), bitmapTest, ht.clear _ (Nat.le_add_right _ _) h1] at hj
          cases hj
        · refine ⟨by rw [h1, Arch.word, Nat.mod_self]; omega, fun hr => ?_⟩
          have := hr.last
          rw [word_of_lt (by omega), show Align.roundUp t (2 ^ k) + j = 2 ^ a.bits - 1 by omega, bitmapTest, this] at hj
          cases hj
        · have hj0 : Align.roundUp t (2 ^ k) + j = 2 ^ a.bits := by
            by_contra hne
            have hmin := (List.find?_range_eq_some.1 hfind).2.2 (2 ^ a.bits - Align.roundUp t (2 ^ k)) (by omega)
            rw [Nat.add_sub_cancel' (by omega), Arch.word, Nat.mod_self, bitmapTest, h.first] at hmin
            cases hmin
          refine ⟨?_, fun hr => ?_⟩
          · rw [hj0, Arch.word, Nat.add_mod_left]
            exact Nat.mod_le _ _
          · have := hr.sum
            omega
      exact Or.inl ⟨_, by omega, rfl, fun hr => absurd hr hback.2⟩
  · -- the range of a frame before the trap contains the used frame before it
    have hprev : Align.roundUp s (2 ^ k) ≤ t - 1 := by
      by_contra hgt
      have := Align.roundUp_le_of_dvd (show t ≤ Align.roundUp s (2 ^ k) by omega) (Align.dvd_roundUp s (2 ^ k))
      omega
    have hsum : a.word (Align.roundUp s (2 ^ k) + count) ≤ m.totalFrames := by
      unfold Arch.word
      rw [Nat.mod_eq_sub_mod hwrap, Nat.mod_eq_of_lt (by omega)]
      omega
    obtain ⟨g, hg1, hg2, hg3, hr⟩ := rangeTurn_used hsum hprev (by omega) (by have := ht.lt; omega) ht.used
    exact Or.inl ⟨g + 1, by omega, hr, fun _ => by omega⟩

theorem Trap.loop (h : FrameBitmap a m) (hk : k < 32) (hcount : 0 < count) {t : Nat} (ht : Trap a m count (2 ^ k) t)
    {r : Option Nat} (hr : Loop.loop (alignedTurn a count (2 ^ k) m) n 0 = some r) :
    r = some (Align.roundUp t (2 ^ k)) ∧ Runaway a m count (Align.roundUp t (2 ^ k)) := by
  refine Loop.loop_post (I := fun i => i ≤ t) (Q := fun r => r = some (Align.roundUp t (2 ^ k)) ∧
    Runaway a m count (Align.roundUp t (2 ^ k))) ?_ ?_ (Nat.zero_le t) hr
  · intro i i' hi hturn
    rcases ht.turn h hk hcount hi with ⟨j, hj, hturn', -⟩ | ⟨-, hturn'⟩
    · rw [hturn] at hturn'
      cases hturn'
      exact hj
    · rw [hturn] at hturn'
      cases hturn'
  · intro i r hi hturn
    rcases ht.turn h hk hcount hi with ⟨j, hj, hturn', -⟩ | ⟨hrun, hturn'⟩
    · rw [hturn] at hturn'
      cases hturn'
    · rw [hturn] at hturn'
      cases hturn'
      exact ⟨rfl, hrun⟩

theorem Trap.findAligned (h : FrameBitmap a m) (hk : k < 32) (hcount : 0 < count) {t : Nat}
    (ht : Trap a m count (2 ^ k) t) (hrun : Runaway a m count (Align.roundUp t (2 ^ k))) :
    findAligned a count (2 ^ k) m = some (Align.roundUp t (2 ^ k)) := by
  obtain ⟨r, hr⟩ := @Loop.loop_total _ _ (alignedTurn a count (2 ^ k) m) (fun i => i ≤ t)
    (fun i => m.totalFrames - i) (fun i i' hi hturn => by
      have hlt := ht.lt
      rcases ht.turn h hk hcount hi with ⟨j, hj, hturn', hup⟩ | ⟨-, hturn'⟩
      · rw [hturn] at hturn'
        cases hturn'
        have := hup hrun
        exact ⟨hj, by omega⟩
      · rw [hturn] at hturn'
        cases hturn') (m.totalFrames + 1) 0 (Nat.zero_le t) (Nat.lt_succ_of_le (Nat.sub_le m.totalFrames 0))
  unfold Mm.findAligned
  rw [hr, (ht.loop h hk hcount hr).1]
  rfl

/-! ## The search without alignment -/

theorem findSome?_range_none {α : Type} {g : Nat → Option α} (h : (List.range n).findSome? g = none) (hi : i < n) :
    g i = none :=
  List.findSome?_eq_none_iff.1 h i (List.mem_range.2 hi)

theorem findSome?_range_some {α : Type} {g : Nat → Option α} {b : α} : ∀ {n : Nat},
    (List.range n).findSome? g = some b → ∃ i < n, g i = some b ∧ ∀ j < i, g j = none
  | 0, h => by cases h
  | n + 1, h => by
    rw [List.range_succ, List.findSome?_append] at h
    cases hn : (List.range n).findSome? g with
    | some c =>
      rw [hn] at h
      cases h
      obtain ⟨i, hi, hg, hbefore⟩ := findSome?_range_some hn
      exact ⟨i, by omega, hg, hbefore⟩
    | none =>
      rw [hn] at h
      refine ⟨n, by omega, ?_, fun j hj => findSome?_range_none hn hj⟩
      simpa using h

theorem scanByte_free (hf : f < m.totalFrames) (hb : m.bitmap f = false) : ∃ g, scanByte m (f / 8) = some (some g) := by
  have hdm := Nat.div_add_mod f 8
  have hmod := Nat.mod_lt f (by decide : 0 < 8)
  have hnot : byteFull m (f / 8) = false := by
    rw [byteFull, List.all_eq_false]
    exact ⟨f % 8, List.mem_range.2 hmod, by rw [hdm, bitmapTest, hb]; decide⟩
  unfold scanByte
  rw [if_neg (by rw [hnot]; decide)]
  cases hs : (List.range 8).findSome? (fun j => if m.totalFrames ≤ 8 * (f / 8) + j then some none
      else if bitmapTest m (8 * (f / 8) + j) then none else some (some (8 * (f / 8) + j))) with
  | none =>
    have h0 := findSome?_range_none hs hmod
    rw [hdm, if_neg (Nat.not_le.2 hf), if_neg (by rw [bitmapTest, hb]; decide)] at h0
    cases h0
  | some r =>
    cases r with
    | some g => exact ⟨g, rfl⟩
    | none =>
      -- the last frame is not in the byte before `f`
      obtain ⟨j, -, hj, hbefore⟩ := findSome?_range_some hs
      have hle : m.totalFrames ≤ 8 * (f / 8) + j := by
        by_contra hgt
        rw [if_neg hgt] at hj
        split at hj <;> cases hj
      have h0 := hbefore (f % 8) (by omega)
      rw [hdm, if_neg (Nat.not_le.2 hf), if_neg (by rw [bitmapTest, hb]; decide)] at h0
      cases h0

theorem scanByte_last (h : scanByte m i = some none) : m.totalFrames < 8 * (i + 1) := by
  unfold scanByte at h
  split at h
  · cases h
  · obtain ⟨j, hj, hs, -⟩ := findSome?_range_some h
    by_contra hgt
    rw [if_neg (by omega)] at hs
    split at hs <;> cases hs

theorem findFirstFree_complete (h : m.totalFrames ≤ 8 * m.bitmapSize) (hf : f < m.totalFrames)
    (hb : m.bitmap f = false) : ∃ g, findFirstFree m = some g := by
  obtain ⟨g, hg⟩ := scanByte_free hf hb
  have hbyte : f / 8 < m.bitmapSize := by omega
  unfold findFirstFree
  cases hs : (List.range m.bitmapSize).findSome? (scanByte m) with
  | none =>
    rw [findSome?_range_none hs hbyte] at hg
    cases hg
  | some r =>
    cases r with
    | some g' => exact ⟨g', rfl⟩
    | none =>
      obtain ⟨i, -, hi, hbefore⟩ := findSome?_range_some hs
      have hlast := scanByte_last hi
      rcases Nat.lt_trichotomy (f / 8) i with hlt | heq | hgt
      · rw [hbefore _ hlt] at hg
        cases hg
      · rw [heq, hi] at hg
        cases hg
      · omega

theorem findFirstFreeN_complete (h : m.totalFrames ≤ 8 * m.bitmapSize) (hcount : 0 < count)
    (hrun : ∀ j < count, f + j < m.totalFrames ∧ m.bitmap (f + j) = false) : ∃ g, findFirstFreeN count m = some g := by
  unfold findFirstFreeN
  rw [if_neg (by omega)]
  split
  · exact findFirstFree_complete h (hrun 0 hcount).1 (hrun 0 hcount).2
  · rw [scanRun_eq]
    have hend := (hrun (count - 1) (by omega)).1
    exact firstRun_complete (fun j hj => (hrun j hj).2) (by omega) hcount (fun h => absurd rfl h) (fun h => by omega)

/-! ## The allocation -/

theorem pmmAllocAligned_one (a : Arch) (hcount : 0 < count) (m : Pmm) :
    pmmAllocAligned a count 1 m = pmmAllocFrames a count m := by
  unfold pmmAllocAligned
  rw [if_neg (by omega), if_neg (by decide), if_pos rfl]

theorem pmmAllocAligned_pow (a : Arch) (hcount : 0 < count) (hlarge : 1 < 2 ^ k) (m : Pmm) :
    pmmAllocAligned a count (2 ^ k) m =
      match findAligned a count (2 ^ k) m with
      | none => (physAddrInvalid, m)
      | some aligned => (frameAddr a aligned, (frameRange a aligned count).foldl (takeFrame a) m) := by
  unfold pmmAllocAligned
  rw [if_neg (by omega), if_neg (by rw [Nat.and_two_pow_sub_one_eq_mod, Nat.mod_self]; exact not_not.2 rfl)]
  exact if_neg (by omega)

theorem takeFrames_bitmap (hle : f + count ≤ 2 ^ a.bits) (g : Nat) :
    ((frameRange a f count).foldl (takeFrame a) m).bitmap g = true ↔
      m.bitmap g = true ∨ f ≤ g ∧ g < f + count := by
  rw [frameRange_eq hle, (foldl_fill (takeFrame_bitmap a) _ m).1, fill]
  by_cases hg : f ≤ g ∧ g < f + count
  · rw [if_pos (mem_range'_iff.2 hg)]
    exact iff_of_true rfl (Or.inr hg)
  · rw [if_neg (fun hm => hg (mem_range'_iff.1 hm))]
    exact ⟨Or.inl, fun ho => ho.resolve_right hg⟩

theorem FrameBitmap.answer (h : FrameBitmap a m) (hcount : 0 < count) {o : Option Nat}
    (hr : pmmAllocAligned a count align m =
      match o with
      | none => (physAddrInvalid, m)
      | some f => (frameAddr a f, (frameRange a f count).foldl (takeFrame a) m))
    (ho : SearchExact m count align o)
    (hends : 1 < align → ∃ n r, Loop.loop (alignedTurn a count align m) n 0 = some r) :
    AlignedExact a m count align := by
  cases o with
  | none =>
    refine ⟨hends, fun hne => ?_, fun _ => ?_⟩
    · rw [hr] at hne
      exact absurd rfl hne
    · rw [hr]
      exact ⟨rfl, ho⟩
  | some f =>
    have ho : AlignedRun m count align f := ho
    have hle := ho.le hcount
    have hsmall := h.small
    have hfree := ho.free 0 hcount
    rw [Nat.add_zero] at hfree
    have hpos := h.pos hfree.2
    have hlow := h.lt_high hfree.1 hfree.2
    have haddr : frameAddr a f = f * frameSize := by
      refine word_of_lt ?_
      have hmul : 2 ^ (a.bits - 12) * frameSize = 2 ^ a.bits := by cases a <;> decide
      calc f * frameSize < 2 ^ (a.bits - 12) * frameSize := (Nat.mul_lt_mul_right (by decide)).2 hlow
        _ = 2 ^ a.bits := hmul
    refine ⟨hends, fun _ => ⟨f, ?_, ho, fun g => ?_⟩, fun hinv => ?_⟩
    · rw [hr]
      exact haddr
    · rw [hr]
      exact takeFrames_bitmap (by omega) g
    · rw [hr] at hinv
      change frameAddr a f = 0 at hinv
      rw [haddr] at hinv
      have : 0 < f * frameSize := Nat.mul_pos hpos (by decide)
      omega

theorem Trap.not_exact (h : FrameBitmap a m) (hk : k < 32) (hlarge : 1 < 2 ^ k) (hcount : 0 < count) {t : Nat}
    (ht : Trap a m count (2 ^ k) t) : ¬AlignedExact a m count (2 ^ k) := by
  intro hexact
  obtain ⟨n, r, hr⟩ := hexact.ends hlarge
  have hrun := (ht.loop h hk hcount hr).2
  have hpos := Nat.two_pow_pos a.bits
  have hsum := hrun.sum
  have hres := pmmAllocAligned_pow a hcount hlarge m
  rw [ht.findAligned h hk hcount hrun] at hres
  -- the bit of the last frame number has been set
  have hset : (pmmAllocAligned a count (2 ^ k) m).2.bitmap (2 ^ a.bits - 1) = true := by
    rw [hres]
    exact (takeFrames_bitmap (Nat.le_of_eq hsum) _).2 (Or.inr (by omega))
  by_cases hinv : (pmmAllocAligned a count (2 ^ k) m).1 = physAddrInvalid
  · rw [(hexact.invalid hinv).1, hrun.last] at hset
    cases hset
  · obtain ⟨f, -, hf, hbits⟩ := hexact.valid hinv
    rcases (hbits _).1 hset with hb | hb
    · rw [hrun.last] at hb
      cases hb
    · have := hf.le hcount
      have := h.small
      omega

/-- **An aligned allocation** is correct, complete and terminating if and only if no sum of frame number and count wraps
to a range that nothing ends. -/
theorem aligned_exact_iff (a : Arch) (m : Pmm) (h : FrameBitmap a m) (count k : Nat) (hcount : 0 < count)
    (hc32 : count < 2 ^ 32) (hk : k < 32) : AlignedExact a m count (2 ^ k) ↔ ¬Wraps a m count (2 ^ k) := by
  rcases Nat.eq_zero_or_pos k with rfl | hpos
  · refine iff_of_true ?_ (fun hw => absurd hw.1 (by decide))
    refine h.answer hcount (o := findFirstFreeN count m) ?_ ?_ (fun hone => absurd hone (by decide))
    · rw [show (2 : Nat) ^ 0 = 1 from rfl, pmmAllocAligned_one a hcount]
      unfold pmmAllocFrames
      cases findFirstFreeN count m <;> rfl
    · cases hfind : findFirstFreeN count m with
      | none =>
        intro c hc
        obtain ⟨g, hg⟩ := findFirstFreeN_complete h.covers hcount hc.free
        rw [hfind] at hg
        cases hg
      | some f => exact ⟨Nat.one_dvd f, (findFirstFreeN_sound hfind).2⟩
  · have hlarge : 1 < 2 ^ k := Nat.one_lt_two_pow (by omega)
    constructor
    · intro hexact hw
      obtain ⟨t, ht⟩ := hw.trap
      exact ht.not_exact h hk hlarge hcount hexact
    · intro hnot
      obtain ⟨r, hr, hspec⟩ := findAligned_exact h hk hlarge hcount hc32 hnot
      refine h.answer hcount (o := r) ?_ hspec (fun _ => ⟨_, r, hr⟩)
      rw [pmmAllocAligned_pow a hcount hlarge]
      unfold findAligned
      rw [hr]
      cases r <;> rfl

/-- 16 MiB of memory, of which the first frame is used; the memory behind the bitmap is zero. -/
def emptyFrames : Pmm := ⟨fun f => f == 0, 4096, 1, 512⟩

theorem frameBitmap_emptyFrames : FrameBitmap .x86 emptyFrames := by
  refine ⟨by decide, by decide, rfl, fun f hf hhigh => ?_⟩
  have hf : f < 4096 := hf
  have hhigh : 2 ^ 32 / 4096 ≤ f := hhigh
  omega

/-- Three frames from a multiple of four on. -/
theorem aligned_exact_emptyFrames : AlignedExact .x86 emptyFrames 3 (2 ^ 2) := by
  refine (aligned_exact_iff .x86 emptyFrames frameBitmap_emptyFrames 3 2 (by decide) (by decide) (by decide)).2 ?_
  rintro ⟨-, hwraps, -⟩
  exact absurd (hwraps 1 (by decide) rfl) (by decide)

/-- **The search for 2^32 - 1 frames never ends**: 2 + (2^32 - 1) is 1, which is not behind the last frame, and the test
goes through all frame numbers to the first frame and begins again. -/
theorem not_aligned_exact : ¬∀ (a : Arch) (m : Pmm), FrameBitmap a m → ∀ count k : Nat, 0 < count → count < 2 ^ 32 →
    k < 32 → AlignedExact a m count (2 ^ k) := by
  intro hall
  have htrap : Trap .x86 emptyFrames 0xFFFFFFFF (2 ^ 1) 1 := by
    refine ⟨by decide, rfl, rfl, fun s _ hs => ?_, by decide, fun f hf _ => ?_⟩
    · have h1 := frameBitmap_emptyFrames.pos hs
      have h2 := Align.le_roundUp (x := s) (Nat.two_pow_pos 1)
      change 2 ^ 32 ≤ _
      omega
    · have hf : 2 ≤ f := hf
      exact beq_eq_false_iff_ne.2 (by omega)
  obtain ⟨n, r, hr⟩ := (hall .x86 emptyFrames frameBitmap_emptyFrames 0xFFFFFFFF 1 (by decide) (by decide)
    (by decide)).ends (by decide)
  have hsum := (htrap.loop frameBitmap_emptyFrames (by decide) (by decide) hr).2.sum
  exact absurd hsum (by decide)

theorem not_wraps_x64 (h : FrameBitmap .x64 m) (hc32 : count < 2 ^ 32) (hk : k < 32) : ¬Wraps .x64 m count (2 ^ k) := by
  rintro ⟨-, hwraps, i, hi, hb, -⟩
  have h1 := hwraps i hi hb
  have h2 := h.roundUp_le (k := k) hi hb
  have h3 : max k (Arch.bits .x64 - 12) = 52 := by
    change max k 52 = 52
    omega
  rw [h3] at h2
  change 2 ^ 64 ≤ _ at h1
  omega

end

end Mm
end AmitX
