import Mathlib.Algebra.Order.Field.Rat
import Mathlib.Algebra.Order.AbsoluteValue.Basic
import Mathlib.Tactic.Linarith
import Mathlib.Tactic.FieldSimp
import Mathlib.Tactic.Ring
/-!
# Bresenham — the steps of a straight line on a grid

A line goes `A` steps along its major axis and `B ≤ A` steps along its minor one.  `Close A B k b` says that `b` steps
along the minor axis, behind `k` along the major one, are at most half a step off the line.  A step along the major axis
keeps this, if a minor one is taken with it where the error asks for it; in the tie either will do.  Behind the last
major step the minor ones are all taken.
-/

namespace Bresenham

variable {A B k b : Int}

def Close (A B k b : Int) : Prop :=
  -A ≤ 2 * (b * A - k * B) ∧ 2 * (b * A - k * B) ≤ A

def error (A B k b : Int) : Int := 2 * ((b + 1) * A - (k + 1) * B)

theorem error_eq : error A B k b = 2 * (b * A - k * B) + 2 * A - 2 * B := by
  unfold error
  ring

theorem close_zero (hA : 0 ≤ A) : Close A B 0 0 := by
  unfold Close
  simp [hA]

theorem Close.lt_error (h : Close A B k b) (hB : B ≤ A) (hA : 0 < A) : -B < error A B k b := by
  obtain ⟨hlow, -⟩ := h
  rw [error_eq]
  rcases hB.lt_or_eq with hlt | rfl
  · linarith
  · -- on a diagonal the error is a multiple of twice the length
    have hodd : B * (2 * (b - k) + 1) ≠ 0 := mul_ne_zero hA.ne' (by omega)
    have hle : 0 ≤ B * (2 * (b - k) + 1) := by linarith
    have := lt_of_le_of_ne hle hodd.symm
    linarith

theorem Close.error_le (h : Close A B k b) (hB : 0 ≤ B) : error A B k b ≤ 3 * A := by
  obtain ⟨-, hhigh⟩ := h
  rw [error_eq]
  linarith

theorem Close.next {minor : Prop} [Decidable minor] (h : Close A B k b) (hB0 : 0 ≤ B) (hB : B ≤ A)
    (hmust : error A B k b < A → minor) (hmay : minor → error A B k b ≤ A) :
    Close A B (k + 1) (if minor then b + 1 else b) := by
  obtain ⟨hlow, hhigh⟩ := h
  rw [error_eq] at hmust hmay
  split
  · next hminor =>
    have hle := hmay hminor
    have he : 2 * ((b + 1) * A - (k + 1) * B) = 2 * (b * A - k * B) + 2 * A - 2 * B := error_eq
    unfold Close
    rw [he]
    constructor <;> linarith
  · next hminor =>
    have hge := not_lt.1 (mt hmust hminor)
    have he : 2 * (b * A - (k + 1) * B) = 2 * (b * A - k * B) - 2 * B := by ring
    unfold Close
    rw [he]
    constructor <;> linarith

/-- The minor steps taken behind `k` major ones, where `minor` is asked with the error. -/
def minors (A B : Int) (minor : Int → Bool) : Nat → Int
  | 0 => 0
  | k + 1 => if minor (error A B k (minors A B minor k)) then minors A B minor k + 1 else minors A B minor k

section Minors

variable {minor : Int → Bool}

theorem minors_succ (k : Nat) : minors A B minor (k + 1) = minors A B minor k + 1 ∨
    minors A B minor (k + 1) = minors A B minor k := by
  rw [minors]
  split
  · exact .inl rfl
  · exact .inr rfl

theorem close_minors (hB0 : 0 ≤ B) (hB : B ≤ A) (hmust : ∀ e, e < A → minor e = true)
    (hmay : ∀ e, minor e = true → e ≤ A) : ∀ k : Nat, Close A B k (minors A B minor k)
  | 0 => close_zero (hB0.trans hB)
  | k + 1 => by
    have ih := close_minors hB0 hB hmust hmay k
    rw [minors, Int.natCast_succ]
    exact ih.next hB0 hB (hmust _) (hmay _)

end Minors

theorem Close.range (h : Close A B k b) (hA : 0 < A) (hB : 0 ≤ B) (hk : 0 ≤ k) (hkA : k ≤ A) : 0 ≤ b ∧ b ≤ B := by
  obtain ⟨hlow, hhigh⟩ := h
  constructor
  · by_contra hneg
    have hb : (b + 1) * A ≤ 0 := mul_nonpos_of_nonpos_of_nonneg (by omega) hA.le
    have hkB : 0 ≤ k * B := mul_nonneg hk hB
    linarith
  · by_contra hlarge
    have hb : (B + 1) * A ≤ b * A := mul_le_mul_of_nonneg_right (by omega) hA.le
    have hkB : k * B ≤ A * B := mul_le_mul_of_nonneg_right hkA hB
    linarith

theorem Close.last (h : Close A B A b) (hA : 0 < A) : b = B := by
  obtain ⟨hlow, hhigh⟩ := h
  have hlow' : 0 ≤ A * (2 * (b - B) + 1) := by linarith
  have hhigh' : 0 ≤ A * (1 - 2 * (b - B)) := by linarith
  have h1 := nonneg_of_mul_nonneg_right hlow' hA
  have h2 := nonneg_of_mul_nonneg_right hhigh' hA
  omega

theorem minors_last {minor : Int → Bool} (hB0 : 0 ≤ B) (hB : B ≤ A) (hmust : ∀ e, e < A → minor e = true)
    (hmay : ∀ e, minor e = true → e ≤ A) {n : Nat} (hn : (n : Int) = A) : minors A B minor n = B := by
  rcases Nat.eq_zero_or_pos n with rfl | hpos
  · -- a line of one point
    rw [minors]
    omega
  · have h := close_minors hB0 hB hmust hmay n
    rw [hn] at h
    exact h.last (by omega)

theorem Close.half (h : Close A B k b) (hA : 0 < A) : |(b : ℚ) - k / A * B| ≤ 1 / 2 := by
  obtain ⟨hlow, hhigh⟩ := h
  have hA' : (0 : ℚ) < A := by exact_mod_cast hA
  have hlow' : -(A : ℚ) ≤ 2 * (b * A - k * B) := by exact_mod_cast hlow
  have hhigh' : 2 * ((b : ℚ) * A - k * B) ≤ A := by exact_mod_cast hhigh
  have he : (b : ℚ) - k / A * B = (b * A - k * B) / A := by field_simp
  rw [he, abs_le, le_div_iff₀ hA', div_le_iff₀ hA']
  constructor <;> linarith

end Bresenham
