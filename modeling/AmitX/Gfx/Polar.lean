import AmitX.Gfx.FxMath
import AmitX.Lib.CInt
import Mathlib.Algebra.Order.Ring.Abs
/-!
# Polar — the sine by CORDIC and the polar end points (`math.c`)

The rotation starts from `CORDIC_K_INV`, which is the gain of its sixteen turns in 16.16 and not one over it.  The turns
make it longer by the gain once more, so that the sine and the cosine are those of a circle of radius 2.7.
-/
namespace AmitX
namespace Gfx

open CInt

def cordicIterations : Nat := 16

def cordicKInv : Int := 107829

def cordicAtanTable : List Int :=
  [0x2000, 0x12E4, 0x09FB, 0x0511, 0x028B, 0x0145, 0x00A2, 0x0051, 0x0028, 0x0014, 0x000A, 0x0005, 0x0002, 0x0001,
    0x0001, 0x0000]

structure Cordic where
  xi : Int
  yi : Int
  zi : Int

def cordicTurn (s : Cordic) (i : Nat) : Cordic :=
  let xShift := s.xi >>> i
  let yShift := s.yi >>> i
  if s.zi < 0 then ⟨s.xi + yShift, s.yi - xShift, s.zi + cordicAtanTable.getD i 0⟩
  else ⟨s.xi - yShift, s.yi + xShift, s.zi - cordicAtanTable.getD i 0⟩

def cordicStart (angle : Int) : Cordic := ⟨cordicKInv, 0, angle⟩

def cordicRotate (angle : Int) : Cordic := (List.range cordicIterations).foldl cordicTurn (cordicStart angle)

/-- The angle that `fx_sin_b` rotates by, and the sign it gives the result. -/
def cordicAngle (angle : Int) : Int × Int :=
  let angle := angle % 0x10000
  if angle < 0x4000 then (angle, 1)
  else if angle < 0x8000 then (0x8000 - angle, 1)
  else if angle < 0xC000 then (angle - 0x8000, -1)
  else (0x10000 - angle, -1)

def fxSinB (angle : Int) : Int := (cordicAngle angle).2 * (cordicRotate (cordicAngle angle).1).yi

def fxCosB (angle : Int) : Int := fxSinB (angle + 0x4000)

def angleToBradians (tenthsOfDegrees : Int) : Int := (tenthsOfDegrees * 4096).tdiv 225

def vec2iPolarBradians (cx cy radius angle : Int) : Int × Int :=
  let angleBradians := angleToBradians angle
  let s := fxSinB angleBradians
  let c := fxCosB angleBradians
  (cx + fxToIntRnd (fxMul c (fxFromInt radius)), cy - fxToIntRnd (fxMul s (fxFromInt radius)))

/-! ## Close to the circle -/

/-- What `fx_sin_b` computes fits into 32 bits. -/
structure SinFits (angle : Int) : Prop where
  turns : ∀ n ≤ cordicIterations, ∀ s, s = (List.range n).foldl cordicTurn (cordicStart (cordicAngle angle).1) →
    Fits s.xi ∧ Fits s.yi ∧ Fits s.zi
  result : Fits (fxSinB angle)

/-- What becomes of a sine and the radius fits into 32 bits, as the coordinate behind it does. -/
structure ScaleFits (radius v : Int) : Prop where
  shift : Fits (radius * 2 ^ 16)
  product : Fits (v * fxFromInt radius / 2 ^ 16)
  round : Fits (fxMul v (fxFromInt radius) + 2 ^ 16 / 2)

/-- No value of 32 bits overflows on the way to the end point. -/
structure PolarFits (cx cy radius angle : Int) : Prop where
  tenths : Fits (angle * 4096)
  quarter : Fits (angleToBradians angle + 0x4000)
  sin : SinFits (angleToBradians angle)
  cos : SinFits (angleToBradians angle + 0x4000)
  scaleCos : ScaleFits radius (fxCosB (angleToBradians angle))
  scaleSin : ScaleFits radius (fxSinB (angleToBradians angle))
  x : Fits (vec2iPolarBradians cx cy radius angle).1
  y : Fits (vec2iPolarBradians cx cy radius angle).2

def PolarOnCircle (cx cy radius angle : Int) : Prop :=
  PolarFits cx cy radius angle ∧
    (2 ≤ radius →
      (radius - 2) ^ 2 ≤ ((vec2iPolarBradians cx cy radius angle).1 - cx) ^ 2 +
        ((vec2iPolarBradians cx cy radius angle).2 - cy) ^ 2 ∧
      ((vec2iPolarBradians cx cy radius angle).1 - cx) ^ 2 + ((vec2iPolarBradians cx cy radius angle).2 - cy) ^ 2 ≤
        (radius + 2) ^ 2)

/-! ## The turns -/

section Turns

variable {s : Cordic} {i n : Nat}

def cordicTurns (angle : Int) (n : Nat) : Cordic := (List.range n).foldl cordicTurn (cordicStart angle)

theorem cordicTurns_succ (angle : Int) (n : Nat) : cordicTurns angle (n + 1) = cordicTurn (cordicTurns angle n) n := by
  rw [cordicTurns, List.range_succ, List.foldl_append]
  rfl

theorem cordicTurns_all (angle : Int) : cordicTurns angle cordicIterations = cordicRotate angle := rfl

theorem abs_shift_le {v b : Int} (h : |v| ≤ b) : |v >>> i| ≤ b / 2 ^ i + 1 := by
  have hpow : (0 : Int) < 2 ^ i := Int.pow_pos (by decide)
  obtain ⟨hlow, hhigh⟩ := abs_le.1 h
  rw [Int.shiftRight_eq_div_pow, Nat.cast_pow, Nat.cast_ofNat, abs_le]
  constructor
  · rw [Int.le_ediv_iff_mul_le hpow]
    have := Int.lt_ediv_add_one_mul_self b hpow
    linarith
  · have := Int.ediv_le_ediv hpow hhigh
    omega

structure Cordic.Bounded (s : Cordic) (b z : Int) : Prop where
  xi_le : |s.xi| ≤ b
  yi_le : |s.yi| ≤ b
  zi_le : |s.zi| ≤ z

theorem atan_mem (i : Nat) : 0 ≤ cordicAtanTable.getD i 0 ∧ cordicAtanTable.getD i 0 ≤ 0x2000 := by
  rcases Nat.lt_or_ge i 16 with hi | hi
  · revert i
    decide
  · rw [List.getD_eq_getElem?_getD, List.getElem?_eq_none hi]
    decide

theorem abs_add_le_of {v w b c : Int} (hv : |v| ≤ b) (hw : |w| ≤ c) : |v + w| ≤ b + c ∧ |v - w| ≤ b + c := by
  rw [abs_le] at *
  rw [abs_le]
  omega

theorem Cordic.Bounded.turn {b z : Int} (h : s.Bounded b z) :
    (cordicTurn s i).Bounded (b + (b / 2 ^ i + 1)) (z + 0x2000) := by
  have hatan : |cordicAtanTable.getD i 0| ≤ 0x2000 := by
    obtain ⟨h0, hle⟩ := atan_mem i
    exact abs_le.2 ⟨by omega, hle⟩
  have hx := abs_add_le_of h.xi_le (abs_shift_le (i := i) h.yi_le)
  have hy := abs_add_le_of h.yi_le (abs_shift_le (i := i) h.xi_le)
  have hz := abs_add_le_of h.zi_le hatan
  unfold cordicTurn
  dsimp only
  split
  · exact ⟨hx.1, hy.2, hz.1⟩
  · exact ⟨hx.2, hy.1, hz.2⟩

/-- **A bound** that the coordinates keep: a turn adds what is left of the other one. -/
def cordicBound : Nat → Int
  | 0 => cordicKInv
  | n + 1 => cordicBound n + (cordicBound n / 2 ^ n + 1)

theorem turns_bounded {angle : Int} (h0 : 0 ≤ angle) (h : angle ≤ 0x4000) :
    ∀ n : Nat, (cordicTurns angle n).Bounded (cordicBound n) (0x4000 + n * 0x2000)
  | 0 => by
    refine ⟨show |cordicKInv| ≤ cordicKInv by decide, show |(0 : Int)| ≤ cordicKInv by decide, ?_⟩
    show |angle| ≤ _
    rw [abs_of_nonneg h0]
    omega
  | n + 1 => by
    have ih := turns_bounded h0 h n
    rw [cordicTurns_succ, Int.natCast_succ, add_mul, one_mul, ← add_assoc]
    exact ih.turn

theorem cordicBound_le : ∀ n ≤ cordicIterations, cordicBound n ≤ 2 ^ 20 := by decide

/-! ## The sine from below -/

theorem abs_shift_le_pow {v : Int} (hi : i ≤ 18) (h : |v| ≤ 2 ^ 18) : |v >>> i| ≤ 2 ^ (18 - i) := by
  have hpow : (0 : Int) < 2 ^ i := Int.pow_pos (by decide)
  have hmul : (2 : Int) ^ (18 - i) * 2 ^ i = 2 ^ 18 := by rw [← pow_add, Nat.sub_add_cancel hi]
  obtain ⟨hlow, hhigh⟩ := abs_le.1 h
  rw [Int.shiftRight_eq_div_pow, Nat.cast_pow, Nat.cast_ofNat, abs_le]
  constructor
  · rw [Int.le_ediv_iff_mul_le hpow, neg_mul, hmul]
    exact hlow
  · have := Int.ediv_le_ediv hpow hhigh
    rw [← hmul, Int.mul_ediv_cancel _ hpow.ne'] at this
    exact this

theorem le_foldl_turn : ∀ (n i : Nat) (s : Cordic), i + n ≤ 16 → |s.xi| ≤ 2 ^ 18 - 2 ^ (19 - i) →
    |s.yi| ≤ 2 ^ 18 - 2 ^ (19 - i) → s.yi - 2 ^ (19 - i) ≤ ((List.range' i n).foldl cordicTurn s).yi
  | 0, i, s, _, _, _ => by
    have : (0 : Int) < 2 ^ (19 - i) := Int.pow_pos (by decide)
    rw [List.range'_zero, List.foldl_nil]
    omega
  | n + 1, i, s, hi, hx, hy => by
    have hpow : (2 : Int) ^ (19 - i) = 2 * 2 ^ (18 - i) := by
      rw [← pow_succ']
      congr 1
      omega
    have hpos : (0 : Int) < 2 ^ (18 - i) := Int.pow_pos (by decide)
    have hnext : 19 - (i + 1) = 18 - i := by omega
    rw [hpow] at hx hy ⊢
    have hxs := abs_shift_le_pow (i := i) (by omega) (show |s.xi| ≤ 2 ^ 18 by omega)
    have hys := abs_shift_le_pow (i := i) (by omega) (show |s.yi| ≤ 2 ^ 18 by omega)
    have hx' := abs_add_le_of hx hys
    have hy' := abs_add_le_of hy hxs
    have hturn : |(cordicTurn s i).xi| ≤ 2 ^ 18 - 2 ^ (18 - i) ∧ |(cordicTurn s i).yi| ≤ 2 ^ 18 - 2 ^ (18 - i) ∧
        s.yi - 2 ^ (18 - i) ≤ (cordicTurn s i).yi := by
      have hstep := abs_le.1 hxs
      unfold cordicTurn
      dsimp only
      split
      · refine ⟨?_, ?_, ?_⟩ <;> dsimp only <;> omega
      · refine ⟨?_, ?_, ?_⟩ <;> dsimp only <;> omega
    have ih := le_foldl_turn n (i + 1) (cordicTurn s i) (by omega) (by rw [hnext]; exact hturn.1)
      (by rw [hnext]; exact hturn.2.1)
    rw [hnext] at ih
    rw [List.range'_succ, List.foldl_cons]
    omega

/-- The sine is at least `low` for all angles left between `lo` and `hi`: the next `k` turns are taken for both signs,
and the rest is bounded. -/
def checkLow (low : Int) : Nat → Nat → Int → Int → Int → Int → Bool
  | 0, i, x, y, _, _ =>
    decide (-(2 ^ 18 - 2 ^ (19 - i)) ≤ x ∧ x ≤ 2 ^ 18 - 2 ^ (19 - i) ∧ -(2 ^ 18 - 2 ^ (19 - i)) ≤ y ∧
      y ≤ 2 ^ 18 - 2 ^ (19 - i) ∧ low ≤ y - 2 ^ (19 - i))
  | k + 1, i, x, y, lo, hi =>
    (decide (0 ≤ lo) || checkLow low k (i + 1) (x + y >>> i) (y - x >>> i) (lo + cordicAtanTable.getD i 0)
      (min hi (-1) + cordicAtanTable.getD i 0)) &&
    (decide (hi < 0) || checkLow low k (i + 1) (x - y >>> i) (y + x >>> i) (max lo 0 - cordicAtanTable.getD i 0)
      (hi - cordicAtanTable.getD i 0))

theorem le_of_checkLow {low : Int} : ∀ (k i : Nat) (s : Cordic) (lo hi : Int), i + k ≤ 16 →
    checkLow low k i s.xi s.yi lo hi = true → lo ≤ s.zi → s.zi ≤ hi →
    low ≤ ((List.range' i (16 - i)).foldl cordicTurn s).yi
  | 0, i, s, lo, hi, hi16, hcheck, _, _ => by
    obtain ⟨hx0, hx1, hy0, hy1, hlow⟩ := of_decide_eq_true hcheck
    exact hlow.trans (le_foldl_turn (16 - i) i s (by omega) (abs_le.2 ⟨hx0, hx1⟩) (abs_le.2 ⟨hy0, hy1⟩))
  | k + 1, i, s, lo, hi, hi16, hcheck, hlo, hhi => by
    rw [checkLow, Bool.and_eq_true, Bool.or_eq_true, Bool.or_eq_true, decide_eq_true_iff, decide_eq_true_iff] at hcheck
    obtain ⟨hneg, hpos⟩ := hcheck
    rw [show 16 - i = 16 - (i + 1) + 1 by omega, List.range'_succ, List.foldl_cons]
    by_cases hz : s.zi < 0
    · have hturn : cordicTurn s i = ⟨s.xi + s.yi >>> i, s.yi - s.xi >>> i, s.zi + cordicAtanTable.getD i 0⟩ := if_pos hz
      rw [hturn]
      exact le_of_checkLow k (i + 1) _ _ _ (by omega) (hneg.resolve_left (by omega)) (by dsimp only; omega)
        (by dsimp only; omega)
    · have hturn : cordicTurn s i = ⟨s.xi - s.yi >>> i, s.yi + s.xi >>> i, s.zi - cordicAtanTable.getD i 0⟩ := if_neg hz
      rw [hturn]
      exact le_of_checkLow k (i + 1) _ _ _ (by omega) (hpos.resolve_left (by omega)) (by dsimp only; omega)
        (by dsimp only; omega)

theorem le_rotate {low a : Int} (lo hi : Int) (hcheck : checkLow low 7 0 cordicKInv 0 lo hi = true) (hlo : lo ≤ a)
    (hhi : a ≤ hi) : low ≤ (cordicRotate a).yi := by
  have h := le_of_checkLow 7 0 (cordicStart a) lo hi (by decide) hcheck hlo hhi
  rw [cordicRotate, List.range_eq_range']
  exact h

def Wide (c s : Int) : Prop := 152640 ≤ c ∨ (137870 ≤ c ∧ 79339 ≤ s) ∨ (119567 ≤ c ∧ 102552 ≤ s)

theorem wide_rotate {a : Int} (h0 : 0 ≤ a) (h : a ≤ 0x2000) :
    Wide (cordicRotate (0x4000 - a)).yi (cordicRotate a).yi := by
  rcases le_or_gt a 5120 with h1 | h1
  · exact .inl (le_rotate 11264 16384 (by decide) (by omega) (by omega))
  · rcases le_or_gt a 6655 with h2 | h2
    · exact .inr (.inl ⟨le_rotate 9728 11264 (by decide) (by omega) (by omega),
        le_rotate 5120 6655 (by decide) (by omega) (by omega)⟩)
    · exact .inr (.inr ⟨le_rotate 8192 9728 (by decide) (by omega) (by omega),
        le_rotate 6656 8192 (by decide) (by omega) (by omega)⟩)

theorem wide_or_wide {a : Int} (h0 : 0 ≤ a) (h : a ≤ 0x4000) :
    Wide (cordicRotate (0x4000 - a)).yi (cordicRotate a).yi ∨
      Wide (cordicRotate a).yi (cordicRotate (0x4000 - a)).yi := by
  rcases le_or_gt a 0x2000 with hle | hgt
  · exact .inl (wide_rotate h0 hle)
  · have h' := wide_rotate (a := 0x4000 - a) (by omega) (by omega)
    rw [sub_sub_cancel] at h'
    exact .inr h'

end Turns

/-! ## The quadrants -/

section Polar

variable {cx cy radius angle c s v : Int}

theorem cordicAngle_mem (angle : Int) : (0 ≤ (cordicAngle angle).1 ∧ (cordicAngle angle).1 ≤ 0x4000) ∧
    ((cordicAngle angle).2 = 1 ∨ (cordicAngle angle).2 = -1) := by
  unfold cordicAngle
  dsimp only
  split_ifs <;> refine ⟨⟨?_, ?_⟩, ?_⟩ <;> dsimp only <;> omega

theorem cordicAngle_quarter (angle : Int) : (cordicAngle (angle + 0x4000)).1 = 0x4000 - (cordicAngle angle).1 := by
  unfold cordicAngle
  dsimp only
  split_ifs <;> dsimp only <;> omega

theorem abs_fxSinB (angle : Int) : |fxSinB angle| = |(cordicRotate (cordicAngle angle).1).yi| := by
  rcases (cordicAngle_mem angle).2 with h | h
  · rw [fxSinB, h, one_mul]
  · rw [fxSinB, h, neg_one_mul, abs_neg]

theorem abs_fxSinB_le (angle : Int) : |fxSinB angle| ≤ 2 ^ 20 := by
  obtain ⟨h0, h⟩ := (cordicAngle_mem angle).1
  have hb := turns_bounded h0 h cordicIterations
  rw [cordicTurns_all] at hb
  rw [abs_fxSinB]
  exact hb.yi_le.trans (cordicBound_le cordicIterations le_rfl)

theorem sinFits (angle : Int) : SinFits angle := by
  obtain ⟨h0, h⟩ := (cordicAngle_mem angle).1
  have hsin := abs_le.1 (abs_fxSinB_le angle)
  refine ⟨fun n hn s hs => ?_, ⟨by omega, by omega⟩⟩
  obtain rfl : s = cordicTurns (cordicAngle angle).1 n := hs
  obtain ⟨hx, hy, hz⟩ := turns_bounded h0 h n
  have hbound := cordicBound_le n hn
  unfold cordicIterations at hn
  rw [abs_le] at hx hy hz
  exact ⟨⟨by omega, by omega⟩, ⟨by omega, by omega⟩, ⟨by omega, by omega⟩⟩

/-! ## The length of the end point -/

theorem fxT_eq (h : Fits v) : fxT v = v := by
  obtain ⟨hlow, hhigh⟩ := h
  exact Int.bmod_eq_of_le (by omega) (by omega)

theorem fxFromInt_of_fits (h : Fits (radius * 2 ^ 16)) : fxFromInt radius = radius * 2 ^ 16 := fxT_eq h

theorem mul_shift_div (v radius : Int) : v * (radius * 2 ^ 16) / 2 ^ 16 = v * radius := by
  rw [← mul_assoc]
  exact Int.mul_ediv_cancel _ (by decide)

theorem ScaleFits.toIntRnd_eq (h : ScaleFits radius v) :
    fxToIntRnd (fxMul v (fxFromInt radius)) = (v * radius + 2 ^ 15) / 2 ^ 16 := by
  have hproduct := h.product
  rw [fxFromInt_of_fits h.shift, mul_shift_div] at hproduct
  rw [fxToIntRnd, fxMul, fxFromInt_of_fits h.shift, mul_shift_div, fxT_eq hproduct]
  rfl

theorem le_abs_round (hr : 0 ≤ radius) : |v| * radius - 2 ^ 15 ≤ |(v * radius + 2 ^ 15) / 2 ^ 16| * 2 ^ 16 := by
  have habs : |v| * radius = |v * radius| := by rw [abs_mul, abs_of_nonneg hr]
  rw [habs]
  generalize v * radius = w
  rcases abs_cases w with hw | hw <;> rcases abs_cases ((w + 2 ^ 15) / 2 ^ 16) with hq | hq <;> omega

theorem lt_sq_add_sq {x y r : Int} (p q m n : Int) (hr : 0 < r) (hm : 0 ≤ m)
    (hdir : m * r ≤ n * (p * x + q * y)) (hlen : n * n * (p * p + q * q) < m * m) : r ^ 2 < x ^ 2 + y ^ 2 := by
  by_contra hle
  have hcauchy : (p * x + q * y) ^ 2 ≤ (p * p + q * q) * (x ^ 2 + y ^ 2) := by
    have := sq_nonneg (p * y - q * x)
    linarith
  have hsq : (m * r) ^ 2 ≤ (n * (p * x + q * y)) ^ 2 := pow_le_pow_left₀ (mul_nonneg hm hr.le) hdir 2
  have hgrow : (p * p + q * q) * (x ^ 2 + y ^ 2) ≤ (p * p + q * q) * r ^ 2 :=
    mul_le_mul_of_nonneg_left (not_lt.1 hle) (add_nonneg (mul_self_nonneg p) (mul_self_nonneg q))
  have hlast : n * n * (p * p + q * q) * r ^ 2 < m * m * r ^ 2 := mul_lt_mul_of_pos_right hlen (pow_pos hr 2)
  have hn : n * n * (p * x + q * y) ^ 2 ≤ n * n * ((p * p + q * q) * r ^ 2) :=
    mul_le_mul_of_nonneg_left (hcauchy.trans hgrow) (mul_self_nonneg n)
  linarith

theorem far_of_wide (hr : 2 ≤ radius) (h : Wide |c| |s|) :
    (radius + 2) ^ 2 < ((c * radius + 2 ^ 15) / 2 ^ 16) ^ 2 + ((s * radius + 2 ^ 15) / 2 ^ 16) ^ 2 := by
  have hc := le_abs_round (v := c) (show 0 ≤ radius by omega)
  have hs := le_abs_round (v := s) (show 0 ≤ radius by omega)
  rw [← sq_abs ((c * radius + 2 ^ 15) / 2 ^ 16), ← sq_abs ((s * radius + 2 ^ 15) / 2 ^ 16)]
  generalize |(c * radius + 2 ^ 15) / 2 ^ 16| = x at *
  generalize |(s * radius + 2 ^ 15) / 2 ^ 16| = y at *
  rcases h with h | ⟨h1, h2⟩ | ⟨h1, h2⟩
  · have := mul_le_mul_of_nonneg_right h (show 0 ≤ radius by omega)
    exact lt_sq_add_sq 1 0 101 100 (by omega) (by decide) (by omega) (by decide)
  · have := mul_le_mul_of_nonneg_right h1 (show 0 ≤ radius by omega)
    have := mul_le_mul_of_nonneg_right h2 (show 0 ≤ radius by omega)
    exact lt_sq_add_sq 7 4 81 10 (by omega) (by decide) (by omega) (by decide)
  · have := mul_le_mul_of_nonneg_right h1 (show 0 ≤ radius by omega)
    have := mul_le_mul_of_nonneg_right h2 (show 0 ≤ radius by omega)
    exact lt_sq_add_sq 7 6 37 4 (by omega) (by decide) (by omega) (by decide)

theorem Wide.abs (h : Wide c s) : Wide |c| |s| := by
  have hc := le_abs_self c
  have hs := le_abs_self s
  unfold Wide at *
  omega

theorem wide_polar (angle : Int) : Wide |fxCosB angle| |fxSinB angle| ∨ Wide |fxSinB angle| |fxCosB angle| := by
  obtain ⟨h0, h⟩ := (cordicAngle_mem angle).1
  rw [fxCosB, abs_fxSinB, abs_fxSinB, cordicAngle_quarter]
  exact (wide_or_wide h0 h).imp Wide.abs Wide.abs

theorem PolarFits.far (h : PolarFits cx cy radius angle) (hr : 2 ≤ radius) :
    (radius + 2) ^ 2 < ((vec2iPolarBradians cx cy radius angle).1 - cx) ^ 2 +
      ((vec2iPolarBradians cx cy radius angle).2 - cy) ^ 2 := by
  have hx : (vec2iPolarBradians cx cy radius angle).1 - cx =
      (fxCosB (angleToBradians angle) * radius + 2 ^ 15) / 2 ^ 16 := by
    rw [vec2iPolarBradians, h.scaleCos.toIntRnd_eq, add_sub_cancel_left]
  have hy : (vec2iPolarBradians cx cy radius angle).2 - cy =
      -((fxSinB (angleToBradians angle) * radius + 2 ^ 15) / 2 ^ 16) := by
    rw [vec2iPolarBradians, h.scaleSin.toIntRnd_eq, sub_sub_cancel_left]
  rw [hx, hy, neg_sq]
  rcases wide_polar (angleToBradians angle) with hwide | hwide
  · exact far_of_wide hr hwide
  · have := far_of_wide hr hwide
    linarith

theorem not_polarOnCircle_of_le (hr : 2 ≤ radius) : ¬PolarOnCircle cx cy radius angle := by
  rintro ⟨hfits, hcircle⟩
  have := (hcircle hr).2
  have := hfits.far hr
  linarith

/-! ## The smallest radii -/

theorem scaleFits_of_lt (hr0 : 0 ≤ radius) (hr : radius < 2) (hv : |v| ≤ 2 ^ 20) : ScaleFits radius v ∧
    |fxToIntRnd (fxMul v (fxFromInt radius))| ≤ 2 ^ 20 := by
  have hv' := abs_le.1 hv
  have hshift : Fits (radius * 2 ^ 16) := ⟨by omega, by omega⟩
  have hmul : -2 ^ 20 ≤ v * radius ∧ v * radius ≤ 2 ^ 20 := by
    obtain rfl | rfl : radius = 0 ∨ radius = 1 := by omega
    · rw [mul_zero]
      decide
    · rw [mul_one]
      exact hv'
  have hproduct : Fits (v * radius) := ⟨by omega, by omega⟩
  have hfits : ScaleFits radius v := by
    refine ⟨hshift, ?_, ?_⟩
    · rw [fxFromInt_of_fits hshift, mul_shift_div]
      exact hproduct
    · rw [fxMul, fxFromInt_of_fits hshift, mul_shift_div, fxT_eq hproduct]
      exact ⟨by omega, by omega⟩
  refine ⟨hfits, ?_⟩
  rw [hfits.toIntRnd_eq, abs_le]
  omega

theorem polarFits_of_lt (hcx : |cx| < 2 ^ 20) (hcy : |cy| < 2 ^ 20) (hr0 : 0 ≤ radius) (hr : radius < 2)
    (ha0 : 0 ≤ angle) (ha : angle ≤ 0xFFFF) : PolarFits cx cy radius angle := by
  have hbradians : angleToBradians angle = angle * 4096 / 225 := Int.tdiv_eq_ediv_of_nonneg (by omega)
  obtain ⟨hcos, hx⟩ := scaleFits_of_lt hr0 hr (abs_fxSinB_le (angleToBradians angle + 0x4000))
  obtain ⟨hsin, hy⟩ := scaleFits_of_lt hr0 hr (abs_fxSinB_le (angleToBradians angle))
  rw [abs_le] at hx hy
  rw [abs_lt] at hcx hcy
  exact
    { tenths := ⟨by omega, by omega⟩
      quarter := by rw [hbradians]; exact ⟨by omega, by omega⟩
      sin := sinFits _
      cos := sinFits _
      scaleCos := hcos
      scaleSin := hsin
      x := by
        show Fits (cx + fxToIntRnd (fxMul (fxSinB (angleToBradians angle + 0x4000)) (fxFromInt radius)))
        exact ⟨by omega, by omega⟩
      y := by
        show Fits (cy - fxToIntRnd (fxMul (fxSinB (angleToBradians angle)) (fxFromInt radius)))
        exact ⟨by omega, by omega⟩ }

/-- **The end points are on the circle** for the radii of which nothing is asked but that they fit. -/
theorem polarOnCircle_iff (cx cy radius angle : Int) (hcx : |cx| < 2 ^ 20) (hcy : |cy| < 2 ^ 20) (hr0 : 0 ≤ radius)
    (ha0 : 0 ≤ angle) (ha : angle ≤ 0xFFFF) :
    PolarOnCircle cx cy radius angle ↔ radius < 2 := by
  constructor
  · intro h
    by_contra hge
    exact not_polarOnCircle_of_le (not_lt.1 hge) h
  · intro hlt
    exact ⟨polarFits_of_lt hcx hcy hr0 hlt ha0 ha, fun hge => absurd hlt (not_lt.2 hge)⟩

theorem polarOnCircle_hundred_iff : (|(320 : Int)| < 2 ^ 20 ∧ |(240 : Int)| < 2 ^ 20 ∧ (0 : Int) ≤ 100 ∧
    (0 : Int) ≤ 450 ∧ (450 : Int) ≤ 0xFFFF) ∧ (PolarOnCircle 320 240 100 450 ↔ (100 : Int) < 2) :=
  ⟨by decide, polarOnCircle_iff 320 240 100 450 (by decide) (by decide) (by decide) (by decide) (by decide)⟩

/-- A radius of a hundred gives a point at a distance of 271. -/
theorem not_polarOnCircle : ¬∀ cx cy radius angle : Int, |cx| < 2 ^ 20 → |cy| < 2 ^ 20 → 0 ≤ radius → radius ≤ 16384 →
    0 ≤ angle → angle ≤ 0xFFFF → PolarOnCircle cx cy radius angle := by
  intro h
  exact not_polarOnCircle_of_le (by decide)
    (h 0 0 100 0 (by decide) (by decide) (by decide) (by decide) (by decide) (by decide))

end Polar

end Gfx
end AmitX
