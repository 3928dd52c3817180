import Mathlib.Data.Nat.Sqrt
import Mathlib.Tactic.Linarith
import Mathlib.Tactic.Ring
/-!
# FxMath — the fixed-point basics and the integer square root (`math.c`)

`fx_t` has sixteen bits behind the point.  A value that does not fit is cut to its low 32 bits, in the shift of
`fx_from_int` as in the conversion of `fx_mul`.  `fx_sqrt` finds the root bit by bit; its loop is read by the number of
turns left.
-/
namespace AmitX
namespace Gfx

/-- A value of `fx_t`: the low 32 bits, with their sign. -/
def fxT (x : Int) : Int := x.bmod (2 ^ 32)

def fxFromInt (i : Int) : Int := fxT (i * 2 ^ 16)

def fxToInt (f : Int) : Int := f / 2 ^ 16

def fxToIntRnd (f : Int) : Int := (f + 2 ^ 16 / 2) / 2 ^ 16

def fxMul (a b : Int) : Int := fxT (a * b / 2 ^ 16)

/-- `while (bit > v) bit >>= 2`, on the number of turns of the next loop: `bit` is `4 ^ (n - 1)`, and none is zero. -/
def sqrtTop (v : Nat) : Nat → Nat
  | 0 => 0
  | n + 1 => if 4 ^ n > v then sqrtTop v n else n + 1

/-- `while (bit != 0)`, with `n` turns left. -/
def sqrtLoop : Nat → Nat → Nat → Nat
  | 0, _, res => res
  | n + 1, v, res =>
    let bit := 4 ^ n
    if v ≥ res + bit then sqrtLoop n (v - (res + bit)) (res / 2 + bit) else sqrtLoop n v (res / 2)

def fxSqrt (x : Int) : Int :=
  if x ≤ 0 then 0
  else
    let v := x.toNat
    ((sqrtLoop (sqrtTop v 16) v 0 * 2 ^ 8 : Nat) : Int)

/-! ## The root -/

theorem lt_sqrtTop {v : Nat} : ∀ {n : Nat}, v < 4 ^ n → v < 4 ^ sqrtTop v n
  | 0, h => h
  | n + 1, h => by
    rw [sqrtTop]
    split
    · next hlt => exact lt_sqrtTop hlt
    · exact h

/-- **The loop** has found the bits of the root above the ones that are left: `v` is what remains behind the square of
`p`, and `res` is `p` at the place of the next bit. -/
theorem sqrtLoop_eq {x : Nat} : ∀ (n p : Nat), p * p ≤ x → x < (p + 2 ^ n) * (p + 2 ^ n) →
    sqrtLoop n (x - p * p) (p * 2 ^ n) = Nat.sqrt x
  | 0, p, hle, hlt => by
    rw [sqrtLoop, pow_zero, mul_one]
    exact Nat.eq_sqrt.2 ⟨hle, hlt⟩
  | n + 1, p, hle, hlt => by
    have hbit : 4 ^ n = 2 ^ n * 2 ^ n := by rw [← Nat.mul_pow]
    have hsq : (p + 2 ^ n) * (p + 2 ^ n) = p * p + (p * 2 ^ (n + 1) + 4 ^ n) := by
      rw [hbit]
      ring
    have hhalf : p * 2 ^ (n + 1) / 2 = p * 2 ^ n := by
      rw [pow_succ, ← mul_assoc, Nat.mul_div_cancel _ Nat.two_pos]
    rw [sqrtLoop, hhalf]
    split
    · next hge =>
      -- the next bit belongs to the root
      have ih := sqrtLoop_eq (x := x) n (p + 2 ^ n) (by omega) (by rw [add_assoc, ← two_mul, ← pow_succ']; exact hlt)
      rw [hsq, ← Nat.sub_sub, add_mul, ← hbit] at ih
      exact ih
    · next hlow => exact sqrtLoop_eq n p hle (by omega)

theorem fxSqrt_eq {x : Int} (h0 : 0 < x) (hx : x < 2 ^ 32) : fxSqrt x = (Nat.sqrt x.toNat * 2 ^ 8 : Nat) := by
  have hroot := sqrtLoop_eq (x := x.toNat) (sqrtTop x.toNat 16) 0 (Nat.zero_le _) (by
    rw [zero_add, ← Nat.mul_pow]
    exact lt_sqrtTop (by omega))
  rw [zero_mul, zero_mul, Nat.sub_zero] at hroot
  rw [fxSqrt, if_neg (by omega), ← hroot]

theorem sqrt_shift (m : Nat) : Nat.sqrt (m * 2 ^ 16) / 2 ^ 8 = Nat.sqrt m := by
  refine eq_of_forall_le_iff fun a => ?_
  rw [Nat.le_div_iff_mul_le (Nat.two_pow_pos 8), Nat.le_sqrt, Nat.le_sqrt,
    show a * 2 ^ 8 * (a * 2 ^ 8) = a * a * 2 ^ 16 by ring]
  omega

theorem fxFromInt_eq (n : Int) : fxFromInt n = n.bmod (2 ^ 16) * 2 ^ 16 := by
  have h := Int.mod_bmod_mul_of_pos (a := 2 ^ 16) n (2 ^ 16) (by decide) (by decide)
  rw [fxFromInt, fxT, mul_comm n, mul_comm (n.bmod _)]
  exact h

theorem fxToInt_fxSqrt_fxFromInt (n : Int) :
    fxToInt (fxSqrt (fxFromInt n)) = Nat.sqrt (n.bmod (2 ^ 16)).toNat := by
  have hlt : n.bmod (2 ^ 16) < 2 ^ 15 := Int.bmod_lt (by decide)
  rw [fxFromInt_eq]
  generalize n.bmod (2 ^ 16) = m at *
  rcases le_or_gt m 0 with hm | hm
  · rw [fxSqrt, if_pos (by omega), Int.toNat_of_nonpos hm]
    rfl
  · have htoNat : (m * 2 ^ 16).toNat = m.toNat * 2 ^ 16 := by omega
    have hcut : Nat.sqrt (m.toNat * 2 ^ 16) * 2 ^ 8 / 2 ^ 16 = Nat.sqrt m.toNat := by
      rw [show 2 ^ 16 = 2 ^ 8 * 2 ^ 8 from rfl, Nat.mul_div_mul_right _ _ (Nat.two_pow_pos 8)]
      exact sqrt_shift m.toNat
    rw [fxSqrt_eq (by omega) (by omega), fxToInt, htoNat, ← hcut]
    rfl

end Gfx
end AmitX
