import Mathlib.Data.Nat.Bitwise
import Mathlib.Tactic.Common
/-!
# Align — rounding up to a power of two, in machine words

`roundUp x a` is the least multiple of `a` from `x` on.  A machine adds `a - 1` and clears the low bits, which is the same
as long as the addition does not wrap.
-/

namespace Align

def roundUp (x a : Nat) : Nat := (x + (a - 1)) / a * a

variable {x a k w : Nat}

theorem dvd_roundUp (x a : Nat) : a ∣ roundUp x a := Nat.dvd_mul_left a _

theorem le_roundUp (ha : 0 < a) : x ≤ roundUp x a := by
  have h1 := Nat.div_add_mod' (x + (a - 1)) a
  have h2 := Nat.mod_lt (x + (a - 1)) ha
  unfold roundUp
  omega

theorem roundUp_le_of_dvd {y : Nat} (hxy : x ≤ y) (hy : a ∣ y) : roundUp x a ≤ y := by
  obtain ⟨q, rfl⟩ := hy
  rcases Nat.eq_zero_or_pos a with rfl | ha
  · simp [roundUp]
  · have hq : (x + (a - 1)) / a ≤ q := by
      rw [← Nat.lt_succ_iff, Nat.div_lt_iff_lt_mul ha, Nat.succ_mul, Nat.mul_comm q a]
      omega
    calc roundUp x a ≤ q * a := Nat.mul_le_mul_right a hq
      _ = a * q := Nat.mul_comm q a

theorem toNat_and_not_low (x : BitVec w) (hk : k < w) :
    (x &&& ~~~(BitVec.ofNat w (2 ^ k) - 1#w)).toNat = x.toNat / 2 ^ k * 2 ^ k := by
  have hlow : (BitVec.ofNat w (2 ^ k) - 1#w) = BitVec.ofNat w (2 ^ k - 1) := by
    apply BitVec.eq_of_toNat_eq
    have h1 : 2 ^ k < 2 ^ w := Nat.pow_lt_pow_right (by decide) hk
    have h2 : 0 < 2 ^ k := Nat.two_pow_pos k
    rw [BitVec.toNat_sub, BitVec.toNat_ofNat, BitVec.toNat_ofNat, BitVec.toNat_ofNat, Nat.mod_eq_of_lt h1,
      Nat.mod_eq_of_lt (by omega : 1 < 2 ^ w), Nat.mod_eq_of_lt (by omega : 2 ^ k - 1 < 2 ^ w),
      (by omega : 2 ^ w - 1 + 2 ^ k = 2 ^ k - 1 + 2 ^ w), Nat.add_mod_right, Nat.mod_eq_of_lt (by omega)]
  have hshift : x &&& ~~~(BitVec.ofNat w (2 ^ k) - 1#w) = x >>> k <<< k := by
    rw [hlow]
    ext i hi
    have hbit : (BitVec.ofNat w (2 ^ k - 1))[i] = decide (i < k) := by
      have hlt : 2 ^ k < 2 ^ w := Nat.pow_lt_pow_right (by decide) hk
      have hpos : 0 < 2 ^ k := Nat.two_pow_pos k
      rw [BitVec.getElem_eq_testBit_toNat, BitVec.toNat_ofNat, Nat.mod_eq_of_lt (by omega), Nat.testBit_two_pow_sub_one]
    simp only [BitVec.getElem_and, BitVec.getElem_not, BitVec.getElem_shiftLeft, BitVec.getElem_ushiftRight, hbit]
    by_cases hik : i < k
    · simp [hik]
    · have hle : k ≤ i := by omega
      simp [hik, Nat.add_sub_cancel' hle, BitVec.getLsbD_eq_getElem hi]
  rw [hshift, BitVec.toNat_shiftLeft, BitVec.toNat_ushiftRight, Nat.shiftRight_eq_div_pow, Nat.shiftLeft_eq,
    Nat.mod_eq_of_lt (Nat.lt_of_le_of_lt (Nat.div_mul_le_self _ _) x.isLt)]

theorem toNat_align {x size : BitVec w} (hk : k < w) (hs : size.toNat = 2 ^ k) (hx : x.toNat + 2 ^ k ≤ 2 ^ w) :
    ((x + size - 1#w) &&& ~~~(size - 1#w)).toNat = roundUp x.toNat (2 ^ k) := by
  have hsize : size = BitVec.ofNat w (2 ^ k) := by
    apply BitVec.eq_of_toNat_eq
    rw [hs, BitVec.toNat_ofNat, Nat.mod_eq_of_lt (Nat.pow_lt_pow_right (by decide) hk)]
  have hpos : 0 < 2 ^ k := Nat.two_pow_pos k
  have hone : 1 < 2 ^ w := Nat.one_lt_two_pow (by omega)
  have hsum : (x + size - 1#w).toNat = x.toNat + (2 ^ k - 1) := by
    rw [BitVec.toNat_sub, BitVec.toNat_add, hs, BitVec.toNat_ofNat, Nat.mod_eq_of_lt hone]
    rcases Nat.lt_or_eq_of_le hx with hlt | heq
    · rw [Nat.mod_eq_of_lt hlt, (by omega : 2 ^ w - 1 + (x.toNat + 2 ^ k) = x.toNat + (2 ^ k - 1) + 2 ^ w),
        Nat.add_mod_right, Nat.mod_eq_of_lt (by omega)]
    · rw [heq, Nat.mod_self, Nat.add_zero, Nat.mod_eq_of_lt (by omega)]
      omega
  rw [hsize] at hsum ⊢
  rw [toNat_and_not_low _ hk, hsum]
  rfl

end Align
