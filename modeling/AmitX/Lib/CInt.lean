import Mathlib.Algebra.Order.Group.Unbundled.Int
import Mathlib.Tactic.Common
/-!
# CInt — signed arithmetic on 32 bits

`int v` is the value of a C expression of type `int` that is `v` in the integers: there is none where it overflows.
-/

namespace CInt

variable {v w : Int}

def Fits (v : Int) : Prop := -2 ^ 31 ≤ v ∧ v < 2 ^ 31

instance : Decidable (Fits v) := inferInstanceAs (Decidable (_ ∧ _))

def int (v : Int) : Option Int := if Fits v then some v else none

theorem int_eq (h : -2 ^ 31 ≤ v) (h' : v < 2 ^ 31) : int v = some v := if_pos ⟨h, h'⟩

/-- `abs` of a value of type `int`. -/
def cabs (x : Int) : Option Int := if x < 0 then int (-x) else some x

theorem cabs_eq (h : -2 ^ 31 < v) (h' : v < 2 ^ 31) : cabs v = some |v| := by
  unfold cabs
  split
  · next hneg => rw [int_eq (by omega) (by omega), abs_of_neg hneg]
  · next hpos => rw [abs_of_nonneg (by omega)]

end CInt
