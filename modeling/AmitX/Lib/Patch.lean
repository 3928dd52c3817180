import Mathlib.Data.List.Forall2
/-!
# Patch — assignments of constants, applied in order

A patch assigns values to some places.  Patches applied one after another are one patch, in which the last assignment of
a place counts.  A patch that assigns every place of another one overrides it: what the other left behind is not seen.
-/

namespace Patch

variable {α β : Type}

def apply (f : α → Option β) (g : α → β) : α → β := fun a => (f a).getD (g a)

def nothing : α → Option β := fun _ => none

/-- Patch `f` first, then `h`. -/
def andThen (f h : α → Option β) : α → Option β := fun a => (h a).or (f a)

def all : List (α → Option β) → α → Option β
  | [] => nothing
  | f :: fs => andThen f (all fs)

/-- `h` assigns every place that `f` assigns. -/
def Covers (f h : α → Option β) : Prop := ∀ a, (f a).isSome = true → (h a).isSome = true

variable {f f' h h' : α → Option β} {g g' : α → β} {a : α}

@[simp] theorem apply_nothing (g : α → β) : apply nothing g = g := rfl

theorem apply_of_some {b : β} (hf : f a = some b) : apply f g a = b := by
  rw [apply, hf, Option.getD_some]

theorem apply_of_none (hf : f a = none) : apply f g a = g a := by
  rw [apply, hf, Option.getD_none]

theorem apply_andThen (f h : α → Option β) (g : α → β) : apply (andThen f h) g = apply h (apply f g) := by
  funext a
  unfold apply andThen
  cases h a <;> rfl

theorem apply_apply_of_covers (hc : Covers f h) (g : α → β) : apply h (apply f g) = apply h g := by
  funext a
  cases hh : h a with
  | some b => rw [apply_of_some hh, apply_of_some hh]
  | none =>
    have hf : f a = none := by
      cases hf : f a with
      | none => rfl
      | some b =>
        have := hc a (by rw [hf]; rfl)
        rw [hh] at this
        cases this
    rw [apply_of_none hh, apply_of_none hh, apply_of_none hf]

def SamePlaces (f h : α → Option β) : Prop := ∀ a, (f a).isSome = (h a).isSome

end Patch
