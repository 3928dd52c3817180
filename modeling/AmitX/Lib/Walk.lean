import Mathlib.Data.Set.Finite.Basic
import Mathlib.Data.Fintype.Pigeonhole
/-!
# Walk — following a pointer from cell to cell

`walk f n a` is the cell after `n` steps from `a`, where `f` gives the next cell or none.  A walk ends where some step
has no next cell.  It repeats where it comes twice to one cell, and in a finite set of cells it ends if and only if it
does not repeat.
-/

namespace Walk

variable {α : Type}

def walk (f : α → Option α) : Nat → α → Option α
  | 0, a => some a
  | n + 1, a => (f a).bind (walk f n)

/-- The walk from `a` ends. -/
def Ends (f : α → Option α) (a : α) : Prop := ∃ n, walk f n a = none

/-- The walk from `a` comes twice to one cell. -/
def Repeats (f : α → Option α) (a : α) : Prop := ∃ i j b, i < j ∧ walk f i a = some b ∧ walk f j a = some b

section

variable {f : α → Option α} {a b c : α} {n i j : Nat}

@[simp] theorem walk_zero : walk f 0 a = some a := rfl

theorem walk_succ (h : f a = some b) : walk f (n + 1) a = walk f n b := by
  rw [walk, h, Option.bind_some]

theorem walk_succ_none (h : f a = none) : walk f (n + 1) a = none := by
  rw [walk, h, Option.bind_none]

theorem walk_add (f : α → Option α) (n m : Nat) (a : α) : walk f (n + m) a = (walk f n a).bind (walk f m) := by
  induction n generalizing a with
  | zero => rw [Nat.zero_add, walk_zero, Option.bind_some]
  | succ n ih =>
    rw [Nat.succ_add]
    cases h : f a with
    | none => rw [walk_succ_none h, walk_succ_none h, Option.bind_none]
    | some b => rw [walk_succ h, walk_succ h, ih]

theorem walk_none_of_le (h : walk f i a = none) (hij : i ≤ j) : walk f j a = none := by
  obtain ⟨k, rfl⟩ := Nat.exists_eq_add_of_le hij
  rw [walk_add, h, Option.bind_none]

theorem last_unique (hi : walk f i a = some b) (hb : f b = none) (hj : walk f j a = some c) (hc : f c = none) : b = c := by
  have hlast : ∀ {i j : Nat} {b c : α}, i ≤ j → walk f i a = some b → f b = none → walk f j a = some c → b = c := by
    intro i j b c hij hi hb hj
    obtain ⟨k, rfl⟩ := Nat.exists_eq_add_of_le hij
    rw [walk_add, hi, Option.bind_some] at hj
    cases k with
    | zero => exact Option.some.inj hj
    | succ k => rw [walk_succ_none hb] at hj; cases hj
  rcases Nat.le_total i j with hij | hij
  · exact hlast hij hi hb hj
  · exact (hlast hij hj hc hi).symm

theorem not_ends_of_repeats (h : Repeats f a) : ¬Ends f a := by
  obtain ⟨i, j, b, hij, hi, hj⟩ := h
  -- from its first visit on, the walk comes to `b` after every `j - i` steps
  have hround : ∀ k, walk f (i + k * (j - i)) a = some b := by
    intro k
    induction k with
    | zero => rw [Nat.zero_mul, Nat.add_zero, hi]
    | succ k ih =>
      have hstep : walk f (j - i) b = some b := by
        have := walk_add f i (j - i) a
        rw [Nat.add_sub_cancel' hij.le, hi, Option.bind_some] at this
        rw [← this, hj]
      rw [Nat.succ_mul, ← Nat.add_assoc, walk_add, ih, Option.bind_some, hstep]
  rintro ⟨n, hn⟩
  have hlong : n ≤ i + n * (j - i) := by
    have := Nat.mul_le_mul_left n (Nat.sub_pos_of_lt hij)
    omega
  have hn' := hround n
  rw [walk_none_of_le hn hlong] at hn'
  cases hn'

theorem walk_mem {S : Set α} (ha : a ∈ S) (hS : ∀ b ∈ S, ∀ c, f b = some c → c ∈ S) :
    ∀ {n : Nat}, walk f n a = some b → b ∈ S := by
  intro n
  induction n generalizing a with
  | zero =>
    intro h
    cases h
    exact ha
  | succ n ih =>
    intro h
    cases hf : f a with
    | none => rw [walk_succ_none hf] at h; cases h
    | some c =>
      rw [walk_succ hf] at h
      exact ih (hS a ha c hf) h

theorem ends_of_not_repeats {S : Set α} (hfin : S.Finite) (ha : a ∈ S) (hS : ∀ b ∈ S, ∀ c, f b = some c → c ∈ S)
    (h : ¬Repeats f a) : Ends f a := by
  by_contra hends
  simp only [Ends, not_exists] at hends
  have hcell : ∀ n, ∃ b, walk f n a = some b := fun n => Option.ne_none_iff_exists'.1 (hends n)
  choose g hg using hcell
  have := hfin.to_subtype
  obtain ⟨i, j, hne, heq⟩ := Finite.exists_ne_map_eq_of_infinite (fun n => (⟨g n, walk_mem ha hS (hg n)⟩ : S))
  have heq : g i = g j := congrArg Subtype.val heq
  rcases Nat.lt_or_gt_of_ne hne with hlt | hlt
  · exact h ⟨i, j, g i, hlt, hg i, by rw [heq]; exact hg j⟩
  · exact h ⟨j, i, g i, hlt, by rw [heq]; exact hg j, hg i⟩

theorem ends_iff_not_repeats {S : Set α} (hfin : S.Finite) (ha : a ∈ S) (hS : ∀ b ∈ S, ∀ c, f b = some c → c ∈ S) :
    Ends f a ↔ ¬Repeats f a :=
  ⟨fun h hr => not_ends_of_repeats hr h, ends_of_not_repeats hfin ha hS⟩

end

end Walk
