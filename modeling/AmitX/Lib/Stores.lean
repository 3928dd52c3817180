import Mathlib.Logic.Function.Basic
import Mathlib.Tactic.Common
/-!
# Stores — a list of stores, made one after another

`apply stores mem` is the memory after the stores of a list, each of a value to a place.  A place that none of them
stores to keeps its value, one that some of them store to has the value of one of these, and where all stores to a place
agree, it has their value.
-/

namespace Stores

variable {α β : Type} [DecidableEq α] {stores : List (α × β)} {mem : α → β} {a : α} {b : β}

def apply (stores : List (α × β)) (mem : α → β) : α → β := stores.foldl (fun mem s => Function.update mem s.1 s.2) mem

theorem apply_cons (s : α × β) : apply (s :: stores) mem = apply stores (Function.update mem s.1 s.2) := rfl

theorem apply_of_not (h : ∀ s ∈ stores, s.1 ≠ a) : apply stores mem a = mem a := by
  induction stores generalizing mem with
  | nil => rfl
  | cons s stores ih =>
    rw [apply_cons, ih fun t ht => h t (List.mem_cons_of_mem s ht)]
    exact Function.update_of_ne (h s List.mem_cons_self).symm _ _

theorem exists_of_mem (h : ∃ s ∈ stores, s.1 = a) : ∃ s ∈ stores, s.1 = a ∧ apply stores mem a = s.2 := by
  induction stores generalizing mem with
  | nil =>
    obtain ⟨s, hs, -⟩ := h
    cases hs
  | cons s stores ih =>
    rw [apply_cons]
    by_cases hrest : ∃ t ∈ stores, t.1 = a
    · obtain ⟨t, ht, hta, hv⟩ := ih hrest
      exact ⟨t, List.mem_cons_of_mem s ht, hta, hv⟩
    · have hs : s.1 = a := by
        obtain ⟨t, ht, hta⟩ := h
        rcases List.mem_cons.1 ht with rfl | ht
        · exact hta
        · exact absurd ⟨t, ht, hta⟩ hrest
      refine ⟨s, List.mem_cons_self, hs, ?_⟩
      rw [apply_of_not fun t ht hta => hrest ⟨t, ht, hta⟩, ← hs, Function.update_self]

theorem apply_of_mem (h : (a, b) ∈ stores) (hagree : ∀ s ∈ stores, s.1 = a → s.2 = b) : apply stores mem a = b := by
  obtain ⟨s, hs, hsa, hv⟩ : ∃ s ∈ stores, s.1 = a ∧ apply stores mem a = s.2 := exists_of_mem ⟨(a, b), h, rfl⟩
  rw [hv, hagree s hs hsa]

theorem apply_cases (stores : List (α × β)) (mem : α → β) (a : α) :
    ((∀ s ∈ stores, s.1 ≠ a) ∧ apply stores mem a = mem a) ∨ ∃ s ∈ stores, s.1 = a ∧ apply stores mem a = s.2 := by
  by_cases h : ∃ s ∈ stores, s.1 = a
  · exact .inr (exists_of_mem h)
  · push Not at h
    exact .inl ⟨h, apply_of_not h⟩

end Stores
