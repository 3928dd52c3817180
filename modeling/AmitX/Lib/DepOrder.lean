import Mathlib.Tactic.Common
import Mathlib.Data.List.Basic
import Mathlib.Logic.Relation
/-!
# DepOrder — orders that respect dependencies

`R a b` says that `a` needs `b`.  `Ordered R l` says that every element of `l` comes after all those it needs.  A
relation whose elements stand in an ordered list has no cycle.
-/

namespace DepOrder

variable {α : Type} {R : α → α → Prop}

def Ordered (R : α → α → Prop) (l : List α) : Prop :=
  ∀ pre a post, l = pre ++ a :: post → ∀ b, R a b → b ∈ pre

theorem ordered_nil : Ordered R [] := by
  intro pre a post h
  cases pre <;> cases h

theorem Ordered.concat {l : List α} {a : α} (h : Ordered R l) (ha : ∀ b, R a b → b ∈ l) : Ordered R (l ++ [a]) := by
  intro pre c post hs b hb
  rcases List.eq_nil_or_concat post with rfl | ⟨post', z, rfl⟩
  · obtain ⟨rfl, hc⟩ := List.append_inj' (by simpa using hs : l ++ [a] = pre ++ [c]) rfl
    cases hc
    exact ha b hb
  · have hs' : l ++ [a] = (pre ++ c :: post') ++ [z] := by simpa using hs
    exact h pre c post' (List.append_inj' hs' rfl).1 b hb

theorem Ordered.mono {S : α → α → Prop} {l : List α} (h : Ordered R l) (hRS : ∀ a b, S a b → R a b) : Ordered S l :=
  fun pre a post hs b hb => h pre a post hs b (hRS a b hb)

theorem Ordered.idxOf_lt [DecidableEq α] {l : List α} (h : Ordered R l) {a b : α} (ha : a ∈ l) (hab : R a b) :
    l.idxOf b < l.idxOf a := by
  obtain ⟨pre, post, rfl, hpre⟩ := List.eq_append_cons_of_mem ha
  have hb := h pre a post rfl b hab
  rw [List.idxOf_append_of_mem hb, List.idxOf_append_of_notMem hpre]
  have := List.idxOf_lt_length_of_mem hb
  omega

theorem Ordered.mem {l : List α} (h : Ordered R l) {a b : α} (ha : a ∈ l) (hab : R a b) : b ∈ l := by
  obtain ⟨pre, post, rfl⟩ := List.append_of_mem ha
  exact List.mem_append_left _ (h pre a post rfl b hab)

theorem Ordered.acyclic {l : List α} (h : Ordered R l) {a : α} (ha : a ∈ l) : ¬ Relation.TransGen R a a := by
  classical
  have hlt : ∀ b, Relation.TransGen R a b → b ∈ l ∧ l.idxOf b < l.idxOf a := by
    intro b hab
    induction hab with
    | single hr => exact ⟨h.mem ha hr, h.idxOf_lt ha hr⟩
    | tail _ hr ih => exact ⟨h.mem ih.1 hr, Nat.lt_trans (h.idxOf_lt ih.1 hr) ih.2⟩
  exact fun haa => Nat.lt_irrefl _ (hlt a haa).2

theorem ordered_of_idxOf [DecidableEq α] {l : List α} (hn : l.Nodup) (h : ∀ a ∈ l, ∀ b, R a b → l.idxOf b < l.idxOf a) :
    Ordered R l := by
  rintro pre a post rfl b hb
  have hpre : a ∉ pre := fun ha => (List.nodup_append.1 hn).2.2 a ha a (by simp) rfl
  have hlt := h a (by simp) b hb
  rw [List.idxOf_append_of_notMem hpre, List.idxOf_cons_self, Nat.add_zero] at hlt
  by_contra hmem
  rw [List.idxOf_append_of_notMem hmem] at hlt
  omega

end DepOrder
