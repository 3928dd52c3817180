import Mathlib.Data.List.Nodup
import Mathlib.Data.List.Perm.Subperm
import Mathlib.Logic.Function.Iterate
/-!
# Follow — a chain of pointers that is followed as long as they are valid

`follow` gives the pointers on the way, and `none` where its fuel runs out.  The chain ends just when no pointer comes
back while all are valid, and then it is at most as long as the list of the valid pointers.
-/

namespace Follow

variable {α : Type} (valid : α → Bool) (next : α → α)

def follow : Nat → α → Option (List α)
  | 0, a => if valid a then none else some []
  | n + 1, a => if valid a then (follow n (next a)).map (a :: ·) else some []

def Acyclic (a : α) : Prop := ∀ i j, i < j → (∀ k ≤ j, valid (next^[k] a)) → next^[i] a ≠ next^[j] a

section

variable {valid next} {a : α} {n : Nat} {l : List α}

theorem follow_of_not_valid (h : ¬valid a) (n : Nat) : follow valid next n a = some [] := by
  cases n <;> exact if_neg h

theorem follow_some (h : follow valid next n a = some l) :
    l = (List.range l.length).map (next^[·] a) ∧ (∀ k < l.length, valid (next^[k] a)) ∧
      ¬valid (next^[l.length] a) := by
  induction n generalizing a l with
  | zero =>
    by_cases hv : valid a
    · rw [follow, if_pos hv] at h
      cases h
    · rw [follow_of_not_valid hv] at h
      cases h
      exact ⟨rfl, fun k hk => absurd hk (Nat.not_lt_zero k), hv⟩
  | succ n ih =>
    by_cases hv : valid a
    · rw [follow, if_pos hv, Option.map_eq_some_iff] at h
      obtain ⟨rest, hrest, rfl⟩ := h
      obtain ⟨heq, hvalid, hend⟩ := ih hrest
      refine ⟨?_, fun k hk => ?_, hend⟩
      · rw [List.length_cons, List.range_succ_eq_map, List.map_cons, List.map_map]
        exact congrArg (a :: ·) heq
      · cases k with
        | zero => exact hv
        | succ k => exact hvalid k (Nat.lt_of_succ_lt_succ hk)
    · rw [follow_of_not_valid hv] at h
      cases h
      exact ⟨rfl, fun k hk => absurd hk (Nat.not_lt_zero k), hv⟩

theorem follow_of_end {k : Nat} (hend : ¬valid (next^[k] a)) (hle : k ≤ n) : ∃ l, follow valid next n a = some l := by
  induction k generalizing a n with
  | zero => exact ⟨[], follow_of_not_valid hend n⟩
  | succ k ih =>
    by_cases hv : valid a
    · obtain ⟨n, rfl⟩ := Nat.exists_eq_add_of_le' hle
      obtain ⟨l, hl⟩ := @ih (next a) (n + k) hend (Nat.le_add_left k n)
      exact ⟨a :: l, by rw [← Nat.add_assoc, follow, if_pos hv, hl]; rfl⟩
    · exact ⟨[], follow_of_not_valid hv n⟩

theorem follow_mono {m : Nat} (h : follow valid next n a = some l) (hle : n ≤ m) : follow valid next m a = some l := by
  induction n generalizing a l m with
  | zero =>
    by_cases hv : valid a
    · rw [follow, if_pos hv] at h
      cases h
    · rw [follow_of_not_valid hv] at h ⊢
      exact h
  | succ n ih =>
    by_cases hv : valid a
    · obtain ⟨m, rfl⟩ := Nat.exists_eq_add_of_le' hle
      rw [follow, if_pos hv, Option.map_eq_some_iff] at h
      obtain ⟨rest, hrest, rfl⟩ := h
      rw [← Nat.add_assoc, follow, if_pos hv, ih hrest (Nat.le_add_left n m)]
      rfl
    · rw [follow_of_not_valid hv] at h ⊢
      exact h

theorem iterate_comes_back {i j k : Nat} (hij : i < j) (heq : next^[i] a = next^[j] a) :
    ∃ m < j, next^[k] a = next^[m] a := by
  induction k using Nat.strongRecOn with
  | _ k ih =>
    by_cases hk : k < j
    · exact ⟨k, hk, rfl⟩
    · obtain ⟨m, hm, h⟩ := ih (k - (j - i)) (by omega)
      refine ⟨m, hm, ?_⟩
      rw [← h, show k = (k - j) + j by omega, Function.iterate_add_apply, ← heq, ← Function.iterate_add_apply]
      congr 1
      omega

theorem acyclic_of_end {k : Nat} (hend : ¬valid (next^[k] a)) : Acyclic valid next a := by
  intro i j hij hvalid heq
  obtain ⟨m, hm, h⟩ := iterate_comes_back (k := k) hij heq
  rw [h] at hend
  exact hend (hvalid m (Nat.le_of_lt hm))

theorem nodup_of_acyclic (hac : Acyclic valid next a) {m : Nat} (hvalid : ∀ k < m, valid (next^[k] a)) :
    ((List.range m).map (next^[·] a)).Nodup := by
  refine List.Nodup.map_on (fun i hi j hj heq => ?_) List.nodup_range
  have hi := List.mem_range.1 hi
  have hj := List.mem_range.1 hj
  rcases Nat.lt_trichotomy i j with hlt | rfl | hlt
  · exact absurd heq (hac i j hlt fun k hk => hvalid k (Nat.lt_of_le_of_lt hk hj))
  · rfl
  · exact absurd heq.symm (hac j i hlt fun k hk => hvalid k (Nat.lt_of_le_of_lt hk hi))

theorem length_le_of_acyclic {all : List α} (hall : ∀ a, valid a → a ∈ all) (hac : Acyclic valid next a) {m : Nat}
    (hvalid : ∀ k < m, valid (next^[k] a)) : m ≤ all.length := by
  have hsub : (List.range m).map (next^[·] a) ⊆ all := by
    intro b hb
    obtain ⟨k, hk, rfl⟩ := List.mem_map.1 hb
    exact hall _ (hvalid k (List.mem_range.1 hk))
  have hle := ((nodup_of_acyclic hac hvalid).subperm hsub).length_le
  rwa [List.length_map, List.length_range] at hle

theorem exists_end_of_acyclic {all : List α} (hall : ∀ a, valid a → a ∈ all) (hac : Acyclic valid next a) :
    ∃ k ≤ all.length, ¬valid (next^[k] a) := by
  by_contra hnone
  push Not at hnone
  have hle := length_le_of_acyclic (m := all.length + 1) hall hac fun k hk => hnone k (Nat.le_of_lt_succ hk)
  omega

end

end Follow
