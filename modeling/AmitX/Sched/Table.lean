import AmitX.Sched.Tasks
/-!
# Table — the table of the tasks

The tasks that exist are those in the table, each in one slot of it.
-/
namespace AmitX
namespace Sched

def Tasks.Live (s : Tasks) (t : Ptr) : Prop := ∃ i < taskMaxTasks, s.taskTable i = some t

instance (s : Tasks) (t : Ptr) : Decidable (s.Live t) :=
  inferInstanceAs (Decidable (∃ i, i < taskMaxTasks ∧ s.taskTable i = some t))

def Tasks.OneSlot (s : Tasks) : Prop :=
  ∀ i < taskMaxTasks, ∀ j < taskMaxTasks, ∀ t, s.taskTable i = some t → s.taskTable j = some t → i = j

section

variable {s s' : Tasks} {t u : Ptr}

theorem live_congr (h : s'.taskTable = s.taskTable) : s'.Live t ↔ s.Live t := by
  unfold Tasks.Live
  rw [h]

theorem fresh_some (h : ¬s.Live t) : ∀ u, some t = some u → ¬s.Live u := by
  rintro u ⟨⟩
  exact h

theorem oneSlot_congr (h : s'.taskTable = s.taskTable) (hs : s.OneSlot) : s'.OneSlot := by
  unfold Tasks.OneSlot
  rw [h]
  exact hs

theorem live_taskFind {tid : Nat} (h : taskFind s tid = some t) : s.Live t := by
  obtain ⟨i, hi, ht⟩ := Option.bind_eq_some_iff.1 h
  exact ⟨i, List.mem_range.1 (List.mem_of_find?_eq_some hi), ht⟩

theorem findSlot_some {f : Option Ptr → Bool} {i : Nat} (h : findSlot s f = some i) :
    i < taskMaxTasks ∧ f (s.taskTable i) = true :=
  ⟨List.mem_range.1 (List.mem_of_find?_eq_some h), List.find?_some (p := fun i => f (s.taskTable i)) h⟩

theorem findSlot_none {f : Option Ptr → Bool} (h : findSlot s f = none) {i : Nat} (hi : i < taskMaxTasks) :
    f (s.taskTable i) = false := by
  have := List.find?_eq_none.1 h i (List.mem_range.2 hi)
  simpa using this

theorem forgetTask_live (hslot : s.OneSlot) (t u : Ptr) : (forgetTask t s).Live u ↔ u ≠ t ∧ s.Live u := by
  unfold forgetTask
  cases hf : findSlot s (· == some t) with
  | none =>
    refine ⟨?_, fun hu => hu.2⟩
    rintro ⟨i, hi, hu⟩
    refine ⟨?_, i, hi, hu⟩
    rintro rfl
    have := findSlot_none hf hi
    rw [hu] at this
    simp at this
  | some j =>
    obtain ⟨hj, htj⟩ := findSlot_some hf
    have htj : s.taskTable j = some t := by simpa using htj
    unfold Tasks.Live
    simp only
    constructor
    · rintro ⟨i, hi, hu⟩
      by_cases hij : i = j
      · rw [hij, Function.update_self] at hu
        cases hu
      · rw [Function.update_of_ne hij] at hu
        refine ⟨?_, i, hi, hu⟩
        rintro rfl
        exact hij (hslot i hi j hj u hu htj)
    · rintro ⟨hut, i, hi, hu⟩
      refine ⟨i, hi, ?_⟩
      rw [Function.update_of_ne, hu]
      rintro rfl
      rw [htj] at hu
      exact hut (Option.some.inj hu).symm

theorem forgetTask_slot (hslot : s.OneSlot) (t : Ptr) : (forgetTask t s).OneSlot := by
  unfold forgetTask
  cases findSlot s (· == some t) with
  | none => exact hslot
  | some k =>
    intro i hi j hj u hui huj
    simp only [Function.update_apply] at hui huj
    split at hui
    · cases hui
    · split at huj
      · cases huj
      · exact hslot i hi j hj u hui huj

theorem live_enter {slot : Nat} (hslot : slot < taskMaxTasks) (hfree : s.taskTable slot = none)
    (hs : s'.taskTable = Function.update s.taskTable slot (some t)) (u : Ptr) : s'.Live u ↔ s.Live u ∨ u = t := by
  unfold Tasks.Live
  rw [hs]
  constructor
  · rintro ⟨i, hi, hu⟩
    by_cases his : i = slot
    · rw [his, Function.update_self] at hu
      exact Or.inr (Option.some.inj hu).symm
    · rw [Function.update_of_ne his] at hu
      exact Or.inl ⟨i, hi, hu⟩
  · rintro (⟨i, hi, hu⟩ | rfl)
    · refine ⟨i, hi, ?_⟩
      rw [Function.update_of_ne, hu]
      rintro rfl
      rw [hfree] at hu
      cases hu
    · exact ⟨slot, hslot, Function.update_self _ _ _⟩

theorem oneSlot_enter {slot : Nat} (hnew : ¬s.Live t) (h : s.OneSlot)
    (hs : s'.taskTable = Function.update s.taskTable slot (some t)) : s'.OneSlot := by
  have hnot : ∀ k < taskMaxTasks, s.taskTable k ≠ some t := fun k hk he => hnew ⟨k, hk, he⟩
  intro i hi j hj u hui huj
  rw [hs] at hui huj
  by_cases his : i = slot
  · by_cases hjs : j = slot
    · rw [his, hjs]
    · rw [his, Function.update_self] at hui
      rw [Function.update_of_ne hjs, ← hui] at huj
      exact absurd huj (hnot j hj)
  · rw [Function.update_of_ne his] at hui
    by_cases hjs : j = slot
    · rw [hjs, Function.update_self] at huj
      rw [← huj] at hui
      exact absurd hui (hnot i hi)
    · rw [Function.update_of_ne hjs] at huj
      exact h i hi j hj u hui huj

theorem live_taskCreateArgPrio {memory : Option Ptr} {stack : Bool} (h : memory = none ∨ stack = false) (priority : Nat)
    (u : Ptr) : (taskCreateArgPrio memory stack priority s).Live u ↔ s.Live u := by
  unfold taskCreateArgPrio
  cases findSlot s Option.isNone with
  | none => rfl
  | some slot =>
    cases memory with
    | none => rfl
    | some t =>
      rw [h.resolve_left (by simp)]
      rfl

theorem live_of_taskCreateArgPrio {memory : Option Ptr} {stack : Bool} {priority : Nat}
    (h : (taskCreateArgPrio memory stack priority s).Live u) : s.Live u ∨ memory = some u := by
  unfold taskCreateArgPrio at h
  cases hf : findSlot s Option.isNone with
  | none =>
    rw [hf] at h
    exact Or.inl h
  | some slot =>
    cases memory with
    | none =>
      rw [hf] at h
      exact Or.inl h
    | some t =>
      rw [hf] at h
      simp only at h
      split at h
      · obtain ⟨hslot, hfree⟩ := findSlot_some hf
        refine ((live_enter hslot (by simpa using hfree) rfl u).1 h).imp_right (fun hu => ?_)
        rw [hu]
      · exact Or.inl h

theorem createdTask_none {memory : Option Ptr} {stack : Bool} (h : memory = none ∨ stack = false) :
    createdTask memory stack s = none := by
  unfold createdTask
  cases findSlot s Option.isNone with
  | none => rfl
  | some slot =>
    cases memory with
    | none => rfl
    | some t =>
      rw [h.resolve_left (by simp)]
      rfl

end

end Sched
end AmitX
