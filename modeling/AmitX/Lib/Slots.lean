import Mathlib.Logic.Function.Basic
/-!
# Slots — references to blocks, each to a block of its own

A slot refers to a block of the area from `base` on, 0 says that it refers to none, and `used` tells the blocks that are
given out.  `Sound` says that the references are to blocks given out and that no two are to one block, `NoLeak` that
every block given out is referred to.  `assign` gives a slot a block, `release` takes the blocks of some slots back.
-/

namespace Slots

variable {α : Type}

structure Sound (ref : α → Nat) (used : Nat → Bool) (base count : Nat) : Prop where
  area : ∀ s, ref s ≠ 0 → base ≤ ref s ∧ ref s < base + count
  used : ∀ s, ref s ≠ 0 → used (ref s - base) = true
  once : ∀ s t, ref s ≠ 0 → ref s = ref t → s = t

def NoLeak (ref : α → Nat) (used : Nat → Bool) (base : Nat) : Prop := ∀ b, used b = true → ∃ s, ref s = base + b

variable {ref ref' : α → Nat} {used used' : Nat → Bool} {base count b : Nat} {s : α}

theorem Sound.ne (h : Sound ref used base count) (hbase : 0 < base) (hu : used b = false) (t : α) :
    ref t ≠ base + b := by
  intro ht
  have := h.used t (by omega)
  rw [ht, Nat.add_sub_cancel_left, hu] at this
  cases this

section

variable [DecidableEq α]

theorem Sound.assign (h : Sound ref used base count) (hbase : 0 < base) (hb : b < count) (hu : used b = false) (s : α) :
    Sound (Function.update ref s (base + b)) (Function.update used b true) base count := by
  constructor
  · intro t ht
    by_cases hts : t = s
    · subst hts
      rw [Function.update_self]
      omega
    · rw [Function.update_of_ne hts] at ht ⊢
      exact h.area t ht
  · intro t ht
    by_cases hts : t = s
    · subst hts
      rw [Function.update_self, Nat.add_sub_cancel_left, Function.update_self]
    · rw [Function.update_of_ne hts] at ht ⊢
      have harea := h.area t ht
      have hne := h.ne hbase hu t
      rw [Function.update_of_ne (by omega)]
      exact h.used t ht
  · intro t u ht htu
    by_cases hts : t = s
    · by_cases hus : u = s
      · rw [hts, hus]
      · rw [hts, Function.update_self, Function.update_of_ne hus] at htu
        exact absurd htu.symm (h.ne hbase hu u)
    · rw [Function.update_of_ne hts] at ht htu
      by_cases hus : u = s
      · rw [hus, Function.update_self] at htu
        exact absurd htu (h.ne hbase hu t)
      · rw [Function.update_of_ne hus] at htu
        exact h.once t u ht htu

theorem NoLeak.assign (h : NoLeak ref used base) (hbase : 0 < base) (hs : ref s = 0) :
    NoLeak (Function.update ref s (base + b)) (Function.update used b true) base := by
  intro c hc
  by_cases hcb : c = b
  · exact ⟨s, by rw [hcb, Function.update_self]⟩
  · rw [Function.update_of_ne hcb] at hc
    obtain ⟨t, ht⟩ := h c hc
    have hts : t ≠ s := by
      rintro rfl
      omega
    exact ⟨t, by rw [Function.update_of_ne hts, ht]⟩

end

/-- The blocks of the slots in `p` are taken back, and the slots are empty. -/
structure Released (p : α → Prop) (ref ref' : α → Nat) (used used' : Nat → Bool) (base : Nat) : Prop where
  empty : ∀ s, p s → ref' s = 0
  same : ∀ s, ¬p s → ref' s = ref s
  clear : ∀ b, used' b = true ↔ used b = true ∧ ∀ s, p s → ref s ≠ base + b

variable {p : α → Prop}

theorem Sound.release (h : Sound ref used base count) (hr : Released p ref ref' used used' base) :
    Sound ref' used' base count := by
  have hsame : ∀ s, ref' s ≠ 0 → ¬p s ∧ ref' s = ref s := by
    intro s hs
    have hp : ¬p s := fun hp => hs (hr.empty s hp)
    exact ⟨hp, hr.same s hp⟩
  constructor
  · intro s hs
    obtain ⟨-, he⟩ := hsame s hs
    rw [he] at hs ⊢
    exact h.area s hs
  · intro s hs
    obtain ⟨hp, he⟩ := hsame s hs
    rw [he] at hs ⊢
    refine (hr.clear _).2 ⟨h.used s hs, fun t ht hst => ?_⟩
    have harea := h.area s hs
    have : s = t := h.once s t hs (by omega)
    exact hp (this ▸ ht)
  · intro s t hs hst
    obtain ⟨-, he⟩ := hsame s hs
    obtain ⟨-, he'⟩ := hsame t (hst ▸ hs)
    rw [he] at hs hst
    rw [he'] at hst
    exact h.once s t hs hst

theorem NoLeak.release (h : NoLeak ref used base) (hr : Released p ref ref' used used' base) :
    NoLeak ref' used' base := by
  intro b hb
  obtain ⟨hb, hfree⟩ := (hr.clear b).1 hb
  obtain ⟨s, hs⟩ := h b hb
  have hp : ¬p s := fun hp => hfree s hp hs
  exact ⟨s, by rw [hr.same s hp, hs]⟩

/-! ## Blocks that are not given out -/

/-- How many of the first `count` blocks are free. -/
def free (used : Nat → Bool) (count : Nat) : Nat := (List.range count).countP (fun b => !used b)

theorem free_succ (used : Nat → Bool) (count : Nat) :
    free used (count + 1) = free used count + if used count = true then 0 else 1 := by
  unfold free
  rw [List.range_succ, List.countP_append]
  by_cases hu : used count = true
  · simp [hu]
  · simp [hu]

theorem free_congr (h : ∀ b < count, used b = used' b) : free used count = free used' count := by
  unfold free
  apply List.countP_congr
  intro b hb
  rw [h b (List.mem_range.1 hb)]

theorem free_take : ∀ {count : Nat}, b < count → used b = false →
    free (Function.update used b true) count + 1 = free used count
  | 0, hb, _ => absurd hb (Nat.not_lt_zero _)
  | count + 1, hb, hu => by
    rw [free_succ, free_succ]
    by_cases hlast : b = count
    · subst hlast
      have hrest : free (Function.update used b true) b = free used b :=
        free_congr (fun c hc => Function.update_of_ne (Nat.ne_of_lt hc) ..)
      rw [Function.update_self, hrest, hu]
      rfl
    · have ih := free_take (show b < count by omega) hu
      rw [Function.update_of_ne (Ne.symm hlast)]
      omega

theorem free_eq_zero (h : ∀ b < count, used b = true) : free used count = 0 := by
  unfold free
  rw [List.countP_eq_zero]
  intro b hb
  simp [h b (List.mem_range.1 hb)]

theorem free_eq_one (hb : b < count) (hu : used b = false)
    (h : ∀ c < count, c ≠ b → used c = true) : free used count = 1 := by
  rw [← free_take hb hu, free_eq_zero]
  intro c hc
  by_cases hcb : c = b
  · rw [hcb, Function.update_self]
  · rw [Function.update_of_ne hcb, h c hc hcb]

end Slots
