import Mathlib.Tactic.Common
/-!
# Loop — `while` loops with a bound

`step` is one turn of a loop: it ends in the next state or with the answer.  `loop` takes turns until there is an answer
or the bound is used up.  `loop_post` is the invariant rule, `loop_total` says that a loop whose measure goes down
answers.  `foldlM_ok` is the invariant rule of a `for` loop that may fail.
-/

namespace Loop

variable {σ ρ : Type}

def loop (step : σ → σ ⊕ ρ) : Nat → σ → Option ρ
  | 0, _ => none
  | n + 1, s =>
    match step s with
    | .inl s' => loop step n s'
    | .inr r => some r

variable {step : σ → σ ⊕ ρ} {I : σ → Prop} {Q : ρ → Prop}

theorem loop_inl {s s' : σ} (h : step s = .inl s') (n : Nat) : loop step (n + 1) s = loop step n s' := by
  simp only [loop, h]

theorem loop_inr {s : σ} {r : ρ} (h : step s = .inr r) (n : Nat) : loop step (n + 1) s = some r := by
  simp only [loop, h]

theorem loop_post (hI : ∀ s s', I s → step s = .inl s' → I s') (hQ : ∀ s r, I s → step s = .inr r → Q r) :
    ∀ {n : Nat} {s : σ} {r : ρ}, I s → loop step n s = some r → Q r
  | 0, _, _, _, h => by cases h
  | n + 1, s, r, hs, h => by
    cases hstep : step s with
    | inl s' =>
      rw [loop_inl hstep] at h
      exact loop_post hI hQ (hI s s' hs hstep) h
    | inr r' =>
      rw [loop_inr hstep] at h
      cases h
      exact hQ s r hs hstep

theorem loop_total {μ : σ → Nat} (hI : ∀ s s', I s → step s = .inl s' → I s' ∧ μ s' < μ s) :
    ∀ {n : Nat} {s : σ}, I s → μ s < n → ∃ r, loop step n s = some r
  | 0, _, _, h => absurd h (Nat.not_lt_zero _)
  | n + 1, s, hs, h => by
    cases hstep : step s with
    | inl s' =>
      obtain ⟨hs', hμ⟩ := hI s s' hs hstep
      rw [loop_inl hstep]
      exact loop_total hI hs' (by omega)
    | inr r => exact ⟨r, loop_inr hstep n⟩

theorem loop_mono : ∀ {n m : Nat} {s : σ} {r : ρ}, loop step n s = some r → n ≤ m → loop step m s = some r
  | 0, _, _, _, h, _ => by cases h
  | n + 1, 0, _, _, _, hle => absurd hle (Nat.not_succ_le_zero n)
  | n + 1, m + 1, s, r, h, hle => by
    cases hstep : step s with
    | inl s' =>
      rw [loop_inl hstep] at h ⊢
      exact loop_mono h (Nat.le_of_succ_le_succ hle)
    | inr r' =>
      rw [loop_inr hstep] at h ⊢
      exact h

theorem loop_unique {n m : Nat} {s : σ} {r r' : ρ} (h : loop step n s = some r) (h' : loop step m s = some r') :
    r = r' := by
  have h1 := loop_mono h (Nat.le_max_left n m)
  have h2 := loop_mono h' (Nat.le_max_right n m)
  rw [h1] at h2
  injection h2

theorem loop_steps {f : Nat → σ} : ∀ {n : Nat}, (∀ k < n, step (f k) = .inl (f (k + 1))) → ∀ m,
    loop step (n + m) (f 0) = loop step m (f n)
  | 0, _, m => by rw [Nat.zero_add]
  | n + 1, h, m => by
    have ih := loop_steps (fun k hk => h k (Nat.lt_succ_of_lt hk)) (m + 1)
    rw [Nat.add_right_comm, Nat.add_assoc, ih, loop_inl (h n (Nat.lt_succ_self n))]

theorem loop_along_iff (f : Nat → σ) (out : Nat → ρ) (stops : Nat → Prop) {r : ρ}
    (hgo : ∀ k, ¬stops k → step (f k) = .inl (f (k + 1))) (hstop : ∀ k, stops k → step (f k) = .inr (out k)) :
    (∃ n, loop step n (f 0) = some r) ↔ ∃ n, stops n ∧ (∀ k < n, ¬stops k) ∧ out n = r := by
  have hfirst : ∀ n k, loop step n (f k) = some r →
      ∃ m, k ≤ m ∧ stops m ∧ (∀ j, k ≤ j → j < m → ¬stops j) ∧ out m = r := by
    intro n
    induction n with
    | zero =>
      intro k h
      cases h
    | succ n ih =>
      intro k h
      by_cases hk : stops k
      · rw [loop_inr (hstop k hk)] at h
        exact ⟨k, Nat.le_refl k, hk, fun j hj hlt => absurd hlt (Nat.not_lt.2 hj), Option.some.inj h⟩
      · rw [loop_inl (hgo k hk)] at h
        obtain ⟨m, hm, hstops, hbefore, hout⟩ := ih (k + 1) h
        refine ⟨m, Nat.le_of_succ_le hm, hstops, fun j hj hlt => ?_, hout⟩
        rcases Nat.eq_or_lt_of_le hj with rfl | hj
        · exact hk
        · exact hbefore j hj hlt
  constructor
  · rintro ⟨n, h⟩
    obtain ⟨m, -, hstops, hbefore, hout⟩ := hfirst n 0 h
    exact ⟨m, hstops, fun k hk => hbefore k (Nat.zero_le k) hk, hout⟩
  · rintro ⟨n, hstops, hbefore, rfl⟩
    refine ⟨n + 1, ?_⟩
    rw [loop_steps (fun k hk => hgo k (hbefore k hk)) 1]
    exact loop_inr (hstop n hstops) 0

theorem foldlM_ok {α ε : Type} {f : σ → α → Except ε σ} :
    ∀ {l : List α} {s : σ}, I s → (∀ a ∈ l, ∀ s, I s → ∃ s', f s a = .ok s' ∧ I s') →
      ∃ s', l.foldlM f s = .ok s' ∧ I s'
  | [], s, hs, _ => ⟨s, rfl, hs⟩
  | a :: l, s, hs, h => by
    obtain ⟨s', ha, hs'⟩ := h a (by simp) s hs
    obtain ⟨t, hl, ht⟩ := foldlM_ok hs' (fun b hb => h b (List.mem_cons_of_mem a hb))
    refine ⟨t, ?_, ht⟩
    rw [List.foldlM_cons, ha]
    exact hl

theorem countP_lt {α : Type} {p q : α → Bool} {a : α} : ∀ {l : List α}, (∀ b ∈ l, q b = true → p b = true) → a ∈ l →
    p a = true → q a = false → l.countP q < l.countP p
  | [], _, ha, _, _ => by cases ha
  | b :: l, h, ha, hp, hq => by
    have hmono : l.countP q ≤ l.countP p := List.countP_mono_left (fun c hc => h c (by simp [hc]))
    rcases List.mem_cons.1 ha with rfl | ha
    · rw [List.countP_cons_of_pos hp, List.countP_cons_of_neg (by simp [hq])]
      omega
    · have ih := countP_lt (fun c hc => h c (by simp [hc])) ha hp hq
      have hb := h b (by simp)
      rw [List.countP_cons, List.countP_cons]
      cases hqb : q b with
      | false => simp only [Bool.false_eq_true, if_false]; omega
      | true => rw [hb hqb]; simp only [if_true]; omega

end Loop
