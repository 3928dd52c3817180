import Mathlib.Tactic.Common
/-!
# TwoRun — two runs of fallible code side by side

`Both R` says that two computations succeed together, with results that `R` relates, or fail together.
-/

namespace TwoRun

variable {ε ε' α β γ δ : Type}

def Both (R : α → β → Prop) : Except ε α → Except ε' β → Prop
  | .ok a, .ok b => R a b
  | .error _, .error _ => True
  | _, _ => False

theorem both_ok {R : α → β → Prop} {a : α} {b : β} (h : R a b) :
    Both R (.ok a : Except ε α) (.ok b : Except ε' β) := h

theorem both_error {R : α → β → Prop} (e : ε) (e' : ε') :
    Both R (.error e : Except ε α) (.error e' : Except ε' β) := trivial

theorem Both.bind {R : α → β → Prop} {S : γ → δ → Prop} {x : Except ε α} {y : Except ε' β} {f : α → Except ε γ}
    {g : β → Except ε' δ} (h : Both R x y) (hf : ∀ a b, R a b → Both S (f a) (g b)) : Both S (x >>= f) (y >>= g) := by
  cases x with
  | error e =>
    cases y with
    | error e' => exact trivial
    | ok b => exact h.elim
  | ok a =>
    cases y with
    | error e' => exact h.elim
    | ok b => exact hf a b h

theorem both_same {S : γ → δ → Prop} {x : Except ε α} {f : α → Except ε γ} {g : α → Except ε δ}
    (hf : ∀ a, x = .ok a → Both S (f a) (g a)) : Both S (x >>= f) (x >>= g) := by
  cases x with
  | error e => exact trivial
  | ok a => exact hf a rfl

theorem both_foldlM {R : α → β → Prop} {f : α → γ → Except ε α} {g : β → γ → Except ε' β} : ∀ {l : List γ} {a : α} {b : β},
    (∀ c ∈ l, ∀ a b, R a b → Both R (f a c) (g b c)) → R a b → Both R (l.foldlM f a) (l.foldlM g b)
  | [], _, _, _, h0 => h0
  | c :: l, a, b, hstep, h0 => by
    rw [List.foldlM_cons, List.foldlM_cons]
    exact (hstep c List.mem_cons_self a b h0).bind
      (fun a b hab => both_foldlM (fun d hd => hstep d (List.mem_cons_of_mem c hd)) hab)

theorem both_range {R : Nat → α → β → Prop} {f : α → Nat → Except ε α} {g : β → Nat → Except ε' β} {a : α} {b : β} :
    ∀ {n : Nat}, (∀ i < n, ∀ a b, R i a b → Both (R (i + 1)) (f a i) (g b i)) → R 0 a b →
      Both (R n) ((List.range n).foldlM f a) ((List.range n).foldlM g b)
  | 0, _, h0 => h0
  | n + 1, hstep, h0 => by
    rw [List.range_succ, List.foldlM_append, List.foldlM_append]
    refine (both_range (fun i hi => hstep i (Nat.lt_succ_of_lt hi)) h0).bind (fun a b hab => ?_)
    rw [List.foldlM_cons, List.foldlM_cons]
    exact (hstep n (Nat.lt_succ_self n) a b hab).bind (fun _ _ h => h)

end TwoRun
