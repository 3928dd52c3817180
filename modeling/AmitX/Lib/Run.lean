import Mathlib.Tactic.Common
import Mathlib.Data.List.Induction
/-!
# Run — runs of a machine, call by call

A machine takes a call in a state to an event, which is what the caller sees of it, and the next state.  `run` is a
sequence of calls, `Allowed` says that every call meets a condition on the events and the state before it, and
`run_keeps` is the invariant rule: an invariant of the events so far and the state holds after any allowed run.
-/

namespace Run

variable {σ C E : Type}

def run (step : σ → C → E × σ) : σ → List C → List E × σ
  | s, [] => ([], s)
  | s, c :: cs => ((step s c).1 :: (run step (step s c).2 cs).1, (run step (step s c).2 cs).2)

variable {step : σ → C → E × σ}

theorem run_append : ∀ (s : σ) (cs ds : List C), run step s (cs ++ ds) =
    ((run step s cs).1 ++ (run step (run step s cs).2 ds).1, (run step (run step s cs).2 ds).2)
  | _, [], _ => rfl
  | s, c :: cs, ds => by
    rw [List.cons_append, run, run, run_append (step s c).2 cs ds]
    rfl

theorem run_concat (s : σ) (cs : List C) (c : C) : run step s (cs ++ [c]) =
    ((run step s cs).1 ++ [(step (run step s cs).2 c).1], (step (run step s cs).2 c).2) :=
  run_append s cs [c]

/-- Every call meets the condition `A` on the events and the state before it. -/
def Allowed (step : σ → C → E × σ) (A : List E → σ → C → Prop) (s : σ) (cs : List C) : Prop :=
  ∀ before c after, cs = before ++ c :: after → A (run step s before).1 (run step s before).2 c

theorem Allowed.left {A : List E → σ → C → Prop} {s : σ} {cs ds : List C} (h : Allowed step A s (cs ++ ds)) :
    Allowed step A s cs := by
  rintro before c after rfl
  exact h before c (after ++ ds) (by simp)

theorem Allowed.last {A : List E → σ → C → Prop} {s : σ} {cs ds : List C} {c : C}
    (h : Allowed step A s (cs ++ c :: ds)) : A (run step s cs).1 (run step s cs).2 c :=
  h cs c ds rfl

theorem allowed_of_forall {A : List E → σ → C → Prop} {B : C → Prop} {cs : List C} (h : ∀ c ∈ cs, B c)
    (hA : ∀ es s c, B c → A es s c) (s : σ) : Allowed step A s cs := by
  rintro before c after rfl
  exact hA _ _ c (h c (by simp))

theorem allowed_nil {A : List E → σ → C → Prop} (s : σ) : Allowed step A s [] := by
  intro before c after h
  cases before <;> cases h

theorem allowed_of_get {B : σ → C → Prop} {s : σ} {cs : List C}
    (h : ∀ k, ∀ c ∈ cs[k]?, B (run step s (cs.take k)).2 c) : Allowed step (fun _ => B) s cs := by
  rintro before c after rfl
  have hc := h before.length c (by simp)
  rwa [List.take_left'] at hc
  rfl

theorem allowed_cons {B : σ → C → Prop} {s : σ} {c : C} {cs : List C} :
    Allowed step (fun _ => B) s (c :: cs) ↔ B s c ∧ Allowed step (fun _ => B) (step s c).2 cs := by
  constructor
  · intro h
    refine ⟨h [] c cs rfl, ?_⟩
    rintro before d after rfl
    exact h (c :: before) d after rfl
  · rintro ⟨hc, h⟩ before d after he
    cases before with
    | nil =>
      injection he with hd
      subst hd
      exact hc
    | cons b before =>
      injection he with hb he
      subst hb
      exact h before d after he

theorem allowed_concat {B : σ → C → Prop} {s : σ} {cs : List C} {c : C} :
    Allowed step (fun _ => B) s (cs ++ [c]) ↔ Allowed step (fun _ => B) s cs ∧ B (run step s cs).2 c := by
  refine ⟨fun h => ⟨h.left, h.last⟩, ?_⟩
  rintro ⟨hcs, hc⟩ before d after he
  rcases List.eq_nil_or_concat after with rfl | ⟨after', x, rfl⟩
  · obtain ⟨rfl, hd⟩ := List.append_inj' he rfl
    injection hd with hd
    subst hd
    exact hc
  · have he' : cs ++ [c] = (before ++ d :: after') ++ [x] := by simpa using he
    obtain ⟨rfl, -⟩ := List.append_inj' he' rfl
    exact hcs before d after' rfl

instance decidableAllowed {B : σ → C → Prop} [∀ s c, Decidable (B s c)] :
    ∀ (s : σ) (cs : List C), Decidable (Allowed step (fun _ => B) s cs)
  | s, [] => isTrue (allowed_nil s)
  | s, c :: cs =>
    have := decidableAllowed (B := B) (step s c).2 cs
    decidable_of_iff (B s c ∧ Allowed step (fun _ => B) (step s c).2 cs) allowed_cons.symm

theorem run_keeps {A : List E → σ → C → Prop} {I : List E → σ → Prop}
    (hstep : ∀ es s c, I es s → A es s c → I (es ++ [(step s c).1]) (step s c).2) {s : σ} (h0 : I [] s) (cs : List C)
    (hA : Allowed step A s cs) : I (run step s cs).1 (run step s cs).2 := by
  induction cs using List.reverseRecOn with
  | nil => exact h0
  | append_singleton cs c ih =>
    rw [run_concat]
    exact hstep _ _ c (ih hA.left) hA.last

end Run
