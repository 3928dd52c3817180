import Mathlib.Tactic.Common
/-!
# Prog — programs over a state that may fail

A program of type `Prog σ ε α` runs from a state of type `σ` and ends with a value of type `α` or an error of type
`ε`.  The state it reached survives an error: nothing is rolled back, as in a C function that returns an error code
after it has written to memory.  `wp` is the weakest precondition with one postcondition for each way to end, and
`Keeps R` says that a program only takes steps of the relation `R`, whichever way it ends.
-/

/-- A program over the state `σ`: a value or an error, and the state reached. -/
def Prog (σ ε α : Type) : Type := σ → Except ε α × σ

namespace Prog

variable {σ τ ε α β : Type}

def bind (m : Prog σ ε α) (f : α → Prog σ ε β) : Prog σ ε β := fun s =>
  match m s with
  | (.ok a, s') => f a s'
  | (.error e, s') => (.error e, s')

instance : Monad (Prog σ ε) where
  pure a := fun s => (.ok a, s)
  bind := Prog.bind

/-- End with the error `e`. -/
def throw (e : ε) : Prog σ ε α := fun s => (.error e, s)

/-- Run `m`, and on an error go on with the handler from the state reached. -/
def catchWith (m : Prog σ ε α) (h : ε → Prog σ ε α) : Prog σ ε α := fun s =>
  match m s with
  | (.ok a, s') => (.ok a, s')
  | (.error e, s') => h e s'

/-- Run `m` and return how it ended, never failing. -/
def attempt (m : Prog σ ε α) : Prog σ ε (Except ε α) := fun s => (.ok (m s).1, (m s).2)

/-- Run `m` and go on with `k`; when `m` fails, do `h` instead of the rest. -/
def elseDo (m : Prog σ ε α) (h : Prog σ ε β) (k : α → Prog σ ε β) : Prog σ ε β := fun s =>
  match m s with
  | (.ok a, s') => k a s'
  | (.error _, s') => h s'

/-- Report every error of `m` as `e`. -/
def orThrow (m : Prog σ ε α) (e : ε) : Prog σ ε α := m.catchWith (fun _ => throw e)

/-- Run `m` for its effect: the caller drops the result and the error. -/
def ignore (m : Prog σ ε α) : Prog σ ε Unit := fun s => (.ok (), (m s).2)

/-- End with the error `e` when `c` holds. -/
def failIf (c : Prop) [Decidable c] (e : ε) : Prog σ ε Unit := if c then throw e else pure ()

/-- Run `m` when `c` holds. -/
def when (c : Prop) [Decidable c] (m : Prog σ ε Unit) : Prog σ ε Unit := if c then m else pure ()

def get : Prog σ ε σ := fun s => (.ok s, s)

def gets (f : σ → α) : Prog σ ε α := fun s => (.ok (f s), s)

def modify (f : σ → σ) : Prog σ ε Unit := fun s => (.ok (), f s)

def zoom (read : σ → τ) (write : τ → σ → σ) (m : Prog τ ε α) : Prog σ ε α := fun s =>
  ((m (read s)).1, write (m (read s)).2 s)

/-- Run `body i`, `body (i + 1)`, and so on, `n` times, stopping at the first error. -/
def forRange (body : Nat → Prog σ ε Unit) : Nat → Nat → Prog σ ε Unit
  | _, 0 => pure ()
  | i, n + 1 => do
    body i
    forRange body (i + 1) n

/-- Run a program for every element of a list in order, stopping at the first error. -/
def forEach (body : α → Prog σ ε Unit) : List α → Prog σ ε Unit
  | [] => pure ()
  | a :: as => do
    body a
    forEach body as

/-! ## Weakest preconditions -/

/-- From `s`, `m` ends with a value and a state in `Q`, or with an error and a state in `E`. -/
def wp (m : Prog σ ε α) (Q : α → σ → Prop) (E : ε → σ → Prop) (s : σ) : Prop :=
  match m s with
  | (.ok a, s') => Q a s'
  | (.error e, s') => E e s'

variable {Q Q' : α → σ → Prop} {E E' : ε → σ → Prop} {s : σ}

theorem wp_iff (m : Prog σ ε α) : wp m Q E s ↔
    (∀ a s', m s = (.ok a, s') → Q a s') ∧ (∀ e s', m s = (.error e, s') → E e s') := by
  unfold wp
  rcases h : m s with ⟨a | a, s'⟩ <;> simp

theorem wp_ok {m : Prog σ ε α} {a : α} {s' : σ} (h : wp m Q E s) (hm : m s = (.ok a, s')) : Q a s' :=
  ((wp_iff m).1 h).1 a s' hm

theorem wp_error {m : Prog σ ε α} {e : ε} {s' : σ} (h : wp m Q E s) (hm : m s = (.error e, s')) : E e s' :=
  ((wp_iff m).1 h).2 e s' hm

theorem wp_mono {m : Prog σ ε α} (h : wp m Q E s) (hQ : ∀ a s', Q a s' → Q' a s') (hE : ∀ e s', E e s' → E' e s') :
    wp m Q' E' s :=
  (wp_iff m).2 ⟨fun a s' hm => hQ a s' (wp_ok h hm), fun e s' hm => hE e s' (wp_error h hm)⟩

theorem wp_and {m : Prog σ ε α} (h : wp m Q E s) (h' : wp m Q' E' s) :
    wp m (fun a s' => Q a s' ∧ Q' a s') (fun e s' => E e s' ∧ E' e s') s :=
  (wp_iff m).2 ⟨fun _ _ hm => ⟨wp_ok h hm, wp_ok h' hm⟩, fun _ _ hm => ⟨wp_error h hm, wp_error h' hm⟩⟩

@[simp] theorem wp_pure (a : α) : wp (pure a : Prog σ ε α) Q E s ↔ Q a s := Iff.rfl

@[simp] theorem wp_throw (e : ε) : wp (throw e : Prog σ ε α) Q E s ↔ E e s := Iff.rfl

@[simp] theorem wp_bind (m : Prog σ ε β) (f : β → Prog σ ε α) :
    wp (m >>= f) Q E s ↔ wp m (fun b s' => wp (f b) Q E s') E s := by
  change wp (Prog.bind m f) Q E s ↔ _
  unfold wp Prog.bind
  rcases m s with ⟨a | a, s'⟩ <;> rfl

@[simp] theorem wp_catchWith (m : Prog σ ε α) (h : ε → Prog σ ε α) :
    wp (m.catchWith h) Q E s ↔ wp m Q (fun e s' => wp (h e) Q E s') s := by
  unfold wp catchWith
  rcases m s with ⟨a | a, s'⟩ <;> rfl

@[simp] theorem wp_attempt (m : Prog σ ε β) {Q : Except ε β → σ → Prop} :
    wp m.attempt Q E s ↔ wp m (fun b s' => Q (.ok b) s') (fun e s' => Q (.error e) s') s := by
  unfold wp attempt
  rcases m s with ⟨a | a, s'⟩ <;> rfl

@[simp] theorem wp_elseDo (m : Prog σ ε α) (h : Prog σ ε β) (k : α → Prog σ ε β) {Q : β → σ → Prop} :
    wp (m.elseDo h k) Q E s ↔ wp m (fun a s' => wp (k a) Q E s') (fun _ s' => wp h Q E s') s := by
  unfold wp elseDo
  rcases m s with ⟨a | a, s'⟩ <;> rfl

@[simp] theorem wp_orThrow (m : Prog σ ε α) (e : ε) :
    wp (m.orThrow e) Q E s ↔ wp m Q (fun _ s' => E e s') s := by
  unfold orThrow
  rw [wp_catchWith]
  rfl

@[simp] theorem wp_ignore (m : Prog σ ε β) {Q : Unit → σ → Prop} :
    wp m.ignore Q E s ↔ wp m (fun _ s' => Q () s') (fun _ s' => Q () s') s := by
  unfold wp ignore
  rcases m s with ⟨a | a, s'⟩ <;> rfl

@[simp] theorem wp_failIf (c : Prop) [Decidable c] (e : ε) {Q : Unit → σ → Prop} :
    wp (failIf c e) Q E s ↔ (c → E e s) ∧ (¬c → Q () s) := by
  unfold failIf
  by_cases h : c <;> simp [h]

@[simp] theorem wp_when (c : Prop) [Decidable c] (m : Prog σ ε Unit) {Q : Unit → σ → Prop} :
    wp (when c m) Q E s ↔ (c → wp m Q E s) ∧ (¬c → Q () s) := by
  unfold when
  by_cases h : c <;> simp [h]

@[simp] theorem wp_get {Q : σ → σ → Prop} : wp (get : Prog σ ε σ) Q E s ↔ Q s s := Iff.rfl

@[simp] theorem wp_gets (f : σ → α) : wp (gets f : Prog σ ε α) Q E s ↔ Q (f s) s := Iff.rfl

@[simp] theorem wp_modify (f : σ → σ) {Q : Unit → σ → Prop} : wp (modify f : Prog σ ε Unit) Q E s ↔ Q () (f s) :=
  Iff.rfl

@[simp] theorem wp_zoom (read : σ → τ) (write : τ → σ → σ) (m : Prog τ ε α) :
    wp (zoom read write m) Q E s ↔ wp m (fun a t => Q a (write t s)) (fun e t => E e (write t s)) (read s) := by
  unfold wp zoom
  rcases m (read s) with ⟨a | a, s'⟩ <;> rfl

/-! A run that does not fail, read through the combinators. -/

theorem bind_of_ok {m : Prog σ ε α} {a : α} {s' : σ} (h : m s = (.ok a, s')) (f : α → Prog σ ε β) :
    (m >>= f) s = f a s' := by
  change Prog.bind m f s = _
  unfold Prog.bind
  rw [h]

theorem get_bind (f : σ → Prog σ ε α) (s : σ) : (get >>= f) s = f s s := rfl

theorem bind_of_error {m : Prog σ ε α} {e : ε} {s' : σ} (h : m s = (.error e, s')) (f : α → Prog σ ε β) :
    (m >>= f) s = (.error e, s') := by
  change Prog.bind m f s = _
  unfold Prog.bind
  rw [h]

theorem ignore_of_run {m : Prog σ ε α} {r : Except ε α} {s' : σ} (h : m s = (r, s')) : m.ignore s = (.ok (), s') := by
  unfold Prog.ignore
  rw [h]

theorem catchWith_of_ok {m : Prog σ ε α} {a : α} {s' : σ} (h : m s = (.ok a, s')) (k : ε → Prog σ ε α) :
    m.catchWith k s = (.ok a, s') := by
  unfold Prog.catchWith
  rw [h]

theorem ok_bind {m : Prog σ ε α} {f : α → Prog σ ε β} {b : β} {s' : σ} (h : (m >>= f) s = (.ok b, s')) :
    ∃ a s₁, m s = (.ok a, s₁) ∧ f a s₁ = (.ok b, s') := by
  rcases hm : m s with ⟨e | a, s₁⟩
  · rw [bind_of_error hm] at h
    cases h
  · exact ⟨a, s₁, rfl, (bind_of_ok hm f).symm.trans h⟩

theorem ok_failIf {c : Prop} [Decidable c] {e : ε} {u : Unit} {s' : σ}
    (h : (failIf c e : Prog σ ε Unit) s = (.ok u, s')) : ¬c ∧ s' = s := by
  unfold failIf at h
  split at h
  · cases h
  · rename_i hc
    cases h
    exact ⟨hc, rfl⟩

theorem ok_catchWith {m : Prog σ ε α} {k : ε → Prog σ ε α} {a : α} {s' : σ} (h : m.catchWith k s = (.ok a, s'))
    (hk : ∀ e s₁, k e s₁ ≠ (.ok a, s')) : m s = (.ok a, s') := by
  unfold Prog.catchWith at h
  rcases hm : m s with ⟨e | b, s₁⟩
  · rw [hm] at h
    exact absurd h (hk e s₁)
  · rw [hm] at h
    exact h

theorem ok_orThrow {m : Prog σ ε α} {e : ε} {a : α} {s' : σ} (h : m.orThrow e s = (.ok a, s')) : m s = (.ok a, s') :=
  ok_catchWith h (fun _ _ ht => by cases ht)

theorem wp_ite (c : Prop) [Decidable c] (m m' : Prog σ ε α) :
    wp (if c then m else m') Q E s ↔ (c → wp m Q E s) ∧ (¬c → wp m' Q E s) := by
  by_cases h : c <;> simp [h]

/-! ## Programs that only take steps of a relation -/

/-- However `m` ends, its end state is related to its start state. -/
def Keeps (R : σ → σ → Prop) (m : Prog σ ε α) : Prop := ∀ s, R s (m s).2

section Closure

variable {R : σ → σ → Prop} (hrefl : ∀ s, R s s)

include hrefl in
theorem Keeps.pure (a : α) : Keeps R (pure a : Prog σ ε α) := fun s => hrefl s

include hrefl in
theorem Keeps.throw (e : ε) : Keeps R (throw e : Prog σ ε α) := fun s => hrefl s

include hrefl in
theorem Keeps.gets (f : σ → α) : Keeps R (gets f : Prog σ ε α) := fun s => hrefl s

include hrefl in
theorem Keeps.failIf (c : Prop) [Decidable c] (e : ε) : Keeps R (failIf c e : Prog σ ε Unit) := by
  unfold Prog.failIf
  split
  · exact Keeps.throw hrefl e
  · exact Keeps.pure hrefl ()

end Closure

theorem Keeps.modify {R : σ → σ → Prop} {f : σ → σ} (h : ∀ s, R s (f s)) : Keeps R (modify f : Prog σ ε Unit) := h

/-! ## Programs that agree where an invariant holds -/

/-- From `s` the two programs end alike, in a state that satisfies `P`. -/
def AgreeAt (P : σ → Prop) (m m' : Prog σ ε α) (s : σ) : Prop := m s = m' s ∧ P (m' s).2

/-- The two programs agree on the states that satisfy `P`, and keep `P`. -/
def Agree (P : σ → Prop) (m m' : Prog σ ε α) : Prop := ∀ s, P s → AgreeAt P m m' s

section Agree

variable {P : σ → Prop}

theorem agree_self {m : Prog σ ε α} (h : Keeps (fun s s' => P s → P s') m) : Agree P m m := fun s hs => ⟨rfl, h s hs⟩

theorem Agree.bind {m m' : Prog σ ε β} {f f' : β → Prog σ ε α} (hm : Agree P m m') (hf : ∀ b, Agree P (f b) (f' b)) :
    Agree P (m >>= f) (m' >>= f') := by
  intro s hs
  obtain ⟨he, hp⟩ := hm s hs
  change Prog.bind m f s = Prog.bind m' f' s ∧ P (Prog.bind m' f' s).2
  unfold Prog.bind
  rw [he]
  rcases h : m' s with ⟨b | e, s'⟩ <;> rw [h] at hp
  · exact ⟨rfl, hp⟩
  · exact hf _ s' hp

theorem Agree.gets_bind {g : σ → β} {f f' : β → Prog σ ε α} (h : ∀ s, P s → AgreeAt P (f (g s)) (f' (g s)) s) :
    Agree P (Prog.gets g >>= f) (Prog.gets g >>= f') := h

theorem Agree.catchWith {m m' : Prog σ ε α} {f f' : ε → Prog σ ε α} (hm : Agree P m m')
    (hf : ∀ e, Agree P (f e) (f' e)) : Agree P (m.catchWith f) (m'.catchWith f') := by
  intro s hs
  obtain ⟨he, hp⟩ := hm s hs
  unfold AgreeAt Prog.catchWith
  rw [he]
  rcases h : m' s with ⟨e | a, s'⟩ <;> rw [h] at hp
  · exact hf _ s' hp
  · exact ⟨rfl, hp⟩

theorem Agree.attempt {m m' : Prog σ ε α} (hm : Agree P m m') : Agree P m.attempt m'.attempt := by
  intro s hs
  obtain ⟨he, hp⟩ := hm s hs
  unfold AgreeAt Prog.attempt
  rw [he]
  exact ⟨rfl, hp⟩

end Agree

/-! ## Programs on a subtype of the states -/

/-- A program that keeps the predicate `I`, run on the states that satisfy it. -/
def restrict {I : σ → Prop} (m : Prog σ ε α) (h : Keeps (fun s s' => I s → I s') m) : Prog {s : σ // I s} ε α :=
  fun s => ((m s.1).1, ⟨(m s.1).2, h s.1 s.2⟩)

theorem wp_restrict {I : σ → Prop} {m : Prog σ ε α} {h : Keeps (fun s s' => I s → I s') m}
    {Q : α → {s : σ // I s} → Prop} {E : ε → {s : σ // I s} → Prop} {s : {s : σ // I s}}
    (hw : wp m (fun a s' => ∀ hs', Q a ⟨s', hs'⟩) (fun e s' => ∀ hs', E e ⟨s', hs'⟩) s.1) : wp (m.restrict h) Q E s := by
  refine (wp_iff _).2 ⟨fun a s' hr => ?_, fun e s' hr => ?_⟩
  · have h1 := congrArg Prod.fst hr
    have h2 := congrArg (fun p => p.2.1) hr
    have hm : m s.1 = (.ok a, s'.1) := Prod.ext h1 h2
    exact wp_ok hw hm s'.2
  · have h1 := congrArg Prod.fst hr
    have h2 := congrArg (fun p => p.2.1) hr
    have hm : m s.1 = (.error e, s'.1) := Prod.ext h1 h2
    exact wp_error hw hm s'.2

/-! ## Weakest preconditions through an abstraction -/

/-- What a proof sees of a state: an abstraction of it, on the states that satisfy an invariant. -/
structure View (σ A : Type) where
  abs : σ → A
  inv : σ → Prop

/-- From every state that looks like `a`, `m` keeps the invariant and ends in a state that looks like one in `Q`, or
fails in a state that looks like one in `E`. -/
def wpAbs {A : Type} (π : View σ A) (m : Prog σ ε α) (Q : α → A → Prop) (E : ε → A → Prop) (a : A) : Prop :=
  ∀ s, π.inv s → π.abs s = a →
    wp m (fun x s' => π.inv s' ∧ Q x (π.abs s')) (fun e s' => π.inv s' ∧ E e (π.abs s')) s

section Abs

variable {A B : Type} {π : View σ A} {P P' : α → A → Prop} {F F' : ε → A → Prop} {a : A}

theorem wpAbs_mono {m : Prog σ ε α} (h : wpAbs π m P F a) (hP : ∀ x a', P x a' → P' x a')
    (hF : ∀ e a', F e a' → F' e a') : wpAbs π m P' F' a := fun s hi ha =>
  wp_mono (h s hi ha) (fun _ _ hx => ⟨hx.1, hP _ _ hx.2⟩) (fun _ _ hx => ⟨hx.1, hF _ _ hx.2⟩)

theorem wpAbs_pure {x : α} (h : P x a) : wpAbs π (pure x : Prog σ ε α) P F a := by
  rintro s hi rfl
  exact ⟨hi, h⟩

theorem wpAbs_throw {e : ε} (h : F e a) : wpAbs π (throw e : Prog σ ε α) P F a := by
  rintro s hi rfl
  exact ⟨hi, h⟩

theorem wpAbs_bind {m : Prog σ ε β} {f : β → Prog σ ε α}
    (h : wpAbs π m (fun b a' => wpAbs π (f b) P F a') F a) : wpAbs π (m >>= f) P F a := fun s hi ha =>
  (wp_bind m f).2 (wp_mono (h s hi ha) (fun _ s' hx => hx.2 s' hx.1 rfl) (fun _ _ hx => hx))

theorem wpAbs_seq {m : Prog σ ε β} {f : β → Prog σ ε α} {R : β → A → Prop} {G : ε → A → Prop} (h : wpAbs π m R G a)
    (hR : ∀ b a', R b a' → wpAbs π (f b) P F a') (hG : ∀ e a', G e a' → F e a') : wpAbs π (m >>= f) P F a :=
  wpAbs_bind (wpAbs_mono h hR hG)

theorem wpAbs_catchWith {m : Prog σ ε α} {k : ε → Prog σ ε α}
    (h : wpAbs π m P (fun e a' => wpAbs π (k e) P F a') a) : wpAbs π (m.catchWith k) P F a := fun s hi ha =>
  (wp_catchWith m k).2 (wp_mono (h s hi ha) (fun _ _ hx => hx) (fun _ s' hx => hx.2 s' hx.1 rfl))

theorem wpAbs_attempt {m : Prog σ ε β} {P : Except ε β → A → Prop}
    (h : wpAbs π m (fun b a' => P (.ok b) a') (fun e a' => P (.error e) a') a) : wpAbs π m.attempt P F a :=
  fun s hi ha => (wp_attempt m).2 (h s hi ha)

theorem wpAbs_elseDo {m : Prog σ ε β} {h : Prog σ ε α} {k : β → Prog σ ε α}
    (hm : wpAbs π m (fun b a' => wpAbs π (k b) P F a') (fun _ a' => wpAbs π h P F a') a) :
    wpAbs π (m.elseDo h k) P F a := fun s hi ha =>
  (wp_elseDo m h k).2 (wp_mono (hm s hi ha) (fun _ s' hx => hx.2 s' hx.1 rfl) (fun _ s' hx => hx.2 s' hx.1 rfl))

theorem wpAbs_orThrow {m : Prog σ ε α} {e : ε} (h : wpAbs π m P (fun _ a' => F e a') a) :
    wpAbs π (m.orThrow e) P F a := fun s hi ha => (wp_orThrow m e).2 (h s hi ha)

theorem wpAbs_ignore {m : Prog σ ε β} {P : Unit → A → Prop}
    (h : wpAbs π m (fun _ a' => P () a') (fun _ a' => P () a') a) : wpAbs π m.ignore P F a :=
  fun s hi ha => (wp_ignore m).2 (h s hi ha)

theorem wpAbs_failIf {c : Prop} [Decidable c] {e : ε} {P : Unit → A → Prop} (h : c → F e a) (h' : ¬c → P () a) :
    wpAbs π (failIf c e) P F a := by
  rintro s hi rfl
  exact (wp_failIf c e).2 ⟨fun hc => ⟨hi, h hc⟩, fun hc => ⟨hi, h' hc⟩⟩

theorem wpAbs_ite {c : Prop} [Decidable c] {m m' : Prog σ ε α} (h : c → wpAbs π m P F a)
    (h' : ¬c → wpAbs π m' P F a) : wpAbs π (if c then m else m') P F a := by
  by_cases hc : c
  · rw [if_pos hc]
    exact h hc
  · rw [if_neg hc]
    exact h' hc

theorem wpAbs_when {c : Prop} [Decidable c] {m : Prog σ ε Unit} {P : Unit → A → Prop} (h : c → wpAbs π m P F a)
    (h' : ¬c → P () a) : wpAbs π (when c m) P F a :=
  wpAbs_ite h (fun hc => wpAbs_pure (h' hc))

theorem wpAbs_and {m : Prog σ ε α} (h : wpAbs π m P F a) (h' : wpAbs π m P' F' a) :
    wpAbs π m (fun x a' => P x a' ∧ P' x a') (fun e a' => F e a' ∧ F' e a') a := fun s hi ha =>
  wp_mono (wp_and (h s hi ha) (h' s hi ha)) (fun _ _ hx => ⟨hx.1.1, hx.1.2, hx.2.2⟩)
    (fun _ _ hx => ⟨hx.1.1, hx.1.2, hx.2.2⟩)

theorem wpAbs_forRange {b : Nat → Prog σ ε Unit} {I : Nat → A → Prop} : ∀ (n i : Nat) {a : A}, I i a →
    (∀ j a', i ≤ j → j < i + n → I j a' → wpAbs π (b j) (fun _ a'' => I (j + 1) a'') F a') →
    wpAbs π (forRange b i n) (fun _ a' => I (i + n) a') F a
  | 0, _, _, hI, _ => wpAbs_pure hI
  | n + 1, i, a, hI, hbody => by
    rw [forRange]
    refine wpAbs_seq (hbody i a (Nat.le_refl i) (by omega) hI) (fun _ a' h => ?_) (fun _ _ h => h)
    have := wpAbs_forRange n (i + 1) h (fun j a'' hj hj' h' => hbody j a'' (by omega) (by omega) h')
    rwa [show i + 1 + n = i + (n + 1) by omega] at this

end Abs

/-- However `m` ends, its end state looks related to its start state. -/
def AbsKeeps {A : Type} (π : View σ A) (R : A → A → Prop) (m : Prog σ ε α) : Prop :=
  ∀ a, wpAbs π m (fun _ a' => R a a') (fun _ a' => R a a') a

section AbsClosure

variable {A : Type} {π : View σ A} {R : A → A → Prop} (hrefl : ∀ a, R a a)
  (htrans : ∀ a a' a'', R a a' → R a' a'' → R a a'')

include hrefl in
theorem AbsKeeps.pure (a : α) : AbsKeeps π R (pure a : Prog σ ε α) := fun s => wpAbs_pure (hrefl s)

include hrefl in
theorem AbsKeeps.failIf (c : Prop) [Decidable c] (e : ε) : AbsKeeps π R (failIf c e : Prog σ ε Unit) := fun s =>
  wpAbs_failIf (fun _ => hrefl s) (fun _ => hrefl s)

include htrans in
theorem AbsKeeps.bind {m : Prog σ ε β} {f : β → Prog σ ε α} (hm : AbsKeeps π R m) (hf : ∀ b, AbsKeeps π R (f b)) :
    AbsKeeps π R (m >>= f) := fun a =>
  wpAbs_seq (hm a) (fun b a' h => wpAbs_mono (hf b a') (fun _ _ h' => htrans _ _ _ h h')
    (fun _ _ h' => htrans _ _ _ h h')) (fun _ _ h => h)

theorem AbsKeeps.attempt {m : Prog σ ε α} (hm : AbsKeeps π R m) : AbsKeeps π R m.attempt := fun a =>
  wpAbs_attempt (hm a)

theorem AbsKeeps.orThrow {m : Prog σ ε α} (hm : AbsKeeps π R m) (e : ε) : AbsKeeps π R (m.orThrow e) := fun a =>
  wpAbs_orThrow (hm a)

theorem AbsKeeps.ite {c : Prop} [Decidable c] {m m' : Prog σ ε α} (hm : AbsKeeps π R m) (hm' : AbsKeeps π R m') :
    AbsKeeps π R (if c then m else m') := fun a => wpAbs_ite (fun _ => hm a) (fun _ => hm' a)

include hrefl in
theorem AbsKeeps.when {c : Prop} [Decidable c] {m : Prog σ ε Unit} (hm : AbsKeeps π R m) :
    AbsKeeps π R (when c m) := AbsKeeps.ite hm (AbsKeeps.pure hrefl ())

end AbsClosure

end Prog
