import AmitX.Lib.Prog
/-!
# Preserve — programs that preserve an invariant

`Preserves π I m Q` says that `m`, from a state that looks like one in `I`, ends in such a state however it ends, and that
what it returns satisfies `Q`.  Nothing is said about which errors come or what else the program does, so that the rules
follow the shape of a program and need no assertion between its steps.
-/
namespace Prog

variable {σ ε α β A : Type} {π : View σ A} {I : A → Prop} {Q Q' : α → Prop} {R : β → Prop}

/-- However `m` ends, its end state looks like one in `I`; what it returns satisfies `Q`. -/
def Preserves (π : View σ A) (I : A → Prop) (m : Prog σ ε α) (Q : α → Prop) : Prop :=
  ∀ a, I a → wpAbs π m (fun x a' => Q x ∧ I a') (fun _ a' => I a') a

theorem Preserves.mono {m : Prog σ ε α} (h : Preserves π I m Q) (hQ : ∀ x, Q x → Q' x) : Preserves π I m Q' :=
  fun a ha => wpAbs_mono (h a ha) (fun x _ hx => ⟨hQ x hx.1, hx.2⟩) (fun _ _ he => he)

theorem Preserves.any {m : Prog σ ε α} (h : Preserves π I m Q) : Preserves π I m (fun _ => True) :=
  h.mono (fun _ _ => trivial)

theorem preserves_pure {x : α} (h : Q x) : Preserves π I (pure x : Prog σ ε α) Q := fun _ ha => wpAbs_pure ⟨h, ha⟩

theorem preserves_throw (e : ε) : Preserves π I (throw e : Prog σ ε α) Q := fun _ ha => wpAbs_throw ha

theorem preserves_failIf (c : Prop) [Decidable c] (e : ε) :
    Preserves π I (failIf c e : Prog σ ε Unit) (fun _ => ¬c) := fun _ ha =>
  wpAbs_failIf (fun _ => ha) (fun hc => ⟨hc, ha⟩)

theorem Preserves.bind {m : Prog σ ε β} {f : β → Prog σ ε α} (hm : Preserves π I m R)
    (hf : ∀ b, R b → Preserves π I (f b) Q) : Preserves π I (m >>= f) Q := fun a ha =>
  wpAbs_seq (hm a ha) (fun b a' hb => hf b hb.1 a' hb.2) (fun _ _ he => he)

theorem Preserves.catchWith {m : Prog σ ε α} {k : ε → Prog σ ε α} (hm : Preserves π I m Q)
    (hk : ∀ e, Preserves π I (k e) Q) : Preserves π I (m.catchWith k) Q := fun a ha =>
  wpAbs_catchWith (wpAbs_mono (hm a ha) (fun _ _ h => h) (fun e a' h => hk e a' h))

theorem Preserves.elseDo {m : Prog σ ε β} {h : Prog σ ε α} {k : β → Prog σ ε α} (hm : Preserves π I m R)
    (hh : Preserves π I h Q) (hk : ∀ b, R b → Preserves π I (k b) Q) : Preserves π I (m.elseDo h k) Q := fun a ha =>
  wpAbs_elseDo (wpAbs_mono (hm a ha) (fun b a' hb => hk b hb.1 a' hb.2) (fun _ a' h => hh a' h))

theorem Preserves.orThrow {m : Prog σ ε α} (hm : Preserves π I m Q) (e : ε) : Preserves π I (m.orThrow e) Q :=
  fun a ha => wpAbs_orThrow (hm a ha)

theorem Preserves.attempt {m : Prog σ ε β} (hm : Preserves π I m R) :
    Preserves π I m.attempt (fun r => ∀ b, r = .ok b → R b) := fun a ha =>
  wpAbs_attempt (wpAbs_mono (hm a ha) (fun b _ h => ⟨fun b' hb => (Except.ok.inj hb) ▸ h.1, h.2⟩)
    (fun _ _ h => ⟨fun _ hb => (by cases hb), h⟩))

theorem Preserves.ignore {m : Prog σ ε β} (hm : Preserves π I m R) : Preserves π I m.ignore (fun _ => True) :=
  fun a ha => wpAbs_ignore (wpAbs_mono (hm a ha) (fun _ _ h => ⟨trivial, h.2⟩) (fun _ _ h => ⟨trivial, h⟩))

theorem Preserves.ite {c : Prop} [Decidable c] {m m' : Prog σ ε α} (hm : c → Preserves π I m Q)
    (hm' : ¬c → Preserves π I m' Q) : Preserves π I (if c then m else m') Q := fun a ha =>
  wpAbs_ite (fun hc => hm hc a ha) (fun hc => hm' hc a ha)

theorem Preserves.when {c : Prop} [Decidable c] {m : Prog σ ε Unit} (hm : Preserves π I m (fun _ => True)) :
    Preserves π I (when c m) (fun _ => True) := Preserves.ite (fun _ => hm) (fun _ => preserves_pure trivial)

theorem Preserves.forRange {b : Nat → Prog σ ε Unit} (h : ∀ i, Preserves π I (b i) (fun _ => True)) :
    ∀ n i, Preserves π I (forRange b i n) (fun _ => True)
  | 0, _ => preserves_pure trivial
  | n + 1, i => (h i).bind (fun _ _ => Preserves.forRange h n (i + 1))

theorem Preserves.forEach {b : β → Prog σ ε Unit} : ∀ {l : List β}, (∀ x ∈ l, Preserves π I (b x) (fun _ => True)) →
    Preserves π I (forEach b l) (fun _ => True)
  | [], _ => preserves_pure trivial
  | x :: _, h => (h x List.mem_cons_self).bind (fun _ _ =>
      Preserves.forEach (fun y hy => h y (List.mem_cons_of_mem x hy)))

end Prog
