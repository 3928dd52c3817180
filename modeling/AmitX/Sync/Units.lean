import AmitX.Sync.MutexRun
/-!
# Units — the units of a semaphore

A semaphore is a counter that is never above its maximum: a signal adds to it and stops at the maximum, a wait that
succeeds takes from it.  `sem_signal` adds in 32 bits before it compares, so a large signal can lower the counter.
-/
namespace AmitX
namespace Sync

open Sched Links Run

inductive UnitChange
  | kept
  | signaled (units : Nat)
  | taken (units : Nat)

def UnitChange.Does (x x' : Semaphore) : UnitChange → Prop
  | .kept => x' = x
  | .signaled n => x'.maxUnits = x.maxUnits ∧ x'.units = min x.maxUnits (x.units + n)
  | .taken n => x'.maxUnits = x.maxUnits ∧ x'.units + n = x.units

def ObjectCall.asks (self : Ptr) (s : Objects) : ObjectCall → Option (SemPtr × Nat)
  | .trywait sem units => some (sem, units)
  | .wait sem units _ => some (sem, units)
  | .resume =>
    match s.inside self with
    | some (.semWait sem units _) => some (sem, units)
    | _ => none
  | _ => none

/-- A signal adds to its semaphore, and a wait that has succeeded has taken what it asked for. -/
def ObjectCall.change (self : Ptr) (s : Objects) (x : SemPtr) (c : ObjectCall) : UnitChange :=
  match c with
  | .signal sem units => if sem = x then .signaled units else .kept
  | c =>
    match (c.run self s).1, c.asks self s with
    | .acquired _, some (sem, units) => if sem = x then .taken units else .kept
    | _, _ => .kept

def SyncCall.change (s : Objects) (x : SemPtr) : SyncCall → UnitChange
  | .call c =>
    match s.tasks.currentTask with
    | none => .kept
    | some self => c.change self s x
  | _ => .kept

/-- **The units are conserved** in a step: each semaphore changes by what is signaled or taken, up to its maximum. -/
structure SyncCall.Conserves (s : Objects) (c : SyncCall) : Prop where
  bound : ∀ x, ((c.run s).2.sem x).units ≤ ((c.run s).2.sem x).maxUnits
  change : ∀ x, (c.change s x).Does (s.sem x) ((c.run s).2.sem x)

/-- The argument of `sem_signal` is a `ULONG`. -/
def SyncCall.IsUlong : SyncCall → Prop
  | .call (.signal _ units) => units < 2 ^ 32
  | _ => True

/-- The sum in `sem_signal` does not wrap. -/
def SyncCall.SumFits (s : Objects) : SyncCall → Prop
  | .call (.signal sem units) => (s.sem sem).units + units < 2 ^ 32
  | _ => True

/-- No semaphore is above its maximum, which is a `ULONG`. -/
def UnitsOk (sem : SemPtr → Semaphore) : Prop := ∀ x, (sem x).units ≤ (sem x).maxUnits ∧ (sem x).maxUnits < 2 ^ 32

section

variable {s : Objects} {sem x : SemPtr} {t self : Ptr} {n units : Nat}

/-! ## Addition in 32 bits -/

theorem addU32_le (a b : Nat) : addU32 a b ≤ a + b := Nat.mod_le _ _

theorem addU32_lt_of_wrap {a b : Nat} (hb : b < 2 ^ 32) (ha : a < 2 ^ 32) (h : 2 ^ 32 ≤ a + b) : addU32 a b < a := by
  unfold addU32
  rw [Nat.mod_eq_sub_mod h, Nat.mod_eq_of_lt (by omega)]
  omega

theorem min_addU32_iff {a b max : Nat} (ha : a ≤ max) (hmax : max < 2 ^ 32) (hb : b < 2 ^ 32) :
    min (addU32 a b) max = min max (a + b) ↔ a + b < 2 ^ 32 := by
  constructor
  · intro h
    by_contra hwrap
    have hlt := addU32_lt_of_wrap hb (by omega) (Nat.le_of_not_lt hwrap)
    omega
  · intro h
    rw [show addU32 a b = a + b from Nat.mod_eq_of_lt h, Nat.min_comm]

/-! ## What the calls do to the semaphores -/

theorem boostOwner_sem (m : MutexPtr) (t : Ptr) (s : Objects) : (boostOwner m t s).sem = s.sem := by
  unfold boostOwner
  split
  · rfl
  · split <;> rfl

theorem unboostOwner_sem (m : MutexPtr) (s : Objects) : (unboostOwner m s).sem = s.sem := by
  unfold unboostOwner
  split
  · rfl
  · split <;> rfl

theorem mutexTrylock_sem (m : MutexPtr) (t : Ptr) (s : Objects) : (mutexTrylock m t s).2.sem = s.sem := by
  unfold mutexTrylock
  simp only
  split <;> rfl

theorem mutexLock_sem (m : MutexPtr) (timeoutMs : Nat) (t : Ptr) (s : Objects) :
    (mutexLock m timeoutMs t s).2.sem = s.sem ∧ ∀ x, (mutexLock m timeoutMs t s).1 ≠ .acquired x := by
  unfold mutexLock
  simp only
  split
  · exact ⟨boostOwner_sem m t _, fun _ h => by cases h⟩
  · exact ⟨rfl, fun _ h => by cases h⟩

theorem mutexUnlock_sem (m : MutexPtr) (s : Objects) : (mutexUnlock m s).2.sem = s.sem :=
  unboostOwner_sem m (spinlockAcquire (mutexQueue m) s)

/-- A call that asks for units takes them, or leaves the semaphores alone. -/
structure Asks (sem : SemPtr) (n : Nat) (s : Objects) (r : Outcome × Objects) : Prop where
  took : ∀ x, r.1 = .acquired x → n ≤ (s.sem sem).units ∧ r.2.sem = (takeUnits sem n s).sem
  other : (∀ x, r.1 ≠ .acquired x) → r.2.sem = s.sem

theorem asks_semTrywait (sem : SemPtr) (n : Nat) (s : Objects) : Asks sem n s (semTrywait sem n s) := by
  unfold semTrywait
  simp only
  split
  · rename_i hn
    exact ⟨fun _ _ => ⟨hn, rfl⟩, fun h => absurd rfl (h sem)⟩
  · exact ⟨fun _ h => by (cases h), fun _ => rfl⟩

theorem asks_semWait (sem : SemPtr) (n timeoutMs : Nat) (t : Ptr) (s : Objects) :
    Asks sem n s (semWait sem n timeoutMs t s) := by
  unfold semWait
  simp only
  split
  · rename_i hn
    exact ⟨fun _ _ => ⟨hn, rfl⟩, fun h => absurd rfl (h sem)⟩
  · exact ⟨fun _ h => by (cases h), fun _ => rfl⟩

theorem Asks.does {r : Outcome × Objects} (h : Asks sem n s r) (x : SemPtr) : UnitChange.Does (s.sem x) (r.2.sem x)
    (match r.1, some (sem, n) with
      | .acquired _, some (y, k) => if y = x then .taken k else .kept
      | _, _ => .kept) := by
  obtain ⟨o, s'⟩ := r
  cases o with
  | acquired y =>
    obtain ⟨hn, hs⟩ := h.took y rfl
    simp only at hs ⊢
    rw [hs]
    by_cases hx : sem = x
    · subst hx
      rw [if_pos rfl]
      have hself : (takeUnits sem n s).sem sem = { s.sem sem with units := (s.sem sem).units - n } :=
        Function.update_self _ _ _
      rw [hself]
      exact ⟨rfl, Nat.sub_add_cancel hn⟩
    · rw [if_neg hx]
      exact Function.update_of_ne (fun he => hx he.symm) _ _
  | _ => exact congrFun (h.other (fun _ hc => by cases hc)) x

theorem does_kept {c : ObjectCall} (hc : ∀ y k, c ≠ .signal y k) (ha : c.asks self s = none)
    (hs : (c.run self s).2.sem = s.sem) (x : SemPtr) :
    (c.change self s x).Does (s.sem x) ((c.run self s).2.sem x) := by
  have hk : c.change self s x = .kept := by
    unfold ObjectCall.change
    split
    · exact absurd rfl (hc _ _)
    · rw [ha]
      cases (c.run self s).1 <;> rfl
  rw [hk, hs]
  rfl

theorem resume_does (self : Ptr) (s : Objects) (x : SemPtr) :
    (ObjectCall.resume.change self s x).Does (s.sem x) ((Sync.resume self s).2.sem x) := by
  cases hw : s.inside self with
  | none =>
    refine does_kept (fun _ _ h => by cases h) (by simp only [ObjectCall.asks, hw]) ?_ x
    simp only [ObjectCall.run, Sync.resume, hw]
  | some w =>
    cases w with
    | mutexLock m timeoutMs =>
      refine does_kept (fun _ _ h => by cases h) (by simp only [ObjectCall.asks, hw]) ?_ x
      simp only [ObjectCall.run, Sync.resume, hw]
      split
      · rfl
      · exact (mutexLock_sem m timeoutMs self _).1
    | semWait sem units timeoutMs =>
      have hasks : Asks sem units s (Sync.resume self s) := by
        simp only [Sync.resume, hw]
        split
        · exact ⟨fun _ h => by (cases h), fun _ => rfl⟩
        · exact ⟨(asks_semWait sem units timeoutMs self _).took, (asks_semWait sem units timeoutMs self _).other⟩
      have h := hasks.does x
      unfold ObjectCall.change
      simp only [ObjectCall.run, ObjectCall.asks, hw]
      exact h

theorem semSignal_sem (sem : SemPtr) (n : Nat) (s : Objects) : (semSignal sem n s).2.sem = (addUnits sem n s).sem := rfl

theorem addUnits_self (sem : SemPtr) (n : Nat) (s : Objects) : (addUnits sem n s).sem sem =
    { (s.sem sem) with units := min (addU32 (s.sem sem).units n) (s.sem sem).maxUnits } := Function.update_self _ _ _

theorem addUnits_of_ne (h : x ≠ sem) (n : Nat) (s : Objects) : (addUnits sem n s).sem x = s.sem x :=
  Function.update_of_ne h _ _

theorem semSignal_does_iff (hok : UnitsOk s.sem) (hn : n < 2 ^ 32) :
    (∀ x, ((ObjectCall.signal sem n).change self s x).Does (s.sem x) ((semSignal sem n s).2.sem x)) ↔
      (s.sem sem).units + n < 2 ^ 32 := by
  have hiff := min_addU32_iff (hok sem).1 (hok sem).2 hn
  have hself : (ObjectCall.signal sem n).change self s sem = .signaled n := if_pos rfl
  constructor
  · intro h
    have h := h sem
    rw [hself, semSignal_sem, addUnits_self] at h
    exact hiff.1 h.2
  · intro hfit x
    by_cases hx : x = sem
    · rw [hx, hself, semSignal_sem, addUnits_self]
      exact ⟨rfl, hiff.2 hfit⟩
    · have hk : (ObjectCall.signal sem n).change self s x = .kept := if_neg (fun he => hx he.symm)
      rw [hk, semSignal_sem, addUnits_of_ne hx]
      rfl

/-! ## One step -/

theorem call_does {c : ObjectCall} (hc : ∀ y k, c ≠ .signal y k) (self : Ptr) (s : Objects) (x : SemPtr) :
    (c.change self s x).Does (s.sem x) ((c.run self s).2.sem x) := by
  cases c with
  | trylock m => exact does_kept hc rfl (mutexTrylock_sem m self s) x
  | lock m timeoutMs => exact does_kept hc rfl (mutexLock_sem m timeoutMs self s).1 x
  | unlock m => exact does_kept hc rfl (mutexUnlock_sem m s) x
  | trywait sem n => exact (asks_semTrywait sem n s).does x
  | wait sem n timeoutMs => exact (asks_semWait sem n timeoutMs self s).does x
  | signal sem n => exact absurd rfl (hc sem n)
  | resume => exact resume_does self s x

theorem does_bound {ch : UnitChange} {y y' : Semaphore} (h : ch.Does y y') (hok : y.units ≤ y.maxUnits) :
    y'.units ≤ y'.maxUnits ∧ y'.maxUnits = y.maxUnits := by
  cases ch with
  | kept =>
    rw [show y' = y from h]
    exact ⟨hok, rfl⟩
  | signaled n =>
    obtain ⟨hm, hu⟩ := h
    rw [hm, hu]
    exact ⟨Nat.min_le_left _ _, rfl⟩
  | taken n =>
    obtain ⟨hm, hu⟩ := h
    rw [hm]
    exact ⟨by omega, rfl⟩

theorem UnitsOk.semSignal (h : UnitsOk s.sem) (sem : SemPtr) (n : Nat) : UnitsOk (semSignal sem n s).2.sem := by
  intro x
  rw [semSignal_sem]
  by_cases hx : x = sem
  · rw [hx, addUnits_self]
    exact ⟨Nat.min_le_right _ _, (h sem).2⟩
  · rw [addUnits_of_ne hx]
    exact h x

theorem UnitsOk.run (h : UnitsOk s.sem) (c : SyncCall) : UnitsOk (c.run s).2.sem := by
  cases c with
  | call c =>
    cases hcur : s.tasks.currentTask with
    | none =>
      simp only [SyncCall.run, hcur]
      exact h
    | some self =>
      simp only [SyncCall.run, hcur]
      by_cases hc : ∀ y k, c ≠ .signal y k
      · intro x
        have hb := does_bound (call_does hc self s x) (h x).1
        exact ⟨hb.1, hb.2 ▸ (h x).2⟩
      · push Not at hc
        obtain ⟨y, k, rfl⟩ := hc
        exact h.semSignal y k
  | _ => exact h

theorem conserves_iff {c : SyncCall} (h : UnitsOk s.sem) (hv : c.Valid s) (hu : c.IsUlong) :
    c.Conserves s ↔ c.SumFits s := by
  have hb : ∀ x, ((c.run s).2.sem x).units ≤ ((c.run s).2.sem x).maxUnits := fun x => (h.run c x).1
  refine Iff.trans ⟨fun hc => hc.change, fun hc => ⟨hb, hc⟩⟩ ?_
  cases c with
  | call c =>
    obtain ⟨self, hcur, -, -⟩ := hv
    have hch : ∀ x, (SyncCall.call c).change s x = c.change self s x := fun x => by
      simp only [SyncCall.change, hcur]
    have hrun : ((SyncCall.call c).run s).2 = (c.run self s).2 := by
      simp only [SyncCall.run, hcur]
    simp only [hch, hrun]
    cases c with
    | signal sem n => exact semSignal_does_iff h hu
    | _ => exact iff_of_true (call_does (fun _ _ he => by cases he) self s) trivial
  | _ => exact iff_of_true (fun _ => rfl) trivial

/-! ## Runs -/

theorem unitsOk_run {sem : SemPtr → Semaphore} (hsem : UnitsOk sem) (memory : Tasks) (cs : List SyncCall) :
    UnitsOk (run syncStep (bootObjects memory sem) cs).2.sem :=
  run_keeps (I := fun _ s => UnitsOk s.sem) (A := fun _ _ _ => True)
    (fun _ s c h _ => show UnitsOk (syncStep s c).2.sem from h.run c) hsem cs (fun _ _ _ _ => trivial)

/-- **Units are conserved.** In a run from the initial objects every step changes each semaphore by exactly what is
signaled or taken, if and only if no signal makes a sum of 2^32 or more. -/
theorem units_conserved_iff (memory : Tasks) (sem : SemPtr → Semaphore) (cs : List SyncCall) (hsem : UnitsOk sem)
    (hA : Allowed syncStep (fun _ s c => c.Valid s ∧ c.IsUlong) (bootObjects memory sem) cs) :
    Allowed syncStep (fun _ s c => c.Conserves s) (bootObjects memory sem) cs ↔
      Allowed syncStep (fun _ s c => c.SumFits s) (bootObjects memory sem) cs := by
  have hstep : ∀ before c after, cs = before ++ c :: after →
      (c.Conserves (run syncStep (bootObjects memory sem) before).2 ↔
        c.SumFits (run syncStep (bootObjects memory sem) before).2) := fun before c after he =>
    conserves_iff (unitsOk_run hsem memory before) (hA before c after he).1 (hA before c after he).2
  exact ⟨fun h before c after he => (hstep before c after he).1 (h before c after he),
    fun h before c after he => (hstep before c after he).2 (h before c after he)⟩

def signalTwice : List SyncCall := [.create (some 1) true 8, .dispatch 1, .call (.signal 0 5), .call (.wait 0 2 0)]

theorem units_conserved_signalTwice :
    Allowed syncStep (fun _ s c => c.Conserves s) (bootObjects zeroTasks fun _ => ⟨1, 2⟩) signalTwice := by
  refine (units_conserved_iff zeroTasks (fun _ => ⟨1, 2⟩) signalTwice
    (fun _ => ⟨(by decide : 1 ≤ 2), (by decide : 2 < 2 ^ 32)⟩) ?_).2 ?_
  · refine allowed_cons.2 ⟨⟨fresh_some (by decide +kernel), trivial⟩, ?_⟩
    refine allowed_cons.2 ⟨⟨⟨(by decide +kernel : Tasks.Live _ 1), by decide +kernel⟩, trivial⟩, ?_⟩
    refine allowed_cons.2 ⟨⟨⟨1, by decide, by decide, by decide⟩, ?_⟩, ?_⟩
    · exact (by decide : 5 < 2 ^ 32)
    · exact allowed_cons.2 ⟨⟨⟨1, by decide, by decide, by decide⟩, trivial⟩, allowed_nil _⟩
  · refine allowed_cons.2 ⟨trivial, allowed_cons.2 ⟨trivial, allowed_cons.2 ⟨?_, allowed_cons.2 ⟨trivial, allowed_nil _⟩⟩⟩⟩
    change Semaphore.units _ + 5 < 2 ^ 32
    decide

/-- **One unit and 2^32 - 1 more are none.** -/
theorem not_units_conserved : ¬∀ (memory : Tasks) (sem : SemPtr → Semaphore) (cs : List SyncCall), UnitsOk sem →
    Allowed syncStep (fun _ s c => c.Valid s ∧ c.IsUlong) (bootObjects memory sem) cs →
      Allowed syncStep (fun _ s c => c.Conserves s) (bootObjects memory sem) cs := by
  intro hall
  have hA : Allowed syncStep (fun _ s c => c.Valid s ∧ c.IsUlong) (bootObjects zeroTasks fun _ => ⟨1, 0xFFFFFFFF⟩)
      [.create (some 1) true 8, .dispatch 1, .call (.signal 0 0xFFFFFFFF)] := by
    refine allowed_cons.2 ⟨⟨fresh_some (by decide +kernel), trivial⟩, ?_⟩
    refine allowed_cons.2 ⟨⟨⟨(by decide +kernel : Tasks.Live _ 1), by decide +kernel⟩, trivial⟩, ?_⟩
    refine allowed_cons.2 ⟨⟨⟨1, by decide, by decide, by decide⟩, ?_⟩, allowed_nil _⟩
    exact (by decide : 0xFFFFFFFF < 2 ^ 32)
  have hc := hall zeroTasks (fun _ => ⟨1, 0xFFFFFFFF⟩) _
    (fun _ => ⟨(by decide : 1 ≤ 0xFFFFFFFF), (by decide : 0xFFFFFFFF < 2 ^ 32)⟩) hA
    [.create (some 1) true 8, .dispatch 1] (.call (.signal 0 0xFFFFFFFF)) [] rfl
  exact absurd (hc.change 0).2 (by decide)

/-! ## What is taken was signaled -/

structure Ledger where
  signaled : Nat
  taken : Nat

def Ledger.record (l : Ledger) : UnitChange → Ledger
  | .kept => l
  | .signaled n => { l with signaled := l.signaled + n }
  | .taken n => { l with taken := l.taken + n }

def ledger (x : SemPtr) : Objects → List SyncCall → Ledger → Ledger
  | _, [], l => l
  | s, c :: cs, l => ledger x (c.run s).2 cs (l.record (c.change s x))

theorem record_balance {l : Ledger} {c : SyncCall} {b : Nat} (h : (s.sem x).units + l.taken ≤ b + l.signaled) :
    ((c.run s).2.sem x).units + (l.record (c.change s x)).taken ≤ b + (l.record (c.change s x)).signaled := by
  have hdoes : ∀ {ch : UnitChange} {y' : Semaphore}, ch.Does (s.sem x) y' →
      y'.units + (l.record ch).taken ≤ b + (l.record ch).signaled := by
    intro ch y' hd
    cases ch with
    | kept =>
      rw [show y' = s.sem x from hd]
      exact h
    | signaled n =>
      have := Nat.min_le_right (s.sem x).maxUnits ((s.sem x).units + n)
      rw [hd.2]
      simp only [Ledger.record]
      omega
    | taken n =>
      have := hd.2
      simp only [Ledger.record]
      omega
  cases c with
  | call c =>
    cases hcur : s.tasks.currentTask with
    | none =>
      simp only [SyncCall.run, SyncCall.change, hcur]
      exact h
    | some self =>
      simp only [SyncCall.run, SyncCall.change, hcur]
      by_cases hc : ∀ y k, c ≠ .signal y k
      · exact hdoes (call_does hc self s x)
      · push Not at hc
        obtain ⟨y, k, rfl⟩ := hc
        by_cases hx : x = y
        · subst hx
          have hch : (ObjectCall.signal x k).change self s x = .signaled k := if_pos rfl
          have hle := addU32_le (s.sem x).units k
          have hmin := Nat.min_le_left (addU32 (s.sem x).units k) (s.sem x).maxUnits
          change ((semSignal x k s).2.sem x).units + _ ≤ _
          rw [semSignal_sem, addUnits_self, hch]
          simp only [Ledger.record]
          omega
        · have hch : (ObjectCall.signal y k).change self s x = .kept := if_neg (fun he => hx he.symm)
          change ((semSignal y k s).2.sem x).units + _ ≤ _
          rw [semSignal_sem, addUnits_of_ne hx, hch]
          exact h
  | _ => exact h

/-- **No unit is taken that was not there**: the units that are left and those that have been taken are at most the first
ones and those that have been signaled, in every run. -/
theorem ledger_balance (b : Nat) : ∀ (cs : List SyncCall) (s : Objects) (l : Ledger),
    (s.sem x).units + l.taken ≤ b + l.signaled →
      ((run syncStep s cs).2.sem x).units + (ledger x s cs l).taken ≤ b + (ledger x s cs l).signaled
  | [], _, _, h => h
  | c :: cs, s, l, h => ledger_balance b cs (c.run s).2 (l.record (c.change s x)) (record_balance h)

end

end Sync
end AmitX
