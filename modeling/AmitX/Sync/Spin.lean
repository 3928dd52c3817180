import AmitX.Sync.Inherit
/-!
# Spin — the spinlock beside the queue of a mutex or a semaphore

`task_block_on` is called with the spinlock taken, and it is released by the same task when it goes on.  Between the two
every call on the object spins.
-/
namespace AmitX
namespace Sync

open Sched Links Run

/-- The call finds the spinlock free that it takes; behind `task_block_on` a task has just released it. -/
def ObjectCall.AcquiresFree (self : Ptr) (s : Objects) : ObjectCall → Prop
  | .trylock m => s.lock (mutexQueue m) = 0
  | .lock m _ => s.lock (mutexQueue m) = 0
  | .unlock m => s.lock (mutexQueue m) = 0
  | .trywait sem _ => s.lock (semQueue sem) = 0
  | .wait sem _ _ => s.lock (semQueue sem) = 0
  | .signal sem _ => s.lock (semQueue sem) = 0
  | .resume => ∀ w, s.inside self = some w → (spinlockRelease w.queue s).lock w.queue = 0

def SyncCall.AcquiresFree (s : Objects) : SyncCall → Prop
  | .call c => ∀ self, s.tasks.currentTask = some self → c.AcquiresFree self s
  | _ => True

def BlockedHoldNone (s : Objects) : Prop :=
  ∀ t w, s.inside t = some w → s.tasks.state t = .blocked → s.lock w.queue = 0

def SyncCall.NeverBlocks (s : Objects) : SyncCall → Prop
  | .call (.lock m _) => (s.mutex m).locked = false
  | .call (.wait sem units _) => units ≤ (s.sem sem).units
  | _ => True

/-- The spinlocks that are taken are those of the tasks at a `task_block_on`, one task for each. -/
structure LockOk (s : Objects) : Prop where
  taken : ∀ q, s.lock q ≠ 0 ↔ ∃ t w, s.inside t = some w ∧ w.queue = q
  one : ∀ t u w w', s.inside t = some w → s.inside u = some w' → w.queue = w'.queue → t = u

section

variable {s s' : Objects} {t : Ptr} {q : QueuePtr} {m : MutexPtr} {w : Waiting}

theorem LockOk.free_iff (h : LockOk s) : s.lock q = 0 ↔ ∀ t w, s.inside t = some w → w.queue ≠ q := by
  constructor
  · intro hq t w hw he
    exact (h.taken q).2 ⟨t, w, hw, he⟩ hq
  · intro hn
    by_contra hq
    obtain ⟨t, w, hw, he⟩ := (h.taken q).1 hq
    exact hn t w hw he

theorem LockOk.passed (h : LockOk s) (hq : s.lock q = 0) (hi : s'.inside = s.inside)
    (hl : s'.lock = Function.update (Function.update s.lock q 1) q 0) : LockOk s' := by
  have hl' : s'.lock = s.lock := by
    rw [hl, Function.update_idem, ← hq, Function.update_eq_self]
  exact ⟨fun q => by rw [hl', hi]; exact h.taken q, by rw [hi]; exact h.one⟩

theorem LockOk.waits (h : LockOk s) (hq : s.lock w.queue = 0) (ht : s.inside t = none)
    (hi : s'.inside = Function.update s.inside t (some w)) (hl : s'.lock = Function.update s.lock w.queue 1) :
    LockOk s' := by
  have hnone := h.free_iff.1 hq
  have hother : ∀ u v, s'.inside u = some v → u = t ∧ v = w ∨ u ≠ t ∧ s.inside u = some v := fun u v hu => by
    rw [hi] at hu
    by_cases hut : u = t
    · rw [hut, Function.update_self] at hu
      exact Or.inl ⟨hut, (Option.some.inj hu).symm⟩
    · rw [Function.update_of_ne hut] at hu
      exact Or.inr ⟨hut, hu⟩
  refine ⟨fun q => ?_, fun u u' v v' hu hu' he => ?_⟩
  · rw [hl, hi]
    by_cases hqw : q = w.queue
    · rw [hqw, Function.update_self]
      exact iff_of_true (by decide) ⟨t, w, Function.update_self _ _ _, rfl⟩
    · rw [Function.update_of_ne hqw]
      refine (h.taken q).trans ⟨?_, ?_⟩
      · rintro ⟨u, v, hu, rfl⟩
        have hut : u ≠ t := by
          rintro rfl
          rw [ht] at hu
          cases hu
        exact ⟨u, v, by rw [Function.update_of_ne hut]; exact hu, rfl⟩
      · rintro ⟨u, v, hu, rfl⟩
        rw [← hi] at hu
        rcases hother u v hu with ⟨-, rfl⟩ | ⟨-, hu⟩
        · exact absurd rfl hqw
        · exact ⟨u, v, hu, rfl⟩
  · rcases hother u v hu with ⟨rfl, rfl⟩ | ⟨hut, hu⟩ <;> rcases hother u' v' hu' with ⟨rfl, rfl⟩ | ⟨hut', hu'⟩
    · rfl
    · exact absurd he.symm (hnone u' v' hu')
    · exact absurd he (hnone u v hu)
    · exact h.one u u' v v' hu hu' he

theorem LockOk.goOn (h : LockOk s) (hw : s.inside t = some w) (hi : s'.inside = Function.update s.inside t none)
    (hl : s'.lock = Function.update s.lock w.queue 0) : LockOk s' := by
  have hother : ∀ u v, s'.inside u = some v ↔ u ≠ t ∧ s.inside u = some v := fun u v => by
    rw [hi]
    by_cases hut : u = t
    · rw [hut, Function.update_self]
      exact iff_of_false (by simp) (fun hc => hc.1 rfl)
    · rw [Function.update_of_ne hut]
      exact (and_iff_right hut).symm
  refine ⟨fun q => ?_, fun u u' v v' hu hu' he => ?_⟩
  · rw [hl]
    by_cases hqw : q = w.queue
    · rw [hqw, Function.update_self]
      refine iff_of_false (by decide) ?_
      rintro ⟨u, v, hu, he⟩
      obtain ⟨hut, hu⟩ := (hother u v).1 hu
      exact hut (h.one u t v w hu hw he)
    · rw [Function.update_of_ne hqw]
      refine (h.taken q).trans ⟨?_, ?_⟩
      · rintro ⟨u, v, hu, rfl⟩
        refine ⟨u, v, (hother u v).2 ⟨?_, hu⟩, rfl⟩
        rintro rfl
        rw [hw] at hu
        exact hqw (by rw [Option.some.inj hu])
      · rintro ⟨u, v, hu, rfl⟩
        exact ⟨u, v, ((hother u v).1 hu).2, rfl⟩
  · exact h.one u u' v v' ((hother u v).1 hu).2 ((hother u' v').1 hu').2 he

/-! ## What the calls do to the spinlocks -/

def Passes (q : QueuePtr) (s s' : Objects) : Prop :=
  s'.inside = s.inside ∧ s'.lock = Function.update (Function.update s.lock q 1) q 0

def Stays (w : Waiting) (t : Ptr) (s s' : Objects) : Prop :=
  s'.inside = Function.update s.inside t (some w) ∧ s'.lock = Function.update s.lock w.queue 1 ∧
    s'.tasks.state t = .blocked

theorem blockTask_state (q : QueuePtr) (t : Ptr) (timeoutMs : Nat) (s : Tasks) :
    (blockTask q t timeoutMs s).state t = .blocked := by
  have hself : (enqueueBlocked q t timeoutMs s).state t = .blocked := Function.update_self _ _ _
  change (if timeoutMs = taskNoTimeout then enqueueBlocked q t timeoutMs s
    else timerWheelInsert t (ticksOf timeoutMs) (enqueueBlocked q t timeoutMs s)).state t = .blocked
  split
  · exact hself
  · rw [(same_timerWheelInsert t (ticksOf timeoutMs) (enqueueBlocked q t timeoutMs s)).state]
    exact hself

theorem boostOwner_lock (m : MutexPtr) (t : Ptr) (s : Objects) : (boostOwner m t s).lock = s.lock := by
  unfold boostOwner
  split
  · rfl
  · split <;> rfl

theorem unboostOwner_lock (m : MutexPtr) (s : Objects) : (unboostOwner m s).lock = s.lock ∧
    (unboostOwner m s).inside = s.inside := by
  unfold unboostOwner
  split
  · exact ⟨rfl, rfl⟩
  · split <;> exact ⟨rfl, rfl⟩

theorem passes_trylock (m : MutexPtr) (t : Ptr) (s : Objects) : Passes (mutexQueue m) s (mutexTrylock m t s).2 := by
  unfold mutexTrylock
  simp only
  split <;> exact ⟨rfl, rfl⟩

theorem passes_unlock (m : MutexPtr) (s : Objects) : Passes (mutexQueue m) s (mutexUnlock m s).2 := by
  obtain ⟨hl, hi⟩ := unboostOwner_lock m (spinlockAcquire (mutexQueue m) s)
  exact ⟨hi, congrArg (fun f => Function.update f (mutexQueue m) 0) hl⟩

theorem passes_semTrywait (sem : SemPtr) (units : Nat) (s : Objects) :
    Passes (semQueue sem) s (semTrywait sem units s).2 := by
  unfold semTrywait
  simp only
  split <;> exact ⟨rfl, rfl⟩

theorem passes_semSignal (sem : SemPtr) (units : Nat) (s : Objects) :
    Passes (semQueue sem) s (semSignal sem units s).2 :=
  ⟨rfl, rfl⟩

theorem lock_mutexLock (m : MutexPtr) (timeoutMs : Nat) (t : Ptr) (s : Objects) :
    (s.mutex m).locked = false ∧ Passes (mutexQueue m) s (mutexLock m timeoutMs t s).2 ∨
    (s.mutex m).locked = true ∧ Stays (.mutexLock m timeoutMs) t s (mutexLock m timeoutMs t s).2 := by
  unfold mutexLock
  simp only
  split
  · rename_i hlocked
    refine Or.inr ⟨hlocked, ?_, boostOwner_lock m t _, blockTask_state _ _ _ _⟩
    exact congrArg (fun f => Function.update f t (some (Waiting.mutexLock m timeoutMs)))
      (boostOwner_fields m t (spinlockAcquire (mutexQueue m) s)).2.1
  · rename_i hlocked
    exact Or.inl ⟨Bool.not_eq_true _ ▸ hlocked, rfl, rfl⟩

theorem lock_semWait (sem : SemPtr) (units timeoutMs : Nat) (t : Ptr) (s : Objects) :
    units ≤ (s.sem sem).units ∧ Passes (semQueue sem) s (semWait sem units timeoutMs t s).2 ∨
    ¬units ≤ (s.sem sem).units ∧ Stays (.semWait sem units timeoutMs) t s (semWait sem units timeoutMs t s).2 := by
  unfold semWait
  simp only
  split
  · rename_i hunits
    exact Or.inl ⟨hunits, rfl, rfl⟩
  · rename_i hunits
    exact Or.inr ⟨hunits, rfl, rfl, blockTask_state _ _ _ _⟩

theorem LockOk.mutexLock {timeoutMs : Nat} (h : LockOk s) (hq : s.lock (mutexQueue m) = 0) (ht : s.inside t = none) :
    LockOk (mutexLock m timeoutMs t s).2 := by
  rcases lock_mutexLock m timeoutMs t s with ⟨-, hi, hl⟩ | ⟨-, hi, hl, -⟩
  · exact h.passed hq hi hl
  · exact h.waits (w := .mutexLock m timeoutMs) hq ht hi hl

theorem LockOk.semWait {sem : SemPtr} {units timeoutMs : Nat} (h : LockOk s) (hq : s.lock (semQueue sem) = 0)
    (ht : s.inside t = none) : LockOk (semWait sem units timeoutMs t s).2 := by
  rcases lock_semWait sem units timeoutMs t s with ⟨-, hi, hl⟩ | ⟨-, hi, hl, -⟩
  · exact h.passed hq hi hl
  · exact h.waits (w := .semWait sem units timeoutMs) hq ht hi hl

theorem LockOk.resume (h : LockOk s) : LockOk (resume t s).2 := by
  unfold Sync.resume
  cases hw : s.inside t with
  | none => exact h
  | some w =>
    have h1 : LockOk { spinlockRelease w.queue s with inside := Function.update s.inside t none } := h.goOn hw rfl rfl
    have hq : (spinlockRelease w.queue s).lock w.queue = 0 := Function.update_self _ _ _
    simp only
    split
    · exact h1
    · cases w with
      | mutexLock m timeoutMs => exact h1.mutexLock hq (Function.update_self _ _ _)
      | semWait sem units timeoutMs => exact h1.semWait hq (Function.update_self _ _ _)

theorem LockOk.run {c : SyncCall} (h : LockOk s) (hv : c.Valid s) (hf : c.AcquiresFree s) : LockOk (c.run s).2 := by
  cases c with
  | create memory stack priority => exact ⟨h.taken, h.one⟩
  | dispatch next => exact ⟨h.taken, h.one⟩
  | expire t => exact ⟨h.taken, h.one⟩
  | call c =>
    obtain ⟨t, hcur, -, hin⟩ := hv
    have hc : (SyncCall.call c).run s = c.run t s := by
      unfold SyncCall.run
      simp only [hcur]
    have hf := hf t hcur
    have hnone : c.GoesOn = false → s.inside t = none := fun hc => by
      rw [hc] at hin
      exact Option.isNone_iff_eq_none.1 (Option.isSome_eq_false_iff.1 hin)
    rw [hc]
    cases c with
    | trylock m => exact h.passed hf (passes_trylock m t s).1 (passes_trylock m t s).2
    | lock m timeoutMs => exact h.mutexLock hf (hnone rfl)
    | unlock m => exact h.passed hf (passes_unlock m s).1 (passes_unlock m s).2
    | trywait sem units => exact h.passed hf (passes_semTrywait sem units s).1 (passes_semTrywait sem units s).2
    | wait sem units timeoutMs => exact h.semWait hf (hnone rfl)
    | signal sem units => exact h.passed hf (passes_semSignal sem units s).1 (passes_semSignal sem units s).2
    | resume => exact h.resume

/-! ## Runs -/

theorem lockOk_boot (memory : Tasks) (sem : SemPtr → Semaphore) : LockOk (bootObjects memory sem) := by
  refine ⟨fun q => iff_of_false (by simp [bootObjects]) ?_, fun t u w w' hw => ?_⟩
  · rintro ⟨t, w, hw, -⟩
    cases hw
  · cases hw

/-- **Who has a spinlock.** As long as every call has found its spinlock free, the spinlocks that are taken are those of
the tasks at a `task_block_on`: these go on with the word of their lock set, whoever runs in the meantime. -/
theorem lockOk_run (memory : Tasks) (sem : SemPtr → Semaphore) (cs : List SyncCall)
    (hA : Allowed syncStep (fun _ s c => c.Valid s ∧ c.AcquiresFree s) (bootObjects memory sem) cs) :
    LockOk (run syncStep (bootObjects memory sem) cs).2 :=
  run_keeps (I := fun _ s => LockOk s) (A := fun _ s c => SyncCall.Valid s c ∧ SyncCall.AcquiresFree s c)
    (fun _ s c h hc => show LockOk (syncStep s c).2 from h.run hc.1 hc.2) (lockOk_boot memory sem) cs hA

/-- No task is at a `task_block_on`, so every spinlock is free. -/
def Quiet (s : Objects) : Prop := LockOk s ∧ ∀ t, s.inside t = none

theorem Quiet.lock (h : Quiet s) (q : QueuePtr) : s.lock q = 0 :=
  h.1.free_iff.2 (fun t w hw => by rw [h.2 t] at hw; cases hw)

theorem Quiet.acquires {c : SyncCall} (h : Quiet s) : c.AcquiresFree s := by
  cases c with
  | call c =>
    intro t _
    cases c with
    | resume => exact fun w _ => Function.update_self _ _ _
    | _ => exact h.lock _
  | _ => trivial

theorem Quiet.run {c : SyncCall} (h : Quiet s) (hv : c.Valid s) (hn : c.NeverBlocks s) : Quiet (c.run s).2 := by
  refine ⟨h.1.run hv h.acquires, fun u => ?_⟩
  cases c with
  | create memory stack priority => exact h.2 u
  | dispatch next => exact h.2 u
  | expire t => exact h.2 u
  | call c =>
    obtain ⟨t, hcur, -, hin⟩ := hv
    have hc : (SyncCall.call c).run s = c.run t s := by
      unfold SyncCall.run
      simp only [hcur]
    have hpass : ∀ {q : QueuePtr} {s' : Objects}, Passes q s s' → s'.inside u = none := fun hp => by
      rw [hp.1]
      exact h.2 u
    rw [hc]
    cases c with
    | trylock m => exact hpass (passes_trylock m t s)
    | lock m timeoutMs =>
      rcases lock_mutexLock m timeoutMs t s with ⟨-, hp⟩ | ⟨hlk, -⟩
      · exact hpass hp
      · exact absurd (hlk.symm.trans hn) (by decide)
    | unlock m => exact hpass (passes_unlock m s)
    | trywait sem units => exact hpass (passes_semTrywait sem units s)
    | wait sem units timeoutMs =>
      rcases lock_semWait sem units timeoutMs t s with ⟨-, hp⟩ | ⟨hno, -⟩
      · exact hpass hp
      · exact absurd hn hno
    | signal sem units => exact hpass (passes_semSignal sem units s)
    | resume =>
      rw [h.2 t] at hin
      cases hin

theorem blocked_holds {c : SyncCall} (hv : c.Valid s) (hn : ¬c.NeverBlocks s) : ¬BlockedHoldNone (c.run s).2 := by
  have hstays : ∀ {t : Ptr} {w : Waiting} {s' : Objects}, Stays w t s s' → ¬BlockedHoldNone s' := by
    rintro t w s' ⟨hi, hl, hb⟩ hall
    have h0 := hall t w (by rw [hi, Function.update_self]) hb
    rw [hl, Function.update_self] at h0
    cases h0
  cases c with
  | create memory stack priority => exact absurd trivial hn
  | dispatch next => exact absurd trivial hn
  | expire t => exact absurd trivial hn
  | call c =>
    obtain ⟨t, hcur, -, -⟩ := hv
    have hc : (SyncCall.call c).run s = c.run t s := by
      unfold SyncCall.run
      simp only [hcur]
    rw [hc]
    cases c with
    | lock m timeoutMs =>
      rcases lock_mutexLock m timeoutMs t s with ⟨hlk, -⟩ | ⟨-, hs⟩
      · exact absurd hlk hn
      · exact hstays hs
    | wait sem units timeoutMs =>
      rcases lock_semWait sem units timeoutMs t s with ⟨hu, -⟩ | ⟨-, hs⟩
      · exact absurd hu hn
      · exact hstays hs
    | _ => exact absurd trivial hn

/-- **Blocking leaves a lock behind.** In a run from the initial objects every call finds its spinlock free and no
blocked task holds one, if and only if no call ever blocks. -/
theorem no_lock_left_iff (memory : Tasks) (sem : SemPtr → Semaphore) (cs : List SyncCall)
    (hA : Allowed syncStep (fun _ s c => c.Valid s) (bootObjects memory sem) cs) :
    (Allowed syncStep (fun _ s c => c.AcquiresFree s) (bootObjects memory sem) cs ∧
      ∀ before after, cs = before ++ after → BlockedHoldNone (run syncStep (bootObjects memory sem) before).2) ↔
    Allowed syncStep (fun _ s c => c.NeverBlocks s) (bootObjects memory sem) cs := by
  constructor
  · rintro ⟨-, hall⟩ before c after rfl
    by_contra hn
    have hb := hall (before ++ [c]) after (by simp)
    rw [run_concat] at hb
    exact blocked_holds hA.last hn hb
  · intro hN
    have hQ : ∀ before after, cs = before ++ after → Quiet (run syncStep (bootObjects memory sem) before).2 := by
      rintro before after rfl
      exact run_keeps (I := fun _ s => Quiet s) (A := fun _ s c => SyncCall.Valid s c ∧ SyncCall.NeverBlocks s c)
        (fun _ s c h hc => show Quiet (syncStep s c).2 from h.run hc.1 hc.2) ⟨lockOk_boot memory sem, fun _ => rfl⟩ before
        (fun b d a he => ⟨hA.left b d a he, hN.left b d a he⟩)
    refine ⟨fun before c after he => (hQ before (c :: after) he).acquires, fun before after he t w hw => ?_⟩
    rw [(hQ before after he).2 t] at hw
    cases hw

def inTurn : List SyncCall := [.create (some 1) true 8, .create (some 2) true 8, .dispatch 1, .call (.lock 0 0),
  .call (.unlock 0), .dispatch 2, .call (.lock 0 0), .call (.wait 0 1 0)]

theorem allowed_inTurn : Allowed syncStep (fun _ s c => c.Valid s) (bootObjects zeroTasks fun _ => ⟨1, 1⟩) inTurn := by
  refine allowed_cons.2 ⟨fresh_some (by decide +kernel), ?_⟩
  refine allowed_cons.2 ⟨fresh_some (by decide +kernel), ?_⟩
  refine allowed_cons.2 ⟨⟨(by decide +kernel : Tasks.Live _ 1), by decide +kernel⟩, ?_⟩
  refine allowed_cons.2 ⟨⟨1, by decide, by decide, by decide⟩, ?_⟩
  refine allowed_cons.2 ⟨⟨1, by decide, by decide, by decide⟩, ?_⟩
  refine allowed_cons.2 ⟨⟨(by decide +kernel : Tasks.Live _ 2), by decide +kernel⟩, ?_⟩
  refine allowed_cons.2 ⟨⟨2, by decide, by decide, by decide⟩, ?_⟩
  exact allowed_cons.2 ⟨⟨2, by decide, by decide, by decide⟩, allowed_nil _⟩

theorem no_lock_left_inTurn :
    Allowed syncStep (fun _ s c => c.AcquiresFree s) (bootObjects zeroTasks fun _ => ⟨1, 1⟩) inTurn ∧
      ∀ before after, inTurn = before ++ after →
        BlockedHoldNone (run syncStep (bootObjects zeroTasks fun _ => ⟨1, 1⟩) before).2 :=
  (no_lock_left_iff zeroTasks (fun _ => ⟨1, 1⟩) inTurn allowed_inTurn).2 <| by
    refine allowed_cons.2 ⟨trivial, allowed_cons.2 ⟨trivial, allowed_cons.2 ⟨trivial, ?_⟩⟩⟩
    refine allowed_cons.2 ⟨(by decide : Mutex.locked _ = false), ?_⟩
    refine allowed_cons.2 ⟨trivial, allowed_cons.2 ⟨trivial, ?_⟩⟩
    refine allowed_cons.2 ⟨(by decide : Mutex.locked _ = false), ?_⟩
    exact allowed_cons.2 ⟨(by decide : (1 : Nat) ≤ Semaphore.units _), allowed_nil _⟩

/-- **The owner finds the spinlock of its mutex taken** by the task that waits for it. -/
theorem not_no_lock_left : ¬∀ (memory : Tasks) (sem : SemPtr → Semaphore) (cs : List SyncCall),
    Allowed syncStep (fun _ s c => c.Valid s) (bootObjects memory sem) cs →
      Allowed syncStep (fun _ s c => c.AcquiresFree s) (bootObjects memory sem) cs := by
  intro hall
  have hl : Objects.lock (run syncStep (bootObjects zeroTasks fun _ => ⟨0, 0⟩) nested).2 (mutexQueue 0) = 0 :=
    hall zeroTasks (fun _ => ⟨0, 0⟩) _ (allowed_nested 0) nested (.call (.unlock 0)) [] rfl 1 (by decide)
  exact absurd hl (by decide)

end

end Sync
end AmitX
