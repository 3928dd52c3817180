import AmitX.Sync.Blocking
/-!
# MutexRun — who holds a mutex, and who is woken when it is free

Whatever order the tasks run in and whichever timeouts expire, one task at most holds a mutex, and a free mutex whose
queue is not empty has a task that a signal has woken and that has not looked at the mutex again.
-/
namespace AmitX
namespace Sync

open Sched Links Run

def holders (m : MutexPtr) (es : List SyncEvent) : List Ptr :=
  es.foldl (fun hs e =>
    match e with
    | (some t, .locked m') => if m' = m then t :: hs else hs
    | (some t, .unlocked m') => if m' = m then hs.erase t else hs
    | _ => hs) []

def Outcome.quiet : Outcome → Bool
  | .locked _ => false
  | .unlocked _ => false
  | _ => true

/-- The task has been signaled in `mutex_lock` and has not looked at the mutex since. -/
def Objects.Recheck (s : Objects) (m : MutexPtr) (t : Ptr) : Prop :=
  (∃ timeoutMs, s.inside t = some (.mutexLock m timeoutMs)) ∧ s.tasks.wakeReason t = .signaled ∧
    (s.tasks.state t = .ready ∨ s.tasks.state t = .running)

def MutexSafe (es : List SyncEvent) (s : Objects) : Prop :=
  ∀ m, (holders m es).length ≤ 1 ∧
    ((s.mutex m).locked = false → s.tasks.waitHead (mutexQueue m) ≠ none → ∃ t, s.Recheck m t)

def SyncCall.ByOwner (s : Objects) : SyncCall → Prop
  | .call (.unlock m) => (s.mutex m).owner = s.tasks.currentTask
  | _ => True

/-- The invariant; the mutex `x` may be without a task that looks at it again. -/
structure MutexOk (x : Option MutexPtr) (es : List SyncEvent) (s : Objects) : Prop where
  tasks : TasksOk s.tasks s.inside
  held : ∀ m, holders m es = (s.mutex m).owner.toList
  locked : ∀ m, (s.mutex m).locked = (s.mutex m).owner.isSome
  recheck : ∀ m, x ≠ some m → (s.mutex m).locked = false → s.tasks.waitHead (mutexQueue m) ≠ none → ∃ t, s.Recheck m t

/-- No queue of a free mutex gets a first task, and every signaled task stays so. -/
structure Keeps (s s' : Objects) : Prop where
  mutex : s'.mutex = s.mutex
  head : ∀ m, (s.mutex m).locked = false → s'.tasks.waitHead (mutexQueue m) ≠ none →
    s.tasks.waitHead (mutexQueue m) ≠ none
  recheck : ∀ m t, s.Recheck m t → s'.Recheck m t

section

variable {s s' s'' : Objects} {es : List SyncEvent} {x : Option MutexPtr} {m : MutexPtr} {t u : Ptr} {q : QueuePtr}
  {V : QueuePtr → List Ptr}

theorem mutexQueue_inj {m m' : MutexPtr} (h : mutexQueue m = mutexQueue m') : m = m' := by
  exact Nat.eq_of_mul_eq_mul_left (by decide : 0 < 2) h

theorem semQueue_ne (sem : SemPtr) (m : MutexPtr) : semQueue sem ≠ mutexQueue m := by
  intro h
  have h : (2 * sem + 1 : Nat) = 2 * m := h
  omega

theorem waiting_mutexLock {w : Waiting} (h : w.queue = mutexQueue m) : ∃ timeoutMs, w = .mutexLock m timeoutMs := by
  cases w with
  | mutexLock m' timeoutMs => exact ⟨timeoutMs, by rw [mutexQueue_inj h]⟩
  | semWait sem units timeoutMs => exact absurd h (semQueue_ne sem m)

theorem holders_concat (m : MutexPtr) (es : List SyncEvent) (e : SyncEvent) : holders m (es ++ [e]) =
    match e with
    | (some t, .locked m') => if m' = m then t :: holders m es else holders m es
    | (some t, .unlocked m') => if m' = m then (holders m es).erase t else holders m es
    | _ => holders m es := by
  unfold holders
  rw [List.foldl_append]
  rfl

theorem Keeps.trans (h : Keeps s s') (h' : Keeps s' s'') : Keeps s s'' :=
  ⟨h'.mutex.trans h.mutex, fun m hl hh => h.head m hl (h'.head m (by rw [h.mutex]; exact hl) hh),
    fun m t hr => h'.recheck m t (h.recheck m t hr)⟩

theorem MutexOk.keeps (h : MutexOk x es s) (hk : Keeps s s') (ht : TasksOk s'.tasks s'.inside) : MutexOk x es s' := by
  refine ⟨ht, fun m => ?_, fun m => ?_, fun m hx hl hh => ?_⟩
  · rw [hk.mutex]
    exact h.held m
  · rw [hk.mutex]
    exact h.locked m
  · rw [hk.mutex] at hl
    obtain ⟨t, hr⟩ := h.recheck m hx hl (hk.head m hl hh)
    exact ⟨t, hk.recheck m t hr⟩

theorem holders_quiet {o : Outcome} (ho : o.quiet = true) (y : Option Ptr) (m : MutexPtr) (es : List SyncEvent) :
    holders m (es ++ [(y, o)]) = holders m es := by
  rw [holders_concat]
  cases o with
  | locked m' => cases ho
  | unlocked m' => cases ho
  | done => cases y <;> rfl
  | acquired sem => cases y <;> rfl
  | failed => cases y <;> rfl
  | waits => cases y <;> rfl

theorem MutexOk.event {o : Outcome} {y : Option Ptr} (h : MutexOk x es s) (ho : o.quiet = true) :
    MutexOk x (es ++ [(y, o)]) s :=
  ⟨h.tasks, fun m => (holders_quiet ho y m es).trans (h.held m), h.locked, h.recheck⟩

/-! ## The steps of the tasks -/

theorem keeps_swap (hm : s'.mutex = s.mutex) (hi : s'.inside = s.inside) (hs : SameTasks s.tasks s'.tasks)
    (hst : Swaps s.tasks s'.tasks) : Keeps s s' := by
  refine ⟨hm, fun m _ hh => by rw [← hs.waitHead]; exact hh, fun m t hr => ?_⟩
  obtain ⟨hin, hre, hrun⟩ := hr
  unfold Objects.Recheck
  rw [hi, hs.wakeReason]
  refine ⟨hin, hre, ?_⟩
  rcases hst t with he | ⟨-, h2⟩
  · rw [he]
    exact hrun
  · exact h2

theorem keeps_same (hm : s'.mutex = s.mutex) (hi : s'.inside = s.inside) (ht : s'.tasks = s.tasks) : Keeps s s' :=
  keeps_swap hm hi (by rw [ht]; exact ⟨SameWaits.refl _, rfl, rfl⟩) (fun _ => Or.inl (by rw [ht]))

theorem keeps_woken {reason : WakeReason} (hV : Waits s.tasks V) (hw : Woken t q reason s.tasks V s'.tasks)
    (hb : s.tasks.state t = .blocked) (hm : s'.mutex = s.mutex) (hi : s'.inside = s.inside) : Keeps s s' := by
  refine ⟨hm, fun m _ hh => ?_, fun m u hr => ?_⟩
  · rw [hw.waits.lists.head] at hh
    rw [hV.lists.head]
    intro hnil
    rw [List.head?_eq_none_iff] at hnil
    refine hh ?_
    by_cases hq : mutexQueue m = q
    · rw [hq] at hnil
      rw [hq, Function.update_self, hnil]
      rfl
    · rw [Function.update_of_ne hq, hnil]
      rfl
  · obtain ⟨hin, hre, hrun⟩ := hr
    have hut : u ≠ t := by
      rintro rfl
      rw [hb] at hrun
      simp at hrun
    unfold Objects.Recheck
    rw [hi, hw.only.wakeReason u hut, hw.only.state u hut]
    exact ⟨hin, hre, hrun⟩

theorem keeps_wakeOne (h : TasksOk s.tasks s.inside) (q : QueuePtr) :
    Keeps s { s with tasks := taskWakeOne q s.tasks } := by
  obtain ⟨V, hV⟩ := h.waits
  cases hw : s.tasks.waitHead q with
  | none => exact keeps_same rfl rfl (taskWakeOne_of_none hw)
  | some t => exact keeps_woken hV (woken_taskWakeOne hV hw) (hV.head_spec hw).2.2.1 rfl rfl

theorem keeps_signalLoop (q : QueuePtr) : ∀ (n : Nat) (s : Objects), TasksOk s.tasks s.inside →
    Keeps s { s with tasks := signalLoop q n s.tasks }
  | 0, s, _ => keeps_same rfl rfl rfl
  | n + 1, s, h => by
    rw [signalLoop]
    split
    · exact (keeps_wakeOne h q).trans (keeps_signalLoop q n { s with tasks := taskWakeOne q s.tasks } (h.wakeOne q))
    · exact keeps_same rfl rfl rfl

theorem keeps_create {memory : Option Ptr} {stack : Bool} (h : TasksOk s.tasks s.inside)
    (hnew : ∀ t, memory = some t → ¬s.tasks.Live t) (priority : Nat) :
    Keeps s { s with tasks := taskCreateArgPrio memory stack priority s.tasks } := by
  obtain ⟨V, hV⟩ := h.waits
  have hV' := waits_create hV hnew stack priority
  refine ⟨rfl, fun m _ hh => ?_, fun m t hr => ?_⟩
  · rw [hV.lists.head]
    rw [hV'.lists.head] at hh
    exact hh
  · obtain ⟨hin, hre, hrun⟩ := hr
    obtain ⟨w, hw⟩ := hin
    have hl := (h.woken t _ hw).1
    have ho := create_others (fun hm => hnew t hm hl) stack priority s.tasks
    refine ⟨⟨w, hw⟩, ?_, ?_⟩
    · exact ho.2.1.trans hre
    · change (taskCreateArgPrio memory stack priority s.tasks).state t = _ ∨
        (taskCreateArgPrio memory stack priority s.tasks).state t = _
      rw [ho.1]
      exact hrun

/-! ## Locking -/

theorem recheck_ne (hi : s.inside t = none) (hr : s.Recheck m u) : u ≠ t := by
  rintro rfl
  obtain ⟨⟨ms, hin⟩, -⟩ := hr
  rw [hi] at hin
  cases hin

theorem MutexOk.take (h : MutexOk x es s) (hx : x = none ∨ x = some m) (hl : (s.mutex m).locked = false) (t : Ptr)
    (hmutex : s'.mutex = (takeMutex m t s).mutex) (hi : s'.inside = s.inside) (htasks : s'.tasks = s.tasks) :
    MutexOk none (es ++ [(some t, .locked m)]) s' := by
  have hnone : (s.mutex m).owner = none := by
    have := h.locked m
    rw [hl] at this
    exact Option.isSome_eq_false_iff.1 this.symm |> Option.isNone_iff_eq_none.1
  have hself : s'.mutex m = { locked := true, owner := some t, ownerOrigPrio := s.tasks.basePrio t } := by
    rw [hmutex]
    exact Function.update_self _ _ _
  have hother : ∀ m', m' ≠ m → s'.mutex m' = s.mutex m' := fun m' hm' => by
    rw [hmutex]
    exact Function.update_of_ne hm' _ _
  refine ⟨by rw [htasks, hi]; exact h.tasks, fun m' => ?_, fun m' => ?_, fun m' _ hl' hh => ?_⟩
  · rw [holders_concat]
    simp only
    by_cases hm' : m' = m
    · rw [hm', if_pos rfl, hself, h.held m, hnone]
      rfl
    · rw [if_neg (fun he => hm' he.symm), hother m' hm']
      exact h.held m'
  · by_cases hm' : m' = m
    · rw [hm', hself]
      rfl
    · rw [hother m' hm']
      exact h.locked m'
  · have hm' : m' ≠ m := by
      rintro rfl
      rw [hself] at hl'
      cases hl'
    rw [hother m' hm'] at hl'
    rw [htasks] at hh
    have hx' : x ≠ some m' := by
      rcases hx with rfl | rfl
      · simp
      · exact fun he => hm' (Option.some.inj he).symm
    obtain ⟨u, hu⟩ := h.recheck m' hx' hl' hh
    refine ⟨u, ?_⟩
    unfold Objects.Recheck
    rw [hi, htasks]
    exact hu

theorem MutexOk.wait {w : Waiting} {waitMs : Nat} (h : MutexOk x es s) (hl : s.tasks.Live t)
    (hne : s.tasks.state t ≠ .blocked) (hin : s.inside t = none)
    (hx : ∀ m, x = some m → (s.mutex m).locked = true)
    (hq : ∀ m, w.queue = mutexQueue m → (s.mutex m).locked = true) : MutexOk none es (waitOn w t waitMs s) := by
  obtain ⟨V, hV⟩ := h.tasks.waits
  have hb := blocks_blockTask hV hl hne w.queue waitMs
  refine ⟨h.tasks.block hl hb, h.held, h.locked, fun m _ hlm hh => ?_⟩
  change (s.mutex m).locked = false at hlm
  have hxm : x ≠ some m := fun he => by
    rw [hx m he] at hlm
    cases hlm
  have hqm : mutexQueue m ≠ w.queue := fun he => by
    rw [hq m he.symm] at hlm
    cases hlm
  change (blockTask w.queue t waitMs s.tasks).waitHead (mutexQueue m) ≠ none at hh
  rw [hb.waits.lists.head, Function.update_of_ne hqm, ← hV.lists.head] at hh
  obtain ⟨u, hu⟩ := h.recheck m hxm hlm hh
  have hut := recheck_ne hin hu
  obtain ⟨⟨ms, hin'⟩, hre, hrun⟩ := hu
  refine ⟨u, ⟨ms, ?_⟩, ?_, ?_⟩
  · change Function.update s.inside t (some w) u = _
    rw [Function.update_of_ne hut]
    exact hin'
  · exact (hb.only.wakeReason u hut).trans hre
  · change (blockTask w.queue t waitMs s.tasks).state u = _ ∨ (blockTask w.queue t waitMs s.tasks).state u = _
    rw [hb.only.state u hut]
    exact hrun

theorem keeps_boost (o : Ptr) (prio : Nat) : Keeps s { s with tasks := taskBoostPriority o prio s.tasks } := by
  have hch : ∀ p, Keeps s { s with tasks := changePrio o p s.tasks } := fun p => by
    obtain ⟨h1, h2, -⟩ := same_changePrio o p s.tasks
    exact keeps_swap rfl rfl h1 (fun u => Or.inl (congrFun h2 u))
  unfold taskBoostPriority
  simp only
  split
  · exact keeps_same rfl rfl rfl
  · split
    · exact keeps_same rfl rfl rfl
    · exact hch _

theorem keeps_boostOwner (m : MutexPtr) (t : Ptr) (s : Objects) : Keeps s (boostOwner m t s) := by
  unfold boostOwner
  split
  · exact keeps_same rfl rfl rfl
  · split
    · exact keeps_boost _ _
    · exact keeps_same rfl rfl rfl

theorem boostOwner_tasksOk (h : TasksOk s.tasks s.inside) (m : MutexPtr) (t : Ptr) :
    TasksOk (boostOwner m t s).tasks (boostOwner m t s).inside := by
  unfold boostOwner
  split
  · exact h
  · split
    · exact h.boost _ _
    · exact h

theorem boost_fields (o : Ptr) (prio : Nat) (s : Tasks) : (taskBoostPriority o prio s).state = s.state ∧
    (taskBoostPriority o prio s).taskTable = s.taskTable := by
  unfold taskBoostPriority
  simp only
  split
  · exact ⟨rfl, rfl⟩
  · split
    · exact ⟨rfl, rfl⟩
    · obtain ⟨h1, h2, -⟩ := same_changePrio o (min prio taskPrioCritical) s
      exact ⟨h2, h1.taskTable⟩

theorem boostOwner_fields (m : MutexPtr) (t : Ptr) (s : Objects) : (boostOwner m t s).mutex = s.mutex ∧
    (boostOwner m t s).inside = s.inside ∧ (boostOwner m t s).tasks.state = s.tasks.state ∧
    (boostOwner m t s).tasks.taskTable = s.tasks.taskTable := by
  unfold boostOwner
  split
  · exact ⟨rfl, rfl, rfl, rfl⟩
  · split
    · exact ⟨rfl, rfl, boost_fields _ _ _⟩
    · exact ⟨rfl, rfl, rfl, rfl⟩

theorem MutexOk.mutexLock {timeoutMs : Nat} (h : MutexOk x es s) (hx : x = none ∨ x = some m) (hl : s.tasks.Live t)
    (hne : s.tasks.state t ≠ .blocked) (hin : s.inside t = none) :
    MutexOk none (es ++ [(some t, (mutexLock m timeoutMs t s).1)]) (mutexLock m timeoutMs t s).2 := by
  unfold Sync.mutexLock
  simp only
  split
  · rename_i hlocked
    have hlk : (s.mutex m).locked = true := hlocked
    have h1 : MutexOk x es (spinlockAcquire (mutexQueue m) s) := h.keeps (keeps_same rfl rfl rfl) h.tasks
    have h2 := h1.keeps (keeps_boostOwner m t _) (boostOwner_tasksOk h1.tasks m t)
    obtain ⟨e1, e2, e3, e4⟩ := boostOwner_fields m t (spinlockAcquire (mutexQueue m) s)
    refine MutexOk.event (h2.wait ?_ ?_ ?_ (fun m' hm' => ?_) (fun m' hm' => ?_)) rfl
    · exact (live_congr e4).2 hl
    · rw [e3]
      exact hne
    · rw [e2]
      exact hin
    · rw [e1]
      rcases hx with rfl | rfl
      · cases hm'
      · rw [← Option.some.inj hm']
        exact hlk
    · rw [e1, ← mutexQueue_inj hm']
      exact hlk
  · rename_i hlocked
    exact h.take hx (Bool.not_eq_true _ ▸ hlocked) t rfl rfl rfl

theorem MutexOk.mutexTrylock (h : MutexOk none es s) (m : MutexPtr) (t : Ptr) :
    MutexOk none (es ++ [(some t, (mutexTrylock m t s).1)]) (mutexTrylock m t s).2 := by
  unfold Sync.mutexTrylock
  simp only
  split
  · exact MutexOk.event (h.keeps (keeps_same rfl rfl rfl) h.tasks) rfl
  · rename_i hlocked
    exact h.take (Or.inl rfl) (Bool.not_eq_true _ ▸ hlocked) t rfl rfl rfl

/-! ## Unlocking -/

theorem unboost_keeps (o : Ptr) (s : Objects) : Keeps s { s with tasks := taskUnboostPriority o s.tasks } := by
  unfold taskUnboostPriority
  split
  · exact keeps_same rfl rfl rfl
  · obtain ⟨h1, h2, -⟩ := same_changePrio o (s.tasks.basePrio o) s.tasks
    exact keeps_swap rfl rfl h1 (fun u => Or.inl (congrFun h2 u))

theorem unboostOwner_keeps (m : MutexPtr) (s : Objects) : Keeps s (unboostOwner m s) := by
  unfold unboostOwner
  split
  · exact keeps_same rfl rfl rfl
  · split
    · exact unboost_keeps _ s
    · exact keeps_same rfl rfl rfl

theorem unboostOwner_tasksOk (h : TasksOk s.tasks s.inside) (m : MutexPtr) :
    TasksOk (unboostOwner m s).tasks (unboostOwner m s).inside := by
  unfold unboostOwner
  split
  · exact h
  · split
    · exact h.unboost _
    · exact h

theorem MutexOk.mutexUnlock (h : MutexOk none es s) (ht : (s.mutex m).owner = some t) :
    MutexOk none (es ++ [(some t, (mutexUnlock m s).1)]) (mutexUnlock m s).2 := by
  have h1 : MutexOk none es (spinlockAcquire (mutexQueue m) s) := h.keeps (keeps_same rfl rfl rfl) h.tasks
  have h2 := h1.keeps (unboostOwner_keeps m _) (unboostOwner_tasksOk h1.tasks m)
  have hmutex := (unboostOwner_keeps m (spinlockAcquire (mutexQueue m) s)).mutex
  unfold Sync.mutexUnlock
  generalize unboostOwner m (spinlockAcquire (mutexQueue m) s) = s2 at h2 hmutex
  simp only
  have hk := keeps_wakeOne (s := s2) h2.tasks (mutexQueue m)
  have hself : Function.update s2.mutex m { locked := false, owner := none, ownerOrigPrio := 0 } m =
      { locked := false, owner := none, ownerOrigPrio := 0 } := Function.update_self _ _ _
  have hother : ∀ m', m' ≠ m → Function.update s2.mutex m { locked := false, owner := none, ownerOrigPrio := 0 } m' =
      s2.mutex m' := fun m' hm' => Function.update_of_ne hm' _ _
  refine ⟨h2.tasks.wakeOne _, fun m' => ?_, fun m' => ?_, fun m' _ hl hh => ?_⟩
  · change holders m' _ = (Function.update s2.mutex m _ m').owner.toList
    rw [holders_concat]
    simp only
    by_cases hm' : m' = m
    · rw [hm', if_pos rfl, hself, h.held m, ht]
      simp
    · rw [if_neg (fun he => hm' he.symm), hother m' hm']
      exact h2.held m'
  · change (Function.update s2.mutex m _ m').locked = (Function.update s2.mutex m _ m').owner.isSome
    by_cases hm' : m' = m
    · rw [hm', hself]
      rfl
    · rw [hother m' hm']
      exact h2.locked m'
  · by_cases hm' : m' = m
    · subst hm'
      obtain ⟨V, hV⟩ := h2.tasks.waits
      change (taskWakeOne (mutexQueue m') s2.tasks).waitHead (mutexQueue m') ≠ none at hh
      cases hw : s2.tasks.waitHead (mutexQueue m') with
      | none =>
        rw [taskWakeOne_of_none hw, hw] at hh
        exact absurd rfl hh
      | some u =>
        have hwk := woken_taskWakeOne hV hw
        obtain ⟨-, hlu, hbu, hqu⟩ := hV.head_spec hw
        obtain ⟨w, hin, hwq⟩ := h2.tasks.blocked u hlu hbu
        rw [hqu] at hwq
        obtain ⟨ms, rfl⟩ := waiting_mutexLock (Option.some.inj hwq).symm
        exact ⟨u, ⟨ms, hin⟩, hwk.wakeReason, Or.inl hwk.state⟩
    · change (Function.update s2.mutex m _ m').locked = false at hl
      rw [hother m' hm'] at hl
      obtain ⟨u, hu⟩ := h2.recheck m' (by simp) hl (hk.head m' hl hh)
      exact ⟨u, hk.recheck m' u hu⟩

/-! ## Semaphores -/

theorem MutexOk.semTrywait (h : MutexOk none es s) (sem : SemPtr) (units : Nat) (t : Ptr) :
    MutexOk none (es ++ [(some t, (semTrywait sem units s).1)]) (semTrywait sem units s).2 := by
  unfold Sync.semTrywait
  simp only
  split <;> exact MutexOk.event (h.keeps (keeps_same rfl rfl rfl) h.tasks) rfl

theorem MutexOk.semWait {sem : SemPtr} {units timeoutMs : Nat} (h : MutexOk none es s) (hl : s.tasks.Live t)
    (hne : s.tasks.state t ≠ .blocked) (hin : s.inside t = none) :
    MutexOk none (es ++ [(some t, (semWait sem units timeoutMs t s).1)]) (semWait sem units timeoutMs t s).2 := by
  unfold Sync.semWait
  simp only
  split
  · exact MutexOk.event (h.keeps (keeps_same rfl rfl rfl) h.tasks) rfl
  · have h1 : MutexOk none es (spinlockAcquire (semQueue sem) s) := h.keeps (keeps_same rfl rfl rfl) h.tasks
    exact MutexOk.event (h1.wait hl hne hin (fun _ he => by cases he)
      (fun m' (hm' : semQueue sem = mutexQueue m') => absurd hm' (semQueue_ne sem m'))) rfl

theorem MutexOk.semSignal (h : MutexOk none es s) (sem : SemPtr) (units : Nat) (t : Ptr) :
    MutexOk none (es ++ [(some t, (semSignal sem units s).1)]) (semSignal sem units s).2 := by
  have h1 : MutexOk none es (addUnits sem units (spinlockAcquire (semQueue sem) s)) :=
    h.keeps (keeps_same rfl rfl rfl) h.tasks
  unfold Sync.semSignal
  simp only
  split
  · have hk := keeps_signalLoop (semQueue sem) taskMaxTasks _ h1.tasks
    have h2 := h1.keeps hk (TasksOk.signalLoop _ _ _ h1.tasks)
    exact MutexOk.event (h2.keeps (keeps_same rfl rfl rfl) h2.tasks) rfl
  · exact MutexOk.event (h1.keeps (keeps_same rfl rfl rfl) h1.tasks) rfl

/-! ## Going on behind `task_block_on` -/

theorem MutexOk.goOn {w : Waiting} (h : MutexOk none es s) (hw : s.inside t = some w)
    (hne : s.tasks.state t ≠ .blocked) (hx : s.tasks.wakeReason t = .signaled → ∀ m ms, w = .mutexLock m ms → x = some m)
    (htasks : s'.tasks = s.tasks) (hm : s'.mutex = s.mutex) (hi : s'.inside = Function.update s.inside t none) :
    MutexOk x es s' := by
  refine ⟨by rw [htasks, hi]; exact h.tasks.goOn hne, fun m => by rw [hm]; exact h.held m,
    fun m => by rw [hm]; exact h.locked m, fun m hxm hl hh => ?_⟩
  rw [hm] at hl
  rw [htasks] at hh
  obtain ⟨u, hu⟩ := h.recheck m (by simp) hl hh
  obtain ⟨⟨ms, hin⟩, hre, hrun⟩ := hu
  have hut : u ≠ t := by
    rintro rfl
    rw [hw] at hin
    exact hxm (hx hre m ms (Option.some.inj hin))
  refine ⟨u, ⟨ms, ?_⟩, ?_, ?_⟩
  · rw [hi, Function.update_of_ne hut]
    exact hin
  · rw [htasks]
    exact hre
  · rw [htasks]
    exact hrun

theorem MutexOk.resume (h : MutexOk none es s) (hne : s.tasks.state t ≠ .blocked) :
    MutexOk none (es ++ [(some t, (resume t s).1)]) (resume t s).2 := by
  unfold Sync.resume
  cases hw : s.inside t with
  | none => exact h.event rfl
  | some w =>
    simp only
    have hl := (h.tasks.woken t w hw).1
    split
    · rename_i hto
      refine MutexOk.event (h.goOn hw hne (fun hs => ?_) rfl rfl rfl) rfl
      change s.tasks.wakeReason t = _ at hto
      rw [hs] at hto
      cases hto
    · cases w with
      | mutexLock m ms =>
        have h1 : MutexOk (some m) es { spinlockRelease (Waiting.mutexLock m ms).queue s with
            inside := Function.update s.inside t none } := h.goOn hw hne (fun _ m' ms' he => by cases he; rfl) rfl rfl rfl
        exact h1.mutexLock (Or.inr rfl) hl hne (Function.update_self _ _ _)
      | semWait sem units ms =>
        have h1 : MutexOk none es { spinlockRelease (Waiting.semWait sem units ms).queue s with
            inside := Function.update s.inside t none } := h.goOn hw hne (fun _ m' ms' he => by cases he) rfl rfl rfl
        exact h1.semWait hl hne (Function.update_self _ _ _)

/-! ## Runs -/

theorem MutexOk.call {c : ObjectCall} (h : MutexOk none es s) (hcur : s.tasks.currentTask = some t)
    (hrun : s.tasks.state t = .running) (hin : (s.inside t).isSome = c.GoesOn)
    (ho : (SyncCall.call c).ByOwner s) : MutexOk none (es ++ [(some t, (c.run t s).1)]) (c.run t s).2 := by
  have hl := h.tasks.current t hcur
  have hne : s.tasks.state t ≠ .blocked := by
    rw [hrun]
    decide
  have hnone : c.GoesOn = false → s.inside t = none := fun hc => by
    rw [hc] at hin
    exact Option.isNone_iff_eq_none.1 (Option.isSome_eq_false_iff.1 hin)
  cases c with
  | trylock m => exact h.mutexTrylock m t
  | lock m timeoutMs => exact h.mutexLock (Or.inl rfl) hl hne (hnone rfl)
  | unlock m => exact h.mutexUnlock (Eq.trans ho hcur)
  | trywait sem units => exact h.semTrywait sem units t
  | wait sem units timeoutMs => exact h.semWait hl hne (hnone rfl)
  | signal sem units => exact h.semSignal sem units t
  | resume => exact h.resume hne

theorem MutexOk.run {c : SyncCall} (h : MutexOk none es s) (hv : c.Valid s) (ho : c.ByOwner s) :
    MutexOk none (es ++ [(s.tasks.currentTask, (c.run s).1)]) (c.run s).2 := by
  cases c with
  | create memory stack priority =>
    exact MutexOk.event (h.keeps (keeps_create h.tasks hv priority) (h.tasks.create hv priority)) rfl
  | dispatch next =>
    exact MutexOk.event (h.keeps (keeps_swap rfl rfl (giveTo_same next s.tasks).1 (giveTo_state hv.2))
      (h.tasks.giveTo hv.1 hv.2)) rfl
  | expire t =>
    obtain ⟨V, hV⟩ := h.tasks.waits
    obtain ⟨w, -, hq⟩ := h.tasks.blocked t hv.1 hv.2
    exact MutexOk.event (h.keeps (keeps_woken hV (woken_fireTimer hV hv.1 hv.2 hq) hv.2 rfl rfl)
      (h.tasks.fireTimer hv.1 hv.2)) rfl
  | call c =>
    obtain ⟨t, hcur, hrun, hin⟩ := hv
    have hc : (SyncCall.call c).run s = c.run t s := by
      unfold SyncCall.run
      simp only [hcur]
    rw [hc, hcur]
    exact h.call hcur hrun hin ho

theorem tasksOk_boot (memory : Tasks) : TasksOk (bootTasks memory) (fun _ => none) := by
  have hs := sound_bootTasks memory
  exact ⟨hs.waits, hs.current, fun t hl => absurd hl (bootTasks_live memory t), fun t w hw => by cases hw⟩

/-- **Mutex safety and no lost wake-up.** In every run from the initial objects, whichever tasks are dispatched and
whichever timeouts expire, when mutexes are unlocked by their owners: at most one task holds a mutex, and a mutex that is
free while tasks are on its queue has a signaled task that is ready to look at it again. -/
theorem mutex_safe (memory : Tasks) (sem : SemPtr → Semaphore) (cs : List SyncCall)
    (hA : Allowed syncStep (fun _ s c => c.Valid s ∧ c.ByOwner s) (bootObjects memory sem) cs) :
    MutexSafe (run syncStep (bootObjects memory sem) cs).1 (run syncStep (bootObjects memory sem) cs).2 := by
  have h := run_keeps (I := fun es s => MutexOk none es s) (fun es s c h hc => h.run hc.1 hc.2)
    ⟨tasksOk_boot memory, fun _ => rfl, fun _ => rfl, fun m _ _ hh => absurd rfl hh⟩ cs hA
  intro m
  refine ⟨?_, h.recheck m (by simp)⟩
  rw [h.held m]
  cases (Objects.mutex _ m).owner <;> simp

/-- A task locks a mutex, another one waits for it, and the first one unlocks it. -/
def contended : List SyncCall := [.create (some 1) true 8, .create (some 2) true 8, .dispatch 1, .call (.lock 0 0),
  .dispatch 2, .call (.lock 0 50), .dispatch 1, .call (.unlock 0)]

theorem mutex_safe_contended : MutexSafe (run syncStep (bootObjects zeroTasks fun _ => ⟨0, 0⟩) contended).1
    (run syncStep (bootObjects zeroTasks fun _ => ⟨0, 0⟩) contended).2 :=
  mutex_safe zeroTasks (fun _ => ⟨0, 0⟩) contended <| by
    refine allowed_cons.2 ⟨⟨fresh_some (by decide +kernel), trivial⟩, ?_⟩
    refine allowed_cons.2 ⟨⟨fresh_some (by decide +kernel), trivial⟩, ?_⟩
    refine allowed_cons.2 ⟨⟨⟨(by decide +kernel : Tasks.Live _ 1), by decide +kernel⟩, trivial⟩, ?_⟩
    refine allowed_cons.2 ⟨⟨⟨1, by decide, by decide, by decide⟩, trivial⟩, ?_⟩
    refine allowed_cons.2 ⟨⟨⟨(by decide +kernel : Tasks.Live _ 2), by decide +kernel⟩, trivial⟩, ?_⟩
    refine allowed_cons.2 ⟨⟨⟨2, by decide, by decide, by decide⟩, trivial⟩, ?_⟩
    refine allowed_cons.2 ⟨⟨⟨(by decide +kernel : Tasks.Live _ 1), by decide +kernel⟩, trivial⟩, ?_⟩
    refine allowed_cons.2 ⟨⟨⟨1, by decide, by decide, by decide⟩, ?_⟩, allowed_nil _⟩
    change (Objects.mutex _ 0).owner = Tasks.currentTask _
    decide

end

end Sync
end AmitX
