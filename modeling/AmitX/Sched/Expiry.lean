import AmitX.Sched.CallsRun
/-!
# Expiry — when a timed wait ends

The deadline of a wait is the tick counter at the call plus the timeout in ticks, both with 32 bits, and a tick fires the
tasks of its bucket whose deadline is not above the counter.  The comparison does not know that a counter wraps, nor does
`(ms + 9) / 10`.
-/
namespace AmitX
namespace Sched

open Links Run

/-! ## What calls leave of the deadlines -/

structure SameClock (s s' : Tasks) : Prop where
  sleepUntil : s'.sleepUntil = s.sleepUntil
  tickCount : s'.tickCount = s.tickCount

section

variable {s s' s'' : Tasks} {W W' : Nat → List Ptr} {t u : Ptr} {d : Nat} {x : TaskState}

theorem SameClock.refl (s : Tasks) : SameClock s s := ⟨rfl, rfl⟩

theorem SameClock.trans (h : SameClock s s') (h' : SameClock s' s'') : SameClock s s'' :=
  ⟨h'.sleepUntil.trans h.sleepUntil, h'.tickCount.trans h.tickCount⟩

theorem clock_schedulerRemove (t : Ptr) (s : Tasks) : SameClock s (schedulerRemove t s) := by
  unfold schedulerRemove
  split <;> exact ⟨rfl, rfl⟩

theorem clock_requeue (old : Option Ptr) (s : Tasks) : SameClock s (requeue old s) := by
  unfold requeue
  split
  · exact ⟨rfl, rfl⟩
  · split <;> exact ⟨rfl, rfl⟩

theorem clock_schedule (s : Tasks) : SameClock s (schedule s) := by
  unfold schedule
  split
  · exact ⟨rfl, rfl⟩
  · rename_i next _
    split
    · exact ⟨rfl, rfl⟩
    · have h : SameClock s (schedulerNext s).2 := ⟨rfl, rfl⟩
      exact ((h.trans (clock_requeue _ _)).trans (clock_schedulerRemove next _)).trans ⟨rfl, rfl⟩

theorem clock_changePrio (t : Ptr) (prio : Nat) (s : Tasks) : SameClock s (changePrio t prio s) := by
  have h : SameClock s { s with curPrio := Function.update s.curPrio t prio } := ⟨rfl, rfl⟩
  unfold changePrio
  simp only
  split
  · exact (h.trans (clock_schedulerRemove t _)).trans ⟨rfl, rfl⟩
  · exact h

theorem clock_boost (t : Ptr) (newPrio : Nat) (s : Tasks) : SameClock s (taskBoostPriority t newPrio s) := by
  unfold taskBoostPriority
  simp only
  split
  · exact SameClock.refl s
  · split
    · exact SameClock.refl s
    · exact clock_changePrio t _ s

theorem clock_unboost (t : Ptr) (s : Tasks) : SameClock s (taskUnboostPriority t s) := by
  unfold taskUnboostPriority
  split
  · exact SameClock.refl s
  · exact clock_changePrio t _ s

theorem clock_timerWheelRemove (t : Ptr) (s : Tasks) : SameClock s (timerWheelRemove t s) :=
  ⟨timerWheelRemove_sleepUntil t s, timerWheelRemove_tickCount t s⟩

theorem clock_timerWheelInsert (t : Ptr) (n : Nat) (s : Tasks) : SameClock s (timerWheelInsert t n s) :=
  (clock_timerWheelRemove t s).trans ⟨rfl, rfl⟩

theorem clock_taskQueueRemove (q : QueuePtr) (t : Ptr) (s : Tasks) : SameClock s (taskQueueRemove q t s) := by
  unfold taskQueueRemove
  split <;> exact ⟨rfl, rfl⟩

theorem clock_leaveQueue (t : Ptr) (s : Tasks) : SameClock s (leaveQueue t s) := by
  unfold leaveQueue
  split
  · exact SameClock.refl s
  · exact clock_taskQueueRemove _ t s

theorem clock_renewQuantum (s : Tasks) : SameClock s (renewQuantum s) := by
  unfold renewQuantum
  split <;> exact ⟨rfl, rfl⟩

theorem clock_useQuantum (t : Ptr) (s : Tasks) : SameClock s (useQuantum t s) := by
  unfold useQuantum
  simp only
  split
  · have h : SameClock s { s with quantum := Function.update s.quantum t (s.quantumMax t) } := ⟨rfl, rfl⟩
    exact h.trans (clock_schedule _)
  · exact ⟨rfl, rfl⟩

theorem clock_taskDestroy (t : Ptr) (s : Tasks) : SameClock s (taskDestroy t s) := by
  have h : ∀ s, SameClock s (forgetTask t s) := by
    intro s
    unfold forgetTask
    split <;> exact ⟨rfl, rfl⟩
  exact (((clock_schedulerRemove t s).trans (clock_timerWheelRemove t _)).trans (clock_leaveQueue t _)).trans (h _)

theorem clock_taskYield (s : Tasks) : SameClock s (taskYield s) :=
  (clock_renewQuantum s).trans (clock_schedule _)

theorem clock_taskExit (s : Tasks) : SameClock s (taskExit s) := by
  cases hcur : s.currentTask with
  | none =>
    rw [taskExit_of_none hcur]
    exact SameClock.refl s
  | some t =>
    rw [taskExit_of_some hcur]
    have h : SameClock s { s with state := Function.update s.state t .zombie } := ⟨rfl, rfl⟩
    exact h.trans (clock_schedule _)

/-! ## Waking a task -/

/-- The counter stands, and a task keeps its deadline unless it is woken. -/
structure KeepsDeadlines (s s' : Tasks) : Prop where
  tickCount : s'.tickCount = s.tickCount
  sleepUntil : ∀ u, s'.sleepUntil u = s.sleepUntil u ∨ s'.state u = .ready
  ready : ∀ u, s.state u = .ready → s'.state u = .ready

theorem KeepsDeadlines.refl (s : Tasks) : KeepsDeadlines s s := ⟨rfl, fun _ => Or.inl rfl, fun _ h => h⟩

theorem KeepsDeadlines.trans (h : KeepsDeadlines s s') (h' : KeepsDeadlines s' s'') : KeepsDeadlines s s'' := by
  refine ⟨h'.tickCount.trans h.tickCount, fun u => ?_, fun u hu => h'.ready u (h.ready u hu)⟩
  rcases h.sleepUntil u with hu | hu
  · exact (h'.sleepUntil u).imp_left (fun hu' => hu'.trans hu)
  · exact Or.inr (h'.ready u hu)

theorem keeps_wakeTask (h : SameClock s s') (hs : s'.state = s.state) (t : Ptr) : KeepsDeadlines s (wakeTask t s') := by
  have hstate : ∀ u, (wakeTask t s').state u = if u = t then .ready else s.state u := fun u => by
    change Function.update s'.state t .ready u = _
    rw [Function.update_apply, hs]
  refine ⟨h.tickCount, fun u => ?_, fun u hu => ?_⟩
  · by_cases hut : u = t
    · exact Or.inr (by rw [hstate, if_pos hut])
    · refine Or.inl (Eq.trans ?_ (congrFun h.sleepUntil u))
      exact Function.update_of_ne hut _ _
  · rw [hstate]
    split
    · rfl
    · exact hu

theorem keeps_wakeSleeping (t : Ptr) (s : Tasks) : KeepsDeadlines s (wakeTask t (timerWheelRemove t s)) :=
  keeps_wakeTask (clock_timerWheelRemove t s) (timerWheelRemove_state t s) t

theorem keeps_taskWake (tid : Nat) (s : Tasks) : KeepsDeadlines s (taskWake tid s) := by
  unfold taskWake
  split
  · exact KeepsDeadlines.refl s
  · split
    · exact keeps_wakeSleeping _ s
    · exact KeepsDeadlines.refl s

theorem keeps_wakeSlot (s : Tasks) (i : Nat) : KeepsDeadlines s (wakeSlot s i) := by
  unfold wakeSlot
  split
  · exact KeepsDeadlines.refl s
  · split
    · exact keeps_wakeSleeping _ s
    · exact KeepsDeadlines.refl s

theorem keeps_wakeSlots : ∀ (l : List Nat) (s : Tasks), KeepsDeadlines s (l.foldl wakeSlot s)
  | [], s => KeepsDeadlines.refl s
  | i :: l, s => (keeps_wakeSlot s i).trans (keeps_wakeSlots l _)

theorem keeps_taskWakeOne (q : QueuePtr) (s : Tasks) : KeepsDeadlines s (taskWakeOne q s) := by
  unfold taskWakeOne
  split
  · exact KeepsDeadlines.refl s
  · rename_i t _
    have hclock : SameClock s (setWakeReason t .signaled (timerWheelRemove t (taskQueueRemove q t s))) :=
      ((clock_taskQueueRemove q t s).trans (clock_timerWheelRemove t _)).trans ⟨rfl, rfl⟩
    exact keeps_wakeTask hclock ((timerWheelRemove_state t _).trans (same_taskQueueRemove q t s).state) t

theorem keeps_wakeQueueLoop (q : QueuePtr) : ∀ (n : Nat) (s : Tasks), KeepsDeadlines s (wakeQueueLoop q n s)
  | 0, s => KeepsDeadlines.refl s
  | n + 1, s => by
    cases hw : s.waitHead q with
    | none =>
      rw [wakeQueueLoop_of_none hw]
      exact KeepsDeadlines.refl s
    | some t =>
      rw [wakeQueueLoop_of_some hw]
      have hclock : SameClock s (setWakeReason t .signaled (taskQueueRemove q t s)) :=
        (clock_taskQueueRemove q t s).trans ⟨rfl, rfl⟩
      exact (keeps_wakeTask hclock (same_taskQueueRemove q t s).state t).trans (keeps_wakeQueueLoop q n _)

theorem keeps_initTask (t : Ptr) (priority : Nat) (s : Tasks) : KeepsDeadlines s (initTask t priority s) := by
  have hself : (initTask t priority s).state t = .ready := Function.update_self _ _ _
  refine ⟨rfl, fun u => ?_, fun u hu => ?_⟩
  · by_cases hut : u = t
    · exact Or.inr (by rw [hut, hself])
    · exact Or.inl (Function.update_of_ne hut _ _)
  · by_cases hut : u = t
    · rw [hut, hself]
    · exact (Function.update_of_ne hut _ _).trans hu

theorem keeps_create (memory : Option Ptr) (stack : Bool) (priority : Nat) (s : Tasks) :
    KeepsDeadlines s (taskCreateArgPrio memory stack priority s) := by
  rcases taskCreateArgPrio_cases memory stack priority s with hs | ⟨t, slot, -, -, -, ⟨-, hs⟩ | ⟨-, hs⟩⟩
  · rw [hs]
    exact KeepsDeadlines.refl s
  · rw [hs]
    have h := keeps_initTask t priority s
    have hself : (initTask t priority s).state t = .ready := Function.update_self _ _ _
    have hstate : (schedulerAdd t (enterTask t priority slot s)).state = (initTask t priority s).state :=
      Function.update_eq_self_iff.2 hself.symm
    exact ⟨rfl, fun u => (h.sleepUntil u).imp_right (fun hu => by rw [hstate]; exact hu),
      fun u hu => by rw [hstate]; exact h.ready u hu⟩
  · rw [hs]
    exact keeps_initTask t priority s

def SchedCall.By (s : Tasks) (t : Ptr) : SchedCall → Prop
  | .timer (.call (.sleep _)) => s.currentTask = some t
  | .timer (.call (.blockOn _ _)) => s.currentTask = some t
  | _ => False

theorem sleep_fields (ms : Nat) (s : Tasks) : (taskSleep ms s).tickCount = s.tickCount ∧
    ∀ t, s.currentTask ≠ some t → (taskSleep ms s).sleepUntil t = s.sleepUntil t := by
  cases hcur : s.currentTask with
  | none =>
    rw [taskSleep_of_none hcur]
    exact ⟨rfl, fun _ _ => rfl⟩
  | some u =>
    rw [taskSleep_of_some hcur]
    have h := (clock_timerWheelInsert u (ticksOf ms) { s with
      sleepUntil := Function.update s.sleepUntil u (addU32 s.tickCount (ticksOf ms))
      state := Function.update s.state u .sleeping }).trans (clock_schedule _)
    refine ⟨h.tickCount, fun t ht => ?_⟩
    rw [h.sleepUntil]
    exact Function.update_of_ne (fun he => ht (by rw [he])) _ _

theorem blockOn_fields (q : QueuePtr) (timeoutMs : Nat) (s : Tasks) : (taskBlockOn q timeoutMs s).tickCount = s.tickCount ∧
    ∀ t, s.currentTask ≠ some t → (taskBlockOn q timeoutMs s).sleepUntil t = s.sleepUntil t := by
  cases hcur : s.currentTask with
  | none =>
    rw [taskBlockOn_of_none hcur]
    exact ⟨rfl, fun _ _ => rfl⟩
  | some u =>
    rw [taskBlockOn_of_some hcur]
    have h : SameClock (enqueueBlocked q u timeoutMs s) (schedule (if timeoutMs = taskNoTimeout then
        enqueueBlocked q u timeoutMs s else timerWheelInsert u (ticksOf timeoutMs) (enqueueBlocked q u timeoutMs s))) := by
      split
      · exact clock_schedule _
      · exact (clock_timerWheelInsert u _ _).trans (clock_schedule _)
    refine ⟨h.tickCount, fun t ht => ?_⟩
    rw [h.sleepUntil]
    exact Function.update_of_ne (fun he => ht (by rw [he])) _ _

theorem deadline_run (c : SchedCall) (hc : c ≠ .timer .tick) (s : Tasks) : (c.run s).tickCount = s.tickCount ∧
    ∀ t, ¬c.By s t → (c.run s).sleepUntil t = s.sleepUntil t ∨ (c.run s).state t = .ready := by
  have hsame : ∀ {s'}, SameClock s s' → s'.tickCount = s.tickCount ∧
      ∀ t, ¬c.By s t → s'.sleepUntil t = s.sleepUntil t ∨ s'.state t = .ready :=
    fun h => ⟨h.tickCount, fun t _ => Or.inl (congrFun h.sleepUntil t)⟩
  have hkeep : ∀ {s'}, KeepsDeadlines s s' → s'.tickCount = s.tickCount ∧
      ∀ t, ¬c.By s t → s'.sleepUntil t = s.sleepUntil t ∨ s'.state t = .ready :=
    fun h => ⟨h.tickCount, fun t _ => h.sleepUntil t⟩
  cases c with
  | yield => exact hsame (clock_taskYield s)
  | exit => exact hsame (clock_taskExit s)
  | wakeAllQueue q => exact hkeep (keeps_wakeQueueLoop q _ s)
  | timer c =>
    cases c with
    | wakeAll => exact hkeep (keeps_wakeSlots _ s)
    | tick => exact absurd rfl hc
    | call c =>
      cases c with
      | init idle idleStack reaper reaperStack =>
        have hidle : ∀ (o : Option Ptr) (s : Tasks), KeepsDeadlines s (setIdle o s) := by
          intro o s
          unfold setIdle
          split <;> exact ⟨rfl, fun _ => Or.inl rfl, fun _ h => h⟩
        have h0 : KeepsDeadlines s (clearTable s) := ⟨rfl, fun _ => Or.inl rfl, fun _ h => h⟩
        exact hkeep (((h0.trans (keeps_create idle idleStack taskPrioNormal _)).trans (hidle _ _)).trans
          (keeps_create reaper reaperStack taskPrioCritical _))
      | create memory stack priority => exact hkeep (keeps_create memory stack priority s)
      | add t => exact hsame ⟨rfl, rfl⟩
      | remove t => exact hsame (clock_schedulerRemove t s)
      | schedule => exact hsame (clock_schedule s)
      | boost t newPrio => exact hsame (clock_boost t newPrio s)
      | unboost t => exact hsame (clock_unboost t s)
      | sleep ms => exact ⟨(sleep_fields ms s).1, fun t ht => Or.inl ((sleep_fields ms s).2 t ht)⟩
      | wake tid => exact hkeep (keeps_taskWake tid s)
      | blockOn q timeoutMs => exact ⟨(blockOn_fields q timeoutMs s).1, fun t ht => Or.inl ((blockOn_fields q _ s).2 t ht)⟩
      | wakeOne q => exact hkeep (keeps_taskWakeOne q s)
      | destroy t => exact hsame (clock_taskDestroy t s)

/-! ## The buckets after a call -/

def SchedCall.KeepsBuckets (s : Tasks) : SchedCall → Prop
  | .timer c => c.KeepsBuckets s
  | _ => True

def SchedCall.Touches (s : Tasks) (t : Ptr) : SchedCall → Prop
  | .timer c => c.Touches s t
  | _ => False

theorem SchedCall.Valid.ofTimer {c : TimerCall} (h : (SchedCall.timer c).Valid s) : c.Valid s := by
  cases c with
  | wakeAll => trivial
  | tick => trivial
  | call c =>
    cases c with
    | init => exact h
    | create => exact h
    | destroy => exact h.1
    | _ => trivial

theorem kept_wakeTask (t : Ptr) (s : Tasks) : WheelKept s (wakeTask t s) := by
  have hstate : (wakeTask t s).state t = .ready := Function.update_self _ _ _
  exact ⟨rfl, rfl, rfl, rfl, rfl, kept_of_state (t := t) (not_timed_of_state (by rw [hstate]; decide)
    (by rw [hstate]; decide)) (fun u hu => Function.update_of_ne hu _ _) (fun u hu => Function.update_of_ne hu _ _)⟩

theorem kept_wakeQueueLoop (q : QueuePtr) : ∀ (n : Nat) (s : Tasks), WheelKept s (wakeQueueLoop q n s)
  | 0, s => WheelKept.refl s
  | n + 1, s => by
    cases hw : s.waitHead q with
    | none =>
      rw [wakeQueueLoop_of_none hw]
      exact WheelKept.refl s
    | some t =>
      rw [wakeQueueLoop_of_some hw]
      exact (((kept_taskQueueRemove q t s).trans (kept_setWakeReason t _ _)).trans (kept_wakeTask t _)).trans
        (kept_wakeQueueLoop q n _)

theorem kept_taskYield (s : Tasks) : WheelKept s (taskYield s) := by
  have h : WheelKept s (renewQuantum s) := by
    unfold renewQuantum
    split
    · exact WheelKept.refl s
    · exact ⟨rfl, rfl, rfl, rfl, rfl, fun _ h => ⟨h, rfl⟩⟩
  exact h.trans (kept_schedule _)

theorem kept_taskExit (s : Tasks) : WheelKept s (taskExit s) := by
  cases hcur : s.currentTask with
  | none =>
    rw [taskExit_of_none hcur]
    exact WheelKept.refl s
  | some t =>
    rw [taskExit_of_some hcur]
    have hstate : ({ s with state := Function.update s.state t .zombie } : Tasks).state t = .zombie :=
      Function.update_self _ _ _
    have h : WheelKept s { s with state := Function.update s.state t .zombie } :=
      ⟨rfl, rfl, rfl, rfl, rfl, kept_of_state (t := t) (not_timed_of_state (by rw [hstate]; decide)
        (by rw [hstate]; decide)) (fun u hu => Function.update_of_ne hu _ _) (fun _ _ => rfl)⟩
    exact h.trans (kept_schedule _)

theorem timers_sched {c : SchedCall} (h : Timers s none W) (hv : c.Valid s) (hk : c.KeepsBuckets s) :
    ∃ W', Timers (c.run s) none W' ∧ ∀ b < timerWheelSize, ∀ u ∈ W b, u ∈ W' b ∨ c.Touches s u := by
  have hkept : WheelKept s (c.run s) →
      ∃ W', Timers (c.run s) none W' ∧ ∀ b < timerWheelSize, ∀ u ∈ W b, u ∈ W' b ∨ c.Touches s u :=
    fun hk => ⟨W, h.kept hk, fun _ _ _ hu => Or.inl hu⟩
  cases c with
  | yield => exact hkept (kept_taskYield s)
  | exit => exact hkept (kept_taskExit s)
  | wakeAllQueue q => exact hkept (kept_wakeQueueLoop q _ s)
  | timer c =>
    obtain ⟨W', h'⟩ := timersOk_run h hv.ofTimer hk
    exact ⟨W', h'.timers, h'.stay⟩

theorem timers_schedRun (memory : Tasks) (cs : List SchedCall)
    (hA : Allowed schedStep (fun _ s c => c.Valid s ∧ c.KeepsBuckets s) (bootTasks memory) cs) :
    ∃ W, Timers (run schedStep (bootTasks memory) cs).2 none W :=
  run_keeps (I := fun _ s => ∃ W, Timers s none W)
    (fun _ s c ⟨W, h⟩ ⟨hv, hk⟩ => by
      obtain ⟨W', h', -⟩ := timers_sched h hv hk
      exact ⟨W', h'⟩)
    ⟨_, timers_bootTasks memory⟩ cs hA

/-! ## A task that waits -/

structure Pending (s : Tasks) (t : Ptr) (d : Nat) (x : TaskState) : Prop where
  wheel : ∃ W, Timers s none W ∧ t ∈ W (d % timerWheelSize)
  state : s.state t = x
  sleepUntil : s.sleepUntil t = d

theorem bucket_lt (d : Nat) : d % timerWheelSize < timerWheelSize := Nat.mod_lt _ (by decide)

theorem destroy_live (h : s.OneSlot) (t : Ptr) : ¬(taskDestroy t s).Live t := by
  have htab : (offLists t s).taskTable = s.taskTable :=
    (same_leaveQueue t _).taskTable.trans ((timerWheelRemove_taskTable t _).trans (kept_schedulerRemove t s).taskTable)
  intro hl
  exact ((forgetTask_live (oneSlot_congr htab h) t t).1 hl).1 rfl

theorem touches_blocked {c : SchedCall} (hslot : s.OneSlot) (hb : s.state t = .blocked) (hby : ¬c.By s t)
    (hc : c ≠ .timer .tick) (ht : c.Touches s t) (hstate : (c.run s).state t = s.state t) (hlive : (c.run s).Live t) :
    c.run s = s := by
  cases c with
  | yield => exact ht.elim
  | exit => exact ht.elim
  | wakeAllQueue q => exact ht.elim
  | timer c =>
    cases c with
    | wakeAll =>
      have hs : s.state t = .sleeping := ht
      rw [hb] at hs
      cases hs
    | tick => exact absurd rfl hc
    | call c =>
      cases c with
      | sleep ms => exact absurd ht hby
      | blockOn q timeoutMs => exact absurd ht.2 hby
      | destroy u =>
        obtain rfl : t = u := ht
        exact absurd hlive (destroy_live hslot t)
      | wakeOne q =>
        have hw : s.waitHead q = some t := ht
        have hself : (taskWakeOne q s).state t = .ready := by
          unfold taskWakeOne
          rw [hw]
          exact Function.update_self _ _ _
        have hsame : (taskWakeOne q s).state t = .blocked := hstate.trans hb
        rw [hself] at hsame
        cases hsame
      | wake tid =>
        have hf : taskFind s tid = some t := ht
        change taskWake tid s = s
        unfold taskWake
        rw [hf]
        exact if_neg (by rw [hb]; decide)
      | init => exact ht.elim
      | create => exact ht.elim
      | add => exact ht.elim
      | remove => exact ht.elim
      | schedule => exact ht.elim
      | boost => exact ht.elim
      | unboost => exact ht.elim

theorem Pending.call {c : SchedCall} (h : Pending s t d x) (hx : x = .sleeping ∨ x = .blocked) (hc : c ≠ .timer .tick)
    (hv : c.Valid s) (hk : c.KeepsBuckets s) (hstate : (c.run s).state t = s.state t) (hlive : (c.run s).Live t) :
    Pending (c.run s) t d x := by
  obtain ⟨W, hW, ht⟩ := h.wheel
  have hst := hstate.trans h.state
  have hby : ¬c.By s t := by
    intro hby
    have hrun : s.CurrentRuns ∧ s.currentTask = some t := by
      unfold SchedCall.By at hby
      split at hby
      · exact ⟨hv, hby⟩
      · exact ⟨hv, hby⟩
      · exact hby.elim
    have hr := hrun.1 t hrun.2
    rw [h.state] at hr
    rw [hr] at hx
    rcases hx with hx | hx <;> cases hx
  have hsleep : (c.run s).sleepUntil t = d := by
    rcases (deadline_run c hc s).2 t hby with he | he
    · exact he.trans h.sleepUntil
    · rw [hst] at he
      rw [he] at hx
      rcases hx with hx | hx <;> cases hx
  refine ⟨?_, hst, hsleep⟩
  obtain ⟨W', hW', hstay⟩ := timers_sched hW hv hk
  rcases hstay _ (bucket_lt d) t ht with ht' | htouch
  · exact ⟨W', hW', ht'⟩
  · rcases hx with hx | hx
    · have hm := hW'.timed t hlive (by simp) (Or.inl (hst.trans hx))
      rw [hsleep] at hm
      exact ⟨W', hW', hm⟩
    · rw [touches_blocked hW.slot (h.state.trans hx) hby hc htouch hstate hlive]
      exact ⟨W, hW, ht⟩

/-! ## Ticks -/

theorem fireTimer_state (hut : u ≠ t) : (fireTimer t s).state u = s.state u := by
  have hwake : ∀ s' : Tasks, s'.state = s.state → (wakeTask t s').state u = s.state u := fun s' hs => by
    rw [← hs]
    exact Function.update_of_ne hut _ _
  have hrem := timerWheelRemove_state t s
  unfold fireTimer
  simp only
  split
  · exact hwake _ hrem
  · exact hwake _ ((same_leaveQueue t (timerWheelRemove t s)).state.trans hrem)
  · rw [hrem]

theorem fireTimer_ready (h : s.state t = .sleeping ∨ s.state t = .blocked) : (fireTimer t s).state t = .ready := by
  have hrem : (timerWheelRemove t s).state t = s.state t := congrFun (timerWheelRemove_state t s) t
  unfold fireTimer
  simp only
  rcases h with h | h
  · rw [hrem, h]
    exact Function.update_self _ _ _
  · rw [hrem, h]
    exact Function.update_self _ _ _

theorem wheelLoop_tickCount : ∀ (n : Nat) (o : Option Ptr) (s : Tasks), (wheelLoop n o s).2.tickCount = s.tickCount
  | 0, none, _ => rfl
  | _ + 1, none, _ => rfl
  | 0, some _, _ => rfl
  | n + 1, some t, s => by
    rw [wheelLoop, wheelLoop_tickCount n]
    split
    · exact (fireTimer_fields t s).1
    · rfl

theorem next_of_bucket {b : Nat} {kept rest : List Ptr} (h : Wheel s W) (hb : b < timerWheelSize)
    (hW : W b = kept ++ t :: rest) : s.timer.next t = rest.head? ∧ t ∉ kept ∧ t ∉ rest := by
  have hseg := h.seg b hb
  have hnd := h.nodup b hb
  rw [hW] at hseg hnd
  rw [hseg.links.2, Option.or_none]
  rw [List.nodup_append, List.nodup_cons] at hnd
  exact ⟨rfl, fun hm => hnd.2.2 t hm t (by simp) rfl, hnd.2.1.1⟩

theorem timers_fired {b : Nat} {kept rest : List Ptr} (h : Timers s none W) (hb : b < timerWheelSize)
    (hW : W b = kept ++ t :: rest) : Timers (fireTimer t s) none (fun b => (W b).erase t) ∧
      (W b).erase t = kept ++ rest := by
  refine ⟨timers_fireTimer h hb (by rw [hW]; simp), ?_⟩
  rw [hW, List.erase_append_right _ (next_of_bucket h.toWheel hb hW).2.1, List.erase_cons_head]

theorem wheelLoop_passes {b : Nat} (hb : b < timerWheelSize) : ∀ (n : Nat) (kept rest : List Ptr) (s : Tasks)
    (W : Nat → List Ptr), Timers s none W → W b = kept ++ rest → rest.length ≤ n →
    ¬(t ∈ rest ∧ s.sleepUntil t ≤ s.tickCount) →
    (wheelLoop n rest.head? s).2.state t = s.state t ∧ (wheelLoop n rest.head? s).2.sleepUntil t = s.sleepUntil t
  | 0, _, [], _, _, _, _, _, _ => ⟨rfl, rfl⟩
  | _ + 1, _, [], _, _, _, _, _, _ => ⟨rfl, rfl⟩
  | 0, _, u :: rest, _, _, _, _, hn, _ => absurd hn (by simp)
  | n + 1, kept, u :: rest, s, W, h, hW, hn, hout => by
    have hn : rest.length ≤ n := by simpa using hn
    rw [List.head?_cons, wheelLoop, (next_of_bucket h.toWheel hb hW).1]
    by_cases hexp : s.sleepUntil u ≤ s.tickCount
    · rw [if_pos hexp]
      have htu : t ≠ u := by
        rintro rfl
        exact hout ⟨List.mem_cons_self, hexp⟩
      obtain ⟨hfired, hrest⟩ := timers_fired h hb hW
      have hf := fireTimer_fields u s
      obtain ⟨h1, h2⟩ := wheelLoop_passes hb n kept rest _ _ hfired hrest hn (by
        rw [hf.1, hf.2 t htu]
        exact fun hm => hout ⟨List.mem_cons_of_mem _ hm.1, hm.2⟩)
      exact ⟨h1.trans (fireTimer_state htu), h2.trans (hf.2 t htu)⟩
    · rw [if_neg hexp]
      exact wheelLoop_passes hb n (kept ++ [u]) rest s W h (by rw [hW]; simp) hn
        (fun hm => hout ⟨List.mem_cons_of_mem _ hm.1, hm.2⟩)

theorem wheelLoop_wakes {b : Nat} (hb : b < timerWheelSize) : ∀ (n : Nat) (kept rest : List Ptr) (s : Tasks)
    (W : Nat → List Ptr), Timers s none W → W b = kept ++ rest → rest.length ≤ n → t ∈ rest →
    s.sleepUntil t ≤ s.tickCount → (s.state t = .sleeping ∨ s.state t = .blocked) →
    (wheelLoop n rest.head? s).2.state t = .ready
  | 0, _, u :: rest, _, _, _, _, hn, _, _, _ => absurd hn (by simp)
  | n + 1, kept, u :: rest, s, W, h, hW, hn, ht, hd, hx => by
    have hn : rest.length ≤ n := by simpa using hn
    obtain ⟨hnext, -, hnot⟩ := next_of_bucket h.toWheel hb hW
    rw [List.head?_cons, wheelLoop, hnext]
    by_cases hut : u = t
    · subst hut
      rw [if_pos hd]
      obtain ⟨hfired, hrest⟩ := timers_fired h hb hW
      rw [(wheelLoop_passes hb n kept rest _ _ hfired hrest hn (fun hm => hnot hm.1)).1]
      exact fireTimer_ready hx
    · have ht : t ∈ rest := (List.mem_cons.1 ht).resolve_left (fun he => hut he.symm)
      by_cases hexp : s.sleepUntil u ≤ s.tickCount
      · rw [if_pos hexp]
        obtain ⟨hfired, hrest⟩ := timers_fired h hb hW
        have hf := fireTimer_fields u s
        have hst : (fireTimer u s).state t = s.state t := fireTimer_state (fun he => hut he.symm)
        refine wheelLoop_wakes hb n kept rest _ _ hfired hrest hn ht ?_ (by rw [hst]; exact hx)
        rw [hf.1, hf.2 t (fun he => hut he.symm)]
        exact hd
      · rw [if_neg hexp]
        exact wheelLoop_wakes hb n (kept ++ [u]) rest s W h (by rw [hW]; simp) hn ht hd hx

/-- The next tick comes to the task's bucket, and its deadline is not above the counter. -/
def DueNext (s : Tasks) (d : Nat) : Prop :=
  addU32 s.tickCount 1 % timerWheelSize = d % timerWheelSize ∧ d ≤ addU32 s.tickCount 1

theorem Pending.tickWalk (h : Pending s t d x) (hx : x = .sleeping ∨ x = .blocked) :
    (DueNext s d → (tickWalk s).2.state t = .ready) ∧ (¬DueNext s d → Pending (Sched.tickWalk s).2 t d x) := by
  obtain ⟨W, hW, ht⟩ := h.wheel
  have hb := bucket_lt (addU32 s.tickCount 1)
  have h1 : Timers { s with tickCount := addU32 s.tickCount 1 } none W :=
    ⟨hW.toWheel.congr rfl rfl rfl rfl, hW.timed, hW.slot⟩
  have hlen := length_le_taskMaxTasks hW.toWheel hb
  have hwalk : Sched.tickWalk s = wheelLoop taskMaxTasks (W (addU32 s.tickCount 1 % timerWheelSize)).head?
      { s with tickCount := addU32 s.tickCount 1 } := by
    unfold Sched.tickWalk schedulerTimerWheelTick
    rw [← hW.head _ hb]
  constructor
  · rintro ⟨hbucket, hd⟩
    rw [hwalk]
    refine wheelLoop_wakes hb taskMaxTasks [] _ _ W h1 rfl hlen ?_ ?_ ?_
    · rw [hbucket]
      exact ht
    · exact h.sleepUntil.trans_le hd
    · exact h.state ▸ hx
  · intro hnot
    have hpass : ¬(t ∈ W (addU32 s.tickCount 1 % timerWheelSize) ∧ s.sleepUntil t ≤ addU32 s.tickCount 1) := by
      rintro ⟨hm, hle⟩
      refine hnot ⟨?_, h.sleepUntil.symm.trans_le hle⟩
      rw [← (hW.bucket _ hb t hm).2, (hW.bucket _ (bucket_lt d) t ht).2]
    obtain ⟨hstate, hsleep⟩ := wheelLoop_passes hb taskMaxTasks [] _ _ W h1 rfl hlen hpass
    obtain ⟨-, W', hW', hstay⟩ := tickWalk_spec hW
    rw [← hwalk] at hstate hsleep
    refine ⟨⟨W', hW', ?_⟩, hstate.trans h.state, hsleep.trans h.sleepUntil⟩
    refine (hstay _ (bucket_lt d) t ht).resolve_right ?_
    rintro ⟨hbucket, hle⟩
    refine hpass ⟨?_, hle⟩
    rw [← hbucket, (hW.bucket _ (bucket_lt d) t ht).2]
    exact ht

theorem tickWalk_tickCount (s : Tasks) : (tickWalk s).2.tickCount = addU32 s.tickCount 1 :=
  wheelLoop_tickCount _ _ _

theorem timerCallback_kept (s : Tasks) : WheelKept (tickWalk s).2 (timerCallback s) ∧
    SameClock (tickWalk s).2 (timerCallback s) := by
  rcases timerCallback_walk s with ⟨-, he⟩ | ⟨task, -, he⟩
  · rw [he]
    exact ⟨WheelKept.refl _, SameClock.refl _⟩
  · rw [he]
    exact ⟨kept_useQuantum _ _, clock_useQuantum _ _⟩

theorem Pending.tick (h : Pending s t d x) (hx : x = .sleeping ∨ x = .blocked) (hnot : ¬DueNext s d)
    (hstate : (Sched.tickWalk s).2.state t = x → (timerCallback s).state t = x) : Pending (timerCallback s) t d x := by
  have hw := (h.tickWalk hx).2 hnot
  obtain ⟨hkept, hclock⟩ := timerCallback_kept s
  obtain ⟨W, hW, ht⟩ := hw.wheel
  exact ⟨⟨W, hW.kept hkept, ht⟩, hstate hw.state, (congrFun hclock.sleepUntil t).trans hw.sleepUntil⟩

/-! ## The ticks of a wait -/

inductive TimedWait
  | sleep (ms : UInt32)
  | blockOn (q : QueuePtr) (ms : UInt32) (timed : ms.toNat ≠ taskNoTimeout)

def TimedWait.ms : TimedWait → Nat
  | .sleep ms => ms.toNat
  | .blockOn _ ms _ => ms.toNat

def TimedWait.call : TimedWait → SchedCall
  | .sleep ms => .timer (.call (.sleep ms.toNat))
  | .blockOn q ms _ => .timer (.call (.blockOn q ms.toNat))

def TimedWait.state : TimedWait → TaskState
  | .sleep _ => .sleeping
  | .blockOn _ _ _ => .blocked

def TimedWait.ticks (w : TimedWait) : Nat := max 1 ((w.ms + 9) / 10)

theorem TimedWait.ms_lt (w : TimedWait) : w.ms < 2 ^ 32 := by
  cases w with
  | sleep ms => exact ms.toNat_lt
  | blockOn q ms h => exact ms.toNat_lt

theorem TimedWait.waiting (w : TimedWait) : w.state = .sleeping ∨ w.state = .blocked := by
  cases w with
  | sleep ms => exact Or.inl rfl
  | blockOn q ms h => exact Or.inr rfl

theorem pending_call (w : TimedWait) (h : ∃ W, Timers s none W) (hv : w.call.Valid s) (hk : w.call.KeepsBuckets s)
    (hcur : s.currentTask = some t) (hstate : (w.call.run s).state t = w.state) :
    Pending (w.call.run s) t (addU32 s.tickCount (ticksOf w.ms)) w.state ∧
      (w.call.run s).tickCount = s.tickCount := by
  obtain ⟨W, hW⟩ := h
  cases w with
  | sleep ms =>
    obtain ⟨W', h'⟩ := timersOk_run (c := .call (.sleep ms.toNat)) hW hv.ofTimer hk
    refine ⟨⟨⟨W', h'.timers, h'.starts t _ ⟨hcur, rfl⟩⟩, hstate, ?_⟩, (sleep_fields ms.toNat s).1⟩
    change (taskSleep ms.toNat s).sleepUntil t = _
    rw [taskSleep_of_some hcur, ((clock_timerWheelInsert t (ticksOf ms.toNat) _).trans (clock_schedule _)).sleepUntil]
    exact Function.update_self _ _ _
  | blockOn q ms htimed =>
    obtain ⟨W', h'⟩ := timersOk_run (c := .call (.blockOn q ms.toNat)) hW hv.ofTimer hk
    refine ⟨⟨⟨W', h'.timers, h'.starts t _ ⟨htimed, hcur, rfl⟩⟩, hstate, ?_⟩, (blockOn_fields q ms.toNat s).1⟩
    change (taskBlockOn q ms.toNat s).sleepUntil t = _
    rw [taskBlockOn_of_some hcur, if_neg htimed,
      ((clock_timerWheelInsert t (ticksOf ms.toNat) _).trans (clock_schedule _)).sleepUntil]
    have hset : (enqueueBlocked q t ms.toNat s).sleepUntil t = deadline s ms.toNat := Function.update_self _ _ _
    rw [hset, deadline, if_neg htimed]
    rfl

/-- The task is not woken or destroyed by the call.  Of a tick, what is scheduled behind the walk leaves it alone. -/
def SchedCall.LeavesWaiting (s : Tasks) (t : Ptr) : SchedCall → Prop
  | .timer .tick => (tickWalk s).2.state t = s.state t → (timerCallback s).state t = s.state t
  | c => (c.run s).state t = s.state t ∧ (c.run s).Live t

def SchedCall.isTick : SchedCall → Bool
  | .timer .tick => true
  | _ => false

def ticksIn (cs : List SchedCall) : Nat := cs.countP SchedCall.isTick

/-- After the calls `cs` that follow the wait, the next tick makes the task ready if and only if the time is up. -/
structure ExpiresOnTime (s : Tasks) (t : Ptr) (w : TimedWait) (cs : List SchedCall) : Prop where
  early : ticksIn cs + 1 < w.ticks → (tickWalk (run schedStep (w.call.run s) cs).2).2.state t = w.state
  due : ticksIn cs + 1 = w.ticks → (tickWalk (run schedStep (w.call.run s) cs).2).2.state t = .ready

/-- The bucket is visited first by the tick `(ticks - 1) % 256 + 1` after the call.  The timeout in milliseconds can be
rounded up with 32 bits, and: the wait takes one round of the wheel at most, or the counter does not wrap in it, or it has
wrapped by that visit. -/
def Punctual (tickCount : Nat) (w : TimedWait) : Prop :=
  w.ms + 9 < 2 ^ 32 ∧ (w.ticks ≤ timerWheelSize ∨ tickCount + w.ticks < 2 ^ 32 ∨
    2 ^ 32 ≤ tickCount + ((w.ticks - 1) % timerWheelSize + 1))

instance (tickCount : Nat) (w : TimedWait) : Decidable (Punctual tickCount w) := inferInstanceAs (Decidable (_ ∧ _))

/-- The tick `k + 1` after the call comes to the bucket, and the deadline is not above the counter. -/
def DueAt (tickCount ticks k : Nat) : Prop :=
  (tickCount + k + 1) % 2 ^ 32 % timerWheelSize = (tickCount + ticks) % 2 ^ 32 % timerWheelSize ∧
    (tickCount + ticks) % 2 ^ 32 ≤ (tickCount + k + 1) % 2 ^ 32

theorem ticksOf_eq (w : TimedWait) (h : w.ms + 9 < 2 ^ 32) : ticksOf w.ms = w.ticks := by
  unfold ticksOf TimedWait.ticks addU32
  rw [Nat.mod_eq_of_lt h]
  split <;> omega

theorem ticksOf_of_wrap (w : TimedWait) (h : ¬w.ms + 9 < 2 ^ 32) : ticksOf w.ms = 1 := by
  have hlt := w.ms_lt
  unfold ticksOf addU32
  rw [if_pos (by omega)]

theorem dueAt_of_punctual {T : Nat} (w : TimedWait) (hT : T < 2 ^ 32) (hp : Punctual T w) {k : Nat} :
    (k + 1 < w.ticks → ¬DueAt T (ticksOf w.ms) k) ∧ (k + 1 = w.ticks → DueAt T (ticksOf w.ms) k) := by
  obtain ⟨hms, hp⟩ := hp
  have hlt : w.ticks < 2 ^ 32 := by
    unfold TimedWait.ticks
    omega
  rw [ticksOf_eq w hms]
  unfold DueAt timerWheelSize at *
  omega

theorem dueAt_of_not_punctual {T : Nat} (w : TimedWait) (hT : T < 2 ^ 32) (hp : ¬Punctual T w) :
    ∃ k, k + 1 < w.ticks ∧ DueAt T (ticksOf w.ms) k ∧ ∀ j < k, ¬DueAt T (ticksOf w.ms) j := by
  by_cases hms : w.ms + 9 < 2 ^ 32
  · have hlt : w.ticks < 2 ^ 32 := by
      unfold TimedWait.ticks
      omega
    have hp : ¬(w.ticks ≤ timerWheelSize ∨ T + w.ticks < 2 ^ 32 ∨
        2 ^ 32 ≤ T + ((w.ticks - 1) % timerWheelSize + 1)) := fun h => hp ⟨hms, h⟩
    rw [ticksOf_eq w hms]
    refine ⟨(w.ticks - 1) % timerWheelSize, ?_, ?_, fun j hj => ?_⟩
    all_goals
      unfold DueAt timerWheelSize at *
      omega
  · rw [ticksOf_of_wrap w hms]
    refine ⟨0, ?_, ⟨rfl, Nat.le_refl _⟩, fun j hj => absurd hj (Nat.not_lt_zero j)⟩
    unfold TimedWait.ticks
    omega

/-! ## The run after the call -/

def WaitsOn (t : Ptr) (s : Tasks) (c : SchedCall) : Prop := c.Valid s ∧ c.KeepsBuckets s ∧ c.LeavesWaiting s t

theorem dueNext_iff {T n k : Nat} (h : s.tickCount = (T + k) % 2 ^ 32) :
    DueNext s ((T + n) % 2 ^ 32) ↔ DueAt T n k := by
  have hnext : addU32 s.tickCount 1 = (T + k + 1) % 2 ^ 32 := by
    rw [addU32, h]
    omega
  rw [DueNext, DueAt, hnext]

theorem pending_step {T n k : Nat} {c : SchedCall} (hx : x = .sleeping ∨ x = .blocked)
    (h : Pending s t ((T + n) % 2 ^ 32) x) (hT : s.tickCount = (T + k) % 2 ^ 32) (hc : WaitsOn t s c)
    (hnot : c.isTick = true → ¬DueAt T n k) : Pending (c.run s) t ((T + n) % 2 ^ 32) x ∧
      (c.run s).tickCount = (T + (k + ticksIn [c])) % 2 ^ 32 := by
  obtain ⟨hv, hk, hl⟩ := hc
  by_cases htick : c = .timer .tick
  · subst htick
    have hcount : (timerCallback s).tickCount = addU32 s.tickCount 1 :=
      (timerCallback_kept s).2.tickCount.trans (tickWalk_tickCount s)
    refine ⟨h.tick hx (fun hd => hnot rfl ((dueNext_iff hT).1 hd)) ?_, ?_⟩
    · have hl' : (tickWalk s).2.state t = s.state t → (timerCallback s).state t = s.state t := hl
      rw [h.state] at hl'
      exact hl'
    · refine hcount.trans ?_
      change addU32 s.tickCount 1 = (T + (k + 1)) % 2 ^ 32
      rw [addU32, hT]
      omega
  · have hcall : (c.run s).state t = s.state t ∧ (c.run s).Live t := by
      unfold SchedCall.LeavesWaiting at hl
      split at hl
      · exact absurd rfl htick
      · exact hl
    have hzero : ticksIn [c] = 0 := by
      have hno : c.isTick = false := by
        unfold SchedCall.isTick
        split
        · exact absurd rfl htick
        · rfl
      rw [ticksIn, List.countP_cons, hno]
      rfl
    refine ⟨h.call hx htick hv hk hcall.1 hcall.2, ?_⟩
    rw [hzero, Nat.add_zero, (deadline_run c htick s).1]
    exact hT

theorem ticksIn_cons (c : SchedCall) (cs : List SchedCall) : ticksIn (c :: cs) = ticksIn [c] + ticksIn cs := by
  rw [ticksIn, ticksIn, ticksIn, ← List.countP_append]
  rfl

theorem pending_run {T n : Nat} (hx : x = .sleeping ∨ x = .blocked) : ∀ (cs : List SchedCall) {s : Tasks} {k : Nat},
    Pending s t ((T + n) % 2 ^ 32) x → s.tickCount = (T + k) % 2 ^ 32 →
    Allowed schedStep (fun _ => WaitsOn t) s cs → (∀ j, k ≤ j → j < k + ticksIn cs → ¬DueAt T n j) →
    Pending (run schedStep s cs).2 t ((T + n) % 2 ^ 32) x ∧
      (run schedStep s cs).2.tickCount = (T + (k + ticksIn cs)) % 2 ^ 32
  | [], _, _, h, hT, _, _ => ⟨h, hT⟩
  | c :: cs, s, k, h, hT, hA, hnot => by
    obtain ⟨hc, hcs⟩ := allowed_cons.1 hA
    have hcount := ticksIn_cons c cs
    have hpos : c.isTick = true → ticksIn [c] = 1 := fun hc => by
      rw [ticksIn, List.countP_cons, hc]
      rfl
    obtain ⟨h1, hT1⟩ := pending_step hx h hT hc (fun htick => hnot k (Nat.le_refl k) (by rw [hcount, hpos htick]; omega))
    have h2 := pending_run hx cs h1 hT1 hcs (fun j hj hlt => hnot j (by omega) (by omega))
    rw [hcount, ← Nat.add_assoc k]
    exact h2

theorem expiresOnTime_of_punctual {w : TimedWait} (h : Pending (w.call.run s) t (addU32 s.tickCount (ticksOf w.ms)) w.state)
    (hcount : (w.call.run s).tickCount = s.tickCount) (hT : s.tickCount < 2 ^ 32) (hp : Punctual s.tickCount w)
    {cs : List SchedCall} (hA : Allowed schedStep (fun _ => WaitsOn t) (w.call.run s) cs) : ExpiresOnTime s t w cs := by
  have hstart : (w.call.run s).tickCount = (s.tickCount + 0) % 2 ^ 32 := by
    rw [hcount, Nat.add_zero, Nat.mod_eq_of_lt hT]
  have hrun : ticksIn cs < w.ticks → Pending (run schedStep (w.call.run s) cs).2 t
      (addU32 s.tickCount (ticksOf w.ms)) w.state ∧
      (run schedStep (w.call.run s) cs).2.tickCount = (s.tickCount + (0 + ticksIn cs)) % 2 ^ 32 := fun hlt =>
    pending_run w.waiting cs h hstart hA (fun j _ hj => (dueAt_of_punctual w hT hp).1 (by omega))
  constructor
  · intro hlt
    obtain ⟨hpend, htick⟩ := hrun (by omega)
    refine ((hpend.tickWalk w.waiting).2 (fun hd => ?_)).state
    refine (dueAt_of_punctual w hT hp).1 hlt ?_
    rw [Nat.zero_add] at htick
    exact (dueNext_iff htick).1 hd
  · intro heq
    obtain ⟨hpend, htick⟩ := hrun (by omega)
    refine (hpend.tickWalk w.waiting).1 ?_
    rw [Nat.zero_add] at htick
    exact (dueNext_iff htick).2 ((dueAt_of_punctual w hT hp).2 heq)

/-! ## Too early -/

theorem leavesWaiting_tick (h : Sound s) (hx : s.state t = .sleeping ∨ s.state t = .blocked) :
    (SchedCall.timer .tick).LeavesWaiting s t := by
  intro hsame
  rw [← hsame] at hx ⊢
  have hw := h.tickWalk
  rcases timerCallback_walk s with ⟨-, he⟩ | ⟨u, -, he⟩
  · rw [he]
  · rw [he]
    unfold useQuantum
    simp only
    split
    · obtain ⟨Q, hQ, -⟩ := (hw.setQuantum (Function.update (tickWalk s).2.quantum u ((tickWalk s).2.quantumMax u))).ready
      rcases schedule_state hQ t with he | ⟨hr, -⟩
      · exact he
      · have hr : (tickWalk s).2.state t = .ready ∨ (tickWalk s).2.state t = .running := hr
        rcases hx with hx | hx <;> rw [hx] at hr <;> rcases hr with hr | hr <;> cases hr
    · rfl

theorem ticksIn_replicate (k : Nat) : ticksIn (List.replicate k (.timer .tick)) = k := by
  rw [ticksIn, List.countP_replicate]
  rfl

theorem allowed_ticks {T n : Nat} (hx : x = .sleeping ∨ x = .blocked) : ∀ (m : Nat) {s : Tasks} {k : Nat}, Sound s →
    Pending s t ((T + n) % 2 ^ 32) x → s.tickCount = (T + k) % 2 ^ 32 → (∀ j < k + m, ¬DueAt T n j) →
    Allowed schedStep (fun _ => WaitsOn t) s (List.replicate m (.timer .tick))
  | 0, s, _, _, _, _, _ => allowed_nil s
  | m + 1, s, k, hs, h, hT, hnot => by
    have hw : WaitsOn t s (.timer .tick) := ⟨trivial, trivial, leavesWaiting_tick hs (by rw [h.state]; exact hx)⟩
    obtain ⟨h1, hT1⟩ := pending_step hx h hT hw (fun _ => hnot k (by omega))
    exact allowed_cons.2 ⟨hw, allowed_ticks hx m hs.timerCallback h1 hT1 (fun j hj => hnot j (by
      change j < k + 1 + m at hj
      omega))⟩

theorem TimedWait.keepsQueues (w : TimedWait) (s : Tasks) : w.call.KeepsQueues s := by
  cases w <;> trivial

theorem punctual_of_expires {w : TimedWait} (hs : Sound (w.call.run s))
    (h : Pending (w.call.run s) t (addU32 s.tickCount (ticksOf w.ms)) w.state)
    (hcount : (w.call.run s).tickCount = s.tickCount) (hT : s.tickCount < 2 ^ 32)
    (hall : ∀ cs, Allowed schedStep (fun _ => WaitsOn t) (w.call.run s) cs → ExpiresOnTime s t w cs) :
    Punctual s.tickCount w := by
  by_contra hp
  obtain ⟨k, hk, hdue, hnot⟩ := dueAt_of_not_punctual w hT hp
  have hstart : (w.call.run s).tickCount = (s.tickCount + 0) % 2 ^ 32 := by
    rw [hcount, Nat.add_zero, Nat.mod_eq_of_lt hT]
  have hA := allowed_ticks w.waiting k hs h hstart (fun j hj => hnot j (by omega))
  have hearly := (hall _ hA).early (by rw [ticksIn_replicate]; exact hk)
  obtain ⟨hpend, htick⟩ := pending_run w.waiting _ h hstart hA (fun j _ hj => hnot j (by
    rw [ticksIn_replicate] at hj
    omega))
  rw [ticksIn_replicate, Nat.zero_add] at htick
  rw [(hpend.tickWalk w.waiting).1 ((dueNext_iff htick).2 hdue)] at hearly
  have hw := w.waiting
  rw [← hearly] at hw
  rcases hw with hw | hw <;> cases hw

theorem tickCount_run (memory : Tasks) (cs : List SchedCall) :
    (run schedStep (bootTasks memory) cs).2.tickCount < 2 ^ 32 := by
  refine run_keeps (A := fun _ _ _ => True) (I := fun _ (s : Tasks) => s.tickCount < 2 ^ 32) (fun _ s c h _ => ?_)
    (show (0 : Nat) < 2 ^ 32 by decide) cs (fun _ _ _ _ => trivial)
  by_cases hc : c = .timer .tick
  · subst hc
    change (timerCallback s).tickCount < _
    rw [(timerCallback_kept s).2.tickCount, tickWalk_tickCount, addU32]
    exact Nat.mod_lt _ (by decide)
  · exact (deadline_run c hc s).1.trans_lt h

/-! ## Waits on time -/

/-- **Timed waits expire exactly on time** where they are punctual: in every run from the empty scheduler whose calls are
valid and keep the buckets, and that does not wake the task otherwise.  Where a wait is not punctual and the ready queues
are in order, ticks alone end it too early. -/
theorem timed_wait_iff (memory : Tasks) (cs : List SchedCall) (w : TimedWait) (t : Ptr)
    (hA : Allowed schedStep (fun _ s c => c.Valid s ∧ c.KeepsBuckets s) (bootTasks memory) (cs ++ [w.call]))
    (hcur : (run schedStep (bootTasks memory) cs).2.currentTask = some t)
    (hwait : (run schedStep (bootTasks memory) (cs ++ [w.call])).2.state t = w.state) :
    (Punctual (run schedStep (bootTasks memory) cs).2.tickCount w →
      ∀ after, Allowed schedStep (fun _ => WaitsOn t) (run schedStep (bootTasks memory) (cs ++ [w.call])).2 after →
        ExpiresOnTime (run schedStep (bootTasks memory) cs).2 t w after) ∧
    (Sound (run schedStep (bootTasks memory) cs).2 →
      (∀ after, Allowed schedStep (fun _ => WaitsOn t) (run schedStep (bootTasks memory) (cs ++ [w.call])).2 after →
        ExpiresOnTime (run schedStep (bootTasks memory) cs).2 t w after) →
      Punctual (run schedStep (bootTasks memory) cs).2.tickCount w) := by
  have hT := tickCount_run memory cs
  have hW := timers_schedRun memory cs hA.left
  obtain ⟨hv, hk⟩ := hA.last
  rw [run_concat] at hwait ⊢
  obtain ⟨hpend, hcount⟩ := pending_call w hW hv hk hcur hwait
  exact ⟨fun hp after hafter => expiresOnTime_of_punctual hpend hcount hT hp hafter,
    fun hs hall => punctual_of_expires (hs.run hv (w.keepsQueues _)) hpend hcount hT hall⟩

def oneTask : List SchedCall := [.timer (.call (.create (some 1) true 8)), .timer (.call .schedule)]

theorem allowed_oneTask (ms : UInt32) : Allowed schedStep (fun _ s c => c.Valid s ∧ c.KeepsBuckets s)
    (bootTasks zeroTasks) (oneTask ++ [TimedWait.call (.sleep ms)]) := by
  refine allowed_cons.2 ⟨⟨fresh_some (by decide +kernel), trivial⟩, allowed_cons.2 ⟨⟨trivial, trivial⟩,
    allowed_cons.2 ⟨⟨fun t ht => ?_, fun t ht => ?_⟩, allowed_nil _⟩⟩⟩
  all_goals
    have hcur : some 1 = some t := Eq.trans (by decide) ht
    injection hcur with hcur
    subst hcur
  · decide
  · exact ⟨(by decide +kernel : Tasks.Live _ 1), (by decide +kernel : ¬Tasks.DropsBucket _ 1)⟩

/-- A sleep of 10 ms ends with the next tick. -/
theorem timed_wait_ten : ExpiresOnTime (run schedStep (bootTasks zeroTasks) oneTask).2 1 (.sleep 10) [] :=
  (timed_wait_iff zeroTasks oneTask (.sleep 10) 1 (allowed_oneTask 10) (by decide) (by decide)).1
    (by decide) [] (allowed_nil _)

/-- **The longest sleep ends with the next tick**: the milliseconds are rounded up with 32 bits. -/
theorem not_timed_wait : ¬∀ (memory : Tasks) (cs : List SchedCall) (w : TimedWait) (t : Ptr),
    Allowed schedStep (fun _ s c => c.Valid s ∧ c.KeepsBuckets s) (bootTasks memory) (cs ++ [w.call]) →
    (run schedStep (bootTasks memory) cs).2.currentTask = some t →
    (run schedStep (bootTasks memory) (cs ++ [w.call])).2.state t = w.state →
    ∀ after, Allowed schedStep (fun _ => WaitsOn t) (run schedStep (bootTasks memory) (cs ++ [w.call])).2 after →
      ExpiresOnTime (run schedStep (bootTasks memory) cs).2 t w after := by
  intro hall
  have h := (hall zeroTasks oneTask (.sleep 0xFFFFFFFF) 1 (allowed_oneTask _) (by decide) (by decide) []
    (allowed_nil _)).early (by decide)
  exact absurd h (by decide)

end

end Sched
end AmitX
