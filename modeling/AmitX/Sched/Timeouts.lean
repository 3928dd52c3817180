import AmitX.Sched.CallsRun
/-!
# Timeouts — a task that waits without a timeout is not timed out

Only tasks that sleep or wait with a timeout are on the timer wheel, as long as `task_wake_all_queue` is not called on a
queue with such a task: it wakes the task and leaves it on the wheel, whose bucket later times out whatever the task
waits for then.
-/
namespace AmitX
namespace Sched

open Links Run

abbrev MadeCall := Option Ptr × SchedCall

def waitStep (s : Tasks) (c : SchedCall) : MadeCall × Tasks := ((s.currentTask, c), c.run s)

/-- The timeout of the last `task_block_on` that the task has made. -/
def lastWait (t : Ptr) (es : List MadeCall) : Option Nat :=
  es.foldl (fun w e =>
    match e with
    | (some u, .timer (.call (.blockOn _ timeoutMs))) => if u = t then some timeoutMs else w
    | _ => w) none

/-- **No spurious timeouts**: a task that has last waited without a timeout has not been timed out, and a task on the
wheel is asleep or blocked. -/
def TimeoutsMeant (es : List MadeCall) (s : Tasks) : Prop :=
  (∀ t, s.Live t → lastWait t es = some taskNoTimeout → s.wakeReason t ≠ .timeout) ∧
    ∀ t, s.InWheel t → s.state t = .sleeping ∨ s.state t = .blocked

/-- `task_wake_all_queue` is called on no queue with a task that is on the wheel. -/
def SchedCall.KeepsTimers (s : Tasks) : SchedCall → Prop
  | .wakeAllQueue q => ∀ t, s.Live t → s.state t = .blocked → s.waitQueue t = some q → ¬s.InWheel t
  | _ => True

/-- The tasks of `U` have last waited without a timeout. -/
structure Armed (s : Tasks) (U : Ptr → Prop) : Prop where
  wheel : ∀ t, s.InWheel t → s.state t = .sleeping ∨ s.state t = .blocked ∧ ¬U t
  reason : ∀ t, s.Live t → U t → s.wakeReason t ≠ .timeout

/-- No task comes on the wheel, what is on it sleeps or waits on, and no task is timed out. -/
structure Calm (s s' : Tasks) : Prop where
  inWheel : ∀ t, s'.InWheel t → s.InWheel t
  state : ∀ t, s'.InWheel t → s.state t = .sleeping ∨ s.state t = .blocked → s'.state t = s.state t
  reason : ∀ t, s'.Live t → s'.wakeReason t = .timeout → s.Live t ∧ s.wakeReason t = .timeout

section

variable {s s' s'' : Tasks} {U : Ptr → Prop} {t u : Ptr} {q : QueuePtr}

theorem Calm.refl (s : Tasks) : Calm s s := ⟨fun _ h => h, fun _ _ _ => rfl, fun _ h hr => ⟨h, hr⟩⟩

theorem Calm.trans (h : Calm s s') (h' : Calm s' s'') : Calm s s'' := by
  refine ⟨fun t ht => h.inWheel t (h'.inWheel t ht), fun t ht hs => ?_, fun t hl hr => ?_⟩
  · have hst := h.state t (h'.inWheel t ht) hs
    exact (h'.state t ht (by rw [hst]; exact hs)).trans hst
  · obtain ⟨hl', hr'⟩ := h'.reason t hl hr
    exact h.reason t hl' hr'

theorem Armed.calm (h : Armed s U) (hc : Calm s s') : Armed s' U := by
  refine ⟨fun t ht => ?_, fun t hl hu hr => ?_⟩
  · have hw := h.wheel t (hc.inWheel t ht)
    rw [hc.state t ht (hw.imp_right (fun hb => hb.1))]
    exact hw
  · obtain ⟨hl', hr'⟩ := hc.reason t hl hr
    exact h.reason t hl' hu hr'

theorem calm_of_same (hw : SameWheel s s') (hr : s'.wakeReason = s.wakeReason)
    (hs : ∀ t, s.state t = .sleeping ∨ s.state t = .blocked → s'.state t = s.state t) : Calm s s' :=
  ⟨fun _ ht => (inWheel_congr hw).1 ht, fun t _ => hs t,
    fun t hl ht => ⟨(live_congr hw.taskTable).1 hl, by rw [← hr]; exact ht⟩⟩

/-! ## What the calls do to the reasons -/

theorem schedulerRemove_wakeReason (t : Ptr) (s : Tasks) : (schedulerRemove t s).wakeReason = s.wakeReason := by
  unfold schedulerRemove
  split <;> rfl

theorem timerWheelRemove_wakeReason (t : Ptr) (s : Tasks) : (timerWheelRemove t s).wakeReason = s.wakeReason := by
  unfold timerWheelRemove
  split <;> rfl

theorem taskQueueRemove_wakeReason (q : QueuePtr) (t : Ptr) (s : Tasks) :
    (taskQueueRemove q t s).wakeReason = s.wakeReason := by
  unfold taskQueueRemove
  split <;> rfl

theorem leaveQueue_wakeReason (t : Ptr) (s : Tasks) : (leaveQueue t s).wakeReason = s.wakeReason := by
  unfold leaveQueue
  split
  · rfl
  · exact taskQueueRemove_wakeReason _ t s

theorem schedule_wakeReason (s : Tasks) : (schedule s).wakeReason = s.wakeReason := by
  unfold schedule
  cases (schedulerNext s).1 with
  | none => rfl
  | some next =>
    simp only
    split
    · rfl
    · change (schedulerRemove next _).wakeReason = _
      rw [schedulerRemove_wakeReason, (requeue_fields _ _).2.1]
      rfl

theorem changePrio_wakeReason (t : Ptr) (prio : Nat) (s : Tasks) : (changePrio t prio s).wakeReason = s.wakeReason := by
  unfold changePrio
  simp only
  split
  · change (schedulerRemove t _).wakeReason = _
    rw [schedulerRemove_wakeReason]
  · rfl

/-! ## Calls that time out no task -/

theorem calm_schedule (h : Sound s) : Calm s (schedule s) := by
  obtain ⟨Q, hQ, -⟩ := h.ready
  refine calm_of_same (kept_schedule s).same (schedule_wakeReason s) (fun t ht => ?_)
  rcases schedule_state hQ t with he | ⟨hr, -⟩
  · exact he
  · rcases ht with ht | ht <;> rw [ht] at hr <;> simp at hr

theorem calm_setQuantum (f : Ptr → Nat) (s : Tasks) : Calm s { s with quantum := f } :=
  calm_of_same ⟨rfl, rfl, rfl, rfl⟩ rfl (fun _ _ => rfl)

theorem calm_renewQuantum (s : Tasks) : Calm s (renewQuantum s) := by
  unfold renewQuantum
  split
  · exact Calm.refl s
  · exact calm_setQuantum _ s

theorem calm_setState (hw : SameWheel s s') (hr : s'.wakeReason = s.wakeReason) (hs : s.state t ≠ .sleeping)
    (hb : s.state t ≠ .blocked) (hother : ∀ u, u ≠ t → s'.state u = s.state u) : Calm s s' := by
  refine calm_of_same hw hr (fun u hu => hother u ?_)
  rintro rfl
  exact hu.elim hs hb

theorem calm_schedulerAdd (hs : s.state t ≠ .sleeping) (hb : s.state t ≠ .blocked) : Calm s (schedulerAdd t s) :=
  calm_setState (kept_schedulerAdd t s).same rfl hs hb (fun _ hu => Function.update_of_ne hu _ _)

theorem calm_changePrio (t : Ptr) (prio : Nat) (s : Tasks) : Calm s (changePrio t prio s) :=
  calm_of_same (kept_changePrio t prio s).same (changePrio_wakeReason t prio s)
    (fun u _ => congrFun (changePrio_fields t prio s).1 u)

theorem calm_boost (t : Ptr) (newPrio : Nat) (s : Tasks) : Calm s (taskBoostPriority t newPrio s) := by
  unfold taskBoostPriority
  simp only
  split
  · exact Calm.refl s
  · split
    · exact Calm.refl s
    · exact calm_changePrio t _ s

theorem calm_unboost (t : Ptr) (s : Tasks) : Calm s (taskUnboostPriority t s) := by
  unfold taskUnboostPriority
  split
  · exact Calm.refl s
  · exact calm_changePrio t _ s

theorem calm_wake (h : WheelLinks s) (ht : s.Live t) (hw : SameWheel (timerWheelRemove t s) s')
    (hr : ∀ u, s'.wakeReason u = .timeout → s.wakeReason u = .timeout) (hs : ∀ u, u ≠ t → s'.state u = s.state u) :
    Calm s (wakeTask t s') := by
  have hwake : SameWheel s' (wakeTask t s') := ⟨rfl, rfl, rfl, rfl⟩
  have hin : ∀ u, (wakeTask t s').InWheel u → s.InWheel u ∧ u ≠ t := fun u hu =>
    (h.remove ht).2 u ((inWheel_congr hw).1 ((inWheel_congr hwake).1 hu))
  refine ⟨fun u hu => (hin u hu).1, fun u hu _ => ?_, fun u hl hu => ⟨?_, hr u hu⟩⟩
  · change Function.update s'.state t .ready u = _
    rw [Function.update_of_ne (hin u hu).2, hs u (hin u hu).2]
  · exact (live_congr (timerWheelRemove_taskTable t s)).1 ((live_congr hw.taskTable).1 hl)

theorem calm_wakeSleeping (h : WheelLinks s) (ht : s.Live t) : Calm s (wakeTask t (timerWheelRemove t s)) :=
  calm_wake h ht (SameWheel.refl _) (fun u hu => by rw [timerWheelRemove_wakeReason] at hu; exact hu)
    (fun u _ => by rw [timerWheelRemove_state])

theorem calm_taskWake (h : Sound s) (tid : Nat) : Calm s (taskWake tid s) := by
  unfold taskWake
  cases hf : taskFind s tid with
  | none => exact Calm.refl s
  | some t =>
    simp only
    split
    · exact calm_wakeSleeping h.wheel (live_taskFind hf)
    · exact Calm.refl s

theorem calm_taskWakeAll (h : Sound s) : Calm s (taskWakeAll s) := by
  have hall : ∀ l : List Nat, (∀ i ∈ l, i < taskMaxTasks) → ∀ s, Sound s → Calm s (l.foldl wakeSlot s) := by
    intro l
    induction l with
    | nil => exact fun _ s _ => Calm.refl s
    | cons i l ih =>
      intro hl s hs
      have hi := hl i (by simp)
      have h1 : Calm s (wakeSlot s i) := by
        unfold wakeSlot
        cases ht : s.taskTable i with
        | none => exact Calm.refl s
        | some t =>
          simp only
          split
          · exact calm_wakeSleeping hs.wheel ⟨i, hi, ht⟩
          · exact Calm.refl s
      exact h1.trans (ih (fun j hj => hl j (List.mem_cons_of_mem _ hj)) _ (hs.wakeSlot hi))
  exact hall _ (fun i hi => List.mem_range.1 hi) s h

theorem setWakeReason_signaled (h : (setWakeReason t .signaled s).wakeReason u = .timeout) :
    s.wakeReason u = .timeout := by
  change Function.update s.wakeReason t .signaled u = _ at h
  by_cases hut : u = t
  · rw [hut, Function.update_self] at h
    cases h
  · rw [Function.update_of_ne hut] at h
    exact h

theorem calm_taskWakeOne (h : Sound s) (q : QueuePtr) : Calm s (taskWakeOne q s) := by
  unfold taskWakeOne
  cases hw : s.waitHead q with
  | none => exact Calm.refl s
  | some t =>
    obtain ⟨V, hV⟩ := h.waits
    obtain ⟨-, ht, -⟩ := hV.head_spec hw
    have hk := (kept_taskQueueRemove q t s).same
    have hpop : Calm s (taskQueueRemove q t s) := calm_of_same hk (taskQueueRemove_wakeReason q t s)
      (fun u _ => congrFun (same_taskQueueRemove q t s).state u)
    refine hpop.trans (calm_wake (h.wheel.congr hk) ((live_congr hk.taskTable).2 ht) ⟨rfl, rfl, rfl, rfl⟩ (fun u hu => ?_)
      (fun u _ => ?_))
    · have hu1 := setWakeReason_signaled hu
      rw [timerWheelRemove_wakeReason] at hu1
      exact hu1
    · change (timerWheelRemove t _).state u = _
      rw [timerWheelRemove_state]

theorem calm_popWake (ht : ¬s.InWheel t) : Calm s (wakeTask t (setWakeReason t .signaled (taskQueueRemove q t s))) := by
  have hw : SameWheel s (wakeTask t (setWakeReason t .signaled (taskQueueRemove q t s))) :=
    (kept_taskQueueRemove q t s).same.trans ⟨rfl, rfl, rfl, rfl⟩
  have hin : ∀ u, (wakeTask t (setWakeReason t .signaled (taskQueueRemove q t s))).InWheel u → s.InWheel u := fun u hu =>
    (inWheel_congr hw).1 hu
  refine ⟨hin, fun u hu _ => ?_, fun u hl hu => ⟨(live_congr hw.taskTable).1 hl, ?_⟩⟩
  · have hut : u ≠ t := by
      rintro rfl
      exact ht (hin u hu)
    change Function.update (taskQueueRemove q t s).state t .ready u = _
    rw [Function.update_of_ne hut, (same_taskQueueRemove q t s).state]
  · have hu1 := setWakeReason_signaled hu
    rw [taskQueueRemove_wakeReason] at hu1
    exact hu1

theorem popWake_waitQueue (hu : u ≠ t) :
    (wakeTask t (setWakeReason t .signaled (taskQueueRemove q t s))).waitQueue u = s.waitQueue u := by
  change (taskQueueRemove q t s).waitQueue u = _
  unfold taskQueueRemove
  split
  · rfl
  · exact Function.update_of_ne hu _ _

theorem calm_wakeQueueLoop : ∀ (n : Nat) (s : Tasks), Sound s → (SchedCall.wakeAllQueue q).KeepsTimers s →
    Calm s (wakeQueueLoop q n s)
  | 0, s, _, _ => Calm.refl s
  | n + 1, s, h, hk => by
    cases hw : s.waitHead q with
    | none =>
      rw [wakeQueueLoop_of_none hw]
      exact Calm.refl s
    | some t =>
      rw [wakeQueueLoop_of_some hw]
      obtain ⟨V, hV⟩ := h.waits
      obtain ⟨-, ht, hb, hq⟩ := hV.head_spec hw
      have h1 := calm_popWake (q := q) (hk t ht hb hq)
      have hsw : SameWheel s (wakeTask t (setWakeReason t .signaled (taskQueueRemove q t s))) :=
        (kept_taskQueueRemove q t s).same.trans ⟨rfl, rfl, rfl, rfl⟩
      refine h1.trans (calm_wakeQueueLoop n _ (h.popWake hw) (fun u hl hbu hqu hin => ?_))
      have hut : u ≠ t := by
        rintro rfl
        have hr : (wakeTask u (setWakeReason u .signaled (taskQueueRemove q u s))).state u = .ready :=
          Function.update_self _ _ _
        rw [hr] at hbu
        cases hbu
      rw [popWake_waitQueue hut] at hqu
      have hst : (wakeTask t (setWakeReason t .signaled (taskQueueRemove q t s))).state u = s.state u :=
        (Function.update_of_ne hut _ _).trans (congrFun (same_taskQueueRemove q t s).state u)
      rw [hst] at hbu
      exact hk u ((live_congr hsw.taskTable).1 hl) hbu hqu ((inWheel_congr hsw).1 hin)

theorem calm_create {memory : Option Ptr} {stack : Bool} (h : Sound s) (hnew : ∀ t, memory = some t → ¬s.Live t)
    (priority : Nat) : Calm s (taskCreateArgPrio memory stack priority s) := by
  obtain ⟨-, hin⟩ := wheelLinks_create h.wheel hnew stack priority
  rcases taskCreateArgPrio_cases memory stack priority s with hs | ⟨t, slot, hm, hslot, hfree, ⟨-, hs⟩ | ⟨-, hs⟩⟩
  · rw [hs]
    exact Calm.refl s
  all_goals
    rw [hs] at hin ⊢
    have hnl := hnew t hm
    have hreason : ∀ u, u ≠ t → (initTask t priority s).wakeReason u = s.wakeReason u := fun u hu =>
      Function.update_of_ne hu _ _
    refine ⟨fun u hu => (hin u hu).1, fun u hu _ => ?_, fun u hl hr => ?_⟩
  · have hut := (hin u hu).2 t hm
    exact (Function.update_of_ne hut _ _).trans (Function.update_of_ne hut _ _)
  · have hut : u ≠ t := by
      rintro rfl
      have hself : (initTask u priority s).wakeReason u = .none_ := Function.update_self _ _ _
      change (initTask u priority s).wakeReason u = _ at hr
      rw [hself] at hr
      cases hr
    change (initTask t priority s).wakeReason u = _ at hr
    rw [hreason u hut] at hr
    exact ⟨((live_enter hslot hfree rfl u).1 hl).resolve_right hut, hr⟩
  · exact Function.update_of_ne ((hin u hu).2 t hm) _ _
  · have hl' : s.Live u := hl
    have hut : u ≠ t := by
      rintro rfl
      exact hnl hl'
    rw [hreason u hut] at hr
    exact ⟨hl', hr⟩

theorem calm_destroy (h : Sound s) (ht : s.Live t) : Calm s (taskDestroy t s) := by
  have hk := kept_schedulerRemove t s
  have hf := schedulerRemove_fields t s
  have hlq := same_leaveQueue t (timerWheelRemove t (schedulerRemove t s))
  have htab : (offLists t s).taskTable = s.taskTable :=
    hlq.taskTable.trans ((timerWheelRemove_taskTable t _).trans hk.taskTable)
  have hslot : (offLists t s).OneSlot := oneSlot_congr htab h.slot
  have hstate : (taskDestroy t s).state = s.state := ((forgetTask_waits t (offLists t s)).2.2.2.2.1).trans
    (hlq.state.trans ((timerWheelRemove_state t _).trans hf.1))
  have hreason : (taskDestroy t s).wakeReason = s.wakeReason := by
    have h1 : (forgetTask t (offLists t s)).wakeReason = (offLists t s).wakeReason := by
      unfold forgetTask
      split <;> rfl
    refine h1.trans ?_
    unfold offLists
    rw [leaveQueue_wakeReason, timerWheelRemove_wakeReason, schedulerRemove_wakeReason]
  refine ⟨(wheelLinks_destroy h ht).2, fun u _ _ => by rw [hstate], fun u hl hr => ⟨?_, by rw [← hreason]; exact hr⟩⟩
  exact (live_congr htab).1 ((forgetTask_live hslot t u).1 hl).2

/-! ## Sleeping and waiting -/

theorem Armed.taskSleep (h : Armed s U) (hs : Sound s) (hc : s.CurrentRuns) (ms : Nat) : Armed (taskSleep ms s) U := by
  cases hcur : s.currentTask with
  | none =>
    rw [taskSleep_of_none hcur]
    exact h
  | some t =>
    have hl := hs.current t hcur
    have hsound := hs.taskSleep hc ms
    rw [taskSleep_of_some hcur] at hsound ⊢
    generalize he : { s with
      sleepUntil := Function.update s.sleepUntil t (addU32 s.tickCount (ticksOf ms))
      state := Function.update s.state t .sleeping } = s1
    have hw1 : SameWheel s s1 := by
      rw [← he]
      exact ⟨rfl, rfl, rfl, rfl⟩
    have hself : s1.state t = .sleeping := by
      rw [← he]
      exact Function.update_self _ _ _
    have hother : ∀ u, u ≠ t → s1.state u = s.state u := fun u hu => by
      rw [← he]
      exact Function.update_of_ne hu _ _
    have hr1 : s1.wakeReason = s.wakeReason := by rw [← he]
    have hrun := hc t hcur
    have hs1 : Sound s1 := hs.stop (x := .sleeping) (t := t) (by rw [hrun]; decide) (by rw [hrun]; decide) (by decide)
      (by decide) (by rw [← he]; exact ⟨⟨rfl, rfl, rfl, rfl, rfl, rfl⟩, rfl, rfl, rfl⟩) hw1
      (by rw [← he]; exact ⟨rfl, rfl, rfl, rfl, rfl⟩)
    have hl1 : s1.Live t := (live_congr hw1.taskTable).2 hl
    obtain ⟨-, hin⟩ := hs1.wheel.insert hl1 (ticksOf ms)
    have hsr := same_timerWheelInsert t (ticksOf ms) s1
    have hreason : (timerWheelInsert t (ticksOf ms) s1).wakeReason = s.wakeReason :=
      (timerWheelRemove_wakeReason t s1).trans hr1
    refine Armed.calm ⟨fun u hu => ?_, fun u hlu hU => ?_⟩ (calm_schedule (hs1.timerWheelInsert hl1 _))
    · rw [hsr.state]
      by_cases hut : u = t
      · rw [hut]
        exact Or.inl hself
      · rw [hother u hut]
        exact h.wheel u ((inWheel_congr hw1).1 ((hin u hu).resolve_right hut))
    · rw [hreason]
      exact h.reason u ((live_congr hw1.taskTable).1 ((live_congr hsr.taskTable).1 hlu)) hU

theorem Armed.taskBlockOn (h : Armed s U) (hs : Sound s) (hc : s.CurrentRuns) (hcur : s.currentTask = some t)
    (q : QueuePtr) (timeoutMs : Nat) {U' : Ptr → Prop} (hU : ∀ u, u ≠ t → (U' u ↔ U u))
    (hUt : U' t ↔ timeoutMs = taskNoTimeout) : Armed (taskBlockOn q timeoutMs s) U' := by
  have hl := hs.current t hcur
  have hrun := hc t hcur
  have hb := hs.block hl hrun q timeoutMs
  have hw : SameWheel s (enqueueBlocked q t timeoutMs s) := ⟨rfl, rfl, rfl, rfl⟩
  have hself : (enqueueBlocked q t timeoutMs s).state t = .blocked := Function.update_self _ _ _
  have hother : ∀ u, u ≠ t → (enqueueBlocked q t timeoutMs s).state u = s.state u := fun u hu =>
    Function.update_of_ne hu _ _
  have hout : ¬s.InWheel t := fun hin => by
    rcases h.wheel t hin with hst | ⟨hst, -⟩
    all_goals rw [hrun] at hst; cases hst
  have hreason : ∀ u, s.Live u → U' u → (enqueueBlocked q t timeoutMs s).wakeReason u ≠ .timeout := by
    intro u hlu hu
    change Function.update s.wakeReason t .none_ u ≠ _
    by_cases hut : u = t
    · rw [hut, Function.update_self]
      decide
    · rw [Function.update_of_ne hut]
      exact h.reason u hlu ((hU u hut).1 hu)
  have hwheel : ∀ u, u ≠ t → s.InWheel u → (enqueueBlocked q t timeoutMs s).state u = .sleeping ∨
      (enqueueBlocked q t timeoutMs s).state u = .blocked ∧ ¬U' u := fun u hut hin => by
    rw [hother u hut, hU u hut]
    exact h.wheel u hin
  rw [taskBlockOn_of_some hcur]
  split
  · refine Armed.calm ⟨fun u hu => ?_, fun u hlu => hreason u ((live_congr hw.taskTable).1 hlu)⟩ (calm_schedule hb)
    have hin := (inWheel_congr hw).1 hu
    refine hwheel u ?_ hin
    rintro rfl
    exact hout hin
  · rename_i hne
    generalize enqueueBlocked q t timeoutMs s = s1 at hb hw hself hreason hwheel
    have hl1 : s1.Live t := (live_congr hw.taskTable).2 hl
    obtain ⟨-, hin⟩ := hb.wheel.insert hl1 (ticksOf timeoutMs)
    have hsr := same_timerWheelInsert t (ticksOf timeoutMs) s1
    have hr1 : (timerWheelInsert t (ticksOf timeoutMs) s1).wakeReason = s1.wakeReason := timerWheelRemove_wakeReason t s1
    refine Armed.calm ⟨fun u hu => ?_, fun u hlu hU' => ?_⟩ (calm_schedule (hb.timerWheelInsert hl1 _))
    · rw [hsr.state]
      by_cases hut : u = t
      · rw [hut, hUt]
        exact Or.inr ⟨hself, hne⟩
      · exact hwheel u hut ((inWheel_congr hw).1 ((hin u hu).resolve_right hut))
    · rw [hr1]
      exact hreason u ((live_congr hw.taskTable).1 ((live_congr hsr.taskTable).1 hlu)) hU'

/-! ## Ticks -/

theorem fireTimer_effect (t : Ptr) (s : Tasks) : SameWheel (timerWheelRemove t s) (fireTimer t s) ∧
    (∀ u, u ≠ t → (fireTimer t s).state u = s.state u ∧ (fireTimer t s).wakeReason u = s.wakeReason u) ∧
    (fireTimer t s).state t ≠ .blocked ∧ (s.state t ≠ .blocked → (fireTimer t s).wakeReason = s.wakeReason) := by
  have hst := timerWheelRemove_state t s
  have hwr := timerWheelRemove_wakeReason t s
  unfold fireTimer
  generalize timerWheelRemove t s = s1 at hst hwr
  simp only
  have hready : ∀ s2 : Tasks, (wakeTask t s2).state t ≠ .blocked := fun s2 => by
    change Function.update s2.state t .ready t ≠ _
    rw [Function.update_self]
    decide
  split
  · refine ⟨⟨rfl, rfl, rfl, rfl⟩, fun u hu => ⟨?_, congrFun hwr u⟩, hready _, fun _ => hwr⟩
    exact (Function.update_of_ne hu _ _).trans (congrFun hst u)
  · rename_i hb
    refine ⟨(kept_leaveQueue t s1).same.trans ⟨rfl, rfl, rfl, rfl⟩, fun u hu => ⟨?_, ?_⟩, hready _, fun hne => ?_⟩
    · refine (Function.update_of_ne hu _ _).trans ?_
      change (leaveQueue t s1).state u = _
      rw [(same_leaveQueue t s1).state, hst]
    · change Function.update (leaveQueue t s1).wakeReason t .timeout u = _
      rw [Function.update_of_ne hu, leaveQueue_wakeReason, hwr]
    · rw [hst] at hb
      exact absurd hb hne
  · rename_i hne
    exact ⟨SameWheel.refl s1, fun u _ => ⟨congrFun hst u, congrFun hwr u⟩, hne, fun _ => hwr⟩

theorem Armed.fireTimer (h : Armed s U) (hs : Sound s) (ht : s.Live t) (hU : s.state t = .blocked → ¬U t) :
    Armed (fireTimer t s) U := by
  obtain ⟨hw, hother, -, hreason⟩ := fireTimer_effect t s
  have hin : ∀ u, (Sched.fireTimer t s).InWheel u → s.InWheel u ∧ u ≠ t := fun u hu =>
    (hs.wheel.remove ht).2 u ((inWheel_congr hw).1 hu)
  refine ⟨fun u hu => ?_, fun u hl hUu => ?_⟩
  · rw [(hother u (hin u hu).2).1]
    exact h.wheel u (hin u hu).1
  · have hl' : s.Live u := (live_congr (fireTimer_taskTable t s)).1 hl
    by_cases hut : u = t
    · subst hut
      rw [hreason (fun hb => hU hb hUu)]
      exact h.reason u hl' hUu
    · rw [(hother u hut).2]
      exact h.reason u hl' hUu

theorem Armed.wheelLoop : ∀ (n : Nat) (task : Option Ptr) (s : Tasks), Armed s U → Sound s →
    (∀ t, task = some t → s.Live t ∧ (s.state t = .blocked → ¬U t)) → Armed (wheelLoop n task s).2 U
  | 0, none, _, h, _, _ => h
  | 0, some _, _, h, _, _ => h
  | n + 1, none, _, h, _, _ => h
  | n + 1, some t, s, h, hs, ht => by
    obtain ⟨htl, hUt⟩ := ht t rfl
    have hnext : ∀ u, s.timer.next t = some u → s.Live u ∧ (s.state u = .blocked → ¬U u) := fun u hu => by
      refine ⟨(hs.wheel.links.next t u htl hu).1, fun hb => ?_⟩
      rcases h.wheel u (Or.inr ⟨t, htl, hu⟩) with hsl | ⟨-, hU⟩
      · rw [hsl] at hb
        cases hb
      · exact hU
    rw [Sched.wheelLoop]
    split
    · obtain ⟨-, hother, hnb, -⟩ := fireTimer_effect t s
      refine Armed.wheelLoop n _ _ (h.fireTimer hs htl hUt) (hs.fireTimer htl) (fun u hu => ⟨?_, fun hb => ?_⟩)
      · exact (live_congr (fireTimer_taskTable t s)).2 (hnext u hu).1
      · by_cases hut : u = t
        · rw [hut] at hb
          exact absurd hb hnb
        · rw [(hother u hut).1] at hb
          exact (hnext u hu).2 hb
    · exact Armed.wheelLoop n _ _ h hs hnext

theorem Armed.timerCallback (h : Armed s U) (hs : Sound s) : Armed (timerCallback s) U := by
  have hs1 : Sound { s with tickCount := addU32 s.tickCount 1 } :=
    hs.congr ⟨⟨rfl, rfl, rfl, rfl, rfl, rfl⟩, rfl, rfl, rfl⟩ ⟨rfl, rfl, rfl, rfl⟩ ⟨rfl, rfl, rfl, rfl, rfl⟩
  have hwalk : Armed (tickWalk s).2 U := by
    refine Armed.wheelLoop _ _ { s with tickCount := addU32 s.tickCount 1 } ⟨h.wheel, h.reason⟩ hs1 (fun t ht => ?_)
    have hb : addU32 s.tickCount 1 % timerWheelSize < timerWheelSize := Nat.mod_lt _ (by decide)
    refine ⟨(hs1.wheel.head _ hb t ht).1, fun hst => ?_⟩
    rcases h.wheel t (Or.inl ⟨_, hb, ht⟩) with hsl | ⟨-, hU⟩
    · change s.state t = .blocked at hst
      rw [hsl] at hst
      cases hst
    · exact hU
  rcases timerCallback_walk s with ⟨-, he⟩ | ⟨task, -, he⟩
  · rw [he]
    exact hwalk
  · rw [he]
    unfold useQuantum
    simp only
    split
    · exact hwalk.calm ((calm_setQuantum _ _).trans (calm_schedule (hs.tickWalk.setQuantum _)))
    · exact hwalk.calm (calm_setQuantum _ _)

/-! ## Runs -/

theorem lastWait_concat (t : Ptr) (es : List MadeCall) (e : MadeCall) : lastWait t (es ++ [e]) =
    match e with
    | (some u, .timer (.call (.blockOn _ timeoutMs))) => if u = t then some timeoutMs else lastWait t es
    | _ => lastWait t es := by
  unfold lastWait
  rw [List.foldl_append]
  rfl

def Untimed (es : List MadeCall) (t : Ptr) : Prop := lastWait t es = some taskNoTimeout

theorem untimed_blockOn (es : List MadeCall) (t u : Ptr) (q : QueuePtr) (timeoutMs : Nat) :
    Untimed (es ++ [(some t, .timer (.call (.blockOn q timeoutMs)))]) u ↔
      if t = u then timeoutMs = taskNoTimeout else Untimed es u := by
  unfold Untimed
  rw [lastWait_concat]
  simp only
  split <;> simp

theorem Armed.run {es : List MadeCall} {c : SchedCall} (h : Armed s (Untimed es)) (hs : Sound s) (hv : c.Valid s)
    (hk : c.KeepsQueues s) (ht : c.KeepsTimers s) : Armed (c.run s) (Untimed (es ++ [(s.currentTask, c)])) := by
  have hsame : (∀ q timeoutMs, c ≠ .timer (.call (.blockOn q timeoutMs))) →
      Untimed (es ++ [(s.currentTask, c)]) = Untimed es := by
    intro hne
    funext u
    unfold Untimed
    rw [lastWait_concat]
    split
    · rename_i v q timeoutMs he
      rw [Prod.mk.injEq] at he
      exact absurd he.2 (hne q timeoutMs)
    · rfl
  cases c with
  | yield =>
    rw [hsame (by simp)]
    exact h.calm ((calm_renewQuantum s).trans (calm_schedule (renewQuantum_sound hs)))
  | exit =>
    rw [hsame (by simp)]
    change Armed (taskExit s) _
    cases hcur : s.currentTask with
    | none =>
      rw [taskExit_of_none hcur]
      exact h
    | some t =>
      have hrun := hv t hcur
      rw [taskExit_of_some hcur]
      have hend : Calm s { s with state := Function.update s.state t .zombie } :=
        calm_setState (t := t) ⟨rfl, rfl, rfl, rfl⟩ rfl (by rw [hrun]; decide) (by rw [hrun]; decide)
          (fun u hu => Function.update_of_ne hu _ _)
      have hs1 : Sound { s with state := Function.update s.state t .zombie } :=
        hs.stop (x := .zombie) (t := t) (by rw [hrun]; decide) (by rw [hrun]; decide) (by decide) (by decide)
          ⟨⟨rfl, rfl, rfl, rfl, rfl, rfl⟩, rfl, rfl, rfl⟩ ⟨rfl, rfl, rfl, rfl⟩ ⟨rfl, rfl, rfl, rfl, rfl⟩
      exact h.calm (hend.trans (calm_schedule hs1))
  | wakeAllQueue q =>
    rw [hsame (by simp)]
    exact h.calm (calm_wakeQueueLoop _ s hs ht)
  | timer c =>
    cases c with
    | wakeAll =>
      rw [hsame (by simp)]
      exact h.calm (calm_taskWakeAll hs)
    | tick =>
      rw [hsame (by simp)]
      exact h.timerCallback hs
    | call c =>
      cases c with
      | init idle idleStack reaper reaperStack =>
        rw [hsame (by simp)]
        change Armed (taskInit idle idleStack reaper reaperStack s) _
        have hc := hs.clearTable hv.1
        have hno := clearTable_live s
        have h1 : Armed (clearTable s) (Untimed es) :=
          ⟨fun t hin => absurd (hc.wheel.live hin) (hno t), fun t hl => absurd hl (hno t)⟩
        rw [taskInit_eq hk]
        refine (h1.calm (calm_create hc (fun t _ => hno t) _)).calm (calm_create ?_ (fun t _ hl => ?_) _)
        · exact hc.taskCreateArgPrio (fun t _ => hno t) _
        · exact hno t ((live_taskCreateArgPrio hk _ t).1 hl)
      | create memory stack priority =>
        rw [hsame (by simp)]
        exact h.calm (calm_create hs hv priority)
      | add t =>
        rw [hsame (by simp)]
        exact h.calm (calm_schedulerAdd hv.2.2.2 hv.2.2.1)
      | remove t =>
        rw [hsame (by simp)]
        change Armed (schedulerRemove t s) _
        rw [schedulerRemove_of_ne hk]
        exact h
      | schedule =>
        rw [hsame (by simp)]
        exact h.calm (calm_schedule hs)
      | boost t newPrio =>
        rw [hsame (by simp)]
        exact h.calm (calm_boost t newPrio s)
      | unboost t =>
        rw [hsame (by simp)]
        exact h.calm (calm_unboost t s)
      | sleep ms =>
        rw [hsame (by simp)]
        exact h.taskSleep hs hv ms
      | wake tid =>
        rw [hsame (by simp)]
        exact h.calm (calm_taskWake hs tid)
      | wakeOne q =>
        rw [hsame (by simp)]
        exact h.calm (calm_taskWakeOne hs q)
      | destroy t =>
        rw [hsame (by simp)]
        exact h.calm (calm_destroy hs hv.1)
      | blockOn q timeoutMs =>
        change Armed (Sched.taskBlockOn q timeoutMs s) _
        cases hcur : s.currentTask with
        | none =>
          rw [taskBlockOn_of_none hcur]
          refine ⟨fun t hin => ?_, fun t hl hU => h.reason t hl ?_⟩
          · refine (h.wheel t hin).imp_right (fun hb => ⟨hb.1, fun hU => hb.2 ?_⟩)
            unfold Untimed at hU ⊢
            rw [lastWait_concat] at hU
            exact hU
          · unfold Untimed at hU ⊢
            rw [lastWait_concat] at hU
            exact hU
        | some t =>
          refine h.taskBlockOn hs hv hcur q timeoutMs (fun u hu => ?_) ?_
          · rw [untimed_blockOn, if_neg (fun he => hu he.symm)]
          · rw [untimed_blockOn, if_pos rfl]

theorem wakeQueueLoop_same : ∀ (n : Nat) (s : Tasks), SameWheel s (wakeQueueLoop q n s)
  | 0, s => SameWheel.refl s
  | n + 1, s => by
    cases hw : s.waitHead q with
    | none =>
      rw [wakeQueueLoop_of_none hw]
      exact SameWheel.refl s
    | some t =>
      rw [wakeQueueLoop_of_some hw]
      have hpop : SameWheel s (wakeTask t (setWakeReason t .signaled (taskQueueRemove q t s))) :=
        (kept_taskQueueRemove q t s).same.trans ⟨rfl, rfl, rfl, rfl⟩
      exact hpop.trans (wakeQueueLoop_same n _)

theorem wakeQueueLoop_ready : ∀ (n : Nat) (s : Tasks) (V : QueuePtr → List Ptr), Waits s V → (V q).length ≤ n →
    (t ∈ V q ∨ s.state t = .ready) → (wakeQueueLoop q n s).state t = .ready
  | 0, s, V, _, hn, ht => by
    have hnil := List.length_eq_zero_iff.1 (Nat.le_zero.1 hn)
    rw [hnil] at ht
    exact ht.resolve_left (by simp)
  | n + 1, s, V, hV, hn, ht => by
    cases hw : s.waitHead q with
    | none =>
      rw [wakeQueueLoop_of_none hw]
      rw [hV.lists.head q, List.head?_eq_none_iff] at hw
      rw [hw] at ht
      exact ht.resolve_left (by simp)
    | some u =>
      rw [wakeQueueLoop_of_some hw]
      obtain ⟨hm, -, -, hq⟩ := hV.head_spec hw
      have hr := same_taskQueueRemove q u s
      have hself : (wakeTask u (setWakeReason u .signaled (taskQueueRemove q u s))).state u = .ready :=
        Function.update_self _ _ _
      have hother : ∀ v, v ≠ u → (wakeTask u (setWakeReason u .signaled (taskQueueRemove q u s))).state v = s.state v :=
        fun v hv => (Function.update_of_ne hv _ _).trans (congrFun hr.state v)
      refine wakeQueueLoop_ready n _ _ (hV.leave hm hq ⟨rfl, rfl, rfl, rfl⟩ (fun _ => by rw [hself]; decide)
        (fun v hv => ⟨hother v hv, live_congr hr.taskTable⟩)) ?_ ?_
      · rw [Function.update_self, List.length_erase_of_mem hm]
        omega
      · by_cases htu : t = u
        · rw [htu]
          exact Or.inr hself
        · rw [hother t htu, Function.update_self]
          exact ht.imp_left (fun ht => (List.mem_erase_of_ne htu).2 ht)

theorem wakeAllQueue_leaves (h : Sound s) (ht : s.Live t) (hb : s.state t = .blocked) (hq : s.waitQueue t = some q)
    (hin : s.InWheel t) : (taskWakeAllQueue q s).InWheel t ∧ (taskWakeAllQueue q s).state t = .ready := by
  obtain ⟨V, hV⟩ := h.waits
  refine ⟨(inWheel_congr (wakeQueueLoop_same _ s)).2 hin, wakeQueueLoop_ready _ s V hV ?_ (Or.inl ((hV.mem q t).2
    ⟨ht, hb, hq⟩))⟩
  exact hV.length_le q

theorem sound_waitRun (memory : Tasks) (cs : List SchedCall)
    (hA : Allowed waitStep (fun _ s c => c.Valid s ∧ c.KeepsQueues s) (bootTasks memory) cs) :
    Sound (run waitStep (bootTasks memory) cs).2 :=
  run_keeps (I := fun _ s => Sound s) (fun _ _ _ h hc => h.run hc.1 hc.2) (sound_bootTasks memory) cs hA

/-- **No spurious timeouts.** In a run from the empty scheduler whose calls are valid and keep the ready queues, no task
that waits without a timeout is ever timed out, and only tasks that sleep or wait are on the timer wheel, if and only if
`task_wake_all_queue` is never called on a queue with a task that is on the wheel. -/
theorem no_spurious_timeouts_iff (memory : Tasks) (cs : List SchedCall)
    (hA : Allowed waitStep (fun _ s c => c.Valid s ∧ c.KeepsQueues s) (bootTasks memory) cs) :
    (∀ before after, cs = before ++ after → TimeoutsMeant (run waitStep (bootTasks memory) before).1
      (run waitStep (bootTasks memory) before).2) ↔
    Allowed waitStep (fun _ s c => c.KeepsTimers s) (bootTasks memory) cs := by
  constructor
  · rintro hall before c after rfl
    have hs := sound_waitRun memory before hA.left
    have hmeant := (hall (before ++ [c]) after (by simp)).2
    rw [run_concat] at hmeant
    cases c with
    | wakeAllQueue q =>
      intro t ht hb hq hin
      obtain ⟨hin', hr⟩ := wakeAllQueue_leaves hs ht hb hq hin
      have hst := hmeant t hin'
      change (taskWakeAllQueue q _).state t = _ ∨ (taskWakeAllQueue q _).state t = _ at hst
      rw [hr] at hst
      simp at hst
    | timer c => trivial
    | yield => trivial
    | exit => trivial
  · rintro hT before after rfl
    have hI := run_keeps (I := fun es s => Sound s ∧ Armed s (Untimed es))
      (A := fun _ s c => (c.Valid s ∧ c.KeepsQueues s) ∧ c.KeepsTimers s)
      (fun es s c h hc => ⟨h.1.run hc.1.1 hc.1.2, h.2.run h.1 hc.1.1 hc.1.2 hc.2⟩)
      ⟨sound_bootTasks memory, fun t hin => absurd ((sound_bootTasks memory).wheel.live hin) (bootTasks_live memory t),
        fun t hl => absurd hl (bootTasks_live memory t)⟩ before
      (fun b c a he => ⟨hA.left b c a he, hT.left b c a he⟩)
    exact ⟨hI.2.reason, fun t ht => (hI.2.wheel t ht).imp_right (fun hb => hb.1)⟩

/-- A task waits for 50 ms, is woken and waits again, without a timeout, while the ticks go by. -/
def waitsTwice (wake : SchedCall) : List SchedCall := [.timer (.call (.create (some 1) true 8)),
  .timer (.call (.create (some 2) true 8)), .timer (.call .schedule), .timer (.call (.blockOn 10 50)), wake, .yield,
  .timer (.call (.blockOn 11 taskNoTimeout)), .timer .tick, .timer .tick, .timer .tick, .timer .tick, .timer .tick]

theorem currentRuns_of {s : Tasks} {t : Ptr} (hc : s.currentTask = some t) (hr : s.state t = .running) :
    s.CurrentRuns := by
  intro u hu
  rw [hc] at hu
  exact Option.some.inj hu ▸ hr

theorem allowed_waitsTwice {wake : SchedCall} (hw : wake = .wakeAllQueue 10 ∨ wake = .timer (.call (.wakeOne 10))) :
    Allowed waitStep (fun _ s c => c.Valid s ∧ c.KeepsQueues s) (bootTasks zeroTasks) (waitsTwice wake) := by
  refine allowed_cons.2 ⟨⟨fresh_some (by decide +kernel), trivial⟩, ?_⟩
  refine allowed_cons.2 ⟨⟨fresh_some (by decide +kernel), trivial⟩, ?_⟩
  refine allowed_cons.2 ⟨⟨trivial, trivial⟩, ?_⟩
  refine allowed_cons.2 ⟨⟨currentRuns_of (t := 1) (by decide) (by decide), trivial⟩, ?_⟩
  rcases hw with rfl | rfl
  all_goals
    refine allowed_cons.2 ⟨⟨trivial, trivial⟩, ?_⟩
    refine allowed_cons.2 ⟨⟨trivial, trivial⟩, ?_⟩
    refine allowed_cons.2 ⟨⟨currentRuns_of (t := 1) (by decide) (by decide), trivial⟩, ?_⟩
    refine allowed_cons.2 ⟨⟨trivial, trivial⟩, ?_⟩
    refine allowed_cons.2 ⟨⟨trivial, trivial⟩, ?_⟩
    refine allowed_cons.2 ⟨⟨trivial, trivial⟩, ?_⟩
    refine allowed_cons.2 ⟨⟨trivial, trivial⟩, ?_⟩
    exact allowed_cons.2 ⟨⟨trivial, trivial⟩, allowed_nil _⟩

/-- Woken alone, the task is off the wheel when it waits again. -/
theorem no_spurious_timeouts_wakeOne :
    TimeoutsMeant (run waitStep (bootTasks zeroTasks) (waitsTwice (.timer (.call (.wakeOne 10))))).1
      (run waitStep (bootTasks zeroTasks) (waitsTwice (.timer (.call (.wakeOne 10))))).2 := by
  refine (no_spurious_timeouts_iff zeroTasks (waitsTwice (.timer (.call (.wakeOne 10))))
    (allowed_waitsTwice (Or.inr rfl))).2 ?_ _ [] (List.append_nil _).symm
  refine allowed_of_forall (B := fun c => ∀ s, SchedCall.KeepsTimers s c) (fun c hc s => ?_) (fun _ s _ h => h s) _
  simp only [waitsTwice, List.mem_cons, List.not_mem_nil, or_false] at hc
  rcases hc with rfl | rfl | rfl | rfl | rfl | rfl | rfl | rfl | rfl | rfl | rfl | rfl
  all_goals trivial

/-- **Woken with its queue, the task is timed out** by the timer of its first wait. -/
theorem not_no_spurious_timeouts : ¬∀ (memory : Tasks) (cs : List SchedCall),
    Allowed waitStep (fun _ s c => c.Valid s ∧ c.KeepsQueues s) (bootTasks memory) cs →
    TimeoutsMeant (run waitStep (bootTasks memory) cs).1 (run waitStep (bootTasks memory) cs).2 := by
  intro hall
  have h := (hall zeroTasks _ (allowed_waitsTwice (Or.inl rfl))).1 1 (by decide +kernel) (by decide +kernel)
  exact h (by decide)

end

end Sched
end AmitX
