import AmitX.Sched.CallsRun
import AmitX.Sync.Mutex
/-!
# Blocking — the tasks that wait for an object

A task at a `task_block_on` is blocked on the queue of its object, or it has been woken, by a signal or by its timeout,
and has not gone on.
-/
namespace AmitX
namespace Sync

open Sched Links

/-! ## What the steps do to the tasks -/

structure OnlyTask (t : Ptr) (s s' : Tasks) : Prop where
  state : ∀ u, u ≠ t → s'.state u = s.state u
  wakeReason : ∀ u, u ≠ t → s'.wakeReason u = s.wakeReason u
  waitQueue : ∀ u, u ≠ t → s'.waitQueue u = s.waitQueue u
  curPrio : s'.curPrio = s.curPrio
  basePrio : s'.basePrio = s.basePrio
  taskTable : s'.taskTable = s.taskTable
  currentTask : s'.currentTask = s.currentTask

section

variable {s s' s'' : Tasks} {V : QueuePtr → List Ptr} {t u : Ptr} {q : QueuePtr} {inside : Ptr → Option Waiting}

theorem OnlyTask.refl (t : Ptr) (s : Tasks) : OnlyTask t s s :=
  ⟨fun _ _ => rfl, fun _ _ => rfl, fun _ _ => rfl, rfl, rfl, rfl, rfl⟩

theorem OnlyTask.trans (h : OnlyTask t s s') (h' : OnlyTask t s' s'') : OnlyTask t s s'' :=
  ⟨fun u hu => (h'.state u hu).trans (h.state u hu), fun u hu => (h'.wakeReason u hu).trans (h.wakeReason u hu),
    fun u hu => (h'.waitQueue u hu).trans (h.waitQueue u hu), h'.curPrio.trans h.curPrio, h'.basePrio.trans h.basePrio,
    h'.taskTable.trans h.taskTable, h'.currentTask.trans h.currentTask⟩

theorem OnlyTask.live (h : OnlyTask t s s') : s'.Live u ↔ s.Live u := live_congr h.taskTable

theorem only_timerWheelRemove (t : Ptr) (s : Tasks) : OnlyTask t s (timerWheelRemove t s) := by
  unfold timerWheelRemove
  split <;> exact ⟨fun _ _ => rfl, fun _ _ => rfl, fun _ _ => rfl, rfl, rfl, rfl, rfl⟩

theorem only_timerWheelInsert (t : Ptr) (n : Nat) (s : Tasks) : OnlyTask t s (timerWheelInsert t n s) :=
  (only_timerWheelRemove t s).trans ⟨fun _ _ => rfl, fun _ _ => rfl, fun _ _ => rfl, rfl, rfl, rfl, rfl⟩

theorem only_taskQueueRemove (q : QueuePtr) (t : Ptr) (s : Tasks) : OnlyTask t s (taskQueueRemove q t s) := by
  unfold taskQueueRemove
  split
  · exact OnlyTask.refl t s
  · exact ⟨fun _ _ => rfl, fun _ _ => rfl, fun u hu => Function.update_of_ne hu _ _, rfl, rfl, rfl, rfl⟩

theorem only_setWakeReason (t : Ptr) (r : WakeReason) (s : Tasks) : OnlyTask t s (setWakeReason t r s) :=
  ⟨fun _ _ => rfl, fun _ hu => Function.update_of_ne hu _ _, fun _ _ => rfl, rfl, rfl, rfl, rfl⟩

theorem only_wakeTask (t : Ptr) (s : Tasks) : OnlyTask t s (wakeTask t s) :=
  ⟨fun _ hu => Function.update_of_ne hu _ _, fun _ _ => rfl, fun _ _ => rfl, rfl, rfl, rfl, rfl⟩

/-- **A blocked task is woken**, for whichever reason. -/
structure Woken (t : Ptr) (q : QueuePtr) (reason : WakeReason) (s : Tasks) (V : QueuePtr → List Ptr) (s' : Tasks) : Prop
    where
  only : OnlyTask t s s'
  state : s'.state t = .ready
  wakeReason : s'.wakeReason t = reason
  waits : Waits s' (Function.update V q ((V q).erase t))

theorem woken_of (h : Waits s V) (ht : t ∈ V q) (hq : s.waitQueue t = some q) {reason : WakeReason}
    (honly : OnlyTask t s s') (hr : s'.wakeReason t = reason)
    (hlists : s'.wait = (taskQueueRemove q t s).wait ∧ s'.waitHead = (taskQueueRemove q t s).waitHead ∧
      s'.waitTail = (taskQueueRemove q t s).waitTail ∧ s'.waitQueue = (taskQueueRemove q t s).waitQueue) :
    Woken t q reason s V (wakeTask t s') := by
  have hself : (wakeTask t s').state t = .ready := Function.update_self _ _ _
  have ho := honly.trans (only_wakeTask t s')
  refine ⟨ho, hself, hr, h.leave ht hq hlists (fun _ => ?_) (fun u hu => ⟨ho.state u hu, ho.live⟩)⟩
  rw [hself]
  decide

theorem fireTimer_of_blocked (hb : s.state t = .blocked) (hq : s.waitQueue t = some q) : fireTimer t s =
    wakeTask t (setWakeReason t .timeout (taskQueueRemove q t (timerWheelRemove t s))) := by
  have hst : (timerWheelRemove t s).state t = .blocked := by
    rw [timerWheelRemove_state]
    exact hb
  have hwq : (timerWheelRemove t s).waitQueue t = some q := by
    rw [(same_waits_timerWheelRemove t s).waitQueue]
    exact hq
  unfold fireTimer
  simp only [hst]
  rw [leaveQueue_of_some hwq]

theorem woken_fireTimer (h : Waits s V) (ht : s.Live t) (hb : s.state t = .blocked) (hq : s.waitQueue t = some q) :
    Woken t q .timeout s V (fireTimer t s) := by
  have hsw := same_waits_timerWheelRemove t s
  have hm : t ∈ V q := (h.mem q t).2 ⟨ht, hb, hq⟩
  have hwq : (timerWheelRemove t s).waitQueue t = some q := by
    rw [hsw.waitQueue]
    exact hq
  rw [fireTimer_of_blocked hb hq]
  refine woken_of h hm hq (((only_timerWheelRemove t s).trans (only_taskQueueRemove q t _)).trans
    (only_setWakeReason t _ _)) (Function.update_self _ _ _) ?_
  change (taskQueueRemove q t _).wait = _ ∧ (taskQueueRemove q t _).waitHead = _ ∧ (taskQueueRemove q t _).waitTail = _ ∧
    (taskQueueRemove q t _).waitQueue = _
  rw [taskQueueRemove_of_eq hwq, taskQueueRemove_of_eq hq]
  simp only [hsw.wait, hsw.waitHead, hsw.waitTail, hsw.waitQueue, and_self]

theorem taskWakeOne_of_none (hw : s.waitHead q = none) : taskWakeOne q s = s := by
  unfold taskWakeOne
  rw [hw]

theorem woken_taskWakeOne (h : Waits s V) (hw : s.waitHead q = some t) : Woken t q .signaled s V (taskWakeOne q s) := by
  obtain ⟨hm, -, -, hq⟩ := h.head_spec hw
  have hsw := same_waits_timerWheelRemove t (taskQueueRemove q t s)
  unfold taskWakeOne
  rw [hw]
  exact woken_of h hm hq (((only_taskQueueRemove q t s).trans (only_timerWheelRemove t _)).trans
    (only_setWakeReason t _ _)) (Function.update_self _ _ _) ⟨hsw.wait, hsw.waitHead, hsw.waitTail, hsw.waitQueue⟩

/-- **A task is blocked.** -/
structure Blocks (t : Ptr) (q : QueuePtr) (s : Tasks) (V : QueuePtr → List Ptr) (s' : Tasks) : Prop where
  only : OnlyTask t s s'
  state : s'.state t = .blocked
  waitQueue : s'.waitQueue t = some q
  waits : Waits s' (Function.update V q (V q ++ [t]))

theorem blocks_blockTask (h : Waits s V) (ht : s.Live t) (hne : s.state t ≠ .blocked) (q : QueuePtr) (timeoutMs : Nat) :
    Blocks t q s V (blockTask q t timeoutMs s) := by
  have hpush : Blocks t q s V (enqueueBlocked q t timeoutMs s) :=
    ⟨⟨fun u hu => Function.update_of_ne hu _ _, fun u hu => Function.update_of_ne hu _ _,
        fun u hu => Function.update_of_ne hu _ _, rfl, rfl, rfl, rfl⟩, Function.update_self _ _ _,
      Function.update_self _ _ _, h.enter ht hne ⟨rfl, rfl, rfl, rfl, rfl⟩ (Function.update_self _ _ _)
        (fun u hu => Function.update_of_ne hu _ _)⟩
  change Blocks t q s V (if timeoutMs = taskNoTimeout then enqueueBlocked q t timeoutMs s
    else timerWheelInsert t (ticksOf timeoutMs) (enqueueBlocked q t timeoutMs s))
  split
  · exact hpush
  · have hsr := same_timerWheelInsert t (ticksOf timeoutMs) (enqueueBlocked q t timeoutMs s)
    have hsw := same_waits_timerWheelInsert t (ticksOf timeoutMs) (enqueueBlocked q t timeoutMs s)
    refine ⟨hpush.only.trans (only_timerWheelInsert t _ _), ?_, ?_, hpush.waits.congr_state hsw hsr.state⟩
    · rw [hsr.state]
      exact hpush.state
    · rw [hsw.waitQueue]
      exact hpush.waitQueue

def Swaps (s s' : Tasks) : Prop := ∀ u, s'.state u = s.state u ∨
  (s.state u = .ready ∨ s.state u = .running) ∧ (s'.state u = .ready ∨ s'.state u = .running)

/-- Nothing has changed that a wait is about, but priorities. -/
structure SameTasks (s s' : Tasks) : Prop extends SameWaits s s' where
  wakeReason : s'.wakeReason = s.wakeReason
  basePrio : s'.basePrio = s.basePrio

theorem giveTo_same (next : Ptr) (s : Tasks) : SameTasks s (giveTo next s) ∧ (giveTo next s).curPrio = s.curPrio := by
  have h1 : SameTasks s (requeue s.currentTask s) ∧ (requeue s.currentTask s).curPrio = s.curPrio := by
    unfold requeue
    split
    · exact ⟨⟨SameWaits.refl s, rfl, rfl⟩, rfl⟩
    · split <;> exact ⟨⟨⟨rfl, rfl, rfl, rfl, rfl⟩, rfl, rfl⟩, rfl⟩
  have h2 : SameTasks (requeue s.currentTask s) (schedulerRemove next (requeue s.currentTask s)) ∧
      (schedulerRemove next (requeue s.currentTask s)).curPrio = (requeue s.currentTask s).curPrio := by
    unfold schedulerRemove
    split <;> exact ⟨⟨⟨rfl, rfl, rfl, rfl, rfl⟩, rfl, rfl⟩, rfl⟩
  exact ⟨⟨(h1.1.toSameWaits.trans h2.1.toSameWaits).trans (same_waits_switchTo next _), h2.1.wakeReason.trans h1.1.wakeReason,
    h2.1.basePrio.trans h1.1.basePrio⟩, h2.2.trans h1.2⟩

theorem giveTo_state {next : Ptr} (hr : s.state next = .ready) : Swaps s (giveTo next s) := by
  intro u
  change Function.update (schedulerRemove next (requeue s.currentTask s)).state next .running u = _ ∨ _ ∧
    (Function.update (schedulerRemove next (requeue s.currentTask s)).state next .running u = _ ∨
      Function.update (schedulerRemove next (requeue s.currentTask s)).state next .running u = _)
  rw [(schedulerRemove_fields next _).1]
  by_cases hun : u = next
  · rw [hun, Function.update_self]
    exact Or.inr ⟨Or.inl hr, Or.inr rfl⟩
  · rw [Function.update_of_ne hun]
    rcases requeue_state s.currentTask s u with he | ⟨hru, he⟩
    · exact Or.inl he
    · exact Or.inr ⟨Or.inr hru, Or.inl he⟩

theorem Swaps.blocked (h : Swaps s s') (u : Ptr) : s'.state u = .blocked ↔ s.state u = .blocked := by
  rcases h u with he | ⟨h1 | h1, h2 | h2⟩
  · rw [he]
  all_goals simp [h1, h2]

theorem same_changePrio (t : Ptr) (prio : Nat) (s : Tasks) : SameTasks s (changePrio t prio s) ∧
    (changePrio t prio s).state = s.state ∧ (changePrio t prio s).currentTask = s.currentTask ∧
    (changePrio t prio s).curPrio = Function.update s.curPrio t prio := by
  have hf := changePrio_fields t prio s
  have hsw := same_waits_changePrio t prio s
  have hrest : (changePrio t prio s).wakeReason = s.wakeReason ∧ (changePrio t prio s).basePrio = s.basePrio ∧
      (changePrio t prio s).curPrio = Function.update s.curPrio t prio := by
    unfold changePrio
    simp only
    split
    · have hp := schedulerRemove_prio t { s with curPrio := Function.update s.curPrio t prio }
      refine ⟨?_, hp.2, hp.1⟩
      change (schedulerRemove t _).wakeReason = _
      unfold schedulerRemove
      split <;> rfl
    · exact ⟨rfl, rfl, rfl⟩
  exact ⟨⟨hsw, hrest.1, hrest.2.1⟩, hf.1, hf.2, hrest.2.2⟩

/-! ## The invariant -/

/-- **The tasks at a `task_block_on`** are blocked on the queue of their object, or have been woken. -/
structure TasksOk (s : Tasks) (inside : Ptr → Option Waiting) : Prop where
  waits : ∃ V, Waits s V
  current : ∀ t, s.currentTask = some t → s.Live t
  blocked : ∀ t, s.Live t → s.state t = .blocked → ∃ w, inside t = some w ∧ s.waitQueue t = some w.queue
  woken : ∀ t w, inside t = some w → s.Live t ∧ (s.state t = .blocked ∨
    (s.state t = .ready ∨ s.state t = .running) ∧ (s.wakeReason t = .signaled ∨ s.wakeReason t = .timeout))

theorem TasksOk.swap (h : TasksOk s inside) (hs : SameTasks s s') (hst : Swaps s s')
    (hcur : ∀ t, s'.currentTask = some t → s.Live t) : TasksOk s' inside := by
  obtain ⟨V, hV⟩ := h.waits
  have hlv : ∀ u, s'.Live u ↔ s.Live u := fun u => live_congr hs.taskTable
  refine ⟨⟨V, hV.congr hs.toSameWaits (fun u _ => hst.blocked u)⟩, fun t ht => (hlv t).2 (hcur t ht), fun t hl hb => ?_,
    fun t w hw => ?_⟩
  · rw [hs.waitQueue]
    exact h.blocked t ((hlv t).1 hl) ((hst.blocked t).1 hb)
  · obtain ⟨hl, hr⟩ := h.woken t w hw
    refine ⟨(hlv t).2 hl, ?_⟩
    rw [hs.wakeReason]
    rcases hst t with he | ⟨h1, h2⟩
    · rw [he]
      exact hr
    · refine Or.inr ⟨h2, (hr.resolve_left ?_).2⟩
      rcases h1 with h1 | h1 <;> simp [h1]

theorem TasksOk.giveTo {next : Ptr} (h : TasksOk s inside) (hl : s.Live next) (hr : s.state next = .ready) :
    TasksOk (giveTo next s) inside :=
  h.swap (giveTo_same next s).1 (giveTo_state hr) (fun _ ht => Option.some.inj ht ▸ hl)

theorem TasksOk.changePrio (h : TasksOk s inside) (t : Ptr) (prio : Nat) : TasksOk (changePrio t prio s) inside := by
  obtain ⟨h1, h2, h3, -⟩ := same_changePrio t prio s
  refine h.swap h1 (fun u => Or.inl (by rw [h2])) (fun u hu => ?_)
  rw [h3] at hu
  exact h.current u hu

theorem TasksOk.boost (h : TasksOk s inside) (t : Ptr) (newPrio : Nat) : TasksOk (taskBoostPriority t newPrio s) inside := by
  unfold taskBoostPriority
  simp only
  split
  · exact h
  · split
    · exact h
    · exact h.changePrio t _

theorem TasksOk.unboost (h : TasksOk s inside) (t : Ptr) : TasksOk (taskUnboostPriority t s) inside := by
  unfold taskUnboostPriority
  split
  · exact h
  · exact h.changePrio t _

theorem TasksOk.wake {reason : WakeReason} (h : TasksOk s inside) (hw : Woken t q reason s V s')
    (hr : reason = .signaled ∨ reason = .timeout) : TasksOk s' inside := by
  have hlv : ∀ u, s'.Live u ↔ s.Live u := fun u => hw.only.live
  refine ⟨⟨_, hw.waits⟩, fun u hu => ?_, fun u hl hb => ?_, fun u w hu => ?_⟩
  · rw [hw.only.currentTask] at hu
    exact (hlv u).2 (h.current u hu)
  · have hut : u ≠ t := by
      rintro rfl
      rw [hw.state] at hb
      cases hb
    rw [hw.only.state u hut] at hb
    rw [hw.only.waitQueue u hut]
    exact h.blocked u ((hlv u).1 hl) hb
  · obtain ⟨hl, hrest⟩ := h.woken u w hu
    refine ⟨(hlv u).2 hl, ?_⟩
    by_cases hut : u = t
    · rw [hut, hw.state, hw.wakeReason]
      exact Or.inr ⟨Or.inl rfl, hr⟩
    · rw [hw.only.state u hut, hw.only.wakeReason u hut]
      exact hrest

theorem TasksOk.wakeOne (h : TasksOk s inside) (q : QueuePtr) : TasksOk (taskWakeOne q s) inside := by
  obtain ⟨V, hV⟩ := h.waits
  cases hw : s.waitHead q with
  | none =>
    rw [taskWakeOne_of_none hw]
    exact h
  | some t => exact h.wake (woken_taskWakeOne hV hw) (Or.inl rfl)

theorem TasksOk.signalLoop (q : QueuePtr) : ∀ (n : Nat) (s : Tasks), TasksOk s inside → TasksOk (signalLoop q n s) inside
  | 0, _, h => h
  | n + 1, s, h => by
    rw [Sync.signalLoop]
    split
    · exact TasksOk.signalLoop q n _ (h.wakeOne q)
    · exact h

theorem TasksOk.fireTimer (h : TasksOk s inside) (ht : s.Live t) (hb : s.state t = .blocked) :
    TasksOk (fireTimer t s) inside := by
  obtain ⟨V, hV⟩ := h.waits
  obtain ⟨w, -, hq⟩ := h.blocked t ht hb
  exact h.wake (woken_fireTimer hV ht hb hq) (Or.inr rfl)

theorem TasksOk.block {w : Waiting} (h : TasksOk s inside) (ht : s.Live t) (hb : Blocks t w.queue s V s') :
    TasksOk s' (Function.update inside t (some w)) := by
  have hlv : ∀ u, s'.Live u ↔ s.Live u := fun u => hb.only.live
  refine ⟨⟨_, hb.waits⟩, fun u hu => ?_, fun u hl hbu => ?_, fun u w' hu => ?_⟩
  · rw [hb.only.currentTask] at hu
    exact (hlv u).2 (h.current u hu)
  · by_cases hut : u = t
    · subst hut
      rw [Function.update_self]
      exact ⟨w, rfl, hb.waitQueue⟩
    · rw [Function.update_of_ne hut, hb.only.waitQueue u hut]
      rw [hb.only.state u hut] at hbu
      exact h.blocked u ((hlv u).1 hl) hbu
  · by_cases hut : u = t
    · rw [hut]
      exact ⟨(hlv t).2 ht, Or.inl hb.state⟩
    · rw [Function.update_of_ne hut] at hu
      rw [hb.only.state u hut, hb.only.wakeReason u hut, hlv u]
      exact h.woken u w' hu

theorem TasksOk.goOn (h : TasksOk s inside) (hr : s.state t ≠ .blocked) : TasksOk s (Function.update inside t none) := by
  refine ⟨h.waits, h.current, fun u hl hb => ?_, fun u w hu => ?_⟩
  · have hut : u ≠ t := by
      rintro rfl
      exact hr hb
    rw [Function.update_of_ne hut]
    exact h.blocked u hl hb
  · by_cases hut : u = t
    · rw [hut, Function.update_self] at hu
      cases hu
    · rw [Function.update_of_ne hut] at hu
      exact h.woken u w hu

/-! ## New tasks -/

theorem create_others {memory : Option Ptr} (hu : memory ≠ some u) (stack : Bool) (priority : Nat) (s : Tasks) :
    (taskCreateArgPrio memory stack priority s).state u = s.state u ∧
    (taskCreateArgPrio memory stack priority s).wakeReason u = s.wakeReason u ∧
    (taskCreateArgPrio memory stack priority s).waitQueue u = s.waitQueue u ∧
    (taskCreateArgPrio memory stack priority s).curPrio u = s.curPrio u ∧
    (taskCreateArgPrio memory stack priority s).basePrio u = s.basePrio u ∧
    ((taskCreateArgPrio memory stack priority s).Live u ↔ s.Live u) := by
  rcases taskCreateArgPrio_cases memory stack priority s with hs | ⟨t, slot, hm, hslot, hfree, ⟨-, hs⟩ | ⟨-, hs⟩⟩
  · rw [hs]
    exact ⟨rfl, rfl, rfl, rfl, rfl, Iff.rfl⟩
  all_goals
    have hut : u ≠ t := by
      rintro rfl
      exact hu hm
    rw [hs]
  · refine ⟨(Function.update_of_ne hut _ _).trans (Function.update_of_ne hut _ _), Function.update_of_ne hut _ _,
      Function.update_of_ne hut _ _, Function.update_of_ne hut _ _, Function.update_of_ne hut _ _, ?_⟩
    exact (live_enter hslot hfree rfl u).trans ⟨fun hl => hl.resolve_right hut, Or.inl⟩
  · exact ⟨Function.update_of_ne hut _ _, Function.update_of_ne hut _ _, Function.update_of_ne hut _ _,
      Function.update_of_ne hut _ _, Function.update_of_ne hut _ _, Iff.rfl⟩

theorem create_new {memory : Option Ptr} {stack : Bool} {priority : Nat} (hnew : ¬s.Live t) (hm : memory = some t)
    (hl : (taskCreateArgPrio memory stack priority s).Live t) :
    (taskCreateArgPrio memory stack priority s).state t = .ready ∧
    (taskCreateArgPrio memory stack priority s).basePrio t = min priority taskPrioCritical ∧
    (taskCreateArgPrio memory stack priority s).curPrio t = min priority taskPrioCritical := by
  rcases taskCreateArgPrio_cases memory stack priority s with hs | ⟨u, slot, hu, -, -, ⟨-, hs⟩ | ⟨-, hs⟩⟩
  · rw [hs] at hl
    exact absurd hl hnew
  · rw [hm] at hu
    rw [hs, ← Option.some.inj hu]
    exact ⟨Function.update_self _ _ _, Function.update_self _ _ _, Function.update_self _ _ _⟩
  · rw [hs] at hl
    exact absurd hl hnew

theorem create_current (memory : Option Ptr) (stack : Bool) (priority : Nat) (s : Tasks) :
    (taskCreateArgPrio memory stack priority s).currentTask = s.currentTask := by
  rcases taskCreateArgPrio_cases memory stack priority s with hs | ⟨t, slot, -, -, -, ⟨-, hs⟩ | ⟨-, hs⟩⟩ <;> rw [hs] <;> rfl

theorem TasksOk.create {memory : Option Ptr} {stack : Bool} (h : TasksOk s inside)
    (hnew : ∀ t, memory = some t → ¬s.Live t) (priority : Nat) :
    TasksOk (taskCreateArgPrio memory stack priority s) inside := by
  obtain ⟨V, hV⟩ := h.waits
  have hother : ∀ u, s.Live u → memory ≠ some u := fun u hl hm => hnew u hm hl
  refine ⟨⟨V, waits_create hV hnew stack priority⟩, fun t ht => ?_, fun t hl hb => ?_, fun t w hw => ?_⟩
  · rw [create_current] at ht
    have hl := h.current t ht
    exact (create_others (hother t hl) stack priority s).2.2.2.2.2.2 hl
  · by_cases hm : memory = some t
    · rw [(create_new (hnew t hm) hm hl).1] at hb
      cases hb
    · obtain ⟨h1, -, h3, -, -, h6⟩ := create_others hm stack priority s
      rw [h1] at hb
      rw [h3]
      exact h.blocked t (h6.1 hl) hb
  · obtain ⟨hl, hr⟩ := h.woken t w hw
    obtain ⟨h1, h2, -, -, -, h6⟩ := create_others (hother t hl) stack priority s
    rw [h1, h2]
    exact ⟨h6.2 hl, hr⟩

/-! ## Queues -/

theorem reach_waitHead (h : Waits s V) : Reach s.wait.next (s.waitHead q) t ↔ t ∈ V q := by
  rw [h.lists.head q]
  exact reach_iff (h.lists.seg q)

end

end Sync
end AmitX
