import AmitX.Sched.Calls
import AmitX.Sched.Waits
import AmitX.Sched.WheelLinks
/-!
# CallsRun — the queues and the wheel over runs of all calls

The ready queues, the wait queues and the links of the timer wheel are sound after every call, from the empty scheduler
on, when the calls are valid and keep the ready queues.
-/
namespace AmitX
namespace Sched

open Links Run

/-! ## The task that `schedule` picks -/

section

variable {s s' : Tasks} {Q : Nat → List Ptr} {V : QueuePtr → List Ptr} {t u : Ptr} {p : Nat}

theorem schedulerNext_highest (h : Queues s Q) : (schedulerNext s).2 = s ∧
    ((schedulerNext s).1 = none ∧ (∀ p < 32, Q p = []) ∨
      ∃ p < 32, ∃ t, (schedulerNext s).1 = some t ∧ (Q p).head? = some t ∧ ∀ q < 32, Q q ≠ [] → q ≤ p) := by
  refine ⟨(schedulerNext_spec h).1, ?_⟩
  unfold schedulerNext
  rw [schedulerNextLoop]
  simp only
  by_cases h0 : s.readyBitmap = 0
  · have hnil : ∀ p < 32, Q p = [] := fun p hp => by
      by_contra hne
      have hbit := (h.bit p hp).2 hne
      rw [h0] at hbit
      simp at hbit
    rw [if_pos h0]
    refine Or.inl ⟨?_, hnil⟩
    change s.readyQueue taskPrioIdle = none
    rw [h.head _ (by decide), hnil _ (by decide)]
    rfl
  · have hne : s.readyBitmap.toNat ≠ 0 := fun hz => h0 (BitVec.eq_of_toNat_eq (by simpa using hz))
    have hlt : s.readyBitmap.toNat.log2 < 32 := (Nat.log2_lt hne).2 s.readyBitmap.isLt
    have hQ := (h.bit _ hlt).1 (Nat.testBit_log2 hne)
    rw [if_neg h0]
    refine Or.inr ⟨_, hlt, ?_⟩
    cases hq : s.readyQueue s.readyBitmap.toNat.log2 with
    | none =>
      rw [h.head _ hlt, List.head?_eq_none_iff] at hq
      exact absurd hq hQ
    | some t =>
      refine ⟨t, rfl, by rw [← h.head _ hlt, hq], fun q hq hqne => ?_⟩
      exact (Nat.le_log2 hne).2 (Nat.ge_two_pow_of_testBit ((h.bit q hq).2 hqne))

theorem schedule_cases (h : ReadyInv s Q) :
    (schedule s = s ∧ ((∀ p < 32, Q p = []) ∨ ∃ p < 32, ∃ t, (Q p).head? = some t ∧ s.currentTask = some t ∧
      ∀ q < 32, Q q ≠ [] → q ≤ p)) ∨
    ∃ p < 32, ∃ t, (Q p).head? = some t ∧ s.currentTask ≠ some t ∧ (∀ q < 32, Q q ≠ [] → q ≤ p) ∧
      schedule s = switchTo t (schedulerRemove t (requeue s.currentTask s)) := by
  obtain ⟨hsame, hnext⟩ := schedulerNext_highest h.toQueues
  unfold schedule
  rw [hsame]
  rcases hnext with ⟨hn, hnil⟩ | ⟨p, hp, t, hn, hhead, hmax⟩
  · rw [hn]
    exact Or.inl ⟨rfl, Or.inl hnil⟩
  · rw [hn]
    simp only
    split
    · exact Or.inl ⟨rfl, Or.inr ⟨p, hp, t, hhead, ‹_›, hmax⟩⟩
    · exact Or.inr ⟨p, hp, t, hhead, ‹_›, hmax, rfl⟩

theorem requeue_state (old : Option Ptr) (s : Tasks) (u : Ptr) : (requeue old s).state u = s.state u ∨
    s.state u = .running ∧ (requeue old s).state u = .ready := by
  unfold requeue
  cases old with
  | none => exact Or.inl rfl
  | some t =>
    simp only
    split
    · rename_i hr
      by_cases hut : u = t
      · subst hut
        exact Or.inr ⟨hr, Function.update_self _ _ _⟩
      · exact Or.inl (Function.update_of_ne hut _ _)
    · exact Or.inl rfl

theorem schedule_state (h : ReadyInv s Q) (u : Ptr) : (schedule s).state u = s.state u ∨
    (s.state u = .ready ∨ s.state u = .running) ∧ ((schedule s).state u = .ready ∨ (schedule s).state u = .running) := by
  rcases schedule_cases h with ⟨hs, -⟩ | ⟨p, hp, t, hhead, -, -, hs⟩
  · rw [hs]
    exact Or.inl rfl
  · have hready := ((h.mem p hp t).1 (List.mem_of_mem_head? hhead)).2.1
    rw [hs]
    change Function.update (schedulerRemove t _).state t .running u = _ ∨ _ ∧
      (Function.update (schedulerRemove t _).state t .running u = _ ∨ Function.update (schedulerRemove t _).state t _ u = _)
    rw [(schedulerRemove_fields t _).1]
    by_cases hut : u = t
    · subst hut
      rw [Function.update_self]
      exact Or.inr ⟨Or.inl hready, Or.inr rfl⟩
    · rw [Function.update_of_ne hut]
      rcases requeue_state s.currentTask s u with he | ⟨hr, he⟩
      · exact Or.inl he
      · exact Or.inr ⟨Or.inr hr, Or.inl he⟩

theorem schedule_blocked (h : ReadyInv s Q) (u : Ptr) : (schedule s).state u = .blocked ↔ s.state u = .blocked := by
  rcases schedule_state h u with he | ⟨h1 | h1, h2 | h2⟩
  · rw [he]
  all_goals simp [h1, h2]

theorem requeue_fields (old : Option Ptr) (s : Tasks) : (requeue old s).taskTable = s.taskTable ∧
    (requeue old s).wakeReason = s.wakeReason ∧ (requeue old s).curPrio = s.curPrio := by
  unfold requeue
  cases old with
  | none => exact ⟨rfl, rfl, rfl⟩
  | some t =>
    simp only
    split <;> exact ⟨rfl, rfl, rfl⟩

theorem schedule_current (h : ReadyInv s Q) (hu : (schedule s).currentTask = some u) :
    s.currentTask = some u ∨ s.Live u ∧ s.state u = .ready := by
  rcases schedule_cases h with ⟨hs, -⟩ | ⟨p, hp, t, hhead, -, -, hs⟩
  · rw [hs] at hu
    exact Or.inl hu
  · rw [hs] at hu
    rw [← Option.some.inj hu]
    have hm := (h.mem p hp t).1 (List.mem_of_mem_head? hhead)
    exact Or.inr ⟨hm.1, hm.2.1⟩

theorem schedule_taskTable (s : Tasks) : (schedule s).taskTable = s.taskTable := (same_waits_schedule s).taskTable

/-! ## The invariant -/

/-- **The queues and the wheel are sound**, and the task that has the processor exists. -/
structure Sound (s : Tasks) : Prop where
  ready : ReadyKept s
  wheel : WheelLinks s
  waits : ∃ V, Waits s V
  current : ∀ t, s.currentTask = some t → s.Live t

theorem CallOk.kept {c : TaskCall} (h : CallOk c Q s) : ReadyKept s := by
  obtain ⟨Q', h', hT', -⟩ := h
  exact ⟨Q', h', hT'⟩

theorem Sound.slot (h : Sound s) : s.OneSlot := by
  obtain ⟨Q, -, hT⟩ := h.ready
  exact hT.slot

theorem Sound.congr (h : Sound s) (hr : SameReady s s') (hw : SameWheel s s') (hq : SameWaits s s') : Sound s' := by
  obtain ⟨Q, h1, hT⟩ := h.ready
  obtain ⟨V, h2⟩ := h.waits
  refine ⟨⟨Q, h1.congr hr, hT.congr hr.curPrio hr.basePrio hr.taskTable⟩, h.wheel.congr hw,
    ⟨V, h2.congr_state hq hr.state⟩, fun t ht => ?_⟩
  rw [hr.currentTask] at ht
  exact (live_congr hr.taskTable).2 (h.current t ht)

theorem Sound.timerWheelRemove (h : Sound s) (ht : s.Live t) : Sound (timerWheelRemove t s) := by
  obtain ⟨Q, h1, hT⟩ := h.ready
  obtain ⟨V, h2⟩ := h.waits
  have hr := same_timerWheelRemove t s
  refine ⟨⟨Q, h1.congr hr, hT.congr hr.curPrio hr.basePrio hr.taskTable⟩, (h.wheel.remove ht).1,
    ⟨V, h2.congr_state (same_waits_timerWheelRemove t s) hr.state⟩, fun u hu => ?_⟩
  rw [hr.currentTask] at hu
  exact (live_congr hr.taskTable).2 (h.current u hu)

theorem Sound.timerWheelInsert (h : Sound s) (ht : s.Live t) (n : Nat) : Sound (timerWheelInsert t n s) := by
  obtain ⟨Q, h1, hT⟩ := h.ready
  obtain ⟨V, h2⟩ := h.waits
  have hr := same_timerWheelInsert t n s
  refine ⟨⟨Q, h1.congr hr, hT.congr hr.curPrio hr.basePrio hr.taskTable⟩, (h.wheel.insert ht n).1,
    ⟨V, h2.congr_state (same_waits_timerWheelInsert t n s) hr.state⟩, fun u hu => ?_⟩
  rw [hr.currentTask] at hu
  exact (live_congr hr.taskTable).2 (h.current u hu)

theorem Sound.schedule (h : Sound s) : Sound (schedule s) := by
  obtain ⟨Q, h1, hT⟩ := h.ready
  obtain ⟨V, h2⟩ := h.waits
  refine ⟨(callOk_schedule (c := .schedule) h1 hT (fun t ht _ => h.current t ht)).kept, h.wheel.congr (kept_schedule s).same,
    ⟨V, h2.congr (same_waits_schedule s) (fun u _ => schedule_blocked h1 u)⟩, fun t ht => ?_⟩
  refine (live_congr (schedule_taskTable s)).2 ?_
  rcases schedule_current h1 ht with ht | ht
  · exact h.current t ht
  · exact ht.1

theorem Sound.schedulerAdd (h : Sound s) (ht : s.Live t) (hr : s.state t ≠ .ready) (hb : s.state t ≠ .blocked) :
    Sound (schedulerAdd t s) := by
  obtain ⟨Q, h1, hT⟩ := h.ready
  obtain ⟨V, h2⟩ := h.waits
  refine ⟨(callOk_add (c := .schedule) h1 hT ht hr).kept, h.wheel.congr (kept_schedulerAdd t s).same,
    ⟨V, h2.congr (same_waits_schedulerAdd t s) (fun u _ => ?_)⟩, h.current⟩
  change Function.update s.state t .ready u = .blocked ↔ _
  by_cases hut : u = t
  · subst hut
    rw [Function.update_self]
    simp [hb]
  · rw [Function.update_of_ne hut]

theorem Sound.wakeTask (h : Sound s) (ht : s.Live t) (hr : s.state t ≠ .ready) (hb : s.state t ≠ .blocked) :
    Sound (wakeTask t s) := by
  have h1 : Sound { s with sleepUntil := Function.update s.sleepUntil t 0 } :=
    h.congr ⟨⟨rfl, rfl, rfl, rfl, rfl, rfl⟩, rfl, rfl, rfl⟩ ⟨rfl, rfl, rfl, rfl⟩ ⟨rfl, rfl, rfl, rfl, rfl⟩
  exact h1.schedulerAdd ht hr hb

theorem Sound.unblock {q : QueuePtr} (h : Sound s) (ht : s.Live t) (hb : s.state t = .blocked)
    (hw : s.waitQueue t = some q) (hr : SameReady s s') (hwheel : WheelLinks s')
    (hlists : s'.wait = (taskQueueRemove q t s).wait ∧ s'.waitHead = (taskQueueRemove q t s).waitHead ∧
      s'.waitTail = (taskQueueRemove q t s).waitTail ∧ s'.waitQueue = (taskQueueRemove q t s).waitQueue) :
    Sound (Sched.wakeTask t s') := by
  obtain ⟨Q, h1, hT⟩ := h.ready
  obtain ⟨V, h2⟩ := h.waits
  have hlv : ∀ u, (Sched.wakeTask t s').Live u ↔ s.Live u := fun u => live_congr hr.taskTable
  have hwake : SameWheel s' (Sched.wakeTask t s') := ⟨rfl, rfl, rfl, rfl⟩
  have hself : (Sched.wakeTask t s').state t = .ready := Function.update_self _ _ _
  refine ⟨(callOk_wakeTask (c := .schedule) h1 hT hr ht (by rw [hb]; decide)).kept, hwheel.congr hwake,
    ⟨_, h2.leave ((h2.mem q t).2 ⟨ht, hb, hw⟩) hw hlists (fun _ => ?_) (fun u hu => ⟨?_, hlv u⟩)⟩, fun u hu => ?_⟩
  · rw [hself]
    decide
  · change Function.update s'.state t .ready u = s.state u
    rw [Function.update_of_ne hu, hr.state]
  · change s'.currentTask = some u at hu
    rw [hr.currentTask] at hu
    exact (hlv u).2 (h.current u hu)

/-! ## Waking -/

theorem leaveQueue_of_none (h : s.waitQueue t = none) : leaveQueue t s = s := by
  unfold leaveQueue
  rw [h]

theorem leaveQueue_of_some {q : QueuePtr} (h : s.waitQueue t = some q) : leaveQueue t s = taskQueueRemove q t s := by
  unfold leaveQueue
  rw [h]

theorem Sound.blocked {q : QueuePtr} (h : Sound s) (ht : s.Live t) (hw : s.waitQueue t = some q) :
    s.state t = .blocked := by
  obtain ⟨V, h2⟩ := h.waits
  by_contra hne
  rw [h2.free t ht hne] at hw
  cases hw

theorem Sound.fireTimer (h : Sound s) (ht : s.Live t) : Sound (fireTimer t s) := by
  have h1 := h.timerWheelRemove ht
  have ht1 : (Sched.timerWheelRemove t s).Live t := (live_congr (timerWheelRemove_taskTable t s)).2 ht
  unfold Sched.fireTimer
  generalize Sched.timerWheelRemove t s = s1 at h1 ht1
  simp only
  split
  · rename_i hs
    exact h1.wakeTask ht1 (by rw [hs]; decide) (by rw [hs]; decide)
  · rename_i hs
    have hwk : (leaveQueue t s1).timer = s1.timer := (kept_leaveQueue t s1).timer
    cases hw : s1.waitQueue t with
    | none =>
      rw [leaveQueue_of_none hw]
      obtain ⟨Q, hQ, hT⟩ := h1.ready
      obtain ⟨V, hV⟩ := h1.waits
      refine ⟨(callOk_wakeTask (c := .schedule) hQ hT (same_setWakeReason t _ s1) ht1 (by rw [hs]; decide)).kept,
        h1.wheel.congr ⟨rfl, rfl, rfl, rfl⟩, ⟨V, hV.congr_task (t := t) (fun r hm => ?_) ⟨rfl, rfl⟩
          (fun _ _ => ⟨rfl, rfl⟩) (fun _ => ⟨?_, hw⟩) (fun u hu => ⟨Iff.rfl, fun _ =>
            ⟨Function.update_of_ne hu _ _, rfl⟩⟩)⟩, h1.current⟩
      · have := ((hV.mem r t).1 hm).2.2
        rw [hw] at this
        cases this
      · have hself : (Sched.wakeTask t (setWakeReason t .timeout s1)).state t = .ready := Function.update_self _ _ _
        rw [hself]
        decide
    | some q =>
      rw [leaveQueue_of_some hw]
      have hk := kept_taskQueueRemove q t s1
      exact h1.unblock ht1 hs hw ((same_taskQueueRemove q t s1).trans (same_setWakeReason t _ _))
        ((h1.wheel.congr hk.same).congr ⟨rfl, rfl, rfl, rfl⟩) ⟨rfl, rfl, rfl, rfl⟩
  · exact h1

theorem fireTimer_taskTable (t : Ptr) (s : Tasks) : (Sched.fireTimer t s).taskTable = s.taskTable := by
  have h1 := timerWheelRemove_taskTable t s
  unfold Sched.fireTimer
  simp only
  split
  · exact h1
  · exact (kept_leaveQueue t _).taskTable.trans h1
  · exact h1

theorem Sound.wheelLoop : ∀ (n : Nat) (task : Option Ptr) (s : Tasks), Sound s → (∀ t, task = some t → s.Live t) →
    Sound (wheelLoop n task s).2
  | 0, none, _, h, _ => h
  | 0, some _, _, h, _ => h
  | n + 1, none, _, h, _ => h
  | n + 1, some t, s, h, ht => by
    have htl := ht t rfl
    have hnext : ∀ u, s.timer.next t = some u → s.Live u := fun u hu => (h.wheel.links.next t u htl hu).1
    rw [Sched.wheelLoop]
    split
    · have h1 := h.fireTimer htl
      refine Sound.wheelLoop n _ _ h1 (fun u hu => ?_)
      refine (live_congr ?_).2 (hnext u hu)
      exact fireTimer_taskTable t s
    · exact Sound.wheelLoop n _ _ h hnext

theorem Sound.tickWalk (h : Sound s) : Sound (tickWalk s).2 := by
  have h1 : Sound { s with tickCount := addU32 s.tickCount 1 } :=
    h.congr ⟨⟨rfl, rfl, rfl, rfl, rfl, rfl⟩, rfl, rfl, rfl⟩ ⟨rfl, rfl, rfl, rfl⟩ ⟨rfl, rfl, rfl, rfl, rfl⟩
  refine Sound.wheelLoop _ _ _ h1 (fun t ht => ?_)
  exact (h1.wheel.head _ (Nat.mod_lt _ (by decide)) t ht).1

theorem Sound.setQuantum (h : Sound s) (f : Ptr → Nat) : Sound { s with quantum := f } :=
  h.congr ⟨⟨rfl, rfl, rfl, rfl, rfl, rfl⟩, rfl, rfl, rfl⟩ ⟨rfl, rfl, rfl, rfl⟩ ⟨rfl, rfl, rfl, rfl, rfl⟩

theorem Sound.useQuantum (h : Sound s) (t : Ptr) : Sound (useQuantum t s) := by
  unfold Sched.useQuantum
  simp only
  split
  · exact (h.setQuantum _).schedule
  · exact h.setQuantum _

theorem Sound.timerCallback (h : Sound s) : Sound (timerCallback s) := by
  rcases timerCallback_walk s with ⟨-, he⟩ | ⟨task, -, he⟩
  · rw [he]
    exact h.tickWalk
  · rw [he]
    exact h.tickWalk.useQuantum _

theorem Sound.wakeSleeping (h : Sound s) (ht : s.Live t) (hs : s.state t = .sleeping) :
    Sound (Sched.wakeTask t (Sched.timerWheelRemove t s)) := by
  have hst := timerWheelRemove_state t s
  refine (h.timerWheelRemove ht).wakeTask ((live_congr (timerWheelRemove_taskTable t s)).2 ht) ?_ ?_
  all_goals rw [hst, hs]; decide

theorem Sound.taskWake (h : Sound s) (tid : Nat) : Sound (taskWake tid s) := by
  unfold Sched.taskWake
  cases hf : taskFind s tid with
  | none => exact h
  | some t =>
    simp only
    split
    · exact h.wakeSleeping (live_taskFind hf) ‹_›
    · exact h

theorem Sound.wakeSlot (h : Sound s) {i : Nat} (hi : i < taskMaxTasks) : Sound (wakeSlot s i) := by
  unfold Sched.wakeSlot
  cases ht : s.taskTable i with
  | none => exact h
  | some t =>
    simp only
    split
    · exact h.wakeSleeping ⟨i, hi, ht⟩ ‹_›
    · exact h

theorem Sound.taskWakeAll (h : Sound s) : Sound (taskWakeAll s) := by
  have hall : ∀ l : List Nat, (∀ i ∈ l, i < taskMaxTasks) → ∀ s, Sound s → Sound (l.foldl Sched.wakeSlot s) := by
    intro l
    induction l with
    | nil => exact fun _ s hs => hs
    | cons i l ih =>
      intro hl s hs
      exact ih (fun j hj => hl j (List.mem_cons_of_mem _ hj)) _ (hs.wakeSlot (hl i (by simp)))
  exact hall _ (fun i hi => List.mem_range.1 hi) s h

theorem Sound.taskWakeOne (h : Sound s) (q : QueuePtr) : Sound (taskWakeOne q s) := by
  unfold Sched.taskWakeOne
  cases hw : s.waitHead q with
  | none => exact h
  | some t =>
    obtain ⟨V, hV⟩ := h.waits
    obtain ⟨-, ht, hb, hq⟩ := hV.head_spec hw
    have hk := kept_taskQueueRemove q t s
    have hsw := same_waits_timerWheelRemove t (taskQueueRemove q t s)
    have hwheel : WheelLinks (Sched.timerWheelRemove t (taskQueueRemove q t s)) :=
      ((h.wheel.congr hk.same).remove ((live_congr hk.taskTable).2 ht)).1
    exact h.unblock ht hb hq (((same_taskQueueRemove q t s).trans (same_timerWheelRemove t _)).trans
      (same_setWakeReason t _ _)) (hwheel.congr ⟨rfl, rfl, rfl, rfl⟩)
      ⟨hsw.wait, hsw.waitHead, hsw.waitTail, hsw.waitQueue⟩

theorem Sound.popWake {q : QueuePtr} (h : Sound s) (hw : s.waitHead q = some t) :
    Sound (Sched.wakeTask t (setWakeReason t .signaled (taskQueueRemove q t s))) := by
  obtain ⟨V, hV⟩ := h.waits
  obtain ⟨-, ht, hb, hq⟩ := hV.head_spec hw
  exact h.unblock ht hb hq ((same_taskQueueRemove q t s).trans (same_setWakeReason t _ _))
    ((h.wheel.congr (kept_taskQueueRemove q t s).same).congr ⟨rfl, rfl, rfl, rfl⟩) ⟨rfl, rfl, rfl, rfl⟩

theorem taskQueuePop_of_none {q : QueuePtr} (hw : s.waitHead q = none) : taskQueuePop q s = (none, s) := by
  unfold taskQueuePop
  rw [hw]

theorem taskQueuePop_of_some {q : QueuePtr} (hw : s.waitHead q = some t) :
    taskQueuePop q s = (some t, taskQueueRemove q t s) := by
  unfold taskQueuePop
  rw [hw]

theorem wakeQueueLoop_of_none {q : QueuePtr} (hw : s.waitHead q = none) (n : Nat) : wakeQueueLoop q n s = s := by
  cases n with
  | zero => rfl
  | succ n =>
    rw [wakeQueueLoop, taskQueuePop_of_none hw]

theorem wakeQueueLoop_of_some {q : QueuePtr} (hw : s.waitHead q = some t) (n : Nat) : wakeQueueLoop q (n + 1) s =
    wakeQueueLoop q n (Sched.wakeTask t (setWakeReason t .signaled (taskQueueRemove q t s))) := by
  rw [wakeQueueLoop, taskQueuePop_of_some hw]

theorem Sound.wakeQueueLoop {q : QueuePtr} : ∀ (n : Nat) (s : Tasks), Sound s → Sound (wakeQueueLoop q n s)
  | 0, _, h => h
  | n + 1, s, h => by
    cases hw : s.waitHead q with
    | none =>
      rw [wakeQueueLoop_of_none hw]
      exact h
    | some t =>
      rw [wakeQueueLoop_of_some hw]
      exact Sound.wakeQueueLoop n _ (h.popWake hw)

theorem Waits.length_le (h : Waits s V) (q : QueuePtr) : (V q).length ≤ taskMaxTasks := by
  have hsub : V q ⊆ (List.range taskMaxTasks).filterMap s.taskTable := fun t ht => by
    obtain ⟨i, hi, hti⟩ := ((h.mem q t).1 ht).1
    exact List.mem_filterMap.2 ⟨i, List.mem_range.2 hi, hti⟩
  have hlen := (List.subperm_of_subset (h.lists.nodup q) hsub).length_le
  exact hlen.trans ((List.length_filterMap_le _ _).trans (by rw [List.length_range]))

theorem taskWakeAllQueue_done (h : Sound s) (q : QueuePtr) : (taskWakeAllQueue q s).waitHead q = none := by
  have hloop : ∀ (n : Nat) (s : Tasks) (V : QueuePtr → List Ptr), Waits s V → (V q).length ≤ n →
      (Sched.wakeQueueLoop q n s).waitHead q = none := by
    intro n
    induction n with
    | zero =>
      intro s V hV hn
      change s.waitHead q = none
      rw [hV.lists.head q, List.length_eq_zero_iff.1 (Nat.le_zero.1 hn)]
      rfl
    | succ n ih =>
      intro s V hV hn
      cases hw : s.waitHead q with
      | none => rw [wakeQueueLoop_of_none hw, hw]
      | some t =>
        rw [wakeQueueLoop_of_some hw]
        obtain ⟨hm, ht, hb, hq⟩ := hV.head_spec hw
        have hr := same_taskQueueRemove q t s
        refine ih _ _ (hV.leave hm hq ⟨rfl, rfl, rfl, rfl⟩ (fun _ => ?_) (fun u hu => ⟨?_, live_congr hr.taskTable⟩)) ?_
        · change Function.update (taskQueueRemove q t s).state t TaskState.ready t ≠ _
          rw [Function.update_self]
          decide
        · change Function.update (taskQueueRemove q t s).state t .ready u = _
          rw [Function.update_of_ne hu, hr.state]
        · rw [Function.update_self, List.length_erase_of_mem hm]
          omega
  obtain ⟨V, hV⟩ := h.waits
  exact hloop taskMaxTasks s V hV (hV.length_le q)

/-! ## Sleeping, blocking, ending -/

theorem Sound.stop {x : TaskState} (h : Sound s) (hr : s.state t ≠ .ready) (hb : s.state t ≠ .blocked) (hx : x ≠ .ready)
    (hxb : x ≠ .blocked) (hsr : SameReady { s with state := Function.update s.state t x } s') (hw : SameWheel s s')
    (hq : SameWaits s s') : Sound s' := by
  obtain ⟨Q, h1, hT⟩ := h.ready
  obtain ⟨V, h2⟩ := h.waits
  refine ⟨⟨Q, readyInv_state h1 hr hx hsr, hT.congr hsr.curPrio hsr.basePrio hsr.taskTable⟩, h.wheel.congr hw,
    ⟨V, h2.congr hq (fun u _ => ?_)⟩, fun u hu => ?_⟩
  · rw [hsr.state]
    change Function.update s.state t x u = .blocked ↔ _
    by_cases hut : u = t
    · subst hut
      rw [Function.update_self]
      simp [hb, hxb]
    · rw [Function.update_of_ne hut]
  · rw [hsr.currentTask] at hu
    exact (live_congr hw.taskTable).2 (h.current u hu)

theorem taskExit_of_some (hcur : s.currentTask = some t) :
    taskExit s = Sched.schedule { s with state := Function.update s.state t .zombie } := by
  unfold taskExit
  rw [hcur]

theorem taskExit_of_none (hcur : s.currentTask = none) : taskExit s = s := by
  unfold taskExit
  rw [hcur]

theorem taskSleep_of_some (hcur : s.currentTask = some t) (ms : Nat) :
    taskSleep ms s = Sched.schedule (Sched.timerWheelInsert t (ticksOf ms) { s with
      sleepUntil := Function.update s.sleepUntil t (addU32 s.tickCount (ticksOf ms))
      state := Function.update s.state t .sleeping }) := by
  unfold taskSleep
  rw [hcur]

theorem taskSleep_of_none (hcur : s.currentTask = none) (ms : Nat) : taskSleep ms s = s := by
  unfold taskSleep
  rw [hcur]

def enqueueBlocked (q : QueuePtr) (t : Ptr) (timeoutMs : Nat) (s : Tasks) : Tasks :=
  taskQueuePush q t { s with
    state := Function.update s.state t .blocked
    wakeReason := Function.update s.wakeReason t .none_
    sleepUntil := Function.update s.sleepUntil t (deadline s timeoutMs) }

theorem taskBlockOn_of_some (hcur : s.currentTask = some t) (q : QueuePtr) (timeoutMs : Nat) :
    taskBlockOn q timeoutMs s = Sched.schedule (if timeoutMs = taskNoTimeout then enqueueBlocked q t timeoutMs s
      else Sched.timerWheelInsert t (ticksOf timeoutMs) (enqueueBlocked q t timeoutMs s)) := by
  unfold taskBlockOn enqueueBlocked deadline
  rw [hcur]

theorem taskBlockOn_of_none (hcur : s.currentTask = none) (q : QueuePtr) (timeoutMs : Nat) :
    taskBlockOn q timeoutMs s = s := by
  unfold taskBlockOn
  rw [hcur]

theorem Sound.taskExit (h : Sound s) (hc : s.CurrentRuns) : Sound (taskExit s) := by
  cases hcur : s.currentTask with
  | none =>
    rw [taskExit_of_none hcur]
    exact h
  | some t =>
    have hrun := hc t hcur
    rw [taskExit_of_some hcur]
    exact Sound.schedule (h.stop (x := .zombie) (by rw [hrun]; decide) (by rw [hrun]; decide) (by decide) (by decide)
      ⟨⟨rfl, rfl, rfl, rfl, rfl, rfl⟩, rfl, rfl, rfl⟩ ⟨rfl, rfl, rfl, rfl⟩ ⟨rfl, rfl, rfl, rfl, rfl⟩)

theorem Sound.taskSleep (h : Sound s) (hc : s.CurrentRuns) (ms : Nat) : Sound (taskSleep ms s) := by
  cases hcur : s.currentTask with
  | none =>
    rw [taskSleep_of_none hcur]
    exact h
  | some t =>
    have hrun := hc t hcur
    have hl := h.current t hcur
    rw [taskSleep_of_some hcur]
    refine Sound.schedule (Sound.timerWheelInsert ?_ ?_ _)
    · exact h.stop (x := .sleeping) (t := t) (by rw [hrun]; decide) (by rw [hrun]; decide) (by decide) (by decide)
        ⟨⟨rfl, rfl, rfl, rfl, rfl, rfl⟩, rfl, rfl, rfl⟩ ⟨rfl, rfl, rfl, rfl⟩ ⟨rfl, rfl, rfl, rfl, rfl⟩
    · exact hl

theorem Sound.block (h : Sound s) (ht : s.Live t) (hrun : s.state t = .running) (q : QueuePtr) (timeoutMs : Nat) :
    Sound (enqueueBlocked q t timeoutMs s) := by
  obtain ⟨Q, h1, hT⟩ := h.ready
  obtain ⟨V, h2⟩ := h.waits
  refine ⟨⟨Q, readyInv_state (t := t) (x := .blocked) h1 (by rw [hrun]; decide) (by decide)
    ⟨⟨rfl, rfl, rfl, rfl, rfl, rfl⟩, rfl, rfl, rfl⟩, hT.congr rfl rfl rfl⟩, h.wheel.congr ⟨rfl, rfl, rfl, rfl⟩,
    ⟨_, h2.enter (q := q) ht (by rw [hrun]; decide) ⟨rfl, rfl, rfl, rfl, rfl⟩ (Function.update_self _ _ _)
      (fun u hu => Function.update_of_ne hu _ _)⟩, h.current⟩

theorem Sound.taskBlockOn (h : Sound s) (hc : s.CurrentRuns) (q : QueuePtr) (timeoutMs : Nat) :
    Sound (taskBlockOn q timeoutMs s) := by
  cases hcur : s.currentTask with
  | none =>
    rw [taskBlockOn_of_none hcur]
    exact h
  | some t =>
    have hl := h.current t hcur
    have hb := h.block hl (hc t hcur) q timeoutMs
    rw [taskBlockOn_of_some hcur]
    split
    · exact hb.schedule
    · exact (Sound.timerWheelInsert hb hl _).schedule

/-! ## Priorities -/

theorem changePrio_fields (t : Ptr) (prio : Nat) (s : Tasks) : (changePrio t prio s).state = s.state ∧
    (changePrio t prio s).currentTask = s.currentTask := by
  have hf := schedulerRemove_fields t { s with curPrio := Function.update s.curPrio t prio }
  unfold changePrio
  simp only
  split
  · rename_i hr
    refine ⟨?_, hf.2.2⟩
    change Function.update (schedulerRemove t _).state t .ready = s.state
    rw [hf.1]
    change Function.update s.state t .ready = s.state
    rw [← hr, Function.update_eq_self]
  · exact ⟨rfl, rfl⟩

theorem Sound.changePrio (h : Sound s) {prio : Nat} (hk : ReadyKept (changePrio t prio s)) : Sound (changePrio t prio s) := by
  obtain ⟨V, h2⟩ := h.waits
  have hs := same_waits_changePrio t prio s
  have hf := changePrio_fields t prio s
  refine ⟨hk, h.wheel.congr (kept_changePrio t prio s).same, ⟨V, h2.congr_state hs hf.1⟩, fun u hu => ?_⟩
  rw [hf.2] at hu
  exact (live_congr hs.taskTable).2 (h.current u hu)

theorem Sound.taskBoostPriority {newPrio : Nat} (h : Sound s) (ht : s.Live t)
    (hends : s.basePrio t < taskPrioRealtime → s.basePrio t < min newPrio taskPrioCritical →
      ¬s.MovesEnd t (min newPrio taskPrioCritical)) : Sound (taskBoostPriority t newPrio s) := by
  obtain ⟨Q, h1, hT⟩ := h.ready
  have hk := (callOk_boost h1 hT ht hends).kept
  unfold Sched.taskBoostPriority at hk ⊢
  simp only at hk ⊢
  split
  · exact h
  · split
    · exact h
    · rw [if_neg (by assumption), if_neg (by assumption)] at hk
      exact h.changePrio hk

theorem Sound.taskUnboostPriority (h : Sound s) (ht : s.Live t) (hends : ¬s.MovesEnd t (s.basePrio t)) :
    Sound (taskUnboostPriority t s) := by
  obtain ⟨Q, h1, hT⟩ := h.ready
  have hk := (callOk_unboost h1 hT ht hends).kept
  unfold Sched.taskUnboostPriority at hk ⊢
  split
  · exact h
  · rw [if_neg (by assumption)] at hk
    exact h.changePrio hk

/-! ## Creating and destroying -/

def enterTask (t : Ptr) (priority slot : Nat) (s : Tasks) : Tasks :=
  { initTask t priority s with taskTable := Function.update s.taskTable slot (some t) }

theorem taskCreateArgPrio_cases (memory : Option Ptr) (stack : Bool) (priority : Nat) (s : Tasks) :
    taskCreateArgPrio memory stack priority s = s ∨
    ∃ t slot, memory = some t ∧ slot < taskMaxTasks ∧ s.taskTable slot = none ∧
      (stack = true ∧ taskCreateArgPrio memory stack priority s = Sched.schedulerAdd t (enterTask t priority slot s) ∨
        stack = false ∧ taskCreateArgPrio memory stack priority s = initTask t priority s) := by
  unfold taskCreateArgPrio
  cases hf : findSlot s Option.isNone with
  | none => exact Or.inl rfl
  | some slot =>
    cases memory with
    | none => exact Or.inl rfl
    | some t =>
      obtain ⟨hslot, hfree⟩ := findSlot_some hf
      refine Or.inr ⟨t, slot, rfl, hslot, by simpa using hfree, ?_⟩
      cases stack with
      | true => exact Or.inl ⟨rfl, rfl⟩
      | false => exact Or.inr ⟨rfl, rfl⟩

theorem wheelLinks_create {memory : Option Ptr} (h : WheelLinks s)
    (hnew : ∀ t, memory = some t → ¬s.Live t) (stack : Bool) (priority : Nat) :
    WheelLinks (taskCreateArgPrio memory stack priority s) ∧
      ∀ u, (taskCreateArgPrio memory stack priority s).InWheel u → s.InWheel u ∧ ∀ t, memory = some t → u ≠ t := by
  rcases taskCreateArgPrio_cases memory stack priority s with hs | ⟨t, slot, hm, hslot, hfree, ⟨-, hs⟩ | ⟨-, hs⟩⟩
  · rw [hs]
    refine ⟨h, fun u hu => ⟨hu, fun t ht => ?_⟩⟩
    rintro rfl
    exact hnew u ht (h.live hu)
  all_goals
    have hnl := hnew t hm
    have hfields : ∀ a, a ≠ t → s.Live a → (initTask t priority s).timer.next a = s.timer.next a ∧
        (initTask t priority s).timer.prev a = s.timer.prev a ∧
        (initTask t priority s).timerBucket a = s.timerBucket a := fun a ha _ =>
      ⟨Function.update_of_ne ha _ _, Function.update_of_ne ha _ _, Function.update_of_ne ha _ _⟩
    rw [hs]
  · have hlv := live_enter (t := t) (s := s) hslot hfree
      (rfl : (Sched.schedulerAdd t (enterTask t priority slot s)).taskTable = _)
    obtain ⟨h1, hin⟩ : WheelLinks (Sched.schedulerAdd t (enterTask t priority slot s)) ∧
        ∀ u, (Sched.schedulerAdd t (enterTask t priority slot s)).InWheel u → s.InWheel u ∧ u ≠ t :=
      h.congr_task rfl (fun hl => absurd hl hnl)
        (fun a ha => ⟨fun hl => ((hlv a).1 hl).resolve_right ha, fun hl => (hlv a).2 (Or.inl hl)⟩) hfields
        (fun _ => ⟨Function.update_self _ _ _, Function.update_self _ _ _⟩)
    refine ⟨h1, fun u hu => ⟨(hin u hu).1, fun v hv => ?_⟩⟩
    rw [hm] at hv
    exact Option.some.inj hv ▸ (hin u hu).2
  · obtain ⟨h1, hin⟩ : WheelLinks (initTask t priority s) ∧
        ∀ u, (initTask t priority s).InWheel u → s.InWheel u ∧ u ≠ t :=
      h.congr_task rfl (fun hl => absurd hl hnl) (fun _ _ => Iff.rfl) hfields (fun hl => absurd hl hnl)
    refine ⟨h1, fun u hu => ⟨(hin u hu).1, fun v hv => ?_⟩⟩
    rw [hm] at hv
    exact Option.some.inj hv ▸ (hin u hu).2

theorem waits_create {memory : Option Ptr} (h : Waits s V) (hnew : ∀ t, memory = some t → ¬s.Live t) (stack : Bool)
    (priority : Nat) : Waits (taskCreateArgPrio memory stack priority s) V := by
  rcases taskCreateArgPrio_cases memory stack priority s with hs | ⟨t, slot, hm, hslot, hfree, ⟨-, hs⟩ | ⟨-, hs⟩⟩
  · rw [hs]
    exact h
  all_goals
    have hnl := hnew t hm
    have hout : ∀ r, t ∉ V r := fun r hmr => hnl ((h.mem r t).1 hmr).1
    have hwait : ∀ u, u ≠ t → (initTask t priority s).wait.next u = s.wait.next u ∧
        (initTask t priority s).wait.prev u = s.wait.prev u := fun u hu =>
      ⟨Function.update_of_ne hu _ _, Function.update_of_ne hu _ _⟩
    have hstate : ∀ u, u ≠ t → (initTask t priority s).state u = s.state u := fun u hu => Function.update_of_ne hu _ _
    have hqueue : ∀ u, u ≠ t → (initTask t priority s).waitQueue u = s.waitQueue u := fun u hu =>
      Function.update_of_ne hu _ _
    rw [hs]
  · have hlv := live_enter (t := t) (s := s) hslot hfree
      (rfl : (Sched.schedulerAdd t (enterTask t priority slot s)).taskTable = _)
    have hself : (Sched.schedulerAdd t (enterTask t priority slot s)).state t = .ready := Function.update_self _ _ _
    have hst : ∀ u, u ≠ t → (Sched.schedulerAdd t (enterTask t priority slot s)).state u = s.state u := fun u hu =>
      (Function.update_of_ne hu _ _).trans (hstate u hu)
    refine h.congr_task hout ⟨rfl, rfl⟩ hwait (fun _ => ⟨?_, Function.update_self _ _ _⟩)
      (fun u hu => ⟨⟨fun hl => ((hlv u).1 hl).resolve_right hu, fun hl => (hlv u).2 (Or.inl hl)⟩,
        fun _ => ⟨hst u hu, hqueue u hu⟩⟩)
    rw [hself]
    decide
  · exact h.congr_task hout ⟨rfl, rfl⟩ hwait (fun hl => absurd hl hnl)
      (fun u hu => ⟨Iff.rfl, fun _ => ⟨hstate u hu, hqueue u hu⟩⟩)

theorem Sound.taskCreateArgPrio {memory : Option Ptr} {stack : Bool} (h : Sound s)
    (hnew : ∀ t, memory = some t → ¬s.Live t) (priority : Nat) : Sound (taskCreateArgPrio memory stack priority s) := by
  obtain ⟨Q, h1, hT⟩ := h.ready
  obtain ⟨V, h2⟩ := h.waits
  refine ⟨(callOk_create (c := .schedule) memory stack priority h1 hT hnew).kept, (wheelLinks_create h.wheel hnew _ _).1,
    ⟨V, waits_create h2 hnew _ _⟩, fun u hu => ?_⟩
  rcases taskCreateArgPrio_cases memory stack priority s with hs | ⟨t, slot, -, hslot, hfree, ⟨-, hs⟩ | ⟨-, hs⟩⟩
  all_goals rw [hs] at hu ⊢
  · exact h.current u hu
  · exact (live_enter hslot hfree rfl u).2 (Or.inl (h.current u hu))
  · exact h.current u hu

def offLists (t : Ptr) (s : Tasks) : Tasks := leaveQueue t (Sched.timerWheelRemove t (schedulerRemove t s))

theorem forgetTask_wheel (t : Ptr) (s : Tasks) : (forgetTask t s).timer = s.timer ∧
    (forgetTask t s).timerWheel = s.timerWheel ∧ (forgetTask t s).timerBucket = s.timerBucket := by
  unfold forgetTask
  split <;> exact ⟨rfl, rfl, rfl⟩

theorem forgetTask_waits (t : Ptr) (s : Tasks) : (forgetTask t s).wait = s.wait ∧
    (forgetTask t s).waitHead = s.waitHead ∧ (forgetTask t s).waitTail = s.waitTail ∧
    (forgetTask t s).waitQueue = s.waitQueue ∧ (forgetTask t s).state = s.state ∧
    (forgetTask t s).currentTask = s.currentTask := by
  unfold forgetTask
  split <;> exact ⟨rfl, rfl, rfl, rfl, rfl, rfl⟩

theorem wheelLinks_destroy (h : Sound s) (ht : s.Live t) : WheelLinks (taskDestroy t s) ∧
    ∀ u, (taskDestroy t s).InWheel u → s.InWheel u := by
  have hk := kept_schedulerRemove t s
  have h1 := h.wheel.congr hk.same
  have ht1 : (schedulerRemove t s).Live t := (live_congr hk.taskTable).2 ht
  obtain ⟨h2, hin⟩ := h1.remove ht1
  have hk2 := kept_leaveQueue t (Sched.timerWheelRemove t (schedulerRemove t s))
  have h3 := h2.congr hk2.same
  have htab : (offLists t s).taskTable = s.taskTable :=
    hk2.taskTable.trans ((timerWheelRemove_taskTable t _).trans hk.taskTable)
  have hslot : (offLists t s).OneSlot := oneSlot_congr htab h.slot
  have hbucket : timerWheelSize ≤ (offLists t s).timerBucket t := by
    change _ ≤ (leaveQueue t _).timerBucket t
    rw [hk2.timerBucket]
    exact timerWheelRemove_bucket t _
  have hl3 : (offLists t s).Live t := (live_congr htab).2 ht
  obtain ⟨e1, e2, e3⟩ := forgetTask_wheel t (offLists t s)
  obtain ⟨h4, hin4⟩ : WheelLinks (taskDestroy t s) ∧ ∀ u, (taskDestroy t s).InWheel u →
      (offLists t s).InWheel u ∧ u ≠ t := h3.congr_task e2 (fun _ => ⟨h3.not_inWheel hl3 hbucket, (h3.out t hl3 hbucket).1⟩)
    (fun a ha => (forgetTask_live hslot t a).trans ⟨fun hl => hl.2, fun hl => ⟨ha, hl⟩⟩)
    (fun a _ _ => ⟨congrFun (congrArg Links.next e1) a, congrFun (congrArg Links.prev e1) a, congrFun e3 a⟩)
    (fun hl => absurd rfl ((forgetTask_live hslot t t).1 hl).1)
  refine ⟨h4, fun u hu => ?_⟩
  have hu3 := (inWheel_congr hk2.same).1 (hin4 u hu).1
  exact (inWheel_congr hk.same).1 (hin u hu3).1

theorem Sound.taskDestroy (h : Sound s) (ht : s.Live t) (hc : s.currentTask ≠ some t) : Sound (taskDestroy t s) := by
  obtain ⟨Q, h1, hT⟩ := h.ready
  obtain ⟨V, h2⟩ := h.waits
  have hw1 := (same_waits_schedulerRemove t s).trans (same_waits_timerWheelRemove t (schedulerRemove t s))
  have hr2 := same_timerWheelRemove t (schedulerRemove t s)
  have hf := schedulerRemove_fields t s
  have hstate1 : (Sched.timerWheelRemove t (schedulerRemove t s)).state = s.state := hr2.state.trans hf.1
  have hcur1 : (Sched.timerWheelRemove t (schedulerRemove t s)).currentTask = s.currentTask := hr2.currentTask.trans hf.2.2
  have hlq := same_leaveQueue t (Sched.timerWheelRemove t (schedulerRemove t s))
  have htab : (offLists t s).taskTable = s.taskTable := hlq.taskTable.trans hw1.taskTable
  have hstate : (offLists t s).state = s.state := hlq.state.trans hstate1
  have hslot : (offLists t s).OneSlot := oneSlot_congr htab h.slot
  obtain ⟨e1, e2, e3, e4, e5, e6⟩ := forgetTask_waits t (offLists t s)
  have hlv : ∀ u, (Sched.taskDestroy t s).Live u ↔ u ≠ t ∧ s.Live u := fun u =>
    (forgetTask_live hslot t u).trans (and_congr_right fun _ => live_congr htab)
  have hother : ∀ u, u ≠ t → ((Sched.taskDestroy t s).Live u ↔ s.Live u) := fun u hu =>
    (hlv u).trans ⟨fun hl => hl.2, fun hl => ⟨hu, hl⟩⟩
  have hst : ∀ u, (Sched.taskDestroy t s).state u = s.state u := fun u => congrFun (e5.trans hstate) u
  have hV1 : Waits (Sched.timerWheelRemove t (schedulerRemove t s)) V := h2.congr_state hw1 hstate1
  refine ⟨(callOk_destroy (c := .schedule) h1 hT ht).kept, (wheelLinks_destroy h ht).1, ?_, fun u hu => ?_⟩
  · cases hwq : s.waitQueue t with
    | none =>
      have hwq1 : (Sched.timerWheelRemove t (schedulerRemove t s)).waitQueue t = none := by
        rw [hw1.waitQueue]
        exact hwq
      have hoff : offLists t s = Sched.timerWheelRemove t (schedulerRemove t s) := leaveQueue_of_none hwq1
      have e1 := e1.trans (congrArg Tasks.wait hoff)
      have e2 := e2.trans (congrArg Tasks.waitHead hoff)
      have e3 := e3.trans (congrArg Tasks.waitTail hoff)
      have e4 := e4.trans (congrArg Tasks.waitQueue hoff)
      refine ⟨V, h2.congr_task (t := t) (fun r hm => ?_) ⟨e2.trans hw1.waitHead, e3.trans hw1.waitTail⟩ (fun u _ => ?_)
        (fun hl => absurd rfl ((hlv t).1 hl).1) (fun u hu => ⟨hother u hu, fun _ => ⟨hst u, ?_⟩⟩)⟩
      · have := ((h2.mem r t).1 hm).2.2
        rw [hwq] at this
        cases this
      · have := e1.trans hw1.wait
        exact ⟨congrFun (congrArg Links.next this) u, congrFun (congrArg Links.prev this) u⟩
      · exact congrFun (e4.trans hw1.waitQueue) u
    | some q =>
      have hwq1 : (Sched.timerWheelRemove t (schedulerRemove t s)).waitQueue t = some q := by
        rw [hw1.waitQueue]
        exact hwq
      have hoff : offLists t s = taskQueueRemove q t (Sched.timerWheelRemove t (schedulerRemove t s)) :=
        leaveQueue_of_some hwq1
      have e1 := e1.trans (congrArg Tasks.wait hoff)
      have e2 := e2.trans (congrArg Tasks.waitHead hoff)
      have e3 := e3.trans (congrArg Tasks.waitTail hoff)
      have e4 := e4.trans (congrArg Tasks.waitQueue hoff)
      have hm : t ∈ V q := (h2.mem q t).2 ⟨ht, h.blocked ht hwq, hwq⟩
      refine ⟨_, hV1.leave hm hwq1 ⟨e1, e2, e3, e4⟩ (fun hl => absurd rfl ((hlv t).1 hl).1) (fun u hu => ⟨?_, ?_⟩)⟩
      · rw [hst u, hstate1]
      · exact (hother u hu).trans (live_congr hw1.taskTable).symm
  · change (forgetTask t (offLists t s)).currentTask = some u at hu
    rw [e6, show (offLists t s).currentTask = s.currentTask from hlq.currentTask.trans hcur1] at hu
    refine (hlv u).2 ⟨?_, h.current u hu⟩
    rintro rfl
    exact hc hu

/-- `task_init` begins with an empty table. -/
def clearTable (s : Tasks) : Tasks := { s with taskTable := fun _ => none, currentTask := none, nextTid := 1 }

theorem clearTable_live (s : Tasks) (t : Ptr) : ¬(clearTable s).Live t := by
  rintro ⟨i, -, hi⟩
  cases hi

theorem Sound.clearTable (h : Sound s) (hno : ∀ t, ¬s.Live t) : Sound (clearTable s) := by
  obtain ⟨Q, h1, hT⟩ := h.ready
  obtain ⟨V, h2⟩ := h.waits
  have hno1 := clearTable_live s
  refine ⟨⟨Q, ⟨h1.toQueues.congr ⟨rfl, rfl, rfl, rfl, rfl, rfl⟩, fun p hp t => ?_⟩,
    ⟨fun t ht => absurd ht (hno1 t), fun i hi j _ t ht _ => absurd ⟨i, hi, ht⟩ (hno1 t)⟩⟩,
    ⟨⟨fun a b ha => absurd ha (hno1 a), fun a b hb => absurd hb (hno1 b)⟩,
      fun b hb t ht => absurd (h.wheel.head b hb t ht).1 (hno t), fun a c ha => absurd ha (hno1 a),
      fun t ht => absurd ht (hno1 t)⟩,
    ⟨V, h2.lists, fun q t => ?_, fun t ht => absurd ht (hno1 t)⟩, fun t ht => (by cases ht)⟩
  · rw [queues_nil h1 hno p hp]
    simp [hno1 t]
  · exact ⟨fun hm => absurd ((h2.mem q t).1 hm).1 (hno t), fun hl => absurd hl.1 (hno1 t)⟩

theorem taskInit_eq {idle reaper : Option Ptr} {idleStack reaperStack : Bool} (hidle : idle = none ∨ idleStack = false)
    (s : Tasks) : taskInit idle idleStack reaper reaperStack s = taskCreateArgPrio reaper reaperStack taskPrioCritical
      (taskCreateArgPrio idle idleStack taskPrioNormal (Sched.clearTable s)) := by
  unfold taskInit
  simp only
  rw [createdTask_none hidle]
  rfl

theorem Sound.taskInit {idle reaper : Option Ptr} {idleStack reaperStack : Bool} (h : Sound s) (hno : ∀ t, ¬s.Live t)
    (hidle : idle = none ∨ idleStack = false) : Sound (taskInit idle idleStack reaper reaperStack s) := by
  have hno1 := clearTable_live s
  have h3 : Sound (Sched.taskCreateArgPrio idle idleStack taskPrioNormal (Sched.clearTable s)) :=
    (h.clearTable hno).taskCreateArgPrio (fun t _ => hno1 t) _
  rw [taskInit_eq hidle]
  exact h3.taskCreateArgPrio (fun t _ hl => hno1 t ((live_taskCreateArgPrio hidle _ t).1 hl)) _

/-! ## Runs -/

theorem renewQuantum_sound (h : Sound s) : Sound (renewQuantum s) := by
  unfold renewQuantum
  split
  · exact h
  · exact h.setQuantum _

theorem Sound.run {c : SchedCall} (h : Sound s) (hv : c.Valid s) (hk : c.KeepsQueues s) : Sound (c.run s) := by
  cases c with
  | yield => exact (renewQuantum_sound h).schedule
  | exit => exact h.taskExit hv
  | wakeAllQueue q => exact Sound.wakeQueueLoop _ _ h
  | timer c =>
    cases c with
    | wakeAll => exact h.taskWakeAll
    | tick => exact h.timerCallback
    | call c =>
      cases c with
      | init idle idleStack reaper reaperStack => exact h.taskInit hv.1 hk
      | create memory stack priority => exact h.taskCreateArgPrio hv priority
      | add t => exact h.schedulerAdd hv.1 hv.2.1 hv.2.2.1
      | remove t =>
        change Sound (schedulerRemove t s)
        rw [schedulerRemove_of_ne hk]
        exact h
      | schedule => exact h.schedule
      | boost t newPrio => exact h.taskBoostPriority hv hk
      | unboost t => exact h.taskUnboostPriority hv hk
      | sleep ms => exact h.taskSleep hv ms
      | wake tid => exact h.taskWake tid
      | blockOn q timeoutMs => exact h.taskBlockOn hv q timeoutMs
      | wakeOne q => exact h.taskWakeOne q
      | destroy t => exact h.taskDestroy hv.1 hv.2

theorem bootTasks_live (memory : Tasks) (t : Ptr) : ¬(bootTasks memory).Live t := by
  rintro ⟨i, -, hi⟩
  cases hi

theorem sound_bootTasks (memory : Tasks) : Sound (bootTasks memory) := by
  have hno := bootTasks_live memory
  refine ⟨⟨_, readyInv_bootTasks memory⟩, ⟨⟨fun a b ha => absurd ha (hno a), fun a b hb => absurd hb (hno b)⟩,
    fun b _ t ht => (by cases ht), fun a c ha => absurd ha (hno a), fun t ht => absurd ht (hno t)⟩,
    ⟨fun _ => [], ⟨fun _ => trivial, fun _ => List.nodup_nil, fun _ => rfl, fun _ => rfl, by simp⟩,
      fun q t => by simp [hno t], fun t ht => absurd ht (hno t)⟩, fun t ht => (by cases ht)⟩

theorem sound_run (memory : Tasks) (cs : List SchedCall)
    (hA : Allowed schedStep (fun _ s c => c.Valid s ∧ c.KeepsQueues s) (bootTasks memory) cs) :
    Sound (run schedStep (bootTasks memory) cs).2 :=
  run_keeps (I := fun _ s => Sound s) (fun _ _ _ h hc => h.run hc.1 hc.2) (sound_bootTasks memory) cs hA

end

end Sched
end AmitX
