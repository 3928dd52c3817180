import AmitX.Lib.Run
import AmitX.Sched.Ready
import AmitX.Sched.Wheel
import Mathlib.Data.List.Perm.Subperm
/-!
# WheelRun — the timers over runs of calls and ticks

A task with a timer stays in the bucket of its deadline until a call wakes or destroys it or its deadline is reached,
when no call takes a task that was never in a bucket off the wheel while bucket 0 is in use, and the running task is not
destroyed before it sleeps or blocks.
-/
namespace AmitX
namespace Sched

open Links Run

/-- The calls of the tasks, and the interrupt of the timer. -/
inductive TimerCall
  | call (c : TaskCall)
  | wakeAll
  | tick

def TimerCall.run (s : Tasks) : TimerCall → Tasks
  | .call c => c.run s
  | .wakeAll => taskWakeAll s
  | .tick => timerCallback s

def TimerCall.Valid (s : Tasks) : TimerCall → Prop
  | .call (.init idle _ reaper _) => (∀ t, ¬s.Live t) ∧ (idle = none ∨ idle ≠ reaper)
  | .call (.create memory _ _) => ∀ t, memory = some t → ¬s.Live t
  | .call (.destroy t) => s.Live t
  | _ => True

/-- The task whose timer a call sets or clears exists, and no bucket is cleared in its place. -/
def TimerCall.KeepsBuckets (s : Tasks) : TimerCall → Prop
  | .call (.sleep _) => ∀ t, s.currentTask = some t → s.Live t ∧ ¬s.DropsBucket t
  | .call (.blockOn _ timeoutMs) => timeoutMs ≠ taskNoTimeout →
      ∀ t, s.currentTask = some t → s.Live t ∧ ¬s.DropsBucket t
  | .call (.wakeOne q) => ∀ t, s.waitHead q = some t → s.Live t ∧ ¬s.DropsBucket t
  | .call (.destroy t) => ¬s.DropsBucket t
  | _ => True

def TimerCall.Touches (s : Tasks) (t : Ptr) : TimerCall → Prop
  | .call (.sleep _) => s.currentTask = some t
  | .call (.blockOn _ timeoutMs) => timeoutMs ≠ taskNoTimeout ∧ s.currentTask = some t
  | .call (.wake tid) => taskFind s tid = some t
  | .call (.wakeOne q) => s.waitHead q = some t
  | .call (.destroy u) => t = u
  | .wakeAll => s.state t = .sleeping
  | .tick => s.timerBucket t = addU32 s.tickCount 1 % timerWheelSize ∧ s.sleepUntil t ≤ addU32 s.tickCount 1
  | _ => False

def TimerCall.Starts (s : Tasks) (t : Ptr) (until_ : Nat) : TimerCall → Prop
  | .call (.sleep ms) => s.currentTask = some t ∧ until_ = addU32 s.tickCount (ticksOf ms)
  | .call (.blockOn _ timeoutMs) => timeoutMs ≠ taskNoTimeout ∧ s.currentTask = some t ∧
      until_ = addU32 s.tickCount (ticksOf timeoutMs)
  | _ => False

def Tasks.Linked (s : Tasks) (b : Nat) (t : Ptr) : Prop := Reach s.timer.next (s.timerWheel b) t

section

variable {s s' : Tasks} {W W' : Nat → List Ptr} {t u : Ptr} {b : Nat} {c : TimerCall}

theorem linked_iff (h : Wheel s W) (hb : b < timerWheelSize) : s.Linked b t ↔ t ∈ W b := by
  unfold Tasks.Linked
  rw [h.head b hb]
  exact reach_iff (h.seg b hb)

structure TimersOk (c : TimerCall) (s : Tasks) (W : Nat → List Ptr) (s' : Tasks) (W' : Nat → List Ptr) : Prop where
  timers : Timers s' none W'
  stay : ∀ b < timerWheelSize, ∀ u ∈ W b, u ∈ W' b ∨ c.Touches s u
  starts : ∀ t d, c.Starts s t d → t ∈ W' (d % timerWheelSize)

theorem timersOk_kept (h : Timers s none W) (hk : WheelKept s s') (hc : ∀ t d, ¬c.Starts s t d) :
    TimersOk c s W s' W :=
  ⟨h.kept hk, fun _ _ _ hu => Or.inl hu, fun t d hd => absurd hd (hc t d)⟩

theorem timersOk_erase (h : Timers s' none (fun b => (W b).erase t)) (ht : c.Touches s t)
    (hc : ∀ t d, ¬c.Starts s t d) : TimersOk c s W s' (fun b => (W b).erase t) := by
  refine ⟨h, fun b _ u hu => ?_, fun t d hd => absurd hd (hc t d)⟩
  by_cases hut : u = t
  · exact Or.inr (hut ▸ ht)
  · exact Or.inl ((List.mem_erase_of_ne hut).2 hu)

theorem dropsBucket_kept (hk : WheelKept s s') : s'.DropsBucket t ↔ s.DropsBucket t := by
  unfold Tasks.DropsBucket
  rw [hk.timer, hk.timerWheel, hk.timerBucket]

/-! ## Creating and destroying -/

theorem timers_initTask (h : Timers s none W) (hnew : ¬s.Live t) (priority : Nat) :
    Timers (initTask t priority s) none W := by
  have hout : ∀ b < timerWheelSize, t ∉ W b := fun b hb hm => hnew (h.bucket b hb t hm).1
  have hother : ∀ u, s.Live u → u ≠ t := by
    rintro u hu rfl
    exact hnew hu
  refine ⟨⟨fun b hb => ((h.seg b hb).setNext (hout b hb) none).setPrev (hout b hb) none, h.nodup, h.head,
    fun b hb u hu => ?_, fun u hl hb hu => ?_⟩, fun u hl _ hu => ?_, h.slot⟩
  · have := h.bucket b hb u hu
    change s.Live u ∧ Function.update s.timerBucket t 0 u = b
    rw [Function.update_of_ne (hother u this.1)]
    exact this
  · have hut := hother u hl
    change Function.update s.timerBucket t 0 u < _ at hb
    change u ∉ W (Function.update s.timerBucket t 0 u) at hu
    change Function.update s.timer.prev t none u = none ∧ Function.update s.timer.next t none u = none
    rw [Function.update_of_ne hut] at hb hu
    rw [Function.update_of_ne hut, Function.update_of_ne hut]
    exact h.fresh u hl hb hu
  · have hut := hother u hl
    change Function.update s.state t .ready u = .sleeping ∨
      Function.update s.state t .ready u = .blocked ∧ Function.update s.sleepUntil t 0 u ≠ 0 at hu
    change u ∈ W (Function.update s.sleepUntil t 0 u % timerWheelSize)
    rw [Function.update_of_ne hut, Function.update_of_ne hut] at hu
    rw [Function.update_of_ne hut]
    exact h.timed u hl (by simp) hu

theorem timers_create {memory : Option Ptr} (h : Timers s none W) (hnew : ∀ t, memory = some t → ¬s.Live t)
    (stack : Bool) (priority : Nat) : Timers (taskCreateArgPrio memory stack priority s) none W := by
  unfold taskCreateArgPrio
  cases hf : findSlot s Option.isNone with
  | none => exact h
  | some slot =>
    cases hm : memory with
    | none => exact h
    | some t =>
      have hnl := hnew t hm
      have h1 := timers_initTask h hnl priority
      obtain ⟨hslot, hfree⟩ := findSlot_some hf
      have hfree : s.taskTable slot = none := by simpa using hfree
      simp only
      split
      · have hlv : ∀ u, { initTask t priority s with taskTable := Function.update s.taskTable slot (some t) }.Live u ↔
            s.Live u ∨ u = t := live_enter hslot hfree rfl
        suffices h2 : Timers { initTask t priority s with
            taskTable := Function.update s.taskTable slot (some t) } none W from h2.kept (kept_schedulerAdd t _)
        refine ⟨⟨h1.seg, h1.nodup, h1.head, fun b hb u hu => ?_, fun u hl hb hu => ?_⟩, fun u hl _ hu => ?_,
          oneSlot_enter hnl h.slot rfl⟩
        · exact ⟨(hlv u).2 (Or.inl (h1.bucket b hb u hu).1), (h1.bucket b hb u hu).2⟩
        · rcases (hlv u).1 hl with hl | rfl
          · exact h1.fresh u hl hb hu
          · exact ⟨Function.update_self _ _ _, Function.update_self _ _ _⟩
        · rcases (hlv u).1 hl with hl | rfl
          · exact h1.timed u hl (by simp) hu
          · have hr : (initTask u priority s).state u = .ready := Function.update_self _ _ _
            exact absurd hu (not_timed_of_state (s := initTask u priority s) (by rw [hr]; decide)
              (by rw [hr]; decide))
      · exact h1

theorem timers_forgetTask (h : Timers s (some t) W) (hout : ∀ b < timerWheelSize, t ∉ W b) :
    Timers (forgetTask t s) none W := by
  have hlv := forgetTask_live h.slot t
  have hk : (forgetTask t s).timer = s.timer ∧ (forgetTask t s).timerWheel = s.timerWheel ∧
      (forgetTask t s).timerBucket = s.timerBucket ∧ (forgetTask t s).sleepUntil = s.sleepUntil ∧
      (forgetTask t s).state = s.state := by
    unfold forgetTask
    split <;> exact ⟨rfl, rfl, rfl, rfl, rfl⟩
  obtain ⟨h1, h2, h3, h4, h5⟩ := hk
  refine ⟨⟨by rw [h1]; exact h.seg, h.nodup, by rw [h2]; exact h.head, fun b hb u hu => ?_, fun u hl hb hu => ?_⟩,
    fun u hl _ hu => ?_, forgetTask_slot h.slot t⟩
  · rw [hlv u, h3]
    refine ⟨⟨?_, (h.bucket b hb u hu).1⟩, (h.bucket b hb u hu).2⟩
    rintro rfl
    exact hout b hb hu
  · rw [h3] at hb hu
    rw [h1]
    exact h.fresh u ((hlv u).1 hl).2 hb hu
  · obtain ⟨hut, hl⟩ := (hlv u).1 hl
    unfold Tasks.Timed at hu
    rw [h4, h5] at hu
    rw [h4]
    exact h.timed u hl (fun he => hut (Option.some.inj he).symm) hu

theorem timersOk_destroy (h : Timers s none W) (hlive : s.Live t) (hd : ¬s.DropsBucket t) :
    TimersOk (.call (.destroy t)) s W (taskDestroy t s) (fun b => (W b).erase t) := by
  have hk := kept_schedulerRemove t s
  have h1 := (h.kept hk).remove (t := t) (Or.inl rfl) ((live_congr hk.taskTable).2 hlive)
    (fun hd' => hd ((dropsBucket_kept hk).1 hd'))
  refine timersOk_erase (timers_forgetTask (h1.kept (kept_leaveQueue t _)) (not_mem_remove h.toWheel t)) rfl ?_
  exact fun _ _ hd => hd

theorem timersOk_init {idle reaper : Option Ptr} {idleStack reaperStack : Bool} (h : Timers s none W)
    (hno : ∀ t, ¬s.Live t) (hne : idle = none ∨ idle ≠ reaper) :
    TimersOk (.call (.init idle idleStack reaper reaperStack)) s W (taskInit idle idleStack reaper reaperStack s) W := by
  refine ⟨?_, fun _ _ _ hu => Or.inl hu, fun _ _ hd => hd.elim⟩
  have hno1 : ∀ t, ¬{ s with taskTable := fun _ => none, currentTask := none, nextTid := 1 }.Live t := by
    rintro t ⟨i, -, hi⟩
    cases hi
  have h1 : Timers { s with taskTable := fun _ => none, currentTask := none, nextTid := 1 } none W :=
    ⟨⟨h.seg, h.nodup, h.head, fun b hb t ht => absurd (h.bucket b hb t ht).1 (hno t), fun t hl => absurd hl (hno1 t)⟩,
      fun t hl => absurd hl (hno1 t), fun i hi j _ t ht => absurd ⟨i, hi, ht⟩ (hno1 t)⟩
  unfold taskInit
  generalize { s with taskTable := fun _ => none, currentTask := none, nextTid := 1 } = s1 at hno1 h1
  simp only
  have h2 : Timers (taskCreateArgPrio idle idleStack taskPrioNormal s1) none W :=
    timers_create h1 (fun t _ => hno1 t) _ _
  have hidle : WheelKept (taskCreateArgPrio idle idleStack taskPrioNormal s1)
      (setIdle (createdTask idle idleStack s1) (taskCreateArgPrio idle idleStack taskPrioNormal s1)) := by
    unfold setIdle
    split
    · exact WheelKept.refl _
    · exact ⟨rfl, rfl, rfl, rfl, rfl, fun _ h => ⟨h, rfl⟩⟩
  refine timers_create (h2.kept hidle) (fun t ht hl => ?_) _ _
  rw [live_congr hidle.taskTable] at hl
  rcases live_of_taskCreateArgPrio hl with hl | hl
  · exact hno1 t hl
  · rcases hne with hne | hne
    · rw [hne] at hl
      cases hl
    · exact hne (hl.trans ht.symm)

/-! ## Sleeping, blocking, waking -/

theorem timersOk_insert {n : Nat} (h : Timers s none W) (hlive : s.Live t) (hd : ¬s.DropsBucket t)
    (hwheel : s'.timer = s.timer ∧ s'.timerWheel = s.timerWheel ∧ s'.timerBucket = s.timerBucket)
    (htab : s'.taskTable = s.taskTable) (htick : s'.tickCount = s.tickCount)
    (hother : ∀ u, u ≠ t → s'.state u = s.state u ∧ s'.sleepUntil u = s.sleepUntil u)
    (hn : s'.sleepUntil t = addU32 s.tickCount n) (ht : c.Touches s t)
    (hc : ∀ u d, c.Starts s u d → u = t ∧ d = addU32 s.tickCount n) :
    ∃ W', TimersOk c s W (schedule (timerWheelInsert t n s')) W' := by
  have h1 : Timers s' (some t) W := by
    refine ⟨h.toWheel.congr hwheel.1 hwheel.2.1 hwheel.2.2 htab, fun u hl ho hu => ?_, oneSlot_congr htab h.slot⟩
    have hut : u ≠ t := fun he => ho (by rw [he])
    unfold Tasks.Timed at hu
    rw [(hother u hut).1, (hother u hut).2] at hu
    rw [(hother u hut).2]
    exact h.timed u ((live_congr htab).1 hl) (by simp) hu
  have hd' : ¬s'.DropsBucket t := by
    unfold Tasks.DropsBucket at hd ⊢
    rw [hwheel.1, hwheel.2.1, hwheel.2.2]
    exact hd
  have h2 := h1.insert ((live_congr htab).2 hlive) hd' (n := n) (by rw [hn, htick])
  rw [htick] at h2
  refine ⟨_, h2.kept (kept_schedule _), fun b hb u hu => ?_, fun u d hd => ?_⟩
  · by_cases hut : u = t
    · exact Or.inr (hut ▸ ht)
    · have hm : u ∈ (W b).erase t := (List.mem_erase_of_ne hut).2 hu
      by_cases hbd : b = addU32 s.tickCount n % timerWheelSize
      · subst hbd
        rw [Function.update_self]
        exact Or.inl (List.mem_cons_of_mem _ hm)
      · rw [Function.update_of_ne hbd]
        exact Or.inl hm
  · obtain ⟨rfl, rfl⟩ := hc u d hd
    rw [Function.update_self]
    simp

theorem timersOk_sleep {ms : Nat} (h : Timers s none W)
    (hc : ∀ t, s.currentTask = some t → s.Live t ∧ ¬s.DropsBucket t) :
    ∃ W', TimersOk (.call (.sleep ms)) s W (taskSleep ms s) W' := by
  unfold taskSleep
  cases hcur : s.currentTask with
  | none => exact ⟨W, timersOk_kept h (WheelKept.refl s) (by rintro t d ⟨ht, -⟩; rw [hcur] at ht; cases ht)⟩
  | some t =>
    refine timersOk_insert h (hc t hcur).1 (hc t hcur).2 ⟨rfl, rfl, rfl⟩ rfl rfl
      (fun u hu => ⟨Function.update_of_ne hu _ _, Function.update_of_ne hu _ _⟩) (Function.update_self _ _ _) hcur ?_
    rintro u d ⟨hu, hd⟩
    rw [hcur] at hu
    exact ⟨(Option.some.inj hu).symm, hd⟩

theorem timersOk_blockOn {q : QueuePtr} {timeoutMs : Nat} (h : Timers s none W)
    (hc : timeoutMs ≠ taskNoTimeout → ∀ t, s.currentTask = some t → s.Live t ∧ ¬s.DropsBucket t) :
    ∃ W', TimersOk (.call (.blockOn q timeoutMs)) s W (taskBlockOn q timeoutMs s) W' := by
  unfold taskBlockOn
  cases hcur : s.currentTask with
  | none => exact ⟨W, timersOk_kept h (WheelKept.refl s) (by rintro t d ⟨-, ht, -⟩; rw [hcur] at ht; cases ht)⟩
  | some t =>
    simp only
    by_cases hms : timeoutMs = taskNoTimeout
    · rw [if_pos hms]
      refine ⟨W, timersOk_kept h (WheelKept.trans ?_ (kept_schedule _)) (fun t d hd => hd.1 hms)⟩
      refine ⟨rfl, rfl, rfl, rfl, rfl, kept_of_state (t := t) ?_ (fun u hu => Function.update_of_ne hu _ _)
        (fun u hu => Function.update_of_ne hu _ _)⟩
      rintro (hs | ⟨-, hs⟩)
      · change Function.update s.state t .blocked t = .sleeping at hs
        rw [Function.update_self] at hs
        cases hs
      · change Function.update s.sleepUntil t (deadline _ timeoutMs) t ≠ 0 at hs
        rw [Function.update_self, deadline, if_pos hms] at hs
        exact hs rfl
    · rw [if_neg hms]
      refine timersOk_insert h (hc hms t hcur).1 (hc hms t hcur).2 ⟨rfl, rfl, rfl⟩ rfl rfl
        (fun u hu => ⟨Function.update_of_ne hu _ _, Function.update_of_ne hu _ _⟩) ?_ ⟨hms, hcur⟩ ?_
      · change Function.update s.sleepUntil t (deadline _ timeoutMs) t = _
        rw [Function.update_self, deadline, if_neg hms]
      · rintro u d ⟨-, hu, hd⟩
        rw [hcur] at hu
        exact ⟨(Option.some.inj hu).symm, hd⟩

theorem timers_wakeSleeping (h : Timers s none W) (hlive : s.Live t) (hs : s.state t = .sleeping) :
    Timers (wakeTask t (timerWheelRemove t s)) none (fun b => (W b).erase t) := by
  have hm := h.timed t hlive (by simp) (Or.inl hs)
  exact (h.remove (Or.inl rfl) hlive (not_dropsBucket h.toWheel (Nat.mod_lt _ (by decide)) hm)).wakeTask

theorem timersOk_wake {tid : Nat} (h : Timers s none W) :
    ∃ W', TimersOk (.call (.wake tid)) s W (taskWake tid s) W' := by
  unfold taskWake
  cases hf : taskFind s tid with
  | none => exact ⟨W, timersOk_kept h (WheelKept.refl s) (fun _ _ hd => hd)⟩
  | some t =>
    simp only
    split
    · exact ⟨_, timersOk_erase (timers_wakeSleeping h (live_taskFind hf) ‹_›) hf (fun _ _ hd => hd)⟩
    · exact ⟨W, timersOk_kept h (WheelKept.refl s) (fun _ _ hd => hd)⟩

theorem timersOk_wakeOne {q : QueuePtr} (h : Timers s none W)
    (hq : ∀ t, s.waitHead q = some t → s.Live t ∧ ¬s.DropsBucket t) :
    ∃ W', TimersOk (.call (.wakeOne q)) s W (taskWakeOne q s) W' := by
  unfold taskWakeOne
  cases hw : s.waitHead q with
  | none => exact ⟨W, timersOk_kept h (WheelKept.refl s) (fun _ _ hd => hd)⟩
  | some t =>
    have hk := kept_taskQueueRemove q t s
    have h1 := (h.kept hk).remove (t := t) (Or.inl rfl) ((live_congr hk.taskTable).2 (hq t hw).1)
      (fun hd => (hq t hw).2 ((dropsBucket_kept hk).1 hd))
    exact ⟨_, timersOk_erase (h1.kept (kept_setWakeReason t _ _)).wakeTask hw (fun _ _ hd => hd)⟩

theorem timers_wakeSlot {i : Nat} (hi : i < taskMaxTasks) (h : Timers s none W) : ∃ W', Timers (wakeSlot s i) none W' ∧
    (∀ b, ∀ u ∈ W b, u ∈ W' b ∨ s.state u = .sleeping) ∧
    ∀ u, (wakeSlot s i).state u = .sleeping → s.state u = .sleeping := by
  unfold wakeSlot
  cases ht : s.taskTable i with
  | none => exact ⟨W, h, fun _ _ hu => Or.inl hu, fun _ hu => hu⟩
  | some t =>
    simp only
    split
    · rename_i hs
      refine ⟨_, timers_wakeSleeping h ⟨i, hi, ht⟩ hs, fun b u hu => ?_, fun u hu => ?_⟩
      · by_cases hut : u = t
        · exact Or.inr (hut ▸ hs)
        · exact Or.inl ((List.mem_erase_of_ne hut).2 hu)
      · change Function.update (timerWheelRemove t s).state t .ready u = .sleeping at hu
        by_cases hut : u = t
        · rw [hut]
          exact hs
        · rw [Function.update_of_ne hut, timerWheelRemove_state] at hu
          exact hu
    · exact ⟨W, h, fun _ _ hu => Or.inl hu, fun _ hu => hu⟩

theorem timers_wakeSlots : ∀ {l : List Nat} {s : Tasks} {W : Nat → List Ptr}, (∀ i ∈ l, i < taskMaxTasks) →
    Timers s none W → ∃ W', Timers (l.foldl wakeSlot s) none W' ∧
      ∀ b, ∀ u ∈ W b, u ∈ W' b ∨ s.state u = .sleeping
  | [], s, W, _, h => ⟨W, h, fun _ _ hu => Or.inl hu⟩
  | i :: l, s, W, hl, h => by
    obtain ⟨W1, h1, hstay, hst⟩ := timers_wakeSlot (hl i (by simp)) h
    obtain ⟨W2, h2, hstay2⟩ := timers_wakeSlots (l := l) (fun j hj => hl j (by simp [hj])) h1
    refine ⟨W2, h2, fun b u hu => ?_⟩
    rcases hstay b u hu with hu1 | hu1
    · exact (hstay2 b u hu1).imp_right (hst u)
    · exact Or.inr hu1

theorem timersOk_wakeAll (h : Timers s none W) : ∃ W', TimersOk .wakeAll s W (taskWakeAll s) W' := by
  obtain ⟨W', h', hstay⟩ := timers_wakeSlots (fun i hi => List.mem_range.1 hi) h
  exact ⟨W', h', fun b _ u hu => hstay b u hu, fun _ _ hd => hd.elim⟩

/-! ## Ticks -/

theorem fireTimer_fields (t : Ptr) (s : Tasks) : (fireTimer t s).tickCount = s.tickCount ∧
    ∀ u, u ≠ t → (fireTimer t s).sleepUntil u = s.sleepUntil u := by
  have hwake : ∀ s' : Tasks, s'.tickCount = s.tickCount → s'.sleepUntil = s.sleepUntil →
      (wakeTask t s').tickCount = s.tickCount ∧ ∀ u, u ≠ t → (wakeTask t s').sleepUntil u = s.sleepUntil u := by
    intro s' htick hsl
    refine ⟨htick, fun u hu => ?_⟩
    rw [← hsl]
    exact Function.update_of_ne hu _ _
  have htick := timerWheelRemove_tickCount t s
  have hsl := timerWheelRemove_sleepUntil t s
  unfold fireTimer
  simp only
  split
  · exact hwake _ htick hsl
  · refine hwake _ ((kept_leaveQueue t _).tickCount.trans htick) (Eq.trans ?_ hsl)
    unfold setWakeReason leaveQueue
    split
    · rfl
    · unfold taskQueueRemove
      split <;> rfl
  · exact ⟨htick, fun u _ => by rw [hsl]⟩

theorem timers_fireTimer (h : Timers s none W) (hb : b < timerWheelSize) (ht : t ∈ W b) :
    Timers (fireTimer t s) none (fun b => (W b).erase t) := by
  have h1 := h.remove (Or.inl rfl) (h.bucket b hb t ht).1 (not_dropsBucket h.toWheel hb ht)
  unfold fireTimer
  simp only
  split
  · exact h1.wakeTask
  · exact ((h1.kept (kept_leaveQueue t _)).kept (kept_setWakeReason t _ _)).wakeTask
  · exact h1.done (not_timed_of_state ‹_› ‹_›)

theorem wheelLoop_spec (hb : b < timerWheelSize) : ∀ (n : Nat) (kept rest : List Ptr) (s : Tasks) (W : Nat → List Ptr),
    Timers s none W → W b = kept ++ rest → rest.length ≤ n → (wheelLoop n rest.head? s).1 = none ∧
      ∃ W', Timers (wheelLoop n rest.head? s).2 none W' ∧
        ∀ c < timerWheelSize, ∀ u ∈ W c, u ∈ W' c ∨ c = b ∧ s.sleepUntil u ≤ s.tickCount
  | n, kept, [], s, W, h, _, _ => by
    have hw : wheelLoop n none s = (none, s) := by cases n <;> rfl
    rw [List.head?_nil, hw]
    exact ⟨rfl, W, h, fun _ _ _ hu => Or.inl hu⟩
  | 0, kept, t :: rest, s, W, _, _, hn => absurd hn (by simp)
  | n + 1, kept, t :: rest, s, W, h, hW, hn => by
    have hn : rest.length ≤ n := by simpa using hn
    have ht : t ∈ W b := by rw [hW]; simp
    have hnext : s.timer.next t = rest.head? := by
      have := (h.seg b hb)
      rw [hW] at this
      rw [this.links.2, Option.or_none]
    rw [List.head?_cons, wheelLoop, hnext]
    by_cases hexp : s.sleepUntil t ≤ s.tickCount
    · rw [if_pos hexp]
      have htk : t ∉ kept := fun hm => by
        have hnd := h.nodup b hb
        rw [hW, List.nodup_append] at hnd
        exact hnd.2.2 t hm t (by simp) rfl
      have hW1 : (W b).erase t = kept ++ rest := by
        rw [hW, List.erase_append_right _ htk, List.erase_cons_head]
      obtain ⟨hend, W', h', hstay⟩ := wheelLoop_spec hb n kept rest _ _ (timers_fireTimer h hb ht) hW1 hn
      refine ⟨hend, W', h', fun c hc u hu => ?_⟩
      by_cases hut : u = t
      · subst hut
        refine Or.inr ⟨?_, hexp⟩
        rw [← (h.bucket b hb u ht).2, (h.bucket c hc u hu).2]
      · have hf := fireTimer_fields t s
        have := hstay c hc u ((List.mem_erase_of_ne hut).2 hu)
        rw [hf.1, hf.2 u hut] at this
        exact this
    · rw [if_neg hexp]
      exact wheelLoop_spec hb n (kept ++ [t]) rest s W h (by rw [hW]; simp) hn

theorem length_le_taskMaxTasks (h : Wheel s W) (hb : b < timerWheelSize) : (W b).length ≤ taskMaxTasks := by
  have hsub : W b ⊆ (List.range taskMaxTasks).filterMap s.taskTable := fun t ht => by
    obtain ⟨i, hi, hti⟩ := (h.bucket b hb t ht).1
    exact List.mem_filterMap.2 ⟨i, List.mem_range.2 hi, hti⟩
  have hlen := (List.subperm_of_subset (h.nodup b hb) hsub).length_le
  exact hlen.trans ((List.length_filterMap_le _ _).trans (by rw [List.length_range]))

theorem kept_useQuantum (t : Ptr) (s : Tasks) : WheelKept s (useQuantum t s) := by
  unfold useQuantum
  simp only
  split
  · refine WheelKept.trans ?_ (kept_schedule _)
    exact ⟨rfl, rfl, rfl, rfl, rfl, fun _ h => ⟨h, rfl⟩⟩
  · exact ⟨rfl, rfl, rfl, rfl, rfl, fun _ h => ⟨h, rfl⟩⟩

def tickWalk (s : Tasks) : Option Ptr × Tasks :=
  schedulerTimerWheelTick { s with tickCount := addU32 s.tickCount 1 }

theorem timerCallback_walk (s : Tasks) : ((tickWalk s).2.currentTask = none ∧ timerCallback s = (tickWalk s).2) ∨
    ∃ task, (tickWalk s).2.currentTask = some task ∧ timerCallback s = useQuantum task (tickWalk s).2 := by
  have htick : timerCallback s = schedulerTick { s with tickCount := addU32 s.tickCount 1 } := rfl
  rw [htick]
  unfold schedulerTick
  rw [show schedulerTimerWheelTick { s with tickCount := addU32 s.tickCount 1 } = tickWalk s from rfl]
  cases h : (tickWalk s).2.currentTask with
  | none => exact .inl ⟨rfl, by simp only [h]⟩
  | some task => exact .inr ⟨task, rfl, by simp only [h]⟩

theorem tickWalk_spec (h : Timers s none W) : (tickWalk s).1 = none ∧ ∃ W', Timers (tickWalk s).2 none W' ∧
    ∀ b < timerWheelSize, ∀ u ∈ W b, u ∈ W' b ∨ TimerCall.tick.Touches s u := by
  have hb : addU32 s.tickCount 1 % timerWheelSize < timerWheelSize := Nat.mod_lt _ (by decide)
  have h1 : Timers { s with tickCount := addU32 s.tickCount 1 } none W :=
    ⟨h.toWheel.congr rfl rfl rfl rfl, h.timed, h.slot⟩
  obtain ⟨hend, W', h', hstay⟩ := wheelLoop_spec hb taskMaxTasks [] _ _ W h1 rfl (length_le_taskMaxTasks h.toWheel hb)
  have hw : tickWalk s = wheelLoop taskMaxTasks (W (addU32 s.tickCount 1 % timerWheelSize)).head?
      { s with tickCount := addU32 s.tickCount 1 } := by
    unfold tickWalk schedulerTimerWheelTick
    rw [← h.head _ hb]
  rw [hw]
  refine ⟨hend, W', h', fun b hlt u hu => (hstay b hlt u hu).imp_right ?_⟩
  rintro ⟨rfl, hexp⟩
  exact ⟨(h.bucket _ hlt u hu).2, hexp⟩

theorem timersOk_tick (h : Timers s none W) : ∃ W', TimersOk .tick s W (timerCallback s) W' := by
  obtain ⟨-, W', h', hstay⟩ := tickWalk_spec h
  have hk : WheelKept (tickWalk s).2 (timerCallback s) := by
    rcases timerCallback_walk s with ⟨-, he⟩ | ⟨task, -, he⟩
    · rw [he]
      exact WheelKept.refl _
    · rw [he]
      exact kept_useQuantum _ _
  exact ⟨W', h'.kept hk, hstay, fun _ _ hd => hd.elim⟩

/-! ## Runs -/

theorem timersOk_run (h : Timers s none W) (hv : c.Valid s) (hk : c.KeepsBuckets s) :
    ∃ W', TimersOk c s W (c.run s) W' := by
  cases c with
  | wakeAll => exact timersOk_wakeAll h
  | tick => exact timersOk_tick h
  | call c =>
    cases c with
    | init idle idleStack reaper reaperStack => exact ⟨W, timersOk_init h hv.1 hv.2⟩
    | create memory stack priority =>
      exact ⟨W, timers_create h hv stack priority, fun _ _ _ hu => Or.inl hu, fun _ _ hd => hd.elim⟩
    | add t => exact ⟨W, timersOk_kept h (kept_schedulerAdd t s) (fun _ _ hd => hd)⟩
    | remove t => exact ⟨W, timersOk_kept h (kept_schedulerRemove t s) (fun _ _ hd => hd)⟩
    | schedule => exact ⟨W, timersOk_kept h (kept_schedule s) (fun _ _ hd => hd)⟩
    | boost t newPrio => exact ⟨W, timersOk_kept h (kept_boost t newPrio s) (fun _ _ hd => hd)⟩
    | unboost t => exact ⟨W, timersOk_kept h (kept_unboost t s) (fun _ _ hd => hd)⟩
    | sleep ms => exact timersOk_sleep h hk
    | wake tid => exact timersOk_wake h
    | blockOn q timeoutMs => exact timersOk_blockOn h hk
    | wakeOne q => exact timersOk_wakeOne h hk
    | destroy t => exact ⟨_, timersOk_destroy h hv hk⟩

def timerStep (s : Tasks) (c : TimerCall) : TimerCall × Tasks := (c, c.run s)

theorem timers_bootTasks (memory : Tasks) : Timers (bootTasks memory) none (fun _ => []) := by
  have hno : ∀ t, ¬(bootTasks memory).Live t := by
    rintro t ⟨i, -, hi⟩
    cases hi
  exact ⟨⟨fun _ _ => trivial, fun _ _ => List.nodup_nil, fun _ _ => rfl, fun _ _ _ ht => absurd ht (by simp),
    fun t hl => absurd hl (hno t)⟩, fun t hl => absurd hl (hno t), fun i hi j _ t ht => absurd ⟨i, hi, ht⟩ (hno t)⟩

/-- What a call does to the timers, as the links of the wheel show it. -/
structure TimerStepOk (c : TimerCall) (s s' : Tasks) : Prop where
  stay : ∀ b < timerWheelSize, ∀ u, s.Linked b u → s'.Linked b u ∨ c.Touches s u
  starts : ∀ t d, c.Starts s t d → s'.Linked (d % timerWheelSize) t
  walk : c = .tick → (tickWalk s).1 = none

/-- **No timer is lost.** In every run from the empty scheduler whose calls are valid and keep the buckets, every task
that is asleep or blocked with a timeout is linked in the bucket of its deadline, a call takes no task off the wheel but
the one it is on, or one whose deadline is reached, and a new timer is linked in its bucket. -/
theorem no_timer_lost (memory : Tasks) (cs : List TimerCall)
    (hA : Allowed timerStep (fun _ s c => c.Valid s ∧ c.KeepsBuckets s) (bootTasks memory) cs) :
    (∀ t, (run timerStep (bootTasks memory) cs).2.Live t → (run timerStep (bootTasks memory) cs).2.Timed t →
      (run timerStep (bootTasks memory) cs).2.Linked
        ((run timerStep (bootTasks memory) cs).2.sleepUntil t % timerWheelSize) t) ∧
    ∀ before c after, cs = before ++ c :: after → TimerStepOk c (run timerStep (bootTasks memory) before).2
      (run timerStep (bootTasks memory) (before ++ [c])).2 := by
  have hkept : ∀ ds, Allowed timerStep (fun _ s c => c.Valid s ∧ c.KeepsBuckets s) (bootTasks memory) ds →
      ∃ W, Timers (run timerStep (bootTasks memory) ds).2 none W := fun ds hds =>
    run_keeps (I := fun _ s => ∃ W, Timers s none W)
      (fun _ s c ⟨W, h⟩ ⟨hv, hk⟩ => by
        obtain ⟨W', h'⟩ := timersOk_run h hv hk
        exact ⟨W', h'.timers⟩)
      ⟨_, timers_bootTasks memory⟩ ds hds
  have hmod : ∀ x, x % timerWheelSize < timerWheelSize := fun x => Nat.mod_lt _ (by decide)
  refine ⟨fun t hl ht => ?_, ?_⟩
  · obtain ⟨W, h⟩ := hkept cs hA
    exact (linked_iff h.toWheel (hmod _)).2 (h.timed t hl (by simp) ht)
  · rintro before c after rfl
    obtain ⟨W, h⟩ := hkept before hA.left
    obtain ⟨hv, hk⟩ := hA.last
    obtain ⟨W', h'⟩ := timersOk_run h hv hk
    rw [run_concat]
    refine ⟨fun b hb u hu => ?_, fun t d hd => ?_, ?_⟩
    · exact (h'.stay b hb u ((linked_iff h.toWheel hb).1 hu)).imp_left (linked_iff h'.timers.toWheel hb).2
    · exact (linked_iff h'.timers.toWheel (hmod _)).2 (h'.starts t d hd)
    · rintro rfl
      exact (tickWalk_spec h).1

def sleepAndWake : List TimerCall := [.call (.create (some 1) true 8), .call .schedule, .call (.sleep 10), .tick]

theorem no_timer_lost_woken : (∀ t, (run timerStep (bootTasks zeroTasks) sleepAndWake).2.Live t →
      (run timerStep (bootTasks zeroTasks) sleepAndWake).2.Timed t →
      (run timerStep (bootTasks zeroTasks) sleepAndWake).2.Linked
        ((run timerStep (bootTasks zeroTasks) sleepAndWake).2.sleepUntil t % timerWheelSize) t) ∧
    ∀ before c after, sleepAndWake = before ++ c :: after → TimerStepOk c (run timerStep (bootTasks zeroTasks) before).2
      (run timerStep (bootTasks zeroTasks) (before ++ [c])).2 :=
  no_timer_lost zeroTasks sleepAndWake <| by
    refine allowed_cons.2 ⟨⟨fresh_some (by decide +kernel), trivial⟩, allowed_cons.2 ⟨⟨trivial, trivial⟩,
      allowed_cons.2 ⟨⟨trivial, fun t ht => ?_⟩, allowed_cons.2 ⟨⟨trivial, trivial⟩, allowed_nil _⟩⟩⟩⟩
    have hcur : some 1 = some t := Eq.trans (by decide) ht
    injection hcur with hcur
    subst hcur
    exact ⟨(by decide +kernel : Tasks.Live _ 1), (by decide +kernel : ¬Tasks.DropsBucket _ 1)⟩

/-- A task sleeps for 2560 ms, in bucket 0, and a new task that has never slept is destroyed. -/
def destroyedFresh : List TimerCall := [.call (.create (some 1) true 8), .call .schedule, .call (.sleep 2560),
  .call (.create (some 2) true 8), .call (.destroy 2)]

/-- **The sleeping task is on no bucket**: destroying a task that has never slept has cleared bucket 0. -/
theorem not_no_timer_lost : ¬∀ (memory : Tasks) (cs : List TimerCall),
    Allowed timerStep (fun _ s c => c.Valid s) (bootTasks memory) cs →
    ∀ t, (run timerStep (bootTasks memory) cs).2.Live t → (run timerStep (bootTasks memory) cs).2.Timed t →
      (run timerStep (bootTasks memory) cs).2.Linked
        ((run timerStep (bootTasks memory) cs).2.sleepUntil t % timerWheelSize) t := by
  intro hall
  have hA : Allowed timerStep (fun _ s c => c.Valid s) (bootTasks zeroTasks) destroyedFresh :=
    allowed_cons.2 ⟨fresh_some (by decide +kernel), allowed_cons.2 ⟨trivial, allowed_cons.2 ⟨trivial,
      allowed_cons.2 ⟨fresh_some (by decide +kernel), allowed_cons.2 ⟨(by decide +kernel : Tasks.Live _ 2),
        allowed_nil _⟩⟩⟩⟩⟩
  have hl := hall zeroTasks destroyedFresh hA 1 (by decide +kernel) (Or.inl (by decide +kernel))
  have hnone : (run timerStep (bootTasks zeroTasks) destroyedFresh).2.timerWheel
      ((run timerStep (bootTasks zeroTasks) destroyedFresh).2.sleepUntil 1 % timerWheelSize) = none := by
    decide
  unfold Tasks.Linked at hl
  rw [hnone] at hl
  cases hl

end

end Sched
end AmitX
