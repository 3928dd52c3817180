import AmitX.Irq.Pic
/-!
# PicRun — interrupts that are left in service

`isr_handler` acknowledges an interrupt behind its handlers, and the handler of the timer may switch to a task that was
never interrupted.  That task then runs with the timer in service, which lets no other interrupt through.
-/
namespace AmitX
namespace Irq

open Sched Run

/-- **No interrupt is in service** while a task runs outside `isr_handler`. -/
def Acknowledged (s : Cpu) : Prop :=
  ∀ t, s.tasks.currentTask = some t → ∀ irq < 16, s.pic.inService irq = false

/-- A tick of the timer does not use up the quantum, or there is no other task to switch to. -/
def CpuStep.KeepsTask (s : Cpu) : CpuStep → Prop
  | .timer => ∀ s', (SchedCall.timer .tick).givesWay s.tasks = some s' → ∀ n, (schedulerNext s').1 = some n →
      s'.currentTask = some n
  | _ => True

/-- No interrupt is in service, and no task was switched away in `isr_handler`. -/
structure Settled (s : Cpu) : Prop where
  pic : s.pic = ⟨0, 0⟩
  context : ∀ t, (s.context t).irq = none

section

variable {s : Cpu} {t : Ptr} {irq : Nat}

/-! ## Controllers -/

theorem picEoi_take (hirq : irq < 16) {spurious : Bool} (hs : spurious = true → irq = 7 ∨ irq = 15) :
    picEoi irq (Pic.take irq spurious ⟨0, 0⟩) = ⟨0, 0⟩ := by
  revert irq spurious
  decide

/-! ## Ticks -/

theorem fireTimer_current (t : Ptr) (s : Tasks) : (fireTimer t s).currentTask = s.currentTask := by
  have hr := (same_timerWheelRemove t s).currentTask
  unfold fireTimer
  simp only
  split
  · exact hr
  · exact ((same_setWakeReason t .timeout _).currentTask.trans (same_leaveQueue t _).currentTask).trans hr
  · exact hr

theorem wheelLoop_current : ∀ (n : Nat) (o : Option Ptr) (s : Tasks),
    (wheelLoop n o s).2.currentTask = s.currentTask
  | _, none, _ => by rw [wheelLoop]
  | 0, some _, _ => by rw [wheelLoop]
  | n + 1, some t, s => by
    rw [wheelLoop, wheelLoop_current n]
    split
    · exact fireTimer_current t s
    · rfl

theorem tickWalk_current (s : Tasks) : (tickWalk s).2.currentTask = s.currentTask := wheelLoop_current _ _ _

theorem schedule_currentTask (s : Tasks) :
    (schedule s).currentTask = ((schedulerNext s).1).or s.currentTask := by
  unfold schedule
  cases hn : (schedulerNext s).1 with
  | none => rfl
  | some n =>
    simp only
    split
    · rename_i hc
      exact hc
    · rfl

theorem renewQuantum_current (s : Tasks) : (renewQuantum s).currentTask = s.currentTask := by
  unfold renewQuantum
  split <;> rfl

theorem timerCallback_cases (s : Tasks) : (timerCallback s).currentTask = s.currentTask ∧
      (∀ s', (SchedCall.timer .tick).givesWay s = some s' → ∀ n, (schedulerNext s').1 = some n → s'.currentTask = some n) ∨
    ∃ s' n, (SchedCall.timer .tick).givesWay s = some s' ∧ (schedulerNext s').1 = some n ∧ s'.currentTask ≠ some n ∧
      (timerCallback s).currentTask = some n ∧ s.currentTask ≠ some n := by
  cases hw : (SchedCall.timer .tick).givesWay s with
  | none =>
    refine Or.inl ⟨?_, fun s' he => by cases he⟩
    rw [← tickWalk_current s]
    unfold SchedCall.givesWay at hw
    rcases timerCallback_walk s with ⟨hc, he⟩ | ⟨t, hc, he⟩
    · rw [he]
    · rw [he]
      simp only [hc] at hw
      unfold useQuantum
      simp only
      split
      · rename_i hq
        rw [if_pos hq] at hw
        cases hw
      · rfl
  | some s' =>
    have hcur : s'.currentTask = s.currentTask := by
      rw [← tickWalk_current s]
      unfold SchedCall.givesWay at hw
      cases hc : (tickWalk s).2.currentTask with
      | none =>
        simp only [hc] at hw
        cases hw
      | some t =>
        simp only [hc] at hw
        split at hw
        · rw [← Option.some.inj hw, renewQuantum_current]
          exact hc
        · cases hw
    have hrun : timerCallback s = schedule s' := run_givesWay hw
    rw [hrun, schedule_currentTask]
    cases hn : (schedulerNext s').1 with
    | none => exact Or.inl ⟨hcur, fun s'' he n hn' => by rw [← Option.some.inj he, hn] at hn'; cases hn'⟩
    | some n =>
      by_cases hc : s'.currentTask = some n
      · refine Or.inl ⟨hc.symm.trans hcur, fun s'' he m hm => ?_⟩
        rw [← Option.some.inj he, hn] at hm
        rw [← Option.some.inj he, ← Option.some.inj hm]
        exact hc
      · exact Or.inr ⟨s', n, rfl, hn, hc, rfl, by rw [← hcur]; exact hc⟩

/-! ## Steps -/

theorem Settled.acknowledged (h : Settled s) : Acknowledged s := by
  intro t _ irq _
  rw [h.pic]
  unfold Pic.inService
  split <;> exact BitVec.getLsbD_zero

theorem Settled.callTasks (h : Settled s) (c : SchedCall) : Settled (callTasks s c) := by
  refine ⟨h.pic, fun t => ?_⟩
  change (if t ∈ newTasks s.tasks c then Context.fresh else s.context t).irq = none
  split
  · rfl
  · exact h.context t

theorem contextSwitch_eq (h : (s.context t).irq = none) (old : Option Ptr) (c : Context) : contextSwitch old c t s =
    { s with context := saveContext old c s.context, enabled := (s.context t).enabled } := by
  unfold contextSwitch goOn
  rw [h]

theorem saveContext_irq {context : Ptr → Context} {c : Context} (hc : c.irq = none) (h : ∀ t, (context t).irq = none)
    (old : Option Ptr) (t : Ptr) : (saveContext old c context t).irq = none := by
  cases old with
  | none => exact h t
  | some o =>
    change (Function.update context o c t).irq = none
    by_cases hto : t = o
    · rw [hto, Function.update_self]
      exact hc
    · rw [Function.update_of_ne hto]
      exact h t

theorem Settled.taskCall (h : Settled s) (c : SchedCall) : Settled (taskCall c s) := by
  have h1 := h.callTasks c
  unfold Irq.taskCall
  split
  · exact h1
  · rename_i n _
    rw [contextSwitch_eq (h1.context n)]
    exact ⟨h1.pic, saveContext_irq rfl h1.context _⟩

theorem foldl_callTasks (calls : List SchedCall) (s : Cpu) : (calls.foldl callTasks s).pic = s.pic ∧
    ((∀ t, (s.context t).irq = none) → ∀ t, ((calls.foldl callTasks s).context t).irq = none) := by
  induction calls generalizing s with
  | nil => exact ⟨rfl, id⟩
  | cons c cs ih =>
    obtain ⟨hp, hc⟩ := ih (callTasks s c)
    refine ⟨hp, fun h => hc (fun t => ?_)⟩
    change (if t ∈ newTasks s.tasks c then Context.fresh else s.context t).irq = none
    split
    · rfl
    · exact h t

theorem Settled.deviceInterrupt (h : Settled s) {spurious : Bool} (hirq : irq < 16)
    (hs : spurious = true → irq = 7 ∨ irq = 15) (calls : List SchedCall) :
    Settled (deviceInterrupt irq spurious calls s) := by
  obtain ⟨hp, hc⟩ := foldl_callTasks calls { s with pic := s.pic.take irq spurious }
  have hc := hc h.context
  unfold Irq.deviceInterrupt
  generalize calls.foldl Irq.callTasks { s with pic := s.pic.take irq spurious } = s' at hp hc
  refine ⟨?_, hc⟩
  change picEoi irq s'.pic = _
  rw [hp]
  change picEoi irq (s.pic.take irq spurious) = _
  rw [h.pic]
  exact picEoi_take hirq hs

theorem timerInterrupt_iff (h : Settled s) : (Acknowledged (timerInterrupt s) ↔ CpuStep.timer.KeepsTask s) ∧
    (CpuStep.timer.KeepsTask s → Settled (timerInterrupt s)) := by
  have hpic : s.pic.take 0 false = ⟨1, 0⟩ := by
    rw [h.pic]
    rfl
  rcases timerCallback_cases s.tasks with ⟨hcur, hk⟩ | ⟨s', n, hw, hn, hne, hcur, hold⟩
  · have hs : Settled (timerInterrupt s) := by
      unfold timerInterrupt switched
      simp only [hcur, if_true, hpic]
      exact ⟨rfl, h.context⟩
    exact ⟨iff_of_true hs.acknowledged hk, fun _ => hs⟩
  · have hno : ¬CpuStep.timer.KeepsTask s := fun hk => hne (hk s' hw n hn)
    refine ⟨iff_of_false (fun hack => ?_) hno, fun hk => absurd hk hno⟩
    have hsw : switched s.tasks (timerCallback s.tasks) = some n := by
      unfold switched
      rw [hcur, if_neg (fun he => hold he.symm)]
    have hrun : timerInterrupt s = contextSwitch s.tasks.currentTask ⟨some 0, false⟩ n
        { s with tasks := timerCallback s.tasks, pic := s.pic.take 0 false } := by
      unfold timerInterrupt
      simp only [hsw]
    have heq := contextSwitch_eq (s := { s with tasks := timerCallback s.tasks, pic := s.pic.take 0 false }) (h.context n)
      s.tasks.currentTask ⟨some 0, false⟩
    rw [hrun, heq] at hack
    have h0 := hack n hcur 0 (by decide)
    change (s.pic.take 0 false).inService 0 = false at h0
    rw [hpic] at h0
    exact absurd h0 (by decide)

theorem settled_step (h : Settled s) {c : CpuStep} (hv : c.Valid s) : (Acknowledged (c.run s) ↔ c.KeepsTask s) ∧
    (c.KeepsTask s → Settled (c.run s)) := by
  have hquiet : ∀ {s' : Cpu} {P : Prop}, P → Settled s' → (Acknowledged s' ↔ P) ∧ (P → Settled s') := fun hP hs =>
    ⟨iff_of_true hs.acknowledged hP, fun _ => hs⟩
  cases c with
  | call c => exact hquiet trivial (h.taskCall c)
  | timer => exact timerInterrupt_iff h
  | device irq spurious calls =>
    obtain ⟨-, -, -, hirq, -, hs, -⟩ := hv
    exact hquiet trivial (h.deviceInterrupt hirq hs calls)
  | setEnabled enabled => exact hquiet trivial ⟨h.pic, h.context⟩

/-! ## Runs -/

theorem settled_boot (memory : Tasks) : Settled (bootCpu memory) := ⟨rfl, fun _ => rfl⟩

def twoTasks : List CpuStep := [.call (.timer (.call (.create (some 1) true 8))),
  .call (.timer (.call (.create (some 2) true 8))), .setEnabled true, .call (.timer (.call .schedule))]

def ticks (n : Nat) : List CpuStep := twoTasks ++ List.replicate n .timer

theorem allowed_ticks : Allowed cpuStep (fun _ s c => c.Valid s) (bootCpu zeroTasks) (ticks 4) := by
  refine allowed_cons.2 ⟨⟨fresh_some (by decide +kernel), by simp⟩, ?_⟩
  refine allowed_cons.2 ⟨⟨fresh_some (by decide +kernel), by simp⟩, allowed_cons.2 ⟨trivial, ?_⟩⟩
  refine allowed_cons.2 ⟨⟨trivial, by simp⟩, ?_⟩
  refine allowed_cons.2 ⟨⟨by decide, (by decide : Pic.Accepts _ 0)⟩, ?_⟩
  refine allowed_cons.2 ⟨⟨by decide, (by decide : Pic.Accepts _ 0)⟩, ?_⟩
  refine allowed_cons.2 ⟨⟨by decide, (by decide : Pic.Accepts _ 0)⟩, ?_⟩
  exact allowed_cons.2 ⟨⟨by decide, (by decide : Pic.Accepts _ 0)⟩, allowed_nil _⟩

theorem keepsTask_of_quantum (hc : (tickWalk s.tasks).2.currentTask = some t)
    (hq : (tickWalk s.tasks).2.quantum t - 1 ≠ 0) : CpuStep.timer.KeepsTask s := by
  intro s' hw
  unfold SchedCall.givesWay at hw
  simp only [hc] at hw
  rw [if_neg hq] at hw
  cases hw

end

end Irq
end AmitX
