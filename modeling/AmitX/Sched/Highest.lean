import AmitX.Sched.CallsRun
/-!
# Highest — which task runs after the running one gives way

`schedule` looks for the next task before the running one is back in its queue, so that a task that gives way is not
compared with the tasks that wait: it loses the processor to any of them.
-/
namespace AmitX
namespace Sched

open Links Run

/-- Of the task that was running and all queued ones, none has a higher priority than the task that has the processor. -/
def HighestRuns (s s' : Tasks) : Prop :=
  ∀ u, s'.currentTask = some u → (∀ t, s.currentTask = some t → s.curPrio t ≤ s.curPrio u) ∧
    ∀ v, s.Queued v → s.curPrio v ≤ s.curPrio u

/-- The state in which `task_yield`, or `scheduler_tick` when the quantum is used up, calls `schedule`. -/
def SchedCall.givesWay (s : Tasks) : SchedCall → Option Tasks
  | .yield => some (renewQuantum s)
  | .timer .tick =>
    match (tickWalk s).2.currentTask with
    | none => none
    | some task => if (tickWalk s).2.quantum task - 1 = 0 then some (renewQuantum (tickWalk s).2) else none
  | _ => none

def Tasks.Outranked (s : Tasks) (t : Ptr) : Prop := (∃ v, s.Queued v) → ∃ v, s.Queued v ∧ s.curPrio t ≤ s.curPrio v

section

variable {s s' : Tasks} {Q : Nat → List Ptr} {t u : Ptr} {c : SchedCall}

theorem queued_iff (h : Queues s Q) : s.Queued t ↔ ∃ p < 32, t ∈ Q p := by
  unfold Tasks.Queued
  refine exists_congr fun p => and_congr_right fun hp => ?_
  rw [h.head p hp, reach_iff (h.seg p hp)]

theorem sound_givesWay (h : Sound s) (hw : c.givesWay s = some s') : Sound s' := by
  unfold SchedCall.givesWay at hw
  split at hw
  · rw [← Option.some.inj hw]
    exact renewQuantum_sound h
  · split at hw
    · cases hw
    · split at hw
      · rw [← Option.some.inj hw]
        exact renewQuantum_sound h.tickWalk
      · cases hw
  · cases hw

theorem run_givesWay (hw : c.givesWay s = some s') : c.run s = schedule s' := by
  unfold SchedCall.givesWay at hw
  split at hw
  · rw [← Option.some.inj hw]
    rfl
  · change (match (tickWalk s).2.currentTask with
      | none => (tickWalk s).2
      | some task => useQuantum task (tickWalk s).2) = _
    split at hw
    · cases hw
    · rename_i task hcur
      split at hw
      · rename_i hq
        rw [← Option.some.inj hw]
        unfold useQuantum renewQuantum
        simp only [hcur, hq, if_true]
      · cases hw
  · cases hw

/-- **The running task gives way**: the highest of the runnable tasks gets or keeps the processor if and only if it is
not higher than every queued task, or alone. -/
theorem schedule_highest_iff (h : Sound s) (hcur : s.currentTask = some t) (hrun : s.state t = .running) :
    HighestRuns s (schedule s) ↔ s.Outranked t := by
  obtain ⟨Q, hQ, hT⟩ := h.ready
  unfold HighestRuns Tasks.Outranked
  rcases schedule_cases hQ with ⟨hs, hnil | ⟨p, hp, u, hhead, hu, -⟩⟩ | ⟨p, hp, n, hhead, -, hmax, hs⟩
  · have hno : ∀ v, ¬s.Queued v := fun v hv => by
      obtain ⟨p, hp, hm⟩ := (queued_iff hQ.toQueues).1 hv
      rw [hnil p hp] at hm
      simp at hm
    rw [hs, hcur]
    refine ⟨fun _ ⟨v, hv⟩ => absurd hv (hno v), fun _ u hu => ⟨fun t' ht' => ?_, fun v hv => absurd hv (hno v)⟩⟩
    rw [← Option.some.inj hu, ← Option.some.inj ht']
  · have hready := ((hQ.mem p hp u).1 (List.mem_of_mem_head? hhead)).2.1
    rw [hcur] at hu
    rw [← Option.some.inj hu, hrun] at hready
    cases hready
  · have hm := List.mem_of_mem_head? hhead
    have hn : s.Queued n := (queued_iff hQ.toQueues).2 ⟨p, hp, hm⟩
    have hprio := ((hQ.mem p hp n).1 hm).2.2
    have hle : ∀ v, s.Queued v → s.curPrio v ≤ s.curPrio n := fun v hv => by
      obtain ⟨q, hq, hv⟩ := (queued_iff hQ.toQueues).1 hv
      rw [hprio, ((hQ.mem q hq v).1 hv).2.2]
      exact hmax q hq (List.ne_nil_of_mem hv)
    rw [hs, hcur]
    constructor
    · intro hall _
      exact ⟨n, hn, (hall n rfl).1 t rfl⟩
    · intro hout u hu
      obtain ⟨v, hv, htv⟩ := hout ⟨n, hn⟩
      rw [← Option.some.inj hu]
      refine ⟨fun t' ht' => ?_, hle⟩
      rw [← Option.some.inj ht']
      exact Nat.le_trans htv (hle v hv)

/-- **Priority scheduling.** In every run from the empty scheduler whose calls are valid and keep the ready queues,
whenever a running task gives way to the scheduler, the task that has the processor afterwards is the highest of the
runnable ones if and only if some queued task was not lower than the running one, or none was queued. -/
theorem highest_runs_iff (memory : Tasks) (cs : List SchedCall)
    (hA : Allowed schedStep (fun _ s c => c.Valid s ∧ c.KeepsQueues s) (bootTasks memory) cs) :
    ∀ before c after, cs = before ++ c :: after → ∀ s t, c.givesWay (run schedStep (bootTasks memory) before).2 = some s →
      s.currentTask = some t → s.state t = .running →
      (HighestRuns s (run schedStep (bootTasks memory) (before ++ [c])).2 ↔ s.Outranked t) := by
  rintro before c after rfl s t hway hcur hrun
  have h := sound_givesWay (sound_run memory before hA.left) hway
  have hs : (run schedStep (bootTasks memory) (before ++ [c])).2 = schedule s := by
    rw [run_concat]
    exact run_givesWay hway
  rw [hs]
  exact schedule_highest_iff h hcur hrun

def yieldsToHigher : List SchedCall := [.timer (.call (.create (some 1) true 8)), .timer (.call .schedule),
  .timer (.call (.create (some 2) true 12)), .yield]

theorem queued_of_head {p : Nat} (hp : p < 32) (h : s.readyQueue p = some t) : s.Queued t :=
  ⟨p, hp, by rw [h]; exact Reach.here t⟩

theorem highest_runs_higher : HighestRuns (renewQuantum (run schedStep (bootTasks zeroTasks) (yieldsToHigher.take 3)).2)
    (run schedStep (bootTasks zeroTasks) (yieldsToHigher.take 3 ++ [.yield])).2 :=
  (highest_runs_iff zeroTasks yieldsToHigher (by
    refine allowed_cons.2 ⟨⟨fresh_some (by decide +kernel), trivial⟩, ?_⟩
    refine allowed_cons.2 ⟨⟨trivial, trivial⟩, ?_⟩
    refine allowed_cons.2 ⟨⟨fresh_some (by decide +kernel), trivial⟩, ?_⟩
    exact allowed_cons.2 ⟨⟨trivial, trivial⟩, allowed_nil _⟩) (yieldsToHigher.take 3) .yield [] rfl _ 1 rfl
    (by decide) (by decide)).2
    (fun _ => ⟨2, queued_of_head (p := 12) (by decide) (by decide), by decide⟩)

def yieldsToLower : List SchedCall := [.timer (.call (.create (some 1) true 12)), .timer (.call .schedule),
  .timer (.call (.create (some 2) true 4)), .yield]

/-- **The lower task runs.** -/
theorem not_highest_runs : ¬∀ (memory : Tasks) (cs : List SchedCall),
    Allowed schedStep (fun _ s c => c.Valid s ∧ c.KeepsQueues s) (bootTasks memory) cs →
    ∀ before c after, cs = before ++ c :: after → ∀ s t, c.givesWay (run schedStep (bootTasks memory) before).2 = some s →
      s.currentTask = some t → s.state t = .running →
      HighestRuns s (run schedStep (bootTasks memory) (before ++ [c])).2 := by
  intro hall
  have hA : Allowed schedStep (fun _ s c => c.Valid s ∧ c.KeepsQueues s) (bootTasks zeroTasks) yieldsToLower := by
    refine allowed_cons.2 ⟨⟨fresh_some (by decide +kernel), trivial⟩, ?_⟩
    refine allowed_cons.2 ⟨⟨trivial, trivial⟩, ?_⟩
    refine allowed_cons.2 ⟨⟨fresh_some (by decide +kernel), trivial⟩, ?_⟩
    exact allowed_cons.2 ⟨⟨trivial, trivial⟩, allowed_nil _⟩
  have h := hall zeroTasks yieldsToLower hA (yieldsToLower.take 3) .yield [] rfl _ 1 rfl (by decide)
    (by decide) 2 (by decide)
  exact absurd (h.1 1 (by decide)) (by decide)

end

end Sched
end AmitX
