import AmitX.Lib.Run
import AmitX.Sched.ReadyRun
import AmitX.Sched.WheelRun
/-!
# Calls — giving way, ending and waking a whole queue

The calls of `Tasks` and of the timer with those that a run needs besides: `task_yield`, `task_exit` and
`task_wake_all_queue`.
-/
namespace AmitX
namespace Sched

open Run

def renewQuantum (s : Tasks) : Tasks :=
  match s.currentTask with
  | none => s
  | some task => { s with quantum := Function.update s.quantum task (s.quantumMax task) }

def taskYield (s : Tasks) : Tasks := schedule (renewQuantum s)

def taskExit (s : Tasks) : Tasks :=
  match s.currentTask with
  | none => s
  | some task => schedule { s with state := Function.update s.state task .zombie }

def taskQueuePop (q : QueuePtr) (s : Tasks) : Option Ptr × Tasks :=
  match s.waitHead q with
  | none => (none, s)
  | some task => (some task, taskQueueRemove q task s)

/-- Pop and wake until the queue is empty; the bound of the loop is reached with a task left on the queue. -/
def wakeQueueLoop (q : QueuePtr) : Nat → Tasks → Tasks
  | 0, s => s
  | n + 1, s =>
    match (taskQueuePop q s).1 with
    | none => s
    | some task => wakeQueueLoop q n (wakeTask task (setWakeReason task .signaled (taskQueuePop q s).2))

def taskWakeAllQueue (q : QueuePtr) (s : Tasks) : Tasks := wakeQueueLoop q taskMaxTasks s

inductive SchedCall
  | timer (c : TimerCall)
  | yield
  | exit
  | wakeAllQueue (q : QueuePtr)

def SchedCall.run (s : Tasks) : SchedCall → Tasks
  | .timer c => c.run s
  | .yield => taskYield s
  | .exit => taskExit s
  | .wakeAllQueue q => taskWakeAllQueue q s

def Tasks.CurrentRuns (s : Tasks) : Prop := ∀ t, s.currentTask = some t → s.state t = .running

/-- The arguments are what callers pass: tasks that exist, memory that no task has, to `scheduler_add` a task that is on
no list, and no task destroys the one that runs.  A task that sleeps, blocks or ends is running. -/
def SchedCall.Valid (s : Tasks) : SchedCall → Prop
  | .timer (.call (.init idle _ reaper _)) => (∀ t, ¬s.Live t) ∧ (idle = none ∨ idle ≠ reaper)
  | .timer (.call (.create memory _ _)) => ∀ t, memory = some t → ¬s.Live t
  | .timer (.call (.add t)) => s.Live t ∧ s.state t ≠ .ready ∧ s.state t ≠ .blocked ∧ s.state t ≠ .sleeping
  | .timer (.call (.remove t)) => s.Live t
  | .timer (.call (.boost t _)) => s.Live t
  | .timer (.call (.unboost t)) => s.Live t
  | .timer (.call (.destroy t)) => s.Live t ∧ s.currentTask ≠ some t
  | .timer (.call (.sleep _)) => s.CurrentRuns
  | .timer (.call (.blockOn _ _)) => s.CurrentRuns
  | .exit => s.CurrentRuns
  | _ => True

def SchedCall.KeepsQueues (s : Tasks) : SchedCall → Prop
  | .timer (.call (.init idle idleStack _ _)) => idle = none ∨ idleStack = false
  | .timer (.call (.remove t)) => s.state t ≠ .ready
  | .timer (.call (.boost t newPrio)) => s.basePrio t < taskPrioRealtime →
      s.basePrio t < min newPrio taskPrioCritical → ¬s.MovesEnd t (min newPrio taskPrioCritical)
  | .timer (.call (.unboost t)) => ¬s.MovesEnd t (s.basePrio t)
  | _ => True

def schedStep (s : Tasks) (c : SchedCall) : SchedCall × Tasks := (c, c.run s)

end Sched
end AmitX
