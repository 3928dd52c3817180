import AmitX.Lib.DList
import Mathlib.Data.List.FinRange
import Mathlib.Algebra.Group.Nat.Defs
/-!
# Tasks — the tasks of the kernel and its scheduler (`task.c`, `scheduler.c`)

The memory of the tasks is kept field by field: `state t` is `t->state`.  A task is on at most one list of each of three
kinds, linked through three pairs of fields: the ready queue of a priority, a wait queue, a bucket of the timer wheel.
The fields no function here reads (the name, the context, the stack, the entry) are left out, and so are the messages.
Control passes to another task at the end of `schedule`; the calls of a run are made by whoever is running.
-/
namespace AmitX
namespace Sched

abbrev Ptr := Nat
abbrev QueuePtr := Nat

inductive TaskState
  | ready | running | blocked | sleeping | terminated | zombie
  deriving DecidableEq

inductive WakeReason
  | none_ | signaled | timeout
  deriving DecidableEq

def taskMaxTasks : Nat := 256
def taskNumPrios : Nat := 32
def taskPrioIdle : Nat := 0
def taskPrioNormal : Nat := 8
def taskPrioAboveNorm : Nat := 12
def taskPrioRealtime : Nat := 16
def taskPrioCritical : Nat := 31
def taskNoTimeout : Nat := 0
def timerWheelSize : Nat := 256

structure Tasks where
  state : Ptr → TaskState
  tid : Ptr → Nat
  basePrio : Ptr → Nat
  curPrio : Ptr → Nat
  quantum : Ptr → Nat
  quantumMax : Ptr → Nat
  sleepUntil : Ptr → Nat
  wakeReason : Ptr → WakeReason
  waitQueue : Ptr → Option QueuePtr
  timerBucket : Ptr → Nat
  /-- `next` and `prev`, `wait_next` and `wait_prev`, `timer_next` and `timer_prev`. -/
  ready : Links Ptr
  wait : Links Ptr
  timer : Links Ptr
  readyQueue : Nat → Option Ptr
  readyTail : Nat → Option Ptr
  readyBitmap : BitVec 32
  timerWheel : Nat → Option Ptr
  /-- The head and the tail of each wait queue. -/
  waitHead : QueuePtr → Option Ptr
  waitTail : QueuePtr → Option Ptr
  taskTable : Nat → Option Ptr
  currentTask : Option Ptr
  nextTid : Nat
  tickCount : Nat

/-- The sum of two `uint32_t`. -/
def addU32 (a b : Nat) : Nat := (a + b) % 2 ^ 32

/-! ## The ready queues -/

def readyIndex (prio : Nat) : Nat := if taskNumPrios ≤ prio then taskNumPrios - 1 else prio

def setBit (b : BitVec 32) (i : Nat) : BitVec 32 := b ||| (1#32 <<< i)

def clearBit (b : BitVec 32) (i : Nat) : BitVec 32 := b &&& ~~~(1#32 <<< i)

def schedulerAdd (task : Ptr) (s : Tasks) : Tasks :=
  let prio := readyIndex (s.curPrio task)
  { s with
    state := Function.update s.state task .ready
    ready := s.ready.linkAfter (s.readyTail prio) task
    readyQueue :=
      if (s.readyTail prio).isSome then s.readyQueue else Function.update s.readyQueue prio (some task)
    readyBitmap := if (s.readyTail prio).isSome then s.readyBitmap else setBit s.readyBitmap prio
    readyTail := Function.update s.readyTail prio (some task) }

def schedulerRemove (task : Ptr) (s : Tasks) : Tasks :=
  if s.state task ≠ .ready then s
  else
    let prio := readyIndex (s.curPrio task)
    let queue :=
      if (s.ready.prev task).isSome then s.readyQueue
      else Function.update s.readyQueue prio (s.ready.next task)
    { s with
      ready := s.ready.unlink task
      readyQueue := queue
      readyTail :=
        if (s.ready.next task).isSome then s.readyTail
        else Function.update s.readyTail prio (s.ready.prev task)
      readyBitmap := if (queue prio).isSome then s.readyBitmap else clearBit s.readyBitmap prio }

/-- The head of the highest queue whose bit is set; the bit of an empty queue is cleared and the search goes on.  There
are 32 bits to clear. -/
def schedulerNextLoop (s : Tasks) : Nat → BitVec 32 → Option Ptr × BitVec 32
  | 0, bitmap => (none, bitmap)
  | n + 1, bitmap =>
    if bitmap = 0 then (s.readyQueue taskPrioIdle, bitmap)
    else
      match s.readyQueue bitmap.toNat.log2 with
      | some task => (some task, bitmap)
      | none => schedulerNextLoop s n (clearBit bitmap bitmap.toNat.log2)

def schedulerNext (s : Tasks) : Option Ptr × Tasks :=
  let r := schedulerNextLoop s (taskNumPrios + 1) s.readyBitmap
  (r.1, { s with readyBitmap := r.2 })

def requeue (old : Option Ptr) (s : Tasks) : Tasks :=
  match old with
  | none => s
  | some task => if s.state task = .running then schedulerAdd task s else s

def switchTo (next : Ptr) (s : Tasks) : Tasks :=
  { s with state := Function.update s.state next .running, currentTask := some next }

def schedule (s : Tasks) : Tasks :=
  match (schedulerNext s).1 with
  | none => (schedulerNext s).2
  | some next =>
    if s.currentTask = some next then (schedulerNext s).2
    else switchTo next (schedulerRemove next (requeue s.currentTask (schedulerNext s).2))

/-! ## The timer wheel -/

def timerWheelRemove (task : Ptr) (s : Tasks) : Tasks :=
  if timerWheelSize ≤ s.timerBucket task then s
  else
    { s with
      timer := s.timer.unlink task
      timerWheel :=
        if (s.timer.prev task).isSome then s.timerWheel
        else Function.update s.timerWheel (s.timerBucket task) (s.timer.next task)
      timerBucket := Function.update s.timerBucket task 0xFFFFFFFF }

def timerWheelLink (task : Ptr) (bucket : Nat) (s : Tasks) : Tasks :=
  { s with
    timerBucket := Function.update s.timerBucket task bucket
    timer := s.timer.linkBefore (s.timerWheel bucket) task
    timerWheel := Function.update s.timerWheel bucket (some task) }

def timerWheelInsert (task : Ptr) (timeoutTicks : Nat) (s : Tasks) : Tasks :=
  timerWheelLink task (addU32 s.tickCount timeoutTicks % timerWheelSize) (timerWheelRemove task s)

/-! ## Wait queues -/

def taskQueuePush (q : QueuePtr) (task : Ptr) (s : Tasks) : Tasks :=
  { s with
    wait := s.wait.linkAfter (s.waitTail q) task
    waitHead := if (s.waitTail q).isSome then s.waitHead else Function.update s.waitHead q (some task)
    waitTail := Function.update s.waitTail q (some task)
    waitQueue := Function.update s.waitQueue task (some q) }

def taskQueueRemove (q : QueuePtr) (task : Ptr) (s : Tasks) : Tasks :=
  if s.waitQueue task ≠ some q then s
  else
    { s with
      wait := s.wait.unlink task
      waitHead := if (s.wait.prev task).isSome then s.waitHead else Function.update s.waitHead q (s.wait.next task)
      waitTail := if (s.wait.next task).isSome then s.waitTail else Function.update s.waitTail q (s.wait.prev task)
      waitQueue := Function.update s.waitQueue task none }

def leaveQueue (task : Ptr) (s : Tasks) : Tasks :=
  match s.waitQueue task with
  | none => s
  | some q => taskQueueRemove q task s

def wakeTask (task : Ptr) (s : Tasks) : Tasks :=
  schedulerAdd task { s with sleepUntil := Function.update s.sleepUntil task 0 }

def setWakeReason (task : Ptr) (reason : WakeReason) (s : Tasks) : Tasks :=
  { s with wakeReason := Function.update s.wakeReason task reason }

/-! ## Timer ticks -/

def fireTimer (task : Ptr) (s : Tasks) : Tasks :=
  let s := timerWheelRemove task s
  match s.state task with
  | .sleeping => wakeTask task s
  | .blocked => wakeTask task (setWakeReason task .timeout (leaveQueue task s))
  | _ => s

/-- Walk a bucket from `task` on; what is left of it when the bound of the walk is reached is returned. -/
def wheelLoop : Nat → Option Ptr → Tasks → Option Ptr × Tasks
  | _, none, s => (none, s)
  | 0, some task, s => (some task, s)
  | n + 1, some task, s =>
    wheelLoop n (s.timer.next task) (if s.sleepUntil task ≤ s.tickCount then fireTimer task s else s)

def schedulerTimerWheelTick (s : Tasks) : Option Ptr × Tasks :=
  wheelLoop taskMaxTasks (s.timerWheel (s.tickCount % timerWheelSize)) s

/-- Take one tick off the quantum of the running task, which gives way when it is used up. -/
def useQuantum (task : Ptr) (s : Tasks) : Tasks :=
  let quantum := s.quantum task - 1
  if quantum = 0 then
    schedule { s with quantum := Function.update s.quantum task (s.quantumMax task) }
  else { s with quantum := Function.update s.quantum task quantum }

def schedulerTick (s : Tasks) : Tasks :=
  let s := (schedulerTimerWheelTick s).2
  match s.currentTask with
  | none => s
  | some task => useQuantum task s

def timerCallback (s : Tasks) : Tasks := schedulerTick { s with tickCount := addU32 s.tickCount 1 }

/-! ## The life of a task -/

def prioToQuantum (prio : Nat) : Nat :=
  if taskPrioRealtime ≤ prio then 6
  else if taskPrioAboveNorm ≤ prio then 2
  else if taskPrioNormal ≤ prio then 4
  else 8

/-- The task's memory after `memset` and the assignments of `task_create_arg_prio`. -/
def initTask (task : Ptr) (priority : Nat) (s : Tasks) : Tasks :=
  let priority := min priority taskPrioCritical
  { s with
    state := Function.update s.state task .ready
    tid := Function.update s.tid task s.nextTid
    nextTid := addU32 s.nextTid 1
    basePrio := Function.update s.basePrio task priority
    curPrio := Function.update s.curPrio task priority
    quantum := Function.update s.quantum task (prioToQuantum priority)
    quantumMax := Function.update s.quantumMax task (prioToQuantum priority)
    sleepUntil := Function.update s.sleepUntil task 0
    wakeReason := Function.update s.wakeReason task .none_
    waitQueue := Function.update s.waitQueue task none
    timerBucket := Function.update s.timerBucket task 0
    ready := (s.ready.setNext task none).setPrev task none
    wait := (s.wait.setNext task none).setPrev task none
    timer := (s.timer.setNext task none).setPrev task none }

/-- The first slot of the table whose content satisfies `p`. -/
def findSlot (s : Tasks) (p : Option Ptr → Bool) : Option Nat :=
  (List.range taskMaxTasks).find? (fun i => p (s.taskTable i))

/-- `memory` is the task that `malloc` returns, `stack` whether it has memory for the stack. -/
def taskCreateArgPrio (memory : Option Ptr) (stack : Bool) (priority : Nat) (s : Tasks) : Tasks :=
  match findSlot s Option.isNone, memory with
  | some slot, some task =>
    if stack then
      schedulerAdd task { initTask task priority s with taskTable := Function.update s.taskTable slot (some task) }
    else initTask task priority s
  | _, _ => s

/-- The task that `task_create_arg_prio` returns. -/
def createdTask (memory : Option Ptr) (stack : Bool) (s : Tasks) : Option Ptr :=
  match findSlot s Option.isNone, memory with
  | some _, some task => if stack then some task else none
  | _, _ => none

def setIdle (idle : Option Ptr) (s : Tasks) : Tasks :=
  match idle with
  | none => s
  | some task => { s with
      basePrio := Function.update s.basePrio task taskPrioIdle
      curPrio := Function.update s.curPrio task taskPrioIdle
      quantum := Function.update s.quantum task 0xFFFFFFFF
      quantumMax := Function.update s.quantumMax task 0xFFFFFFFF }

/-- The memory for the idle task and for the reaper is as in `taskCreateArgPrio`. -/
def taskInit (idle : Option Ptr) (idleStack : Bool) (reaper : Option Ptr) (reaperStack : Bool) (s : Tasks) : Tasks :=
  let s := { s with taskTable := fun _ => none, currentTask := none, nextTid := 1 }
  taskCreateArgPrio reaper reaperStack taskPrioCritical
    (setIdle (createdTask idle idleStack s) (taskCreateArgPrio idle idleStack taskPrioNormal s))

def forgetTask (task : Ptr) (s : Tasks) : Tasks :=
  match findSlot s (· == some task) with
  | some slot => { s with taskTable := Function.update s.taskTable slot none }
  | none => s

def taskDestroy (task : Ptr) (s : Tasks) : Tasks :=
  forgetTask task (leaveQueue task (timerWheelRemove task (schedulerRemove task s)))

def ticksOf (ms : Nat) : Nat := if addU32 ms 9 / 10 = 0 then 1 else addU32 ms 9 / 10

def taskSleep (ms : Nat) (s : Tasks) : Tasks :=
  match s.currentTask with
  | none => s
  | some task => schedule (timerWheelInsert task (ticksOf ms) { s with
      sleepUntil := Function.update s.sleepUntil task (addU32 s.tickCount (ticksOf ms))
      state := Function.update s.state task .sleeping })

def taskFind (s : Tasks) (tid : Nat) : Option Ptr :=
  ((List.range taskMaxTasks).find? (fun i => (s.taskTable i).any (fun t => s.tid t == tid))).bind s.taskTable

def taskWake (tid : Nat) (s : Tasks) : Tasks :=
  match taskFind s tid with
  | none => s
  | some task => if s.state task = .sleeping then wakeTask task (timerWheelRemove task s) else s

/-- What `task_wake_all` does with a slot of the table. -/
def wakeSlot (s : Tasks) (i : Nat) : Tasks :=
  match s.taskTable i with
  | none => s
  | some task => if s.state task = .sleeping then wakeTask task (timerWheelRemove task s) else s

def taskWakeAll (s : Tasks) : Tasks := (List.range taskMaxTasks).foldl wakeSlot s

def deadline (s : Tasks) (timeoutMs : Nat) : Nat :=
  if timeoutMs = taskNoTimeout then 0 else addU32 s.tickCount (ticksOf timeoutMs)

def taskBlockOn (q : QueuePtr) (timeoutMs : Nat) (s : Tasks) : Tasks :=
  match s.currentTask with
  | none => s
  | some task =>
    let s := taskQueuePush q task { s with
      state := Function.update s.state task .blocked
      wakeReason := Function.update s.wakeReason task .none_
      sleepUntil := Function.update s.sleepUntil task (deadline s timeoutMs) }
    schedule (if timeoutMs = taskNoTimeout then s else timerWheelInsert task (ticksOf timeoutMs) s)

def taskWakeOne (q : QueuePtr) (s : Tasks) : Tasks :=
  match s.waitHead q with
  | none => s
  | some task => wakeTask task (setWakeReason task .signaled (timerWheelRemove task (taskQueueRemove q task s)))

/-! ## Priorities -/

def changePrio (task : Ptr) (prio : Nat) (s : Tasks) : Tasks :=
  let s := { s with curPrio := Function.update s.curPrio task prio }
  if s.state task = .ready then schedulerAdd task (schedulerRemove task s) else s

def taskBoostPriority (task : Ptr) (newPrio : Nat) (s : Tasks) : Tasks :=
  let newPrio := min newPrio taskPrioCritical
  if taskPrioRealtime ≤ s.basePrio task then s
  else if newPrio ≤ s.basePrio task then s
  else changePrio task newPrio s

def taskUnboostPriority (task : Ptr) (s : Tasks) : Tasks :=
  if s.curPrio task = s.basePrio task then s else changePrio task (s.basePrio task) s

/-! ## Calls -/

inductive TaskCall
  | init (idle : Option Ptr) (idleStack : Bool) (reaper : Option Ptr) (reaperStack : Bool)
  | create (memory : Option Ptr) (stack : Bool) (priority : Nat)
  | add (task : Ptr)
  | remove (task : Ptr)
  | schedule
  | boost (task : Ptr) (newPrio : Nat)
  | unboost (task : Ptr)
  | sleep (ms : Nat)
  | wake (tid : Nat)
  | blockOn (q : QueuePtr) (timeoutMs : Nat)
  | wakeOne (q : QueuePtr)
  | destroy (task : Ptr)

def TaskCall.run (s : Tasks) : TaskCall → Tasks
  | .init idle idleStack reaper reaperStack => taskInit idle idleStack reaper reaperStack s
  | .create memory stack priority => taskCreateArgPrio memory stack priority s
  | .add task => schedulerAdd task s
  | .remove task => schedulerRemove task s
  | .schedule => Sched.schedule s
  | .boost task newPrio => taskBoostPriority task newPrio s
  | .unboost task => taskUnboostPriority task s
  | .sleep ms => taskSleep ms s
  | .wake tid => taskWake tid s
  | .blockOn q timeoutMs => taskBlockOn q timeoutMs s
  | .wakeOne q => taskWakeOne q s
  | .destroy task => taskDestroy task s

def zeroTasks : Tasks where
  state := fun _ => .ready
  tid := fun _ => 0
  basePrio := fun _ => 0
  curPrio := fun _ => 0
  quantum := fun _ => 0
  quantumMax := fun _ => 0
  sleepUntil := fun _ => 0
  wakeReason := fun _ => .none_
  waitQueue := fun _ => none
  timerBucket := fun _ => 0
  ready := ⟨fun _ => none, fun _ => none⟩
  wait := ⟨fun _ => none, fun _ => none⟩
  timer := ⟨fun _ => none, fun _ => none⟩
  readyQueue := fun _ => none
  readyTail := fun _ => none
  readyBitmap := 0
  timerWheel := fun _ => none
  waitHead := fun _ => none
  waitTail := fun _ => none
  taskTable := fun _ => none
  currentTask := none
  nextTid := 0
  tickCount := 0

/-- The scheduler before `task_init`, with the memory of the heap as it is. -/
def bootTasks (memory : Tasks) : Tasks :=
  { memory with
    readyQueue := fun _ => none, readyTail := fun _ => none, readyBitmap := 0, timerWheel := fun _ => none,
    waitHead := fun _ => none, waitTail := fun _ => none, taskTable := fun _ => none, currentTask := none, nextTid := 1,
    tickCount := 0 }

end Sched
end AmitX
