import AmitX.Sched.Calls
/-!
# Mutex — mutexes and semaphores (`mutex.c`, `semaphore.c`, `spinlock.c`)

A call runs up to its end or to the `schedule` of `task_block_on`; a task that was blocked there goes on with `resume`
when it has the processor again.  Which ready task gets the processor, and when a timeout expires, is left open.  The
word of a spinlock is kept but nobody spins on it here: a call takes the lock whatever its word is.  Pointers that are
NULL are left out, and so is the initialisation of an object in use.
-/
namespace AmitX
namespace Sync

open Sched

abbrev MutexPtr := Nat
abbrev SemPtr := Nat

structure Mutex where
  locked : Bool
  owner : Option Ptr
  ownerOrigPrio : Nat

structure Semaphore where
  units : Nat
  maxUnits : Nat

/-- The queues `m->waiters` and `sem->waiters`; each has its spinlock beside it. -/
def mutexQueue (m : MutexPtr) : QueuePtr := 2 * m

def semQueue (sem : SemPtr) : QueuePtr := 2 * sem + 1

def mutexWaitForever : Nat := 0xFFFFFFFF
def semWaitForever : Nat := 0xFFFFFFFF

/-- The loop that a task is in while `task_block_on` has it blocked, with the arguments of the call. -/
inductive Waiting
  | mutexLock (m : MutexPtr) (timeoutMs : Nat)
  | semWait (sem : SemPtr) (units timeoutMs : Nat)

def Waiting.queue : Waiting → QueuePtr
  | .mutexLock m _ => mutexQueue m
  | .semWait sem _ _ => semQueue sem

structure Objects where
  tasks : Tasks
  mutex : MutexPtr → Mutex
  sem : SemPtr → Semaphore
  /-- The word of the spinlock beside a queue. -/
  lock : QueuePtr → Nat
  /-- Where a task is that called `task_block_on` and has not gone on. -/
  inside : Ptr → Option Waiting

inductive Outcome
  | done
  | locked (m : MutexPtr)
  | unlocked (m : MutexPtr)
  | acquired (sem : SemPtr)
  | failed
  | waits
  deriving DecidableEq

def spinlockAcquire (q : QueuePtr) (s : Objects) : Objects := { s with lock := Function.update s.lock q 1 }

def spinlockRelease (q : QueuePtr) (s : Objects) : Objects := { s with lock := Function.update s.lock q 0 }

/-- `task_block_on` up to its `schedule`. -/
def blockTask (q : QueuePtr) (task : Ptr) (timeoutMs : Nat) (s : Tasks) : Tasks :=
  let s := taskQueuePush q task { s with
    state := Function.update s.state task .blocked
    wakeReason := Function.update s.wakeReason task .none_
    sleepUntil := Function.update s.sleepUntil task (deadline s timeoutMs) }
  if timeoutMs = taskNoTimeout then s else timerWheelInsert task (ticksOf timeoutMs) s

/-- `schedule` with the choice of the next task made. -/
def giveTo (next : Ptr) (s : Tasks) : Tasks := switchTo next (schedulerRemove next (requeue s.currentTask s))

/-! ## Mutexes -/

/-- The mutex is free and becomes that of `self`. -/
def takeMutex (m : MutexPtr) (self : Ptr) (s : Objects) : Objects :=
  { s with
    mutex := Function.update s.mutex m
      { locked := true, owner := some self, ownerOrigPrio := s.tasks.basePrio self } }

def mutexTrylock (m : MutexPtr) (self : Ptr) (s : Objects) : Outcome × Objects :=
  let s := spinlockAcquire (mutexQueue m) s
  if (s.mutex m).locked then (.failed, spinlockRelease (mutexQueue m) s)
  else (.locked m, spinlockRelease (mutexQueue m) (takeMutex m self s))

/-- The owner of the mutex is raised to the priority of the task that waits for it. -/
def boostOwner (m : MutexPtr) (self : Ptr) (s : Objects) : Objects :=
  match (s.mutex m).owner with
  | none => s
  | some owner =>
    if s.tasks.curPrio owner < s.tasks.curPrio self then
      { s with tasks := taskBoostPriority owner (s.tasks.curPrio self) s.tasks }
    else s

def waitOn (w : Waiting) (self : Ptr) (waitMs : Nat) (s : Objects) : Objects :=
  { s with
    tasks := blockTask w.queue self waitMs s.tasks
    inside := Function.update s.inside self (some w) }

/-- One turn of the loop of `mutex_lock`. -/
def mutexLock (m : MutexPtr) (timeoutMs : Nat) (self : Ptr) (s : Objects) : Outcome × Objects :=
  let s := spinlockAcquire (mutexQueue m) s
  if (s.mutex m).locked then
    let waitMs := if timeoutMs = mutexWaitForever then taskNoTimeout else timeoutMs
    (.waits, waitOn (.mutexLock m timeoutMs) self waitMs (boostOwner m self s))
  else (.locked m, spinlockRelease (mutexQueue m) (takeMutex m self s))

def unboostOwner (m : MutexPtr) (s : Objects) : Objects :=
  match (s.mutex m).owner with
  | none => s
  | some owner =>
    if s.tasks.curPrio owner ≠ (s.mutex m).ownerOrigPrio then
      { s with tasks := taskUnboostPriority owner s.tasks }
    else s

def freeMutex (m : MutexPtr) (s : Objects) : Objects :=
  { s with mutex := Function.update s.mutex m { locked := false, owner := none, ownerOrigPrio := 0 } }

def mutexUnlock (m : MutexPtr) (s : Objects) : Outcome × Objects :=
  let s := freeMutex m (unboostOwner m (spinlockAcquire (mutexQueue m) s))
  (.unlocked m, spinlockRelease (mutexQueue m) { s with tasks := taskWakeOne (mutexQueue m) s.tasks })

/-! ## Semaphores -/

def takeUnits (sem : SemPtr) (units : Nat) (s : Objects) : Objects :=
  { s with
    sem := Function.update s.sem sem { (s.sem sem) with units := (s.sem sem).units - units } }

def semTrywait (sem : SemPtr) (units : Nat) (s : Objects) : Outcome × Objects :=
  let s := spinlockAcquire (semQueue sem) s
  if units ≤ (s.sem sem).units then (.acquired sem, spinlockRelease (semQueue sem) (takeUnits sem units s))
  else (.failed, spinlockRelease (semQueue sem) s)

/-- One turn of the loop of `sem_wait`. -/
def semWait (sem : SemPtr) (units timeoutMs : Nat) (self : Ptr) (s : Objects) : Outcome × Objects :=
  let s := spinlockAcquire (semQueue sem) s
  if units ≤ (s.sem sem).units then (.acquired sem, spinlockRelease (semQueue sem) (takeUnits sem units s))
  else
    let waitMs := if timeoutMs = semWaitForever then taskNoTimeout else timeoutMs
    (.waits, waitOn (.semWait sem units timeoutMs) self waitMs s)

def addUnits (sem : SemPtr) (units : Nat) (s : Objects) : Objects :=
  { s with
    sem := Function.update s.sem sem
      { (s.sem sem) with units := min (addU32 (s.sem sem).units units) (s.sem sem).maxUnits } }

def signalLoop (q : QueuePtr) : Nat → Tasks → Tasks
  | 0, s => s
  | n + 1, s => if (s.waitHead q).isSome then signalLoop q n (taskWakeOne q s) else s

def semSignal (sem : SemPtr) (units : Nat) (s : Objects) : Outcome × Objects :=
  let s := addUnits sem units (spinlockAcquire (semQueue sem) s)
  let tasks := if 0 < (s.sem sem).units then signalLoop (semQueue sem) taskMaxTasks s.tasks else s.tasks
  (.done, spinlockRelease (semQueue sem) { s with tasks := tasks })

/-! ## After `task_block_on` -/

/-- The task goes on behind `task_block_on`: it releases the spinlock and gives up, or takes another turn. -/
def resume (self : Ptr) (s : Objects) : Outcome × Objects :=
  match s.inside self with
  | none => (.done, s)
  | some w =>
    let s := { spinlockRelease w.queue s with inside := Function.update s.inside self none }
    if s.tasks.wakeReason self = .timeout then (.failed, s)
    else
      match w with
      | .mutexLock m timeoutMs => mutexLock m timeoutMs self s
      | .semWait sem units timeoutMs => semWait sem units timeoutMs self s

/-! ## Calls -/

inductive ObjectCall
  | trylock (m : MutexPtr)
  | lock (m : MutexPtr) (timeoutMs : Nat)
  | unlock (m : MutexPtr)
  | trywait (sem : SemPtr) (units : Nat)
  | wait (sem : SemPtr) (units timeoutMs : Nat)
  | signal (sem : SemPtr) (units : Nat)
  | resume

def ObjectCall.run (self : Ptr) (s : Objects) : ObjectCall → Outcome × Objects
  | .trylock m => mutexTrylock m self s
  | .lock m timeoutMs => mutexLock m timeoutMs self s
  | .unlock m => mutexUnlock m s
  | .trywait sem units => semTrywait sem units s
  | .wait sem units timeoutMs => semWait sem units timeoutMs self s
  | .signal sem units => semSignal sem units s
  | .resume => Sync.resume self s

inductive SyncCall
  /-- A task is made. -/
  | create (memory : Option Ptr) (stack : Bool) (priority : Nat)
  /-- A ready task gets the processor. -/
  | dispatch (next : Ptr)
  /-- The timeout of a blocked task expires. -/
  | expire (task : Ptr)
  | call (c : ObjectCall)

def SyncCall.run (s : Objects) : SyncCall → Outcome × Objects
  | .create memory stack priority => (.done, { s with tasks := taskCreateArgPrio memory stack priority s.tasks })
  | .dispatch next => (.done, { s with tasks := giveTo next s.tasks })
  | .expire task => (.done, { s with tasks := fireTimer task s.tasks })
  | .call c =>
    match s.tasks.currentTask with
    | none => (.done, s)
    | some self => c.run self s

/-- The call goes on behind `task_block_on`. -/
def ObjectCall.GoesOn : ObjectCall → Bool
  | .resume => true
  | _ => false

/-- New memory is that of no task, a ready task is dispatched, a blocked one expires, and the calls are made by a running
task, which goes on behind `task_block_on` exactly if it was blocked there. -/
def SyncCall.Valid (s : Objects) : SyncCall → Prop
  | .create memory _ _ => ∀ t, memory = some t → ¬s.tasks.Live t
  | .dispatch next => s.tasks.Live next ∧ s.tasks.state next = .ready
  | .expire task => s.tasks.Live task ∧ s.tasks.state task = .blocked
  | .call c => ∃ t, s.tasks.currentTask = some t ∧ s.tasks.state t = .running ∧ (s.inside t).isSome = c.GoesOn

abbrev SyncEvent := Option Ptr × Outcome

def syncStep (s : Objects) (c : SyncCall) : SyncEvent × Objects :=
  ((s.tasks.currentTask, (c.run s).1), (c.run s).2)

def bootObjects (memory : Tasks) (sem : SemPtr → Semaphore) : Objects where
  tasks := bootTasks memory
  mutex := fun _ => { locked := false, owner := none, ownerOrigPrio := 0 }
  sem := sem
  lock := fun _ => 0
  inside := fun _ => none

section

variable {s : Tasks} {t : Ptr}

end

end Sync
end AmitX
