import AmitX.Sched.Highest
/-!
# Pic — interrupts and the tasks they are taken from (`interrupts.c`, `isr.S`, `context_switch.S`)

The two interrupt controllers with their in-service bits, one processor, and the scheduler of `Sched`.  An interrupt runs
up to its return, or up to the switch to another task that the scheduler makes in the handler of the timer; the task that
was interrupted then has the rest of `isr_handler` before it.  Any line may interrupt, whatever the masks are; exceptions
are left out, and a system call is like a call of the task itself, since its branch of `isr_handler` acknowledges nothing.
-/
namespace AmitX
namespace Irq

open Sched Run

/-! ## The controllers -/

structure Pic where
  master : BitVec 8
  slave : BitVec 8
  deriving DecidableEq

def cascade : Nat := 2

def Pic.inService (p : Pic) (irq : Nat) : Bool :=
  if irq < 8 then p.master.getLsbD irq else p.slave.getLsbD (irq - 8)

def Pic.Accepts (p : Pic) (irq : Nat) : Prop :=
  if irq < 8 then ∀ i ≤ irq, p.master.getLsbD i = false
  else (∀ i ≤ cascade, p.master.getLsbD i = false) ∧ ∀ i ≤ irq - 8, p.slave.getLsbD i = false

instance (p : Pic) (irq : Nat) : Decidable (p.Accepts irq) := inferInstanceAs (Decidable (if irq < 8 then _ else _))

def Pic.take (irq : Nat) (spurious : Bool) (p : Pic) : Pic :=
  if irq < 8 then { p with master := if spurious then p.master else p.master ||| 1#8 <<< irq }
  else
    { master := p.master ||| 1#8 <<< cascade
      slave := if spurious then p.slave else p.slave ||| 1#8 <<< (irq - 8) }

/-- The command `PIC_EOI`: of the interrupts in service the first one, which has the highest priority, is done. -/
def eoi (b : BitVec 8) : BitVec 8 := b &&& (b - 1)

def picEoi (irq : Nat) (p : Pic) : Pic :=
  if irq = 7 ∧ p.master.getLsbD 7 = false then p
  else if irq = 15 ∧ p.slave.getLsbD 7 = false then { p with master := eoi p.master }
  else { master := eoi p.master, slave := if 8 ≤ irq then eoi p.slave else p.slave }

/-! ## The processor -/

/-- Where a task goes on that has not the processor: behind its own call, or in `isr_handler` behind the handler of an
interrupt; and whether interrupts are enabled there. -/
structure Context where
  irq : Option Nat
  enabled : Bool

/-- A new task begins in `task_trampoline` with the flags 0x202. -/
def Context.fresh : Context := ⟨none, true⟩

structure Cpu where
  tasks : Tasks
  pic : Pic
  enabled : Bool
  context : Ptr → Context

/-- A task goes on; an interrupted one with its acknowledgement and its return, which enables interrupts as they were. -/
def goOn (c : Context) (s : Cpu) : Cpu :=
  match c.irq with
  | none => { s with enabled := c.enabled }
  | some irq => { s with pic := picEoi irq s.pic, enabled := true }

def saveContext (old : Option Ptr) (c : Context) (context : Ptr → Context) : Ptr → Context :=
  match old with
  | none => context
  | some task => Function.update context task c

def contextSwitch (old : Option Ptr) (c : Context) (next : Ptr) (s : Cpu) : Cpu :=
  goOn (s.context next) { s with context := saveContext old c s.context }

def switched (s s' : Tasks) : Option Ptr := if s'.currentTask = s.currentTask then none else s'.currentTask

def newTasks (s : Tasks) : SchedCall → List Ptr
  | .timer (.call (.create memory stack _)) => (createdTask memory stack s).toList
  | .timer (.call (.init idle idleStack reaper reaperStack)) =>
    (if idleStack then idle.toList else []) ++ if reaperStack then reaper.toList else []
  | _ => []

def callTasks (s : Cpu) (c : SchedCall) : Cpu :=
  { s with
    tasks := c.run s.tasks
    context := fun t => if t ∈ newTasks s.tasks c then Context.fresh else s.context t }

/-- A call of the code that runs outside `isr_handler`. -/
def taskCall (c : SchedCall) (s : Cpu) : Cpu :=
  match switched s.tasks (c.run s.tasks) with
  | none => callTasks s c
  | some next => contextSwitch s.tasks.currentTask ⟨none, s.enabled⟩ next (callTasks s c)

/-- `isr_handler` with `timer_callback`. -/
def timerInterrupt (s : Cpu) : Cpu :=
  let s' := { s with tasks := timerCallback s.tasks, pic := s.pic.take 0 false }
  match switched s.tasks s'.tasks with
  | none => { s' with pic := picEoi 0 s'.pic }
  | some next => contextSwitch s.tasks.currentTask ⟨some 0, false⟩ next s'

/-- `isr_handler` with the handlers of a device, which make `calls`. -/
def deviceInterrupt (irq : Nat) (spurious : Bool) (calls : List SchedCall) (s : Cpu) : Cpu :=
  let s' := calls.foldl callTasks { s with pic := s.pic.take irq spurious }
  { s' with pic := picEoi irq s'.pic }

/-! ## Steps -/

inductive CpuStep
  | call (c : SchedCall)
  | timer
  | device (irq : Nat) (spurious : Bool) (calls : List SchedCall)
  /-- The code outside `isr_handler` enables or disables interrupts. -/
  | setEnabled (enabled : Bool)

def CpuStep.run (s : Cpu) : CpuStep → Cpu
  | .call c => taskCall c s
  | .timer => timerInterrupt s
  | .device irq spurious calls => deviceInterrupt irq spurious calls s
  | .setEnabled enabled => { s with enabled := enabled }

/-- The calls of the handlers of devices: they wake tasks or make them, and do not give way. -/
def SchedCall.Wakes : SchedCall → Prop
  | .timer (.call (.create _ _ _)) => True
  | .timer (.call (.wake _)) => True
  | .timer (.call (.wakeOne _)) => True
  | .wakeAllQueue _ => True
  | _ => False

def HandlerCalls (s : Tasks) : List SchedCall → Prop
  | [] => True
  | c :: cs => SchedCall.Wakes c ∧ c.Valid s ∧ HandlerCalls (c.run s) cs

/-- Calls have valid arguments, and ticks are those of the timer.  An interrupt comes when interrupts are enabled and none
of the same or a higher priority is in service; the last line of a controller may be spurious. -/
def CpuStep.Valid (s : Cpu) : CpuStep → Prop
  | .call c => c.Valid s.tasks ∧ c ≠ .timer .tick
  | .timer => s.enabled = true ∧ s.pic.Accepts 0
  | .device irq spurious calls => s.enabled = true ∧ s.pic.Accepts irq ∧ 0 < irq ∧ irq < 16 ∧ irq ≠ cascade ∧
      (spurious = true → irq = 7 ∨ irq = 15) ∧ HandlerCalls s.tasks calls
  | .setEnabled _ => True

def cpuStep (s : Cpu) (c : CpuStep) : CpuStep × Cpu := (c, c.run s)

def bootCpu (memory : Tasks) : Cpu where
  tasks := bootTasks memory
  pic := ⟨0, 0⟩
  enabled := false
  context := fun _ => Context.fresh

end Irq
end AmitX
