import AmitX.Lib.Loop
import Mathlib.Data.List.Basic
import Mathlib.Data.List.Monad
import Mathlib.Logic.Function.Basic
/-!
# Kscope — the registry of the kernel's subsystems (`kscope.c`)

A node is known by its address: `node p` is what its owner wrote there once and for all, `state p` the field the kernel
changes.  The nodes are objects of the kernel image, so that the check of the address of `requires` in the search always
passes.  The texts of the messages are left out, and so are the fields no function here reads (the class, the provided
names, the private pointer).  `log` is not in the source: it keeps the calls of the callbacks of the nodes and their way
to the state OK, each with the states of the nodes and the registry at that time.
-/
namespace AmitX
namespace Kscope

abbrev Ptr := Nat

def kscopeMaxNodes : Nat := 32

inductive NodeState
  | registered | probing | ok | failed
  deriving DecidableEq

structure Node where
  /-- `name` is not `NULL`. -/
  hasName : Bool
  id : Nat
  requires : List (Option Ptr)
  hasInit : Bool
  hasShutdown : Bool

inductive EventKind
  | init | ok | shutdown
  deriving DecidableEq

structure Event where
  kind : EventKind
  node : Ptr
  state : Ptr → NodeState
  registry : List Ptr

structure Nodes where
  node : Ptr → Node
  state : Ptr → NodeState
  /-- `registry[0 .. registry_count)`. -/
  registry : List Ptr
  log : List Event

/-- What the C code does not come back from: a write past the end of `stack[]`, a loop or a recursion without end. -/
inductive Fault
  | overrun | hang
  deriving DecidableEq

namespace Nodes

def setState (k : Nodes) (p : Ptr) (st : NodeState) : Nodes := { k with state := Function.update k.state p st }

def event (k : Nodes) (kind : EventKind) (p : Ptr) : Nodes :=
  { k with log := k.log ++ [⟨kind, p, k.state, k.registry⟩] }

end Nodes

/-! ## Registration and dependencies -/

def kscopeRegister (node : Option Ptr) (k : Nodes) : Nodes :=
  match node with
  | none => k
  | some p =>
    if !(k.node p).hasName then k
    else if kscopeMaxNodes ≤ k.registry.length then k
    else if k.registry.any (fun q => (k.node q).id == (k.node p).id) then k
    else { k.setState p .registered with registry := k.registry ++ [p] }

def kscopeCheckDeps (k : Nodes) (p : Ptr) : Bool :=
  (k.node p).requires.all (fun req => req.any (fun q => decide (k.state q = .ok)))

/-- `p` is among the nodes that `dep` requires. -/
def requiresNode (k : Nodes) (dep p : Ptr) : Bool := (k.node dep).requires.contains (some p)

/-- The failure goes on to the nodes that have not run yet; the first argument bounds the depth of the recursion. -/
def kscopeMarkFailed : Nat → Ptr → Nodes → Except Fault Nodes
  | 0, _, _ => .error .hang
  | fuel + 1, p, k =>
    k.registry.foldlM
      (fun k dep =>
        if k.state dep = .registered ∧ requiresNode k dep p then kscopeMarkFailed fuel dep k else .ok k)
      (k.setState p .failed)

def markFailed (p : Ptr) (k : Nodes) : Except Fault Nodes := kscopeMarkFailed (k.registry.length + 1) p k

/-! ## The search -/

/-- 0, 1 and 2 in `visited[]`. -/
inductive Mark
  | unvisited | visiting | done
  deriving DecidableEq

/-- The variables of `kscope_topo_sort`; the top of the stack is the head of the list. -/
structure Search where
  visited : Nat → Mark
  stack : List Nat
  outOrder : List Ptr
  k : Nodes

inductive SortResult
  | sorted (f : Search)
  | cycle (k : Nodes)

/-- Push the requirements of `node` that are unvisited.  The flag is `has_unvisited_deps`; a requirement that is not
registered ends the loop with the flag down, whatever has been pushed. -/
def pushRequires (node : Ptr) : List (Option Ptr) → Search → Bool → Except Fault (Search × Bool)
  | [], f, hasUnvisited => .ok (f, hasUnvisited)
  | none :: reqs, f, hasUnvisited => pushRequires node reqs f hasUnvisited
  | some req :: reqs, f, hasUnvisited =>
    if req ∈ f.k.registry then
      let i := f.k.registry.idxOf req
      if f.visited i = .unvisited then
        if kscopeMaxNodes ≤ f.stack.length then .error .overrun
        else pushRequires node reqs { f with stack := i :: f.stack } true
      else pushRequires node reqs f hasUnvisited
    else (markFailed node f.k).map (fun k => ({ f with k := k }, false))

def nodeAt (f : Search) (idx : Nat) : Ptr := f.k.registry.getD idx 0

def failPath (f : Search) : Nodes := (f.stack.map (nodeAt f)).foldl (fun k p => k.setState p .failed) f.k

/-- The requirements of `idx` are resolved. -/
def finish (f : Search) (idx : Nat) : Search :=
  { f with
    visited := Function.update f.visited idx .done
    stack := f.stack.tail
    outOrder := f.outOrder ++ [nodeAt f idx] }

def enter (f : Search) (idx : Nat) : Search := { f with visited := Function.update f.visited idx .visiting }

def expand (f : Search) (idx : Nat) : Except Fault Search :=
  (pushRequires (nodeAt f idx) (f.k.node (nodeAt f idx)).requires (enter f idx) false).map
    (fun r => if r.2 then r.1 else finish r.1 idx)

/-- One turn of the `while` loop. -/
def visit (f : Search) : Search ⊕ Except Fault SortResult :=
  match f.stack with
  | [] => .inr (.ok (.sorted f))
  | idx :: rest =>
    match f.visited idx with
    | .done => .inl { f with stack := rest }
    | .visiting => .inr (.ok (.cycle (failPath f)))
    | .unvisited =>
      match expand f idx with
      | .ok f => .inl f
      | .error e => .inr (.error e)

/-- A turn either visits one more of the 32 nodes or takes an entry off the 32 of the stack. -/
def searchFuel : Nat := (kscopeMaxNodes + 1) * (kscopeMaxNodes + 1) + 1

def search (f : Search) : Except Fault SortResult :=
  match Loop.loop visit searchFuel f with
  | some r => r
  | none => .error .hang

def searchAll : List Nat → Search → Except Fault SortResult
  | [], f => .ok (.sorted f)
  | i :: is, f =>
    if f.visited i = .done then searchAll is f
    else
      match search { f with stack := [i] } with
      | .ok (.sorted f) => searchAll is f
      | r => r

def kscopeTopoSort (k : Nodes) : Except Fault SortResult :=
  searchAll (List.range k.registry.length) ⟨fun _ => .unvisited, [], [], k⟩

/-! ## Probing and shutting down -/

def setOk (p : Ptr) (k : Nodes) : Nodes := (k.setState p .ok).event .ok p

/-- `result p` is what the init callback of `p` returns. -/
def probeNode (result : Ptr → Int) (k : Nodes) (p : Ptr) : Except Fault Nodes :=
  if k.state p ≠ .registered then .ok k
  else if !kscopeCheckDeps k p then markFailed p k
  else if !(k.node p).hasInit then .ok (setOk p k)
  else
    let k := (k.setState p .probing).event .init p
    if result p ≠ 0 then markFailed p k else .ok (setOk p k)

def kscopeProbeAll (result : Ptr → Int) (k : Nodes) : Except Fault Nodes :=
  (kscopeTopoSort k).bind fun
    | .cycle k => .ok k
    | .sorted f => f.outOrder.foldlM (probeNode result) f.k

def shutdownNode (k : Nodes) (p : Ptr) : Nodes :=
  if k.state p ≠ .ok then k
  else (if (k.node p).hasShutdown then k.event .shutdown p else k).setState p .registered

def kscopeShutdownAll (k : Nodes) : Except Fault Nodes :=
  (kscopeTopoSort k).map fun
    | .cycle k => k
    | .sorted f => f.outOrder.reverse.foldl shutdownNode f.k

/-! ## Calls -/

inductive Call
  | register (node : Option Ptr)
  | probeAll (result : Ptr → Int)
  | shutdownAll

def Call.run (k : Nodes) : Call → Except Fault Nodes
  | .register node => .ok (kscopeRegister node k)
  | .probeAll result => kscopeProbeAll result k
  | .shutdownAll => kscopeShutdownAll k

/-- The empty registry, over nodes whose states are as their owners left them. -/
def boot (node : Ptr → Node) (state : Ptr → NodeState) : Nodes := ⟨node, state, [], []⟩

end Kscope
end AmitX
