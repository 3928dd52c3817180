import AmitX.SmkFs.Record
/-!
# Btree — the directory's B+ tree (`btree.c`)

A search goes down from the root by the fence keys; an iteration goes down to the first leaf and then follows the right
siblings.  The loops of the source have no bound; `…Within n` makes at most `n` turns of each.
-/
namespace AmitX
namespace SmkFs

open Prog

/-- Read a node; every node read is one that was stored, with no more entries than fit. -/
def btreeLoad (block : Nat) : FsM BtreeNode := do
  failIf (block = 0) .inval
  let x ← (readBlock block).orThrow .io
  match x with
  | .node node => do
    failIf (btreeMax < node.entries.length) .corrupt
    pure node
  | _ => throw .corrupt

/-- First leaf slot whose key is not below `key`; the number of keys if all are below. -/
def btreeLeafLowerBound (key : CStr) : List BtreeEntry → Nat
  | [] => 0
  | e :: entries => if strcmp e.key key < 0 then btreeLeafLowerBound key entries + 1 else 0

/-- The child with the largest fence key up to `key`, or the first. -/
def btreeIndexChild (key : CStr) : List BtreeEntry → Nat
  | _ :: e :: entries => if strcmp e.key key ≤ 0 then btreeIndexChild key (e :: entries) + 1 else 0
  | _ => 0

theorem btreeIndexChild_lt (key : CStr) : ∀ {entries : List BtreeEntry}, entries ≠ [] →
    btreeIndexChild key entries < entries.length
  | [_], _ => Nat.one_pos
  | _ :: e :: entries, _ => by
    rw [btreeIndexChild, List.length_cons]
    have := btreeIndexChild_lt key (List.cons_ne_nil e entries)
    split <;> omega

def btreeLeafLookup (key : CStr) (entries : List BtreeEntry) : FsM Nat :=
  match entries[btreeLeafLowerBound key entries]? with
  | some e => if strcmp e.key key = 0 then pure e.value else throw .notfound
  | none => throw .notfound

def btreeDescend (key : CStr) : Nat → Nat → FsM Nat
  | 0, _ => throw .diverge
  | n + 1, block => do
    let node ← btreeLoad block
    if node.leaf then btreeLeafLookup key node.entries
    else match node.entries[btreeIndexChild key node.entries]? with
      | none => throw .corrupt
      | some e => btreeDescend key n e.value

def btreeSearchWithin (n root : Nat) (key : CStr) : FsM Nat := do
  failIf (root = 0) .inval
  let raw ← malloc
  failIf (raw = false) .nomem
  btreeDescend key n root

def btreeFirstLeaf : Nat → Nat → FsM Nat
  | 0, _ => throw .diverge
  | n + 1, block => do
    let node ← btreeLoad block
    if node.leaf then pure block
    else match node.entries with
      | [] => throw .corrupt
      | e :: _ => btreeFirstLeaf n e.value

section

variable {χ : Type} (cb : CStr → Nat → χ → Int × χ)

def visitEntries : List BtreeEntry → χ → Int × χ
  | [], ctx => (0, ctx)
  | e :: entries, ctx =>
    let r := cb e.key e.value ctx
    if r.1 ≠ 0 then r else visitEntries entries r.2

def btreeVisitLeaves : Nat → Nat → χ → FsM (Int × χ)
  | 0, _, _ => throw .diverge
  | n + 1, block, ctx =>
    if block = 0 then pure (0, ctx)
    else do
      let node ← btreeLoad block
      failIf (node.leaf = false) .corrupt
      let r := visitEntries cb node.entries ctx
      if r.1 ≠ 0 then pure r else btreeVisitLeaves n node.rightSibling r.2

/-- Visit every key and value in the order of the keys; the result is the status and what the calls left behind. -/
def btreeIterateWithin (n root : Nat) (ctx : χ) : FsM (Int × χ) := do
  failIf (root = 0) .inval
  let raw ← malloc
  failIf (raw = false) .nomem
  let leaf ← btreeFirstLeaf n root
  btreeVisitLeaves cb n leaf ctx

end

def btreeDumpRecursive : Nat → Nat → FsM Unit
  | 0, _ => throw .diverge
  | n + 1, block =>
    if block = 0 then pure ()
    else do
      let raw ← malloc
      if raw = false then pure ()
      else (btreeLoad block).elseDo (pure ()) (fun node =>
        if node.leaf then pure () else forEach (fun e => btreeDumpRecursive n e.value) node.entries)

end SmkFs
end AmitX
