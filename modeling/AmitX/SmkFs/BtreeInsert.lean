import AmitX.SmkFs.Btree
import AmitX.SmkFs.Alloc
/-!
# BtreeInsert — inserting into the directory's B+ tree (`btree.c`, second part)

An insert goes down to a leaf by the fence keys.  A full node is split before its parent is looked at again: the left
half stays in the block, the right half goes to a new block, and the parent takes up the new block or is split in turn;
when the root has been split a new root is put above the two halves.
-/
namespace AmitX
namespace SmkFs

open Prog

/-- The key as `btree_key_copy` stores it. -/
def btreeKeyCopy (src : CStr) : CStr := src.take (nameLen - 1)

/-- `length` of the header of a node. -/
def btreeNodeLength (node : BtreeNode) : Nat := btreeNodeSize + node.entries.length * btreeEntrySize

/-- The first key of a node; the zeros of a node without entries read as the empty string. -/
def btreeFirstKey (entries : List BtreeEntry) : CStr := (entries.head?.map BtreeEntry.key).getD ⟨[], by simp⟩

/-- Log a node and write it back.  What the block held before is read for the journal, which ignores it. -/
def btreeStore (block : Nat) (node : BtreeNode) : FsM Unit := do
  failIf (block = 0) .inval
  let oldRaw ← malloc
  failIf (oldRaw = false) .nomem
  (readBlock block).ignore
  journalLogWrite block (.node node) (btreeNodeLength node)
  (writeBlock block (.node node)).orThrow .io

/-- Point a child's `parent_block` at a new parent. -/
def btreeSetParent (block parent : Nat) : FsM Unit := do
  let raw ← malloc
  failIf (raw = false) .nomem
  let node ← btreeLoad block
  btreeStore block { node with parentBlock := parent }

/-- How an insertion into a subtree ends when no call fails but `bitmap_alloc`: it found no block, or the subtree has
its key, or its top was split and the parent has to take up the new block. -/
inductive InsertEnd
  | noBlock
  | done
  | split (rightBlock : Nat) (sepKey : CStr)
  deriving DecidableEq

def btreeLeafSplitInsert (block : Nat) (node : BtreeNode) (pos : Nat) (key : CStr) (value : Nat) : FsM InsertEnd := do
  let total := node.entries.length + 1
  let leftCount := total / 2
  let tmp ← malloc
  let rightRaw ← malloc
  failIf (tmp = false ∨ rightRaw = false) .nomem
  let merged := node.entries.insertIdx pos ⟨btreeKeyCopy key, value⟩
  let rightBlock ← bitmapAlloc
  if rightBlock = 0 then pure .noBlock
  else do
    btreeStore block { node with entries := merged.take leftCount, rightSibling := rightBlock }
    btreeStore rightBlock ⟨true, false, node.parentBlock, node.rightSibling, merged.drop leftCount⟩
    pure (.split rightBlock (btreeKeyCopy (btreeFirstKey (merged.drop leftCount))))

def btreeLeafInsert (block : Nat) (node : BtreeNode) (key : CStr) (value : Nat) : FsM InsertEnd :=
  let pos := btreeLeafLowerBound key node.entries
  let found := (node.entries[pos]?).filter (fun e => strcmp e.key key = 0)
  match found with
  | some e => do
    btreeStore block { node with entries := node.entries.set pos ⟨e.key, value⟩ }
    pure .done
  | none =>
    if btreeMax ≤ node.entries.length then btreeLeafSplitInsert block node pos key value
    else do
      btreeStore block { node with entries := node.entries.insertIdx pos ⟨btreeKeyCopy key, value⟩ }
      pure .done

/-- Split a full index node; the children that move to the right get the new block as their parent first. -/
def btreeIndexSplitInsert (block : Nat) (node : BtreeNode) (pos : Nat) (sep : CStr) (rightBlock : Nat) :
    FsM InsertEnd := do
  let total := node.entries.length + 1
  let leftCount := total / 2
  let tmp ← malloc
  let rightRaw ← malloc
  failIf (tmp = false ∨ rightRaw = false) .nomem
  let merged := node.entries.insertIdx pos ⟨btreeKeyCopy sep, rightBlock⟩
  let newBlock ← bitmapAlloc
  if newBlock = 0 then pure .noBlock
  else do
    forEach (fun e => btreeSetParent e.value newBlock) (merged.drop leftCount)
    btreeStore block { node with entries := merged.take leftCount }
    btreeStore newBlock ⟨node.leaf, false, node.parentBlock, 0, merged.drop leftCount⟩
    pure (.split newBlock (btreeKeyCopy (btreeFirstKey (merged.drop leftCount))))

def btreeTakeSplit (block : Nat) (node : BtreeNode) (rightBlock : Nat) (sep : CStr) : FsM InsertEnd :=
  let pos := btreeLeafLowerBound sep node.entries
  if btreeMax ≤ node.entries.length then btreeIndexSplitInsert block node pos sep rightBlock
  else do
    btreeStore block { node with entries := node.entries.insertIdx pos ⟨btreeKeyCopy sep, rightBlock⟩ }
    pure .done

/-- Insert into an index node: `insertRec` inserts into a child.  A key below the child's fence becomes its fence.  The
first entry of a node without entries is the zeros behind its header. -/
def btreeIndexInsert (insertRec : Nat → FsM InsertEnd) (block : Nat) (node : BtreeNode) (key : CStr) :
    FsM InsertEnd := do
  let childIdx := btreeIndexChild key node.entries
  let child := (node.entries[childIdx]?).getD ⟨⟨[], by simp⟩, 0⟩
  let fixFence : Bool := strcmp key child.key < 0
  let entries := if fixFence then node.entries.set childIdx ⟨btreeKeyCopy key, child.value⟩ else node.entries
  let result ← insertRec child.value
  match result with
  | .noBlock => pure .noBlock
  | .done =>
    if fixFence then do
      btreeStore block { node with entries := entries }
      pure .done
    else pure .done
  | .split rightBlock sep => btreeTakeSplit block { node with entries := entries } rightBlock sep

/-- Insert below a block, through at most `n` levels. -/
def btreeInsertRec (key : CStr) (value : Nat) : Nat → Nat → FsM InsertEnd
  | 0, _ => throw .diverge
  | n + 1, block => do
    let raw ← malloc
    failIf (raw = false) .nomem
    let node ← btreeLoad block
    if node.leaf then btreeLeafInsert block node key value
    else btreeIndexInsert (btreeInsertRec key value n) block node key

def btreeGrowRoot (rootBlock rightBlock : Nat) (sep : CStr) : FsM (Option Nat) := do
  let newBlock ← bitmapAlloc
  if newBlock = 0 then pure none
  else do
    let raw ← malloc
    failIf (raw = false) .nomem
    let node ← btreeLoad rootBlock
    let leftLow := btreeKeyCopy (btreeFirstKey node.entries)
    btreeStore rootBlock { node with root := false, parentBlock := newBlock }
    btreeSetParent rightBlock newBlock
    btreeStore newBlock ⟨false, true, 0, 0, [⟨leftLow, rootBlock⟩, ⟨btreeKeyCopy sep, rightBlock⟩]⟩
    pure (some newBlock)

def btreeFirstNode (key : CStr) (value : Nat) : FsM (Option Nat) := do
  let newBlock ← bitmapAlloc
  if newBlock = 0 then pure none
  else do
    let raw ← malloc
    failIf (raw = false) .nomem
    btreeStore newBlock ⟨true, true, 0, 0, [⟨btreeKeyCopy key, value⟩]⟩
    pure (some newBlock)

/-- The new root after an insert, or none where `bitmap_alloc` found no block. -/
def btreeTryInsertWithin (n rootBlock : Nat) (key : CStr) (value : Nat) : FsM (Option Nat) := do
  failIf (key.bytes = []) .inval
  failIf (btreeMaxKey < key.strlen) .tooBig
  if rootBlock = 0 then btreeFirstNode key value
  else do
    let result ← btreeInsertRec key value n rootBlock
    match result with
    | .noBlock => pure none
    | .done => pure (some rootBlock)
    | .split rightBlock sep => btreeGrowRoot rootBlock rightBlock sep

/-- Every call of `bitmap_alloc` that finds no block ends the insert with `SMKFS_ERR_NOSPC`. -/
def btreeInsertWithin (n rootBlock : Nat) (key : CStr) (value : Nat) : FsM Nat := do
  let newRoot ← btreeTryInsertWithin n rootBlock key value
  match newRoot with
  | none => throw .nospc
  | some newRoot => pure newRoot

end SmkFs
end AmitX
