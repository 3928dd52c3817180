import AmitX.SmkFs.BtreeInsert
/-!
# BtreeDelete — deleting from the directory's B+ tree (`btree.c`, third part)

A delete takes the key out of its leaf and then goes up: a child with too few entries borrows one from a sibling that can
spare it, or is merged with one and the block of the right one is freed.  The nodes are stored as they are done, so that
an error on the way up leaves the key deleted.
-/
namespace AmitX
namespace SmkFs

open Prog

/-- Entry `i` of a node; the zeros behind its entries are the empty name and block 0. -/
def BtreeNode.entryAt (node : BtreeNode) (i : Nat) : BtreeEntry := (node.entries[i]?).getD ⟨⟨[], CStr.nil_nonzero⟩, 0⟩

def BtreeNode.setFence (node : BtreeNode) (i : Nat) (key : CStr) : BtreeNode :=
  { node with entries := node.entries.set i ⟨btreeKeyCopy key, (node.entryAt i).value⟩ }

def btreeRefreshFence (parent : BtreeNode) (childIdx : Nat) : FsM BtreeNode := do
  let childRaw ← malloc
  failIf (childRaw = false) .nomem
  let child ← btreeLoad (parent.entryAt childIdx).value
  pure (if child.entries = [] then parent else parent.setFence childIdx (btreeFirstKey child.entries))

def btreeBorrowLeft (parent child left : BtreeNode) (childIdx childBlock leftBlock : Nat) : FsM BtreeNode := do
  let moved := left.entryAt (left.entries.length - 1)
  when (child.leaf = false) (btreeSetParent moved.value childBlock)
  btreeStore leftBlock { left with entries := left.entries.dropLast }
  btreeStore childBlock { child with entries := moved :: child.entries }
  pure (parent.setFence childIdx moved.key)

def btreeBorrowRight (parent child right : BtreeNode) (childIdx childBlock rightBlock : Nat) : FsM BtreeNode := do
  let moved := right.entryAt 0
  when (child.leaf = false) (btreeSetParent moved.value childBlock)
  btreeStore childBlock { child with entries := child.entries ++ [moved] }
  btreeStore rightBlock { right with entries := right.entries.tail }
  pure (parent.setFence (childIdx + 1) (btreeFirstKey right.entries.tail))

/-- The left node takes the entries of the right one, whose block is freed and whose fence goes.  Whether the two are
leaves is read from the child. -/
def btreeMerge (leaf : Bool) (parent left right : BtreeNode) (rightIdx leftBlock rightBlock : Nat) : FsM BtreeNode := do
  when (leaf = false) (forEach (fun e => btreeSetParent e.value leftBlock) right.entries)
  (bitmapFreeRange rightBlock 1).ignore
  btreeStore leftBlock { left with
    entries := left.entries ++ right.entries
    rightSibling := if leaf then right.rightSibling else left.rightSibling }
  pure { parent with entries := parent.entries.eraseIdx rightIdx }

def btreeLoadSibling (block : Nat) : FsM BtreeNode := do
  let sibRaw ← malloc
  failIf (sibRaw = false) .nomem
  btreeLoad block

def btreeMergeChild (parent child : BtreeNode) (childIdx childBlock leftBlock rightBlock : Nat) : FsM BtreeNode :=
  if leftBlock ≠ 0 then do
    let left ← btreeLoadSibling leftBlock
    btreeMerge child.leaf parent left child childIdx leftBlock childBlock
  else do
    let right ← btreeLoadSibling rightBlock
    btreeMerge child.leaf parent child right (childIdx + 1) childBlock rightBlock

/-- Borrow from the right sibling if there is one that can spare an entry, or merge. -/
def btreeFixFromRight (parent child : BtreeNode) (childIdx childBlock leftBlock rightBlock : Nat) : FsM BtreeNode :=
  if rightBlock ≠ 0 then do
    let right ← btreeLoadSibling rightBlock
    if btreeMin < right.entries.length then btreeBorrowRight parent child right childIdx childBlock rightBlock
    else btreeMergeChild parent child childIdx childBlock leftBlock rightBlock
  else btreeMergeChild parent child childIdx childBlock leftBlock rightBlock

def btreeFixUnderflow (parent : BtreeNode) (childIdx : Nat) : FsM BtreeNode := do
  let childBlock := (parent.entryAt childIdx).value
  let leftBlock := if 0 < childIdx then (parent.entryAt (childIdx - 1)).value else 0
  let rightBlock := if childIdx + 1 < parent.entries.length then (parent.entryAt (childIdx + 1)).value else 0
  failIf (leftBlock = 0 ∧ rightBlock = 0) .corrupt
  let childRaw ← malloc
  failIf (childRaw = false) .nomem
  let child ← btreeLoad childBlock
  if leftBlock ≠ 0 then do
    let left ← btreeLoadSibling leftBlock
    if btreeMin < left.entries.length then btreeBorrowLeft parent child left childIdx childBlock leftBlock
    else btreeFixFromRight parent child childIdx childBlock leftBlock rightBlock
  else btreeFixFromRight parent child childIdx childBlock leftBlock rightBlock

def btreeUnderflows (isRoot : Bool) (node : BtreeNode) : Bool := !isRoot && decide (node.entries.length < btreeMin)

def btreeLeafDelete (block : Nat) (node : BtreeNode) (key : CStr) (isRoot : Bool) : FsM Bool :=
  let pos := btreeLeafLowerBound key node.entries
  match (node.entries[pos]?).filter (fun e => strcmp e.key key = 0) with
  | none => throw .notfound
  | some _ => do
    let node := { node with entries := node.entries.eraseIdx pos }
    btreeStore block node
    pure (btreeUnderflows isRoot node)

def staleFence (node : BtreeNode) (childIdx childBlock : Nat) (key : CStr) : Bool :=
  decide (childIdx < node.entries.length ∧ (node.entryAt childIdx).value = childBlock ∧
    strcmp key (node.entryAt childIdx).key = 0)

/-- Delete below an index node: `deleteRec` deletes in a child and says whether it has too few entries. -/
def btreeIndexDelete (deleteRec : Nat → FsM Bool) (block : Nat) (node : BtreeNode) (key : CStr) (isRoot : Bool) :
    FsM Bool := do
  failIf (node.entries = []) .corrupt
  let childIdx := btreeIndexChild key node.entries
  let childBlock := (node.entryAt childIdx).value
  let childUnderflow ← deleteRec childBlock
  let fixed ← (if childUnderflow then btreeFixUnderflow node childIdx else pure node)
  let stale := staleFence fixed childIdx childBlock key
  let fresh ← (if stale then btreeRefreshFence fixed childIdx else pure fixed)
  when (childUnderflow = true ∨ stale = true) (btreeStore block fresh)
  pure (btreeUnderflows isRoot fresh)

/-- Delete below a block, through at most `n` levels; whether the block has too few entries then. -/
def btreeDeleteRec (key : CStr) : Nat → Nat → Bool → FsM Bool
  | 0, _, _ => throw .diverge
  | n + 1, block, isRoot => do
    let raw ← malloc
    failIf (raw = false) .nomem
    let node ← btreeLoad block
    if node.leaf then btreeLeafDelete block node key isRoot
    else btreeIndexDelete (fun child => btreeDeleteRec key n child false) block node key isRoot

def btreePromote (rootBlock child : Nat) : FsM Nat := do
  let childRaw ← malloc
  failIf (childRaw = false) .nomem
  let node ← btreeLoad child
  btreeStore child { node with root := true, parentBlock := 0 }
  (bitmapFreeRange rootBlock 1).ignore
  pure child

def btreeDeleteWithin (n rootBlock : Nat) (key : CStr) : FsM Nat := do
  failIf (rootBlock = 0) .inval
  let _ ← btreeDeleteRec key n rootBlock true
  let raw ← malloc
  failIf (raw = false) .nomem
  let node ← btreeLoad rootBlock
  if node.leaf = false ∧ node.entries.length = 1 then btreePromote rootBlock (node.entryAt 0).value
  else pure rootBlock

end SmkFs
end AmitX
