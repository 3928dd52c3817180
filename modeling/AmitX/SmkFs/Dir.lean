import AmitX.SmkFs.BtreeDelete
import AmitX.SmkFs.RecordFree
/-!
# Dir — directories (`dir.c`)

The `DATA` attribute of a directory's record is the root block of its tree.  Creating, deleting and renaming run in a
transaction; an error aborts it, which takes back nothing that has been written in place.
-/
namespace AmitX
namespace SmkFs

open Prog

/-- The record that a directory has under a name; the search makes at most `n` turns. -/
def smkfsLookupByName (n dirRecord : Nat) (name : CStr) : FsM Nat := do
  let mem ← getMem
  failIf (mem.mounted = false) .inval
  let (rec, attrs) ← (recordRead dirRecord).orThrow .io
  failIf (rec.objectType ≠ .dir) .inval
  match recordFindAttr .data attrs with
  | none => throw .notfound
  | some rootBlock => btreeSearchWithin n rootBlock.asU64 name

/-! ## Creating -/

/-- The root of a new directory's tree; its header says root, its flags do not. -/
def emptyLeaf : BtreeNode := ⟨true, false, 0, 0, []⟩

/-- Give back a new record and say `io`. -/
def createRefuse {α : Type} (newId : Nat) : FsM α := do
  recordFree newId
  throw .io

def createUndo {α : Type} (newId btreeRoot : Nat) : FsM α := do
  when (btreeRoot ≠ 0) (bitmapClear btreeRoot).ignore
  createRefuse newId

def createTree (newId : Nat) : FsM Nat := do
  let leaf ← malloc
  if leaf = false then createRefuse newId
  else do
    let block ← bitmapAlloc
    if block = 0 then createRefuse newId
    else (writeBlock block (.node emptyLeaf)).elseDo (createUndo newId block) (fun _ => pure block)

/-- The attributes after `record_add_attr`, whose status is not looked at. -/
def addAttr (type : AttrType) (data : AttrData) (attrs : List Attr) : List Attr :=
  (recordAddAttr attrBufSize type data attrs).2

def createAttrs (parentDir btreeRoot : Nat) : List Attr :=
  let attrs := addAttr .parent (.u64 parentDir) []
  if btreeRoot ≠ 0 then addAttr .data (.u64 btreeRoot) attrs else attrs

/-- Enter a new record in its parent and write the two records.  Where the parent cannot be written, the block of the new
tree is not given back and the name stays in the parent's tree. -/
def createEnter (n : Nat) (objectType : ObjectType) (parentDir : Nat) (name : CStr) (newId generation btreeRoot : Nat) :
    FsM Unit :=
  (recordRead parentDir).elseDo (createUndo newId btreeRoot) (fun (parentRec, parentAttrs) =>
    match recordFindAttr .data parentAttrs with
    | none => createUndo newId btreeRoot
    | some parentBtree =>
      (btreeInsertWithin n parentBtree.asU64 name newId).elseDo (createUndo newId btreeRoot) (fun newRoot =>
        (recordWrite newId ⟨newId, objectType, if btreeRoot ≠ 0 then 2 else 1, 1, generation, false⟩
          (createAttrs parentDir btreeRoot)).elseDo (createUndo newId btreeRoot) (fun _ =>
            (recordWrite parentDir parentRec (addAttr .data (.u64 newRoot) parentAttrs)).elseDo (createRefuse newId)
              (fun _ => pure ()))))

/-- What a create does in its transaction; every error is `io`. -/
def createBody (n : Nat) (objectType : ObjectType) (parentDir : Nat) (name : CStr) : FsM Nat := do
  let m ← getMem
  failIf (m.mounted = false) .io
  let newId ← recordAlloc objectType
  failIf (newId = 0) .io
  let entry ← (mrtResolve newId).orThrow .io
  let btreeRoot ← (if objectType = .dir then createTree newId else pure 0)
  createEnter n objectType parentDir name newId entry.generation btreeRoot
  pure newId

def smkfsCreateRecord (n : Nat) (objectType : ObjectType) (parentDir : Nat) (name : CStr) : FsM Nat := do
  journalStartTransaction.orThrow .journal
  let parentAttr ← malloc
  let newAttr ← malloc
  if parentAttr = false ∨ newAttr = false then do
    journalCommit.ignore
    throw .nomem
  else do
    let newId ← abortOnError (createBody n objectType parentDir name)
    journalCommit.ignore
    pure newId

/-! ## Deleting -/

/-- `btree_node_read`, into a payload buffer of `payloadSize` bytes. -/
def btreeNodeRead (block payloadSize : Nat) : FsM BtreeNode := do
  failIf (block = 0) .inval
  let raw ← malloc
  failIf (raw = false) .nomem
  let node ← btreeLoad block
  failIf (payloadSize < node.entries.length * btreeEntrySize) .tooBig
  pure node

/-- Whether the root node of a directory has entries; a root that cannot be read has none. -/
def dirHasEntries (attrs : List Attr) : FsM Bool :=
  match recordFindAttr .data attrs with
  | none => pure false
  | some dirBtree => (btreeNodeRead dirBtree.asU64 (64 * btreeEntrySize)).elseDo (pure false)
      (fun node => pure (decide (0 < node.entries.length)))

def dirRemove (n parentDir : Nat) (name : CStr) : FsM Unit := do
  let (parentRec, parentAttrs) ← (recordRead parentDir).orThrow .io
  match recordFindAttr .data parentAttrs with
  | none => throw .notfound
  | some parentBtree => do
    let newRoot ← btreeDeleteWithin n parentBtree.asU64 name
    let parentAttrs ← (onAttrs (recordAddAttr attrBufSize .data (.u64 newRoot)) parentAttrs).orThrow .nospc
    (recordWrite parentDir parentRec parentAttrs).orThrow .io

def deleteLink (recordId : Nat) (rec : Record) (attrs : List Attr) : FsM Unit :=
  let linkCount := (if rec.linkCount = 0 then 1 else rec.linkCount) - 1
  if linkCount = 0 then recordFree recordId
  else (recordWrite recordId { rec with linkCount := linkCount } attrs).orThrow .io

def smkfsDeleteRecord (n parentDir : Nat) (name : CStr) (recordId : Nat) : FsM Unit := do
  let m ← getMem
  failIf (m.mounted = false ∨ recordId = 0) .inval
  let (rec, attrs) ← (recordRead recordId).orThrow .io
  let full ← (if rec.objectType = .dir then dirHasEntries attrs else pure false)
  failIf (full = true) .notempty
  journalStartTransaction.orThrow .journal
  abortOnError (do
    dirRemove n parentDir name
    deleteLink recordId rec attrs)
  journalCommit.orThrow .journal

/-! ## Renaming -/

def dirInsert (n parentDir : Nat) (name : CStr) (recordId : Nat) : FsM Unit := do
  let (parentRec, parentAttrs) ← (recordRead parentDir).orThrow .io
  match recordFindAttr .data parentAttrs with
  | none => throw .notfound
  | some parentBtree => do
    let newRoot ← (btreeInsertWithin n parentBtree.asU64 name recordId).orThrow .nospc
    let parentAttrs ← (onAttrs (recordAddAttr attrBufSize .data (.u64 newRoot)) parentAttrs).orThrow .nospc
    (recordWrite parentDir parentRec parentAttrs).orThrow .io

/-- Point the record at its new parent, as it was read before the transaction. -/
def renameParent (newParent recordId : Nat) (rec : Record) (attrs : List Attr) : FsM Unit := do
  let attrs ← (onAttrs (recordAddAttr attrBufSize .parent (.u64 newParent)) attrs).orThrow .nospc
  (recordWrite recordId rec attrs).orThrow .io

def smkfsRename (n oldParent : Nat) (oldName : CStr) (newParent : Nat) (newName : CStr) (recordId : Nat) : FsM Unit := do
  let m ← getMem
  failIf (m.mounted = false ∨ recordId = 0) .inval
  let (rec, attrs) ← (recordRead recordId).orThrow .io
  journalStartTransaction.orThrow .journal
  abortOnError (do
    dirRemove n oldParent oldName
    dirInsert n newParent newName recordId
    renameParent newParent recordId rec attrs)
  journalCommit.orThrow .journal

end SmkFs
end AmitX
