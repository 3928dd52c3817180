import AmitX.SmkFs.Path
/-!
# PathOps — calls by path (`file.c`, `link.c`, `inode.c`)

What the callers of the file system use: each looks its path up and hands over to the calls on records.  A file is created
in one transaction and gets its permissions in a second one.
-/
namespace AmitX
namespace SmkFs

open Prog

def smkfsSetattr (recordId : Nat) (type : AttrType) (data : AttrData) : FsM Unit := do
  let m ← getMem
  failIf (m.mounted = false ∨ recordId = 0) .inval
  let (rec, attrs) ← (recordRead recordId).orThrow .io
  journalStartTransaction.orThrow .journal
  let attrs ← orAbort (onAttrs (recordAddAttr attrBufSize type data) attrs) .nospc
  abortOnError (recordWrite recordId { rec with attrCount := attrs.length } attrs)
  journalCommit.orThrow .journal

def createPermissions (newRecord permissions : Nat) : FsM Unit := do
  journalStartTransaction.orThrow .journal
  let (rec, attrs) ← orAbort (recordRead newRecord) .io
  let attrs ← orAbort (onAttrs (recordAddAttr attrBufSize .permissions (.u16 permissions)) attrs) .nospc
  abortOnError (recordWrite newRecord { rec with attrCount := rec.attrCount + 1 } attrs)
  journalCommit.orThrow .journal

def smkfsCreateFile (n : Nat) (driveNum : UInt8) (path : CStr) (permissions : Nat) : FsM Unit := do
  let m ← getMem
  failIf (m.mounted = false ∨ ¬pathValid path) .inval
  let (parent, name) ← (pathSplit n driveNum path).orThrow .notfound
  let newRecord ← (smkfsCreateRecord n .file parent name).orThrow .nospc
  createPermissions newRecord permissions

def smkfsMkdir (n : Nat) (driveNum : UInt8) (path : CStr) : FsM Nat := do
  let m ← getMem
  failIf (m.mounted = false ∨ ¬pathValid path) .inval
  let (parent, name) ← (pathSplit n driveNum path).orThrow .notfound
  smkfsCreateRecord n .dir parent name

/-- `smkfs_delete_file` and `smkfs_rmdir` are one text: neither looks at the type of the record. -/
def deletePath (n : Nat) (driveNum : UInt8) (path : CStr) : FsM Unit := do
  let m ← getMem
  failIf (m.mounted = false ∨ ¬pathValid path) .inval
  let recordId ← (pathLookup n driveNum path).orThrow .notfound
  let (parent, name) ← (pathSplit n driveNum path).orThrow .inval
  smkfsDeleteRecord n parent name recordId

def smkfsDeleteFile : Nat → UInt8 → CStr → FsM Unit := deletePath

def smkfsRmdir : Nat → UInt8 → CStr → FsM Unit := deletePath

/-- Directories are left to `smkfs_rmdir`. -/
def smkfsUnlink (n : Nat) (driveNum : UInt8) (path : CStr) : FsM Unit := do
  let m ← getMem
  failIf (m.mounted = false ∨ ¬pathValid path) .inval
  let recordId ← (pathLookup n driveNum path).orThrow .notfound
  let (parent, name) ← (pathSplit n driveNum path).orThrow .inval
  let (rec, _) ← (recordRead recordId).orThrow .io
  failIf (rec.objectType = .dir) .inval
  smkfsDeleteRecord n parent name recordId

def linkEnter (n parentDir : Nat) (name : CStr) (recordId : Nat) : FsM Unit := do
  let (parentRec, parentAttrs) ← (recordRead parentDir).orThrow .io
  match recordFindAttr .data parentAttrs with
  | none => throw .notfound
  | some parentBtree => do
    let newRoot ← (btreeInsertWithin n parentBtree.asU64 name recordId).orThrow .nospc
    (recordWrite parentDir parentRec (addAttr .data (.u64 newRoot) parentAttrs)).orThrow .io

def linkBody (n : Nat) (driveNum : UInt8) (existingPath newPath : CStr) : FsM Unit := do
  let m ← getMem
  failIf (m.mounted = false ∨ ¬pathValid existingPath ∨ ¬pathValid newPath) .inval
  let existingId ← (pathLookup n driveNum existingPath).orThrow .notfound
  let (rec, attrs) ← (recordRead existingId).orThrow .io
  failIf (rec.objectType = .dir) .inval
  let taken ← (pathLookup n driveNum newPath).attempt
  failIf (taken.isOk = true) .exists_
  let (newParent, newName) ← (pathSplit n driveNum newPath).orThrow .inval
  journalStartTransaction.orThrow .journal
  linkEnter n newParent newName existingId
  (recordWrite existingId { rec with linkCount := add32 rec.linkCount 1 } attrs).orThrow .io

def smkfsLink (n : Nat) (driveNum : UInt8) (existingPath newPath : CStr) : FsM Unit := do
  abortOnError (linkBody n driveNum existingPath newPath)
  journalCommit.ignore

end SmkFs
end AmitX
