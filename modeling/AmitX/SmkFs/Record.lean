import AmitX.SmkFs.Attr
import AmitX.SmkFs.Mrt
/-!
# Record — records and their blocks (`record.c`)

A record lives in the block its MRT slot is bound to.  A read accepts it only with the generation of the slot; a write
logs the new image and then writes it in place.
-/
namespace AmitX
namespace SmkFs

open Prog

def recordRead (recordId : Nat) : FsM (Record × List Attr) := do
  let buf ← malloc
  failIf (buf = false) .nomem
  let entry ← mrtResolve recordId
  let x ← (readBlock entry.physicalBlock).orThrow .io
  match x with
  | .record rec attrs => do
    failIf (rec.generation ≠ entry.generation) .corrupt
    pure (rec, attrs)
  | _ => throw .corrupt

/-- The old image, read and dropped, is what `journal_log_write` ignores. -/
def recordWrite (recordId : Nat) (rec : Record) (attrs : List Attr) : FsM Unit := do
  failIf (attrBufSize < attrBufTotalLen attrs) .tooBig
  let buf ← malloc
  let oldBuf ← malloc
  failIf (buf = false ∨ oldBuf = false) .nomem
  let entry ← mrtResolve recordId
  (readBlock entry.physicalBlock).ignore
  journalLogWrite entry.physicalBlock (.record rec attrs) (recordSize + attrBufTotalLen attrs)
  (writeBlock entry.physicalBlock (.record rec attrs)).orThrow .io

def Mem.mapRecordCount (f : Nat → Nat) (m : Mem) : Mem := { m with sb.recordCount := f m.sb.recordCount }

def recordUnbind (block recordId : Nat) : FsM Nat := do
  (bitmapClear block).ignore
  (mrtFreeEntry recordId).ignore
  pure 0

def recordBind (objectType : ObjectType) (recordId generation block : Nat) : FsM Nat :=
  (mrtUpdateEntry recordId block mrtfAllocated).elseDo (recordUnbind block recordId) (fun _ =>
    (recordWrite recordId ⟨recordId, objectType, 0, 1, generation, false⟩ []).elseDo (recordUnbind block recordId)
      (fun _ => do
        modifyMem (Mem.mapRecordCount (fun n => add64 n 1))
        pure recordId))

def recordAlloc (objectType : ObjectType) : FsM Nat :=
  mrtAllocEntry.elseDo (pure 0) (fun (recordId, generation) => do
    let block ← bitmapAlloc
    if block = 0 then do
      (mrtFreeEntry recordId).ignore
      pure 0
    else recordBind objectType recordId generation block)

end SmkFs
end AmitX
