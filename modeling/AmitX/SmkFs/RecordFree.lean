import AmitX.SmkFs.File
/-!
# RecordFree — giving a record back (`record.c`, `extent.c`)

`record_free` frees the blocks of the extents that a table of 32 holds, marks the record deleted, and frees its block and
its slot.  It reports no error: whatever fails, it goes on.
-/
namespace AmitX
namespace SmkFs

open Prog

def extentRemoveCb : Nat → AttrData → List Extent → Int × List Extent := collectCb

/-- Free the blocks of the extents in the table, and drop one `EXTENTS` attribute.  A block that holds no record has no
attributes to go through. -/
def extentRemoveAll (recordId : Nat) : FsM Unit :=
  (mrtResolve recordId).elseDo (pure ()) (fun entry =>
    (readBlock entry.physicalBlock).elseDo (pure ()) (fun x =>
      match x with
      | .record rec attrs => do
        forEach (fun e => (bitmapFreeRange e.physicalBlock e.blockCount).ignore)
          (recordIterateAttr .extents extentRemoveCb attrs []).2
        let attrs := recordRemoveAttr .extents attrs
        (recordWrite recordId { rec with attrCount := attrs.length } attrs).ignore
      | _ => pure ()))

def recordMarkDeleted (recordId block : Nat) : FsM Unit :=
  (readBlock block).elseDo (pure ()) (fun x =>
    match x with
    | .record rec attrs => (recordWrite recordId { rec with deleted := true } attrs).ignore
    | _ => pure ())

def recordFree (recordId : Nat) : FsM Unit :=
  (mrtResolve recordId).elseDo (pure ()) (fun entry => do
    extentRemoveAll recordId
    recordMarkDeleted recordId entry.physicalBlock
    (bitmapFreeRange entry.physicalBlock 1).ignore
    (mrtFreeEntry recordId).ignore
    modifyMem (Mem.mapRecordCount (fun n => if 0 < n then n - 1 else n)))

end SmkFs
end AmitX
