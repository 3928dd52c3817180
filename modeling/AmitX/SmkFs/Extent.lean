import AmitX.Lib.Pieces
import AmitX.SmkFs.Record
import AmitX.SmkFs.Journal
import AmitX.SmkFs.Alloc
/-!
# Extent — the extents of a record (`extent.c`)

Each `EXTENTS` attribute takes a run of logical blocks to a run of blocks of the disk.  A block is looked up in the first
extent that holds it.  A new run is joined to the first extent that it continues on either side: that attribute is taken
out by its id and the joined one goes in under a new id.
-/
namespace AmitX
namespace SmkFs

open Prog Pieces

def AttrData.asExtent : AttrData → Option Extent
  | .extent e => some e
  | .bytes l =>
    if l.length = 20 then
      some ⟨littleEndian (fun i => l.getD i 0) 0 8, littleEndian (fun i => l.getD i 0) 8 8,
        littleEndian (fun i => l.getD i 0) 16 4⟩
    else none
  | _ => none

/-- Call `cb` on the attributes of a type, until it does not return 0. -/
def recordIterateAttr {σ : Type} (type : AttrType) (cb : Nat → AttrData → σ → Int × σ) : List Attr → σ → Int × σ
  | [], ctx => (0, ctx)
  | a :: attrs, ctx =>
    if a.type = type then
      let (r, ctx) := cb a.id a.data ctx
      if r = 0 then recordIterateAttr type cb attrs ctx else (r, ctx)
    else recordIterateAttr type cb attrs ctx

def extentResolveCb (block : Nat) (_attrId : Nat) (data : AttrData) (out : Option Extent) : Int × Option Extent :=
  match data.asExtent with
  | none => (0, out)
  | some ext =>
    if ext.logicalOffset ≤ block ∧ block < ext.logicalOffset + ext.blockCount then (1, some ext) else (0, out)

def extentResolve (recordId logicalBlock : Nat) : FsM Extent := do
  let (_, attrs) ← recordRead recordId
  match (recordIterateAttr .extents (extentResolveCb logicalBlock) attrs none).2 with
  | some ext => pure ext
  | none => throw .notfound

def extentMergeCb (new : Extent) (attrId : Nat) (data : AttrData) (ctx : Option (Extent × Nat)) :
    Int × Option (Extent × Nat) :=
  match data.asExtent with
  | none => (0, ctx)
  | some ext =>
    if ext.logicalOffset + ext.blockCount = new.logicalOffset ∧
        ext.physicalBlock + ext.blockCount = new.physicalBlock then
      (1, some (⟨ext.logicalOffset, ext.physicalBlock, add32 ext.blockCount new.blockCount⟩, attrId))
    else if new.logicalOffset + new.blockCount = ext.logicalOffset ∧
        new.physicalBlock + new.blockCount = ext.physicalBlock then
      (1, some (⟨new.logicalOffset, new.physicalBlock, add32 new.blockCount ext.blockCount⟩, attrId))
    else (0, ctx)

/-- The attributes with one extent more, joined to the first one that it continues. -/
def extentInsert (new : Extent) : Prog (List Attr) Err Unit := do
  let attrs ← get
  match (recordIterateAttr .extents (extentMergeCb new) attrs none).2 with
  | some (merged, matchedId) => do
    modify (recordRemoveAttrId .extents matchedId)
    (recordAddAttr attrBufSize .extents (.extent merged)).orThrow .nospc
  | none => (recordAddAttr attrBufSize .extents (.extent new)).orThrow .nospc

def onAttrs (m : Prog (List Attr) Err Unit) (attrs : List Attr) : FsM (List Attr) :=
  match m attrs with
  | (.ok _, attrs') => pure attrs'
  | (.error e, _) => throw e

/-- Give a record one run of blocks more.  Its block is not validated here; the callers have read the record. -/
def extentAdd (recordId logicalBlock physicalBlock count : Nat) : FsM Unit := do
  let entry ← mrtResolve recordId
  let x ← (readBlock entry.physicalBlock).orThrow .io
  match x with
  | .record rec attrs => do
    let attrs ← onAttrs (extentInsert ⟨logicalBlock, physicalBlock, count⟩) attrs
    recordWrite recordId { rec with attrCount := attrs.length } attrs
  | _ => throw .corrupt

end SmkFs
end AmitX
