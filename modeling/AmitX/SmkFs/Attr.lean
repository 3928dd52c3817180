import AmitX.SmkFs.Mount
/-!
# Attr — the attributes of a record (`attr.c`)

An attribute buffer is the list of its attributes up to the `END`.  A type marked unique in the registry has one
instance with id 0; each instance of `EXTENTS` gets an id above those in use.  Adding a unique attribute drops the old
instance first, also when the new one then has no room.
-/
namespace AmitX
namespace SmkFs

open Prog

def attrBufSize : Nat := blockSize - recordSize

/-- The bytes of a buffer, its `END` included. -/
def attrBufTotalLen (attrs : List Attr) : Nat :=
  (attrs.map (fun a => attrHeaderSize + a.data.length)).sum + attrHeaderSize

/-- Whether a registered type is `SMKFS_ATTRF_UNIQUE`; a type without a row has none. -/
def smkfsAttrLookup : AttrType → Option Bool
  | .unknown _ => none
  | .extents => some false
  | _ => some true

def recordFindAttr (type : AttrType) (attrs : List Attr) : Option AttrData :=
  (attrs.find? (fun a => a.type = type)).map Attr.data

/-- Drop the last attribute that satisfies `p`. -/
def dropLastAttr (p : Attr → Bool) (attrs : List Attr) : List Attr := (attrs.reverse.eraseP p).reverse

def recordRemoveAttr (type : AttrType) : List Attr → List Attr := dropLastAttr (fun a => a.type = type)

def recordRemoveAttrId (type : AttrType) (id : Nat) : List Attr → List Attr :=
  dropLastAttr (fun a => a.type = type ∧ a.id = id)

def nextAttrId (type : AttrType) (attrs : List Attr) : Nat :=
  match (attrs.filter (fun a => a.type = type)).map Attr.id with
  | [] => 0
  | id :: ids => add32 (ids.foldl max id) 1

/-- Add an attribute at the end of the buffer; an `END` added there ends the buffer where it ended before. -/
def recordAddAttr (bufSize : Nat) (type : AttrType) (data : AttrData) : Prog (List Attr) Err Unit := do
  failIf (bufSize < 2 * attrHeaderSize + data.length) .nospc
  match smkfsAttrLookup type with
  | none => throw .inval
  | some unique => do
    when (unique = true) (modify (recordRemoveAttr type))
    let attrs ← get
    failIf (bufSize < attrBufTotalLen attrs + (attrHeaderSize + data.length + attrHeaderSize)) .nospc
    when (type ≠ .end_) (modify (fun attrs => attrs ++ [⟨type, if unique then 0 else nextAttrId type attrs, data⟩]))

end SmkFs
end AmitX
