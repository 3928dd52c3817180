import AmitX.SmkFs.Attr
import AmitX.Lib.Bytes
/-!
# AttrBuf — attribute buffers byte by byte (`attr.c`)

A buffer holds the attributes one behind the other, each a header of 12 bytes (type, flags, id and length) and its
payload, and ends with a header of type `END`.  Every function walks from the first header to the `END`; the walk knows
no size, so a header that is not inside the buffer is no answer here.
-/
namespace AmitX
namespace SmkFs
namespace AttrBuf

open Bytes

/-- A buffer: its bytes from address 0 on, and how many there are. -/
structure Buf where
  mem : Bytes.Mem
  size : Nat

/-- A field of `n` bytes, unless it reaches out of the buffer. -/
def Buf.field (b : Buf) (a n : Nat) : Option Nat := if a + n ≤ b.size then some (load b.mem a n) else none

/-- `n` bytes moved within the buffer (`memmove`). -/
def Buf.move (b : Buf) (dst src n : Nat) : Option Buf :=
  if src + n ≤ b.size ∧ dst + n ≤ b.size then some { b with mem := copy b.mem dst b.mem src n } else none

/-- The bytes written to `a`. -/
def Buf.write (b : Buf) (a : Nat) (l : List Byte) : Option Buf :=
  if a + l.length ≤ b.size then some { b with mem := copy b.mem a (ofList l) 0 l.length } else none

def attrtEnd : Nat := 0
/-- `SMKFS_ATTRF_UNIQUE`, `SMKFS_ATTRF_REQUIRED`. -/
def attrfUnique : Nat := 1
def attrfRequired : Nat := 2

/-- `attr_registry`: the types with their flags. -/
def attrRegistry : List (Nat × Nat) :=
  [(0, attrfUnique + attrfRequired), (1, attrfUnique), (2, attrfUnique), (3, attrfUnique), (4, attrfUnique),
    (5, attrfUnique), (6, attrfUnique), (7, attrfUnique), (8, 0), (9, attrfUnique), (10, attrfUnique)]

def smkfsAttrLookup (type : Nat) : Option Nat := (attrRegistry.find? (fun p => p.1 == type)).map Prod.snd

/-! ## The walk -/

/-- What a walk comes to: an answer on the way, or the `END` at `p`. -/
inductive Walked (σ ρ : Type)
  | answer (r : ρ)
  | ended (p : Nat) (s : σ)

/-- From header to header: `visit` looks at one, and goes on with a new `σ` or has the answer. -/
def walk {σ ρ : Type} (b : Buf) (visit : Nat → σ → Option (ρ ⊕ σ)) : Nat → Nat → σ → Option (Walked σ ρ)
  | 0, _, _ => none
  | n + 1, p, s => do
    let type ← b.field p 2
    if type = attrtEnd then return .ended p s
    match ← visit p s with
    | .inl r => return .answer r
    | .inr s => do
      let length ← b.field (p + 8) 4
      walk b visit n (p + (attrHeaderSize + length)) s

def Buf.walkFrom {σ ρ : Type} (b : Buf) (visit : Nat → σ → Option (ρ ⊕ σ)) (s : σ) : Option (Walked σ ρ) :=
  walk b visit (b.size + 1) 0 s

/-! ## The functions -/

/-- The place and the length of the first payload of a type, or `SMKFS_ERR_NOTFOUND`. -/
def recordFindAttr (b : Buf) (attrType : Nat) : Option (Except Err (Nat × Nat)) := do
  let visit := fun p (_ : Unit) => do
    let type ← b.field p 2
    if type = attrType then do
      let length ← b.field (p + 8) 4
      return .inl (p + attrHeaderSize, length)
    else return .inr ()
  match ← b.walkFrom visit () with
  | .answer r => return .ok r
  | .ended _ _ => return .error .notfound

/-- Take out the last attribute that `pick` accepts. -/
def removeLast (b : Buf) (pick : Nat → Option Bool) : Option Buf := do
  let visit := fun p (found : Option (Nat × Nat)) => do
    if ← pick p then do
      let length ← b.field (p + 8) 4
      return (.inr (some (p, attrHeaderSize + length)) : Empty ⊕ Option (Nat × Nat))
    else return .inr found
  match ← b.walkFrom visit none with
  | .ended _ none => return b
  | .ended ptr (some (found, foundLen)) =>
    b.move found (found + foundLen) (ptr + attrHeaderSize - (found + foundLen))
  | .answer r => nomatch r

def recordRemoveAttr (b : Buf) (attrType : Nat) : Option Buf :=
  removeLast b (fun p => do
    let type ← b.field p 2
    return type == attrType)

def recordRemoveAttrId (b : Buf) (attrType attrId : Nat) : Option Buf :=
  removeLast b (fun p => do
    let type ← b.field p 2
    if type = attrType then do
      let id ← b.field (p + 4) 4
      return id == attrId
    else return false)

def Buf.payload (b : Buf) (p length : Nat) : Option (List Byte) :=
  if p + length ≤ b.size then some (slice b.mem p length) else none

/-- Call `cb` on the attributes of a type, until it does not return 0. -/
def recordIterateAttr {σ : Type} (b : Buf) (attrType : Nat) (cb : Nat → List Byte → σ → Int × σ) (ctx : σ) :
    Option (Int × σ) := do
  let visit := fun p ctx => do
    let type ← b.field p 2
    if type = attrType then do
      let id ← b.field (p + 4) 4
      let length ← b.field (p + 8) 4
      let data ← b.payload (p + attrHeaderSize) length
      let (r, ctx) := cb id data ctx
      if r = 0 then return .inr ctx else return .inl (r, ctx)
    else return .inr ctx
  match ← b.walkFrom visit ctx with
  | .answer r => return r
  | .ended _ ctx => return (0, ctx)

def attrBufTotalLen (b : Buf) : Option Nat := do
  let visit := fun p (total : Nat) => do
    let length ← b.field (p + 8) 4
    return (.inr (total + (attrHeaderSize + length)) : Empty ⊕ Nat)
  match ← b.walkFrom visit 0 with
  | .ended ptr total => do
    -- the `END` is counted too, with its own length
    let length ← b.field (ptr + 8) 4
    return total + (attrHeaderSize + length)
  | .answer r => nomatch r

def attrHeader (type flags id length : Nat) : List Byte :=
  bytesOf 2 type ++ (bytesOf 2 flags ++ (bytesOf 4 id ++ bytesOf 4 length))

def raiseMax : Option Nat → Nat → Nat
  | none, id => id
  | some m, id => if m < id then id else m

def freshId (b : Buf) (attrType : Nat) : Option Nat := do
  let visit := fun p (maxId : Option Nat) => do
    let type ← b.field p 2
    if type = attrType then do
      let id ← b.field (p + 4) 4
      return (.inr (some (raiseMax maxId id)) : Empty ⊕ Option Nat)
    else return .inr maxId
  match ← b.walkFrom visit none with
  | .ended _ none => return 0
  | .ended _ (some m) => return add32 m 1
  | .answer r => nomatch r

/-- Append the attribute in front of a new `END`, once its place is known. -/
def appendAttr (b : Buf) (bufSize attrType newId : Nat) (data : List Byte) : Option (Except Err Unit × Buf) := do
  match ← b.walkFrom (fun _ (_ : Unit) => some (.inr () : Empty ⊕ Unit)) () with
  | .ended ptr _ =>
    let used := ptr + attrHeaderSize
    -- the terminator is in `used` and again in `need`
    let need := attrHeaderSize + data.length + attrHeaderSize
    if bufSize < used + need then return (.error .nospc, b)
    let b ← b.write ptr (attrHeader attrType 0 newId data.length)
    let b ← b.write (ptr + attrHeaderSize) data
    let b ← b.write (ptr + attrHeaderSize + data.length) (attrHeader attrtEnd 0 0 0)
    return (.ok (), b)
  | .answer r => nomatch r

def recordAddAttr (b : Buf) (bufSize attrType : Nat) (data : List Byte) : Option (Except Err Unit × Buf) :=
  if bufSize < 2 * attrHeaderSize + data.length then some (.error .nospc, b)
  else match smkfsAttrLookup attrType with
    | none => some (.error .inval, b)
    | some flags =>
      if flags &&& attrfUnique ≠ 0 then do
        let b ← recordRemoveAttr b attrType
        appendAttr b bufSize attrType 0 data
      else do
        let newId ← freshId b attrType
        appendAttr b bufSize attrType newId data

end AttrBuf
end SmkFs
end AmitX
