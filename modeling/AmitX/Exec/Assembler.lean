import AmitX.Exec.Amx
import Mathlib.Logic.Function.Basic
/-!
# Assembler — from statements to an AMX file (`amx-asm.py`)

The first pass lays out the bytes of the text section and notes labels and relocations, the second writes the offsets of
the labels into the relocated words.  `none` is an exception.  The encoder of single instructions and Python's functions
on strings are parameters.
-/
namespace AmitX
namespace Exec

open Bytes

/-- What the assembler is given: keystone's `ks.asm` and the functions of Python's `str`. -/
structure Python where
  asm : String → Option (List Byte)
  lower : String → String
  isalpha : String → Bool
  isdigit : String → Bool
  int : String → Option Nat
  encodeAscii : String → Option (List Byte)

inductive Stmt
  | instruction (opcode : String) (operands : List String)
  | label (name : String)
  | directive (name : String) (operands : List String) (label : Option String)

structure Relocation where
  offset : Nat
  type : Nat
  reserved : Nat
  symbol : String

structure Section where
  data : List Byte
  relocations : List Relocation
  symbols : String → Option Nat

/-- The section so far, and `offset`. -/
structure Pass1 where
  text : Section
  offset : Nat

def Pass1.init : Pass1 := ⟨⟨[], [], fun _ => none⟩, 0⟩

def Pass1.define (name : String) (p : Pass1) : Pass1 :=
  { p with text.symbols := Function.update p.text.symbols name (some p.offset) }

def Pass1.defineLabel (label : Option String) (p : Pass1) : Pass1 :=
  match label with
  | none => p
  | some name => p.define name

/-- More bytes, and `offset` behind them. -/
def Pass1.extend (bytes : List Byte) (p : Pass1) : Pass1 :=
  { p with
    text.data := p.text.data ++ bytes
    offset := (p.text.data ++ bytes).length }

/-- The bytes of one operand of `db`. -/
def dbBytes (py : Python) (operand : String) : Option (List Byte) :=
  if py.isdigit operand then
    match py.int operand with
    | none => none
    | some n => if n < 256 then some [BitVec.ofNat 8 n] else none
  else py.encodeAscii operand

/-- The bytes of the operands of `db`, in order. -/
def dbAll (py : Python) : List String → Option (List Byte)
  | [] => some []
  | operand :: operands =>
    match dbBytes py operand, dbAll py operands with
    | some bytes, some rest => some (bytes ++ rest)
    | _, _ => none

def encode (py : Python) (line : String) (p : Pass1) : Option Pass1 := (py.asm line).map p.extend

/-- `mov` with a symbol: the word behind the first byte of the encoding is relocated. -/
def encodeReloc (py : Python) (symbol : String) (p : Pass1) : Option Pass1 :=
  (py.asm "mov ebx, 0").map fun encoding =>
    { p.extend encoding with
      text := { (p.extend encoding).text with
        relocations := p.text.relocations ++ [⟨p.offset + 1, amxRelocAbs32, 0, symbol⟩] } }

/-- The operand of a `mov` that is taken for a symbol; `none` where `operands[1]` does not exist. -/
def movSymbol (py : Python) (opcode : String) (operands : List String) : Option (Option String) :=
  if opcode = "MOV" then
    match operands[1]? with
    | none => none
    | some operand => some (if py.isalpha operand then some operand else none)
  else some none

def pass1Step (py : Python) (p : Pass1) : Stmt → Option Pass1
  | .instruction opcode operands =>
    match movSymbol py opcode operands with
    | none => none
    | some (some symbol) => encodeReloc py symbol p
    | some none => encode py (py.lower opcode ++ " " ++ ", ".intercalate operands) p
  | .label name => some (p.define name)
  | .directive name operands label =>
    if name = "db" then (dbAll py operands).map (p.defineLabel label).extend else some (p.defineLabel label)

def assemblePass1 (py : Python) (program : List Stmt) : Option Section :=
  (program.foldlM (pass1Step py) Pass1.init).map Pass1.text

/-- One relocated word of `resolve_symbols`. -/
def resolveOne (section_ : Section) (data : List Byte) (rel : Relocation) : Option (List Byte) :=
  match section_.symbols rel.symbol with
  | none => none
  | some addr =>
    if addr < 2 ^ 32 ∧ rel.offset + 4 ≤ data.length then some (patch data rel.offset 4 addr) else none

def resolveSymbols (section_ : Section) : Option Section :=
  (section_.relocations.foldlM (resolveOne section_) section_.data).map (fun data => { section_ with data := data })

/-- `struct.pack` of one `n`-byte field. -/
def packField (n v : Nat) : Option (List Byte) := if v < 256 ^ n then some (bytesOf n v) else none

/-- `struct.pack` of several fields. -/
def packFields : List (Nat × Nat) → Option (List Byte)
  | [] => some []
  | (n, v) :: fields =>
    match packField n v, packFields fields with
    | some bytes, some rest => some (bytes ++ rest)
    | _, _ => none

/-- A string field of `struct.pack`, padded with zeros. -/
def packString (n : Nat) (s : List Byte) : List Byte := s.take n ++ List.replicate (n - s.length) 0

def buildRelocations (section_ : Section) : Option (List Byte) :=
  packFields (section_.relocations.flatMap (fun rel => [(4, rel.offset), (2, rel.type), (2, rel.reserved)]))

/-- `b"hello\0"`. -/
def programName : List Byte := [0x68, 0x65, 0x6C, 0x6C, 0x6F, 0]

/-- `b"amity\0"`. -/
def authorName : List Byte := [0x61, 0x6D, 0x69, 0x74, 0x79, 0]

def headerFields (section_ : Section) : List (Nat × Nat) :=
  [(2, amxVersion), (2, 0), (4, amxHeaderSizeI), (4, section_.data.length), (4, 0), (4, 0), (4, 4096),
    (4, amxHeaderSizeI + section_.data.length), (4, section_.relocations.length)]

def buildHeader (section_ : Section) : Option (List Byte) :=
  (packFields (headerFields section_)).map fun fields =>
    packString 4 amxMagic ++ fields ++ packString 32 programName ++ packString 32 authorName ++ bytesOf 4 0

def amxFile (section_ : Section) : Option (List Byte) :=
  match buildHeader section_, buildRelocations section_ with
  | some header, some relocs => some (header ++ section_.data ++ relocs)
  | _, _ => none

def assemble (py : Python) (program : List Stmt) : Option Section :=
  match assemblePass1 py program with
  | none => none
  | some text => resolveSymbols text

end Exec
end AmitX
