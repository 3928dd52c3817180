import AmitX.Exec.Amx
/-!
# Amx2 — headers and sections of an AMX2 file (`amx2.h`, `amx2.c`)

Every read from a buffer is checked against the size it was allocated with.  A call stops with a return of -1, in an
assertion that fails, or with an access outside of a buffer.
-/
namespace AmitX
namespace Exec

open Bytes

/-- Bytes are compared by their equality. -/
local instance byteLawful : LawfulBEq Byte := inferInstance

inductive Stop
  | failed
  | halted
  | outside
  deriving DecidableEq

/-- A buffer of `malloc` or of the stack. -/
structure Buf where
  size : Nat
  bytes : Mem

/-- The `n` bytes at `a`. -/
def Buf.read (b : Buf) (a n : Nat) : Except Stop (List Byte) :=
  if a + n ≤ b.size then .ok (bytesAt b.bytes a n) else .error .outside

/-- `get_u16` and `get_u32`: the number in the `n` bytes at `a`. -/
def Buf.get (b : Buf) (a n : Nat) : Except Stop Nat :=
  if a + n ≤ b.size then .ok (load b.bytes a n) else .error .outside

/-- Write the `n` bytes of `v` to `a`. -/
def Buf.put (b : Buf) (a n v : Nat) : Except Stop Buf :=
  if a + n ≤ b.size then .ok { b with bytes := store b.bytes a n v } else .error .outside

/-- `memcpy` of `n` bytes from `src`. -/
def Buf.copyFrom (b : Buf) (a : Nat) (src : Buf) (s n : Nat) : Except Stop Buf :=
  if a + n ≤ b.size ∧ s + n ≤ src.size then .ok { b with bytes := copy b.bytes a src.bytes s n }
  else .error .outside

/-- The string at `a`, of at most `n` bytes. -/
def Buf.stringOf (b : Buf) : Nat → Nat → Except Stop (List Byte)
  | 0, _ => .error .outside
  | n + 1, a =>
    if b.size ≤ a then .error .outside
    else if b.bytes a = 0 then .ok []
    else (b.stringOf n (a + 1)).map (fun s => b.bytes a :: s)

/-- The string at `a`, which has to end inside the buffer. -/
def Buf.string (b : Buf) (a : Nat) : Except Stop (List Byte) := b.stringOf (b.size + 1) a

def assert (cond : Prop) [Decidable cond] : Except Stop Unit := if cond then .ok () else .error .halted

/-- `return -1` if the condition holds. -/
def failIf (cond : Prop) [Decidable cond] : Except Stop Unit := if cond then .error .failed else .ok ()

def amx2HeaderSize : Nat := 128

def amx2SectionSize : Nat := 32

def amx2RelocSize : Nat := 16

def amx2ImportSize : Nat := 12

def amx2ExportSize : Nat := 16

def amx2MaxImageSize : Nat := 16 * 1024 * 1024

def amx2MaxSections : Nat := 32

def amx2MaxStrings : Nat := 64 * 1024

structure Amx2Header where
  magic : List Byte
  version : Nat
  flags : Nat
  machine : Nat
  subsystem : Nat
  entry : Nat
  preferredBase : Nat
  imageSize : Nat
  sectionCount : Nat
  reserved0 : Nat
  sectionOffset : Nat
  relocOffset : Nat
  relocCount : Nat
  importOffset : Nat
  importCount : Nat
  exportOffset : Nat
  exportCount : Nat
  exportOrdinalBase : Nat
  stringOffset : Nat
  stringSize : Nat
  programName : List Byte
  author : List Byte
  checksum : Nat

/-- `sizeof(amx2_header_t)`: the sizes of its fields, in order. -/
def sizeofAmx2Header : Nat := [4, 2, 2, 2, 2, 4, 4, 4, 2, 2, 4, 4, 4, 4, 4, 4, 4, 4, 4, 4, 32, 32, 4].sum

structure Amx2Section where
  name : List Byte
  flags : Nat
  fileOffset : Nat
  fileSize : Nat
  vaddr : Nat
  memSize : Nat
  align : Nat

def amx2ReadHeader (buf : Buf) : Except Stop Amx2Header := do
  assert (amx2HeaderSize = sizeofAmx2Header)
  let magic ← buf.read 0x00 4
  let version ← buf.get 0x04 2
  let flags ← buf.get 0x06 2
  let machine ← buf.get 0x08 2
  let subsystem ← buf.get 0x0A 2
  let entry ← buf.get 0x0C 4
  let preferredBase ← buf.get 0x10 4
  let imageSize ← buf.get 0x14 4
  let sectionCount ← buf.get 0x18 2
  let reserved0 ← buf.get (0x18 + 2) 2
  let sectionOffset ← buf.get 0x1C 4
  let relocOffset ← buf.get 0x20 4
  let relocCount ← buf.get 0x24 4
  let importOffset ← buf.get 0x28 4
  let importCount ← buf.get 0x2C 4
  let exportOffset ← buf.get 0x30 4
  let exportCount ← buf.get 0x34 4
  let exportOrdinalBase ← buf.get 0x38 4
  let stringOffset ← buf.get 0x3C 4
  let stringSize ← buf.get 0x40 4
  let programName ← buf.read 0x44 32
  let author ← buf.read 0x64 32
  let checksum ← buf.get 0x7C 4
  return {
    magic, version, flags, machine, subsystem, entry, preferredBase, imageSize, sectionCount, reserved0, sectionOffset
    relocOffset, relocCount, importOffset, importCount, exportOffset, exportCount, exportOrdinalBase, stringOffset
    stringSize, programName, author, checksum }

def tableOk (count offset : Nat) : Bool := if count = 0 then offset = 0 else amx2HeaderSize ≤ offset

/-- `amx2_verify_header` answers `AMX2_OK`. -/
def amx2VerifyHeader (h : Amx2Header) : Bool :=
  h.magic = amxMagic ∧ h.version = 2 ∧ ¬(h.flags &&& 0x0004 ≠ 0 ∧ h.flags &&& 0x0008 ≠ 0) ∧
    (h.machine = 0x014C ∨ h.machine = 0x8664 ∨ h.machine = 0x01C0 ∨ h.machine = 0xAA64) ∧ h.subsystem ≤ 2 ∧
    h.entry < h.imageSize ∧ h.imageSize ≠ 0 ∧ h.imageSize ≤ amx2MaxImageSize ∧ h.sectionCount ≤ amx2MaxSections ∧
    ¬(0 < h.sectionCount ∧ h.sectionOffset < amx2HeaderSize) ∧ tableOk h.relocCount h.relocOffset ∧
    tableOk h.importCount h.importOffset ∧ tableOk h.exportCount h.exportOffset ∧ tableOk h.stringSize h.stringOffset ∧
    h.stringSize ≤ amx2MaxStrings ∧ 0 ∈ h.programName ∧ 0 ∈ h.author

/-- A section at `offset`. -/
def readSection (buf : Buf) (offset : Nat) : Except Stop Amx2Section := do
  let name ← buf.read offset 8
  let flags ← buf.get (offset + 8) 4
  let fileOffset ← buf.get (offset + 12) 4
  let fileSize ← buf.get (offset + 16) 4
  let vaddr ← buf.get (offset + 20) 4
  let memSize ← buf.get (offset + 24) 4
  let align ← buf.get (offset + 28) 4
  return { name, flags, fileOffset, fileSize, vaddr, memSize, align }

/-- The loop of `amx2_read_sections`, over `n` sections. -/
def readSections (buf : Buf) : Nat → Nat → Except Stop (List Amx2Section)
  | 0, _ => .ok []
  | n + 1, offset => do
    let s ← readSection buf offset
    let rest ← readSections buf n ((offset + amx2SectionSize) % 2 ^ 32)
    return s :: rest

def amx2ReadSections (buf : Buf) (h : Amx2Header) (maxCount : Nat) : Except Stop (List Amx2Section) :=
  if maxCount < h.sectionCount then .error .failed else readSections buf h.sectionCount h.sectionOffset

/-- A section that ends at `prevEnd` may be followed by this one. -/
def sectionOk (h : Amx2Header) (first : Bool) (prevEnd : Nat) (s : Amx2Section) : Bool :=
  0 ∈ s.name ∧ s.flags &&& 0x07 ≠ 0 ∧ ¬(s.flags &&& 0x08 ≠ 0 ∧ s.fileSize ≠ 0) ∧ s.vaddr < h.imageSize ∧
    (s.vaddr + s.memSize) % 2 ^ 32 ≤ h.imageSize ∧ s.fileSize ≤ s.memSize ∧
    ¬(0 < s.fileSize ∧ s.fileOffset < amx2HeaderSize) ∧ ¬(s.align ≠ 0 ∧ s.align &&& (s.align - 1) ≠ 0) ∧
    (first = true ∨ prevEnd ≤ s.vaddr)

def sectionsOk (h : Amx2Header) : Bool → Nat → List Amx2Section → Bool
  | _, _, [] => true
  | first, prevEnd, s :: rest =>
    sectionOk h first prevEnd s && sectionsOk h false ((s.vaddr + s.memSize) % 2 ^ 32) rest

/-- `amx2_verify_sections` answers `AMX2_OK`. -/
def amx2VerifySections (h : Amx2Header) (sections : List Amx2Section) : Bool := sectionsOk h true 0 sections

end Exec
end AmitX
