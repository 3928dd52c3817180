import AmitX.Lib.Bytes
import Mathlib.Algebra.Group.Nat.Defs
/-!
# Amx — the header of an AMX program (`amx.h`, `amx.c`)

A file is a header of 104 bytes, the image behind it and the relocation table behind that.
-/
namespace AmitX
namespace Exec

open Bytes

def amxVersion : Nat := 1

def amxHeaderSizeI : Nat := 104

def amxMaxImageSize : Nat := 16 * 1024 * 1024

def amxRelocAbs32 : Nat := 0

/-- `sizeof(amx_reloc_t)`. -/
def amxRelocSize : Nat := 4 + 2 + 2

structure AmxHeader where
  magic : List Byte
  version : Nat
  flags : Nat
  imageOffset : Nat
  imageSize : Nat
  entry : Nat
  bssSize : Nat
  stackSize : Nat
  relocOffset : Nat
  relocCount : Nat
  programName : List Byte
  author : List Byte
  checksum : Nat
  deriving DecidableEq

/-- `AMX_HEADER_SIZE`: the sizes of the fields of `amx_header_t`, in order. -/
def amxHeaderSize : Nat := [4, 2, 2, 4, 4, 4, 4, 4, 4, 4, 32, 32, 4].sum

inductive AmxStatus
  | ok | badHeader | badMagic | badVersion | badFlags | badImageOffset | badImageSize | badEntry | badBssSize
  | badStackSize | badRelocTbl | badRelocNum | badProgramName | badAuthor | badChecksum
  deriving DecidableEq

/-- The value of a `uint32_t` as an `int`. -/
def toInt32 (v : Nat) : Int := if v < 2 ^ 31 then v else (v : Int) - 2 ^ 32

/-- The `n` bytes from `a` on. -/
def bytesAt (m : Mem) (a n : Nat) : List Byte := (List.range n).map (fun i => m (a + i))

/-- `read_header`; `none` for an assertion that fails. -/
def readHeader (buf : Mem) : Option AmxHeader :=
  if amxHeaderSizeI ≠ amxHeaderSize then none
  else some
    { magic := bytesAt buf 0x00 4
      version := load buf 0x04 2
      flags := load buf 0x06 2
      imageOffset := load buf 0x08 4
      imageSize := load buf 0x0C 4
      entry := load buf 0x10 4
      bssSize := load buf 0x14 4
      stackSize := load buf 0x18 4
      relocOffset := load buf 0x1C 4
      relocCount := load buf 0x20 4
      programName := bytesAt buf 0x24 32
      author := bytesAt buf 0x44 32
      checksum := load buf 0x64 4 }

/-- The bytes of `"AMX\0"`. -/
def amxMagic : List Byte := [0x41, 0x4D, 0x58, 0]

def verifyHeader (h : AmxHeader) : AmxStatus :=
  if h.magic ≠ amxMagic then .badMagic
  else if h.version ≠ amxVersion then .badVersion
  else if h.flags ≠ 0 then .badFlags
  else if h.imageOffset < amxHeaderSize then .badImageOffset
  else if h.imageOffset % 4 ≠ 0 then .badImageOffset
  else if h.imageSize = 0 then .badImageSize
  else if h.imageSize ≤ h.entry then .badEntry
  else if 0 ∉ h.programName then .badProgramName
  else if 0 ∉ h.author then .badAuthor
  else if amxMaxImageSize < h.imageSize then .badImageSize
  else if h.relocCount = 0 then (if h.relocOffset ≠ 0 then .badRelocTbl else .ok)
  else if h.relocOffset < amxHeaderSize then .badRelocTbl
  else .ok

end Exec
end AmitX
