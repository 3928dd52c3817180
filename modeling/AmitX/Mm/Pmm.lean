import AmitX.Lib.Loop
import Mathlib.Logic.Function.Basic
import Mathlib.Data.Nat.Notation
import Mathlib.Algebra.Group.Nat.Defs
/-!
# Pmm — the allocator of physical frames (`pmm.c`)

The code is built for 32 and for 64 bits: a frame number, an address and a size are words of the build, and what is
computed of them is taken modulo the word.  `bitmap` is the memory from the bitmap on, bit by bit, so that a frame number
past the end of the bitmap reads and writes the memory behind it.  The spinlock is left out: each function holds it over
the whole of its work.  The loader's information is the list of its tags, each read as the code reads it.
-/
namespace AmitX
namespace Mm

inductive Arch
  | x86 | x64
  deriving DecidableEq

def Arch.bits : Arch → Nat
  | .x86 => 32
  | .x64 => 64

/-- A value of `PFN_T`, `PHYS_ADDR_T` or `SIZE_T`. -/
def Arch.word (a : Arch) (n : Nat) : Nat := n % 2 ^ a.bits

def frameSize : Nat := 4096
def frameSizeMask : Nat := frameSize - 1
def physAddrInvalid : Nat := 0
def pmmMinMemory : Nat := 4 * 1024 * 1024

structure Pmm where
  bitmap : Nat → Bool
  totalFrames : Nat
  usedFrames : Nat
  bitmapSize : Nat

def bitmapSet (frame : Nat) (m : Pmm) : Pmm := { m with bitmap := Function.update m.bitmap frame true }

def bitmapClear (frame : Nat) (m : Pmm) : Pmm := { m with bitmap := Function.update m.bitmap frame false }

def bitmapTest (m : Pmm) (frame : Nat) : Bool := m.bitmap frame

/-- `used_frames++` and `used_frames--`. -/
def countUsed (a : Arch) (m : Pmm) : Pmm := { m with usedFrames := a.word (m.usedFrames + 1) }

def countFree (a : Arch) (m : Pmm) : Pmm := { m with usedFrames := a.word (m.usedFrames + 2 ^ a.bits - 1) }

/-! ## Searching -/

/-- Byte `i` of the bitmap is `0xFF`. -/
def byteFull (m : Pmm) (i : Nat) : Bool := (List.range 8).all (fun j => bitmapTest m (8 * i + j))

/-- The search of one byte: an answer is the free frame, or none past the last frame. -/
def scanByte (m : Pmm) (i : Nat) : Option (Option Nat) :=
  if byteFull m i then none
  else
    (List.range 8).findSome? fun j =>
      if m.totalFrames ≤ 8 * i + j then some none
      else if bitmapTest m (8 * i + j) then none
      else some (some (8 * i + j))

def findFirstFree (m : Pmm) : Option Nat := ((List.range m.bitmapSize).findSome? (scanByte m)).join

/-- The search for a run, from frame `i` on; the first argument is what is left to search. -/
def scanRun (m : Pmm) (count : Nat) : Nat → Nat → Nat → Nat → Option Nat
  | 0, _, _, _ => none
  | n + 1, i, runStart, runLen =>
    if bitmapTest m i then scanRun m count n (i + 1) runStart 0
    else
      let runStart := if runLen = 0 then i else runStart
      if count ≤ runLen + 1 then some runStart else scanRun m count n (i + 1) runStart (runLen + 1)

def findFirstFreeN (count : Nat) (m : Pmm) : Option Nat :=
  if count = 0 then none
  else if count = 1 then findFirstFree m
  else scanRun m count m.totalFrames 0 0 0

/-! ## Frames and ranges of frames -/

def takeFrame (a : Arch) (m : Pmm) (frame : Nat) : Pmm := countUsed a (bitmapSet frame m)

def reserveFrame (a : Arch) (m : Pmm) (frame : Nat) : Pmm := if bitmapTest m frame then m else takeFrame a m frame

def releaseFrame (a : Arch) (m : Pmm) (frame : Nat) : Pmm :=
  if bitmapTest m frame then countFree a (bitmapClear frame m) else m

/-- The frames `frame + i`, for `i < count`. -/
def frameRange (a : Arch) (frame count : Nat) : List Nat := (List.range count).map (fun i => a.word (frame + i))

def regionFrames (a : Arch) (totalFrames start length : Nat) : List Nat :=
  let startFrame := start / frameSize
  let endFrame := min (a.word (start + length + frameSizeMask) / frameSize) totalFrames
  List.range' startFrame (endFrame - startFrame)

def pmmReserveRegion (a : Arch) (start length : Nat) (m : Pmm) : Pmm :=
  if length = 0 then m else (regionFrames a m.totalFrames start length).foldl (reserveFrame a) m

def pmmUnreserveRegion (a : Arch) (start length : Nat) (m : Pmm) : Pmm :=
  if length = 0 then m else (regionFrames a m.totalFrames start length).foldl (releaseFrame a) m

def frameAddr (a : Arch) (frame : Nat) : Nat := a.word (frame * frameSize)

/-! ## Allocating and freeing -/

def pmmAllocFrame (a : Arch) (m : Pmm) : Nat × Pmm :=
  match findFirstFree m with
  | none => (physAddrInvalid, m)
  | some frame => (frameAddr a frame, takeFrame a m frame)

def pmmAllocFrames (a : Arch) (count : Nat) (m : Pmm) : Nat × Pmm :=
  match findFirstFreeN count m with
  | none => (physAddrInvalid, m)
  | some frame => (frameAddr a frame, (frameRange a frame count).foldl (takeFrame a) m)

def pmmFreeFrame (a : Arch) (frame : Nat) (m : Pmm) : Pmm :=
  if frame = 0 then m
  else if m.totalFrames ≤ frame / frameSize then m
  else releaseFrame a m (frame / frameSize)

def pmmFreeFrames (a : Arch) (frame count : Nat) (m : Pmm) : Pmm :=
  if frame = 0 ∨ count = 0 then m
  else if m.totalFrames < a.word (frame / frameSize + count) then m
  else (frameRange a (frame / frameSize) count).foldl (releaseFrame a) m

/-- `(i + align - 1) & ~(align - 1)`; `x & ~y` is `x - (x & y)`. -/
def alignUp (a : Arch) (i align : Nat) : Nat :=
  a.word (i + (align - 1)) - (a.word (i + (align - 1)) &&& (align - 1))

/-- The first free frame from `i` on; the first argument is what is left to search. -/
def skipUsed (m : Pmm) : Nat → Nat → Nat
  | 0, i => i
  | n + 1, i => if i < m.totalFrames ∧ bitmapTest m i then skipUsed m n (i + 1) else i

/-- One turn of the loop of `pmm_alloc_aligned`: go on from the next `i`, or answer. -/
def alignedTurn (a : Arch) (count align : Nat) (m : Pmm) (i : Nat) : Nat ⊕ Option Nat :=
  let i := skipUsed m (m.totalFrames - i) i
  if m.totalFrames ≤ i then .inr none
  else
    let aligned := alignUp a i align
    if m.totalFrames < a.word (aligned + count) then .inr none
    else
      match (List.range count).find? (fun j => bitmapTest m (a.word (aligned + j))) with
      | some j => .inl (a.word (aligned + j + 1))
      | none => .inr (some aligned)

def findAligned (a : Arch) (count align : Nat) (m : Pmm) : Option Nat :=
  (Loop.loop (alignedTurn a count align m) (m.totalFrames + 1) 0).join

def pmmAllocAligned (a : Arch) (count alignFrames : Nat) (m : Pmm) : Nat × Pmm :=
  if count = 0 ∨ alignFrames = 0 then (physAddrInvalid, m)
  else if alignFrames &&& (alignFrames - 1) ≠ 0 then (physAddrInvalid, m)
  else if alignFrames = 1 then pmmAllocFrames a count m
  else
    match findAligned a count alignFrames m with
    | none => (physAddrInvalid, m)
    | some aligned => (frameAddr a aligned, (frameRange a aligned count).foldl (takeFrame a) m)

def pmmAllocAt (a : Arch) (addr count : Nat) (m : Pmm) : Int × Pmm :=
  if m.totalFrames < a.word (addr / frameSize + count) then (-1, m)
  else if (frameRange a (addr / frameSize) count).any (bitmapTest m) then (-1, m)
  else (0, (frameRange a (addr / frameSize) count).foldl (takeFrame a) m)

/-! ## What the loader reports -/

def mb2MmapAvailable : BitVec 32 := 1

structure Entry where
  baseAddr : BitVec 64
  length : BitVec 64
  type : BitVec 32

def Entry.available (e : Entry) : Bool := e.type = mb2MmapAvailable

inductive Tag
  | mmap (entries : List Entry)
  | basicMem (lower upper : BitVec 32)
  | other

structure Loader where
  tags : List Tag
  /-- The address of the information and its size. -/
  mbInfo : Nat
  mbSize : Nat
  kernelPhysEnd : Nat
  /-- The memory where the bitmap is going to be, bit by bit. -/
  memory : Nat → Bool

structure BootInfo where
  valid : Bool
  /-- `boot_info.mb_info` is not `NULL`. -/
  hasMbInfo : Bool
  totalRam : Nat

def mib : Nat := 1024 * 1024

def countRam (s : Nat × Bool) : Tag → Nat × Bool
  | .mmap entries =>
    (entries.foldl (fun ram e => if e.available then (ram + e.length.toNat) % 2 ^ 64 else ram) s.1, true)
  | .basicMem lower upper => if s.2 then s else ((lower.toNat + upper.toNat) * 1024 % 2 ^ 64, s.2)
  | .other => s

def availableRam (tags : List Tag) : Nat :=
  let ram := (tags.foldl countRam (0, false)).1
  if ram = 0 then 16 * mib else ram

/-- The status and the boot information; the caller does not look at the status. -/
def kernelEarlyInit (magicOk : Bool) (tags : List Tag) : Int × BootInfo :=
  if !magicOk then (1, ⟨false, false, 0⟩)
  else if availableRam tags < pmmMinMemory then (2, ⟨false, false, availableRam tags⟩)
  else (0, ⟨true, true, availableRam tags⟩)

def firstMap : List Tag → Option (List Entry)
  | [] => none
  | .mmap entries :: _ => some entries
  | _ :: tags => firstMap tags

/-! ## Initialization -/

def roundUp (a : Arch) (addr : Nat) : Nat :=
  a.word (addr + (frameSize - 1)) - a.word (addr + (frameSize - 1)) % frameSize

def bitmapPlacement (a : Arch) (l : Loader) (info : BootInfo) : Nat :=
  let placement := roundUp a l.kernelPhysEnd
  if info.hasMbInfo then max placement (roundUp a (a.word (l.mbInfo + l.mbSize))) else placement

def initRam (a : Arch) (info : BootInfo) : Nat :=
  let ram := if info.valid then info.totalRam else 16 * mib
  if a.word (ram / frameSize) = 0 then 16 * mib else ram

def initFrames (a : Arch) (info : BootInfo) : Nat := a.word (initRam a info / frameSize)

def initBitmapSize (a : Arch) (info : BootInfo) : Nat := a.word (initFrames a info + 7) / 8

def initRegions (a : Arch) (l : Loader) (info : BootInfo) : List (Nat × Nat) :=
  if info.valid && info.hasMbInfo then
    match firstMap l.tags with
    | some entries => (entries.filter Entry.available).map
        (fun e => (a.word e.baseAddr.toNat, a.word e.length.toNat))
    | none => [(mib, a.word (initRam a info + 2 ^ 64 - mib))]
  else [(mib, 15 * mib)]

def kernelEnd (a : Arch) (l : Loader) (info : BootInfo) : Nat :=
  a.word (bitmapPlacement a l info + initBitmapSize a info)

def vgaMemPhys : Nat := 0xB8000

def pmmInit (a : Arch) (l : Loader) (info : BootInfo) : Pmm :=
  let size := initBitmapSize a info
  let m : Pmm :=
    ⟨fun frame => decide (frame < 8 * size) || l.memory frame, initFrames a info, initFrames a info, size⟩
  let m := (initRegions a l info).foldl (fun m r => pmmUnreserveRegion a r.1 r.2 m) m
  let m := pmmReserveRegion a 0 mib m
  let m := pmmReserveRegion a mib (a.word (kernelEnd a l info + 2 ^ a.bits - mib)) m
  pmmReserveRegion a vgaMemPhys frameSize m

end Mm
end AmitX
