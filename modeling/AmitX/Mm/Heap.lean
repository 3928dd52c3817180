import AmitX.Lib.Bytes
import AmitX.Lib.Loop
import AmitX.Lib.Run
import AmitX.Lib.Tiling
import AmitX.Mm.Vmm
/-!
# Heap — the kernel heap (`heap.c`)

The blocks of the heap are in its memory: a header of `BLOCK_SIZE` bytes with the size, the link to the next block and
the free flag, and the payload behind it.  An address is a word of the build; what a caller can make overflow, the
rounded sizes and the new break, is computed modulo the word.  The frames of the pages that are mapped while the heap
grows come with whatever bytes they hold, and the allocation of a frame or its mapping may fail at any page of a call.
A walk over the blocks has a bound; a call whose walk uses it up has no answer.  The spinlock is left out: the calls come
one after another.
-/
namespace AmitX
namespace Mm

open Loop Bytes

/-- `sizeof(SIZE_T)`, and of a pointer. -/
def Arch.wordBytes : Arch → Nat
  | .x86 => 4
  | .x64 => 8

/-- `BLOCK_SIZE`: the two words and the flag of a `Block`, which is aligned to 16 bytes. -/
def Arch.blockSize : Arch → Nat
  | .x86 => 16
  | .x64 => 32

/-- `HEAP_VIRT_BASE`. -/
def Arch.heapBase : Arch → Nat
  | .x86 => 0xE2000000
  | .x64 => 0xFFFF910000000000

def heapSize : Nat := 32 * 1024 * 1024
def heapInitialPages : Nat := 8

/-- `(PVOID)-1`. -/
def Arch.noBreak (a : Arch) : Nat := 2 ^ a.bits - 1

/-- The word as an `SSIZE_T`. -/
def Arch.signed (a : Arch) (n : Nat) : Int :=
  if a.word n < 2 ^ (a.bits - 1) then (a.word n : Int) else (a.word n : Int) - 2 ^ a.bits

structure Heap where
  mem : Mem
  head : Nat
  heapEnd : Nat
  heapBreak : Nat

def walkBound : Nat := heapSize + 1

def align16 (a : Arch) (x : Nat) : Nat := a.word (x + 15) / 16 * 16

section

variable (a : Arch)

def sizeAt (m : Mem) (b : Nat) : Nat := load m b a.wordBytes
def nextAt (m : Mem) (b : Nat) : Nat := load m (b + a.wordBytes) a.wordBytes
def freeAt (m : Mem) (b : Nat) : Nat := load m (b + 2 * a.wordBytes) 4

def setSize (b v : Nat) (m : Mem) : Mem := store m b a.wordBytes v
def setNext (b v : Nat) (m : Mem) : Mem := store m (b + a.wordBytes) a.wordBytes v
def setFree (b v : Nat) (m : Mem) : Mem := store m (b + 2 * a.wordBytes) 4 v

def newFree (c size next : Nat) (m : Mem) : Mem := setNext a c next (setFree a c 1 (setSize a c size m))

def newLast (c size : Nat) (m : Mem) : Mem := setNext a c 0 (setFree a c 0 (setSize a c size m))

/-- Block `b` takes in the block `c` behind it. -/
def absorb (b c : Nat) (m : Mem) : Mem :=
  let m := setSize a b (sizeAt a m b + a.blockSize + sizeAt a m c) m
  setNext a b (nextAt a m c) m

end

/-! ## The break -/

/-- One turn of `heap_commit_to`; `frames` is what the frame of each page holds, if there is one that can be mapped. -/
def commitTurn (frames : Nat → Option Mem) (targetEnd : Nat) (s : Nat × Heap) : (Nat × Heap) ⊕ (Bool × Heap) :=
  if s.2.heapEnd < targetEnd then
    match frames s.1 with
    | none => .inr (false, s.2)
    | some frame =>
      .inl (s.1 + 1, { s.2 with
        mem := copy s.2.mem s.2.heapEnd frame 0 pageSize
        heapEnd := s.2.heapEnd + pageSize })
  else .inr (true, s.2)

def heapCommitTo (frames : Nat → Option Mem) (targetEnd : Nat) (h : Heap) : Option (Bool × Heap) :=
  loop (commitTurn frames targetEnd) walkBound (0, h)

/-- The heap after `heap_init`, which panics when a page cannot be mapped. -/
def heapInit (a : Arch) (frames : Nat → Option Mem) (m : Mem) : Option Heap :=
  match heapCommitTo frames (a.heapBase + heapInitialPages * pageSize) ⟨m, 0, a.heapBase, a.heapBase⟩ with
  | some (true, h) => some h
  | _ => none

def sbrkLocked (a : Arch) (frames : Nat → Option Mem) (increment : Int) (h : Heap) : Option (Nat × Heap) :=
  if increment = 0 then some (h.heapBreak, h)
  else
    let newBreak := ((h.heapBreak + increment) % 2 ^ a.bits).toNat
    if newBreak < a.heapBase then some (a.noBreak, h)
    else if a.heapBase + heapSize < newBreak then some (a.noBreak, h)
    else if h.heapEnd < newBreak then
      match heapCommitTo frames (a.word (newBreak + pageSize - 1) / pageSize * pageSize) h with
      | none => none
      | some (false, h') => some (a.noBreak, h')
      | some (true, h') => some (h.heapBreak, { h' with heapBreak := newBreak })
    else some (h.heapBreak, { h with heapBreak := newBreak })

/-! ## The calls -/

/-- One turn of the search for a block: the block that fits, or the last block. -/
def fitTurn (a : Arch) (m : Mem) (size current : Nat) : Nat ⊕ (Bool × Nat) :=
  if current = 0 then .inr (false, 0)
  else if freeAt a m current ≠ 0 ∧ size ≤ sizeAt a m current then .inr (true, current)
  else if nextAt a m current = 0 then .inr (false, current)
  else .inl (nextAt a m current)

def takeBlock (a : Arch) (current size : Nat) (m : Mem) : Mem :=
  let leftover := sizeAt a m current - size
  if a.blockSize + 8 < leftover then
    let c := current + a.blockSize + size
    let m := newFree a c (leftover - a.blockSize) (nextAt a m current) m
    setNext a current c (setFree a current 0 (setSize a current size m))
  else setFree a current 0 m

def malloc (a : Arch) (frames : Nat → Option Mem) (size : Nat) (h : Heap) : Option (Nat × Heap) :=
  if size = 0 then some (0, h)
  else
    let size := align16 a size
    if h.head = 0 then
      match sbrkLocked a frames (a.signed (a.blockSize + size)) h with
      | none => none
      | some (r, h') =>
        if r = a.noBreak then some (0, h')
        else
          some (a.heapBase + a.blockSize, { h' with
            head := a.heapBase
            mem := newLast a a.heapBase size h'.mem })
    else
      match loop (fitTurn a h.mem size) walkBound h.head with
      | none => none
      | some (true, current) => some (current + a.blockSize, { h with mem := takeBlock a current size h.mem })
      | some (false, current) =>
        let nextAddr := current + a.blockSize + sizeAt a h.mem current
        match sbrkLocked a frames (a.signed (a.blockSize + size)) h with
        | none => none
        | some (r, h') =>
          if r = a.noBreak ∨ r ≠ nextAddr then some (0, h')
          else
            some (nextAddr + a.blockSize, { h' with
              mem := setNext a current nextAddr (newLast a nextAddr size h'.mem) })

/-- One turn of the search for the block before `block`. -/
def prevTurn (a : Arch) (m : Mem) (block prev : Nat) : Nat ⊕ Nat :=
  if prev ≠ 0 ∧ nextAt a m prev ≠ block then .inl (nextAt a m prev) else .inr prev

def freeBlock (a : Arch) (block : Nat) (m : Mem) : Mem :=
  let m := setFree a block 1 m
  let next := nextAt a m block
  if next ≠ 0 ∧ freeAt a m next ≠ 0 then absorb a block next m else m

def free (a : Arch) (ptr : Nat) (h : Heap) : Option Heap :=
  if ptr = 0 then some h
  else if ptr % 16 ≠ 0 then some h
  else
    let block := ptr - a.blockSize
    if block < a.heapBase ∨ h.heapEnd ≤ block then some h
    else if freeAt a h.mem block ≠ 0 then some h
    else
      let m := freeBlock a block h.mem
      match loop (prevTurn a m block) walkBound h.head with
      | none => none
      | some prev =>
        some { h with mem := if prev ≠ 0 ∧ freeAt a m prev ≠ 0 then absorb a prev block m else m }

def calloc (a : Arch) (frames : Nat → Option Mem) (num size : Nat) (h : Heap) : Option (Nat × Heap) :=
  if num = 0 ∨ size = 0 then some (0, h)
  else if (2 ^ a.bits - 1) / num < size then some (0, h)
  else
    let total := num * size
    match malloc a frames total h with
    | none => none
    | some (ptr, h') => if ptr = 0 then some (0, h') else some (ptr, { h' with mem := Bytes.fill h'.mem ptr total 0 })

/-- The block is cut down to the size, and what is split off is joined with the block behind it, if that is free. -/
def shrinkBlock (a : Arch) (block newSize : Nat) (m : Mem) : Mem :=
  let leftover := sizeAt a m block - newSize
  if a.blockSize + 16 < leftover then
    let c := block + a.blockSize + newSize
    let m := newFree a c (leftover - a.blockSize) (nextAt a m block) m
    let m := setNext a block c (setSize a block newSize m)
    if nextAt a m c ≠ 0 ∧ freeAt a m (nextAt a m c) ≠ 0 then absorb a c (nextAt a m c) m else m
  else m

def realloc (a : Arch) (frames : Nat → Option Mem) (ptr newSize : Nat) (h : Heap) : Option (Nat × Heap) :=
  if ptr = 0 then malloc a frames newSize h
  else if newSize = 0 then (free a ptr h).map (fun h' => (0, h'))
  else
    let newSize := align16 a newSize
    let block := ptr - a.blockSize
    if block < a.heapBase ∨ h.heapEnd ≤ block then some (0, h)
    else if newSize ≤ sizeAt a h.mem block then some (ptr, { h with mem := shrinkBlock a block newSize h.mem })
    else
      let next := nextAt a h.mem block
      let combined := a.word (sizeAt a h.mem block + a.blockSize + sizeAt a h.mem next)
      if next ≠ 0 ∧ freeAt a h.mem next ≠ 0 ∧ newSize ≤ combined then
        some (ptr, { h with mem := absorb a block next h.mem })
      else
        let oldSize := sizeAt a h.mem block
        match malloc a frames newSize h with
        | none => none
        | some (newPtr, h') =>
          if newPtr = 0 then some (0, h')
          else
            let m := copy h'.mem newPtr h'.mem ptr oldSize
            (free a ptr { h' with mem := m }).map (fun h' => (newPtr, h'))

/-! ## Runs -/

/-- What a caller holds: the pointer, and the size that was asked for. -/
structure Alloc where
  ptr : Nat
  size : Nat
  deriving DecidableEq

structure HeapState where
  heap : Heap
  /-- The allocations that were returned and not given back. -/
  live : List Alloc

/-- A call, with the frames of its pages; `write` is a holder that writes a byte of its payload. -/
inductive HeapCall
  | malloc (size : Nat) (frames : Nat → Option Mem)
  | free (ptr : Nat)
  | calloc (num size : Nat) (frames : Nat → Option Mem)
  | realloc (ptr size : Nat) (frames : Nat → Option Mem)
  | write (addr : Nat) (x : Byte)

def HeapCall.exec (a : Arch) (h : Heap) : HeapCall → Option (Nat × Heap)
  | .malloc size frames => Mm.malloc a frames size h
  | .free ptr => (Mm.free a ptr h).map (fun h' => (0, h'))
  | .calloc num size frames => Mm.calloc a frames num size h
  | .realloc ptr size frames => Mm.realloc a frames ptr size h
  | .write addr x => some (0, { h with mem := Bytes.fill h.mem addr 1 x })

def dropPtr (ptr : Nat) (live : List Alloc) : List Alloc := live.filter (fun x => decide (x.ptr ≠ ptr))

def gain (r size : Nat) (live : List Alloc) : List Alloc := if r = 0 then live else ⟨r, size⟩ :: live

/-- What is held after the call has returned `r`. -/
def HeapCall.hold (r : Nat) (live : List Alloc) : HeapCall → List Alloc
  | .malloc size _ => gain r size live
  | .free ptr => dropPtr ptr live
  | .calloc num size _ => gain r (num * size) live
  | .realloc ptr size _ => if r = 0 ∧ size ≠ 0 then live else gain r size (dropPtr ptr live)
  | .write _ _ => live

/-- A call in a state: what it returns, unless a walk used up its bound, and the next state. -/
def HeapCall.step (a : Arch) (s : HeapState) (c : HeapCall) : Option Nat × HeapState :=
  match c.exec a s.heap with
  | none => (none, s)
  | some (r, h) => (some r, ⟨h, c.hold r s.live⟩)

/-- Pointers are live or NULL, a request is not larger than the arena, and a holder writes into its own payload. -/
def HeapCall.Legal (a : Arch) (s : HeapState) : HeapCall → Prop
  | .malloc size _ => size ≤ heapSize
  | .free ptr => ptr = 0 ∨ ∃ x ∈ s.live, x.ptr = ptr
  | .calloc num size _ =>
    num < 2 ^ a.bits ∧ size < 2 ^ a.bits ∧ (num * size ≤ heapSize ∨ 2 ^ a.bits ≤ num * size)
  | .realloc ptr size _ => size ≤ heapSize ∧ (ptr = 0 ∨ ∃ x ∈ s.live, x.ptr = ptr)
  | .write addr _ => ∃ x ∈ s.live, x.ptr ≤ addr ∧ addr < x.ptr + x.size

instance (a : Arch) (s : HeapState) : (c : HeapCall) → Decidable (c.Legal a s)
  | .malloc size _ => inferInstanceAs (Decidable (size ≤ heapSize))
  | .free ptr => inferInstanceAs (Decidable (ptr = 0 ∨ ∃ x ∈ s.live, x.ptr = ptr))
  | .calloc num size _ =>
    inferInstanceAs (Decidable (num < 2 ^ a.bits ∧ size < 2 ^ a.bits ∧
      (num * size ≤ heapSize ∨ 2 ^ a.bits ≤ num * size)))
  | .realloc ptr size _ => inferInstanceAs (Decidable (size ≤ heapSize ∧ (ptr = 0 ∨ ∃ x ∈ s.live, x.ptr = ptr)))
  | .write addr _ => inferInstanceAs (Decidable (∃ x ∈ s.live, x.ptr ≤ addr ∧ addr < x.ptr + x.size))

end Mm
end AmitX
