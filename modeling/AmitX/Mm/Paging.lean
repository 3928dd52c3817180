import AmitX.Lib.Radix
import AmitX.Mm.Vmm
import Mathlib.Data.Nat.Bitwise
/-!
# Paging — page tables of four levels (`paging.c`, `x86_64`)

Physical memory is frames of 512 words.  `pagingInit` builds the tables at their physical addresses; after it has loaded
the root, the code reaches every table at a virtual address through entry 510 of the root, and `translate` is the walk of
the processor that finds the frame behind such an address.  An access to an address without a translation is a page
fault, which has no answer.  `alloc n` is the answer of the `n`-th call of `pmm_alloc_frame`, none when it has no frame.
The entries that the processor caches, the flags that it sets and the spinlock are left out.
-/
namespace AmitX
namespace Mm
namespace X64

open Radix

def pagePresent : Nat := 0x001
def pageWritable : Nat := 0x002
def pageHuge : Nat := 0x080
def pageNx : Nat := 2 ^ 63
def pageMask : Nat := 0xFFF
def pageFlagMask : Nat := pageMask ||| pageNx
def huge2M : Nat := 2 * 1024 * 1024

def present (e : Nat) : Bool := e &&& pagePresent != 0

/-- `entry & PAGE_HUGE`. -/
def isHuge (e : Nat) : Bool := e &&& pageHuge != 0

def pteAddr (e : Nat) : Nat := e &&& 0x000FFFFFFFFFF000

def idxPml4 (v : Nat) : Nat := v / 2 ^ 39 % 512
def idxPdpt (v : Nat) : Nat := v / 2 ^ 30 % 512
def idxPd (v : Nat) : Nat := v / 2 ^ 21 % 512
def idxPt (v : Nat) : Nat := v / 2 ^ 12 % 512

def directMapBase : Nat := 0xFFFF800000000000
def directMapSize : Nat := 64 * 2 ^ 40
def kernelVirtBase : Nat := 0xFFFFFFFF80000000

/-- `__kernel_phys_start` of the linker script. -/
def kernelPhysStart : Nat := 0x00200000

def recursivePml4Index : Nat := 510
def recursivePtBase : Nat := 0xFFFF000000000000 ||| recursivePml4Index <<< 39
def recursivePdBase : Nat := recursivePtBase ||| recursivePml4Index <<< 30
def recursivePdptBase : Nat := recursivePdBase ||| recursivePml4Index <<< 21
def recursivePml4Base : Nat := recursivePdptBase ||| recursivePml4Index <<< 12

def pml4Virt : Nat := recursivePml4Base
def pdptVirt (pml4 : Nat) : Nat := recursivePdptBase + pml4 * pageSize
def pdVirtAt (pml4 pdpt : Nat) : Nat := recursivePdBase + pml4 * 2 ^ 21 + pdpt * pageSize
def ptVirtAt (pml4 pdpt pd : Nat) : Nat := recursivePtBase + pml4 * 2 ^ 30 + pdpt * 2 ^ 21 + pd * pageSize

/-- Physical memory: the words of the frame at an address. -/
abbrev Ram := Nat → Nat → Nat

structure Tables where
  ram : Ram
  root : Nat
  /-- How often `pmm_alloc_frame` was called. -/
  allocs : Nat

section

variable (alloc : Nat → Option Nat)

def Tables.allocFrame (s : Tables) : Option Nat × Tables := (alloc s.allocs, { s with allocs := s.allocs + 1 })

def Tables.setWord (f i w : Nat) (s : Tables) : Tables := { s with ram := Radix.setWord f i w s.ram }

/-- `memset` of a frame with zeros. -/
def Tables.clear (f : Nat) (s : Tables) : Tables := { s with ram := Radix.clear 0 f s.ram }

/-! ## `paging_init` -/

def bootEnsure (f i : Nat) (s : Tables) : Option Tables :=
  if present (s.ram f i) then some s
  else
    match s.allocFrame alloc with
    | (none, _) => none
    | (some frame, s) => some ((s.clear frame).setWord f i (frame ||| pagePresent ||| pageWritable))

def bootMap2M (phys virt flags : Nat) (s : Tables) : Option Tables :=
  (bootEnsure alloc s.root (idxPml4 virt) s).bind fun s =>
    let pdpt := pteAddr (s.ram s.root (idxPml4 virt))
    (bootEnsure alloc pdpt (idxPdpt virt) s).map fun s =>
      let pd := pteAddr (s.ram pdpt (idxPdpt virt))
      s.setWord pd (idxPd virt)
        (phys / huge2M * huge2M ||| pagePresent ||| pageHuge ||| flags &&& pageFlagMask)

def bootMap4K (phys virt flags : Nat) (s : Tables) : Option Tables :=
  (bootEnsure alloc s.root (idxPml4 virt) s).bind fun s =>
    let pdpt := pteAddr (s.ram s.root (idxPml4 virt))
    (bootEnsure alloc pdpt (idxPdpt virt) s).bind fun s =>
      let pd := pteAddr (s.ram pdpt (idxPdpt virt))
      if isHuge (s.ram pd (idxPd virt)) then none
      else
        (bootEnsure alloc pd (idxPd virt) s).map fun s =>
          let pt := pteAddr (s.ram pd (idxPd virt))
          s.setWord pt (idxPt virt) (pteAddr phys ||| pagePresent ||| flags &&& pageFlagMask)

/-- The loop of `boot_map_range_2m`, with `n` pages to go. -/
def bootPages2M (flags : Nat) : Nat → Nat → Nat → Tables → Option Tables
  | 0, _, _, s => some s
  | n + 1, p, v, s => (bootMap2M alloc p v flags s).bind (bootPages2M flags n (p + huge2M) (v + huge2M))

def bootMapRange2M (phys virt length flags : Nat) (s : Tables) : Option Tables :=
  let p := phys / huge2M * huge2M
  let v := virt / huge2M * huge2M
  let vEnd := (virt + length + huge2M - 1) / huge2M * huge2M
  bootPages2M alloc flags ((vEnd - v) / huge2M) p v s

/-- The loop over the pages of the kernel image, with `n` pages to go. -/
def bootKernel : Nat → Nat → Tables → Option Tables
  | 0, _, s => some s
  | n + 1, p, s => (bootMap4K alloc p (kernelVirtBase + p) pageWritable s).bind (bootKernel n (p + pageSize))

/-- `ident`: the bytes that are mapped at their own addresses. -/
def identitySize (ram : Nat) : Nat := max (min ram 0x100000000 / huge2M * huge2M) huge2M

/-- `dlen`: the bytes that are mapped at `DIRECT_MAP_BASE`. -/
def directSize (ram : Nat) : Nat := (min ram directMapSize + huge2M - 1) / huge2M * huge2M

/-- The pages of the loop `for (p = phys_start; p < phys_end; p += PAGE_SIZE)`. -/
def kernelPages (kernelEnd : Nat) : Nat :=
  ((kernelEnd + pageMask) / pageSize * pageSize - kernelPhysStart + pageMask) / pageSize

/-- `paging_init`, none when it fails; `ram` is the size of the memory, and the kernel image ends at `kernelEnd`. -/
def pagingInit (ram kernelEnd : Nat) (mem : Ram) : Option Tables :=
  match (Tables.mk mem 0 0).allocFrame alloc with
  | (none, _) => none
  | (some root, s) =>
    ((((bootMapRange2M alloc 0 0 (identitySize ram) pageWritable ({ s with root := root }.clear root)).bind
      (bootMapRange2M alloc 0 directMapBase (directSize ram) (pageWritable ||| pageNx))).bind
      (bootKernel alloc (kernelPages kernelEnd) kernelPhysStart)).map fun s =>
      s.setWord s.root recursivePml4Index (s.root ||| pagePresent ||| pageWritable))

end

/-! ## The processor -/

def translate (s : Tables) (v : Nat) : Option Nat :=
  let e4 := s.ram s.root (idxPml4 v)
  if !present e4 then none
  else
    let e3 := s.ram (pteAddr e4) (idxPdpt v)
    if !present e3 then none
    else if isHuge e3 then some (pteAddr e3 / 2 ^ 30 * 2 ^ 30 + v % 2 ^ 30)
    else
      let e2 := s.ram (pteAddr e3) (idxPd v)
      if !present e2 then none
      else if isHuge e2 then some (pteAddr e2 / 2 ^ 21 * 2 ^ 21 + v % 2 ^ 21)
      else
        let e1 := s.ram (pteAddr e2) (idxPt v)
        if !present e1 then none else some (pteAddr e1 + v % 2 ^ 12)

/-- `table[i]` of a table at a virtual address. -/
def readEntry (s : Tables) (table i : Nat) : Option Nat :=
  (translate s (table + 8 * i)).map fun a => s.ram (a / pageSize * pageSize) (a % pageSize / 8)

/-- `table[i] = e`. -/
def writeEntry (table i e : Nat) (s : Tables) : Option Tables :=
  (translate s (table + 8 * i)).map fun a => s.setWord (a / pageSize * pageSize) (a % pageSize / 8) e

/-- `memset` of a page of 4096 bytes at a virtual address, which is the start of a page. -/
def clearPage (table : Nat) (s : Tables) : Option Tables :=
  (translate s table).map fun a => s.clear (a / pageSize * pageSize)

/-! ## The calls -/

/-- `ensure_table` of `table[i]`; false is `-1`. -/
def ensureTable (alloc : Nat → Option Nat) (table i tableVirt : Nat) (s : Tables) : Option (Bool × Tables) :=
  (readEntry s table i).bind fun e =>
    if present e then some (!isHuge e, s)
    else
      match s.allocFrame alloc with
      | (none, s) => some (false, s)
      | (some frame, s) =>
        ((writeEntry table i (frame ||| pagePresent ||| pageWritable) s).bind (clearPage tableVirt)).map fun s => (true, s)

/-- `map_page`; false is `-1`, and no answer is a page fault. -/
def mapPage (alloc : Nat → Option Nat) (phys virt flags : Nat) (s : Tables) : Option (Bool × Tables) :=
  if phys % pageSize ≠ 0 ∨ virt % pageSize ≠ 0 then some (false, s)
  else
    let i4 := idxPml4 virt
    let i3 := idxPdpt virt
    let i2 := idxPd virt
    let i1 := idxPt virt
    (ensureTable alloc pml4Virt i4 (pdptVirt i4) s).bind fun (ok, s) =>
      if !ok then some (false, s)
      else
        (ensureTable alloc (pdptVirt i4) i3 (pdVirtAt i4 i3) s).bind fun (ok, s) =>
          if !ok then some (false, s)
          else
            (ensureTable alloc (pdVirtAt i4 i3) i2 (ptVirtAt i4 i3 i2) s).bind fun (ok, s) =>
              if !ok then some (false, s)
              else
                (writeEntry (ptVirtAt i4 i3 i2) i1 (pteAddr phys ||| pagePresent ||| flags &&& pageFlagMask) s).map
                  fun s => (true, s)

def unmapPage (virt : Nat) (s : Tables) : Option Tables :=
  let i4 := idxPml4 virt
  let i3 := idxPdpt virt
  let i2 := idxPd virt
  let i1 := idxPt virt
  (readEntry s pml4Virt i4).bind fun e =>
    if !present e then some s
    else
      (readEntry s (pdptVirt i4) i3).bind fun e =>
        if !present e then some s
        else
          (readEntry s (pdVirtAt i4 i3) i2).bind fun e =>
            if !present e || isHuge e then some s else writeEntry (ptVirtAt i4 i3 i2) i1 0 s

def virtToPhys (virt : Nat) (s : Tables) : Option Nat :=
  let i4 := idxPml4 virt
  let i3 := idxPdpt virt
  let i2 := idxPd virt
  let i1 := idxPt virt
  (readEntry s pml4Virt i4).bind fun e =>
    if !present e then some physAddrInvalid
    else
      (readEntry s (pdptVirt i4) i3).bind fun e =>
        if !present e then some physAddrInvalid
        else
          (readEntry s (pdVirtAt i4 i3) i2).bind fun e =>
            if !present e then some physAddrInvalid
            else if isHuge e then some (pteAddr e ||| virt % huge2M)
            else
              (readEntry s (ptVirtAt i4 i3 i2) i1).bind fun e =>
                if !present e then some physAddrInvalid else some (pteAddr e ||| virt % pageSize)

end X64
end Mm
end AmitX
