import AmitX.Lib.Align
import AmitX.Lib.Run
import Mathlib.Logic.Function.Basic
/-!
# Pci — the windows of the BARs (`pci.c`)

`pci_parse_bars` reads the BARs of a function and finds their sizes by writing ones, and `pci_init` walks the list of the
functions and gives each BAR that has a size and no address the next window of its space.  Addresses and sizes are words
of `w` bits, 32 or 64; what a 32 bit probe gives is negated in a word, so that only 64 bit BARs have their true size where
words have 64 bits.

A function is its header's kind and its BARs.  Which functions the scan finds, in which order, is arbitrary, and the
messages and the command register are left out.
-/
namespace AmitX
namespace Hw

open Run Align

/-! ## Registers -/

/-- A register, of which a write changes the bits of the mask. -/
structure PciReg where
  value : BitVec 32
  mask : BitVec 32

def PciReg.write (v : BitVec 32) (r : PciReg) : PciReg :=
  { r with value := (r.value &&& ~~~r.mask) ||| (v &&& r.mask) }

def barTypeIo : BitVec 32 := 0x1

def barMemTypeMask : BitVec 32 := 0x6

def barMemType64 : BitVec 32 := 0x4

def barMemPrefetch : BitVec 32 := 0x8

def barMemAddrMask : BitVec 32 := 0xFFFFFFF0

def barIoAddrMask : BitVec 32 := 0xFFFFFFFC

structure PciBar (w : Nat) where
  raw : BitVec 32
  base : BitVec w
  size : BitVec w
  isIo : Bool
  is64 : Bool
  isPrefetch : Bool
  index : Nat
  assigned : Bool

/-- `pci_device_t`, with the function's registers from `PCI_BAR0` on. -/
structure PciDevice (w : Nat) where
  barCount : Nat
  bars : Nat → PciBar w
  regs : Nat → PciReg

variable {w : Nat}

def PciDevice.setBar (i : Nat) (f : PciBar w → PciBar w) (d : PciDevice w) : PciDevice w :=
  { d with bars := Function.update d.bars i (f (d.bars i)) }

def PciDevice.writeConfig (i : Nat) (v : BitVec 32) (d : PciDevice w) : PciDevice w :=
  { d with regs := Function.update d.regs i ((d.regs i).write v) }

/-! ## Sizes -/

/-- `~size + 1`, for the address bits of a probe; 0 for none. -/
def pciNegate (w : Nat) (bits : BitVec 32) : BitVec w := if bits = 0 then 0 else ~~~(bits.setWidth w) + 1

def pciBarGetSize (i : Nat) (d : PciDevice w) : BitVec w × PciDevice w :=
  let original := (d.regs i).value
  let d := d.writeConfig i 0xFFFFFFFF
  let probe := (d.regs i).value
  let d := d.writeConfig i original
  if probe = 0 ∨ probe = 0xFFFFFFFF then (0, d)
  else if probe &&& barTypeIo ≠ 0 then (pciNegate w (probe &&& barIoAddrMask), d)
  else if probe &&& barMemTypeMask = barMemType64 ∧ i < 5 then
    let upperOrig := (d.regs (i + 1)).value
    let d := d.writeConfig (i + 1) 0xFFFFFFFF
    let upperProbe := (d.regs (i + 1)).value
    let d := d.writeConfig (i + 1) upperOrig
    let size64 : BitVec 64 := (upperProbe.setWidth 64 <<< 32) ||| (probe &&& barMemAddrMask).setWidth 64
    (((~~~size64 + 1).setWidth 32).setWidth w, d)
  else (pciNegate w (probe &&& barMemAddrMask), d)

/-- `dev->bars[i].size = pci_bar_get_size(dev, i)`. -/
def pciSizeBar (i : Nat) (d : PciDevice w) : PciDevice w :=
  (pciBarGetSize i d).2.setBar i (fun b => { b with size := (pciBarGetSize i d).1 })

/-- The body of the loop of `pci_parse_bars`, with the next `i`. -/
def pciParseBar (i : Nat) (d : PciDevice w) : Nat × PciDevice w :=
  let raw := (d.regs i).value
  let d := d.setBar i (fun b => { b with raw := raw, index := i })
  if raw = 0 ∨ raw = 0xFFFFFFFF then
    (i + 1, d.setBar i (fun b => { b with base := 0, size := 0, isIo := false, is64 := false, isPrefetch := false }))
  else if raw &&& barTypeIo ≠ 0 then
    let d := d.setBar i (fun b => { b with isIo := true, base := (raw &&& barIoAddrMask).setWidth w, isPrefetch := false })
    (i + 1, pciSizeBar i (pciSizeBar i d))
  else
    let d := d.setBar i (fun b => { b with
      isIo := false, base := (raw &&& barMemAddrMask).setWidth w, isPrefetch := raw &&& barMemPrefetch ≠ 0 })
    if raw &&& barMemTypeMask = barMemType64 ∧ i < 5 then
      let d := pciSizeBar i (d.setBar i (fun b => { b with is64 := true }))
      let d := d.setBar (i + 1) (fun b => { b with base := 0, size := 0 })
      (i + 2, pciSizeBar (i + 1) d)
    else (i + 1, pciSizeBar i (pciSizeBar i d))

/-- The loop of `pci_parse_bars`; it ends within six turns. -/
def pciParseLoop : Nat → Nat → PciDevice w → PciDevice w
  | 0, _, d => d
  | n + 1, i, d => if i < d.barCount then pciParseLoop n (pciParseBar i d).1 (pciParseBar i d).2 else d

/-! ## Windows -/

/-- `pci_io_next` and `pci_mem_next`. -/
structure PciNext (w : Nat) where
  io : BitVec w
  mem : BitVec w

def pciNextInit (w : Nat) : PciNext w := ⟨0xC000#w, 0xE0000000#w⟩

/-- What `pci_assign_bar` returns and writes. -/
structure PciAssign (w : Nat) where
  ret : Int
  next : PciNext w
  bar : PciBar w
  /-- The registers that are written, in order. -/
  writes : List (Nat × BitVec 32)

/-- The end of `pci_assign_bar`, with a window. -/
def pciAssigned (i : Nat) (bar : PciBar w) (base : BitVec w) (next : PciNext w) : PciAssign w where
  ret := 0
  next := next
  bar := { bar with base := base, assigned := true }
  writes := (i, base.setWidth 32) :: if bar.is64 = true ∧ i < 5 then [(i + 1, 0)] else []

/-- `pci_assign_bar` for a BAR of the device. -/
def pciAssignBar (i : Nat) (bar : PciBar w) (next : PciNext w) : PciAssign w :=
  if bar.size = 0 then ⟨0, next, bar, []⟩
  else if bar.base ≠ 0 then ⟨0, next, bar, []⟩
  else
    let align := bar.size
    if bar.isIo then
      let io := (next.io + align - 1#w) &&& ~~~(align - 1#w)
      if io + bar.size > 0x10000#w then ⟨-1, { next with io := io }, bar, []⟩
      else pciAssigned i bar io { next with io := io + bar.size }
    else
      let mem := (next.mem + align - 1#w) &&& ~~~(align - 1#w)
      if mem + bar.size < mem then ⟨-1, { next with mem := mem }, bar, []⟩
      else pciAssigned i bar mem { next with mem := mem + bar.size }

structure PciState (w : Nat) where
  next : PciNext w
  devs : Nat → PciDevice w

/-- A call of `pci_assign_bar`: the BAR's number, the BAR before it and what it returned and wrote. -/
structure PciEvent (w : Nat) where
  bar : Nat
  before : PciBar w
  result : PciAssign w

/-- The body of the inner loop of `pci_init`, for a function of the list and one of its BARs. -/
def pciInitStep (s : PciState w) (c : Nat × Nat) : Option (PciEvent w) × PciState w :=
  let d := s.devs c.1
  let bar := d.bars c.2
  if bar.size ≠ 0 ∧ bar.base = 0 then
    let r := pciAssignBar c.2 bar s.next
    let d := r.writes.foldl (fun d write => d.writeConfig write.1 write.2) (d.setBar c.2 (fun _ => r.bar))
    (some ⟨c.2, bar, r⟩, ⟨r.next, Function.update s.devs c.1 d⟩)
  else (none, s)

/-! ## Functions -/

/-- The address bits of a window of `2 ^ k`. -/
def highBits (n k : Nat) : BitVec n := BitVec.allOnes n <<< k

/-- A BAR register with the window of `2 ^ k` bytes that it is for and its address, 0 where it has none yet: in I/O space,
where it may compare the low 16 bits only, in memory, below 1 MiB or not, or one of the two registers of a 64 bit BAR. -/
inductive PciSlot
  | empty
  | io (k : Nat) (wide : Bool) (addr : BitVec 32)
  | mem (k : Nat) (below1M prefetch : Bool) (addr : BitVec 32)
  | mem64 (k : Nat) (prefetch : Bool) (addr : BitVec 64)
  | upper (k : Nat) (addr : BitVec 64)

def PciSlot.reg : PciSlot → PciReg
  | .empty => ⟨0, 0⟩
  | .io k wide addr => ⟨addr ||| 0x1, highBits 32 k &&& if wide then 0xFFFFFFFF else 0xFFFF⟩
  | .mem k below1M prefetch addr =>
    ⟨addr ||| ((if below1M then 0x2 else 0) ||| if prefetch then 0x8 else 0), highBits 32 k⟩
  | .mem64 k prefetch addr =>
    ⟨addr.setWidth 32 ||| (0x4 ||| if prefetch then 0x8 else 0), (highBits 64 k).setWidth 32⟩
  | .upper k addr => ⟨(addr >>> 32).setWidth 32, (highBits 64 k >>> 32).setWidth 32⟩

/-- The sizes that a BAR of its kind can have, and an address that is a multiple of the size. -/
def PciSlot.Wf : PciSlot → Prop
  | .empty => True
  | .io k wide addr => 2 ≤ k ∧ k < (if wide then 32 else 16) ∧
      addr &&& (highBits 32 k &&& if wide then 0xFFFFFFFF else 0xFFFF) = addr
  | .mem k _ _ addr => 4 ≤ k ∧ k < 32 ∧ addr &&& highBits 32 k = addr
  | .mem64 k _ addr | .upper k addr => 4 ≤ k ∧ k < 64 ∧ addr &&& highBits 64 k = addr

/-- A function with its BARs: two of a bridge, six otherwise. -/
structure PciFunction where
  bridge : Bool
  slots : Nat → PciSlot
  /-- The registers of a bridge that are no BARs. -/
  others : Nat → PciReg
  wf : ∀ i, (slots i).Wf
  /-- The registers of a 64 bit BAR are two neighbours. -/
  pair : ∀ i k prefetch addr, slots i = .mem64 k prefetch addr →
    i + 1 < (if bridge then 2 else 6) ∧ slots (i + 1) = .upper k addr
  upper : ∀ i k addr, slots i = .upper k addr → ∃ j prefetch, i = j + 1 ∧ slots j = .mem64 k prefetch addr

def PciFunction.barCount (f : PciFunction) : Nat := if f.bridge then 2 else 6

/-- `pci_parse_bars`, on a device that was set to zero. -/
def pciParseBars (w : Nat) (f : PciFunction) : PciDevice w :=
  pciParseLoop 6 0
    { barCount := f.barCount
      bars := fun _ => ⟨0, 0, 0, false, false, false, 0, false⟩
      regs := fun i => if i < f.barCount then (f.slots i).reg else f.others i }

def PciFunction.none : PciFunction where
  bridge := false
  slots := fun _ => .empty
  others := fun _ => ⟨0, 0⟩
  wf := fun _ => trivial
  pair := fun _ _ _ _ h => by cases h
  upper := fun _ _ _ h => by cases h

/-- The state in which `pci_init` starts to walk the list `fs`. -/
def pciStart (w : Nat) (fs : List PciFunction) : PciState w :=
  ⟨pciNextInit w, fun i => pciParseBars w (fs.getD i .none)⟩

/-- The turns of the two loops of `pci_init`. -/
def pciWalk (fs : List PciFunction) : List (Nat × Nat) :=
  (List.range fs.length).flatMap (fun n => (List.range (fs.getD n .none).barCount).map (fun i => (n, i)))

def pciInit (w : Nat) (fs : List PciFunction) : List (Option (PciEvent w)) × PciState w :=
  run pciInitStep (pciStart w fs) (pciWalk fs)

/-! ## What the windows are -/

/-- The call gave a window out: it returned 0, and the base was 0 and is not any more. -/
def PciEvent.Given (e : PciEvent w) : Prop := e.result.ret = 0 ∧ e.before.base = 0 ∧ e.result.bar.base ≠ 0

def spaceEnd (isIo : Bool) : Nat := if isIo then 0x10000 else 2 ^ 32

/-- A window that is a multiple of its size, in its space, and whose address is what its register was written. -/
structure PciEvent.WindowOk (e : PciEvent w) : Prop where
  aligned : e.result.bar.size.toNat ∣ e.result.bar.base.toNat
  inside : e.result.bar.base.toNat + e.result.bar.size.toNat ≤ spaceEnd e.result.bar.isIo
  written : ∃ v, (e.bar, v) ∈ e.result.writes ∧ v.toNat = e.result.bar.base.toNat

def PciEvent.Apart (e e' : PciEvent w) : Prop :=
  e.result.bar.base.toNat + e.result.bar.size.toNat ≤ e'.result.bar.base.toNat ∨
    e'.result.bar.base.toNat + e'.result.bar.size.toNat ≤ e.result.bar.base.toNat

/-- The windows that were given out are in order, and those of one space apart. -/
structure WindowsOk (es : List (Option (PciEvent w))) : Prop where
  each : ∀ e, some e ∈ es → e.Given → e.WindowOk
  apart : es.Pairwise (fun a b => ∀ e e', a = some e → b = some e' → e.Given → e'.Given →
    e.result.bar.isIo = e'.result.bar.isIo → e.Apart e')

end Hw
end AmitX
