import AmitX.Hw.PciBars
import AmitX.Hw.PciCaps
import AmitX.Lib.Dfs
/-!
# PciScan — the enumeration of the buses (`pci.c`)

`pci_scan_bus` marks a bus, adds the functions that its devices have to the front of the list, and goes on to the bus
behind each function 0 that is a bridge.  The table of the buses is all that ends the recursion where bridges name buses
that were there before.

A function's configuration space is its registers, with the bits that a write changes; the probes of the BARs write to
them and put them back.  The heap does not fail, and the messages are left out.
-/
namespace AmitX
namespace Hw

/-- The registers of a function, by the number of the word. -/
abbrev PciRegs := Nat → PciReg

def PciRegs.bytes (regs : PciRegs) : ConfigSpace := fun offset =>
  ((regs (offset.toNat / 4)).value >>> (offset.toNat % 4 * 8)).setWidth 8

def headerTypeBridge : BitVec 8 := 0x01

def headerMultiFunc : BitVec 8 := 0x80

/-- `pci_device_t`, without the link. -/
structure PciDeviceInfo (w : Nat) where
  bus : BitVec 8
  device : Nat
  function : Nat
  vendorId : BitVec 16
  deviceId : BitVec 16
  command : BitVec 16
  status : BitVec 16
  revision : BitVec 8
  progIf : BitVec 8
  subclass : BitVec 8
  classCode : BitVec 8
  headerType : BitVec 8
  subsystemVendor : BitVec 32
  subsystemId : BitVec 32
  interruptLine : BitVec 8
  interruptPin : BitVec 8
  primaryBus : BitVec 8
  secondaryBus : BitVec 8
  subordinateBus : BitVec 8
  bars : Nat → PciBar w
  barCount : Nat
  capabilities : List PciCapability

structure PciScan (w : Nat) where
  /-- `visited_buses`. -/
  visited : BitVec 8 → Bool
  devices : List (PciDeviceInfo w)
  count : Nat
  spaces : BitVec 8 → Nat → Nat → PciRegs

variable {w : Nat}

/-- `pci_read_device_info`, with the registers behind it; `none` where the capabilities take more turns than given. -/
def pciReadDeviceInfo (w turns : Nat) (regs : PciRegs) (bus : BitVec 8) (device function : Nat) :
    Option (PciDeviceInfo w × PciRegs) :=
  let c := regs.bytes
  let reg0 := pciReadConfig c 0x00
  let reg2 := pciReadConfig c 0x04
  let reg4 := pciReadConfig c 0x08
  let reg6 := pciReadConfig c 0x0E
  let reg9 := pciReadConfig c 0x2C
  let reg12 := pciReadConfig c 0x3C
  let headerType : BitVec 8 := (reg6 >>> 16).setWidth 8
  let regBridge := if headerType = headerTypeBridge then pciReadConfig c 0x18 else 0
  let parsed : PciDevice w := pciParseLoop 6 0
    { barCount := if headerType = headerTypeBridge then 2 else 6
      bars := fun _ => ⟨0, 0, 0, false, false, false, 0, false⟩
      regs := fun i => regs (4 + i) }
  let regs : PciRegs := fun i => if i < 4 then regs i else parsed.regs (i - 4)
  (pciParseCapabilities turns regs.bytes).map (fun caps =>
    ({ bus := bus
       device := device
       function := function
       vendorId := reg0.setWidth 16
       deviceId := (reg0 >>> 16).setWidth 16
       command := reg2.setWidth 16
       status := (reg2 >>> 16).setWidth 16
       revision := reg4.setWidth 8
       progIf := (reg4 >>> 8).setWidth 8
       subclass := (reg4 >>> 16).setWidth 8
       classCode := (reg4 >>> 24).setWidth 8
       headerType := headerType
       subsystemVendor := (reg9.setWidth 16).setWidth 32
       subsystemId := ((reg9 >>> 16).setWidth 16).setWidth 32
       interruptLine := reg12.setWidth 8
       interruptPin := (reg12 >>> 8).setWidth 8
       primaryBus := regBridge.setWidth 8
       secondaryBus := (regBridge >>> 8).setWidth 8
       subordinateBus := (regBridge >>> 16).setWidth 8
       bars := parsed.bars
       barCount := parsed.barCount
       capabilities := caps }, regs))

def pciAddDevice (dev : PciDeviceInfo w) (s : PciScan w) : PciScan w :=
  { s with devices := dev :: s.devices, count := s.count + 1 }

def pciVendor (regs : PciRegs) : BitVec 16 := (pciReadConfig regs.bytes 0x00).setWidth 16

def pciFound (turns : Nat) (bus : BitVec 8) (dev func : Nat) (s : PciScan w) :
    Option (PciDeviceInfo w × PciScan w) :=
  (pciReadDeviceInfo w turns (s.spaces bus dev func) bus dev func).map (fun r =>
    let functions := Function.update (s.spaces bus dev) func r.2
    let devices := Function.update (s.spaces bus) dev functions
    (r.1, pciAddDevice r.1 { s with spaces := Function.update s.spaces bus devices }))

def pciScanFunction (turns : Nat) (bus : BitVec 8) (dev : Nat) (s : PciScan w) (func : Nat) : Option (PciScan w) :=
  if pciVendor (s.spaces bus dev func) = 0xFFFF then some s
  else (pciFound turns bus dev func s).map Prod.snd

/-- The body of the loop over the devices; `scan` is the call of `pci_scan_bus`. -/
def pciScanDevice (turns : Nat) (scan : BitVec 8 → PciScan w → Option (PciScan w)) (bus : BitVec 8) (s : PciScan w)
    (dev : Nat) : Option (PciScan w) :=
  if pciVendor (s.spaces bus dev 0) = 0xFFFF then some s
  else
    (pciFound turns bus dev 0 s).bind fun r =>
      let device := r.1
      (if device.headerType &&& headerMultiFunc ≠ 0 then (List.range' 1 7).foldlM (pciScanFunction turns bus dev) r.2
        else some r.2).bind fun s =>
        if device.headerType = headerTypeBridge ∧ device.secondaryBus ≠ 0 then scan device.secondaryBus s else some s

/-- `pci_scan_bus`; `none` where it goes deeper than given. -/
def pciScanBus (turns : Nat) : Nat → BitVec 8 → PciScan w → Option (PciScan w)
  | 0, _, _ => none
  | depth + 1, bus, s =>
    if s.visited bus then some s
    else (List.range 32).foldlM (pciScanDevice turns (pciScanBus turns depth) bus)
      { s with visited := Function.update s.visited bus true }

def scanStart (w : Nat) (spaces : BitVec 8 → Nat → Nat → PciRegs) : PciScan w := ⟨fun _ => false, [], 0, spaces⟩

/-! ## What is enumerated -/

variable (spaces : BitVec 8 → Nat → Nat → PciRegs)

def PciRegs.headerType (regs : PciRegs) : BitVec 8 := regs.bytes 0x0E

def PciRegs.secondaryBus (regs : PciRegs) : BitVec 8 := regs.bytes 0x19

def BridgeTo (bus bus' : BitVec 8) : Prop :=
  ∃ dev < 32, pciVendor (spaces bus dev 0) ≠ 0xFFFF ∧ (spaces bus dev 0).headerType = headerTypeBridge ∧
    (spaces bus dev 0).secondaryBus = bus'

/-- The function is there, on a device that has more than one or as its function 0. -/
def Present (bus : BitVec 8) (dev func : Nat) : Prop :=
  dev < 32 ∧ func < 8 ∧ pciVendor (spaces bus dev 0) ≠ 0xFFFF ∧
    (func = 0 ∨ (spaces bus dev 0).headerType &&& headerMultiFunc ≠ 0 ∧ pciVendor (spaces bus dev func) ≠ 0xFFFF)

def PciDeviceInfo.place (d : PciDeviceInfo w) : BitVec 8 × Nat × Nat := (d.bus, d.device, d.function)

/-- The list has each function of the buses that are reached once. -/
structure Enumerated (devices : List (PciDeviceInfo w)) : Prop where
  nodup : (devices.map PciDeviceInfo.place).Nodup
  exact : ∀ bus dev func, (bus, dev, func) ∈ devices.map PciDeviceInfo.place ↔
    Relation.ReflTransGen (BridgeTo spaces) 0 bus ∧ Present spaces bus dev func

/-! ## Registers -/

section

variable (regs : PciRegs) (reg : BitVec 8)

theorem append_bytes (v : BitVec 32) : (v >>> (3 * 8)).setWidth 8 ++ (v >>> (2 * 8)).setWidth 8 ++
    (v >>> (1 * 8)).setWidth 8 ++ (v >>> (0 * 8)).setWidth 8 = v := by
  ext i hi
  simp only [BitVec.getElem_append, BitVec.getElem_setWidth, BitVec.getLsbD_ushiftRight]
  grind

theorem toNat_and_fc : (reg &&& 0xFC).toNat = reg.toNat / 4 * 4 := by
  have hlow : (reg &&& 3).toNat = reg.toNat % 4 := by
    rw [BitVec.toNat_and]
    exact Nat.and_two_pow_sub_one_eq_mod reg.toNat 2
  have hhigh : (reg &&& 0xFC).toNat ≤ 252 := by
    rw [BitVec.toNat_and]
    exact Nat.and_le_right
  have hsum := congrArg BitVec.toNat (and_mask reg).2.2
  rw [BitVec.ofNat_toNat, BitVec.setWidth_eq, BitVec.toNat_add, hlow] at hsum
  omega

theorem bytes_word {k : Nat} (hk : k < 4) : regs.bytes ((reg &&& 0xFC) + BitVec.ofNat 8 k) =
    ((regs (reg.toNat / 4)).value >>> (k * 8)).setWidth 8 := by
  have hoffset : ((reg &&& 0xFC) + BitVec.ofNat 8 k).toNat = reg.toNat / 4 * 4 + k := by
    have := reg.isLt
    rw [BitVec.toNat_add, toNat_and_fc, BitVec.toNat_ofNat]
    omega
  have hword : (reg.toNat / 4 * 4 + k) / 4 = reg.toNat / 4 := by omega
  have hbyte : (reg.toNat / 4 * 4 + k) % 4 = k := by omega
  rw [PciRegs.bytes, hoffset, hword, hbyte]

theorem pciReadConfig_bytes : pciReadConfig regs.bytes reg = (regs (reg.toNat / 4)).value := by
  have h0 : regs.bytes (reg &&& 0xFC) = ((regs (reg.toNat / 4)).value >>> (0 * 8)).setWidth 8 := by
    simpa using bytes_word regs reg (k := 0) (by decide)
  have h1 : regs.bytes ((reg &&& 0xFC) + 1) = _ := bytes_word regs reg (k := 1) (by decide)
  have h2 : regs.bytes ((reg &&& 0xFC) + 2) = _ := bytes_word regs reg (k := 2) (by decide)
  have h3 : regs.bytes ((reg &&& 0xFC) + 3) = _ := bytes_word regs reg (k := 3) (by decide)
  unfold pciReadConfig
  dsimp only
  rw [h0, h1, h2, h3]
  exact append_bytes _

theorem headerType_eq (c : ConfigSpace) : (pciReadConfig c 0x0E >>> 16).setWidth 8 = c 0x0E :=
  (byte_of_append (c 0x0F) (c 0x0E) (c 0x0D) (c 0x0C)).2.2.1

theorem secondaryBus_eq (c : ConfigSpace) : (pciReadConfig c 0x18 >>> 8).setWidth 8 = c 0x19 :=
  (byte_of_append (c 0x1B) (c 0x1A) (c 0x19) (c 0x18)).2.1

end

theorem pciParseBar_regs (i : Nat) (d : PciDevice w) : (pciParseBar i d).2.regs = d.regs := by
  unfold pciParseBar
  dsimp only
  split
  · rfl
  · split
    · simp only [pciSizeBar_eq, regs_setBar]
    · split
      · simp only [pciSizeBar_eq, regs_setBar]
      · simp only [pciSizeBar_eq, regs_setBar]

theorem pciParseLoop_regs (n i : Nat) (d : PciDevice w) : (pciParseLoop n i d).regs = d.regs := by
  induction n generalizing i d with
  | zero => rfl
  | succ n ih =>
    unfold pciParseLoop
    split
    · rw [ih, pciParseBar_regs]
    · rfl

structure PciDeviceInfo.ReadFrom (d : PciDeviceInfo w) (regs : PciRegs) (bus : BitVec 8) (device function : Nat) :
    Prop where
  place : d.place = (bus, device, function)
  headerType : d.headerType = regs.headerType
  secondaryBus : regs.headerType = headerTypeBridge → d.secondaryBus = regs.secondaryBus

theorem pciReadDeviceInfo_ok {turns : Nat} {regs : PciRegs} {caps : List PciCapability}
    (hcaps : pciParseCapabilities turns regs.bytes = some caps) (bus : BitVec 8) (device function : Nat) :
    ∃ d : PciDeviceInfo w, pciReadDeviceInfo w turns regs bus device function = some (d, regs) ∧
      d.ReadFrom regs bus device function := by
  unfold pciReadDeviceInfo
  dsimp only
  have hregs : (fun i => if i < 4 then regs i else (pciParseLoop 6 0
      ({ barCount := if (pciReadConfig regs.bytes 0x0E >>> 16).setWidth 8 = headerTypeBridge then 2 else 6
         bars := fun _ => ⟨0, 0, 0, false, false, false, 0, false⟩
         regs := fun i => regs (4 + i) } : PciDevice w)).regs (i - 4)) = regs := by
    funext i
    rw [pciParseLoop_regs]
    split
    · rfl
    · exact congrArg regs (by omega)
  rw [hregs, hcaps]
  refine ⟨_, rfl, rfl, headerType_eq _, fun hbridge => ?_⟩
  dsimp only
  rw [if_pos ((headerType_eq _).trans hbridge)]
  exact secondaryBus_eq _

/-! ## The scan as a walk -/

def presentFunctions (bus : BitVec 8) (dev : Nat) : List Nat :=
  (if (spaces bus dev 0).headerType &&& headerMultiFunc ≠ 0 then
    ((List.range' 1 7).filter (fun func => pciVendor (spaces bus dev func) ≠ 0xFFFF)).reverse else []) ++ [0]

variable (info : BitVec 8 → Nat → Nat → PciDeviceInfo w)

def scannedDevice (bus : BitVec 8) (dev : Nat) : List (PciDeviceInfo w) × Option (BitVec 8) :=
  if pciVendor (spaces bus dev 0) = 0xFFFF then ([], none)
  else ((presentFunctions spaces bus dev).map (info bus dev),
    if (spaces bus dev 0).headerType = headerTypeBridge ∧ (spaces bus dev 0).secondaryBus ≠ 0 then
      some (spaces bus dev 0).secondaryBus else none)

def busSteps (bus : BitVec 8) : List (List (PciDeviceInfo w) × Option (BitVec 8)) :=
  (List.range 32).map (scannedDevice spaces info bus)

def scanOf (t : Dfs.State (BitVec 8) (PciDeviceInfo w)) : PciScan w := ⟨t.visited, t.out, t.out.length, spaces⟩

section Walk

variable {spaces info} {turns : Nat} {bus : BitVec 8} {dev func : Nat} {t : Dfs.State (BitVec 8) (PciDeviceInfo w)}

theorem add_add (items items' : List (PciDeviceInfo w)) : (t.add items).add items' = t.add (items' ++ items) := by
  simp [Dfs.State.add]

section Read

variable (hread : ∀ bus dev func, pciReadDeviceInfo w turns (spaces bus dev func) bus dev func =
  some (info bus dev func, spaces bus dev func))
variable (hinfo : ∀ bus dev func, (info bus dev func).ReadFrom (spaces bus dev func) bus dev func)
include hread

theorem pciFound_scanOf : pciFound turns bus dev func (scanOf spaces t) =
    some (info bus dev func, scanOf spaces (t.add [info bus dev func])) := by
  unfold pciFound
  simp only [scanOf, hread, Option.map_some, Function.update_eq_self]
  rfl

theorem scanFunctions_scanOf (fs : List Nat) : fs.foldlM (pciScanFunction turns bus dev) (scanOf spaces t) =
    some (scanOf spaces (t.add (((fs.filter (fun func => pciVendor (spaces bus dev func) ≠ 0xFFFF)).reverse).map
      (info bus dev)))) := by
  induction fs generalizing t with
  | nil => rfl
  | cons func fs ih =>
    rw [List.foldlM_cons, pciScanFunction]
    by_cases hv : pciVendor (spaces bus dev func) = 0xFFFF
    · rw [if_pos (show pciVendor ((scanOf spaces t).spaces bus dev func) = 0xFFFF from hv)]
      rw [List.filter_cons_of_neg (by simpa using hv)]
      exact ih
    · rw [if_neg (show ¬pciVendor ((scanOf spaces t).spaces bus dev func) = 0xFFFF from hv), pciFound_scanOf hread]
      rw [List.filter_cons_of_pos (by simpa using hv)]
      refine (ih (t := t.add [info bus dev func])).trans ?_
      rw [add_add]
      simp

include hinfo

theorem pciScanDevice_scanOf (scan : BitVec 8 → PciScan w → Option (PciScan w)) :
    pciScanDevice turns scan bus (scanOf spaces t) dev =
      match (scannedDevice spaces info bus dev).2 with
      | none => some (scanOf spaces (t.add (scannedDevice spaces info bus dev).1))
      | some c => scan c (scanOf spaces (t.add (scannedDevice spaces info bus dev).1)) := by
  have hi := hinfo bus dev 0
  unfold pciScanDevice scannedDevice
  by_cases hv : pciVendor (spaces bus dev 0) = 0xFFFF
  · rw [if_pos (show pciVendor ((scanOf spaces t).spaces bus dev 0) = 0xFFFF from hv), if_pos hv]
    rfl
  rw [if_neg (show ¬pciVendor ((scanOf spaces t).spaces bus dev 0) = 0xFFFF from hv), if_neg hv, pciFound_scanOf hread,
    Option.bind_some]
  dsimp only
  rw [hi.headerType]
  have hfunctions : (if (spaces bus dev 0).headerType &&& headerMultiFunc ≠ 0 then
      (List.range' 1 7).foldlM (pciScanFunction turns bus dev) (scanOf spaces (t.add [info bus dev 0]))
      else some (scanOf spaces (t.add [info bus dev 0]))) =
      some (scanOf spaces (t.add ((presentFunctions spaces bus dev).map (info bus dev)))) := by
    unfold presentFunctions
    split
    · rw [scanFunctions_scanOf hread, add_add, List.map_append]
      rfl
    · rfl
  rw [hfunctions, Option.bind_some]
  by_cases hbridge : (spaces bus dev 0).headerType = headerTypeBridge
  · rw [hi.secondaryBus hbridge]
    split <;> rfl
  · rw [if_neg (fun h => hbridge h.1), if_neg (fun h => hbridge h.1)]

theorem pciScanBus_scanOf (depth : Nat) : pciScanBus turns depth bus (scanOf spaces t) =
    (Dfs.visit (busSteps spaces info) depth bus t).map (scanOf spaces) := by
  induction depth generalizing bus t with
  | zero => rfl
  | succ depth ih =>
    unfold pciScanBus Dfs.visit
    by_cases hv : t.visited bus = true
    · rw [if_pos (show (scanOf spaces t).visited bus = true from hv), if_pos hv]
      rfl
    rw [if_neg (show ¬(scanOf spaces t).visited bus = true from hv), if_neg hv, busSteps]
    change (List.range 32).foldlM (pciScanDevice turns (pciScanBus turns depth) bus) (scanOf spaces (t.mark bus)) = _
    generalize t.mark bus = t
    generalize List.range 32 = devs
    induction devs generalizing t with
    | nil => rfl
    | cons dev devs ihd =>
      rw [List.map_cons, List.foldlM_cons, List.foldlM_cons, pciScanDevice_scanOf hread hinfo]
      cases (scannedDevice spaces info bus dev).2 with
      | none => exact ihd _
      | some c =>
        dsimp only
        rw [ih]
        cases Dfs.visit (busSteps spaces info) depth c (t.add (scannedDevice spaces info bus dev).1) with
        | none => rfl
        | some t' => exact ihd t'

end Read

/-! ## The list -/

theorem edge_iff {bus' : BitVec 8} : Dfs.Edge (busSteps spaces info) bus bus' ↔ bus' ≠ 0 ∧ BridgeTo spaces bus bus' := by
  constructor
  · rintro ⟨items, hmem⟩
    obtain ⟨dev, hdev, hstep⟩ := List.mem_map.1 hmem
    unfold scannedDevice at hstep
    split at hstep
    · cases hstep
    · next hv =>
      split at hstep
      · next hbridge =>
        simp only [Prod.mk.injEq, Option.some.injEq] at hstep
        rw [← hstep.2]
        exact ⟨hbridge.2, dev, List.mem_range.1 hdev, hv, hbridge.1, rfl⟩
      · cases hstep
  · rintro ⟨hne, dev, hdev, hv, hheader, rfl⟩
    refine ⟨(presentFunctions spaces bus dev).map (info bus dev), List.mem_map.2 ⟨dev, List.mem_range.2 hdev, ?_⟩⟩
    rw [scannedDevice, if_neg hv, if_pos ⟨hheader, hne⟩]

theorem reached_iff : Relation.ReflTransGen (Dfs.Edge (busSteps spaces info)) 0 bus ↔
    Relation.ReflTransGen (BridgeTo spaces) 0 bus := by
  constructor
  · intro h
    induction h with
    | refl => exact .refl
    | tail _ hstep ih => exact ih.tail (edge_iff.1 hstep).2
  · intro h
    induction h with
    | refl => exact .refl
    | @tail b c _ hstep ih =>
      by_cases hc : c = 0
      · rw [hc]
      · exact ih.tail (edge_iff.2 ⟨hc, hstep⟩)

theorem mem_presentFunctions : func ∈ presentFunctions spaces bus dev ↔ func < 8 ∧ (func = 0 ∨
    (spaces bus dev 0).headerType &&& headerMultiFunc ≠ 0 ∧ pciVendor (spaces bus dev func) ≠ 0xFFFF) := by
  unfold presentFunctions
  rw [List.mem_append, List.mem_singleton]
  by_cases hzero : func = 0
  · subst hzero
    simp
  · split
    · next hmulti =>
      simp only [List.mem_reverse, List.mem_filter, List.mem_range'_1, decide_eq_true_eq]
      constructor
      · rintro (⟨hlt, hv⟩ | h0)
        · exact ⟨by omega, .inr ⟨hmulti, hv⟩⟩
        · exact absurd h0 hzero
      · rintro ⟨hlt, h0 | ⟨-, hv⟩⟩
        · exact absurd h0 hzero
        · exact .inl ⟨by omega, hv⟩
    · next hmulti =>
      constructor
      · intro h
        rcases h with h | h
        · exact absurd h List.not_mem_nil
        · exact absurd h hzero
      · rintro ⟨-, h0 | ⟨hm, -⟩⟩
        · exact absurd h0 hzero
        · exact absurd hm hmulti

theorem nodup_presentFunctions : (presentFunctions spaces bus dev).Nodup := by
  unfold presentFunctions
  split
  · refine List.nodup_append'.2 ⟨List.nodup_reverse.2 (List.Nodup.filter _ (by decide)), List.nodup_singleton 0, ?_⟩
    intro func hfunc h0
    simp only [List.mem_reverse, List.mem_filter, List.mem_range'_1] at hfunc
    simp only [List.mem_singleton] at h0
    omega
  · exact List.nodup_singleton 0

def busPlaces (spaces : BitVec 8 → Nat → Nat → PciRegs) (bus : BitVec 8) : List (BitVec 8 × Nat × Nat) :=
  (List.range 32).flatMap (fun dev =>
    if pciVendor (spaces bus dev 0) = 0xFFFF then []
    else (presentFunctions spaces bus dev).map (fun func => (bus, dev, func)))

theorem mem_busPlaces {place : BitVec 8 × Nat × Nat} :
    place ∈ busPlaces spaces bus ↔ place.1 = bus ∧ Present spaces bus place.2.1 place.2.2 := by
  obtain ⟨b, dev, func⟩ := place
  simp only [busPlaces, List.mem_flatMap, List.mem_range, Present]
  constructor
  · rintro ⟨d, hd, hmem⟩
    split at hmem
    · exact absurd hmem List.not_mem_nil
    · next hv =>
      obtain ⟨f, hf, heq⟩ := List.mem_map.1 hmem
      obtain ⟨rfl, rfl, rfl⟩ : bus = b ∧ d = dev ∧ f = func := by simpa using heq
      obtain ⟨hlt, hpresent⟩ := mem_presentFunctions.1 hf
      exact ⟨rfl, hd, hlt, hv, hpresent⟩
  · rintro ⟨rfl, hd, hlt, hv, hpresent⟩
    refine ⟨dev, hd, ?_⟩
    rw [if_neg hv]
    exact List.mem_map.2 ⟨func, mem_presentFunctions.2 ⟨hlt, hpresent⟩, rfl⟩

theorem nodup_busPlaces : (busPlaces spaces bus).Nodup := by
  refine List.nodup_flatMap.2 ⟨fun dev _ => ?_, ?_⟩
  · split
    · exact List.nodup_nil
    · exact nodup_presentFunctions.map fun f f' h => by simpa using h
  · refine List.nodup_range.imp fun {d d'} hne => ?_
    intro place hd hd'
    dsimp only at hd hd'
    split at hd
    · exact List.not_mem_nil hd
    · split at hd'
      · exact List.not_mem_nil hd'
      · obtain ⟨f, -, rfl⟩ := List.mem_map.1 hd
        obtain ⟨f', -, heq⟩ := List.mem_map.1 hd'
        simp only [Prod.mk.injEq] at heq
        exact hne heq.2.1.symm

theorem items_place (hinfo : ∀ bus dev func, (info bus dev func).ReadFrom (spaces bus dev func) bus dev func) :
    (Dfs.items (busSteps spaces info) bus).map PciDeviceInfo.place = busPlaces spaces bus := by
  rw [Dfs.items, busSteps, List.flatMap_map, List.map_flatMap, busPlaces]
  refine congrFun (congrArg List.flatMap (funext fun dev => ?_)) _
  unfold scannedDevice
  split
  · rfl
  · rw [List.map_map]
    exact List.map_congr_left fun func _ => (hinfo bus dev func).place

theorem enumerated_of_walk (hinfo : ∀ bus dev func, (info bus dev func).ReadFrom (spaces bus dev func) bus dev func)
    {depth : Nat} (h : Dfs.visit (busSteps spaces info) depth 0 Dfs.start = some t) : Enumerated spaces t.out := by
  obtain ⟨new, hnodup, hreach, hout⟩ := Dfs.visit_start h
  have hplaces : (t.out.map PciDeviceInfo.place).Perm (new.flatMap (busPlaces spaces)) := by
    have hmap := hout.map PciDeviceInfo.place
    rw [List.map_flatMap] at hmap
    simp only [items_place hinfo] at hmap
    exact hmap
  refine ⟨hplaces.nodup_iff.2 (List.nodup_flatMap.2 ⟨fun bus _ => nodup_busPlaces, ?_⟩), fun bus dev func => ?_⟩
  · refine hnodup.imp fun {b b'} hne => ?_
    intro place hb hb'
    exact hne ((mem_busPlaces.1 hb).1.symm.trans (mem_busPlaces.1 hb').1)
  · rw [hplaces.mem_iff, List.mem_flatMap]
    constructor
    · rintro ⟨b, hb, hmem⟩
      obtain ⟨rfl, hpresent⟩ := mem_busPlaces.1 hmem
      exact ⟨reached_iff.1 ((hreach _).1 hb), hpresent⟩
    · rintro ⟨hbus, hpresent⟩
      exact ⟨bus, (hreach bus).2 (reached_iff.2 hbus), mem_busPlaces.2 ⟨rfl, hpresent⟩⟩

end Walk

def buses : List (BitVec 8) := (List.range 256).map (BitVec.ofNat 8)

theorem mem_buses : ∀ bus, bus ∈ buses := by
  intro bus
  refine List.mem_map.2 ⟨bus.toNat, List.mem_range.2 bus.isLt, ?_⟩
  rw [BitVec.ofNat_toNat, BitVec.setWidth_eq]

/-- **The scan of bus 0 ends, and its list has each function once that is there on a bus that bridges lead to.** -/
theorem pciScanBus_enumerated (w : Nat) (spaces : BitVec 8 → Nat → Nat → PciRegs)
    (hcaps : ∀ bus dev func, CapsEnd (spaces bus dev func).bytes) {turns depth : Nat} (hturns : 191 ≤ turns)
    (hdepth : 257 ≤ depth) :
    ∃ s, pciScanBus turns depth 0 (scanStart w spaces) = some s ∧ Enumerated spaces s.devices := by
  have hread : ∀ bus dev func, ∃ d : PciDeviceInfo w, pciReadDeviceInfo w turns (spaces bus dev func) bus dev func =
      some (d, spaces bus dev func) ∧ d.ReadFrom (spaces bus dev func) bus dev func := by
    intro bus dev func
    obtain ⟨caps, hok, -⟩ := pciParseCapabilities_of_acyclic (acyclic_of_capsEnd (hcaps bus dev func))
    exact pciReadDeviceInfo_ok (hok turns hturns) bus dev func
  choose info hinfo using hread
  have hleft : (Dfs.start : Dfs.State (BitVec 8) (PciDeviceInfo w)).left buses < depth := by
    refine Nat.lt_of_le_of_lt List.countP_le_length ?_
    rw [buses, List.length_map, List.length_range]
    exact hdepth
  obtain ⟨t, ht⟩ : ∃ t, Dfs.visit (busSteps spaces info) depth 0 Dfs.start = some t := Dfs.visit_total mem_buses hleft
  refine ⟨scanOf spaces t, ?_, enumerated_of_walk (fun bus dev func => (hinfo bus dev func).2) ht⟩
  have hscan : pciScanBus turns depth 0 (scanOf spaces Dfs.start) =
      (Dfs.visit (busSteps spaces info) depth 0 Dfs.start).map (scanOf spaces) :=
    pciScanBus_scanOf (fun bus dev func => (hinfo bus dev func).1) (fun bus dev func => (hinfo bus dev func).2) depth
  rw [ht] at hscan
  exact hscan

def cycleSpaces (bus : BitVec 8) (dev func : Nat) : PciRegs :=
  if bus.toNat < 2 ∧ dev = 0 ∧ func = 0 then
    fun i => ⟨if i = 0 then 0x00011AF4 else if i = 3 then 0x00010000 else if i = 6 then 0x00000100 else 0, 0⟩
  else fun _ => ⟨0xFFFFFFFF, 0⟩

theorem cycleSpaces_capsEnd (bus : BitVec 8) (dev func : Nat) : CapsEnd (cycleSpaces bus dev func).bytes := by
  refine capsEnd_of_acyclic ?_
  unfold cycleSpaces
  split
  · exact .inl (by decide)
  · exact .inr (Follow.acyclic_of_end (k := 0) (by decide))

theorem pciScanBus_enumerated_cycle : ∃ s, pciScanBus 191 257 0 (scanStart 32 cycleSpaces) = some s ∧
    Enumerated cycleSpaces s.devices :=
  pciScanBus_enumerated 32 cycleSpaces cycleSpaces_capsEnd le_rfl le_rfl

end Hw
end AmitX
