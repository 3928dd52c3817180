import AmitX.Lib.Follow
import Mathlib.Tactic.IntervalCases
/-!
# PciCaps — the configuration space of a function and its list of capabilities (`pci.c`)

`pci_parse_capabilities` follows the next pointers that the function gives and ends at one outside of 0x40 to 0xFE.
Nothing tells it that an offset was there before, so that a chain that comes back is followed until the heap is full.

The space is 256 bytes that are read in registers of 32 bits.
-/
namespace AmitX
namespace Hw

open Follow

abbrev ConfigSpace := BitVec 8 → BitVec 8

/-- `pci_read_config`, of the register that has the byte. -/
def pciReadConfig (c : ConfigSpace) (reg : BitVec 8) : BitVec 32 :=
  let reg := reg &&& 0xFC
  c (reg + 3) ++ c (reg + 2) ++ c (reg + 1) ++ c reg

def pciReadConfigWord (c : ConfigSpace) (reg : BitVec 8) : BitVec 16 :=
  (pciReadConfig c (reg &&& ~~~3) >>> ((reg &&& 3).toNat * 8)).setWidth 16

def pciReadConfigByte (c : ConfigSpace) (reg : BitVec 8) : BitVec 8 :=
  (pciReadConfig c (reg &&& ~~~3) >>> ((reg &&& 3).toNat * 8)).setWidth 8

/-- `PCI_STATUS`. -/
def regStatus : BitVec 8 := 0x06

/-- `PCI_CAP_PTR`. -/
def regCapPtr : BitVec 8 := 0x34

def statusCapList : BitVec 16 := 0x0010

/-- `pci_capability_t`, without the link. -/
structure PciCapability where
  id : BitVec 8
  next : BitVec 8
  offset : BitVec 8
  deriving DecidableEq

/-- The condition of the loop of `pci_parse_capabilities`. -/
def capValid (capPtr : BitVec 8) : Bool := 0x40 ≤ capPtr ∧ capPtr < 0xFF

/-- The loop, with the list that it has built; `none` where it takes more turns than given. -/
def pciCapLoop (c : ConfigSpace) : Nat → BitVec 8 → List PciCapability → Option (List PciCapability)
  | 0, capPtr, caps => if capValid capPtr then none else some caps
  | n + 1, capPtr, caps =>
    if capValid capPtr then
      let capId := pciReadConfigByte c capPtr
      let nextPtr := pciReadConfigByte c (capPtr + 1)
      pciCapLoop c n nextPtr (caps ++ [⟨capId, nextPtr, capPtr⟩])
    else some caps

/-- `dev->capabilities` after `pci_parse_capabilities`. -/
def pciParseCapabilities (n : Nat) (c : ConfigSpace) : Option (List PciCapability) :=
  if pciReadConfigWord c regStatus &&& statusCapList = 0 then some []
  else pciCapLoop c n (pciReadConfigByte c regCapPtr) []

/-- The loop ends, with one entry for each offset, of which there are at most 192. -/
def CapsEnd (c : ConfigSpace) : Prop :=
  ∃ n caps, (∀ m ≥ n, pciParseCapabilities m c = some caps) ∧ (caps.map PciCapability.offset).Nodup ∧
    caps.length ≤ 192

def ConfigSpace.nextOffset (c : ConfigSpace) (offset : BitVec 8) : BitVec 8 := c (offset + 1)

/-- No list, or one whose chain from the first pointer on comes back to no offset before it leaves the valid ones. -/
def CapsAcyclic (c : ConfigSpace) : Prop :=
  c 0x06 &&& 0x10 = 0 ∨ Acyclic capValid c.nextOffset (c 0x34)

/-! ## Reads -/

section Reads

variable (c : ConfigSpace) (reg : BitVec 8)

theorem and_mask (reg : BitVec 8) : reg &&& ~~~3 &&& 0xFC = reg &&& 0xFC ∧ (reg &&& 3).toNat < 4 ∧
    (reg &&& 0xFC) + BitVec.ofNat 8 (reg &&& 3).toNat = reg := by
  have hmask : ~~~(3 : BitVec 8) &&& 0xFC = 0xFC := by decide
  have hcover : (0xFC : BitVec 8) ||| 3 = BitVec.allOnes 8 := by decide
  have hzero : (0xFC : BitVec 8) &&& 3 = 0#8 := by decide
  -- the two parts have no bit in common, so that their sum carries nothing
  have hapart : (reg &&& 0xFC) &&& (reg &&& 3) = 0#8 := by
    rw [BitVec.and_assoc, BitVec.and_comm reg 3, ← BitVec.and_assoc 0xFC, hzero, BitVec.zero_and, BitVec.and_zero]
  refine ⟨by rw [BitVec.and_assoc, hmask], ?_, ?_⟩
  · rw [BitVec.toNat_and]
    exact Nat.and_lt_two_pow (n := 2) _ (by decide)
  · rw [BitVec.ofNat_toNat, BitVec.setWidth_eq, BitVec.add_eq_or_of_and_eq_zero _ _ hapart,
      ← BitVec.and_or_distrib_left, hcover, BitVec.and_allOnes]

theorem byte_of_append (d₃ d₂ d₁ d₀ : BitVec 8) :
    ((d₃ ++ d₂ ++ d₁ ++ d₀) >>> (0 * 8)).setWidth 8 = d₀ ∧ ((d₃ ++ d₂ ++ d₁ ++ d₀) >>> (1 * 8)).setWidth 8 = d₁ ∧
    ((d₃ ++ d₂ ++ d₁ ++ d₀) >>> (2 * 8)).setWidth 8 = d₂ ∧ ((d₃ ++ d₂ ++ d₁ ++ d₀) >>> (3 * 8)).setWidth 8 = d₃ := by
  refine ⟨?_, ?_, ?_, ?_⟩
  all_goals
    ext i hi
    simp only [BitVec.getElem_setWidth, BitVec.getLsbD_ushiftRight, BitVec.getLsbD_append]
    grind

theorem pciReadConfigByte_eq : pciReadConfigByte c reg = c reg := by
  obtain ⟨hmask, hlt, hsum⟩ := and_mask reg
  unfold pciReadConfigByte pciReadConfig
  rw [hmask]
  dsimp only
  generalize (reg &&& 3).toNat = k at hlt hsum
  generalize reg &&& 0xFC = base at hsum
  subst hsum
  obtain ⟨h0, h1, h2, h3⟩ := byte_of_append (c (base + 3)) (c (base + 2)) (c (base + 1)) (c base)
  interval_cases k
  · rw [h0]
    simp
  · exact h1
  · exact h2
  · exact h3

theorem status_eq_zero : pciReadConfigWord c regStatus &&& statusCapList = 0 ↔ c 0x06 &&& 0x10 = 0 := by
  have hword : pciReadConfigWord c regStatus = c 0x07 ++ c 0x06 := by
    show ((c 0x07 ++ c 0x06 ++ c 0x05 ++ c 0x04) >>> 16).setWidth 16 = c 0x07 ++ c 0x06
    ext i hi
    simp only [BitVec.getElem_setWidth, BitVec.getLsbD_ushiftRight, BitVec.getLsbD_append]
    grind
  have hmask : statusCapList = (0 : BitVec 8) ++ (0x10 : BitVec 8) := by decide
  have hzero : c 0x07 &&& 0 = 0 := by simp
  rw [hword, hmask, BitVec.and_append, hzero]
  constructor
  · intro h
    have h8 := congrArg (BitVec.setWidth 8) h
    rw [BitVec.setWidth_append] at h8
    simpa using h8
  · intro h
    rw [h]
    decide

end Reads

/-! ## The chain -/

section Chain

variable {c : ConfigSpace} {n : Nat} {capPtr : BitVec 8} {caps : List PciCapability}

def ConfigSpace.capability (c : ConfigSpace) (offset : BitVec 8) : PciCapability :=
  ⟨c offset, c.nextOffset offset, offset⟩

theorem pciCapLoop_eq : pciCapLoop c n capPtr caps =
    (follow capValid c.nextOffset n capPtr).map (fun offsets => caps ++ offsets.map c.capability) := by
  induction n generalizing capPtr caps with
  | zero =>
    unfold pciCapLoop follow
    split
    · rfl
    · simp
  | succ n ih =>
    unfold pciCapLoop follow
    split
    · rw [pciReadConfigByte_eq, pciReadConfigByte_eq, ih, Option.map_map]
      refine congrFun (congrArg Option.map (funext fun offsets => ?_)) _
      simp [ConfigSpace.capability, ConfigSpace.nextOffset]
    · simp

theorem map_offset_capability (offsets : List (BitVec 8)) :
    (offsets.map c.capability).map PciCapability.offset = offsets := by
  rw [List.map_map]
  exact List.map_id offsets

def capOffsets : List (BitVec 8) := (List.range' 0x40 191).map (BitVec.ofNat 8)

theorem mem_capOffsets : ∀ offset, capValid offset → offset ∈ capOffsets := by
  intro offset h
  obtain ⟨hlo, hhi⟩ : 0x40 ≤ offset.toNat ∧ offset.toNat < 0xFF := by
    simpa [capValid, BitVec.le_def, BitVec.lt_def] using h
  refine List.mem_map.2 ⟨offset.toNat, List.mem_range'_1.2 ⟨hlo, by omega⟩, ?_⟩
  rw [BitVec.ofNat_toNat, BitVec.setWidth_eq]

theorem acyclic_of_capsEnd (h : CapsEnd c) : CapsAcyclic c := by
  obtain ⟨n, caps, hcaps, -⟩ := h
  by_cases hstatus : c 0x06 &&& 0x10 = 0
  · exact .inl hstatus
  · have hparse := hcaps n le_rfl
    rw [pciParseCapabilities, if_neg (mt (status_eq_zero c).1 hstatus), pciCapLoop_eq, pciReadConfigByte_eq] at hparse
    obtain ⟨offsets, hoffsets, -⟩ := Option.map_eq_some_iff.1 hparse
    exact .inr (acyclic_of_end (follow_some hoffsets).2.2)

theorem pciParseCapabilities_of_acyclic (h : CapsAcyclic c) : ∃ caps, (∀ m ≥ 191, pciParseCapabilities m c = some caps) ∧
    (caps.map PciCapability.offset).Nodup ∧ caps.length ≤ 191 := by
  by_cases hstatus : c 0x06 &&& 0x10 = 0
  · exact ⟨[], fun m _ => if_pos ((status_eq_zero c).2 hstatus), List.nodup_nil, Nat.zero_le _⟩
  · have hac : Acyclic capValid c.nextOffset (c 0x34) := h.resolve_left hstatus
    have hlength : capOffsets.length = 191 := by simp [capOffsets]
    obtain ⟨k, hk, hend⟩ := exists_end_of_acyclic mem_capOffsets hac
    obtain ⟨offsets, hoffsets⟩ := follow_of_end hend hk
    obtain ⟨heq, hvalid, -⟩ := follow_some hoffsets
    rw [hlength] at hoffsets
    refine ⟨offsets.map c.capability, fun m hm => ?_, ?_, ?_⟩
    · rw [pciParseCapabilities, if_neg (mt (status_eq_zero c).1 hstatus), pciCapLoop_eq, pciReadConfigByte_eq]
      exact congrArg (Option.map _) (follow_mono hoffsets hm)
    · rw [map_offset_capability, heq]
      exact nodup_of_acyclic hac hvalid
    · have hle := length_le_of_acyclic mem_capOffsets hac hvalid
      rw [List.length_map, ← hlength]
      exact hle

theorem capsEnd_of_acyclic (h : CapsAcyclic c) : CapsEnd c := by
  obtain ⟨caps, hcaps, hnodup, hle⟩ := pciParseCapabilities_of_acyclic h
  exact ⟨191, caps, hcaps, hnodup, hle.trans (by decide)⟩

/-- **The list of capabilities is built just where the chain of next pointers does not come back.** -/
theorem pciParseCapabilities_ends_iff (c : ConfigSpace) : CapsEnd c ↔ CapsAcyclic c :=
  ⟨acyclic_of_capsEnd, capsEnd_of_acyclic⟩

def loopSpace : ConfigSpace := fun offset =>
  if offset = 0x06 then 0x10 else if offset = 0x34 ∨ offset = 0x41 then 0x40 else 0

theorem not_pciParseCapabilities_ends : ¬CapsEnd loopSpace := by
  rintro ⟨n, caps, hcaps, -⟩
  have hnone : ∀ m caps, pciCapLoop loopSpace m 0x40 caps = none := by
    intro m
    induction m with
    | zero => exact fun caps => rfl
    | succ m ih =>
      intro caps
      unfold pciCapLoop
      rw [if_pos (by decide)]
      exact ih _
  have hparse : pciParseCapabilities n loopSpace = none := hnone n []
  rw [hcaps n le_rfl] at hparse
  cases hparse

end Chain

end Hw
end AmitX
