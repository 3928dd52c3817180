import AmitX.Hw.Pci
/-!
# PciBars — what `pci_parse_bars` finds

The size that is found for a BAR of each kind, and which BARs have a size and no address after the parse.
-/
namespace AmitX
namespace Hw

open Run Align

/-! ## Bits -/

section

variable {n : Nat} {a m fl M : BitVec n}

theorem or_and_high (ha : a &&& m = a) (hm : m &&& M = m) (hf : fl &&& M = 0) : (a ||| fl) &&& M = a := by
  have haM : a &&& M = a := by
    rw [← ha, BitVec.and_assoc, hm]
  rw [BitVec.and_or_distrib_right, haM, hf]
  exact BitVec.or_zero

theorem or_and_low (ha : a &&& m = a) (hm : m &&& M = 0) : (a ||| fl) &&& M = fl &&& M := by
  have haM : a &&& M = 0 := by
    rw [← ha, BitVec.and_assoc, hm]
    exact BitVec.and_zero
  rw [BitVec.and_or_distrib_right, haM]
  exact BitVec.zero_or

end

theorem PciReg.ext {r r' : PciReg} (hv : r.value = r'.value) (hm : r.mask = r'.mask) : r = r' := by
  cases r
  cases r'
  cases hv
  cases hm
  rfl

theorem PciReg.write_restore (r : PciReg) (v : BitVec 32) : (r.write v).write r.value = r := by
  refine PciReg.ext ?_ rfl
  show ((r.value &&& ~~~r.mask ||| v &&& r.mask) &&& ~~~r.mask) ||| (r.value &&& r.mask) = r.value
  ext i hi
  simp only [BitVec.getElem_or, BitVec.getElem_and, BitVec.getElem_not]
  cases r.value[i] <;> cases r.mask[i] <;> simp

def PciReg.probe (r : PciReg) : BitVec 32 := (r.write 0xFFFFFFFF).value

theorem probe_of_parts {addr fl mask : BitVec 32} (ha : addr &&& mask = addr) (hf : fl &&& mask = 0) :
    PciReg.probe ⟨addr ||| fl, mask⟩ = fl ||| mask := by
  show (addr ||| fl) &&& ~~~mask ||| 0xFFFFFFFF &&& mask = fl ||| mask
  have hone : (0xFFFFFFFF : BitVec 32) &&& mask = mask := BitVec.allOnes_and
  rw [hone]
  ext i hi
  have hai : (addr[i] && mask[i]) = addr[i] := by
    rw [← BitVec.getElem_and, ha]
  have hfi : (fl[i] && mask[i]) = false := by
    rw [← BitVec.getElem_and, hf]
    simp
  simp only [BitVec.getElem_or, BitVec.getElem_and, BitVec.getElem_not]
  revert hai hfi
  cases addr[i] <;> cases fl[i] <;> cases mask[i] <;> simp

theorem neg_low (upper low : BitVec 32) :
    (~~~((upper.setWidth 64 <<< 32) ||| low.setWidth 64) + 1).setWidth 32 = ~~~low + 1 := by
  rw [BitVec.setWidth_add _ _ (by decide), BitVec.setWidth_not (by decide), BitVec.setWidth_or]
  have hzero : (upper.setWidth 64 <<< 32).setWidth 32 = (0 : BitVec 32) := by
    ext i hi
    simp
  rw [hzero, BitVec.setWidth_setWidth_of_le _ (by decide), BitVec.setWidth_eq]
  simp

/-! ## Sizes -/

section

variable {w : Nat} {d : PciDevice w} {i : Nat}

theorem writeConfig_restore (v : BitVec 32) : (d.writeConfig i v).writeConfig i (d.regs i).value = d := by
  unfold PciDevice.writeConfig
  dsimp only
  rw [Function.update_idem, Function.update_self, PciReg.write_restore, Function.update_eq_self]

theorem regs_writeConfig_self (v : BitVec 32) : (d.writeConfig i v).regs i = (d.regs i).write v :=
  Function.update_self i _ _

def sizeOfProbe (w i : Nat) (probe : BitVec 32) : BitVec w :=
  if probe = 0 ∨ probe = 0xFFFFFFFF then 0
  else if probe &&& barTypeIo ≠ 0 then pciNegate w (probe &&& barIoAddrMask)
  else if probe &&& barMemTypeMask = barMemType64 ∧ i < 5 then (~~~(probe &&& barMemAddrMask) + 1).setWidth w
  else pciNegate w (probe &&& barMemAddrMask)

theorem pciBarGetSize_eq : pciBarGetSize i d = (sizeOfProbe w i (d.regs i).probe, d) := by
  unfold pciBarGetSize sizeOfProbe
  dsimp only
  rw [writeConfig_restore, regs_writeConfig_self]
  have hprobe : ((d.regs i).write 0xFFFFFFFF).value = (d.regs i).probe := rfl
  rw [hprobe]
  by_cases hnone : (d.regs i).probe = 0 ∨ (d.regs i).probe = 0xFFFFFFFF
  · rw [if_pos hnone, if_pos hnone]
  rw [if_neg hnone, if_neg hnone]
  by_cases hio : (d.regs i).probe &&& barTypeIo ≠ 0
  · rw [if_pos hio, if_pos hio]
  rw [if_neg hio, if_neg hio]
  by_cases h64 : (d.regs i).probe &&& barMemTypeMask = barMemType64 ∧ i < 5
  · rw [if_pos h64, if_pos h64, writeConfig_restore, neg_low]
  · rw [if_neg h64, if_neg h64]

theorem pciSizeBar_eq : pciSizeBar i d =
    d.setBar i (fun b => { b with size := sizeOfProbe w i (d.regs i).probe }) := by
  unfold pciSizeBar
  rw [pciBarGetSize_eq]

end

/-! ## Slots -/

theorem probe_io {k : Nat} {wide : Bool} {addr : BitVec 32} (hw : (PciSlot.io k wide addr).Wf) :
    (PciSlot.io k wide addr).reg.probe = 0x1 ||| (highBits 32 k &&& if wide then 0xFFFFFFFF else 0xFFFF) := by
  obtain ⟨hk, hlt, ha⟩ := hw
  refine probe_of_parts ha ?_
  have hall : ∀ wide : Bool, ∀ k < 32, 2 ≤ k →
      (0x1 : BitVec 32) &&& (highBits 32 k &&& if wide then 0xFFFFFFFF else 0xFFFF) = 0 := by decide
  exact hall wide k (by split at hlt <;> omega) hk

theorem probe_mem {k : Nat} {below1M prefetch : Bool} {addr : BitVec 32}
    (hw : (PciSlot.mem k below1M prefetch addr).Wf) : (PciSlot.mem k below1M prefetch addr).reg.probe =
      ((if below1M then 0x2 else 0) ||| if prefetch then 0x8 else 0) ||| highBits 32 k := by
  obtain ⟨hk, hlt, ha⟩ := hw
  refine probe_of_parts ha ?_
  have hall : ∀ below1M prefetch : Bool, ∀ k < 32, 4 ≤ k →
      ((if below1M then 0x2 else 0) ||| if prefetch then 0x8 else 0) &&& highBits 32 k = (0 : BitVec 32) := by
    decide
  exact hall below1M prefetch k hlt hk

theorem low_of_and {k : Nat} {addr : BitVec 64} (ha : addr &&& highBits 64 k = addr) :
    addr.setWidth 32 &&& (highBits 64 k).setWidth 32 = addr.setWidth 32 := by
  rw [← BitVec.setWidth_and, ha]

theorem probe_mem64 {k : Nat} {prefetch : Bool} {addr : BitVec 64} (hw : (PciSlot.mem64 k prefetch addr).Wf) :
    (PciSlot.mem64 k prefetch addr).reg.probe =
      (0x4 ||| if prefetch then 0x8 else 0) ||| (highBits 64 k).setWidth 32 := by
  obtain ⟨hk, hlt, ha⟩ := hw
  refine probe_of_parts (low_of_and ha) ?_
  have hall : ∀ prefetch : Bool, ∀ k < 64, 4 ≤ k →
      (0x4 ||| if prefetch then 0x8 else 0) &&& (highBits 64 k).setWidth 32 = (0 : BitVec 32) := by
    decide
  exact hall prefetch k hlt hk

theorem probe_upper {k : Nat} {addr : BitVec 64} (hw : (PciSlot.upper k addr).Wf) :
    (PciSlot.upper k addr).reg.probe = (highBits 64 k >>> 32).setWidth 32 := by
  obtain ⟨hk, hlt, ha⟩ := hw
  have hup : (addr >>> 32).setWidth 32 &&& (highBits 64 k >>> 32).setWidth 32 = (addr >>> 32).setWidth 32 := by
    rw [← BitVec.setWidth_and, ← BitVec.ushiftRight_and_distrib, ha]
  have h := @probe_of_parts _ 0 _ hup BitVec.zero_and
  simp only [BitVec.ofNat_eq_ofNat, BitVec.or_zero, BitVec.zero_or] at h
  exact h

/-! ## Sizes of the slots -/

theorem size_io {k : Nat} {addr : BitVec 32} (hw : (PciSlot.io k true addr).Wf) (i : Nat) :
    (sizeOfProbe 32 i (PciSlot.io k true addr).reg.probe).toNat = 2 ^ k := by
  rw [probe_io hw]
  obtain ⟨hk, hlt, -⟩ := hw
  have hall : ∀ k < 32, 2 ≤ k →
      ¬(0x1 ||| (highBits 32 k &&& 0xFFFFFFFF) = 0 ∨ 0x1 ||| (highBits 32 k &&& 0xFFFFFFFF) = 0xFFFFFFFF) ∧
      (0x1 ||| (highBits 32 k &&& 0xFFFFFFFF)) &&& barTypeIo ≠ 0 ∧
      (pciNegate 32 ((0x1 ||| (highBits 32 k &&& 0xFFFFFFFF)) &&& barIoAddrMask)).toNat = 2 ^ k := by decide
  obtain ⟨h1, h2, h3⟩ := hall k hlt hk
  unfold sizeOfProbe
  rw [if_pos rfl, if_neg h1, if_pos h2, h3]

theorem size_mem {k : Nat} {below1M prefetch : Bool} {addr : BitVec 32}
    (hw : (PciSlot.mem k below1M prefetch addr).Wf) (i : Nat) :
    (sizeOfProbe 32 i (PciSlot.mem k below1M prefetch addr).reg.probe).toNat = 2 ^ k := by
  rw [probe_mem hw]
  obtain ⟨hk, hlt, -⟩ := hw
  generalize hfl : ((if below1M then 0x2 else 0) ||| if prefetch then 0x8 else 0 : BitVec 32) = fl
  have hall : ∀ below1M prefetch : Bool, ∀ k < 32, 4 ≤ k →
      ¬(((if below1M then 0x2 else 0) ||| if prefetch then 0x8 else 0) ||| highBits 32 k = 0 ∨
        ((if below1M then 0x2 else 0) ||| if prefetch then 0x8 else 0) ||| highBits 32 k = 0xFFFFFFFF) ∧
      ¬(((if below1M then 0x2 else 0) ||| if prefetch then 0x8 else 0) ||| highBits 32 k) &&& barTypeIo ≠ 0 ∧
      ¬(((if below1M then 0x2 else 0) ||| if prefetch then 0x8 else 0) ||| highBits 32 k) &&& barMemTypeMask =
        barMemType64 ∧
      (pciNegate 32 ((((if below1M then 0x2 else 0) ||| if prefetch then 0x8 else 0) ||| highBits 32 k) &&&
        barMemAddrMask)).toNat = 2 ^ k := by decide
  obtain ⟨h1, h2, h3, h4⟩ := hall below1M prefetch k hlt hk
  rw [hfl] at h1 h2 h3 h4
  unfold sizeOfProbe
  rw [if_neg h1, if_neg h2, if_neg (fun h => h3 h.1), h4]

theorem size_mem64 {w k : Nat} {prefetch : Bool} {addr : BitVec 64} (hw : (PciSlot.mem64 k prefetch addr).Wf)
    {i : Nat} (hi : i < 5) (hword : 32 ≤ w) :
    (sizeOfProbe w i (PciSlot.mem64 k prefetch addr).reg.probe).toNat = if k < 32 then 2 ^ k else 0 := by
  rw [probe_mem64 hw]
  obtain ⟨hk, hlt, -⟩ := hw
  generalize hfl : (0x4 ||| if prefetch then 0x8 else 0 : BitVec 32) = fl
  have hall : ∀ prefetch : Bool, ∀ k < 64, 4 ≤ k →
      ¬((0x4 ||| if prefetch then 0x8 else 0) ||| (highBits 64 k).setWidth 32 = 0 ∨
        (0x4 ||| if prefetch then 0x8 else 0) ||| (highBits 64 k).setWidth 32 = 0xFFFFFFFF) ∧
      ¬((0x4 ||| if prefetch then 0x8 else 0) ||| (highBits 64 k).setWidth 32) &&& barTypeIo ≠ 0 ∧
      ((0x4 ||| if prefetch then 0x8 else 0) ||| (highBits 64 k).setWidth 32) &&& barMemTypeMask = barMemType64 ∧
      (~~~(((0x4 ||| if prefetch then 0x8 else 0) ||| (highBits 64 k).setWidth 32) &&& barMemAddrMask) + 1).toNat =
        if k < 32 then 2 ^ k else 0 := by decide
  obtain ⟨h1, h2, h3, h4⟩ := hall prefetch k hlt hk
  rw [hfl] at h1 h2 h3 h4
  unfold sizeOfProbe
  rw [if_neg h1, if_neg h2, if_pos ⟨h3, hi⟩, BitVec.toNat_setWidth, h4, Nat.mod_eq_of_lt]
  rw [← h4]
  exact Nat.lt_of_lt_of_le (BitVec.isLt _) (Nat.pow_le_pow_right (by decide) hword)

theorem size_upper_small {w k : Nat} {addr : BitVec 64} (hw : (PciSlot.upper k addr).Wf) (i : Nat) (hk : k ≤ 32) :
    sizeOfProbe w i (PciSlot.upper k addr).reg.probe = 0 := by
  rw [probe_upper hw]
  have hall : ∀ k ≤ 32, (highBits 64 k >>> 32).setWidth 32 = (0xFFFFFFFF : BitVec 32) := by decide
  rw [hall k hk]
  exact if_pos (Or.inr rfl)

theorem size_upper {w k : Nat} {addr : BitVec 64} (hw : (PciSlot.upper k addr).Wf) {i : Nat} (hk : 32 < k)
    (hword : w = 32 ∨ w = 64 ∧ k = 34 ∧ i < 5) :
    (sizeOfProbe w i (PciSlot.upper k addr).reg.probe).toNat = 2 ^ max 4 (k - 32) := by
  rw [probe_upper hw]
  obtain ⟨-, hlt, -⟩ := hw
  have hall : ∀ k < 64, 32 < k →
      ¬((highBits 64 k >>> 32).setWidth 32 = (0 : BitVec 32) ∨
        (highBits 64 k >>> 32).setWidth 32 = (0xFFFFFFFF : BitVec 32)) ∧
      ¬(highBits 64 k >>> 32).setWidth 32 &&& barTypeIo ≠ 0 ∧
      (~~~((highBits 64 k >>> 32).setWidth 32 &&& barMemAddrMask) + 1).toNat = 2 ^ max 4 (k - 32) ∧
      (pciNegate 32 ((highBits 64 k >>> 32).setWidth 32 &&& barMemAddrMask)).toNat = 2 ^ max 4 (k - 32) := by
    decide
  obtain ⟨h1, h2, h3, h4⟩ := hall k hlt hk
  unfold sizeOfProbe
  rw [if_neg h1, if_neg h2]
  rcases hword with rfl | ⟨rfl, rfl, hi⟩
  · split
    · rw [BitVec.setWidth_eq, h3]
    · exact h4
  · rw [if_pos ⟨by decide, hi⟩, BitVec.toNat_setWidth, h3]
    decide

/-! ## The parse -/

/-- What is known of a BAR that has a size and no address after the parse: it had no address before, either, and has the
size of its window, as far as words allow. -/
def PciSlot.Parsed (w i : Nat) (bar : PciBar w) : PciSlot → Prop
  | .empty => False
  | .io k wide addr => addr = 0 ∧ bar.isIo = true ∧ (w = 32 → wide = true → bar.size.toNat = 2 ^ k)
  | .mem k below1M prefetch addr =>
    addr = 0 ∧ (below1M = true ∨ prefetch = true) ∧ bar.isIo = false ∧ (w = 32 → bar.size.toNat = 2 ^ k)
  | .mem64 k _ addr => addr.setWidth 32 = (0 : BitVec 32) ∧ k < 32 ∧ bar.isIo = false ∧ bar.size.toNat = 2 ^ k
  | .upper k _ => 32 < k ∧ bar.isIo = false ∧
      (w = 32 ∨ w = 64 ∧ k = 34 ∧ i < 5 → bar.size.toNat = 2 ^ max 4 (k - 32))

section

variable {w : Nat} {d : PciDevice w} {i j : Nat}

@[simp] theorem regs_setBar (f : PciBar w → PciBar w) : (d.setBar i f).regs = d.regs := rfl

@[simp] theorem barCount_setBar (f : PciBar w → PciBar w) : (d.setBar i f).barCount = d.barCount := rfl

@[simp] theorem bars_setBar_self (f : PciBar w → PciBar w) : (d.setBar i f).bars i = f (d.bars i) :=
  Function.update_self i _ _

theorem bars_setBar_ne {f : PciBar w → PciBar w} (h : j ≠ i) : (d.setBar i f).bars j = d.bars j :=
  Function.update_of_ne h _ _

theorem setWidth_eq_zero {bits : BitVec 32} (hword : 32 ≤ w) (h : bits.setWidth w = 0) : bits = 0 := by
  apply BitVec.eq_of_toNat_eq
  have hn := congrArg BitVec.toNat h
  rw [BitVec.toNat_setWidth, Nat.mod_eq_of_lt (Nat.lt_of_lt_of_le bits.isLt (Nat.pow_le_pow_right (by decide) hword))]
    at hn
  rw [hn]
  simp

/-- The loop's invariant: the BARs before `i` are parsed, and those from `i` on are as they were set to zero. -/
structure ParseInv (f : PciFunction) (i : Nat) (d : PciDevice w) : Prop where
  barCount : d.barCount = f.barCount
  regs : ∀ j < f.barCount, d.regs j = (f.slots j).reg
  done : ∀ j < i, j < f.barCount → (d.bars j).base = 0 → (d.bars j).size ≠ 0 → (f.slots j).Parsed w j (d.bars j)
  fresh : ∀ j, i ≤ j → (d.bars j).isIo = false
  slot : ∀ k addr, f.slots i ≠ .upper k addr

theorem ParseInv.one {f : PciFunction} (hi : ParseInv f i d) {g : PciBar w → PciBar w}
    (hslot : ∀ k addr, f.slots (i + 1) ≠ .upper k addr)
    (hparsed : (g (d.bars i)).base = 0 → (g (d.bars i)).size ≠ 0 → (f.slots i).Parsed w i (g (d.bars i))) :
    ParseInv f (i + 1) (d.setBar i g) where
  barCount := hi.barCount
  regs := hi.regs
  done j hj hlt := by
    by_cases hji : j = i
    · subst hji
      rw [bars_setBar_self]
      exact hparsed
    · rw [bars_setBar_ne hji]
      exact hi.done j (by omega) hlt
  fresh j hj := by
    rw [bars_setBar_ne (by omega)]
    exact hi.fresh j (by omega)
  slot := hslot

theorem setBar_setBar (f g : PciBar w → PciBar w) : (d.setBar i f).setBar i g = d.setBar i (fun b => g (f b)) := by
  unfold PciDevice.setBar
  dsimp only
  rw [Function.update_idem, Function.update_self]

theorem PciFunction.no_upper (f : PciFunction) (h : ∀ k prefetch addr, f.slots i ≠ .mem64 k prefetch addr) (k : Nat)
    (addr : BitVec 64) : f.slots (i + 1) ≠ .upper k addr := by
  intro hup
  obtain ⟨j, prefetch, hj, hmem⟩ := f.upper (i + 1) k addr hup
  obtain rfl : i = j := by omega
  exact h k prefetch addr hmem

theorem raw_io {k : Nat} {wide : Bool} {addr : BitVec 32} (hw : (PciSlot.io k wide addr).Wf) :
    (PciSlot.io k wide addr).reg.value &&& barTypeIo ≠ 0 ∧
      (PciSlot.io k wide addr).reg.value &&& barIoAddrMask = addr := by
  obtain ⟨hk, hlt, ha⟩ := hw
  have hall : ∀ wide : Bool, ∀ k < 32, 2 ≤ k →
      (highBits 32 k &&& if wide then 0xFFFFFFFF else 0xFFFF) &&& barTypeIo = 0 ∧
      (highBits 32 k &&& if wide then 0xFFFFFFFF else 0xFFFF) &&& barIoAddrMask =
        highBits 32 k &&& if wide then 0xFFFFFFFF else 0xFFFF := by decide
  obtain ⟨h1, h2⟩ := hall wide k (by split at hlt <;> omega) hk
  constructor
  · show (addr ||| 0x1) &&& barTypeIo ≠ 0
    rw [or_and_low ha h1]
    decide
  · exact or_and_high ha h2 (by decide)

theorem raw_mem {addr mask fl : BitVec 32} (ha : addr &&& mask = addr) (hm : mask &&& barMemAddrMask = mask)
    (hf : fl &&& barMemAddrMask = 0) : (addr ||| fl) &&& barMemAddrMask = addr ∧
      (addr ||| fl) &&& barTypeIo = fl &&& barTypeIo ∧
      (addr ||| fl) &&& barMemTypeMask = fl &&& barMemTypeMask ∧ (addr ||| fl = 0 → addr = 0 ∧ fl = 0) := by
  have hlow : ∀ M : BitVec 32, barMemAddrMask &&& M = 0 → mask &&& M = 0 := by
    intro M hM
    rw [← hm, BitVec.and_assoc, hM]
    exact BitVec.and_zero
  refine ⟨or_and_high ha hm hf, or_and_low ha (hlow _ (by decide)), or_and_low ha (hlow _ (by decide)), fun h => ?_⟩
  exact BitVec.or_eq_zero_iff.1 h

theorem pciParseBar_none (hraw : (d.regs i).value = 0 ∨ (d.regs i).value = 0xFFFFFFFF) :
    ∃ g : PciBar w → PciBar w, (∀ b, (g b).size = 0) ∧ pciParseBar i d = (i + 1, d.setBar i g) := by
  refine ⟨fun b => { b with
    raw := (d.regs i).value, index := i, base := 0, size := 0, isIo := false, is64 := false, isPrefetch := false },
    fun _ => rfl, ?_⟩
  unfold pciParseBar
  dsimp only
  rw [if_pos hraw, setBar_setBar]

theorem pciParseBar_io (hraw : ¬((d.regs i).value = 0 ∨ (d.regs i).value = 0xFFFFFFFF))
    (hio : (d.regs i).value &&& barTypeIo ≠ 0) :
    ∃ g : PciBar w → PciBar w, (∀ b, (g b).isIo = true ∧ (g b).base = ((d.regs i).value &&& barIoAddrMask).setWidth w ∧
      (g b).size = sizeOfProbe w i (d.regs i).probe) ∧ pciParseBar i d = (i + 1, d.setBar i g) := by
  refine ⟨fun b => { b with
    raw := (d.regs i).value, index := i, isIo := true, base := ((d.regs i).value &&& barIoAddrMask).setWidth w
    isPrefetch := false, size := sizeOfProbe w i (d.regs i).probe }, fun _ => ⟨rfl, rfl, rfl⟩, ?_⟩
  unfold pciParseBar
  dsimp only
  rw [if_neg hraw, if_pos hio]
  simp only [pciSizeBar_eq, setBar_setBar, regs_setBar]

theorem pciParseBar_mem (hraw : ¬((d.regs i).value = 0 ∨ (d.regs i).value = 0xFFFFFFFF))
    (hio : ¬(d.regs i).value &&& barTypeIo ≠ 0) (h64 : (d.regs i).value &&& barMemTypeMask ≠ barMemType64) :
    ∃ g : PciBar w → PciBar w, (∀ b, (g b).isIo = false ∧
      (g b).base = ((d.regs i).value &&& barMemAddrMask).setWidth w ∧
      (g b).size = sizeOfProbe w i (d.regs i).probe) ∧ pciParseBar i d = (i + 1, d.setBar i g) := by
  refine ⟨fun b => { b with
    raw := (d.regs i).value, index := i, isIo := false, base := ((d.regs i).value &&& barMemAddrMask).setWidth w
    isPrefetch := (d.regs i).value &&& barMemPrefetch ≠ 0, size := sizeOfProbe w i (d.regs i).probe },
    fun _ => ⟨rfl, rfl, rfl⟩, ?_⟩
  unfold pciParseBar
  dsimp only
  rw [if_neg hraw, if_neg hio, if_neg (fun h => h64 h.1)]
  simp only [pciSizeBar_eq, setBar_setBar, regs_setBar]

theorem pciParseBar_mem64 (hraw : ¬((d.regs i).value = 0 ∨ (d.regs i).value = 0xFFFFFFFF))
    (hio : ¬(d.regs i).value &&& barTypeIo ≠ 0) (h64 : (d.regs i).value &&& barMemTypeMask = barMemType64 ∧ i < 5) :
    ∃ g g' : PciBar w → PciBar w, (∀ b, (g b).isIo = false ∧
        (g b).base = ((d.regs i).value &&& barMemAddrMask).setWidth w ∧
        (g b).size = sizeOfProbe w i (d.regs i).probe) ∧
      (∀ b, (g' b).isIo = b.isIo ∧ (g' b).size = sizeOfProbe w (i + 1) (d.regs (i + 1)).probe) ∧
      pciParseBar i d = (i + 2, (d.setBar i g).setBar (i + 1) g') := by
  refine ⟨fun b => { b with
    raw := (d.regs i).value, index := i, isIo := false, base := ((d.regs i).value &&& barMemAddrMask).setWidth w
    isPrefetch := (d.regs i).value &&& barMemPrefetch ≠ 0, is64 := true, size := sizeOfProbe w i (d.regs i).probe },
    fun b => { b with base := 0, size := sizeOfProbe w (i + 1) (d.regs (i + 1)).probe },
    fun _ => ⟨rfl, rfl, rfl⟩, fun _ => ⟨rfl, rfl⟩, ?_⟩
  unfold pciParseBar
  dsimp only
  rw [if_neg hraw, if_neg hio, if_pos h64]
  simp only [pciSizeBar_eq, setBar_setBar, regs_setBar]

theorem ParseInv.turn {f : PciFunction} (hi : ParseInv f i d) (hlt : i < f.barCount) (hword : 32 ≤ w) :
    ParseInv f (pciParseBar i d).1 (pciParseBar i d).2 ∧ i < (pciParseBar i d).1 := by
  have hreg := hi.regs i hlt
  have hwf := f.wf i
  by_cases hraw : (d.regs i).value = 0 ∨ (d.regs i).value = 0xFFFFFFFF
  · obtain ⟨g, hg, heq⟩ := pciParseBar_none hraw
    rw [heq]
    refine ⟨hi.one (f.no_upper (fun k prefetch addr hs => ?_)) (fun _ hsize => absurd (hg _) hsize), by omega⟩
    -- the lower register of a 64 bit BAR shows its type
    rw [hreg, hs] at hraw
    rw [hs] at hwf
    obtain ⟨hk, hk', ha⟩ := hwf
    have hbits : ∀ prefetch : Bool, ∀ k < 64, 4 ≤ k →
        (highBits 64 k).setWidth 32 &&& barMemTypeMask = (0 : BitVec 32) ∧
        (0x4 ||| if prefetch then 0x8 else 0) &&& barMemTypeMask = barMemType64 := by decide
    have htype : (PciSlot.mem64 k prefetch addr).reg.value &&& barMemTypeMask = barMemType64 := by
      show (addr.setWidth 32 ||| (0x4 ||| if prefetch then 0x8 else 0)) &&& barMemTypeMask = barMemType64
      rw [or_and_low (low_of_and ha) (hbits prefetch k hk' hk).1, (hbits prefetch k hk' hk).2]
    rcases hraw with hraw | hraw <;> rw [hraw] at htype <;> exact absurd htype (by decide)
  · cases hs : f.slots i with
    | empty =>
      rw [hreg, hs] at hraw
      exact absurd (Or.inl rfl) hraw
    | io k wide addr =>
      rw [hs] at hwf hreg
      obtain ⟨hio, haddr⟩ := raw_io hwf
      rw [← hreg] at hio haddr
      obtain ⟨g, hg, heq⟩ := pciParseBar_io hraw hio
      rw [heq]
      refine ⟨hi.one (f.no_upper (fun k prefetch addr h => by rw [hs] at h; cases h)) (fun hbase _ => ?_), by omega⟩
      obtain ⟨h1, h2, h3⟩ := hg (d.bars i)
      rw [h2, haddr] at hbase
      rw [hs]
      refine ⟨setWidth_eq_zero hword hbase, h1, ?_⟩
      rintro rfl rfl
      rw [h3, hreg]
      exact size_io hwf i
    | mem k below1M prefetch addr =>
      rw [hs] at hwf hreg
      have ha := hwf.2.2
      have hbits : ∀ below1M prefetch : Bool, ∀ k < 32, 4 ≤ k → highBits 32 k &&& barMemAddrMask = highBits 32 k ∧
          ((if below1M then 0x2 else 0) ||| if prefetch then 0x8 else 0) &&& barMemAddrMask = (0 : BitVec 32) ∧
          ((if below1M then 0x2 else 0) ||| if prefetch then 0x8 else 0) &&& barTypeIo = (0 : BitVec 32) ∧
          ((if below1M then 0x2 else 0) ||| if prefetch then 0x8 else 0) &&& barMemTypeMask ≠ barMemType64 := by
        decide
      have hflags : ∀ below1M prefetch : Bool, ¬(below1M = true ∨ prefetch = true) →
          ((if below1M then 0x2 else 0) ||| if prefetch then 0x8 else 0) = (0 : BitVec 32) := by decide
      obtain ⟨hb1, hb2, hb3, hb4⟩ := hbits below1M prefetch k hwf.2.1 hwf.1
      obtain ⟨haddr, hio, htype, hzero⟩ := raw_mem ha hb1 hb2
      have hval : (d.regs i).value = addr ||| ((if below1M then 0x2 else 0) ||| if prefetch then 0x8 else 0) := by
        rw [hreg]
        rfl
      rw [← hval] at haddr hio htype hzero
      obtain ⟨g, hg, heq⟩ := pciParseBar_mem hraw (by rw [hio, hb3]; decide) (by rw [htype]; exact hb4)
      rw [heq]
      refine ⟨hi.one (f.no_upper (fun k prefetch addr h => by rw [hs] at h; cases h)) (fun hbase _ => ?_), by omega⟩
      obtain ⟨h1, h2, h3⟩ := hg (d.bars i)
      rw [h2, haddr] at hbase
      have haz := setWidth_eq_zero hword hbase
      rw [hs]
      refine ⟨haz, ?_, h1, ?_⟩
      · by_contra hno
        refine hraw (Or.inl ?_)
        rw [hval, haz, hflags _ _ hno]
        decide
      · rintro rfl
        rw [h3, hreg]
        exact size_mem hwf i
    | mem64 k prefetch addr =>
      obtain ⟨hpair, hup⟩ := f.pair i k prefetch addr hs
      have hi5 : i < 5 := by
        split at hpair <;> omega
      have hwfu := f.wf (i + 1)
      have hregu := hi.regs (i + 1) (by unfold PciFunction.barCount; exact hpair)
      rw [hup] at hwfu hregu
      rw [hs] at hwf hreg
      have ha := low_of_and hwf.2.2
      have hbits : ∀ prefetch : Bool, ∀ k < 64, 4 ≤ k →
          (highBits 64 k).setWidth 32 &&& barMemAddrMask = (highBits 64 k).setWidth 32 ∧
          (0x4 ||| if prefetch then 0x8 else 0) &&& barMemAddrMask = (0 : BitVec 32) ∧
          (0x4 ||| if prefetch then 0x8 else 0) &&& barTypeIo = (0 : BitVec 32) ∧
          (0x4 ||| if prefetch then 0x8 else 0) &&& barMemTypeMask = barMemType64 := by decide
      obtain ⟨hb1, hb2, hb3, hb4⟩ := hbits prefetch k hwf.2.1 hwf.1
      obtain ⟨haddr, hio, htype, -⟩ := raw_mem ha hb1 hb2
      have hval : (d.regs i).value = addr.setWidth 32 ||| (0x4 ||| if prefetch then 0x8 else 0) := by
        rw [hreg]
        rfl
      rw [← hval] at haddr hio htype
      obtain ⟨g, g', hg, hg', heq⟩ := pciParseBar_mem64 hraw (by rw [hio, hb3]; decide)
        ⟨by rw [htype]; exact hb4, hi5⟩
      rw [heq]
      have hne : i ≠ i + 1 := by omega
      refine ⟨⟨hi.barCount, hi.regs, fun j hj hjlt => ?_, fun j hj => ?_, fun k' addr' h => ?_⟩, by omega⟩
      · by_cases hju : j = i + 1
        · subst hju
          rw [bars_setBar_self, bars_setBar_ne (Ne.symm hne)]
          intro _ hsize
          obtain ⟨h1, h2⟩ := hg' (d.bars (i + 1))
          rw [h2, hregu] at hsize
          rw [hup]
          have hk : 32 < k := by
            by_contra hk
            exact hsize (size_upper_small hwfu (i + 1) (by omega))
          refine ⟨hk, h1.trans (hi.fresh (i + 1) (by omega)), fun hw => ?_⟩
          rw [h2, hregu]
          exact size_upper hwfu hk hw
        rw [bars_setBar_ne hju]
        by_cases hji : j = i
        · subst hji
          rw [bars_setBar_self]
          intro hbase hsize
          obtain ⟨h1, h2, h3⟩ := hg (d.bars j)
          rw [h2, haddr] at hbase
          have hsz := size_mem64 hwf hi5 hword
          rw [← hreg, ← h3] at hsz
          rw [hs]
          by_cases hk : k < 32
          · rw [if_pos hk] at hsz
            exact ⟨setWidth_eq_zero hword hbase, hk, h1, hsz⟩
          · rw [if_neg hk] at hsz
            refine absurd (BitVec.eq_of_toNat_eq ?_) hsize
            rw [hsz]
            simp
        · rw [bars_setBar_ne hji]
          exact hi.done j (by omega) hjlt
      · rw [bars_setBar_ne (by omega), bars_setBar_ne (by omega)]
        exact hi.fresh j (by omega)
      · obtain ⟨j, prefetch', hj, hmem⟩ := f.upper (i + 2) k' addr' h
        obtain rfl : j = i + 1 := by omega
        rw [hup] at hmem
        cases hmem
    | upper k addr => exact absurd hs (hi.slot k addr)

theorem parseLoop_done {f : PciFunction} (hword : 32 ≤ w) : ∀ {n i : Nat} {d : PciDevice w}, ParseInv f i d →
    f.barCount ≤ i + n → ∀ j < f.barCount, ((pciParseLoop n i d).bars j).base = 0 →
      ((pciParseLoop n i d).bars j).size ≠ 0 → (f.slots j).Parsed w j ((pciParseLoop n i d).bars j)
  | 0, i, d, hi, hn, j, hj => hi.done j (by omega) hj
  | n + 1, i, d, hi, hn, j, hj => by
    rw [pciParseLoop, hi.barCount]
    split
    · rename_i hlt
      obtain ⟨hnext, hgt⟩ := hi.turn hlt hword
      exact parseLoop_done hword hnext (by omega) j hj
    · exact hi.done j (by omega) hj

end

theorem pciParseBars_parsed {w : Nat} (hword : 32 ≤ w) (f : PciFunction) {i : Nat} (hi : i < f.barCount)
    (hbase : ((pciParseBars w f).bars i).base = 0) (hsize : ((pciParseBars w f).bars i).size ≠ 0) :
    (f.slots i).Parsed w i ((pciParseBars w f).bars i) := by
  have hsix : f.barCount ≤ 6 := by
    unfold PciFunction.barCount
    split <;> omega
  refine parseLoop_done hword ⟨rfl, fun j hj => if_pos hj, fun j hj => absurd hj (Nat.not_lt_zero j), fun j _ => rfl,
    fun k addr h => ?_⟩ (by omega) i hi hbase hsize
  obtain ⟨j, -, hj, -⟩ := f.upper 0 k addr h
  omega

end Hw
end AmitX
