import AmitX.Hw.PciRun
/-!
# PciSizes — the sizes that `pci_parse_bars` stores (`pci.c`)

A memory BAR of 32 bits that has no address and no type bits reads as 0, and is taken for one that is not there, although
`pci_init` would give it a window.  Where words have 64 bits, `~size + 1` sets the upper half of the size.  After a 64 bit
BAR the loop sizes its upper register, too, which has address bits of its own from 8 GiB on.
-/
namespace AmitX
namespace Hw

def PciFunction.device (w : Nat) (f : PciFunction) : PciDevice w where
  barCount := f.barCount
  bars := fun _ => ⟨0, 0, 0, false, false, false, 0, false⟩
  regs := fun i => if i < f.barCount then (f.slots i).reg else f.others i

/-- The size that is to be stored: the window's, up to 2 GiB, and none for the upper register of a 64 bit BAR. -/
def PciSlot.Sized {w : Nat} (size : BitVec w) : PciSlot → Prop
  | .empty => True
  | .io k _ _ | .mem k _ _ _ => size.toNat = 2 ^ k
  | .mem64 k _ _ => k ≤ 31 → size.toNat = 2 ^ k
  | .upper _ _ => size = 0

/-- The parse ends, leaves every register as it was and stores the sizes. -/
structure SizingExact (w : Nat) (f : PciFunction) : Prop where
  ends : ∀ n, pciParseLoop (6 + n) 0 (f.device w) = pciParseBars w f
  regs : (pciParseBars w f).regs = (f.device w).regs
  sized : ∀ i < f.barCount, (f.slots i).Sized ((pciParseBars w f).bars i).size

/-- The BARs that are sized right: 32 bit BARs where words have 32 bits and unless they read as 0, and 64 bit BARs up to
4 GiB. -/
def PciSlot.Sizes (w : Nat) : PciSlot → Prop
  | .empty | .mem64 _ _ _ => True
  | .io _ _ _ => w = 32
  | .mem _ below1M prefetch addr => w = 32 ∧ (addr ≠ 0 ∨ below1M = true ∨ prefetch = true)
  | .upper k _ => k ≤ 32

/-! ## What is read -/

section Values

theorem value_io {k : Nat} {addr : BitVec 32} (hw : (PciSlot.io k true addr).Wf) :
    ¬((PciSlot.io k true addr).reg.value = 0 ∨ (PciSlot.io k true addr).reg.value = 0xFFFFFFFF) ∧
    (PciSlot.io k true addr).reg.value &&& barTypeIo ≠ 0 := by
  obtain ⟨hio, -⟩ := raw_io hw
  refine ⟨?_, hio⟩
  obtain ⟨hk, hlt, ha⟩ := hw
  have hbits : ∀ k < 32, 2 ≤ k → (highBits 32 k &&& 0xFFFFFFFF) &&& 0x2 = 0 := by decide
  have hbit : (PciSlot.io k true addr).reg.value &&& 0x2 = 0 := or_and_low ha (hbits k hlt hk)
  rintro (h | h)
  · rw [h] at hio
    exact hio (by decide)
  · rw [h] at hbit
    exact absurd hbit (by decide)

theorem value_mem {k : Nat} {below1M prefetch : Bool} {addr : BitVec 32}
    (hw : (PciSlot.mem k below1M prefetch addr).Wf) :
    (PciSlot.mem k below1M prefetch addr).reg.value ≠ 0xFFFFFFFF ∧
    ((PciSlot.mem k below1M prefetch addr).reg.value = 0 ↔ ¬(addr ≠ 0 ∨ below1M = true ∨ prefetch = true)) ∧
    ¬(PciSlot.mem k below1M prefetch addr).reg.value &&& barTypeIo ≠ 0 ∧
    (PciSlot.mem k below1M prefetch addr).reg.value &&& barMemTypeMask ≠ barMemType64 := by
  obtain ⟨hk, hlt, ha⟩ := hw
  have hbits : ∀ below1M prefetch : Bool, ∀ k < 32, 4 ≤ k → highBits 32 k &&& barMemAddrMask = highBits 32 k ∧
      ((if below1M then 0x2 else 0) ||| if prefetch then 0x8 else 0) &&& barMemAddrMask = (0 : BitVec 32) ∧
      ((if below1M then 0x2 else 0) ||| if prefetch then 0x8 else 0) &&& barTypeIo = (0 : BitVec 32) ∧
      ((if below1M then 0x2 else 0) ||| if prefetch then 0x8 else 0) &&& barMemTypeMask ≠ barMemType64 := by
    decide
  have hflags : ∀ below1M prefetch : Bool,
      ((if below1M then 0x2 else 0) ||| if prefetch then 0x8 else 0) = (0 : BitVec 32) ↔
        ¬(below1M = true ∨ prefetch = true) := by decide
  obtain ⟨hb1, hb2, hb3, hb4⟩ := hbits below1M prefetch k hlt hk
  obtain ⟨-, hio, htype, hzero⟩ := raw_mem ha hb1 hb2
  have hval : (PciSlot.mem k below1M prefetch addr).reg.value =
      addr ||| ((if below1M then 0x2 else 0) ||| if prefetch then 0x8 else 0) := rfl
  rw [hval]
  refine ⟨fun h => ?_, ?_, by rw [hio, hb3]; decide, by rw [htype]; exact hb4⟩
  · rw [h, hb3] at hio
    exact absurd hio (by decide)
  · constructor
    · intro h
      obtain ⟨haddr, hfl⟩ := hzero h
      rintro (hne | hne)
      · exact hne haddr
      · exact (hflags below1M prefetch).1 hfl hne
    · intro h
      obtain ⟨haddr, hfl⟩ := not_or.1 h
      rw [(hflags below1M prefetch).2 hfl, not_not.1 haddr]
      decide

theorem value_mem64 {k : Nat} {prefetch : Bool} {addr : BitVec 64} (hw : (PciSlot.mem64 k prefetch addr).Wf) :
    ¬((PciSlot.mem64 k prefetch addr).reg.value = 0 ∨ (PciSlot.mem64 k prefetch addr).reg.value = 0xFFFFFFFF) ∧
    ¬(PciSlot.mem64 k prefetch addr).reg.value &&& barTypeIo ≠ 0 ∧
    (PciSlot.mem64 k prefetch addr).reg.value &&& barMemTypeMask = barMemType64 := by
  obtain ⟨hk, hlt, ha⟩ := hw
  have hbits : ∀ prefetch : Bool, ∀ k < 64, 4 ≤ k →
      (highBits 64 k).setWidth 32 &&& barMemAddrMask = (highBits 64 k).setWidth 32 ∧
      (0x4 ||| if prefetch then 0x8 else 0) &&& barMemAddrMask = (0 : BitVec 32) ∧
      (0x4 ||| if prefetch then 0x8 else 0) &&& barTypeIo = (0 : BitVec 32) ∧
      (0x4 ||| if prefetch then 0x8 else 0) &&& barMemTypeMask = barMemType64 := by decide
  obtain ⟨hb1, hb2, hb3, hb4⟩ := hbits prefetch k hlt hk
  obtain ⟨-, hio, htype, -⟩ := raw_mem (low_of_and ha) hb1 hb2
  have hval : (PciSlot.mem64 k prefetch addr).reg.value =
      addr.setWidth 32 ||| (0x4 ||| if prefetch then 0x8 else 0) := rfl
  rw [hval]
  refine ⟨?_, by rw [hio, hb3]; decide, by rw [htype, hb4]⟩
  rintro (h | h)
  · rw [h, hb4] at htype
    exact absurd htype (by decide)
  · rw [h, hb3] at hio
    exact absurd hio (by decide)

end Values

/-! ## What is stored -/

section Turns

variable {w : Nat} {d : PciDevice w} {f : PciFunction} {i j : Nat}

/-- The size that the parse stores: that of the probe, unless the register reads as 0. -/
def PciSlot.stored (w i : Nat) : PciSlot → BitVec w
  | .empty => 0
  | .mem k below1M prefetch addr =>
    if (PciSlot.mem k below1M prefetch addr).reg.value = 0 then 0
    else sizeOfProbe w i (PciSlot.mem k below1M prefetch addr).reg.probe
  | slot => sizeOfProbe w i slot.reg.probe

def PciFunction.Wide (f : PciFunction) : Prop := ∀ i k wide addr, f.slots i = .io k wide addr → wide = true

theorem pciParseBar_one (hwide : f.Wide) (hreg : d.regs i = (f.slots i).reg)
    (hupper : ∀ k addr, f.slots i ≠ .upper k addr) (h64 : ∀ k prefetch addr, f.slots i ≠ .mem64 k prefetch addr) :
    ∃ g : PciBar w → PciBar w, (∀ b, (g b).size = (f.slots i).stored w i) ∧
      pciParseBar i d = (i + 1, d.setBar i g) := by
  have hwf := f.wf i
  cases hs : f.slots i with
  | empty =>
    rw [hs] at hreg
    obtain ⟨g, hg, heq⟩ := pciParseBar_none (d := d) (i := i) (.inl (by rw [hreg]; rfl))
    exact ⟨g, hg, heq⟩
  | io k wide addr =>
    obtain rfl := hwide i k wide addr hs
    rw [hs] at hreg hwf
    obtain ⟨hraw, hio⟩ := value_io hwf
    rw [← hreg] at hraw hio
    obtain ⟨g, hg, heq⟩ := pciParseBar_io hraw hio
    refine ⟨g, fun b => ?_, heq⟩
    rw [(hg b).2.2, hreg]
    rfl
  | mem k below1M prefetch addr =>
    rw [hs] at hreg hwf
    obtain ⟨hones, -, hio, htype⟩ := value_mem hwf
    simp only [PciSlot.stored]
    rw [← hreg] at hones hio htype ⊢
    by_cases hzero : (d.regs i).value = 0
    · obtain ⟨g, hg, heq⟩ := pciParseBar_none (d := d) (i := i) (.inl hzero)
      rw [if_pos hzero]
      exact ⟨g, hg, heq⟩
    · obtain ⟨g, hg, heq⟩ := pciParseBar_mem (not_or.2 ⟨hzero, hones⟩) hio htype
      rw [if_neg hzero]
      exact ⟨g, fun b => (hg b).2.2, heq⟩
  | mem64 k prefetch addr => exact absurd hs (h64 k prefetch addr)
  | upper k addr => exact absurd hs (hupper k addr)

/-- The loop's invariant: the BARs before `i` have their sizes, and the next is no upper register. -/
structure SizeInv (f : PciFunction) (i : Nat) (d : PciDevice w) : Prop where
  barCount : d.barCount = f.barCount
  regs : d.regs = (f.device w).regs
  done : ∀ j < i, j < f.barCount → (d.bars j).size = (f.slots j).stored w j
  slot : ∀ k addr, f.slots i ≠ .upper k addr

theorem device_regs (hi : i < f.barCount) : (f.device w).regs i = (f.slots i).reg := if_pos hi

theorem SizeInv.turn (hwide : f.Wide) (hi : SizeInv f i d) (hlt : i < f.barCount) :
    SizeInv f (pciParseBar i d).1 (pciParseBar i d).2 ∧ i < (pciParseBar i d).1 := by
  have hreg : ∀ j < f.barCount, d.regs j = (f.slots j).reg := fun j hj => by rw [hi.regs, device_regs hj]
  by_cases h64 : ∃ k prefetch addr, f.slots i = .mem64 k prefetch addr
  · obtain ⟨k, prefetch, addr, hs⟩ := h64
    obtain ⟨hpair, hup⟩ := f.pair i k prefetch addr hs
    have hlt' : i + 1 < f.barCount := hpair
    have hi5 : i < 5 := by
      split at hpair <;> omega
    have hwf := f.wf i
    have hregi := hreg i hlt
    rw [hs] at hwf hregi
    obtain ⟨hraw, hio, htype⟩ := value_mem64 hwf
    rw [← hregi] at hraw hio htype
    obtain ⟨g, g', hg, hg', heq⟩ := pciParseBar_mem64 hraw hio ⟨htype, hi5⟩
    rw [heq]
    refine ⟨⟨hi.barCount, hi.regs, fun j hj hjlt => ?_, fun k' addr' h => ?_⟩, by omega⟩
    · by_cases hju : j = i + 1
      · subst hju
        rw [bars_setBar_self, (hg' _).2, hreg (i + 1) hlt', hup]
        rfl
      · rw [bars_setBar_ne hju]
        by_cases hji : j = i
        · subst hji
          rw [bars_setBar_self, (hg _).2.2, hregi, hs]
          rfl
        · rw [bars_setBar_ne hji]
          exact hi.done j (by omega) hjlt
    · obtain ⟨j, prefetch', hj, hmem⟩ := f.upper (i + 2) k' addr' h
      obtain rfl : j = i + 1 := by omega
      rw [hup] at hmem
      cases hmem
  · push Not at h64
    obtain ⟨g, hg, heq⟩ := pciParseBar_one hwide (hreg i hlt) hi.slot h64
    rw [heq]
    refine ⟨⟨hi.barCount, hi.regs, fun j hj hjlt => ?_, f.no_upper h64⟩, by omega⟩
    by_cases hji : j = i
    · subst hji
      rw [bars_setBar_self]
      exact hg _
    · rw [bars_setBar_ne hji]
      exact hi.done j (by omega) hjlt

theorem pciParseLoop_done (h : ¬i < d.barCount) (n : Nat) : pciParseLoop n i d = d := by
  cases n with
  | zero => rfl
  | succ n => exact if_neg h

theorem pciParseLoop_turn (h : i < d.barCount) (n : Nat) :
    pciParseLoop (n + 1) i d = pciParseLoop n (pciParseBar i d).1 (pciParseBar i d).2 := if_pos h

theorem SizeInv.loop (hwide : f.Wide) : ∀ {n i : Nat} {d : PciDevice w}, SizeInv f i d → f.barCount ≤ i + n →
    ∃ j, f.barCount ≤ j ∧ SizeInv f j (pciParseLoop n i d) ∧ ∀ m, pciParseLoop (n + m) i d = pciParseLoop n i d
  | 0, i, d, hi, hn => by
    have hdone : ¬i < d.barCount := by
      rw [hi.barCount]
      omega
    exact ⟨i, hn, hi, fun m => pciParseLoop_done hdone _⟩
  | n + 1, i, d, hi, hn => by
    by_cases hlt : i < d.barCount
    · obtain ⟨hnext, hgt⟩ := hi.turn hwide (hi.barCount ▸ hlt)
      obtain ⟨j, hj, hinv, hmore⟩ := hnext.loop hwide (n := n) (by omega)
      refine ⟨j, hj, ?_, fun m => ?_⟩
      · rw [pciParseLoop_turn hlt]
        exact hinv
      · rw [Nat.add_right_comm, pciParseLoop_turn hlt, pciParseLoop_turn hlt]
        exact hmore m
    · refine ⟨i, by rw [← hi.barCount]; omega, ?_, fun m => ?_⟩
      · rw [pciParseLoop_done hlt]
        exact hi
      · rw [pciParseLoop_done hlt, pciParseLoop_done hlt]

theorem sizeInv_start (f : PciFunction) : SizeInv f 0 (f.device w) where
  barCount := rfl
  regs := rfl
  done j hj := absurd hj (Nat.not_lt_zero j)
  slot k addr h := by
    obtain ⟨j, -, hj, -⟩ := f.upper 0 k addr h
    omega

end Turns

/-! ## Sizes of the slots, exactly -/

section Exact

variable {w i : Nat}

theorem stored_io (hw : w = 32 ∨ w = 64) {k : Nat} {addr : BitVec 32} (hwf : (PciSlot.io k true addr).Wf) :
    ((PciSlot.io k true addr).stored w i).toNat = 2 ^ k ↔ w = 32 := by
  show (sizeOfProbe w i (PciSlot.io k true addr).reg.probe).toNat = 2 ^ k ↔ w = 32
  rcases hw with rfl | rfl
  · exact iff_of_true (size_io hwf i) rfl
  · refine iff_of_false ?_ (by decide)
    rw [probe_io hwf]
    obtain ⟨hk, hlt, -⟩ := hwf
    have hall : ∀ k < 32, 2 ≤ k →
        ¬(0x1 ||| (highBits 32 k &&& 0xFFFFFFFF) = 0 ∨ 0x1 ||| (highBits 32 k &&& 0xFFFFFFFF) = 0xFFFFFFFF) ∧
        (0x1 ||| (highBits 32 k &&& 0xFFFFFFFF)) &&& barTypeIo ≠ 0 ∧
        (pciNegate 64 ((0x1 ||| (highBits 32 k &&& 0xFFFFFFFF)) &&& barIoAddrMask)).toNat ≠ 2 ^ k := by decide
    obtain ⟨h1, h2, h3⟩ := hall k hlt hk
    unfold sizeOfProbe
    rw [if_pos rfl, if_neg h1, if_pos h2]
    exact h3

theorem size_mem_wide {k : Nat} {below1M prefetch : Bool} {addr : BitVec 32}
    (hwf : (PciSlot.mem k below1M prefetch addr).Wf) (i : Nat) :
    (sizeOfProbe 64 i (PciSlot.mem k below1M prefetch addr).reg.probe).toNat ≠ 2 ^ k := by
  rw [probe_mem hwf]
  obtain ⟨hk, hlt, -⟩ := hwf
  generalize hfl : ((if below1M then 0x2 else 0) ||| if prefetch then 0x8 else 0 : BitVec 32) = fl
  have hall : ∀ below1M prefetch : Bool, ∀ k < 32, 4 ≤ k →
      ¬(((if below1M then 0x2 else 0) ||| if prefetch then 0x8 else 0) ||| highBits 32 k = 0 ∨
        ((if below1M then 0x2 else 0) ||| if prefetch then 0x8 else 0) ||| highBits 32 k = 0xFFFFFFFF) ∧
      ¬(((if below1M then 0x2 else 0) ||| if prefetch then 0x8 else 0) ||| highBits 32 k) &&& barTypeIo ≠ 0 ∧
      ¬(((if below1M then 0x2 else 0) ||| if prefetch then 0x8 else 0) ||| highBits 32 k) &&& barMemTypeMask =
        barMemType64 ∧
      (pciNegate 64 ((((if below1M then 0x2 else 0) ||| if prefetch then 0x8 else 0) ||| highBits 32 k) &&&
        barMemAddrMask)).toNat ≠ 2 ^ k := by decide
  obtain ⟨h1, h2, h3, h4⟩ := hall below1M prefetch k hlt hk
  rw [hfl] at h1 h2 h3 h4
  unfold sizeOfProbe
  rw [if_neg h1, if_neg h2, if_neg (fun h => h3 h.1)]
  exact h4

theorem stored_mem (hw : w = 32 ∨ w = 64) {k : Nat} {below1M prefetch : Bool} {addr : BitVec 32}
    (hwf : (PciSlot.mem k below1M prefetch addr).Wf) :
    ((PciSlot.mem k below1M prefetch addr).stored w i).toNat = 2 ^ k ↔
      w = 32 ∧ (addr ≠ 0 ∨ below1M = true ∨ prefetch = true) := by
  obtain ⟨-, hzero, -, -⟩ := value_mem hwf
  simp only [PciSlot.stored]
  by_cases hval : (PciSlot.mem k below1M prefetch addr).reg.value = 0
  · rw [if_pos hval]
    refine iff_of_false (fun h => ?_) (fun h => hzero.1 hval h.2)
    have hpos := Nat.two_pow_pos k
    simp at h
    omega
  · rw [if_neg hval]
    have hbits := not_not.1 (mt hzero.2 hval)
    rcases hw with rfl | rfl
    · exact iff_of_true (size_mem hwf i) ⟨rfl, hbits⟩
    · exact iff_of_false (size_mem_wide hwf i) (by simp)

theorem stored_upper (hw : w = 32 ∨ w = 64) {k : Nat} {addr : BitVec 64} (hwf : (PciSlot.upper k addr).Wf) :
    (PciSlot.upper k addr).stored w i = 0 ↔ k ≤ 32 := by
  show sizeOfProbe w i (PciSlot.upper k addr).reg.probe = 0 ↔ k ≤ 32
  by_cases hk : k ≤ 32
  · exact iff_of_true (size_upper_small hwf i hk) hk
  · refine iff_of_false ?_ hk
    rw [probe_upper hwf]
    obtain ⟨-, hlt, -⟩ := hwf
    have hall : ∀ k < 64, 32 < k →
        ¬((highBits 64 k >>> 32).setWidth 32 = (0 : BitVec 32) ∨
          (highBits 64 k >>> 32).setWidth 32 = (0xFFFFFFFF : BitVec 32)) ∧
        ¬(highBits 64 k >>> 32).setWidth 32 &&& barTypeIo ≠ 0 ∧
        (~~~((highBits 64 k >>> 32).setWidth 32 &&& barMemAddrMask) + 1).setWidth 32 ≠ (0 : BitVec 32) ∧
        (~~~((highBits 64 k >>> 32).setWidth 32 &&& barMemAddrMask) + 1).setWidth 64 ≠ (0 : BitVec 64) ∧
        pciNegate 32 ((highBits 64 k >>> 32).setWidth 32 &&& barMemAddrMask) ≠ 0 ∧
        pciNegate 64 ((highBits 64 k >>> 32).setWidth 32 &&& barMemAddrMask) ≠ 0 := by decide
    obtain ⟨h1, h2, h3, h4, h5, h6⟩ := hall k hlt (by omega)
    unfold sizeOfProbe
    rw [if_neg h1, if_neg h2]
    rcases hw with rfl | rfl
    · split
      · exact h3
      · exact h5
    · split
      · exact h4
      · exact h6

theorem stored_sized (hw : w = 32 ∨ w = 64) {slot : PciSlot} (hwf : slot.Wf)
    (hwide : ∀ k wide addr, slot = .io k wide addr → wide = true)
    (hi5 : ∀ k prefetch addr, slot = .mem64 k prefetch addr → i < 5) : slot.Sized (slot.stored w i) ↔ slot.Sizes w := by
  cases slot with
  | empty => exact Iff.rfl
  | io k wide addr =>
    obtain rfl := hwide k wide addr rfl
    exact stored_io hw hwf
  | mem k below1M prefetch addr => exact stored_mem hw hwf
  | mem64 k prefetch addr =>
    refine iff_of_true (fun hk => ?_) trivial
    have hsize := size_mem64 (w := w) hwf (hi5 k prefetch addr rfl) (by omega)
    rw [if_pos (by omega)] at hsize
    exact hsize
  | upper k addr => exact stored_upper hw hwf

end Exact

/-- **The sizes that the parse stores are exact just where each BAR is of the kinds that are sized right.** -/
theorem pciParseBars_exact_iff {w : Nat} (hw : w = 32 ∨ w = 64) (f : PciFunction) (hwide : f.Wide) :
    SizingExact w f ↔ ∀ i < f.barCount, (f.slots i).Sizes w := by
  have hsix : f.barCount ≤ 0 + 6 := by
    unfold PciFunction.barCount
    split <;> decide
  obtain ⟨j, hj, hinv, hmore⟩ := (sizeInv_start f).loop hwide hsix (w := w)
  have hparse : pciParseLoop 6 0 (f.device w) = pciParseBars w f := rfl
  rw [hparse] at hinv hmore
  have hsized : ∀ i < f.barCount, ((f.slots i).Sized ((pciParseBars w f).bars i).size ↔ (f.slots i).Sizes w) := by
    intro i hi
    rw [hinv.done i (by omega) hi]
    refine stored_sized hw (f.wf i) (hwide i) fun k prefetch addr hs => ?_
    have hpair := (f.pair i k prefetch addr hs).1
    split at hpair <;> omega
  constructor
  · exact fun h i hi => (hsized i hi).1 (h.sized i hi)
  · exact fun h => ⟨hmore, hinv.regs, fun i hi => (hsized i hi).2 (h i hi)⟩

theorem pciParseBars_exact_small : SizingExact 32 smallFunction := by
  refine (pciParseBars_exact_iff (.inl rfl) smallFunction fun i k wide addr h => ?_).2 fun i hi => ?_
  · unfold smallFunction at h
    dsimp only at h
    split at h
    · cases h
      rfl
    · split at h
      · cases h
      · split at h <;> cases h
  · unfold smallFunction
    dsimp only
    split
    · rfl
    · split
      · trivial
      · split
        · exact (by decide : 14 ≤ 32)
        · trivial

def unassignedFunction : PciFunction where
  bridge := false
  slots := fun i => if i = 0 then .mem 12 false false 0 else .empty
  others := fun _ => ⟨0, 0⟩
  wf := fun i => by
    split
    · exact ⟨by decide, by decide, by decide⟩
    · exact trivial
  pair := fun i _ _ _ h => by
    split at h <;> cases h
  upper := fun i _ _ h => by
    split at h <;> cases h

theorem not_pciParseBars_exact : ¬SizingExact 32 unassignedFunction := by
  intro h
  have hsize : ((pciParseBars 32 unassignedFunction).bars 0).size.toNat = 2 ^ 12 := h.sized 0 (by decide)
  exact absurd hsize (by decide)

end Hw
end AmitX
