import AmitX.Mm.PmmRun
/-!
# PmmInit — which frames are free after `pmm_init`

A frame that an available region touches is free, unless it belongs to the low memory, the kernel or the bitmap.  Both
ends of a region are rounded outwards, also where it is marked as free, and entries of other types are not looked at.
-/
namespace AmitX
namespace Mm

def InFrame (f addr : Nat) : Prop := f * frameSize ≤ addr ∧ addr < (f + 1) * frameSize

def Entry.Holds (e : Entry) (addr : Nat) : Prop :=
  e.baseAddr.toNat ≤ addr ∧ addr < e.baseAddr.toNat + e.length.toNat

instance (f addr : Nat) : Decidable (InFrame f addr) := inferInstanceAs (Decidable (_ ∧ _))

instance (e : Entry) (addr : Nat) : Decidable (e.Holds addr) := inferInstanceAs (Decidable (_ ∧ _))

def Loader.memoryMap (l : Loader) : List Entry := (firstMap l.tags).getD []

def IsRam (l : Loader) (addr : Nat) : Prop :=
  (∃ e ∈ l.memoryMap, e.available = true ∧ e.Holds addr) ∧ ∀ e ∈ l.memoryMap, e.available = false → ¬ e.Holds addr

/-- The frame is memory as a whole, above the low memory, and holds nothing of the kernel, which is linked at 1 MiB, nor
of the bitmap. -/
structure RamFrame (a : Arch) (l : Loader) (info : BootInfo) (f : Nat) : Prop where
  ram : ∀ addr, InFrame f addr → IsRam l addr
  low : ∀ addr, InFrame f addr → mib ≤ addr
  kernel : ∀ addr, InFrame f addr → ¬ (mib ≤ addr ∧ addr < l.kernelPhysEnd)
  bitmap : ∀ addr, InFrame f addr →
    ¬ (bitmapPlacement a l info ≤ addr ∧ addr < bitmapPlacement a l info + initBitmapSize a info)

/-- After `pmm_init` only such frames are free. -/
def OnlyRam (a : Arch) (l : Loader) (info : BootInfo) : Prop :=
  ∀ f < (pmmInit a l info).totalFrames, (pmmInit a l info).bitmap f = false → RamFrame a l info f

/-- The kernel ends above 1 MiB, and with the bitmap behind it below the end of the addresses. -/
structure Placed (a : Arch) (l : Loader) (info : BootInfo) : Prop where
  linked : mib ≤ l.kernelPhysEnd
  kernel : l.kernelPhysEnd + frameSizeMask < 2 ^ a.bits
  bitmap : bitmapPlacement a l info + initBitmapSize a info + frameSizeMask < 2 ^ a.bits

/-- A frame behind the bitmap that a region marked as free touches, or that the bitmap has no byte for and whose bit is
clear in the memory there. -/
def Exposed (a : Arch) (l : Loader) (info : BootInfo) (f : Nat) : Prop :=
  f < initFrames a info ∧ kernelEnd a l info ≤ f * frameSize ∧
    (InitTouched a l info f ∨ (8 * initBitmapSize a info ≤ f ∧ l.memory f = false))

theorem le_roundUp {a : Arch} {addr : Nat} (h : addr + frameSizeMask < 2 ^ a.bits) : addr ≤ roundUp a addr := by
  unfold roundUp
  rw [show addr + (frameSize - 1) = addr + frameSizeMask from rfl, word_of_lt h]
  simp only [frameSizeMask, frameSize] at *
  omega

theorem Placed.kernelEnd_eq {a : Arch} {l : Loader} {info : BootInfo} (h : Placed a l info) :
    kernelEnd a l info = bitmapPlacement a l info + initBitmapSize a info := by
  rw [kernelEnd, word_of_lt]
  have := h.bitmap
  omega

theorem Placed.le_placement {a : Arch} {l : Loader} {info : BootInfo} (h : Placed a l info) :
    l.kernelPhysEnd ≤ bitmapPlacement a l info := by
  have hk := le_roundUp h.kernel
  unfold bitmapPlacement
  dsimp only
  split
  · exact Nat.le_trans hk (Nat.le_max_left _ _)
  · exact hk

theorem regionFrame_low {a : Arch} {total f : Nat} : RegionFrame a total 0 mib f ↔ f < 256 ∧ f < total := by
  have hw : a.word (0 + mib + frameSizeMask) = 0 + mib + frameSizeMask :=
    word_of_lt (Nat.lt_of_lt_of_le (by decide) (two_pow_bits a))
  rw [RegionFrame, mem_regionFrames, hw]
  simp only [mib, frameSizeMask, frameSize]
  omega

theorem Placed.regionFrame_kernel {a : Arch} {l : Loader} {info : BootInfo} (h : Placed a l info) {total f : Nat} :
    RegionFrame a total mib (a.word (kernelEnd a l info + 2 ^ a.bits - mib)) f ↔
      256 ≤ f ∧ f * frameSize < kernelEnd a l info ∧ f < total := by
  have hle := h.le_placement
  have hlinked := h.linked
  have hbits := h.bitmap
  have hend := h.kernelEnd_eq
  have hpow := two_pow_bits a
  have hlen : a.word (kernelEnd a l info + 2 ^ a.bits - mib) = kernelEnd a l info - mib := by
    rw [show kernelEnd a l info + 2 ^ a.bits - mib = kernelEnd a l info - mib + 2 ^ a.bits by omega, Arch.word,
      Nat.add_mod_right]
    exact Nat.mod_eq_of_lt (by omega)
  have hw : a.word (mib + (kernelEnd a l info - mib) + frameSizeMask) = kernelEnd a l info + frameSizeMask := by
    rw [word_of_lt] <;> omega
  rw [RegionFrame, mem_regionFrames, hlen, hw]
  simp only [mib, frameSizeMask, frameSize] at *
  omega

theorem Placed.free_iff {a : Arch} {l : Loader} {info : BootInfo} (h : Placed a l info) {f : Nat}
    (hf : f < initFrames a info) : (pmmInit a l info).bitmap f = false ↔ Exposed a l info f := by
  have hvga : ∀ f, RegionFrame a (initFrames a info) vgaMemPhys frameSize f → f < 256 := by
    intro f hf
    have hw : a.word (vgaMemPhys + frameSize + frameSizeMask) = vgaMemPhys + frameSize + frameSizeMask :=
      word_of_lt (Nat.lt_of_lt_of_le (by decide) (two_pow_bits a))
    have := (mem_regionFrames.1 hf.2).2.1
    rw [hw] at this
    simp only [vgaMemPhys, frameSize, frameSizeMask] at this
    omega
  have hres : InitReserved a l info f ↔ f * frameSize < kernelEnd a l info := by
    have hle := h.le_placement
    have hlinked := h.linked
    have hend := h.kernelEnd_eq
    rw [InitReserved, regionFrame_low, h.regionFrame_kernel]
    constructor
    · rintro (⟨hlow, _⟩ | ⟨_, hk, _⟩ | hv)
      · simp only [mib, frameSize] at *
        omega
      · exact hk
      · have := hvga f hv
        simp only [mib, frameSize] at *
        omega
    · intro hk
      by_cases hlow : f < 256
      · exact .inl ⟨hlow, hf⟩
      · exact .inr (.inl ⟨by omega, hk, hf⟩)
  rw [(pmmInit_bitmap a l info).1, Exposed]
  dsimp only
  by_cases hr : InitReserved a l info f
  · rw [if_pos hr]
    have := hres.1 hr
    simp only [Bool.true_eq_false, false_iff, not_and]
    omega
  · rw [if_neg hr]
    have hle := Nat.le_of_not_lt (mt hres.2 hr)
    by_cases ht : InitTouched a l info f
    · simp [ht, hf, hle]
    · simp [ht, hf, hle]

/-- **Only memory is free** after `pmm_init` exactly when every exposed frame lies in the available entries and in no
other. -/
theorem only_ram_iff (a : Arch) (magicOk : Bool) (l : Loader) (hp : Placed a l (kernelEarlyInit magicOk l.tags).2) :
    OnlyRam a l (kernelEarlyInit magicOk l.tags).2 ↔
      ∀ f, Exposed a l (kernelEarlyInit magicOk l.tags).2 f → ∀ addr, InFrame f addr → IsRam l addr := by
  generalize (kernelEarlyInit magicOk l.tags).2 = info at hp
  have htotal := (pmmInit_bitmap a l info).2
  constructor
  · intro h f hf
    exact (h f (by rw [htotal]; exact hf.1) ((hp.free_iff hf.1).2 hf)).ram
  · intro h f hlt hfree
    rw [htotal] at hlt
    have hexp := (hp.free_iff hlt).1 hfree
    have hle := hp.le_placement
    have hlinked := hp.linked
    have hend := hp.kernelEnd_eq
    have habove := hexp.2.1
    refine ⟨h f hexp, fun addr haddr => ?_, fun addr haddr => ?_, fun addr haddr => ?_⟩ <;>
      · have := haddr.1
        omega

theorem placed_x64 {l : Loader} (magicOk : Bool) (hlinked : mib ≤ l.kernelPhysEnd) (hkernel : l.kernelPhysEnd < 2 ^ 62)
    (hinfo : l.mbInfo + l.mbSize < 2 ^ 62) : Placed .x64 l (kernelEarlyInit magicOk l.tags).2 := by
  have hframes := bootFrames_x64_le magicOk l
  unfold bootFrames at hframes
  generalize (kernelEarlyInit magicOk l.tags).2 = info at hframes
  have hround : ∀ addr, addr < 2 ^ 62 → roundUp .x64 addr < 2 ^ 62 + frameSize := by
    intro addr haddr
    have hmod : Arch.word .x64 (addr + (frameSize - 1)) ≤ addr + (frameSize - 1) := Nat.mod_le _ _
    unfold roundUp
    simp only [frameSize] at *
    omega
  have hplace : bitmapPlacement .x64 l info < 2 ^ 62 + frameSize := by
    unfold bitmapPlacement
    dsimp only
    split
    · refine Nat.max_lt.2 ⟨hround _ hkernel, hround _ ?_⟩
      exact Nat.lt_of_le_of_lt (Nat.mod_le _ _) hinfo
    · exact hround _ hkernel
  have hsize : initBitmapSize .x64 info ≤ initFrames .x64 info + 7 :=
    Nat.le_trans (Nat.div_le_self _ _) (Nat.mod_le _ _)
  have hbits : Arch.bits .x64 = 64 := rfl
  refine ⟨hlinked, ?_, ?_⟩ <;>
    · rw [hbits]
      simp only [frameSizeMask, frameSize] at *
      omega

/-! ## A region that ends inside a frame -/

/-- The frame at 8 MiB is available in its first half and reserved in the second. -/
def sharedLoader : Loader :=
  ⟨[.mmap [⟨0x100000, 0x700800, mb2MmapAvailable⟩, ⟨0x800800, 0x800, 2⟩, ⟨0x801000, 0xF00000, mb2MmapAvailable⟩]],
    0x9000, 0x400, 0x300000, fun _ => false⟩

/-- **A frame that is shared with a reserved region is free.** -/
theorem not_only_ram : ¬ OnlyRam .x64 sharedLoader (kernelEarlyInit true sharedLoader.tags).2 := by
  have hp : Placed .x64 sharedLoader (kernelEarlyInit true sharedLoader.tags).2 :=
    placed_x64 true (by decide) (by decide) (by decide)
  have htotal := (pmmInit_bitmap .x64 sharedLoader (kernelEarlyInit true sharedLoader.tags).2).2
  intro h
  have hlt : 0x800 < initFrames .x64 (kernelEarlyInit true sharedLoader.tags).2 := by decide
  have hexp : Exposed .x64 sharedLoader (kernelEarlyInit true sharedLoader.tags).2 0x800 :=
    ⟨hlt, by decide, .inl (by decide)⟩
  have hram := (h 0x800 (by rw [htotal]; exact hlt) ((hp.free_iff hlt).2 hexp)).ram 0x800800 (by decide)
  exact hram.2 ⟨0x800800, 0x800, 2⟩ (by simp [sharedLoader, Loader.memoryMap, firstMap]) (by decide) (by decide)

/-- With one region of whole frames only memory is free. -/
theorem only_ram_small : OnlyRam .x64 smallLoader (kernelEarlyInit true smallLoader.tags).2 := by
  have htotal : initFrames .x64 (kernelEarlyInit true smallLoader.tags).2 = 4096 := by decide
  have hsize : initBitmapSize .x64 (kernelEarlyInit true smallLoader.tags).2 = 512 := by decide
  refine (only_ram_iff .x64 true smallLoader (placed_x64 true (by decide) (by decide) (by decide))).2 ?_
  rintro f ⟨hlt, hend, _⟩ addr haddr
  rw [htotal] at hlt
  have hkernel : kernelEnd .x64 smallLoader (kernelEarlyInit true smallLoader.tags).2 = 0x300200 := by decide
  rw [hkernel] at hend
  have h1 := haddr.1
  have h2 := haddr.2
  have hmap : smallLoader.memoryMap = [⟨0x100000, 0x1000000, mb2MmapAvailable⟩] := rfl
  rw [IsRam, hmap]
  refine ⟨⟨_, List.mem_singleton_self _, by decide, ?_⟩, fun e he hn => ?_⟩
  · change 0x100000 ≤ addr ∧ addr < 0x100000 + 0x1000000
    simp only [frameSize] at *
    omega
  · rw [List.mem_singleton.1 he] at hn
    cases hn

end Mm
end AmitX
