import Mathlib.Order.Interval.Set.Basic
import Mathlib.Order.CompletePartialOrder
import Mathlib.Data.Set.Lattice
import AmitX.Exec.Loader2
/-!
# Sections — where the verified sections of an AMX2 image lie

`amx2_verify_sections` compares 32-bit sums, and each section with the one before it.
-/
namespace AmitX
namespace Exec

/-- `[vaddr, vaddr + mem_size)`, as natural numbers. -/
def Amx2Section.interval (s : Amx2Section) : Set Nat := Set.Ico s.vaddr (s.vaddr + s.memSize)

/-- **The sections lie in the image** and apart, each with room for what the file has of it. -/
structure SectionsSound (h : Amx2Header) (sections : List Amx2Section) : Prop where
  inside : ∀ s ∈ sections, s.interval ⊆ Set.Ico 0 h.imageSize
  apart : sections.Pairwise fun s t => Disjoint s.interval t.interval
  file : ∀ s ∈ sections, s.fileSize ≤ s.memSize

def Amx2Section.NoWrap (s : Amx2Section) : Prop := s.vaddr + s.memSize < 2 ^ 32

section

variable {h : Amx2Header} {s : Amx2Section} {sections : List Amx2Section} {first : Bool} {prevEnd : Nat}

theorem sectionOk_spec (hok : sectionOk h first prevEnd s = true) : s.vaddr < h.imageSize ∧
    (s.vaddr + s.memSize) % 2 ^ 32 ≤ h.imageSize ∧ s.fileSize ≤ s.memSize ∧ (first = true ∨ prevEnd ≤ s.vaddr) := by
  unfold sectionOk at hok
  obtain ⟨-, -, -, hv, hend, hfile, -, -, hprev⟩ := of_decide_eq_true hok
  exact ⟨hv, hend, hfile, hprev⟩

theorem sectionsOk_cons {rest : List Amx2Section} (hok : sectionsOk h first prevEnd (s :: rest) = true) :
    sectionOk h first prevEnd s = true ∧ sectionsOk h false ((s.vaddr + s.memSize) % 2 ^ 32) rest = true := by
  rw [sectionsOk, Bool.and_eq_true] at hok
  exact hok

/-- **Each section ends before the next one begins**, when no end wraps: the chain of the comparisons makes every later
section begin behind `prevEnd`. -/
theorem sectionsOk_chain : ∀ {sections : List Amx2Section} {first : Bool} {prevEnd : Nat},
    sectionsOk h first prevEnd sections = true → (∀ s ∈ sections, s.NoWrap) →
      (first = false → ∀ s ∈ sections, prevEnd ≤ s.vaddr) ∧
        sections.Pairwise fun s t => s.vaddr + s.memSize ≤ t.vaddr
  | [], _, _, _, _ => ⟨(fun _ s hs => by cases hs), List.Pairwise.nil⟩
  | s :: rest, first, prevEnd, hok, hno => by
    obtain ⟨hs, hrest⟩ := sectionsOk_cons hok
    obtain ⟨-, -, -, hprev⟩ := sectionOk_spec hs
    obtain ⟨hafter, hpairs⟩ := sectionsOk_chain hrest (fun t ht => hno t (List.mem_cons_of_mem s ht))
    have hend : (s.vaddr + s.memSize) % 2 ^ 32 = s.vaddr + s.memSize := Nat.mod_eq_of_lt (hno s List.mem_cons_self)
    rw [hend] at hafter
    refine ⟨fun hf t ht => ?_, List.pairwise_cons.2 ⟨fun t ht => hafter rfl t ht, hpairs⟩⟩
    have hle : prevEnd ≤ s.vaddr := hprev.resolve_left (by rw [hf]; exact Bool.false_ne_true)
    rcases List.mem_cons.1 ht with rfl | ht
    · exact hle
    · exact Nat.le_trans hle (Nat.le_trans (Nat.le_add_right _ _) (hafter rfl t ht))

theorem sectionsOk_each : ∀ {sections : List Amx2Section} {first : Bool} {prevEnd : Nat},
    sectionsOk h first prevEnd sections = true → ∀ s ∈ sections, s.vaddr < h.imageSize ∧
      (s.vaddr + s.memSize) % 2 ^ 32 ≤ h.imageSize ∧ s.fileSize ≤ s.memSize
  | s :: rest, first, prevEnd, hok, t, ht => by
    obtain ⟨hs, hrest⟩ := sectionsOk_cons hok
    rcases List.mem_cons.1 ht with rfl | ht
    · obtain ⟨hv, hend, hfile, -⟩ := sectionOk_spec hs
      exact ⟨hv, hend, hfile⟩
    · exact sectionsOk_each hrest t ht

theorem imageSize_lt (hheader : amx2VerifyHeader h = true) : h.imageSize < 2 ^ 32 := by
  unfold amx2VerifyHeader at hheader
  obtain ⟨-, -, -, -, -, -, -, hmax, -⟩ := of_decide_eq_true hheader
  exact Nat.lt_of_le_of_lt hmax (by decide)

/-- **Verified sections are apart and inside the image exactly when none of their ends wraps.** -/
theorem sectionsSound_iff (hheader : amx2VerifyHeader h = true) (hok : amx2VerifySections h sections = true) :
    SectionsSound h sections ↔ ∀ s ∈ sections, s.NoWrap := by
  have himage := imageSize_lt hheader
  have heach := sectionsOk_each hok
  constructor
  · intro hsound s hs
    obtain ⟨hv, -, -⟩ := heach s hs
    unfold Amx2Section.NoWrap
    rcases Nat.eq_zero_or_pos s.memSize with h0 | hpos
    · omega
    · -- the last byte of the section
      have hlast : s.vaddr + s.memSize - 1 ∈ Set.Ico 0 h.imageSize :=
        hsound.inside s hs ⟨by omega, by omega⟩
      have := hlast.2
      omega
  · intro hno
    obtain ⟨-, hpairs⟩ := sectionsOk_chain hok hno
    refine ⟨fun s hs a ha => ?_, hpairs.imp (fun {s t} hst => ?_), fun s hs => (heach s hs).2.2⟩
    · obtain ⟨-, hend, -⟩ := heach s hs
      rw [Nat.mod_eq_of_lt (hno s hs)] at hend
      exact ⟨Nat.zero_le a, Nat.lt_of_lt_of_le ha.2 hend⟩
    · refine Set.disjoint_left.2 (fun a ha hb => ?_)
      have h1 : a < s.vaddr + s.memSize := ha.2
      have h2 : t.vaddr ≤ a := hb.1
      omega

end

/-- A header for an image of 4096 bytes with `count` sections. -/
def pageHeader (count : Nat) : Amx2Header where
  magic := amxMagic
  version := 2
  flags := 0
  machine := 0x014C
  subsystem := 0
  entry := 0
  preferredBase := 0
  imageSize := 4096
  sectionCount := count
  reserved0 := 0
  sectionOffset := 128
  relocOffset := 0
  relocCount := 0
  importOffset := 0
  importCount := 0
  exportOffset := 0
  exportCount := 0
  exportOrdinalBase := 0
  stringOffset := 0
  stringSize := 0
  programName := [0]
  author := [0]
  checksum := 0

/-- A section in memory only, from `vaddr` on. -/
def bssSection (vaddr memSize : Nat) : Amx2Section := ⟨[0], 0x0A, 0, 0, vaddr, memSize, 0⟩

theorem sectionsSound_iff_two : SectionsSound (pageHeader 2) [bssSection 0 64, bssSection 64 64] ↔
    ∀ s ∈ [bssSection 0 64, bssSection 64 64], s.NoWrap := sectionsSound_iff (by decide) (by decide)

/-- **A section whose end wraps to 7** is verified in an image of 4096 bytes. -/
theorem not_sectionsSound : ¬∀ (h : Amx2Header) (sections : List Amx2Section), amx2VerifyHeader h = true →
    amx2VerifySections h sections = true → SectionsSound h sections := by
  intro hall
  have hsound := hall (pageHeader 1) [bssSection 8 (2 ^ 32 - 1)] (by decide) (by decide)
  have hmem : 4096 ∈ (bssSection 8 (2 ^ 32 - 1)).interval := ⟨by decide, by decide⟩
  have hin := hsound.inside _ List.mem_cons_self hmem
  exact absurd hin.2 (by decide)

end Exec
end AmitX
