import Mathlib.Data.Nat.ModEq
import AmitX.Lib.TwoRun
import AmitX.Exec.Sections
/-!
# Shift — an AMX2 image at two addresses

`exec2_map` and `exec2_relocate` of one context, run twice: `malloc` answers another address for the image, with other
bytes in it.
-/
namespace AmitX
namespace Exec

open Bytes TwoRun

/-- `exec2_map` and `exec2_relocate`. -/
def mapAndRelocate (image stack : Alloc) (ctx : Context2) : Except Stop Context2 := do
  let ctx ← exec2Map image stack ctx
  exec2Relocate ctx

/-- Entry `i` of the relocation table is for the word at `a` of the image, inside its section. -/
def SiteAt (ctx : Context2) (h : Amx2Header) (file : Buf) (i a : Nat) : Prop :=
  ∃ idx offset s, file.get (h.relocOffset + i * amx2RelocSize + 4) 2 = .ok idx ∧ idx < h.sectionCount ∧
    ctx.sections[idx]? = some s ∧ file.get (h.relocOffset + i * amx2RelocSize) 4 = .ok offset ∧
    offset + 4 ≤ s.memSize ∧ a = s.vaddr + offset

structure Relocatable (ctx : Context2) (h : Amx2Header) (file : Buf) : Prop where
  loaded : ctx.loaded = .ok (h, file)
  header : amx2VerifyHeader h = true
  sections : amx2VerifySections h ctx.sections = true
  inside : ∀ s ∈ ctx.sections, s.vaddr + s.memSize ≤ h.imageSize
  apart : ∀ i j a b, i < j → j < h.relocCount → SiteAt ctx h file i a → SiteAt ctx h file j b → a + 4 ≤ b ∨ b + 4 ≤ a
  noImport : ∀ i < h.relocCount, file.get (h.relocOffset + i * amx2RelocSize + 6) 2 ≠ .ok 2

/-- **The images differ by the shift of the base** at the words of the first `k` entries, and nowhere else. -/
structure ShiftedBy (ctx : Context2) (h : Amx2Header) (file : Buf) (base base' k : Nat) (image image' : Buf) : Prop where
  size : image.size = h.imageSize ∧ image'.size = h.imageSize
  words : ∀ i < k, ∀ a, SiteAt ctx h file i a →
    load image'.bytes a 4 + base ≡ load image.bytes a 4 + base' [MOD 2 ^ 32]
  others : ∀ x < h.imageSize, (∀ i < k, ∀ a, SiteAt ctx h file i a → x < a ∨ a + 4 ≤ x) →
    image'.bytes x = image.bytes x

section

variable {ctx c c' : Context2} {h : Amx2Header} {file image image' : Buf} {base base' k : Nat} {bytes bytes' : Mem}

theorem failIf_ok {p : Prop} [Decidable p] (hok : failIf p = .ok ()) : ¬p := by
  intro hp
  unfold failIf at hok
  rw [if_pos hp] at hok
  cases hok

theorem Buf.get_ok {b : Buf} {a n : Nat} (hin : a + n ≤ b.size) : b.get a n = .ok (load b.bytes a n) := if_pos hin

/-! ## The sections -/

theorem mapSection_both {s : Amx2Section} (hs : ShiftedBy ctx h file base base' 0 image image') :
    Both (ShiftedBy ctx h file base base' 0) (mapSection file image s) (mapSection file image' s) := by
  obtain ⟨⟨h1, h2⟩, -, hsame⟩ := hs
  unfold mapSection
  by_cases h0 : s.fileSize = 0
  · rw [if_pos h0, if_pos h0]
    exact both_ok ⟨⟨h1, h2⟩, (fun i hi => absurd hi (Nat.not_lt_zero i)), hsame⟩
  rw [if_neg h0, if_neg h0]
  by_cases hshort : file.size < (s.fileOffset + s.fileSize) % 2 ^ 32
  · rw [if_pos hshort, if_pos hshort]
    exact both_error _ _
  rw [if_neg hshort, if_neg hshort]
  unfold Buf.copyFrom
  by_cases hin : s.vaddr + s.fileSize ≤ h.imageSize ∧ s.fileOffset + s.fileSize ≤ file.size
  · rw [if_pos (by rw [h1]; exact hin), if_pos (by rw [h2]; exact hin)]
    refine both_ok ⟨⟨h1, h2⟩, (fun i hi => absurd hi (Nat.not_lt_zero i)), fun x hx _ => ?_⟩
    by_cases hmem : s.vaddr ≤ x ∧ x < s.vaddr + s.fileSize
    · exact (copy_of_mem hmem.1 hmem.2).trans (copy_of_mem hmem.1 hmem.2).symm
    · have hout : x < s.vaddr ∨ s.vaddr + s.fileSize ≤ x := by omega
      exact (copy_of_not hout).trans ((hsame x hx (fun i hi => absurd hi (Nat.not_lt_zero i))).trans (copy_of_not hout).symm)
  · rw [if_neg (by rw [h1]; exact hin), if_neg (by rw [h2]; exact hin)]
    exact both_error _ _

theorem shiftedBy_cleared (ctx : Context2) (h : Amx2Header) (file : Buf) (base base' : Nat) (bytes bytes' : Mem) :
    ShiftedBy ctx h file base base' 0 ⟨h.imageSize, fill bytes 0 h.imageSize 0⟩ ⟨h.imageSize, fill bytes' 0 h.imageSize 0⟩ := by
  refine ⟨⟨rfl, rfl⟩, (fun i hi => absurd hi (Nat.not_lt_zero i)), fun x hx _ => ?_⟩
  have hin : 0 ≤ x ∧ x < 0 + h.imageSize := ⟨Nat.zero_le x, by omega⟩
  exact (if_pos hin).trans (if_pos hin).symm

/-! ## The relocations -/

theorem ShiftedBy.put (hs : ShiftedBy ctx h file base base' k image image') {a v v' : Nat} (hsite : SiteAt ctx h file k a)
    (hone : ∀ b, SiteAt ctx h file k b → b = a) (happart : ∀ i < k, ∀ b, SiteAt ctx h file i b → b + 4 ≤ a ∨ a + 4 ≤ b)
    (hv : v' + base ≡ v + base' [MOD 2 ^ 32]) : ShiftedBy ctx h file base base' (k + 1)
      { image with bytes := store image.bytes a 4 v } { image' with bytes := store image'.bytes a 4 v' } := by
  refine ⟨hs.size, fun i hi b hb => ?_, fun x hx hout => ?_⟩
  · rcases Nat.lt_succ_iff_lt_or_eq.1 hi with hi | rfl
    · have hne := happart i hi b hb
      dsimp only
      rw [load_store_ne (by omega), load_store_ne (by omega)]
      exact hs.words i hi b hb
    · rw [hone b hb]
      dsimp only
      rw [load_store, load_store]
      have hpow : 256 ^ 4 = 2 ^ 32 := by norm_num
      rw [hpow]
      exact (((Nat.mod_modEq v' (2 ^ 32)).add_right base).trans hv).trans ((Nat.mod_modEq v (2 ^ 32)).add_right base').symm
  · have hself := hout k (Nat.lt_succ_self k) a hsite
    have hrest := hs.others x hx (fun i hi => hout i (Nat.lt_succ_of_lt hi))
    rcases hself with hlt | hge
    · exact (store_of_lt hlt).trans (hrest.trans (store_of_lt hlt).symm)
    · exact (store_of_ge hge).trans (hrest.trans (store_of_ge hge).symm)

theorem ShiftedBy.old (hs : ShiftedBy ctx h file base base' k image image') {a : Nat} (hin : a + 4 ≤ h.imageSize)
    (happart : ∀ i < k, ∀ b, SiteAt ctx h file i b → b + 4 ≤ a ∨ a + 4 ≤ b) :
    load image'.bytes a 4 = load image.bytes a 4 :=
  load_congr (fun x h1 h2 => hs.others x (by omega) (fun i hi b hb => by
    have := happart i hi b hb
    omega))

theorem siteAt_unique {i a b : Nat} (ha : SiteAt ctx h file i a) (hb : SiteAt ctx h file i b) : b = a := by
  obtain ⟨idx, offset, s, h1, -, h2, h3, -, rfl⟩ := ha
  obtain ⟨idx', offset', s', h1', -, h2', h3', -, rfl⟩ := hb
  rw [h1] at h1'
  injection h1' with h1'
  subst h1'
  rw [h2] at h2'
  injection h2' with h2'
  rw [h3] at h3'
  injection h3' with h3'
  rw [h2', h3']

theorem relocate2One_both (hr : Relocatable ctx h file) (hc : c.sections = ctx.sections) (hc' : c'.sections = ctx.sections)
    (hk : k < h.relocCount) (hs : ShiftedBy ctx h file base base' k image image') :
    Both (ShiftedBy ctx h file base base' (k + 1)) (relocate2One c h file base image k)
      (relocate2One c' h file base' image' k) := by
  unfold relocate2One
  dsimp only
  refine both_same (fun idx hidx => both_same (fun _ hcount => ?_))
  have hcount := failIf_ok hcount
  rw [hc, hc']
  cases hsect : ctx.sections[idx]? with
  | none => exact both_error _ _
  | some s =>
    refine both_same (fun offset hoffset => both_same (fun _ hfits => ?_))
    have hfits := failIf_ok hfits
    have hmem : s ∈ ctx.sections := List.mem_of_getElem? hsect
    have hin := hr.inside s hmem
    have himage := imageSize_lt hr.header
    obtain ⟨hvaddr, -, -⟩ := sectionsOk_each hr.sections s hmem
    have hsum : (s.vaddr + offset) % 2 ^ 32 = s.vaddr + offset := Nat.mod_eq_of_lt (by omega)
    rw [hsum]
    refine both_same (fun _ _ => both_same (fun type htype => both_same (fun info _ => ?_)))
    have hsite : SiteAt ctx h file k (s.vaddr + offset) :=
      ⟨idx, offset, s, hidx, Nat.lt_of_not_le hcount, hsect, hoffset, by omega, rfl⟩
    have happart : ∀ i < k, ∀ b, SiteAt ctx h file i b → b + 4 ≤ s.vaddr + offset ∨ s.vaddr + offset + 4 ≤ b :=
      fun i hi b hb => hr.apart i k b _ hi hk hb hsite
    have hword : s.vaddr + offset + 4 ≤ h.imageSize := by omega
    have hold := hs.old hword happart
    rw [Buf.get_ok (by rw [hs.size.1]; exact hword), Buf.get_ok (by rw [hs.size.2]; exact hword), hold]
    have hput : ∀ v v', v' + base ≡ v + base' [MOD 2 ^ 32] → Both (ShiftedBy ctx h file base base' (k + 1))
        (image.put (s.vaddr + offset) 4 v) (image'.put (s.vaddr + offset) 4 v') := by
      intro v v' hv
      unfold Buf.put
      rw [if_pos (by rw [hs.size.1]; exact hword), if_pos (by rw [hs.size.2]; exact hword)]
      exact both_ok (hs.put hsite (fun b hb => siteAt_unique hsite hb) happart hv)
    show Both _ (relocValue c h base s type info _ >>= _) (relocValue c' h base' s type info _ >>= _)
    unfold relocValue
    match type with
    | 0 =>
      refine hput _ _ ?_
      rw [Nat.add_right_comm]
    | 1 =>
      refine hput _ _ ?_
      have hshift : ∀ x y : Nat, x + y + 2 ^ 32 - s.vaddr = x + (2 ^ 32 - s.vaddr) + y := fun x y => by omega
      rw [hshift, hshift, Nat.add_right_comm]
    | 2 => exact absurd htype (hr.noImport k hk)
    | n + 3 => exact both_error _ _

theorem relocate_both (hr : Relocatable ctx h file) (hc : c.sections = ctx.sections) (hc' : c'.sections = ctx.sections)
    (hs : ShiftedBy ctx h file base base' 0 image image') :
    Both (ShiftedBy ctx h file base base' h.relocCount)
      ((List.range h.relocCount).foldlM (relocate2One c h file base) image)
      ((List.range h.relocCount).foldlM (relocate2One c' h file base') image') :=
  both_range (fun _ hk _ _ hab => relocate2One_both hr hc hc' hk hab) hs

/-- The context that `exec2_map` leaves behind. -/
def Context2.mapped (ctx : Context2) (base : Nat) (image : Buf) : Context2 :=
  { ctx with imageBase := some (base, image), stackBase := true }

theorem exec2Map_both (hr : Relocatable ctx h file) (base base' : Nat) (bytes bytes' : Mem) (stack : Alloc) :
    Both (fun c c' => ∃ image image', c = ctx.mapped base image ∧ c' = ctx.mapped base' image' ∧
        ShiftedBy ctx h file base base' 0 image image')
      (exec2Map (some (base, bytes)) stack ctx) (exec2Map (some (base', bytes')) stack ctx) := by
  unfold exec2Map
  rw [hr.loaded]
  refine (both_foldlM (l := ctx.sections) (fun s _ image image' hs => mapSection_both (s := s) hs)
    (shiftedBy_cleared ctx h file base base' bytes bytes')).bind (fun image image' hs => ?_)
  cases stack with
  | none => exact both_error _ _
  | some _ => exact both_ok ⟨image, image', rfl, rfl, hs⟩

def ImagesShifted (ctx : Context2) (h : Amx2Header) (file : Buf) (base base' : Nat) (c c' : Context2) : Prop :=
  ∃ image image', c.imageBase = some (base, image) ∧ c'.imageBase = some (base', image') ∧
    ShiftedBy ctx h file base base' h.relocCount image image'

end

def textSection : Amx2Section := ⟨[0], 7, 160, 16, 64, 16, 0⟩

def twoRelocHeader : Amx2Header := { pageHeader 1 with relocOffset := 128, relocCount := 2 }

/-- A file whose table has an ABS32 and a REL32 entry, for the first and the third word of the section. -/
def twoRelocFile : Buf :=
  ⟨176, ofList (List.replicate 128 0 ++ bytesOf 4 0 ++ bytesOf 2 0 ++ bytesOf 2 0 ++ bytesOf 8 0 ++
    bytesOf 4 8 ++ bytesOf 2 0 ++ bytesOf 2 1 ++ bytesOf 8 0 ++ List.replicate 16 1)⟩

def twoRelocContext : Context2 := ⟨some twoRelocHeader, [textSection], some twoRelocFile, none, false, none⟩

theorem twoReloc_entries : (twoRelocFile.get (128 + 4) 2 = .ok 0 ∧ twoRelocFile.get 128 4 = .ok 0 ∧
    twoRelocFile.get (128 + 6) 2 = .ok 0) ∧ twoRelocFile.get (144 + 4) 2 = .ok 0 ∧ twoRelocFile.get 144 4 = .ok 8 ∧
      twoRelocFile.get (144 + 6) 2 = .ok 1 := by decide

theorem twoReloc_relocatable : Relocatable twoRelocContext twoRelocHeader twoRelocFile := by
  obtain ⟨⟨hidx, hoff, htype⟩, hidx', hoff', htype'⟩ := twoReloc_entries
  have hfirst : SiteAt twoRelocContext twoRelocHeader twoRelocFile 0 64 :=
    ⟨0, 0, textSection, hidx, by decide, rfl, hoff, by decide, rfl⟩
  have hsecond : SiteAt twoRelocContext twoRelocHeader twoRelocFile 1 72 :=
    ⟨0, 8, textSection, hidx', by decide, rfl, hoff', by decide, rfl⟩
  refine ⟨rfl, by decide, by decide, (fun s hs => ?_), (fun i j a b hij hj ha hb => ?_), fun i hi => ?_⟩
  · rw [List.mem_singleton.1 hs]
    decide
  · have hj : j < 2 := hj
    obtain ⟨rfl, rfl⟩ : i = 0 ∧ j = 1 := by omega
    rw [siteAt_unique hfirst ha, siteAt_unique hsecond hb]
    decide
  · have hi : i < 2 := hi
    rcases Nat.lt_succ_iff_lt_or_eq.1 hi with hi | rfl
    · obtain rfl : i = 0 := by omega
      exact fun hc => by
        rw [show twoRelocHeader.relocOffset + 0 * amx2RelocSize + 6 = 128 + 6 from rfl, htype] at hc
        cases hc
    · exact fun hc => by
        rw [show twoRelocHeader.relocOffset + 1 * amx2RelocSize + 6 = 144 + 6 from rfl, htype'] at hc
        cases hc

end Exec
end AmitX
