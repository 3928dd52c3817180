import AmitX.Mm.PagingBoot
/-!
# PagingRun — the page tables over any sequence of calls

The page map that the calls describe is read off their results alone (`lastMapped`); `virt_to_phys` returns what it says,
in every state after `paging_init`.
-/
namespace AmitX
namespace Mm
namespace X64

open Run

inductive PagingCall
  | map (phys virt flags : Nat)
  | unmap (virt : Nat)
  deriving DecidableEq

/-- A call and what it returned: none is a page fault, false is `-1`. -/
structure PagingEvent where
  call : PagingCall
  result : Option Bool
  deriving DecidableEq

def PagingCall.step (alloc : Nat → Option Nat) (s : Tables) (c : PagingCall) : PagingEvent × Tables :=
  match c with
  | .map phys virt flags =>
    match mapPage alloc phys virt flags s with
    | none => (⟨c, none⟩, s)
    | some (ok, s') => (⟨c, some ok⟩, s')
  | .unmap virt =>
    match unmapPage virt s with
    | none => (⟨c, none⟩, s)
    | some s' => (⟨c, some true⟩, s')

/-- Addresses are canonical and outside the recursive slot, and a physical address has 52 bits. -/
def PagingCall.Legal : PagingCall → Prop
  | .map phys virt _ => Ok virt ∧ phys < 2 ^ 52
  | .unmap virt => Ok virt

def PagingEvent.apply (page : Nat) (m : Option Nat) (e : PagingEvent) : Option Nat :=
  match e.call with
  | .map phys virt _ => if e.result = some true ∧ virt / pageSize = page then some phys else m
  | .unmap virt => if virt / pageSize = page then none else m

/-- The mapping of a page after some events: the last successful `map_page` of the page that no `unmap_page` of it
followed, and `M page` when there was neither. -/
def lastMapped (M : Nat → Option Nat) (es : List PagingEvent) (page : Nat) : Option Nat :=
  es.foldl (PagingEvent.apply page) (M page)

/-- What `virt_to_phys` returns: the mapping of the page, else the large page of the boot, else `PHYS_ADDR_INVALID`. -/
def expected (H M : Nat → Option Nat) (es : List PagingEvent) (v : Nat) : Nat :=
  match lastMapped M es (v / pageSize) with
  | some phys => phys ||| v % pageSize
  | none =>
    match H (v / huge2M) with
    | some b => b ||| v % huge2M
    | none => physAddrInvalid

def pagingAfter (alloc : Nat → Option Nat) (s : Tables) (calls : List PagingCall) : List PagingEvent × Tables :=
  run (PagingCall.step alloc) s calls

/-- **The tables refine the page map**: after any of the calls `virt_to_phys` returns what the map says, no call faults,
and a `map_page` that fails changes no translation. -/
structure RefinesMap (alloc : Nat → Option Nat) (H M : Nat → Option Nat) (s : Tables) (calls : List PagingCall) :
    Prop where
  lookup : ∀ before after, calls = before ++ after → ∀ v, Ok v →
    virtToPhys v (pagingAfter alloc s before).2 = some (expected H M (pagingAfter alloc s before).1 v)
  answers : ∀ e ∈ (pagingAfter alloc s calls).1, e.result ≠ none
  failed : ∀ before c after, calls = before ++ c :: after →
    (c.step alloc (pagingAfter alloc s before).2).1.result = some false → ∀ v, Ok v →
    virtToPhys v (c.step alloc (pagingAfter alloc s before).2).2 = virtToPhys v (pagingAfter alloc s before).2

section

variable {alloc : Nat → Option Nat} {s : Tables} {H M : Nat → Option Nat} {es : List PagingEvent} {c : PagingCall}

theorem lastMapped_concat (M : Nat → Option Nat) (es : List PagingEvent) (e : PagingEvent) (page : Nat) :
    lastMapped M (es ++ [e]) page = e.apply page (lastMapped M es page) := List.foldl_concat ..

/-- The invariant of a run: the tables show the page map of the events. -/
structure Refined (alloc : Nat → Option Nat) (H M : Nat → Option Nat) (es : List PagingEvent) (s : Tables) : Prop where
  sound : Sound alloc s
  recursive : Recursive s
  shows_ : Shows s H (lastMapped M es)
  small : ∀ v, lastMapped M es (v / pageSize) ≠ none → H (v / huge2M) = none
  answers : ∀ e ∈ es, e.result ≠ none

theorem Refined.virtToPhys (h : Refined alloc H M es s) {v : Nat} (hv : Ok v) :
    X64.virtToPhys v s = some (expected H M es v) := by
  rw [virtToPhys_spec h.sound h.recursive hv h.shows_]
  unfold X64.lookup expected
  have hsmall := h.small v
  cases hM : lastMapped M es (v / pageSize) with
  | none => rfl
  | some p => rw [hsmall (by rw [hM]; exact fun h' => by cases h')]

theorem huge_of_page {v u : Nat} (h : v / pageSize = u / pageSize) : v / huge2M = u / huge2M := by
  unfold pageSize at h
  unfold huge2M
  omega

theorem Refined.step (hf : Fresh alloc) (h : Refined alloc H M es s) (hc : c.Legal) :
    Refined alloc H M (es ++ [(c.step alloc s).1]) (c.step alloc s).2 ∧
      ((c.step alloc s).1.result = some false → Shows (c.step alloc s).2 H (lastMapped M es)) := by
  cases c with
  | map phys virt flags =>
    obtain ⟨hv, hlt⟩ := hc
    obtain ⟨b, s', hstep, hs', hr', hfail, hok⟩ := mapPage_spec hf h.sound h.recursive hv h.shows_ phys flags
    have hevent : (PagingCall.map phys virt flags).step alloc s = (⟨.map phys virt flags, some b⟩, s') := by
      unfold PagingCall.step
      dsimp only
      rw [hstep]
    rw [hevent]
    have hanswers : ∀ e ∈ es ++ [⟨.map phys virt flags, some b⟩], e.result ≠ none := by
      intro e he
      rcases List.mem_append.1 he with he | he
      · exact h.answers e he
      · rw [List.mem_singleton.1 he]
        exact fun h' => by cases h'
    cases b with
    | false =>
      have hsame : lastMapped M (es ++ [⟨.map phys virt flags, some false⟩]) = lastMapped M es := by
        funext page
        rw [lastMapped_concat]
        unfold PagingEvent.apply
        dsimp only
        rw [if_neg (by simp)]
      refine ⟨⟨hs', hr', ?_, ?_, hanswers⟩, fun _ => hfail rfl⟩
      · rw [hsame]
        exact hfail rfl
      · rw [hsame]
        exact h.small
    | true =>
      obtain ⟨halign, hnone, hshow⟩ := hok rfl
      have hupdate : lastMapped M (es ++ [⟨.map phys virt flags, some true⟩]) =
          Function.update (lastMapped M es) (virt / pageSize) (some phys) := by
        funext page
        rw [lastMapped_concat, Function.update_apply]
        unfold PagingEvent.apply
        dsimp only
        by_cases hp : page = virt / pageSize
        · rw [if_pos hp, if_pos ⟨rfl, hp.symm⟩]
        · rw [if_neg hp, if_neg (fun h' => hp h'.2.symm)]
      rw [pteAddr_of_aligned halign hlt] at hshow
      refine ⟨⟨hs', hr', ?_, fun v hne => ?_, hanswers⟩, fun h' => by cases h'⟩
      · rw [hupdate]
        exact hshow
      · rw [hupdate] at hne
        by_cases hp : v / pageSize = virt / pageSize
        · rw [huge_of_page hp]
          exact hnone
        · rw [Function.update_of_ne hp] at hne
          exact h.small v hne
  | unmap virt =>
    obtain ⟨s', hstep, hs', hr', hshow⟩ := unmapPage_spec h.sound h.recursive hc h.shows_
    have hevent : (PagingCall.unmap virt).step alloc s = (⟨.unmap virt, some true⟩, s') := by
      unfold PagingCall.step
      dsimp only
      rw [hstep]
    have hupdate : lastMapped M (es ++ [⟨.unmap virt, some true⟩]) =
        Function.update (lastMapped M es) (virt / pageSize) none := by
      funext page
      rw [lastMapped_concat, Function.update_apply]
      unfold PagingEvent.apply
      dsimp only
      by_cases hp : page = virt / pageSize
      · rw [if_pos hp, if_pos hp.symm]
      · rw [if_neg hp, if_neg (fun h' => hp h'.symm)]
    rw [hevent]
    refine ⟨⟨hs', hr', ?_, fun v hne => ?_, fun e he => ?_⟩, fun h' => by cases h'⟩
    · rw [hupdate]
      exact hshow
    · rw [hupdate] at hne
      by_cases hp : v / pageSize = virt / pageSize
      · rw [hp, Function.update_self] at hne
        exact absurd rfl hne
      · rw [Function.update_of_ne hp] at hne
        exact h.small v hne
    · rcases List.mem_append.1 he with he | he
      · exact h.answers e he
      · rw [List.mem_singleton.1 he]
        exact fun h' => by cases h'

theorem Refined.run (hf : Fresh alloc) (h : Refined alloc H M [] s) {calls : List PagingCall}
    (hlegal : ∀ c ∈ calls, c.Legal) :
    Refined alloc H M (pagingAfter alloc s calls).1 (pagingAfter alloc s calls).2 :=
  run_keeps (I := Refined alloc H M)
    (fun es s c hs hc => show Refined alloc H M (es ++ [(c.step alloc s).1]) (c.step alloc s).2 from (hs.step hf hc).1)
    h calls (allowed_of_forall hlegal (fun _ _ _ hc => hc) s)

/-- **The page tables refine the page map**: from `paging_init` on, whatever frames `pmm_alloc_frame` returns and
wherever it fails.  The map begins with the pages of the kernel image. -/
theorem paging_refines (hf : Fresh alloc) {ram kernelEnd : Nat} {mem : Ram} (hkernel : kernelEnd ≤ 2 ^ 31)
    (hinit : pagingInit alloc ram kernelEnd mem = some s) {calls : List PagingCall} (hlegal : ∀ c ∈ calls, c.Legal) :
    RefinesMap alloc (bootHuge ram) (bootPages kernelEnd) s calls := by
  obtain ⟨hs, hr, hshow, hsmall⟩ := pagingInit_spec hf hkernel hinit
  have h0 : Refined alloc (bootHuge ram) (bootPages kernelEnd) [] s := ⟨hs, hr, hshow, hsmall, fun e he => by cases he⟩
  refine ⟨fun before after he v hv => ?_, (h0.run hf hlegal).answers, fun before c after he hfalse v hv => ?_⟩
  · exact (h0.run hf (fun c hc => hlegal c (by rw [he]; simp [hc]))).virtToPhys hv
  · have hbefore : ∀ c ∈ before, c.Legal := fun c hc => hlegal c (by rw [he]; simp [hc])
    have h := h0.run hf hbefore
    have hc : c.Legal := hlegal c (by rw [he]; simp)
    obtain ⟨h', hsame⟩ := h.step hf hc
    rw [virtToPhys_spec h'.sound h'.recursive hv (hsame hfalse), virtToPhys_spec h.sound h.recursive hv h.shows_]

end

/-! ## The kernel image -/

def sampleAlloc (n : Nat) : Option Nat := if n < 100 then some ((n + 768) * pageSize) else none

theorem sampleAlloc_fresh : Fresh sampleAlloc := by
  constructor
  · intro n f h
    unfold sampleAlloc at h
    split at h
    case isTrue hn =>
      injection h with h
      subst h
      refine ⟨Nat.dvd_mul_left _ _, ?_⟩
      unfold pageSize
      omega
    case isFalse => cases h
  · intro n m f hn hm
    unfold sampleAlloc at hn hm
    split at hn
    case isTrue =>
      split at hm
      case isTrue =>
        injection hn with hn
        injection hm with hm
        unfold pageSize at hn hm
        omega
      case isFalse => cases hm
    case isFalse => cases hn

theorem sampleInit : (pagingInit sampleAlloc 0x800000 0x201000 fun _ _ => 0).isSome = true := by decide

/-- A page is mapped, then another, one is unmapped, and a page under a large page cannot be mapped. -/
def sampleCalls : List PagingCall :=
  [.map 0x5000 0xFFFF910000000000 3, .map 0x6000 0xFFFF910000001000 3, .unmap 0xFFFF910000000000, .map 0x7000 0x1000 3]

theorem paging_refines_sample : ∃ s, pagingInit sampleAlloc 0x800000 0x201000 (fun _ _ => 0) = some s ∧
    RefinesMap sampleAlloc (bootHuge 0x800000) (bootPages 0x201000) s sampleCalls := by
  have hinit : pagingInit sampleAlloc 0x800000 0x201000 (fun _ _ => 0) = some _ := (Option.some_get sampleInit).symm
  refine ⟨_, hinit, paging_refines sampleAlloc_fresh (by decide) hinit (fun c hc => ?_)⟩
  simp only [sampleCalls, List.mem_cons, List.not_mem_nil, or_false] at hc
  rcases hc with rfl | rfl | rfl | rfl
  · exact ⟨⟨by unfold Canonical; decide, by decide⟩, by decide⟩
  · exact ⟨⟨by unfold Canonical; decide, by decide⟩, by decide⟩
  · exact ⟨by unfold Canonical; decide, by decide⟩
  · exact ⟨⟨by unfold Canonical; decide, by decide⟩, by decide⟩

/-- **The map does not begin empty**: a page of the kernel image is translated before any call. -/
theorem not_paging_refines_empty : ¬∀ (alloc : Nat → Option Nat) (ram kernelEnd : Nat) (mem : Ram) (s : Tables),
    Fresh alloc → kernelEnd ≤ 2 ^ 31 → pagingInit alloc ram kernelEnd mem = some s → ∀ calls : List PagingCall,
      (∀ c ∈ calls, c.Legal) → RefinesMap alloc (bootHuge ram) (fun _ => none) s calls := by
  intro h
  have hinit : pagingInit sampleAlloc 0x800000 0x201000 (fun _ _ => 0) = some _ := (Option.some_get sampleInit).symm
  have hmap := h _ _ _ _ _ sampleAlloc_fresh (by decide) hinit [] (fun c hc => by cases hc)
  have hv : Ok 0xFFFFFFFF80200000 := ⟨by unfold Canonical; decide, by decide⟩
  have hlook := hmap.lookup [] [] rfl 0xFFFFFFFF80200000 hv
  exact absurd hlook (by decide)

end X64
end Mm
end AmitX
