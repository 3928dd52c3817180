import AmitX.Lib.Bits
import AmitX.Lib.Run
import AmitX.Mm.Pmm
/-!
# Vmm — the window of mappings of physical memory (`vmm.c`)

A call reserves a run of pages of the window, bit by bit, and maps them one after another; a page that cannot be mapped
ends the call, which takes back what it mapped and clears the bits up to the page that failed.  Which pages cannot be
mapped is left open.  The spinlock is left out: the calls come one after another.
-/
namespace AmitX
namespace Mm

open Run

def pageSize : Nat := 4096

def Arch.windowBase : Arch → Nat
  | .x86 => 0xE0000000
  | .x64 => 0xFFFF900000000000

def Arch.windowPages : Arch → Nat
  | .x86 => 0x01C00000 / pageSize
  | .x64 => 0x02000000 / pageSize

/-- A value of `ULONG`. -/
def ulong (n : Nat) : Nat := n % 2 ^ 32

structure PageMap where
  phys : Nat
  flags : Nat
  deriving DecidableEq

structure Mapping where
  virt : Nat
  length : Nat
  deriving DecidableEq

structure Window where
  bitmap : Nat → Bool
  /-- The page tables for the pages of the window. -/
  pages : Nat → Option PageMap
  /-- The mappings that were returned and not taken back. -/
  live : List Mapping

/-- The window after `vmm_init`. -/
def vmmInit : Window := ⟨fun _ => false, fun _ => none, []⟩

def bitSet (i : Nat) (s : Window) : Window := { s with bitmap := Function.update s.bitmap i true }

def bitClear (i : Nat) (s : Window) : Window := { s with bitmap := Function.update s.bitmap i false }

def findFreeRun (a : Arch) (count : Nat) (s : Window) : Option Nat :=
  Bits.firstRun s.bitmap count a.windowPages 0 0 0

/-- `pages` of a call: the number of pages of the range, as the words of the build compute it. -/
def pageCount (a : Arch) (phys length : Nat) : Nat :=
  let physStart := phys / pageSize * pageSize
  let physEnd := a.word (phys + length + pageSize - 1) / pageSize * pageSize
  ulong (a.word (physEnd + 2 ^ a.bits - physStart) / pageSize)

/-- Run `f` on `start`, …, `start + n - 1`. -/
def forPages (f : Nat → Window → Window) (start : Nat) : Nat → Window → Window
  | 0, s => s
  | n + 1, s => f (start + n) (forPages f start n s)

/-- `map_page` of a page of the window that can be mapped. -/
def mapPage (page phys flags : Nat) (s : Window) : Window :=
  { s with pages := Function.update s.pages page (some ⟨phys, flags⟩) }

def unmapPage (page : Nat) (s : Window) : Window := { s with pages := Function.update s.pages page none }

/-- The loop over the pages of a call, from page `i` on with `n` to go: the page that could not be mapped, if any. -/
def mapPages (fails : Nat → Bool) (physStart flags start : Nat) : Nat → Nat → Window → Option Nat × Window
  | _, 0, s => (none, s)
  | i, n + 1, s =>
    if fails i then (some i, s)
    else mapPages fails physStart flags start (i + 1) n (mapPage (start + i) (physStart + i * pageSize) flags s)

/-- Take back the `i` pages that were mapped, and the bits up to the page that failed. -/
def undoPages (start i : Nat) (s : Window) : Window :=
  bitClear (start + i) (forPages (fun p s => bitClear p (unmapPage p s)) start i s)

/-- The pointer that is returned, and NULL as `none`; `fails` says which pages of the call `map_page` cannot map. -/
def vmmMapPhysical (a : Arch) (phys length flags : Nat) (fails : Nat → Bool) (s : Window) : Option Nat × Window :=
  if length = 0 then (none, s)
  else
    let physStart := phys / pageSize * pageSize
    let pages := pageCount a phys length
    match findFreeRun a pages s with
    | none => (none, s)
    | some start =>
      match mapPages fails physStart flags start 0 pages (forPages bitSet start pages s) with
      | (some i, s') => (none, undoPages start i s')
      | (none, s') =>
        let virt := a.windowBase + start * pageSize + (phys - physStart)
        (some virt, { s' with live := ⟨virt, length⟩ :: s'.live })

/-- The pages of the range, from `(v - VMM_WINDOW_BASE) / PAGE_SIZE` on, are unmapped and their bits cleared. -/
def vmmUnmapPhysical (a : Arch) (virt length : Nat) (s : Window) : Window :=
  if virt = 0 ∨ length = 0 then s
  else
    let v := virt / pageSize * pageSize
    let vEnd := a.word (virt + length + pageSize - 1) / pageSize * pageSize
    if v < a.windowBase ∨ a.windowBase + a.windowPages * pageSize < vEnd then s
    else
      let start := ulong ((v - a.windowBase) / pageSize)
      let pages := ulong (a.word (vEnd + 2 ^ a.bits - v) / pageSize)
      let s := forPages bitClear start pages (forPages unmapPage start pages s)
      { s with live := s.live.erase ⟨virt, length⟩ }

/-! ## Runs -/

inductive VmmCall
  | map (phys length flags : Nat) (fails : Nat → Bool)
  | unmap (virt length : Nat)

def VmmCall.run (a : Arch) (s : Window) : VmmCall → Option Nat × Window
  | .map phys length flags fails => vmmMapPhysical a phys length flags fails s
  | .unmap virt length => (none, vmmUnmapPhysical a virt length s)

/-- The arguments are words, and a call of `vmm_unmap_physical` names a live mapping. -/
def VmmCall.Legal (a : Arch) (s : Window) : VmmCall → Prop
  | .map phys length _ _ => phys < 2 ^ a.bits ∧ length < 2 ^ a.bits
  | .unmap virt length => ⟨virt, length⟩ ∈ s.live

/-- Page `p` of the window has a byte of the mapping. -/
def Mapping.Covers (a : Arch) (m : Mapping) (p : Nat) : Prop :=
  (m.virt - a.windowBase) / pageSize ≤ p ∧ p ≤ (m.virt - a.windowBase + m.length - 1) / pageSize

/-- The set bits are the pages of the live mappings, which have no page in common. -/
structure Accounted (a : Arch) (s : Window) : Prop where
  bits : ∀ p, s.bitmap p = true ↔ ∃ m ∈ s.live, m.Covers a p
  disjoint : s.live.Pairwise (fun m m' => ∀ p, m.Covers a p → ¬m'.Covers a p)

/-- A call of `vmm_map_physical` that returned NULL has left the bits and the pages as they were. -/
def VmmCall.Restores (a : Arch) (s : Window) (c : VmmCall) : Prop :=
  match c with
  | .map _ _ _ _ => (c.run a s).1 = none → (c.run a s).2.bitmap = s.bitmap ∧ (c.run a s).2.pages = s.pages
  | .unmap _ _ => True

def vmmAfter (a : Arch) (calls : List VmmCall) : Window := (run (VmmCall.run a) vmmInit calls).2

/-- **The accounting of the window**: exact in every state of the run, and restored by each call that fails. -/
structure WindowExact (a : Arch) (calls : List VmmCall) : Prop where
  accounted : ∀ before after, calls = before ++ after → Accounted a (vmmAfter a before)
  restores : ∀ before c after, calls = before ++ c :: after → c.Restores a (vmmAfter a before)

def touchedPages (phys length : Nat) : Nat := (phys % pageSize + length + pageSize - 1) / pageSize

/-- No page of the call but its last one fails, and either that one fails or the count of pages is right. -/
def VmmCall.Clean (a : Arch) (s : Window) : VmmCall → Prop
  | .map phys length _ fails =>
    length = 0 ∨ findFreeRun a (pageCount a phys length) s = none ∨
      ((∀ i, i + 1 < pageCount a phys length → fails i = false) ∧
        (pageCount a phys length = touchedPages phys length ∨
          ∃ i, pageCount a phys length = i + 1 ∧ fails i = true))
  | .unmap _ _ => True

/-! ## The loops -/

/-- The values of `b` on `start`, …, `start + n - 1` replaced by `x`. -/
def setRange {α : Type} (b : Nat → α) (start n : Nat) (x : α) (p : Nat) : α :=
  if start ≤ p ∧ p < start + n then x else b p

section

variable {α : Type}

theorem setRange_zero (b : Nat → α) (start : Nat) (x : α) : setRange b start 0 x = b := by
  funext p
  unfold setRange
  rw [if_neg (by omega)]

theorem setRange_succ (b : Nat → α) (start n : Nat) (x : α) :
    setRange b start (n + 1) x = Function.update (setRange b start n x) (start + n) x := by
  funext p
  unfold setRange
  by_cases hp : p = start + n
  · rw [hp, Function.update_self, if_pos (by omega)]
  · rw [Function.update_of_ne hp]
    by_cases h : start ≤ p ∧ p < start + n
    · rw [if_pos h, if_pos (by omega)]
    · rw [if_neg h, if_neg (by omega)]

theorem setRange_of_mem {b : Nat → α} {start n p : Nat} {x : α} (h : start ≤ p) (h' : p < start + n) :
    setRange b start n x p = x := if_pos ⟨h, h'⟩

theorem setRange_of_not_mem {b : Nat → α} {start n p : Nat} {x : α} (h : ¬(start ≤ p ∧ p < start + n)) :
    setRange b start n x p = b p := if_neg h

end

theorem forPages_bitSet (start : Nat) (s : Window) : ∀ n,
    forPages bitSet start n s = { s with bitmap := setRange s.bitmap start n true }
  | 0 => by rw [setRange_zero]; rfl
  | n + 1 => by rw [forPages, forPages_bitSet start s n, bitSet, setRange_succ]

theorem forPages_bitClear (start : Nat) (s : Window) : ∀ n,
    forPages bitClear start n s = { s with bitmap := setRange s.bitmap start n false }
  | 0 => by rw [setRange_zero]; rfl
  | n + 1 => by rw [forPages, forPages_bitClear start s n, bitClear, setRange_succ]

theorem forPages_unmapPage (start : Nat) (s : Window) : ∀ n,
    forPages unmapPage start n s = { s with pages := setRange s.pages start n none }
  | 0 => by rw [setRange_zero]; rfl
  | n + 1 => by rw [forPages, forPages_unmapPage start s n, unmapPage, setRange_succ]

theorem undoPages_eq (start : Nat) (s : Window) (i : Nat) : undoPages start i s =
    { s with bitmap := setRange s.bitmap start (i + 1) false, pages := setRange s.pages start i none } := by
  have h : ∀ n, forPages (fun p s => bitClear p (unmapPage p s)) start n s =
      { s with bitmap := setRange s.bitmap start n false, pages := setRange s.pages start n none } := by
    intro n
    induction n with
    | zero => rw [setRange_zero, setRange_zero]; rfl
    | succ n ih => rw [forPages, ih, bitClear, unmapPage, setRange_succ, setRange_succ]
  rw [undoPages, h, bitClear, setRange_succ]

/-- How the loop over the pages of a call ended: all are mapped, or page `k` failed and those before it are mapped. -/
def MapLoop (fails : Nat → Bool) (start i n : Nat) (s : Window) (r : Option Nat × Window) : Prop :=
  r.2.bitmap = s.bitmap ∧ r.2.live = s.live ∧
    match r.1 with
    | none => (∀ j, i ≤ j → j < i + n → fails j = false) ∧
        ∀ p, ¬(start + i ≤ p ∧ p < start + (i + n)) → r.2.pages p = s.pages p
    | some k => (i ≤ k ∧ k < i + n) ∧ fails k = true ∧ (∀ j, i ≤ j → j < k → fails j = false) ∧
        ∀ p, ¬(start + i ≤ p ∧ p < start + k) → r.2.pages p = s.pages p

theorem mapPages_spec (fails : Nat → Bool) (physStart flags start : Nat) : ∀ (n i : Nat) (s : Window),
    MapLoop fails start i n s (mapPages fails physStart flags start i n s)
  | 0, i, s => ⟨rfl, rfl, fun _ _ _ => by omega, fun _ _ => rfl⟩
  | n + 1, i, s => by
    rw [mapPages]
    split
    · rename_i hf
      exact ⟨rfl, rfl, ⟨by omega, by omega⟩, hf, fun _ _ _ => by omega, fun _ _ => rfl⟩
    · rename_i hf
      have ih := mapPages_spec fails physStart flags start n (i + 1)
        (mapPage (start + i) (physStart + i * pageSize) flags s)
      obtain ⟨hb, hl, h⟩ := ih
      have hpage : ∀ p, p ≠ start + i → (mapPage (start + i) (physStart + i * pageSize) flags s).pages p = s.pages p :=
        fun p hp => Function.update_of_ne hp _ _
      refine ⟨hb, hl, ?_⟩
      cases hr : (mapPages fails physStart flags start (i + 1) n
          (mapPage (start + i) (physStart + i * pageSize) flags s)).1 with
      | none =>
        rw [hr] at h
        obtain ⟨hall, hpages⟩ := h
        refine ⟨fun j hj hj' => ?_, fun p hp => ?_⟩
        · by_cases hji : j = i
          · rw [hji, Bool.eq_false_iff.2 hf]
          · exact hall j (by omega) (by omega)
        · rw [hpages p (by omega), hpage p (by omega)]
      | some k =>
        rw [hr] at h
        obtain ⟨hk, hfk, hbefore, hpages⟩ := h
        refine ⟨by omega, hfk, fun j hj hj' => ?_, fun p hp => ?_⟩
        · by_cases hji : j = i
          · rw [hji, Bool.eq_false_iff.2 hf]
          · exact hbefore j (by omega) hj'
        rw [hpages p (by omega), hpage p (by omega)]

/-! ## The invariant -/

theorem pageSize_pos : 0 < pageSize := by decide

theorem Arch.windowBase_mod (a : Arch) : a.windowBase % pageSize = 0 := by cases a <;> decide

theorem Arch.windowBase_pos (a : Arch) : 0 < a.windowBase := by cases a <;> decide

theorem Arch.window_lt (a : Arch) : a.windowBase + a.windowPages * pageSize + pageSize < 2 ^ a.bits := by
  cases a <;> decide

theorem Arch.windowPages_lt (a : Arch) : a.windowPages < 2 ^ 32 := by cases a <;> decide

structure WindowInv (a : Arch) (s : Window) : Prop where
  accounted : Accounted a s
  virt : ∀ m ∈ s.live, a.windowBase ≤ m.virt ∧ 0 < m.length
  below : ∀ p, s.bitmap p = true → p < a.windowPages
  mapped : ∀ p, s.bitmap p = false → s.pages p = none

theorem windowInv_init (a : Arch) : WindowInv a vmmInit where
  accounted := ⟨fun p => by simp [vmmInit], List.Pairwise.nil⟩
  virt m hm := by simp [vmmInit] at hm
  below p hp := by simp [vmmInit] at hp
  mapped _ _ := rfl

section

variable {a : Arch} {s : Window}

theorem covers_iff {start phys length p : Nat} (hlen : 0 < length) :
    (⟨a.windowBase + start * pageSize + (phys - phys / pageSize * pageSize), length⟩ : Mapping).Covers a p ↔
      start ≤ p ∧ p < start + touchedPages phys length := by
  unfold Mapping.Covers touchedPages pageSize
  simp only
  omega

theorem findFreeRun_sound {count start : Nat} (h : findFreeRun a count s = some start) :
    ∀ k < count, start + k < a.windowPages ∧ s.bitmap (start + k) = false := by
  intro k hk
  have := Bits.firstRun_sound (by omega) (by omega) h k hk
  exact ⟨by omega, this.2⟩

theorem vmmMapPhysical_cases (a : Arch) (phys length flags : Nat) (fails : Nat → Bool) (s : Window) :
    (vmmMapPhysical a phys length flags fails s = (none, s) ∧
      (length = 0 ∨ findFreeRun a (pageCount a phys length) s = none)) ∨
    ∃ start, 0 < length ∧ findFreeRun a (pageCount a phys length) s = some start ∧ ∃ pages' : Nat → Option PageMap,
      ((∃ k < pageCount a phys length, fails k = true ∧ (∀ j < k, fails j = false) ∧
        (∀ p, ¬(start ≤ p ∧ p < start + k) → pages' p = s.pages p) ∧
        vmmMapPhysical a phys length flags fails s = (none,
          { s with
            bitmap := setRange (setRange s.bitmap start (pageCount a phys length) true) start (k + 1) false
            pages := setRange pages' start k none })) ∨
      ((∀ k < pageCount a phys length, fails k = false) ∧
        (∀ p, ¬(start ≤ p ∧ p < start + pageCount a phys length) → pages' p = s.pages p) ∧
        ∃ virt, virt = a.windowBase + start * pageSize + (phys - phys / pageSize * pageSize) ∧
        vmmMapPhysical a phys length flags fails s = (some virt,
          { bitmap := setRange s.bitmap start (pageCount a phys length) true
            pages := pages'
            live := ⟨virt, length⟩ :: s.live }))) := by
  unfold vmmMapPhysical
  by_cases hlen : length = 0
  · rw [if_pos hlen]
    exact Or.inl ⟨rfl, Or.inl hlen⟩
  rw [if_neg hlen]
  dsimp only
  cases hrun : findFreeRun a (pageCount a phys length) s with
  | none => exact Or.inl ⟨rfl, Or.inr rfl⟩
  | some start =>
    right
    have hspec := mapPages_spec fails (phys / pageSize * pageSize) flags start (pageCount a phys length) 0
      (forPages bitSet start (pageCount a phys length) s)
    rcases hr : mapPages fails (phys / pageSize * pageSize) flags start 0 (pageCount a phys length)
      (forPages bitSet start (pageCount a phys length) s) with ⟨r, s'⟩
    rw [hr, forPages_bitSet] at hspec
    obtain ⟨hb, hl, h⟩ := hspec
    refine ⟨start, Nat.pos_of_ne_zero hlen, rfl, s'.pages, ?_⟩
    simp only [Nat.add_zero, Nat.zero_add] at hb hl h
    cases r with
    | some k =>
      obtain ⟨hk, hfk, hbefore, hpages⟩ := h
      refine Or.inl ⟨k, hk.2, hfk, fun j hj => hbefore j (Nat.zero_le j) hj, hpages, ?_⟩
      simp only [hr, undoPages_eq, hb, hl]
    | none =>
      obtain ⟨hall, hpages⟩ := h
      refine Or.inr ⟨fun k hk => hall k (Nat.zero_le k) hk, hpages, _, rfl, ?_⟩
      simp only [hr, hb, hl]

theorem Accounted.not_covered (h : Accounted a s) {p : Nat} (hp : s.bitmap p = false) : ∀ m ∈ s.live, ¬m.Covers a p :=
  fun m hm hc => by
    rw [(h.bits p).2 ⟨m, hm, hc⟩] at hp
    cases hp

theorem setRange_again {b : Nat → Bool} {start n : Nat} (h : ∀ k < n, b (start + k) = false) :
    setRange (setRange b start n true) start n false = b := by
  funext p
  by_cases hp : start ≤ p ∧ p < start + n
  · have := h (p - start) (by omega)
    rw [setRange_of_mem hp.1 hp.2, ← this, Nat.add_sub_cancel' hp.1]
  · rw [setRange_of_not_mem hp, setRange_of_not_mem hp]

theorem setRange_none {pages pages' : Nat → Option PageMap} {start k : Nat}
    (hsame : ∀ p, ¬(start ≤ p ∧ p < start + k) → pages' p = pages p)
    (hnone : ∀ p, start ≤ p → p < start + k → pages p = none) : setRange pages' start k none = pages := by
  funext p
  by_cases hp : start ≤ p ∧ p < start + k
  · rw [setRange_of_mem hp.1 hp.2, hnone p hp.1 hp.2]
  · rw [setRange_of_not_mem hp, hsame p hp]

theorem windowInv_map (h : WindowInv a s) {phys length flags : Nat} {fails : Nat → Bool}
    (hc : (VmmCall.map phys length flags fails).Clean a s) :
    WindowInv a (vmmMapPhysical a phys length flags fails s).2 ∧ (VmmCall.map phys length flags fails).Restores a s := by
  unfold VmmCall.Restores VmmCall.run
  dsimp only
  rcases vmmMapPhysical_cases a phys length flags fails s with ⟨he, -⟩ | ⟨start, hlen, hrun, pages', hcase⟩
  · rw [he]
    exact ⟨h, fun _ => ⟨rfl, rfl⟩⟩
  have hclear := findFreeRun_sound hrun
  rcases hc with hc | hc | ⟨hlast, hcount⟩
  · omega
  · rw [hrun] at hc
    cases hc
  rcases hcase with ⟨k, hk, hfk, -, hsame, he⟩ | ⟨hall, hsame, virt, hvirt, he⟩
  · have hkl : k + 1 = pageCount a phys length := by
      by_contra hne
      have := hlast k (by omega)
      rw [hfk] at this
      cases this
    rw [he, hkl, setRange_again (fun j hj => (hclear j hj).2), setRange_none hsame]
    · exact ⟨h, fun _ => ⟨rfl, rfl⟩⟩
    · intro p hp hp'
      have := (hclear (p - start) (by omega)).2
      rw [Nat.add_sub_cancel' hp] at this
      exact h.mapped p this
  · have hn : pageCount a phys length = touchedPages phys length := by
      refine hcount.resolve_right ?_
      rintro ⟨i, hi, hf⟩
      rw [hall i (by omega)] at hf
      cases hf
    have hcov : ∀ p, (⟨virt, length⟩ : Mapping).Covers a p ↔ start ≤ p ∧ p < start + pageCount a phys length := by
      intro p
      rw [hvirt, hn]
      exact covers_iff hlen
    have hfree : ∀ p, (⟨virt, length⟩ : Mapping).Covers a p → s.bitmap p = false := by
      intro p hp
      have hp' := (hcov p).1 hp
      have := (hclear (p - start) (by omega)).2
      rwa [Nat.add_sub_cancel' hp'.1] at this
    rw [he]
    refine ⟨⟨⟨fun p => ?_, ?_⟩, ?_, fun p hp => ?_, fun p hp => ?_⟩, fun hnone => by cases hnone⟩
    · by_cases hp : start ≤ p ∧ p < start + pageCount a phys length
      · exact ⟨fun _ => ⟨_, List.mem_cons_self, (hcov p).2 hp⟩, fun _ => setRange_of_mem hp.1 hp.2⟩
      · show setRange s.bitmap start (pageCount a phys length) true p = true ↔ _
        rw [setRange_of_not_mem hp, h.accounted.bits p]
        constructor
        · rintro ⟨m, hm, hmc⟩
          exact ⟨m, List.mem_cons_of_mem _ hm, hmc⟩
        · rintro ⟨m, hm, hmc⟩
          rcases List.mem_cons.1 hm with rfl | hm
          · exact absurd ((hcov p).1 hmc) hp
          · exact ⟨m, hm, hmc⟩
    · refine List.Pairwise.cons (fun m hm p hp => ?_) h.accounted.disjoint
      exact h.accounted.not_covered (hfree p hp) m hm
    · intro m hm
      rcases List.mem_cons.1 hm with rfl | hm
      · exact ⟨by rw [hvirt]; dsimp only; omega, hlen⟩
      · exact h.virt m hm
    · by_cases hin : start ≤ p ∧ p < start + pageCount a phys length
      · have := (hclear (p - start) (by omega)).1
        omega
      · have hp' : setRange s.bitmap start (pageCount a phys length) true p = true := hp
        rw [setRange_of_not_mem hin] at hp'
        exact h.below p hp'
    · have hin : ¬(start ≤ p ∧ p < start + pageCount a phys length) := by
        intro hin
        have hp' : setRange s.bitmap start (pageCount a phys length) true p = false := hp
        rw [setRange_of_mem hin.1 hin.2] at hp'
        cases hp'
      have hp' : setRange s.bitmap start (pageCount a phys length) true p = false := hp
      rw [setRange_of_not_mem hin] at hp'
      show pages' p = none
      rw [hsame p hin]
      exact h.mapped p hp'

theorem unmap_range (h : WindowInv a s) {m : Mapping} (hm : m ∈ s.live) : ∃ start n,
    (∀ p, m.Covers a p ↔ start ≤ p ∧ p < start + n) ∧
    vmmUnmapPhysical a m.virt m.length s =
      { bitmap := setRange s.bitmap start n false
        pages := setRange s.pages start n none
        live := s.live.erase m } := by
  obtain ⟨hbase, hlen⟩ := h.virt m hm
  have hmod := a.windowBase_mod
  have hpos := a.windowBase_pos
  have hwin := a.window_lt
  have hwp := a.windowPages_lt
  -- the last page is a page of the window
  have hlast : (m.virt - a.windowBase + m.length - 1) / pageSize < a.windowPages := by
    refine h.below _ ((h.accounted.bits _).2 ⟨m, hm, ?_, Nat.le_refl _⟩)
    exact Nat.div_le_div_right (by omega)
  have hend : m.virt + m.length + pageSize - 1 < 2 ^ a.bits := by
    unfold pageSize at *
    omega
  have hword : a.word (m.virt + m.length + pageSize - 1) = m.virt + m.length + pageSize - 1 := Nat.mod_eq_of_lt hend
  refine ⟨(m.virt - a.windowBase) / pageSize,
    (m.virt - a.windowBase + m.length - 1) / pageSize + 1 - (m.virt - a.windowBase) / pageSize, fun p => ?_, ?_⟩
  · have hle : (m.virt - a.windowBase) / pageSize ≤ (m.virt - a.windowBase + m.length - 1) / pageSize :=
      Nat.div_le_div_right (by omega)
    unfold Mapping.Covers
    omega
  have hv : m.virt / pageSize * pageSize - a.windowBase = (m.virt - a.windowBase) / pageSize * pageSize := by
    unfold pageSize at *
    omega
  have hstart : ulong ((m.virt / pageSize * pageSize - a.windowBase) / pageSize) = (m.virt - a.windowBase) / pageSize := by
    rw [hv, Nat.mul_div_cancel _ pageSize_pos]
    exact Nat.mod_eq_of_lt (by unfold pageSize at *; omega)
  have hcount : ulong (a.word ((m.virt + m.length + pageSize - 1) / pageSize * pageSize + 2 ^ a.bits -
      m.virt / pageSize * pageSize) / pageSize) =
      (m.virt - a.windowBase + m.length - 1) / pageSize + 1 - (m.virt - a.windowBase) / pageSize := by
    have hsub : a.word ((m.virt + m.length + pageSize - 1) / pageSize * pageSize + 2 ^ a.bits -
        m.virt / pageSize * pageSize) = (m.virt + m.length + pageSize - 1) / pageSize * pageSize -
        m.virt / pageSize * pageSize := by
      have hle : m.virt / pageSize * pageSize ≤ (m.virt + m.length + pageSize - 1) / pageSize * pageSize :=
        Nat.mul_le_mul_right _ (Nat.div_le_div_right (by omega))
      have hlt := Nat.div_mul_le_self (m.virt + m.length + pageSize - 1) pageSize
      unfold Arch.word
      rw [Nat.sub_add_comm hle, Nat.add_mod_right]
      exact Nat.mod_eq_of_lt (by omega)
    rw [hsub, ← Nat.mul_sub_right_distrib, Nat.mul_div_cancel _ pageSize_pos]
    unfold ulong pageSize at *
    omega
  unfold vmmUnmapPhysical
  rw [if_neg (not_or.2 ⟨Nat.pos_iff_ne_zero.1 (Nat.lt_of_lt_of_le hpos hbase), Nat.pos_iff_ne_zero.1 hlen⟩)]
  dsimp only
  rw [hword, if_neg (by unfold pageSize at *; omega), hstart, hcount, forPages_bitClear, forPages_unmapPage]

theorem windowInv_unmap (h : WindowInv a s) {m : Mapping} (hm : m ∈ s.live) :
    WindowInv a (vmmUnmapPhysical a m.virt m.length s) := by
  obtain ⟨start, n, hcov, he⟩ := unmap_range h hm
  have hsym : ∀ {x y : Mapping}, (∀ p, x.Covers a p → ¬y.Covers a p) → ∀ p, y.Covers a p → ¬x.Covers a p :=
    fun hxy p hy hx => hxy p hx hy
  have hperm := List.perm_cons_erase hm
  have hpair := (hperm.pairwise_iff hsym).1 h.accounted.disjoint
  obtain ⟨hother, hrest⟩ := List.pairwise_cons.1 hpair
  have hmem : ∀ m', m' ∈ s.live ↔ m' = m ∨ m' ∈ s.live.erase m := fun m' => by rw [hperm.mem_iff, List.mem_cons]
  rw [he]
  refine ⟨⟨fun p => ?_, hrest⟩, fun m' hm' => h.virt m' (List.mem_of_mem_erase hm'), fun p hp => ?_, fun p hp => ?_⟩
  · show setRange s.bitmap start n false p = true ↔ _
    by_cases hp : start ≤ p ∧ p < start + n
    · rw [setRange_of_mem hp.1 hp.2]
      refine ⟨fun hf => (by cases hf), ?_⟩
      rintro ⟨m', hm', hc⟩
      exact absurd hc (hother m' hm' p ((hcov p).2 hp))
    · rw [setRange_of_not_mem hp, h.accounted.bits p]
      constructor
      · rintro ⟨m', hm', hc⟩
        rcases (hmem m').1 hm' with rfl | hm'
        · exact absurd ((hcov p).1 hc) hp
        · exact ⟨m', hm', hc⟩
      · rintro ⟨m', hm', hc⟩
        exact ⟨m', (hmem m').2 (Or.inr hm'), hc⟩
  · have hp' : setRange s.bitmap start n false p = true := hp
    by_cases hin : start ≤ p ∧ p < start + n
    · rw [setRange_of_mem hin.1 hin.2] at hp'
      cases hp'
    · rw [setRange_of_not_mem hin] at hp'
      exact h.below p hp'
  · have hp' : setRange s.bitmap start n false p = false := hp
    show setRange s.pages start n none p = none
    by_cases hin : start ≤ p ∧ p < start + n
    · rw [setRange_of_mem hin.1 hin.2]
    · rw [setRange_of_not_mem hin] at hp' ⊢
      exact h.mapped p hp'

theorem windowInv_step (h : WindowInv a s) {c : VmmCall} (hl : c.Legal a s) (hc : c.Clean a s) :
    WindowInv a (c.run a s).2 ∧ c.Restores a s := by
  cases c with
  | map phys length flags fails => exact windowInv_map h hc
  | unmap virt length => exact ⟨windowInv_unmap (m := ⟨virt, length⟩) h hl, trivial⟩

theorem clean_of_accounted (h : WindowInv a s) {c : VmmCall} (hacc : Accounted a (c.run a s).2) (hr : c.Restores a s) :
    c.Clean a s := by
  cases c with
  | unmap virt length => exact trivial
  | map phys length flags fails =>
    have hres : (vmmMapPhysical a phys length flags fails s).1 = none →
        (vmmMapPhysical a phys length flags fails s).2.bitmap = s.bitmap ∧
          (vmmMapPhysical a phys length flags fails s).2.pages = s.pages := hr
    have hacc' : Accounted a (vmmMapPhysical a phys length flags fails s).2 := hacc
    rcases vmmMapPhysical_cases a phys length flags fails s with ⟨-, he | he⟩ | ⟨start, hlen, hrun, pages', hcase⟩
    · exact Or.inl he
    · exact Or.inr (Or.inl he)
    have hclear := findFreeRun_sound hrun
    rcases hcase with ⟨k, hk, hfk, hbefore, -, he⟩ | ⟨hall, -, virt, hvirt, he⟩
    · rw [he] at hres
      have hlast : k + 1 = pageCount a phys length := by
        by_contra hne
        -- the bit behind the page that failed is left set
        have hbit := congrFun (hres rfl).1 (start + (k + 1))
        have hb : setRange (setRange s.bitmap start (pageCount a phys length) true) start (k + 1) false
            (start + (k + 1)) = s.bitmap (start + (k + 1)) := hbit
        rw [setRange_of_not_mem (by omega), setRange_of_mem (by omega) (by omega), (hclear (k + 1) (by omega)).2] at hb
        cases hb
      exact Or.inr (Or.inr ⟨fun i hi => hbefore i (by omega), Or.inr ⟨k, hlast.symm, hfk⟩⟩)
    · rw [he] at hacc'
      have hcov : ∀ p, (⟨virt, length⟩ : Mapping).Covers a p ↔ start ≤ p ∧ p < start + touchedPages phys length := by
        intro p
        rw [hvirt]
        exact covers_iff hlen
      refine Or.inr (Or.inr ⟨fun i hi => hall i (by omega), Or.inl ?_⟩)
      have hbits := hacc'.bits
      have hnew := (List.pairwise_cons.1 hacc'.disjoint).1
      rcases Nat.lt_trichotomy (pageCount a phys length) (touchedPages phys length) with hlt | heq | hgt
      · -- the page behind the run is covered, so its bit was set, for a mapping that was there before
        exfalso
        have hc := (hcov (start + pageCount a phys length)).2 ⟨by omega, by omega⟩
        have hset : setRange s.bitmap start (pageCount a phys length) true (start + pageCount a phys length) = true :=
          (hbits _).2 ⟨_, List.mem_cons_self, hc⟩
        rw [setRange_of_not_mem (by omega)] at hset
        obtain ⟨m, hm, hmc⟩ := (h.accounted.bits _).1 hset
        exact hnew m hm _ hc hmc
      · exact heq
      · -- the last page of the run is not covered by any mapping
        exfalso
        have hset : setRange s.bitmap start (pageCount a phys length) true (start + touchedPages phys length) = true :=
          setRange_of_mem (by omega) (by omega)
        obtain ⟨m, hm, hmc⟩ := (hbits _).1 hset
        rcases List.mem_cons.1 hm with rfl | hm
        · have := (hcov _).1 hmc
          omega
        · exact h.accounted.not_covered (hclear (touchedPages phys length) hgt).2 m hm hmc

end

/-- **The window is exact in a run exactly when each call of it is clean.** -/
theorem window_exact_iff (a : Arch) (calls : List VmmCall)
    (hl : Allowed (VmmCall.run a) (fun _ => VmmCall.Legal a) vmmInit calls) :
    WindowExact a calls ↔ Allowed (VmmCall.run a) (fun _ => VmmCall.Clean a) vmmInit calls := by
  constructor
  · intro h
    -- the invariant holds as far as the calls are clean, and the next one is clean with it
    have hall : ∀ before after, calls = before ++ after →
        WindowInv a (vmmAfter a before) ∧ Allowed (VmmCall.run a) (fun _ => VmmCall.Clean a) vmmInit before := by
      intro before
      induction before using List.reverseRecOn with
      | nil => exact fun after _ => ⟨windowInv_init a, allowed_nil _⟩
      | append_singleton before c ih =>
        intro after he
        obtain ⟨hinv, hclean⟩ := ih (c :: after) (by simp [he])
        have hlegal : c.Legal a (vmmAfter a before) := hl before c after (by simp [he])
        have hacc : Accounted a (vmmAfter a (before ++ [c])) := h.accounted (before ++ [c]) after he
        unfold vmmAfter at hacc
        rw [run_concat] at hacc
        have hc := clean_of_accounted hinv hacc (h.restores before c after (by simp [he]))
        refine ⟨?_, ?_⟩
        · unfold vmmAfter
          rw [run_concat]
          exact (windowInv_step hinv hlegal hc).1
        · exact allowed_concat.2 ⟨hclean, hc⟩
    exact (hall calls [] (List.append_nil _).symm).2
  · intro h
    have hinv : ∀ before after, calls = before ++ after → WindowInv a (vmmAfter a before) := by
      rintro before after rfl
      exact run_keeps (A := fun _ s c => c.Legal a s ∧ c.Clean a s) (I := fun _ s => WindowInv a s)
        (fun _ s c hi hc => show WindowInv a (c.run a s).2 from (windowInv_step hi hc.1 hc.2).1) (windowInv_init a) before
        (fun b c d he => ⟨hl.left b c d he, h.left b c d he⟩)
    refine ⟨fun before after he => (hinv before after he).accounted, fun before c after he => ?_⟩
    exact (windowInv_step (hinv before (c :: after) he) (hl before c after he) (h before c after he)).2

/-- Two pages of a card's registers, mapped and taken back. -/
theorem window_exact_card : WindowExact .x64 [.map 0xFEBC0080 0x1000 0x13 (fun _ => false),
    .unmap (Arch.windowBase .x64 + 0x80) 0x1000] := by
  refine (window_exact_iff .x64 _ ?_).2 ?_
  · exact allowed_cons.2 ⟨(by decide : _ ∧ _), allowed_cons.2 ⟨(by decide : _ ∈ _), allowed_nil _⟩⟩
  · refine allowed_cons.2 ⟨Or.inr (Or.inr ⟨fun _ _ => rfl, Or.inl (by decide)⟩), ?_⟩
    exact allowed_cons.2 ⟨trivial, allowed_nil _⟩

/-- **A page that cannot be mapped.** Of three pages the first one fails: the bits of the other two are left set. -/
theorem not_window_exact : ¬∀ (a : Arch) (calls : List VmmCall),
    Allowed (VmmCall.run a) (fun _ => VmmCall.Legal a) vmmInit calls → WindowExact a calls := by
  intro hall
  have h := hall .x64 [.map 0xFEBC0000 0x3000 0x13 (fun i => i == 0)]
    (allowed_cons.2 ⟨(by decide : _ ∧ _), allowed_nil _⟩)
  have hbits := congrFun (h.restores [] _ [] rfl (by decide)).1 1
  exact absurd hbits (by decide)

end Mm
end AmitX
