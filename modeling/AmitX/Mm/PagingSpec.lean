import AmitX.Mm.Paging
/-!
# PagingSpec — the page tables as a tree

Entries are taken apart first.  Then `Sound` says that the tables form a tree of frames of their own, and for each way to
write an entry there is a lemma about the one path that changes.  `translate_table` is the walk of the processor through
entry 510 of the root: a table is where the code looks for it.
-/
namespace AmitX
namespace Mm
namespace X64

open Radix

/-! ## Entries -/

theorem present_eq (e : Nat) : present e = true ↔ e &&& 1 ≠ 0 := by
  unfold present pagePresent
  exact bne_iff_ne

theorem isHuge_eq (e : Nat) : isHuge e = true ↔ e &&& 128 ≠ 0 := by
  unfold isHuge pageHuge
  exact bne_iff_ne

theorem pteAddr_of_aligned {f : Nat} (hf : pageSize ∣ f) (hlt : f < 2 ^ 52) : pteAddr f = f := by
  have hlow : f &&& 0xFFF = 0 := by
    have hmod : f &&& (2 ^ 12 - 1) = f % 2 ^ 12 := Nat.and_two_pow_sub_one_eq_mod f 12
    exact hmod.trans (Nat.mod_eq_zero_of_dvd hf)
  have hall : f &&& (0x000FFFFFFFFFF000 ||| 0xFFF) = f := by
    have hmod : f &&& (2 ^ 52 - 1) = f % 2 ^ 52 := Nat.and_two_pow_sub_one_eq_mod f 52
    exact hmod.trans (Nat.mod_eq_of_lt hlt)
  rw [Nat.and_or_distrib_left, hlow, Nat.or_zero] at hall
  exact hall

theorem pteAddr_or (x y : Nat) : pteAddr (x ||| y) = pteAddr x ||| pteAddr y := Nat.and_or_distrib_right x y _

theorem pteAddr_aligned (e : Nat) : pageSize ∣ pteAddr e := by
  have hmod : pteAddr e &&& (2 ^ 12 - 1) = pteAddr e % 2 ^ 12 := Nat.and_two_pow_sub_one_eq_mod _ 12
  have hzero : pteAddr e &&& (2 ^ 12 - 1) = 0 := by
    unfold pteAddr
    rw [Nat.and_assoc]
    exact Nat.and_zero e
  exact Nat.dvd_of_mod_eq_zero (hmod.symm.trans hzero)

theorem pteAddr_pteAddr (e : Nat) : pteAddr (pteAddr e) = pteAddr e := by
  unfold pteAddr
  rw [Nat.and_assoc, Nat.and_self]

theorem pteAddr_flags (flags : Nat) : pteAddr (flags &&& pageFlagMask) = 0 := by
  unfold pteAddr
  rw [Nat.and_assoc]
  exact Nat.and_zero flags

theorem pteAddr_flag : pteAddr pagePresent = 0 ∧ pteAddr pageWritable = 0 ∧ pteAddr pageHuge = 0 := by decide

theorem pteAddr_and (e : Nat) {c : Nat} (hc : 0x000FFFFFFFFFF000 &&& c = 0) : pteAddr e &&& c = 0 := by
  unfold pteAddr
  rw [Nat.and_assoc, hc, Nat.and_zero]

def tableEntry (f : Nat) : Nat := f ||| pagePresent ||| pageWritable

theorem tableEntry_spec {f : Nat} (hf : pageSize ∣ f) (hlt : f < 2 ^ 52) :
    present (tableEntry f) = true ∧ isHuge (tableEntry f) = false ∧ pteAddr (tableEntry f) = f := by
  have haddr := pteAddr_of_aligned hf hlt
  have hbit : ∀ c, 0x000FFFFFFFFFF000 &&& c = 0 → f &&& c = 0 := fun c hc => haddr ▸ pteAddr_and f hc
  refine ⟨?_, ?_, ?_⟩
  · rw [present_eq]
    unfold tableEntry
    rw [Nat.and_or_distrib_right, Nat.and_or_distrib_right, hbit 1 (by decide)]
    decide
  · have h0 : tableEntry f &&& 128 = 0 := by
      unfold tableEntry
      rw [Nat.and_or_distrib_right, Nat.and_or_distrib_right, hbit 128 (by decide)]
      decide
    exact Bool.eq_false_iff.2 (fun h => (isHuge_eq _).1 h h0)
  · unfold tableEntry
    rw [pteAddr_or, pteAddr_or, haddr, pteAddr_flag.1, pteAddr_flag.2.1, Nat.or_zero, Nat.or_zero]

theorem leafEntry_spec (phys flags : Nat) :
    present (pteAddr phys ||| pagePresent ||| flags &&& pageFlagMask) = true ∧
      pteAddr (pteAddr phys ||| pagePresent ||| flags &&& pageFlagMask) = pteAddr phys := by
  constructor
  · rw [present_eq, Nat.and_or_distrib_right, Nat.and_or_distrib_right]
    intro h
    exact absurd (Nat.or_eq_zero_iff.1 (Nat.or_eq_zero_iff.1 h).1).2 (by decide)
  · rw [pteAddr_or, pteAddr_or, pteAddr_flags, pteAddr_pteAddr, pteAddr_flag.1, Nat.or_zero, Nat.or_zero]

theorem hugeEntry_spec {phys : Nat} (hp : huge2M ∣ phys) (hlt : phys < 2 ^ 52) (flags : Nat) :
    present (phys ||| pagePresent ||| pageHuge ||| flags &&& pageFlagMask) = true ∧
      isHuge (phys ||| pagePresent ||| pageHuge ||| flags &&& pageFlagMask) = true ∧
      pteAddr (phys ||| pagePresent ||| pageHuge ||| flags &&& pageFlagMask) = phys := by
  refine ⟨?_, ?_, ?_⟩
  · rw [present_eq, Nat.and_or_distrib_right, Nat.and_or_distrib_right, Nat.and_or_distrib_right]
    intro h
    exact absurd (Nat.or_eq_zero_iff.1 (Nat.or_eq_zero_iff.1 (Nat.or_eq_zero_iff.1 h).1).1).2 (by decide)
  · rw [isHuge_eq, Nat.and_or_distrib_right, Nat.and_or_distrib_right]
    intro h
    exact absurd (Nat.or_eq_zero_iff.1 (Nat.or_eq_zero_iff.1 h).1).2 (by decide)
  · rw [pteAddr_or, pteAddr_or, pteAddr_or, pteAddr_flags, pteAddr_of_aligned (Nat.dvd_trans (by decide) hp) hlt,
      pteAddr_flag.1, pteAddr_flag.2.2, Nat.or_zero, Nat.or_zero, Nat.or_zero]

/-! ## The tree -/

def child (e : Nat) : Option Nat := if present e = true ∧ isHuge e = false then some (pteAddr e) else none

theorem child_zero : child 0 = none := rfl

theorem child_eq_some {e f : Nat} : child e = some f ↔ present e = true ∧ isHuge e = false ∧ pteAddr e = f := by
  unfold child
  split
  case isTrue h => simp [h.1, h.2]
  case isFalse h =>
    constructor
    · intro he
      cases he
    · rintro ⟨h1, h2, -⟩
      exact absurd ⟨h1, h2⟩ h

theorem child_tableEntry {f : Nat} (hf : pageSize ∣ f) (hlt : f < 2 ^ 52) : child (tableEntry f) = some f :=
  child_eq_some.2 (tableEntry_spec hf hlt)

/-- The paths to tables: three indices at most, and not through the recursive entry. -/
def IsTable (p : List Nat) : Prop := p.length ≤ 3 ∧ p.getLast? ≠ some recursivePml4Index

theorem IsTable.tail (i : Nat) (p : List Nat) (h : IsTable (i :: p)) : IsTable p := by
  refine ⟨Nat.le_of_succ_le h.1, fun hl => h.2 ?_⟩
  cases p with
  | nil => cases hl
  | cons j p => exact hl

theorem isTable_nil : IsTable [] := ⟨by decide, by decide⟩

def entry (s : Tables) (p : List Nat) : Nat := word child 0 s.ram s.root p

def tableAt (s : Tables) (p : List Nat) : Option Nat := table child s.ram s.root p

/-- `pmm_alloc_frame` returns frames that it has not returned before. -/
structure Fresh (alloc : Nat → Option Nat) : Prop where
  aligned : ∀ n f, alloc n = some f → pageSize ∣ f ∧ f < 2 ^ 52
  once : ∀ n m f, alloc n = some f → alloc m = some f → n = m

/-- **The tables form a tree** of frames that came from `pmm_alloc_frame`, and no entry above the last two levels is of a
large page. -/
structure Sound (alloc : Nat → Option Nat) (s : Tables) : Prop where
  tree : Tree child IsTable s.ram s.root
  owned : ∀ p f, IsTable p → tableAt s p = some f → ∃ n < s.allocs, alloc n = some f
  flat : ∀ i p, p.length ≤ 1 → IsTable (i :: p) → present (entry s (i :: p)) = true → isHuge (entry s (i :: p)) = false

def Recursive (s : Tables) : Prop := child (s.ram s.root recursivePml4Index) = some s.root

/-- Between the states the entry of one path became `w`. -/
structure Changed (s s' : Tables) (path : List Nat) (w : Nat) : Prop where
  root : s'.root = s.root
  entries : ∀ q j, IsTable q → entry s' (j :: q) = if j :: q = path then w else entry s (j :: q)

section

variable {alloc : Nat → Option Nat} {s s' : Tables} {p q : List Nat} {f g i j w : Nat}

theorem tableAt_cons (h : tableAt s p = some f) : tableAt s (i :: p) = child (s.ram f i) := table_cons h

theorem entry_cons (h : tableAt s p = some f) : entry s (i :: p) = s.ram f i := word_cons h

theorem entry_of_none (h : tableAt s p = none) : entry s (i :: p) = 0 := word_of_none h

theorem tableAt_eq_child : tableAt s (i :: p) = child (entry s (i :: p)) := table_eq_child child_zero

theorem tableAt_some (h : tableAt s (i :: p) = some f) : ∃ g, tableAt s p = some g ∧ present (s.ram g i) = true ∧
    isHuge (s.ram g i) = false ∧ pteAddr (s.ram g i) = f := by
  cases hg : tableAt s p with
  | none =>
    rw [tableAt_eq_child, entry_of_none hg] at h
    cases h
  | some g =>
    rw [tableAt_cons hg] at h
    exact ⟨g, rfl, child_eq_some.1 h⟩

theorem Sound.setWord (hs : Sound alloc s) (hp : IsTable p) (h : tableAt s p = some f)
    (hw : IsTable (i :: p) → child w = none ∧ child (s.ram f i) = none)
    (hflat : p.length ≤ 1 → IsTable (i :: p) → present w = true → isHuge w = false) :
    Sound alloc (s.setWord f i w) ∧ Changed s (s.setWord f i w) (i :: p) w := by
  have hentry : ∀ q j, IsTable q → entry (s.setWord f i w) (j :: q) = if j :: q = i :: p then w else entry s (j :: q) :=
    fun q j hq => word_setWord IsTable.tail hs.tree hp h hw hq j
  refine ⟨⟨tree_setWord IsTable.tail hs.tree hp h hw, fun q g hq hg => ?_, fun j q hq hjq hpres => ?_⟩, rfl, hentry⟩
  · exact hs.owned q g hq ((table_setWord IsTable.tail hs.tree hp h hw q hq).symm.trans hg)
  · rw [hentry q j (hjq.tail j q)] at hpres ⊢
    split at hpres
    case isTrue he =>
      rw [if_pos he]
      injection he with hji hqp
      subst hji hqp
      exact hflat hq hjq hpres
    case isFalse he =>
      rw [if_neg he]
      exact hs.flat j q hq hjq hpres

theorem Sound.fresh (hf : Fresh alloc) (hs : Sound alloc s) (hg : alloc s.allocs = some g) (hq : IsTable q) :
    tableAt s q ≠ some g := by
  intro h
  obtain ⟨n, hn, hng⟩ := hs.owned q g hq h
  exact absurd (hf.once n s.allocs g hng hg) (Nat.ne_of_lt hn)

theorem Sound.link (hf : Fresh alloc) (hs : Sound alloc s) (hp : IsTable p) (h : tableAt s p = some f)
    (hip : IsTable (i :: p)) (hold : present (s.ram f i) = false) (hg : alloc s.allocs = some g)
    (he : s' = ⟨Radix.clear 0 g (Radix.setWord f i (tableEntry g) s.ram), s.root, s.allocs + 1⟩) :
    Sound alloc s' ∧ Changed s s' (i :: p) (tableEntry g) ∧ tableAt s' (i :: p) = some g := by
  subst he
  obtain ⟨hga, hglt⟩ := hf.aligned _ _ hg
  have hnew := child_tableEntry hga hglt
  have hold' : child (s.ram f i) = none := if_neg (fun h' => by rw [hold] at h'; exact Bool.noConfusion h'.1)
  have hfresh : ∀ q, IsTable q → table child s.ram s.root q ≠ some g := fun q hq => hs.fresh hf hg hq
  have htab := table_link IsTable.tail hs.tree hp h hold' hnew child_zero hfresh
  have hentry := fun q j hq => word_link (q := q) IsTable.tail hs.tree hp h hold' hnew child_zero hfresh hq j
  refine ⟨⟨tree_link IsTable.tail hs.tree hp h hold' hnew child_zero hfresh, fun q k hq hk => ?_,
    fun j q hq hjq hpres => ?_⟩, ⟨rfl, hentry⟩, ?_⟩
  · rw [tableAt, htab q hq] at hk
    split at hk
    case isTrue =>
      injection hk with hk
      exact ⟨s.allocs, Nat.lt_succ_self _, hk ▸ hg⟩
    case isFalse =>
      obtain ⟨n, hn, hnk⟩ := hs.owned q k hq hk
      exact ⟨n, Nat.lt_succ_of_lt hn, hnk⟩
  · unfold entry at hpres ⊢
    rw [hentry q j (hjq.tail j q)] at hpres ⊢
    split at hpres
    case isTrue he =>
      rw [if_pos he]
      exact (tableEntry_spec hga hglt).2.1
    case isFalse he =>
      rw [if_neg he]
      exact hs.flat j q hq hjq hpres
  · rw [tableAt, htab _ hip, if_pos rfl]

theorem Sound.slot_setWord (hs : Sound alloc s) (hp : IsTable p) (h : tableAt s p = some f)
    (hl : (i :: p).getLast? ≠ some recursivePml4Index) :
    Radix.setWord f i w s.ram s.root recursivePml4Index = s.ram s.root recursivePml4Index := by
  refine if_neg ?_
  rintro ⟨hroot, hi⟩
  have hnil : p = [] := hs.tree p [] f hp isTable_nil h (congrArg some hroot)
  subst hnil
  exact hl (congrArg some hi.symm)

theorem Sound.slot_clear (hf : Fresh alloc) (hs : Sound alloc s) (hg : alloc s.allocs = some g) (ram : Ram) :
    Radix.clear 0 g ram s.root j = ram s.root j :=
  clear_of_ne (fun he => hs.fresh hf hg isTable_nil (congrArg some he))

/-! ## The walk through the recursive entry -/

def tableVirt : List Nat → Nat
  | [] => pml4Virt
  | [i4] => pdptVirt i4
  | [i3, i4] => pdVirtAt i4 i3
  | i2 :: i3 :: i4 :: _ => ptVirtAt i4 i3 i2

theorem recursive_bases : recursivePtBase = 0xFFFFFF0000000000 ∧ recursivePdBase = 0xFFFFFF7F80000000 ∧
    recursivePdptBase = 0xFFFFFF7FBFC00000 ∧ recursivePml4Base = 0xFFFFFF7FBFDFE000 := by decide

theorem translate_eq {v f3 f2 f1 : Nat} (h4 : child (s.ram s.root (idxPml4 v)) = some f3)
    (h3 : child (s.ram f3 (idxPdpt v)) = some f2) (h2 : child (s.ram f2 (idxPd v)) = some f1)
    (h1 : child (s.ram f1 (idxPt v)) = some f) : translate s v = some (f + v % 2 ^ 12) := by
  obtain ⟨p4, -, a4⟩ := child_eq_some.1 h4
  obtain ⟨p3, n3, a3⟩ := child_eq_some.1 h3
  obtain ⟨p2, n2, a2⟩ := child_eq_some.1 h2
  obtain ⟨p1, -, a1⟩ := child_eq_some.1 h1
  unfold translate
  dsimp only
  rw [p4, a4, p3, n3, a3, p2, n2, a2, p1, a1]
  rfl

theorem translate_table (hr : Recursive s) (hlen : p.length ≤ 3) (hidx : ∀ j ∈ p, j < 512) (h : tableAt s p = some f)
    (hi : i < 512) : translate s (tableVirt p + 8 * i) = some (f + 8 * i) := by
  obtain ⟨hpt, hpd, hpdpt, hpml4⟩ := recursive_bases
  unfold Recursive recursivePml4Index at hr
  match p, hlen, hidx, h with
  | [], _, _, h =>
    injection h with h
    subst h
    have hv : tableVirt [] + 8 * i = 0xFFFFFF7FBFDFE000 + 8 * i := by rw [← hpml4]; rfl
    rw [hv]
    generalize hx : 0xFFFFFF7FBFDFE000 + 8 * i = v
    have e4 : idxPml4 v = 510 := by unfold idxPml4; omega
    have e3 : idxPdpt v = 510 := by unfold idxPdpt; omega
    have e2 : idxPd v = 510 := by unfold idxPd; omega
    have e1 : idxPt v = 510 := by unfold idxPt; omega
    have eo : v % 2 ^ 12 = 8 * i := by omega
    rw [translate_eq (e4 ▸ hr) (e3 ▸ hr) (e2 ▸ hr) (e1 ▸ hr), eo]
  | [i4], _, hidx, h =>
    have h4 := hidx i4 (by simp)
    have hv : tableVirt [i4] + 8 * i = 0xFFFFFF7FBFC00000 + i4 * 4096 + 8 * i := by rw [← hpdpt]; rfl
    rw [hv]
    generalize hx : 0xFFFFFF7FBFC00000 + i4 * 4096 + 8 * i = v
    have e4 : idxPml4 v = 510 := by unfold idxPml4; omega
    have e3 : idxPdpt v = 510 := by unfold idxPdpt; omega
    have e2 : idxPd v = 510 := by unfold idxPd; omega
    have e1 : idxPt v = i4 := by unfold idxPt; omega
    have eo : v % 2 ^ 12 = 8 * i := by omega
    rw [translate_eq (e4 ▸ hr) (e3 ▸ hr) (e2 ▸ hr) (e1 ▸ h), eo]
  | [i3, i4], _, hidx, h =>
    have h4 := hidx i4 (by simp)
    have h3 := hidx i3 (by simp)
    have hv : tableVirt [i3, i4] + 8 * i = 0xFFFFFF7F80000000 + i4 * 2097152 + i3 * 4096 + 8 * i := by rw [← hpd]; rfl
    rw [hv]
    generalize hx : 0xFFFFFF7F80000000 + i4 * 2097152 + i3 * 4096 + 8 * i = v
    have e4 : idxPml4 v = 510 := by unfold idxPml4; omega
    have e3 : idxPdpt v = 510 := by unfold idxPdpt; omega
    have e2 : idxPd v = i4 := by unfold idxPd; omega
    have e1 : idxPt v = i3 := by unfold idxPt; omega
    have eo : v % 2 ^ 12 = 8 * i := by omega
    obtain ⟨f4, hf4, -⟩ := tableAt_some h
    rw [tableAt_cons hf4] at h
    rw [translate_eq (e4 ▸ hr) (e3 ▸ hr) (e2 ▸ hf4) (e1 ▸ h), eo]
  | [i2, i3, i4], _, hidx, h =>
    have h4 := hidx i4 (by simp)
    have h3 := hidx i3 (by simp)
    have h2 := hidx i2 (by simp)
    have hv : tableVirt [i2, i3, i4] + 8 * i =
        0xFFFFFF0000000000 + i4 * 1073741824 + i3 * 2097152 + i2 * 4096 + 8 * i := by rw [← hpt]; rfl
    rw [hv]
    generalize hx : 0xFFFFFF0000000000 + i4 * 1073741824 + i3 * 2097152 + i2 * 4096 + 8 * i = v
    have e4 : idxPml4 v = 510 := by unfold idxPml4; omega
    have e3 : idxPdpt v = i4 := by unfold idxPdpt; omega
    have e2 : idxPd v = i3 := by unfold idxPd; omega
    have e1 : idxPt v = i2 := by unfold idxPt; omega
    have eo : v % 2 ^ 12 = 8 * i := by omega
    obtain ⟨f3, hf3, -⟩ := tableAt_some h
    obtain ⟨f4, hf4, -⟩ := tableAt_some hf3
    rw [tableAt_cons hf3] at h
    rw [tableAt_cons hf4] at hf3
    rw [translate_eq (e4 ▸ hr) (e3 ▸ hf4) (e2 ▸ hf3) (e1 ▸ h), eo]

theorem aligned_of_table (hr : Recursive s) (h : tableAt s p = some f) : pageSize ∣ f := by
  cases p with
  | nil =>
    injection h with h
    rw [← h, ← (child_eq_some.1 hr).2.2]
    exact pteAddr_aligned _
  | cons i p =>
    obtain ⟨g, -, -, -, hf⟩ := tableAt_some h
    exact hf ▸ pteAddr_aligned _

theorem frame_word (hf : pageSize ∣ f) (hi : i < 512) :
    (f + 8 * i) / pageSize * pageSize = f ∧ (f + 8 * i) % pageSize / 8 = i := by
  obtain ⟨k, rfl⟩ := hf
  unfold pageSize
  omega

section

variable (hr : Recursive s) (hlen : p.length ≤ 3) (hidx : ∀ j ∈ p, j < 512) (h : tableAt s p = some f) (hi : i < 512)

include hr hlen hidx h hi

theorem readEntry_table : readEntry s (tableVirt p) i = some (s.ram f i) := by
  obtain ⟨h1, h2⟩ := frame_word (aligned_of_table hr h) hi
  unfold readEntry
  rw [translate_table hr hlen hidx h hi, Option.map_some, h1, h2]

theorem writeEntry_table (e : Nat) : writeEntry (tableVirt p) i e s = some (s.setWord f i e) := by
  obtain ⟨h1, h2⟩ := frame_word (aligned_of_table hr h) hi
  unfold writeEntry
  rw [translate_table hr hlen hidx h hi, Option.map_some, h1, h2]

end

theorem clearPage_table (hr : Recursive s) (hlen : p.length ≤ 3) (hidx : ∀ j ∈ p, j < 512)
    (h : tableAt s p = some f) : clearPage (tableVirt p) s = some (s.clear f) := by
  have htr := translate_table (i := 0) hr hlen hidx h (by decide)
  obtain ⟨h1, -⟩ := frame_word (i := 0) (aligned_of_table hr h) (by decide)
  rw [Nat.mul_zero, Nat.add_zero, Nat.add_zero] at htr
  rw [Nat.mul_zero, Nat.add_zero] at h1
  unfold clearPage
  rw [htr, Option.map_some, h1]

/-! ## `ensure_table` -/

/-- The entry of the path is as it was, or one that was not present leads to a table. -/
structure Ensured (s s' : Tables) (path : List Nat) : Prop where
  slot : s'.ram s'.root recursivePml4Index = s.ram s.root recursivePml4Index
  entries : ∃ w, (w = entry s path ∨ present (entry s path) = false ∧ present w = true ∧ isHuge w = false) ∧
    Changed s s' path w

theorem Ensured.same (s : Tables) (n : Nat) (path : List Nat) : Ensured s { s with allocs := n } path := by
  refine ⟨rfl, entry s path, Or.inl rfl, rfl, fun q j _ => ?_⟩
  split
  case isTrue he =>
    rw [he]
    rfl
  case isFalse => rfl

theorem Ensured.recursive (h : Ensured s s' p) (hr : Recursive s) : Recursive s' := by
  obtain ⟨w, -, hroot, -⟩ := h.entries
  unfold Recursive
  rw [h.slot, hroot]
  exact hr

theorem Sound.allocs (hs : Sound alloc s) : Sound alloc { s with allocs := s.allocs + 1 } :=
  ⟨hs.tree, fun p f hp hpf => (hs.owned p f hp hpf).imp (fun _ h => ⟨Nat.lt_succ_of_lt h.1, h.2⟩), hs.flat⟩

theorem Sound.ensured_link (hf : Fresh alloc) (hs : Sound alloc s) (hp : IsTable p) (h : tableAt s p = some f)
    (hip : IsTable (i :: p)) (hold : present (s.ram f i) = false) (hg : alloc s.allocs = some g)
    (he : s' = ⟨Radix.clear 0 g (Radix.setWord f i (tableEntry g) s.ram), s.root, s.allocs + 1⟩) :
    Sound alloc s' ∧ Ensured s s' (i :: p) ∧ tableAt s' (i :: p) = some g := by
  obtain ⟨hs', hchanged, htab⟩ := hs.link hf hp h hip hold hg he
  obtain ⟨hga, hglt⟩ := hf.aligned _ _ hg
  obtain ⟨hpres, hnot, -⟩ := tableEntry_spec hga hglt
  refine ⟨hs', ⟨?_, tableEntry g, Or.inr ⟨?_, hpres, hnot⟩, hchanged⟩, htab⟩
  · subst he
    dsimp only
    rw [hs.slot_clear hf hg, hs.slot_setWord hp h hip.2]
  · rw [entry_cons h]
    exact hold

theorem ensureTable_spec (hf : Fresh alloc) (hs : Sound alloc s) (hr : Recursive s) (h : tableAt s p = some f)
    (hip : IsTable (i :: p)) (hidx : ∀ j ∈ i :: p, j < 512) :
    ∃ b s', ensureTable alloc (tableVirt p) i (tableVirt (i :: p)) s = some (b, s') ∧ Sound alloc s' ∧ Recursive s' ∧
      Ensured s s' (i :: p) ∧ (b = true → ∃ g, tableAt s' (i :: p) = some g) := by
  have hp := hip.tail
  have hi := hidx i List.mem_cons_self
  have hidx' : ∀ j ∈ p, j < 512 := fun j hj => hidx j (List.mem_cons_of_mem i hj)
  unfold ensureTable
  rw [readEntry_table hr hp.1 hidx' h hi, Option.bind_some]
  by_cases hpres : present (s.ram f i) = true
  · rw [if_pos hpres]
    refine ⟨_, s, rfl, hs, hr, Ensured.same s s.allocs _, fun hnot => ?_⟩
    have hnot' : isHuge (s.ram f i) = false := by simpa using hnot
    rw [tableAt_cons h]
    exact ⟨_, child_eq_some.2 ⟨hpres, hnot', rfl⟩⟩
  · rw [if_neg hpres]
    have hold : present (s.ram f i) = false := Bool.eq_false_iff.2 hpres
    cases hg : alloc s.allocs with
    | none =>
      have hstep : s.allocFrame alloc = (none, { s with allocs := s.allocs + 1 }) := by rw [Tables.allocFrame, hg]
      rw [hstep]
      exact ⟨false, _, rfl, hs.allocs, hr, Ensured.same s _ _, fun hb => by cases hb⟩
    | some g =>
      have hstep : s.allocFrame alloc = (some g, { s with allocs := s.allocs + 1 }) := by rw [Tables.allocFrame, hg]
      obtain ⟨hga, hglt⟩ := hf.aligned _ _ hg
      obtain ⟨hs', hens, htab⟩ := hs.ensured_link hf hp h hip hold hg rfl
      -- the entry is written first, and the new table is found through it
      have hr2 : Recursive ({ s with allocs := s.allocs + 1 }.setWord f i (tableEntry g)) := by
        show child (Radix.setWord f i (tableEntry g) s.ram s.root recursivePml4Index) = some s.root
        rw [hs.slot_setWord hp h hip.2]
        exact hr
      have htab2 : tableAt ({ s with allocs := s.allocs + 1 }.setWord f i (tableEntry g)) (i :: p) = some g :=
        (table_setWord_self hs.tree hp h IsTable.tail).trans (child_tableEntry hga hglt)
      rw [hstep]
      dsimp only
      have hwrite := writeEntry_table (s := { s with allocs := s.allocs + 1 }) hr hp.1 hidx' h hi (tableEntry g)
      unfold tableEntry at hwrite
      rw [hwrite, Option.bind_some]
      have hclear := clearPage_table hr2 hip.1 hidx htab2
      unfold tableEntry at hclear
      rw [hclear, Option.map_some]
      exact ⟨true, _, rfl, hs', hens.recursive hr, hens, fun _ => ⟨g, htab⟩⟩

end

end X64
end Mm
end AmitX
