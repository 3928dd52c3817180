import AmitX.Mm.PagingSpec
/-!
# PagingCalls — what the calls do to the translation

`Shows` ties the tables to two maps: the large pages of the boot and the pages of 4 KiB.  A table that is linked shows
nothing new; a leaf changes its own page.  `mapPage`, `unmapPage` and `virtToPhys` have one lemma each.
-/
namespace AmitX
namespace Mm
namespace X64

open Radix

def Canonical (v : Nat) : Prop := v < 2 ^ 47 ∨ 2 ^ 64 - 2 ^ 47 ≤ v ∧ v < 2 ^ 64

def Ok (v : Nat) : Prop := Canonical v ∧ idxPml4 v ≠ recursivePml4Index

def pdPath (v : Nat) : List Nat := [idxPd v, idxPdpt v, idxPml4 v]

def ptPath (v : Nat) : List Nat := idxPt v :: pdPath v

def hugeAt (s : Tables) (v : Nat) : Option Nat :=
  if present (entry s (pdPath v)) = true ∧ isHuge (entry s (pdPath v)) = true then some (pteAddr (entry s (pdPath v)))
  else none

def pageAt (s : Tables) (v : Nat) : Option Nat :=
  if present (entry s (ptPath v)) = true then some (pteAddr (entry s (ptPath v))) else none

/-- **The tables show** the large pages `H` and, elsewhere, the pages `M`. -/
def Shows (s : Tables) (H M : Nat → Option Nat) : Prop :=
  ∀ v, Ok v → hugeAt s v = H (v / huge2M) ∧ (H (v / huge2M) = none → pageAt s v = M (v / pageSize))

/-- What `virt_to_phys` returns under two maps. -/
def lookup (H M : Nat → Option Nat) (v : Nat) : Nat :=
  match H (v / huge2M) with
  | some b => b ||| v % huge2M
  | none =>
    match M (v / pageSize) with
    | some p => p ||| v % pageSize
    | none => physAddrInvalid

section

variable {alloc : Nat → Option Nat} {s s' : Tables} {p q : List Nat} {f g i j w v u : Nat} {H M : Nat → Option Nat}

theorem idx_lt (v : Nat) : idxPml4 v < 512 ∧ idxPdpt v < 512 ∧ idxPd v < 512 ∧ idxPt v < 512 :=
  ⟨Nat.mod_lt _ (by decide), Nat.mod_lt _ (by decide), Nat.mod_lt _ (by decide), Nat.mod_lt _ (by decide)⟩

theorem mem_ptPath : ∀ j ∈ ptPath v, j < 512 := by
  obtain ⟨h4, h3, h2, h1⟩ := idx_lt v
  intro j hj
  simp only [ptPath, pdPath, List.mem_cons, List.not_mem_nil, or_false] at hj
  rcases hj with rfl | rfl | rfl | rfl <;> assumption

theorem isTable_pdPath (hv : Ok v) : IsTable (pdPath v) :=
  ⟨by simp [pdPath], fun h => hv.2 (by simpa [pdPath] using h)⟩

theorem ptPath_last (hv : Ok v) : (ptPath v).getLast? ≠ some recursivePml4Index :=
  fun h => hv.2 (by simpa [ptPath, pdPath] using h)

theorem ptPath_eq (hv : Canonical v) (hu : Canonical u) : ptPath v = ptPath u ↔ v / pageSize = u / pageSize := by
  unfold Canonical at hv hu
  unfold ptPath pdPath idxPml4 idxPdpt idxPd idxPt pageSize
  constructor
  · intro h
    injection h with h1 h
    injection h with h2 h
    injection h with h3 h
    injection h with h4 h
    omega
  · intro h
    have h1 : v / 2 ^ 12 % 512 = u / 2 ^ 12 % 512 := by omega
    have h2 : v / 2 ^ 21 % 512 = u / 2 ^ 21 % 512 := by omega
    have h3 : v / 2 ^ 30 % 512 = u / 2 ^ 30 % 512 := by omega
    have h4 : v / 2 ^ 39 % 512 = u / 2 ^ 39 % 512 := by omega
    rw [h1, h2, h3, h4]

theorem pdPath_eq (hv : Canonical v) (hu : Canonical u) : pdPath v = pdPath u ↔ v / huge2M = u / huge2M := by
  unfold Canonical at hv hu
  unfold pdPath idxPml4 idxPdpt idxPd huge2M
  constructor
  · intro h
    injection h with h2 h
    injection h with h3 h
    injection h with h4 h
    omega
  · intro h
    have h2 : v / 2 ^ 21 % 512 = u / 2 ^ 21 % 512 := by omega
    have h3 : v / 2 ^ 30 % 512 = u / 2 ^ 30 % 512 := by omega
    have h4 : v / 2 ^ 39 % 512 = u / 2 ^ 39 % 512 := by omega
    rw [h2, h3, h4]

/-! ## Entries and translations -/

theorem Ensured.at (h : Ensured s s' p) (hp : IsTable p) (hv : Ok v) :
    hugeAt s' v = hugeAt s v ∧ pageAt s' v = pageAt s v := by
  obtain ⟨w, hw, hchanged⟩ := h.entries
  have hpd := isTable_pdPath hv
  constructor
  · have he : entry s' (pdPath v) = if pdPath v = p then w else entry s (pdPath v) := hchanged.entries _ _ hpd.tail
    unfold hugeAt
    by_cases hpath : pdPath v = p
    · rw [if_pos hpath] at he
      rw [he, hpath]
      rcases hw with rfl | ⟨hold, -, hnew⟩
      · rfl
      · rw [if_neg (fun h' => by rw [hnew] at h'; exact Bool.noConfusion h'.2),
          if_neg (fun h' => by rw [hold] at h'; exact Bool.noConfusion h'.1)]
    · rw [if_neg hpath] at he
      rw [he]
  · have he : entry s' (ptPath v) = if ptPath v = p then w else entry s (ptPath v) := hchanged.entries _ _ hpd
    have hne : ptPath v ≠ p := fun hpath => absurd hp.1 (by rw [← hpath]; simp [ptPath, pdPath])
    rw [if_neg hne] at he
    unfold pageAt
    rw [he]

theorem Ensured.shows (h : Ensured s s' p) (hp : IsTable p) (hs : Shows s H M) : Shows s' H M := by
  intro v hv
  obtain ⟨h1, h2⟩ := h.at hp hv
  rw [h1, h2]
  exact hs v hv

theorem Changed.shows_leaf (h : Changed s s' (ptPath u) w) (hu : Ok u) (hs : Shows s H M) :
    Shows s' H (Function.update M (u / pageSize) (if present w = true then some (pteAddr w) else none)) := by
  intro v hv
  obtain ⟨hhuge, hpage⟩ := hs v hv
  have hpd := isTable_pdPath hv
  have hne : ¬pdPath v = ptPath u := fun he => by simpa [ptPath, pdPath] using congrArg List.length he
  have he2 : entry s' (pdPath v) = entry s (pdPath v) := (h.entries _ _ hpd.tail).trans (if_neg hne)
  have he1 : entry s' (ptPath v) = if ptPath v = ptPath u then w else entry s (ptPath v) := h.entries _ _ hpd
  refine ⟨?_, fun hnone => ?_⟩
  · unfold hugeAt at hhuge ⊢
    rw [he2]
    exact hhuge
  · by_cases hpath : v / pageSize = u / pageSize
    · rw [if_pos ((ptPath_eq hv.1 hu.1).2 hpath)] at he1
      rw [hpath, Function.update_self]
      unfold pageAt
      rw [he1]
    · rw [if_neg (fun he => hpath ((ptPath_eq hv.1 hu.1).1 he))] at he1
      rw [Function.update_of_ne hpath, ← hpage hnone]
      unfold pageAt
      rw [he1]

theorem Changed.shows_huge (h : Changed s s' (pdPath u) w) (hu : Ok u) (hw : present w = true ∧ isHuge w = true)
    (hs : Shows s H M) : Shows s' (Function.update H (u / huge2M) (some (pteAddr w))) M := by
  intro v hv
  obtain ⟨hhuge, hpage⟩ := hs v hv
  have hpd := isTable_pdPath hv
  have hne : ¬ptPath v = pdPath u := fun he => by simpa [ptPath, pdPath] using congrArg List.length he
  have he2 : entry s' (pdPath v) = if pdPath v = pdPath u then w else entry s (pdPath v) := h.entries _ _ hpd.tail
  have he1 : entry s' (ptPath v) = entry s (ptPath v) := (h.entries _ _ hpd).trans (if_neg hne)
  by_cases hpath : v / huge2M = u / huge2M
  · rw [if_pos ((pdPath_eq hv.1 hu.1).2 hpath)] at he2
    rw [hpath, Function.update_self]
    refine ⟨?_, fun hnone => by cases hnone⟩
    unfold hugeAt
    rw [he2, if_pos hw]
  · rw [if_neg (fun he => hpath ((pdPath_eq hv.1 hu.1).1 he))] at he2
    rw [Function.update_of_ne hpath]
    refine ⟨?_, fun hnone => ?_⟩
    · unfold hugeAt at hhuge ⊢
      rw [he2]
      exact hhuge
    · rw [← hpage hnone]
      unfold pageAt
      rw [he1]

/-! ## Present entries -/

theorem path_bounds (hv : Ok v) : IsTable [] ∧ IsTable [idxPml4 v] ∧ IsTable [idxPdpt v, idxPml4 v] ∧
    IsTable (pdPath v) :=
  ⟨isTable_nil, (isTable_pdPath hv).tail.tail, (isTable_pdPath hv).tail, isTable_pdPath hv⟩

theorem at_of_missing (h : tableAt s [idxPdpt v, idxPml4 v] = none) : hugeAt s v = none ∧ pageAt s v = none := by
  have h2 : entry s (pdPath v) = 0 := entry_of_none h
  have h1 : entry s (ptPath v) = 0 := entry_of_none (by rw [pdPath, tableAt_eq_child]; exact h2 ▸ child_zero)
  constructor
  · unfold hugeAt
    rw [h2, if_neg (by decide)]
  · unfold pageAt
    rw [h1, if_neg (by decide)]

theorem at_of_pd (h : tableAt s [idxPdpt v, idxPml4 v] = some f) :
    hugeAt s v = (if present (s.ram f (idxPd v)) = true ∧ isHuge (s.ram f (idxPd v)) = true then
      some (pteAddr (s.ram f (idxPd v))) else none) ∧ tableAt s (pdPath v) = child (s.ram f (idxPd v)) := by
  have h2 : entry s (pdPath v) = s.ram f (idxPd v) := entry_cons h
  refine ⟨?_, tableAt_cons h⟩
  unfold hugeAt
  rw [h2]

theorem at_of_pt (h : tableAt s (pdPath v) = some f) : hugeAt s v = none ∧
    pageAt s v = if present (s.ram f (idxPt v)) = true then some (pteAddr (s.ram f (idxPt v))) else none := by
  have h1 : entry s (ptPath v) = s.ram f (idxPt v) := entry_cons h
  constructor
  · have h2 := h
    rw [pdPath, tableAt_eq_child] at h2
    have hnot := (child_eq_some.1 h2).2.1
    unfold hugeAt pdPath
    rw [hnot, if_neg (fun h' => Bool.noConfusion h'.2)]
  · unfold pageAt
    rw [h1]

theorem Sound.next (hs : Sound alloc s) (h : tableAt s p = some f) (hip : IsTable (i :: p)) (hlen : p.length ≤ 1)
    (hpres : present (s.ram f i) = true) : tableAt s (i :: p) = some (pteAddr (s.ram f i)) := by
  have hflat := hs.flat i p hlen hip (by rw [entry_cons h]; exact hpres)
  rw [entry_cons h] at hflat
  rw [tableAt_cons h]
  exact child_eq_some.2 ⟨hpres, hflat, rfl⟩

theorem tableAt_of_absent (h : tableAt s p = some f) (hpres : present (s.ram f i) = false) :
    tableAt s (i :: p) = none := by
  rw [tableAt_cons h]
  exact if_neg (fun h' => by rw [hpres] at h'; exact Bool.noConfusion h'.1)

theorem tableAt_below (h : tableAt s p = none) : tableAt s (i :: p) = none := by
  rw [tableAt_eq_child, entry_of_none h, child_zero]

/-! ## Reading the tables of an address -/

section

variable (hr : Recursive s) (hv : Ok v)

include hr

theorem read_pml4 : readEntry s pml4Virt (idxPml4 v) = some (s.ram s.root (idxPml4 v)) :=
  readEntry_table (p := []) hr (by decide) (by simp) rfl (idx_lt v).1

theorem read_pdpt (h : tableAt s [idxPml4 v] = some f) :
    readEntry s (pdptVirt (idxPml4 v)) (idxPdpt v) = some (s.ram f (idxPdpt v)) :=
  readEntry_table (p := [idxPml4 v]) hr (by simp) (by simp [(idx_lt v).1]) h (idx_lt v).2.1

theorem read_pd (h : tableAt s [idxPdpt v, idxPml4 v] = some f) :
    readEntry s (pdVirtAt (idxPml4 v) (idxPdpt v)) (idxPd v) = some (s.ram f (idxPd v)) :=
  readEntry_table (p := [idxPdpt v, idxPml4 v]) hr (by simp) (by simp [(idx_lt v).1, (idx_lt v).2.1]) h
    (idx_lt v).2.2.1

theorem read_pt (h : tableAt s (pdPath v) = some f) :
    readEntry s (ptVirtAt (idxPml4 v) (idxPdpt v) (idxPd v)) (idxPt v) = some (s.ram f (idxPt v)) :=
  readEntry_table (p := pdPath v) hr (by simp [pdPath]) (fun j hj => mem_ptPath j (List.mem_cons_of_mem _ hj)) h
    (idx_lt v).2.2.2

theorem write_pt (h : tableAt s (pdPath v) = some f) (e : Nat) :
    writeEntry (ptVirtAt (idxPml4 v) (idxPdpt v) (idxPd v)) (idxPt v) e s = some (s.setWord f (idxPt v) e) :=
  writeEntry_table (p := pdPath v) hr (by simp [pdPath]) (fun j hj => mem_ptPath j (List.mem_cons_of_mem _ hj)) h
    (idx_lt v).2.2.2 e

end

/-! ## The calls -/

section

variable (hf : Fresh alloc) (hs : Sound alloc s) (hr : Recursive s) (hv : Ok v)

include hs hr hv

theorem virtToPhys_spec (hshow : Shows s H M) : virtToPhys v s = some (lookup H M v) := by
  obtain ⟨-, t4, t3, -⟩ := path_bounds hv
  obtain ⟨hhuge, hpage⟩ := hshow v hv
  have hroot : tableAt s [] = some s.root := rfl
  have hnone : hugeAt s v = none → pageAt s v = none → lookup H M v = physAddrInvalid := by
    intro h2 h1
    have hH := hhuge.symm.trans h2
    unfold lookup
    rw [hH, (hpage hH).symm.trans h1]
  unfold virtToPhys
  dsimp only
  rw [read_pml4 hr, Option.bind_some]
  by_cases h4 : present (s.ram s.root (idxPml4 v)) = true
  · rw [h4]
    have ht4 := hs.next hroot t4 (by decide) h4
    rw [read_pdpt hr ht4]
    simp only [Bool.not_true, Bool.false_eq_true, if_false, Option.bind_some]
    generalize pteAddr (s.ram s.root (idxPml4 v)) = f4 at ht4 ⊢
    by_cases h3 : present (s.ram f4 (idxPdpt v)) = true
    · rw [h3]
      have ht3 := hs.next ht4 t3 (by simp) h3
      rw [read_pd hr ht3]
      simp only [Bool.not_true, Bool.false_eq_true, if_false, Option.bind_some]
      generalize pteAddr (s.ram f4 (idxPdpt v)) = f3 at ht3 ⊢
      obtain ⟨hat, htab⟩ := at_of_pd ht3
      by_cases h2 : present (s.ram f3 (idxPd v)) = true
      · rw [h2]
        simp only [Bool.not_true, Bool.false_eq_true, if_false]
        by_cases hhg : isHuge (s.ram f3 (idxPd v)) = true
        · rw [if_pos hhg]
          rw [if_pos ⟨h2, hhg⟩] at hat
          unfold lookup
          rw [hhuge.symm.trans hat]
        · rw [if_neg hhg]
          have hhg' : isHuge (s.ram f3 (idxPd v)) = false := Bool.eq_false_iff.2 hhg
          have ht2 : tableAt s (pdPath v) = some (pteAddr (s.ram f3 (idxPd v))) :=
            htab.trans (child_eq_some.2 ⟨h2, hhg', rfl⟩)
          rw [read_pt hr ht2, Option.bind_some]
          obtain ⟨hno, hpt⟩ := at_of_pt ht2
          have hH := hhuge.symm.trans hno
          by_cases h1 : present (s.ram (pteAddr (s.ram f3 (idxPd v))) (idxPt v)) = true
          · rw [h1]
            rw [if_pos h1] at hpt
            unfold lookup
            rw [hH, (hpage hH).symm.trans hpt]
            rfl
          · rw [Bool.eq_false_iff.2 h1]
            rw [if_neg h1] at hpt
            rw [hnone hno hpt]
            rfl
      · have h2' : present (s.ram f3 (idxPd v)) = false := Bool.eq_false_iff.2 h2
        rw [h2']
        have hpt0 : tableAt s (pdPath v) = none := tableAt_of_absent ht3 h2'
        have hno : hugeAt s v = none := by rw [hat, if_neg (fun h' => h2 h'.1)]
        have hpg : pageAt s v = none := by
          have h0 : entry s (ptPath v) = 0 := entry_of_none hpt0
          unfold pageAt
          rw [h0, if_neg (by decide)]
        rw [hnone hno hpg]
        rfl
    · have h3' : present (s.ram f4 (idxPdpt v)) = false := Bool.eq_false_iff.2 h3
      rw [h3']
      obtain ⟨hno, hpg⟩ := at_of_missing (tableAt_of_absent ht4 h3')
      rw [hnone hno hpg]
      rfl
  · have h4' : present (s.ram s.root (idxPml4 v)) = false := Bool.eq_false_iff.2 h4
    rw [h4']
    obtain ⟨hno, hpg⟩ := at_of_missing (v := v) (tableAt_below (tableAt_of_absent hroot h4'))
    rw [hnone hno hpg]
    rfl

theorem Sound.leaf (hshow : Shows s H M) (h : tableAt s (pdPath v) = some f) (w : Nat) :
    Sound alloc (s.setWord f (idxPt v) w) ∧ Recursive (s.setWord f (idxPt v) w) ∧
      Shows (s.setWord f (idxPt v) w) H
        (Function.update M (v / pageSize) (if present w = true then some (pteAddr w) else none)) := by
  have hpd := isTable_pdPath hv
  have hnot : ¬IsTable (idxPt v :: pdPath v) := fun h' => absurd h'.1 (by simp [pdPath])
  obtain ⟨hs', hchanged⟩ := hs.setWord (w := w) hpd h (fun h' => absurd h' hnot) (fun _ h' => absurd h' hnot)
  refine ⟨hs', ?_, Changed.shows_leaf hchanged hv hshow⟩
  show child (Radix.setWord f (idxPt v) w s.ram s.root recursivePml4Index) = some s.root
  rw [hs.slot_setWord hpd h (ptPath_last hv)]
  exact hr

omit hs hr in
theorem Shows.unmapped (hshow : Shows s H M) (h : H (v / huge2M) ≠ none ∨ pageAt s v = none) :
    Shows s H (Function.update M (v / pageSize) none) := by
  intro u hu
  obtain ⟨hhuge, hpage⟩ := hshow u hu
  refine ⟨hhuge, fun hnone => ?_⟩
  by_cases hpath : u / pageSize = v / pageSize
  · have hsame : u / huge2M = v / huge2M := by
      unfold pageSize at hpath
      unfold huge2M
      omega
    have hpt := (ptPath_eq hu.1 hv.1).2 hpath
    rw [hpath, Function.update_self]
    rcases h with h | h
    · exact absurd (hsame ▸ hnone) h
    · unfold pageAt at h ⊢
      rw [hpt]
      exact h
  · rw [Function.update_of_ne hpath]
    exact hpage hnone

theorem unmapPage_spec (hshow : Shows s H M) : ∃ s', unmapPage v s = some s' ∧ Sound alloc s' ∧ Recursive s' ∧
    Shows s' H (Function.update M (v / pageSize) none) := by
  obtain ⟨-, t4, t3, -⟩ := path_bounds hv
  have hroot : tableAt s [] = some s.root := rfl
  have hsame : (H (v / huge2M) ≠ none ∨ pageAt s v = none) → ∃ s', some s = some s' ∧ Sound alloc s' ∧ Recursive s' ∧
      Shows s' H (Function.update M (v / pageSize) none) :=
    fun h => ⟨s, rfl, hs, hr, hshow.unmapped hv h⟩
  unfold unmapPage
  dsimp only
  rw [read_pml4 hr, Option.bind_some]
  by_cases h4 : present (s.ram s.root (idxPml4 v)) = true
  · rw [h4]
    have ht4 := hs.next hroot t4 (by decide) h4
    rw [read_pdpt hr ht4]
    simp only [Bool.not_true, Bool.false_eq_true, if_false, Option.bind_some]
    generalize pteAddr (s.ram s.root (idxPml4 v)) = f4 at ht4 ⊢
    by_cases h3 : present (s.ram f4 (idxPdpt v)) = true
    · rw [h3]
      have ht3 := hs.next ht4 t3 (by simp) h3
      rw [read_pd hr ht3]
      simp only [Bool.not_true, Bool.false_eq_true, if_false, Option.bind_some]
      generalize pteAddr (s.ram f4 (idxPdpt v)) = f3 at ht3 ⊢
      obtain ⟨hat, htab⟩ := at_of_pd ht3
      by_cases h2 : present (s.ram f3 (idxPd v)) = true ∧ isHuge (s.ram f3 (idxPd v)) = false
      · have ht2 : tableAt s (pdPath v) = some (pteAddr (s.ram f3 (idxPd v))) :=
          htab.trans (child_eq_some.2 ⟨h2.1, h2.2, rfl⟩)
        rw [h2.1, h2.2]
        simp only [Bool.not_true, Bool.or_self, Bool.false_eq_true, if_false]
        rw [write_pt hr ht2]
        have hleaf := hs.leaf hr hv hshow ht2 0
        rw [if_neg (by decide)] at hleaf
        exact ⟨_, rfl, hleaf⟩
      · have hcond : (!present (s.ram f3 (idxPd v)) || isHuge (s.ram f3 (idxPd v))) = true := by
          cases hp : present (s.ram f3 (idxPd v)) with
          | false => rfl
          | true =>
            cases hg : isHuge (s.ram f3 (idxPd v)) with
            | true => rfl
            | false => exact absurd ⟨hp, hg⟩ h2
        rw [if_pos hcond]
        refine hsame ?_
        by_cases hhg : present (s.ram f3 (idxPd v)) = true ∧ isHuge (s.ram f3 (idxPd v)) = true
        · left
          rw [← (hshow v hv).1, hat, if_pos hhg]
          exact fun h => by cases h
        · right
          have hp : present (s.ram f3 (idxPd v)) = false := by
            cases hp : present (s.ram f3 (idxPd v)) with
            | false => rfl
            | true =>
              cases hg : isHuge (s.ram f3 (idxPd v)) with
              | true => exact absurd ⟨hp, hg⟩ hhg
              | false => exact absurd ⟨hp, hg⟩ h2
          have h0 : entry s (ptPath v) = 0 := entry_of_none (tableAt_of_absent ht3 hp)
          unfold pageAt
          rw [h0, if_neg (by decide)]
    · have h3' : present (s.ram f4 (idxPdpt v)) = false := Bool.eq_false_iff.2 h3
      rw [h3']
      exact hsame (Or.inr (at_of_missing (tableAt_of_absent ht4 h3')).2)
  · have h4' : present (s.ram s.root (idxPml4 v)) = false := Bool.eq_false_iff.2 h4
    rw [h4']
    exact hsame (Or.inr (at_of_missing (tableAt_below (tableAt_of_absent hroot h4'))).2)

include hf

theorem mapPage_spec (hshow : Shows s H M) (phys flags : Nat) : ∃ b s', mapPage alloc phys v flags s = some (b, s') ∧
    Sound alloc s' ∧ Recursive s' ∧ (b = false → Shows s' H M) ∧
    (b = true → pageSize ∣ phys ∧ H (v / huge2M) = none ∧
      Shows s' H (Function.update M (v / pageSize) (some (pteAddr phys)))) := by
  obtain ⟨-, t4, t3, t2⟩ := path_bounds hv
  obtain ⟨b4, b3, b2, -⟩ := idx_lt v
  unfold mapPage
  by_cases halign : phys % pageSize ≠ 0 ∨ v % pageSize ≠ 0
  · rw [if_pos halign]
    exact ⟨false, s, rfl, hs, hr, fun _ => hshow, fun h => by cases h⟩
  · rw [if_neg halign]
    dsimp only
    obtain ⟨c4, s4, hstep4, hs4, hr4, hens4, ht4⟩ := ensureTable_spec (p := []) (i := idxPml4 v) hf hs hr rfl t4
      (by simp [b4])
    have hshow4 := hens4.shows t4 hshow
    rw [show ensureTable alloc pml4Virt (idxPml4 v) (pdptVirt (idxPml4 v)) s = some (c4, s4) from hstep4,
      Option.bind_some]
    cases c4 with
    | false => exact ⟨false, s4, rfl, hs4, hr4, fun _ => hshow4, fun h => by cases h⟩
    | true =>
      obtain ⟨f4, hf4⟩ := ht4 rfl
      obtain ⟨c3, s3, hstep3, hs3, hr3, hens3, ht3⟩ := ensureTable_spec (p := [idxPml4 v]) (i := idxPdpt v) hf hs4 hr4
        hf4 t3 (by simp [b4, b3])
      have hshow3 := hens3.shows t3 hshow4
      simp only [Bool.not_true, Bool.false_eq_true, if_false]
      rw [show ensureTable alloc (pdptVirt (idxPml4 v)) (idxPdpt v) (pdVirtAt (idxPml4 v) (idxPdpt v)) s4 =
        some (c3, s3) from hstep3, Option.bind_some]
      cases c3 with
      | false => exact ⟨false, s3, rfl, hs3, hr3, fun _ => hshow3, fun h => by cases h⟩
      | true =>
        obtain ⟨f3, hf3⟩ := ht3 rfl
        obtain ⟨c2, s2, hstep2, hs2, hr2, hens2, ht2⟩ := ensureTable_spec (p := [idxPdpt v, idxPml4 v]) (i := idxPd v) hf
          hs3 hr3 hf3 t2 (by simp [b4, b3, b2])
        have hshow2 := hens2.shows t2 hshow3
        simp only [Bool.not_true, Bool.false_eq_true, if_false]
        rw [show ensureTable alloc (pdVirtAt (idxPml4 v) (idxPdpt v)) (idxPd v)
          (ptVirtAt (idxPml4 v) (idxPdpt v) (idxPd v)) s3 = some (c2, s2) from hstep2, Option.bind_some]
        cases c2 with
        | false => exact ⟨false, s2, rfl, hs2, hr2, fun _ => hshow2, fun h => by cases h⟩
        | true =>
          obtain ⟨f2, hf2⟩ := ht2 rfl
          simp only [Bool.not_true, Bool.false_eq_true, if_false]
          rw [write_pt hr2 hf2, Option.map_some]
          obtain ⟨hpres, haddr⟩ := leafEntry_spec phys flags
          obtain ⟨hs1, hr1, hshow1⟩ := hs2.leaf hr2 hv hshow2 hf2
            (pteAddr phys ||| pagePresent ||| flags &&& pageFlagMask)
          rw [if_pos hpres, haddr] at hshow1
          refine ⟨true, _, rfl, hs1, hr1, (fun h => by cases h), fun _ => ⟨?_, ?_, hshow1⟩⟩
          · exact Nat.dvd_of_mod_eq_zero (by omega)
          · rw [← (hshow2 v hv).1]
            exact (at_of_pt hf2).1

end

end

end X64
end Mm
end AmitX
