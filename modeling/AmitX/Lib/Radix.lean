import Mathlib.Tactic.Common
/-!
# Radix — tables of words that form a tree

A memory holds tables of words, and a word may lead to a table (`child`).  A path is a list of indices, the last one
first; `table` is the table at its end and `word` the word there, `blank` where a table is missing.  `P` are the paths
that are used as paths to tables.  When different paths lead to different tables (`Tree`), writing a word changes the
word of one path only, whether the word leads nowhere (`setWord`) or to a new table of blank words (`link`).
-/

namespace Radix

variable {F I W : Type} (child : W → Option F) (blank : W)

def table (ram : F → I → W) (root : F) : List I → Option F
  | [] => some root
  | i :: p => (table ram root p).bind fun f => child (ram f i)

def word (ram : F → I → W) (root : F) : List I → W
  | [] => blank
  | i :: p =>
    match table child ram root p with
    | some f => ram f i
    | none => blank

def setWord [DecidableEq F] [DecidableEq I] (f : F) (i : I) (w : W) (ram : F → I → W) : F → I → W :=
  fun g j => if g = f ∧ j = i then w else ram g j

def clear [DecidableEq F] (f : F) (ram : F → I → W) : F → I → W := fun g j => if g = f then blank else ram g j

def Tree (P : List I → Prop) (ram : F → I → W) (root : F) : Prop :=
  ∀ p q f, P p → P q → table child ram root p = some f → table child ram root q = some f → p = q

section

variable {child blank} {P : List I → Prop} {ram : F → I → W} {root f g : F} {i j : I} {w : W} {p q : List I}

theorem table_cons (h : table child ram root p = some f) : table child ram root (i :: p) = child (ram f i) := by
  rw [table, h]
  rfl

theorem word_cons (h : table child ram root p = some f) : word child blank ram root (i :: p) = ram f i := by
  rw [word, h]

theorem word_of_none (h : table child ram root p = none) : word child blank ram root (i :: p) = blank := by
  rw [word, h]

theorem table_eq_child (hb : child blank = none) : table child ram root (i :: p) =
    child (word child blank ram root (i :: p)) := by
  cases h : table child ram root p with
  | none => rw [table, h, word_of_none h, hb]; rfl
  | some f => rw [table_cons h, word_cons h]

theorem clear_self [DecidableEq F] : clear blank f ram f j = blank := if_pos rfl

theorem clear_of_ne [DecidableEq F] (h : g ≠ f) : clear blank f ram g j = ram g j := if_neg h

theorem not_below : ¬j :: i :: p = i :: p := by
  intro he
  have := congrArg List.length he
  simp at this

theorem path_ne (hf : table child ram root p = some f) (hg : table child ram root q = none) : ¬j :: q = i :: p := by
  intro he
  injection he with _ he
  rw [he, hf] at hg
  cases hg

variable [DecidableEq F] [DecidableEq I]

theorem setWord_clear (h : f ≠ g) : setWord f i w (clear blank g ram) = clear blank g (setWord f i w ram) := by
  funext k l
  unfold setWord clear
  by_cases hk : k = g
  · rw [if_pos hk, if_pos hk, if_neg (fun h' => h (h'.1.symm.trans hk))]
  · rw [if_neg hk, if_neg hk]

section

variable (hP : ∀ i p, P (i :: p) → P p) (ht : Tree child P ram root) (hp : P p)
  (hf : table child ram root p = some f)

include ht hp hf

theorem setWord_path (hq : P q) (hg : table child ram root q = some g) :
    setWord f i w ram g j = if j :: q = i :: p then w else ram g j := by
  unfold setWord
  by_cases he : g = f ∧ j = i
  · obtain ⟨rfl, rfl⟩ := he
    have hqp : q = p := ht q p g hq hp hg hf
    rw [if_pos ⟨rfl, rfl⟩, if_pos (by rw [hqp])]
  · rw [if_neg he, if_neg]
    intro hc
    injection hc with hji hqp
    subst hqp
    rw [hf] at hg
    injection hg with hg
    exact he ⟨hg.symm, hji⟩

theorem table_setWord_of_not_suffix (hP : ∀ i p, P (i :: p) → P p) : ∀ q, P q → ¬i :: p <:+ q →
    table child (setWord f i w ram) root q = table child ram root q
  | [], _, _ => rfl
  | j :: q, hq, hs => by
    have hq' := hP j q hq
    have ih := table_setWord_of_not_suffix hP q hq' (fun h => hs (h.trans (List.suffix_cons j q)))
    cases hg : table child ram root q with
    | none => rw [table, table, ih, hg]; rfl
    | some g =>
      have hne : ¬j :: q = i :: p := fun he => hs (he ▸ List.suffix_refl _)
      rw [table_cons (ih.trans hg), table_cons hg, setWord_path ht hp hf hq' hg, if_neg hne]

theorem table_setWord_self (hP : ∀ i p, P (i :: p) → P p) :
    table child (setWord f i w ram) root (i :: p) = child w := by
  have hnot : ¬i :: p <:+ p := by
    intro h
    exact absurd h.length_le (Nat.not_succ_le_self p.length)
  have hsame := table_setWord_of_not_suffix (w := w) ht hp hf hP p hp hnot
  rw [table_cons (hsame.trans hf)]
  exact congrArg child (if_pos ⟨rfl, rfl⟩)

/-! ## A word that leads nowhere -/

section

variable (hw : P (i :: p) → child w = none ∧ child (ram f i) = none)

include hP hw

theorem table_setWord : ∀ q, P q → table child (setWord f i w ram) root q = table child ram root q
  | [], _ => rfl
  | j :: q, hq => by
    have hq' := hP j q hq
    have ih := table_setWord q hq'
    cases hg : table child ram root q with
    | none => rw [table, table, ih, hg]; rfl
    | some g =>
      rw [table_cons (ih.trans hg), table_cons hg, setWord_path ht hp hf hq' hg]
      by_cases he : j :: q = i :: p
      · rw [if_pos he]
        injection he with hji hqp
        subst hji hqp
        rw [hf] at hg
        injection hg with hg
        obtain ⟨hnew, hold⟩ := hw hq
        rw [hnew, ← hg, hold]
      · rw [if_neg he]

theorem word_setWord (hq : P q) (j : I) : word child blank (setWord f i w ram) root (j :: q) =
    if j :: q = i :: p then w else word child blank ram root (j :: q) := by
  have htab := table_setWord hP ht hp hf hw q hq
  cases hg : table child ram root q with
  | none => rw [if_neg (path_ne hf hg), word_of_none hg, word_of_none (htab.trans hg)]
  | some g => rw [word_cons hg, word_cons (htab.trans hg), setWord_path ht hp hf hq hg]

theorem tree_setWord : Tree child P (setWord f i w ram) root := by
  intro p' q' g hp' hq' h1 h2
  rw [table_setWord hP ht hp hf hw p' hp'] at h1
  rw [table_setWord hP ht hp hf hw q' hq'] at h2
  exact ht p' q' g hp' hq' h1 h2

end

/-! ## A new table -/

section

variable (hold : child (ram f i) = none) (hnew : child w = some g) (hb : child blank = none)
  (hfresh : ∀ q, P q → table child ram root q ≠ some g)

include hP hold hnew hb hfresh

theorem table_link : ∀ q, P q → table child (clear blank g (setWord f i w ram)) root q =
    if q = i :: p then some g else table child ram root q
  | [], _ => by rw [if_neg (by simp)]; rfl
  | j :: q, hq => by
    have hq' := hP j q hq
    have ih := table_link q hq'
    by_cases hqi : q = i :: p
    · -- below the new table
      subst hqi
      rw [if_pos rfl] at ih
      have hnone : table child ram root (i :: p) = none := by rw [table_cons hf, hold]
      rw [if_neg not_below, table_cons ih, clear_self, hb, table, hnone]
      rfl
    · rw [if_neg hqi] at ih
      cases hh : table child ram root q with
      | none => rw [if_neg (path_ne hf hh), table, ih, hh, table, hh]; rfl
      | some h =>
        have hhg : h ≠ g := fun he => hfresh q hq' (he ▸ hh)
        rw [table_cons (ih.trans hh), clear_of_ne hhg, table_cons hh, setWord_path ht hp hf hq' hh]
        by_cases he : j :: q = i :: p
        · rw [if_pos he, if_pos he, hnew]
        · rw [if_neg he, if_neg he]

theorem word_link (hq : P q) (j : I) : word child blank (clear blank g (setWord f i w ram)) root (j :: q) =
    if j :: q = i :: p then w else word child blank ram root (j :: q) := by
  have htab := table_link hP ht hp hf hold hnew hb hfresh q hq
  by_cases hqi : q = i :: p
  · subst hqi
    rw [if_pos rfl] at htab
    have hnone : table child ram root (i :: p) = none := by rw [table_cons hf, hold]
    rw [if_neg not_below, word_cons htab, clear_self, word_of_none hnone]
  · rw [if_neg hqi] at htab
    cases hh : table child ram root q with
    | none => rw [if_neg (path_ne hf hh), word_of_none hh, word_of_none (htab.trans hh)]
    | some h =>
      have hhg : h ≠ g := fun he => hfresh q hq (he ▸ hh)
      rw [word_cons hh, word_cons (htab.trans hh), clear_of_ne hhg, setWord_path ht hp hf hq hh]

theorem tree_link : Tree child P (clear blank g (setWord f i w ram)) root := by
  intro p' q' h hp' hq' h1 h2
  rw [table_link hP ht hp hf hold hnew hb hfresh p' hp'] at h1
  rw [table_link hP ht hp hf hold hnew hb hfresh q' hq'] at h2
  by_cases hpi : p' = i :: p
  · rw [if_pos hpi] at h1
    injection h1 with h1
    by_cases hqi : q' = i :: p
    · exact hpi.trans hqi.symm
    · rw [if_neg hqi] at h2
      exact absurd (h1 ▸ h2) (hfresh q' hq')
  · rw [if_neg hpi] at h1
    by_cases hqi : q' = i :: p
    · rw [if_pos hqi] at h2
      injection h2 with h2
      exact absurd (h2 ▸ h1) (hfresh p' hp')
    · rw [if_neg hqi] at h2
      exact ht p' q' h hp' hq' h1 h2

end

end

end

end Radix
