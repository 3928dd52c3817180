import Mathlib.Tactic.Common
import Mathlib.Data.List.DropRight
/-!
# Lines — a text with a cursor

A text is what stands before the cursor and what stands behind it; lines are kept apart by a separator.  An insertion and
a deletion are made before the cursor, and the other operations put the cursor somewhere else in the same text.
`column_up` and `column_down` say what a vertical move keeps: the column, cut to the length of the line it goes to.
-/

namespace Lines

variable {α : Type}

section

variable [DecidableEq α]

def lastLine (sep : α) (l : List α) : List α := l.rtakeWhile (fun c => decide (c ≠ sep))

def firstLine (sep : α) (l : List α) : List α := l.takeWhile (fun c => decide (c ≠ sep))

variable {sep c : α} {l m : List α}

@[simp] theorem lastLine_concat_sep : lastLine sep (l ++ [sep]) = [] := by
  simp [lastLine]

theorem lastLine_concat (h : c ≠ sep) : lastLine sep (l ++ [c]) = lastLine sep l ++ [c] := by
  simp [lastLine, h]

theorem length_lastLine_le (sep : α) (l : List α) : (lastLine sep l).length ≤ l.length :=
  (List.rtakeWhile_suffix _ l).length_le

theorem sep_not_mem_lastLine (sep : α) (l : List α) : sep ∉ lastLine sep l := by
  intro h
  have := List.mem_rtakeWhile_imp h
  simp at this

@[simp] theorem firstLine_cons_sep : firstLine sep (sep :: l) = [] := by
  simp [firstLine]

theorem firstLine_cons (h : c ≠ sep) : firstLine sep (c :: l) = c :: firstLine sep l := by
  simp [firstLine, h]

theorem length_firstLine_le (sep : α) (l : List α) : (firstLine sep l).length ≤ l.length :=
  (List.takeWhile_prefix _).length_le

theorem lastLine_eq_self (h : sep ∉ l) : lastLine sep l = l := by
  refine List.rtakeWhile_eq_self_iff.2 (fun x hx => ?_)
  simp only [decide_eq_true_eq]
  rintro rfl
  exact h hx

theorem lastLine_append_sep : ∀ {m : List α}, sep ∉ m → lastLine sep (l ++ sep :: m) = m := by
  intro m hm
  induction m using List.reverseRecOn with
  | nil => exact lastLine_concat_sep
  | append_singleton m c ih =>
    rw [List.mem_append, not_or, List.mem_singleton] at hm
    rw [show l ++ sep :: (m ++ [c]) = (l ++ sep :: m) ++ [c] by simp, lastLine_concat (Ne.symm hm.2), ih hm.1]

theorem lastLine_cases (sep : α) (l : List α) :
    (sep ∉ l ∧ lastLine sep l = l) ∨ ∃ q, l = q ++ sep :: lastLine sep l := by
  by_cases h : sep ∈ l
  · obtain ⟨q, r, he, hr⟩ := List.eq_append_cons_of_mem (List.mem_reverse.2 h)
    have hl : l = r.reverse ++ sep :: q.reverse := by
      have := congrArg List.reverse he
      simpa using this
    refine Or.inr ⟨r.reverse, ?_⟩
    have hq : sep ∉ q.reverse := by rwa [List.mem_reverse]
    rw [hl, lastLine_append_sep hq]
  · exact Or.inl ⟨h, lastLine_eq_self h⟩

theorem count_lastLine (sep : α) (l : List α) : (l.take (l.length - (lastLine sep l).length)).count sep = l.count sep := by
  rcases lastLine_cases sep l with ⟨h, he⟩ | ⟨q, he⟩
  · rw [he, Nat.sub_self, List.take_zero, List.count_nil, List.count_eq_zero.2 h]
  · have hm := List.count_eq_zero.2 (sep_not_mem_lastLine sep l)
    generalize hl : lastLine sep l = m at he hm
    subst he
    have hcount : (q ++ sep :: m).count sep = (q ++ [sep]).count sep := by
      rw [show q ++ sep :: m = (q ++ [sep]) ++ m by simp, List.count_append, hm, Nat.add_zero]
    rw [hcount, show q ++ sep :: m = (q ++ [sep]) ++ m by simp, List.length_append, Nat.add_sub_cancel, List.take_left]

theorem firstLine_append (h : sep ∉ l) : firstLine sep (l ++ m) = l ++ firstLine sep m := by
  induction l with
  | nil => rfl
  | cons c l ih =>
    rw [List.mem_cons, not_or] at h
    rw [List.cons_append, firstLine_cons (Ne.symm h.1), ih h.2, List.cons_append]

end

/-! ## The text and its cursor -/

structure Text (α : Type) where
  before : List α
  after : List α

namespace Text

def all (t : Text α) : List α := t.before ++ t.after

def insert (c : α) (t : Text α) : Text α := ⟨t.before ++ [c], t.after⟩

def delete (t : Text α) : Text α := ⟨t.before.dropLast, t.after⟩

def moveTo (k : Nat) (t : Text α) : Text α := ⟨t.all.take k, t.all.drop k⟩

def left (t : Text α) : Text α := t.moveTo (t.before.length - 1)

def right (t : Text α) : Text α := t.moveTo (t.before.length + 1)

@[simp] theorem all_moveTo (k : Nat) (t : Text α) : (t.moveTo k).all = t.all := List.take_append_drop k t.all

theorem moveTo_length (t : Text α) : t.moveTo t.before.length = t := by
  obtain ⟨b, a⟩ := t
  simp [moveTo, all]

theorem moveTo_of_after_nil {t : Text α} {k : Nat} (h : t.after = []) (hk : t.before.length ≤ k) : t.moveTo k = t := by
  obtain ⟨b, a⟩ := t
  subst h
  simp only [moveTo, all, List.append_nil, List.take_of_length_le hk, List.drop_of_length_le hk]

variable [DecidableEq α] (sep : α) (t : Text α)

def column : Nat := (lastLine sep t.before).length

def line : Nat := t.before.count sep

def start : Nat := t.before.length - t.column sep

def stop : Nat := t.before.length + (firstLine sep t.after).length

def home : Text α := t.moveTo (t.start sep)

def toEnd : Text α := t.moveTo (t.stop sep)

def above : List α := lastLine sep (t.all.take (t.start sep - 1))

def below : List α := firstLine sep (t.all.drop (t.stop sep + 1))

def up : Text α :=
  if t.start sep = 0 then t
  else t.moveTo (t.start sep - 1 - (t.above sep).length + min (t.column sep) (t.above sep).length)

def down : Text α :=
  if t.stop sep < t.all.length then t.moveTo (t.stop sep + 1 + min (t.column sep) (t.below sep).length)
  else t.moveTo t.all.length

theorem column_le : t.column sep ≤ t.before.length := length_lastLine_le sep _

theorem stop_le : t.stop sep ≤ t.all.length := by
  have h := length_firstLine_le sep t.after
  rw [all, List.length_append, stop]
  omega

variable {sep t}

theorem start_eq_zero (h : t.start sep = 0) : sep ∉ t.before := by
  rcases lastLine_cases sep t.before with ⟨hn, -⟩ | ⟨q, he⟩
  · exact hn
  · have hlen := congrArg List.length he
    rw [List.length_append, List.length_cons] at hlen
    rw [start, column] at h
    omega

theorem drop_above (h : t.start sep ≠ 0) :
    ∃ r, t.all.drop (t.start sep - 1 - (t.above sep).length) = t.above sep ++ sep :: r := by
  rcases lastLine_cases sep t.before with ⟨-, he⟩ | ⟨q, he⟩
  · rw [start, column, he, Nat.sub_self] at h
    exact absurd rfl h
  · have hlen := congrArg List.length he
    rw [List.length_append, List.length_cons] at hlen
    have hq : t.start sep - 1 = q.length := by
      rw [start, column]
      omega
    have hall : t.all = q ++ sep :: (lastLine sep t.before ++ t.after) := by
      conv_lhs => rw [all, he]
      rw [List.append_assoc, List.cons_append]
    have habove : t.above sep = lastLine sep q := by rw [above, hq, hall, List.take_left]
    obtain ⟨p, hp⟩ : lastLine sep q <:+ q := List.rtakeWhile_suffix _ q
    refine ⟨lastLine sep t.before ++ t.after, ?_⟩
    have hplen := congrArg List.length hp
    rw [List.length_append] at hplen
    rw [habove, hq, hall]
    conv_lhs => rw [← hp]
    rw [show (p ++ lastLine sep q).length - (lastLine sep (p ++ lastLine sep q)).length = p.length by
      rw [hp]; omega, List.append_assoc, List.drop_left]

end Text

end Lines
