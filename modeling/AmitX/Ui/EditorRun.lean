import AmitX.Ui.EditorSpec
import Mathlib.Data.List.Induction
/-!
# EditorRun — the editor over whole runs

The buffer refines the text with a cursor in a run exactly when the heap gives what the run asks for: the first block,
and twice the capacity whenever an insertion finds the block full.
-/
namespace AmitX
namespace Ui

open Bytes Lines

variable {path : List Byte} {answer : Option Mem} {ops : List EditOp}

def effectsOn (t : Text Byte) (ops : List EditOp) : Text Byte := ops.foldl (fun t op => op.effect t) t

def effects (ops : List EditOp) : Text Byte := effectsOn ⟨[], []⟩ ops

/-- **The buffer refines the text**: after each operation of the run the buffer has room behind the text, the text and
its cursor are what the operations make of them, and `cx` and `cy` are the cursor's. -/
def RefinesText (path : List Byte) (answer : Option Mem) (ops : List EditOp) : Prop :=
  ∀ before op after, ops = before ++ op :: after →
    ∃ s, edRun (edInit path answer) (before ++ [op]) = .ok s ∧ s.Inv ∧ s.text = effects (before ++ [op])

/-- Every allocation that the run from `s` asks for is granted. -/
def Granted (s : Editor) (ops : List EditOp) : Prop :=
  ∀ before op after s', ops = before ++ op :: after → edRun s before = .ok s' → op.Granted s'

def HeapGives (path : List Byte) (answer : Option Mem) (ops : List EditOp) : Prop :=
  ops = [] ∨ ((edMalloc answer 1024).isSome = true ∧ Granted (edInit path answer) ops)

theorem edRun_concat (s : Editor) (ops : List EditOp) (op : EditOp) :
    edRun s (ops ++ [op]) = (edRun s ops).bind (fun s => edStep s op) := by
  rw [edRun, List.foldlM_append]
  refine congrArg (Except.bind _) (funext fun s => ?_)
  rw [List.foldlM_cons]
  cases edStep s op <;> rfl

theorem effectsOn_concat (t : Text Byte) (ops : List EditOp) (op : EditOp) :
    effectsOn t (ops ++ [op]) = op.effect (effectsOn t ops) := by
  rw [effectsOn, List.foldl_append]
  rfl

theorem edInit_inv (path : List Byte) (h : (edMalloc answer 1024).isSome = true) :
    (edInit path answer).Inv ∧ (edInit path answer).text = ⟨[], []⟩ ∧ (edInit path answer).capacity = 1024 := by
  obtain ⟨block, hb⟩ := Option.isSome_iff_exists.1 h
  rw [edInit, hb]
  exact ⟨⟨Nat.le_refl _, by dsimp only; omega, rfl, rfl⟩, rfl, rfl⟩

theorem edInit_refused (path : List Byte) (h : (edMalloc answer 1024).isSome ≠ true) :
    (edInit path answer).capacity = 0 ∧ (edInit path answer).size = 0 ∧ (edInit path answer).cursor = 0 := by
  rw [edInit, Option.not_isSome_iff_eq_none.1 h]
  exact ⟨rfl, rfl, rfl⟩

theorem Granted.left {s : Editor} {before after : List EditOp} (h : Granted s (before ++ after)) :
    Granted s before := by
  rintro front op back s' rfl hs
  exact h front op (back ++ after) s' (by rw [List.append_assoc, List.cons_append]) hs

theorem edRun_ok {s : Editor} (h : s.Inv) (hg : Granted s ops) : ∃ s', edRun s ops = .ok s' ∧ s'.Inv ∧
    s'.text = effectsOn s.text ops ∧ s'.path = s.path ∧
    (s'.dirty = false → s.dirty = false ∧ s'.text.all = s.text.all) := by
  induction ops using List.reverseRecOn with
  | nil => exact ⟨s, rfl, h, rfl, rfl, fun hd => ⟨hd, rfl⟩⟩
  | append_singleton ops op ih =>
    obtain ⟨s₁, hrun, hinv, htext, hpath, hclean⟩ := ih hg.left
    obtain ⟨s', hstep, hdoes⟩ := edStep_ok hinv (hg ops op [] s₁ rfl hrun)
    refine ⟨s', ?_, hdoes.inv, ?_, hdoes.path.trans hpath, fun hd => ?_⟩
    · rw [edRun_concat, hrun]
      exact hstep
    · rw [hdoes.text, htext, effectsOn_concat]
    · obtain ⟨hd₁, hall₁⟩ := hdoes.clean hd
      obtain ⟨hd₀, hall₀⟩ := hclean hd₁
      exact ⟨hd₀, hall₁.trans hall₀⟩

theorem edStep_refused {s s' : Editor} (hcap : s.capacity = 0) (hsize : s.size = 0) (hcur : s.cursor = 0) :
    ∀ {op : EditOp}, edStep s op = .ok s' → s'.capacity = 0 := by
  have hstart : edLineStart s s.cursor = .ok 0 := by rw [hcur, edLineStart]
  have hend : edLineEnd s s.cursor = .ok 0 := by rw [edLineEnd, hsize, hcur, lineEndFrom]
  have hzero : Editor.refresh { s with cursor := 0 } = .ok (s.goTo 0) := refresh_ok (Nat.zero_le _)
  intro op hstep
  cases op with
  | insert c answer =>
    rw [edStep, edInsert_hang hcap] at hstep
    cases hstep
  | delete =>
    rw [edStep, edDelete, if_pos hcur] at hstep
    cases hstep
    exact hcap
  | up =>
    rw [edStep, edCursorUp, edPrevLineStart, hstart, ok_bind, if_pos rfl, hcur] at hstep
    cases hstep
    exact hcap
  | down =>
    rw [edStep, edCursorDown, edNextLineStart, hend, ok_bind, if_pos (Nat.le_of_eq hsize)] at hstep
    change (if s.size = s.size ∧ s.cursor = s.size then _ else _) = _ at hstep
    rw [if_pos ⟨rfl, hcur.trans hsize.symm⟩] at hstep
    cases hstep
    exact hcap
  | left =>
    rw [edStep, edCursorLeft, if_neg (by omega)] at hstep
    cases hstep
    exact hcap
  | right =>
    rw [edStep, edCursorRight, if_neg (by omega)] at hstep
    cases hstep
    exact hcap
  | home =>
    rw [edStep, edCursorHome, hstart, ok_bind, hzero] at hstep
    cases hstep
    rw [goTo_capacity, hcap]
  | toEnd =>
    rw [edStep, edCursorEnd, hend, ok_bind, hzero] at hstep
    cases hstep
    rw [goTo_capacity, hcap]

/-- **The buffer refines the text exactly while the heap gives what the run asks for**: otherwise an insertion writes
behind the block, or there is no block at all. -/
theorem refinesText_iff : RefinesText path answer ops ↔ HeapGives path answer ops := by
  constructor
  · intro h
    by_cases hempty : ops = []
    · exact Or.inl hempty
    have hfirst : (edMalloc answer 1024).isSome = true := by
      by_contra hno
      obtain ⟨hcap, hsize, hcur⟩ := edInit_refused path hno
      obtain ⟨op, rest, rfl⟩ := List.exists_cons_of_ne_nil hempty
      obtain ⟨s, hrun, hinv, -⟩ := h [] op rest rfl
      rw [edRun_concat] at hrun
      have hlt := hinv.size_lt
      rw [edStep_refused hcap hsize hcur hrun] at hlt
      exact Nat.not_lt_zero _ hlt
    refine Or.inr ⟨hfirst, ?_⟩
    intro before op after s he hs
    have hinv : s.Inv := by
      rcases List.eq_nil_or_concat before with rfl | ⟨front, last, rfl⟩
      · cases hs
        exact (edInit_inv path hfirst).1
      · have hsplit : ops = front ++ last :: op :: after := by
          rw [he, List.concat_eq_append, List.append_assoc]
          rfl
        obtain ⟨s₁, hs₁, hinv, -⟩ := h front last (op :: after) hsplit
        rw [List.concat_eq_append, hs₁] at hs
        cases hs
        exact hinv
    by_contra hno
    obtain ⟨s', hrun, -, -⟩ := h before op after he
    rw [edRun_concat, hs] at hrun
    cases op with
    | insert c answer =>
      change edInsert answer c s = .ok s' at hrun
      rw [edInsert_refused hinv hno] at hrun
      cases hrun
    | _ => exact hno trivial
  · rintro (rfl | ⟨hfirst, hg⟩)
    · intro before op after he
      cases before <;> cases he
    · rintro before op after rfl
      obtain ⟨hinv, htext, -⟩ := edInit_inv path hfirst
      rw [← List.singleton_append, ← List.append_assoc] at hg
      obtain ⟨s, hrun, hinv', htext', -⟩ := edRun_ok hinv hg.left
      rw [htext] at htext'
      exact ⟨s, hrun, hinv', htext'⟩

theorem inserts_fit (path : List Byte) (h : (edMalloc answer 1024).isSome = true) (c : Byte) : ∀ {n : Nat}, n < 1024 →
    ∃ s, edRun (edInit path answer) (List.replicate n (.insert c none)) = .ok s ∧ s.Inv ∧ s.size = n ∧
      s.capacity = 1024
  | 0, _ => by
    obtain ⟨hinv, -, hcap⟩ := edInit_inv path h
    obtain ⟨block, hb⟩ := Option.isSome_iff_exists.1 h
    refine ⟨_, rfl, hinv, ?_, hcap⟩
    rw [edInit, hb]
  | n + 1, hn => by
    obtain ⟨s, hrun, hinv, hsize, hcap⟩ := inserts_fit path h c (Nat.lt_of_succ_lt hn)
    have hgrow : edGrow none s (s.size + 2) = .ok s := edGrow_fits (by omega)
    obtain ⟨s', hstep, hdoes, hsize', hcap'⟩ := edInsert_grown (c := c) hinv hgrow (by omega) (fun _ _ => rfl)
    refine ⟨s', ?_, hdoes.inv, by omega, by omega⟩
    rw [List.replicate_succ', edRun_concat, hrun]
    exact hstep

/-- When the 1024th insertion is refused a larger block, it writes behind the first one. -/
theorem not_refinesText : ¬∀ (path : List Byte) (answer : Option Mem) (ops : List EditOp),
    RefinesText path answer ops := by
  intro h
  have hfirst : (edMalloc (some fun _ => 0) 1024).isSome = true := by decide
  obtain ⟨s, hrun, hinv, hsize, hcap⟩ := inserts_fit [] hfirst 97#8 (show 1023 < 1024 by omega)
  obtain ⟨s', hrun', -, -⟩ := h [] (some fun _ => 0) (List.replicate 1023 (.insert 97#8 none) ++ [.insert 97#8 none])
    (List.replicate 1023 (.insert 97#8 none)) (.insert 97#8 none) [] rfl
  have hno : ¬EditOp.Granted s (.insert 97#8 none) := by
    rintro (hfit | hsome)
    · omega
    · rw [edMalloc] at hsome
      split at hsome <;> cases hsome
  rw [edRun_concat, hrun] at hrun'
  change edInsert none 97#8 s = .ok s' at hrun'
  rw [edInsert_refused hinv hno] at hrun'
  cases hrun'

end Ui
end AmitX
