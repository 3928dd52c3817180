import AmitX.Ui.Editor
/-!
# EditorSpec — what each operation does to the text

While the buffer has room behind its text, a scan of the lines stays in it and finds the starts and ends of the lines of
the text.  Each operation is then the operation on the text and its cursor, and an insertion needs an allocation exactly
when two bytes more than the text do not fit.
-/
namespace AmitX
namespace Ui

open Bytes Loop Lines

variable {s : Editor} {a b n k pos : Nat} {c : Byte} {answer : Option Mem}

@[simp] theorem ok_bind {α β : Type} (x : α) (f : α → Except Fault β) : (Except.ok x >>= f) = f x := rfl

theorem touch_ok (h : a + n ≤ s.capacity) : s.touch a n = .ok () := if_pos (Or.inr h)

theorem get_ok (h : pos < s.capacity) : s.get pos = .ok (s.data pos) := by
  rw [Editor.get, touch_ok h]
  rfl

theorem move_ok (ha : a + n ≤ s.capacity) (hb : b + n ≤ s.capacity) :
    s.move a b n = .ok { s with data := copy s.data a s.data b n } := by
  rw [Editor.move, touch_ok ha, touch_ok hb]
  rfl

theorem put_ok (h : pos < s.capacity) : s.put pos c = .ok { s with data := fill s.data pos 1 c } := by
  rw [Editor.put, touch_ok h]
  rfl

/-! ## Scans -/

theorem edLineStart_ok : ∀ {pos : Nat}, pos ≤ s.capacity →
    edLineStart s pos = .ok (pos - (lastLine newline (slice s.data 0 pos)).length)
  | 0, _ => rfl
  | pos + 1, h => by
    rw [edLineStart, get_ok h, ok_bind, slice_succ, Nat.zero_add]
    split
    · next hc =>
      rw [hc, lastLine_concat_sep]
      rfl
    · next hc =>
      rw [edLineStart_ok (by omega), lastLine_concat hc, List.length_append, List.length_singleton,
        Nat.add_sub_add_right]

theorem lineEndFrom_ok : ∀ {n pos : Nat}, pos + n ≤ s.capacity →
    lineEndFrom s n pos = .ok (pos + (firstLine newline (slice s.data pos n)).length)
  | 0, _, _ => rfl
  | n + 1, pos, h => by
    rw [lineEndFrom, get_ok (by omega), ok_bind, slice_cons]
    split
    · next hc =>
      rw [hc, firstLine_cons_sep]
      rfl
    · next hc =>
      rw [lineEndFrom_ok (by omega), firstLine_cons hc, List.length_cons, Nat.add_assoc, Nat.add_comm 1]

theorem edLineEnd_ok (hp : pos ≤ s.size) (h : s.size ≤ s.capacity) :
    edLineEnd s pos = .ok (pos + (firstLine newline (slice s.data pos (s.size - pos))).length) :=
  lineEndFrom_ok (by omega)

theorem countLines_ok : ∀ {n : Nat}, n ≤ s.capacity → countLines s n = .ok ((slice s.data 0 n).count newline)
  | 0, _ => rfl
  | n + 1, h => by
    rw [countLines, countLines_ok (by omega), ok_bind, get_ok h, ok_bind, slice_succ, Nat.zero_add, List.count_append,
      List.count_singleton]
    by_cases hc : s.data n = newline
    · simp [hc, pure, Except.pure]
    · simp [hc, pure, Except.pure]

/-! ## The cursor of the text -/

@[simp] theorem edEnsureVisible_data : (edEnsureVisible s).data = s.data := by
  unfold edEnsureVisible
  split_ifs <;> rfl

@[simp] theorem edEnsureVisible_size : (edEnsureVisible s).size = s.size := by
  unfold edEnsureVisible
  split_ifs <;> rfl

@[simp] theorem edEnsureVisible_capacity : (edEnsureVisible s).capacity = s.capacity := by
  unfold edEnsureVisible
  split_ifs <;> rfl

@[simp] theorem edEnsureVisible_cursor : (edEnsureVisible s).cursor = s.cursor := by
  unfold edEnsureVisible
  split_ifs <;> rfl

@[simp] theorem edEnsureVisible_cx : (edEnsureVisible s).cx = s.cx := by
  unfold edEnsureVisible
  split_ifs <;> rfl

@[simp] theorem edEnsureVisible_cy : (edEnsureVisible s).cy = s.cy := by
  unfold edEnsureVisible
  split_ifs <;> rfl

@[simp] theorem edEnsureVisible_path : (edEnsureVisible s).path = s.path := by
  unfold edEnsureVisible
  split_ifs <;> rfl

@[simp] theorem edEnsureVisible_dirty : (edEnsureVisible s).dirty = s.dirty := by
  unfold edEnsureVisible
  split_ifs <;> rfl

def Editor.shown (s : Editor) : Editor :=
  edEnsureVisible { s with cx := s.text.column newline, cy := s.text.line newline }

@[simp] theorem shown_size : s.shown.size = s.size := edEnsureVisible_size

@[simp] theorem shown_capacity : s.shown.capacity = s.capacity := edEnsureVisible_capacity

@[simp] theorem shown_path : s.shown.path = s.path := edEnsureVisible_path

@[simp] theorem shown_dirty : s.shown.dirty = s.dirty := edEnsureVisible_dirty

@[simp] theorem text_shown : s.shown.text = s.text := by
  simp [Editor.shown, Editor.text]

theorem inv_shown (hc : s.cursor ≤ s.size) (hs : s.size < s.capacity) : s.shown.Inv where
  cursor_le := by simpa [Editor.shown] using hc
  size_lt := by simpa using hs
  cx_eq := by
    rw [text_shown]
    exact edEnsureVisible_cx
  cy_eq := by
    rw [text_shown]
    exact edEnsureVisible_cy

theorem refresh_ok (h : s.cursor ≤ s.capacity) : s.refresh = .ok s.shown := by
  have hlen : (lastLine newline (slice s.data 0 s.cursor)).length ≤ s.cursor := by
    have := length_lastLine_le newline (slice s.data 0 s.cursor)
    rwa [length_slice] at this
  have htake : slice s.data 0 (s.cursor - (lastLine newline (slice s.data 0 s.cursor)).length) =
      (slice s.data 0 s.cursor).take (s.cursor - (lastLine newline (slice s.data 0 s.cursor)).length) := by
    rw [slice, slice, ← List.map_take, List.take_range, Nat.min_eq_left (Nat.sub_le _ _)]
  have hcount := count_lastLine newline (slice s.data 0 s.cursor)
  rw [length_slice] at hcount
  rw [Editor.refresh, edUpdateCxCy, edLineStart_ok h, ok_bind, countLines_ok (by omega), ok_bind, htake, hcount,
    Nat.sub_sub_self hlen]
  rfl

theorem length_before : s.text.before.length = s.cursor := length_slice _ _ _

theorem all_text (h : s.cursor ≤ s.size) : s.text.all = slice s.data 0 s.size := by
  have := slice_append s.data 0 s.cursor (s.size - s.cursor)
  rwa [Nat.zero_add, Nat.add_sub_cancel' h] at this

theorem length_all (h : s.cursor ≤ s.size) : s.text.all.length = s.size := by
  rw [all_text h, length_slice]

theorem text_at (h : s.cursor ≤ s.size) (hk : k ≤ s.size) : Editor.text { s with cursor := k } = s.text.moveTo k := by
  have hsplit : slice s.data 0 s.size = slice s.data 0 k ++ slice s.data k (s.size - k) := by
    have := slice_append s.data 0 k (s.size - k)
    rw [Nat.zero_add, Nat.add_sub_cancel' hk] at this
    exact this.symm
  rw [Text.moveTo, all_text h, hsplit, List.take_left' (length_slice _ _ _), List.drop_left' (length_slice _ _ _)]
  rfl

theorem drop_all (h : s.cursor ≤ s.size) (hk : k ≤ s.size) :
    s.text.all.drop k = slice s.data k (s.size - k) :=
  congrArg Text.after (text_at h hk).symm

theorem take_all (h : s.cursor ≤ s.size) (hk : k ≤ s.size) : s.text.all.take k = slice s.data 0 k :=
  congrArg Text.before (text_at h hk).symm

/-! ## Moves -/

def Editor.goTo (s : Editor) (k : Nat) : Editor := Editor.shown { s with cursor := k }

@[simp] theorem goTo_capacity : (s.goTo k).capacity = s.capacity := shown_capacity

@[simp] theorem goTo_path : (s.goTo k).path = s.path := shown_path

@[simp] theorem goTo_dirty : (s.goTo k).dirty = s.dirty := shown_dirty

section

theorem refresh_at (hs : s.size < s.capacity) (hk : k ≤ s.size) :
    Editor.refresh { s with cursor := k } = .ok (s.goTo k) :=
  refresh_ok (s := { s with cursor := k }) (Nat.le_of_lt (Nat.lt_of_le_of_lt hk hs))

variable (hc : s.cursor ≤ s.size) (hs : s.size < s.capacity)
include hc hs

theorem lineStart_ok : edLineStart s s.cursor = .ok (s.text.start newline) := by
  rw [edLineStart_ok (by omega), Text.start, length_before]
  rfl

theorem lineEnd_ok : edLineEnd s s.cursor = .ok (s.text.stop newline) := by
  rw [edLineEnd_ok hc (by omega), Text.stop, length_before]
  rfl

theorem prevLineStart_ok : edPrevLineStart s s.cursor = .ok
    (if s.text.start newline = 0 then 0 else s.text.start newline - 1 - (s.text.above newline).length) := by
  have hle : s.text.start newline ≤ s.cursor := by
    have := length_before (s := s)
    rw [Text.start]
    omega
  rw [edPrevLineStart, lineStart_ok hc hs, ok_bind]
  split
  · rfl
  · rw [edLineStart_ok (by omega), Text.above, take_all hc (by omega)]

theorem nextLineStart_ok : edNextLineStart s s.cursor = .ok
    (if s.text.stop newline < s.size then s.text.stop newline + 1 else s.size) := by
  rw [edNextLineStart, lineEnd_ok hc hs, ok_bind]
  by_cases h : s.text.stop newline < s.size
  · rw [if_neg (by omega), if_pos h]
    rfl
  · rw [if_pos (by omega), if_neg h]
    rfl

theorem aboveEnd_ok (h : s.text.start newline ≠ 0) :
    edLineEnd s (s.text.start newline - 1 - (s.text.above newline).length) =
      .ok (s.text.start newline - 1 - (s.text.above newline).length + (s.text.above newline).length) := by
  have hle : s.text.start newline ≤ s.cursor := by
    have := length_before (s := s)
    rw [Text.start]
    omega
  obtain ⟨r, hr⟩ := Text.drop_above h
  rw [drop_all hc (by omega)] at hr
  have hnot : newline ∉ s.text.above newline := sep_not_mem_lastLine _ _
  rw [edLineEnd_ok (by omega) (by omega), hr, firstLine_append hnot, firstLine_cons_sep, List.append_nil]

theorem belowEnd_ok (h : s.text.stop newline < s.size) :
    edLineEnd s (s.text.stop newline + 1) = .ok (s.text.stop newline + 1 + (s.text.below newline).length) := by
  rw [edLineEnd_ok (by omega) (by omega), Text.below, drop_all hc (by omega)]

theorem firstEnd_ok (h : s.text.start newline = 0) : ∃ k, edLineEnd s 0 = .ok (s.cursor + k) := by
  have hnot := Text.start_eq_zero h
  refine ⟨(firstLine newline s.text.after).length, ?_⟩
  rw [edLineEnd_ok (Nat.zero_le _) (by omega), Nat.sub_zero, ← all_text hc, Text.all, firstLine_append hnot,
    List.length_append, length_before, Nat.zero_add]

end

/-! ## The operations -/

structure Does (op : EditOp) (s s' : Editor) : Prop where
  inv : s'.Inv
  text : s'.text = op.effect s.text
  path : s'.path = s.path
  /-- A buffer that is not marked as changed has the text it had. -/
  clean : s'.dirty = false → s.dirty = false ∧ s'.text.all = s.text.all

theorem start_add_column : s.text.start newline + s.text.column newline = s.cursor := by
  have := Text.column_le newline s.text
  rw [Text.start, ← length_before]
  omega

section

variable {op : EditOp} (h : s.Inv)
include h

theorem does_self (ht : op.effect s.text = s.text) : Does op s s := ⟨h, ht.symm, rfl, fun hd => ⟨hd, rfl⟩⟩

theorem does_goTo (hk : k ≤ s.size) (ht : op.effect s.text = s.text.moveTo k) : Does op s (s.goTo k) where
  inv := inv_shown hk h.size_lt
  text := by rw [ht, Editor.goTo, text_shown, text_at h.cursor_le hk]
  path := goTo_path
  clean hd := by
    rw [goTo_dirty] at hd
    rw [Editor.goTo, text_shown, text_at h.cursor_le hk, Text.all_moveTo]
    exact ⟨hd, rfl⟩

theorem edCursorUp_ok : ∃ s', edCursorUp s = .ok s' ∧ Does .up s s' := by
  have hcol := start_add_column (s := s)
  rw [edCursorUp, prevLineStart_ok h.cursor_le h.size_lt, ok_bind]
  by_cases hstart : s.text.start newline = 0
  · have hup : s.text.up newline = s.text := if_pos hstart
    rw [if_pos hstart]
    by_cases hz : 0 = s.cursor
    · rw [if_pos hz]
      exact ⟨s, rfl, does_self h hup⟩
    · obtain ⟨k, hk⟩ := firstEnd_ok h.cursor_le h.size_lt hstart
      have hmin : 0 + min (s.cursor - 0) (s.cursor + k - 0) = s.cursor := by omega
      rw [if_neg hz, hk, ok_bind, lineStart_ok h.cursor_le h.size_lt, ok_bind, hstart]
      dsimp only
      rw [hmin, refresh_at h.size_lt h.cursor_le]
      refine ⟨_, rfl, does_goTo h h.cursor_le ?_⟩
      rw [← length_before, Text.moveTo_length]
      exact hup
  · have hne : s.text.start newline - 1 - (s.text.above newline).length ≠ s.cursor := by omega
    have hle := length_lastLine_le newline (s.text.all.take (s.text.start newline - 1))
    rw [List.length_take, length_all h.cursor_le] at hle
    have hab : (s.text.above newline).length ≤ s.text.start newline - 1 := Nat.le_trans hle (Nat.min_le_left _ _)
    have hcursor := h.cursor_le
    rw [if_neg hstart, if_neg hne, aboveEnd_ok h.cursor_le h.size_lt hstart, ok_bind,
      lineStart_ok h.cursor_le h.size_lt, ok_bind]
    dsimp only
    rw [Nat.add_sub_cancel_left, show s.cursor - s.text.start newline = s.text.column newline by omega,
      refresh_at h.size_lt (by omega)]
    exact ⟨_, rfl, does_goTo h (by omega) (if_neg hstart)⟩

theorem edCursorDown_ok : ∃ s', edCursorDown s = .ok s' ∧ Does .down s s' := by
  have hcol := start_add_column (s := s)
  have hlen := length_all h.cursor_le
  have hstop := Text.stop_le newline s.text
  have hge : s.cursor ≤ s.text.stop newline := by
    rw [Text.stop, length_before]
    omega
  rw [hlen] at hstop
  rw [edCursorDown, nextLineStart_ok h.cursor_le h.size_lt, ok_bind]
  by_cases hlt : s.text.stop newline < s.size
  · have hle := length_firstLine_le newline (s.text.all.drop (s.text.stop newline + 1))
    rw [List.length_drop, hlen] at hle
    have hbl : (s.text.below newline).length ≤ s.size - (s.text.stop newline + 1) := hle
    rw [if_pos hlt, if_neg (by omega), belowEnd_ok h.cursor_le h.size_lt hlt, ok_bind,
      lineStart_ok h.cursor_le h.size_lt, ok_bind]
    dsimp only
    rw [Nat.add_sub_cancel_left, show s.cursor - s.text.start newline = s.text.column newline by omega,
      Nat.min_eq_left (by omega), refresh_at h.size_lt (by omega)]
    exact ⟨_, rfl, does_goTo h (by omega) (if_pos (by rw [hlen]; exact hlt))⟩
  · have hdown : s.text.down newline = s.text.moveTo s.size := by
      rw [Text.down, if_neg (by rw [hlen]; exact hlt), hlen]
    rw [if_neg hlt]
    by_cases hend : s.cursor = s.size
    · rw [if_pos ⟨rfl, hend⟩]
      refine ⟨s, rfl, does_self h ?_⟩
      rw [← hend, ← length_before, Text.moveTo_length] at hdown
      exact hdown
    · have hlast : edLineEnd s s.size = .ok s.size := by
        rw [edLineEnd_ok (Nat.le_refl _) (Nat.le_of_lt h.size_lt), Nat.sub_self]
        rfl
      rw [if_neg (fun hx => hend hx.2), hlast, ok_bind, lineStart_ok h.cursor_le h.size_lt, ok_bind]
      dsimp only
      rw [Nat.sub_self, Nat.min_zero, Nat.add_zero, Nat.min_self, refresh_at h.size_lt (Nat.le_refl _)]
      exact ⟨_, rfl, does_goTo h (Nat.le_refl _) hdown⟩

theorem edCursorLeft_ok : ∃ s', edCursorLeft s = .ok s' ∧ Does .left s s' := by
  have hcursor := h.cursor_le
  have heff : EditOp.left.effect s.text = s.text.moveTo (s.cursor - 1) := by
    rw [← length_before]
    rfl
  unfold edCursorLeft
  by_cases hpos : 0 < s.cursor
  · rw [if_pos hpos, refresh_at h.size_lt (by omega)]
    exact ⟨_, rfl, does_goTo h (by omega) heff⟩
  · rw [if_neg hpos]
    refine ⟨s, rfl, does_self h ?_⟩
    rw [heff, show s.cursor - 1 = s.text.before.length by rw [length_before]; omega, Text.moveTo_length]

theorem edCursorRight_ok : ∃ s', edCursorRight s = .ok s' ∧ Does .right s s' := by
  have hcursor := h.cursor_le
  have heff : EditOp.right.effect s.text = s.text.moveTo (s.cursor + 1) := by
    rw [← length_before]
    rfl
  unfold edCursorRight
  by_cases hlt : s.cursor < s.size
  · rw [if_pos hlt, refresh_at h.size_lt (by omega)]
    exact ⟨_, rfl, does_goTo h (by omega) heff⟩
  · rw [if_neg hlt]
    refine ⟨s, rfl, does_self h ?_⟩
    have hafter : s.text.after = [] := by
      rw [Editor.text, Nat.sub_eq_zero_of_le (by omega)]
      rfl
    rw [heff, Text.moveTo_of_after_nil hafter (by rw [length_before]; omega)]

theorem edCursorHome_ok : ∃ s', edCursorHome s = .ok s' ∧ Does .home s s' := by
  have hcol := start_add_column (s := s)
  have hcursor := h.cursor_le
  rw [edCursorHome, lineStart_ok h.cursor_le h.size_lt, ok_bind, refresh_at h.size_lt (by omega)]
  exact ⟨_, rfl, does_goTo h (by omega) rfl⟩

theorem edCursorEnd_ok : ∃ s', edCursorEnd s = .ok s' ∧ Does .toEnd s s' := by
  have hstop := Text.stop_le newline s.text
  rw [length_all h.cursor_le] at hstop
  rw [edCursorEnd, lineEnd_ok h.cursor_le h.size_lt, ok_bind, refresh_at h.size_lt hstop]
  exact ⟨_, rfl, does_goTo h hstop rfl⟩

end

/-! ## Deletion -/

theorem edDelete_ok (h : s.Inv) : ∃ s', edDelete s = .ok s' ∧ Does .delete s s' := by
  have hcursor := h.cursor_le
  have hsize := h.size_lt
  unfold edDelete
  by_cases hz : s.cursor = 0
  · rw [if_pos hz]
    refine ⟨s, rfl, does_self h ?_⟩
    change Text.delete s.text = s.text
    rw [Text.delete, Editor.text, hz]
    rfl
  · rw [if_neg hz, move_ok (by omega) (by omega), ok_bind, refresh_ok (by dsimp only; omega)]
    refine ⟨_, rfl, inv_shown (by dsimp only; omega) (by dsimp only; omega), ?_, shown_path, ?_⟩
    · rw [text_shown]
      change Text.mk _ _ = Text.mk _ _
      obtain ⟨k, hk⟩ := Nat.exists_eq_succ_of_ne_zero hz
      congr 1
      · have hsame : slice (copy s.data (s.cursor - 1) s.data s.cursor (s.size - s.cursor + 1)) 0 (s.cursor - 1) =
            slice s.data 0 k := by
          rw [hk, Nat.succ_sub_one]
          refine slice_congr (fun i hi => copy_of_not (by omega))
        change slice _ 0 (s.cursor - 1) = (slice s.data 0 s.cursor).dropLast
        rw [hsame, hk, slice_succ, List.dropLast_concat]
      · change slice _ (s.cursor - 1) (s.size - 1 - (s.cursor - 1)) = slice s.data s.cursor (s.size - s.cursor)
        rw [show s.size - 1 - (s.cursor - 1) = s.size - s.cursor by omega]
        refine slice_congr (fun i hi => ?_)
        dsimp only
        rw [copy_of_mem (by omega) (by omega), show s.cursor - 1 + i - (s.cursor - 1) = i by omega]
    · intro hd
      rw [shown_dirty] at hd
      cases hd

/-! ## Growth and insertion -/

theorem double_reaches {m cap : Nat} (h : 0 < cap) :
    ∃ newCap, loop (doubleStep m) (m + 1) cap = some newCap ∧ m ≤ newCap := by
  obtain ⟨newCap, hl⟩ : ∃ r, loop (doubleStep m) (m + 1) cap = some r := by
    refine loop_total (I := fun cap => 0 < cap) (μ := fun cap => m - cap) ?_ h (by omega)
    intro cap cap' hpos hstep
    unfold doubleStep at hstep
    split at hstep
    · cases hstep
      omega
    · cases hstep
  refine ⟨newCap, hl, ?_⟩
  refine loop_post (I := fun _ => True) (Q := fun r => m ≤ r) (fun _ _ _ _ => trivial) ?_ trivial hl
  intro cap r _ hstep
  unfold doubleStep at hstep
  split at hstep
  · cases hstep
  · cases hstep
    omega

theorem double_zero {m : Nat} (h : 0 < m) : ∀ n, loop (doubleStep m) n 0 = none
  | 0 => rfl
  | n + 1 => by
    rw [loop_inl (show doubleStep m 0 = .inl 0 from if_pos h)]
    exact double_zero h n

theorem edGrow_fits (h : n ≤ s.capacity) : edGrow answer s n = .ok s := if_pos h

theorem edGrow_asks (hs : s.size ≤ s.capacity) (h : s.capacity < n) (hn : n ≤ s.capacity * 2) :
    edGrow answer s n = match edMalloc answer (s.capacity * 2) with
      | none => .ok s
      | some block => .ok { s with data := copy block 0 s.data 0 s.size, capacity := s.capacity * 2 } := by
  have hstep : doubleStep n (s.capacity * 2) = .inr (s.capacity * 2) := if_neg (by omega)
  have hl : loop (doubleStep n) (n + 1) (s.capacity * 2) = some (s.capacity * 2) := loop_inr hstep n
  rw [edGrow, if_neg (by omega), hl]
  dsimp only
  cases edMalloc answer (s.capacity * 2) with
  | none => rfl
  | some block =>
    dsimp only
    rw [touch_ok (by omega)]
    rfl

def EditOp.Granted (s : Editor) : EditOp → Prop
  | .insert _ answer => s.size + 2 ≤ s.capacity ∨ (edMalloc answer (s.capacity * 2)).isSome = true
  | _ => True

theorem edGrow_granted (hs : s.size < s.capacity) (h : EditOp.Granted s (.insert c answer)) :
    ∃ data capacity, edGrow answer s (s.size + 2) = .ok { s with data := data, capacity := capacity } ∧
      s.size + 2 ≤ capacity ∧ ∀ i, i < s.size → data i = s.data i := by
  by_cases hfit : s.size + 2 ≤ s.capacity
  · exact ⟨s.data, s.capacity, edGrow_fits hfit, hfit, fun _ _ => rfl⟩
  · obtain ⟨block, hblock⟩ := Option.isSome_iff_exists.1 (h.resolve_left hfit)
    refine ⟨copy block 0 s.data 0 s.size, s.capacity * 2, ?_, by omega, fun i hi => ?_⟩
    · rw [edGrow_asks (by omega) (by omega) (by omega), hblock]
    · rw [copy_of_mem (Nat.zero_le _) (by omega)]
      congr 1
      omega

theorem edInsert_grown {data : Mem} {capacity : Nat} (h : s.Inv)
    (hgrow : edGrow answer s (s.size + 2) = .ok { s with data := data, capacity := capacity })
    (hroom : s.size + 2 ≤ capacity) (hdata : ∀ i, i < s.size → data i = s.data i) :
    ∃ s', edInsert answer c s = .ok s' ∧ Does (.insert c answer) s s' ∧ s'.size = s.size + 1 ∧
      s'.capacity = capacity := by
  have hcursor := h.cursor_le
  rw [edInsert, hgrow, ok_bind, move_ok (by dsimp only; omega) (by dsimp only; omega), ok_bind,
    put_ok (by dsimp only; omega), ok_bind, refresh_ok (by dsimp only; omega)]
  refine ⟨_, rfl, ⟨inv_shown (by dsimp only; omega) (by dsimp only; omega), ?_, shown_path, ?_⟩, shown_size,
    shown_capacity⟩
  · rw [text_shown]
    dsimp only
    change Text.mk _ _ = Text.mk _ _
    congr 1
    · change slice _ 0 (s.cursor + 1) = slice s.data 0 s.cursor ++ [c]
      rw [slice_succ]
      congr 1
      · refine slice_congr (fun i hi => ?_)
        dsimp only
        rw [fill_of_not (by omega), copy_of_not (by omega), hdata _ (by omega)]
      · simp [fill]
    · change slice _ (s.cursor + 1) (s.size + 1 - (s.cursor + 1)) = slice s.data s.cursor (s.size - s.cursor)
      rw [Nat.add_sub_add_right]
      refine slice_congr (fun i hi => ?_)
      dsimp only
      rw [fill_of_not (by omega), copy_of_mem (by omega) (by omega), Nat.add_sub_cancel_left, hdata _ (by omega)]
  · intro hd
    rw [shown_dirty] at hd
    cases hd

theorem edInsert_ok (h : s.Inv) (hg : EditOp.Granted s (.insert c answer)) :
    ∃ s', edInsert answer c s = .ok s' ∧ Does (.insert c answer) s s' := by
  obtain ⟨data, capacity, hgrow, hroom, hdata⟩ := edGrow_granted h.size_lt hg
  obtain ⟨s', hrun, hdoes, -⟩ := edInsert_grown h hgrow hroom hdata
  exact ⟨s', hrun, hdoes⟩

theorem edInsert_refused (h : s.Inv) (hg : ¬EditOp.Granted s (.insert c answer)) :
    edInsert answer c s = .error .outside := by
  obtain ⟨hfull, hnone⟩ := not_or.1 hg
  have hcursor := h.cursor_le
  have hsize := h.size_lt
  have hgrow : edGrow answer s (s.size + 2) = .ok s := by
    rw [edGrow_asks (by omega) (by omega) (by omega), Option.not_isSome_iff_eq_none.1 hnone]
  have hread : s.touch s.cursor (s.size - s.cursor + 1) = .ok () := touch_ok (by omega)
  have hwrite : s.touch (s.cursor + 1) (s.size - s.cursor + 1) = .error .outside := if_neg (by omega)
  rw [edInsert, hgrow, ok_bind, Editor.move, hread, ok_bind, hwrite]
  rfl

theorem edInsert_hang (h : s.capacity = 0) : edInsert answer c s = .error .hang := by
  have hgrow : edGrow answer s (s.size + 2) = .error .hang := by
    rw [edGrow, if_neg (by omega), h, Nat.zero_mul, double_zero (by omega)]
  rw [edInsert, hgrow]
  rfl

theorem edStep_ok (h : s.Inv) : ∀ {op : EditOp}, op.Granted s → ∃ s', edStep s op = .ok s' ∧ Does op s s'
  | .insert _ _, hg => edInsert_ok h hg
  | .delete, _ => edDelete_ok h
  | .up, _ => edCursorUp_ok h
  | .down, _ => edCursorDown_ok h
  | .left, _ => edCursorLeft_ok h
  | .right, _ => edCursorRight_ok h
  | .home, _ => edCursorHome_ok h
  | .toEnd, _ => edCursorEnd_ok h

end Ui
end AmitX
