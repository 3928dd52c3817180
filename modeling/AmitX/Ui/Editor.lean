import AmitX.Lib.Bytes
import AmitX.Lib.Lines
import AmitX.Lib.Loop
import AmitX.Mm.Heap
/-!
# Editor — the buffer of the text editor (`text_editor.c`)

The text is in the first `size` of `capacity` bytes of a block of the heap.  Each access is checked against the block:
one that leaves it is the fault `outside`, and a loop that does not end is the fault `hang`.  An allocation is answered
with a block, whose bytes may be anything, or not at all; no block is larger than the heap, so that no size here comes
near the end of a `size_t` or an `int`.
-/
namespace AmitX
namespace Ui

open Bytes Loop Lines

def newline : Byte := 10#8

inductive Fault
  | hang
  | outside
  deriving DecidableEq, Repr

/-- `editor_t`; an editor without a block has no capacity. -/
structure Editor where
  data : Mem
  size : Nat
  capacity : Nat
  cursor : Nat
  scrollY : Nat
  cx : Nat
  cy : Nat
  cols : Nat
  rows : Nat
  path : List Byte
  dirty : Bool

/-- `malloc` of `n` bytes. -/
def edMalloc (answer : Option Mem) (n : Nat) : Option Mem := if n ≤ Mm.heapSize then answer else none

def edWidth : Nat := 800
def edHeight : Nat := 600
def edMarginX : Nat := 8
def edMarginY : Nat := 28
def edStatusH : Nat := 24

def edInit (path : List Byte) (answer : Option Mem) : Editor :=
  let ed : Editor :=
    { data := fun _ => 0, size := 0, capacity := 0, cursor := 0, scrollY := 0, cx := 0, cy := 0,
      cols := (edWidth - edMarginX * 2) / 8, rows := (edHeight - edMarginY - edStatusH - 8 - 4) / 8,
      path := path.take 127, dirty := false }
  match edMalloc answer 1024 with
  | none => ed
  | some block => { ed with data := fill block 0 1 0, capacity := 1024 }

/-! ## Accesses -/

/-- The bytes `[a, a + n)` are in the block. -/
def Editor.touch (s : Editor) (a n : Nat) : Except Fault Unit :=
  if n = 0 ∨ a + n ≤ s.capacity then .ok () else .error .outside

/-- `data[i]`. -/
def Editor.get (s : Editor) (i : Nat) : Except Fault Byte := do
  s.touch i 1
  return s.data i

/-- `data[i] = c`. -/
def Editor.put (s : Editor) (i : Nat) (c : Byte) : Except Fault Editor := do
  s.touch i 1
  return { s with data := fill s.data i 1 c }

/-- `memmove(data + a, data + b, n)`. -/
def Editor.move (s : Editor) (a b n : Nat) : Except Fault Editor := do
  s.touch b n
  s.touch a n
  return { s with data := copy s.data a s.data b n }

/-! ## Growth -/

def doubleStep (minSize newCap : Nat) : Nat ⊕ Nat := if newCap < minSize then .inl (newCap * 2) else .inr newCap

def edGrow (answer : Option Mem) (s : Editor) (minSize : Nat) : Except Fault Editor :=
  if minSize ≤ s.capacity then .ok s
  else
    match loop (doubleStep minSize) (minSize + 1) (s.capacity * 2) with
    | none => .error .hang
    | some newCap =>
      match edMalloc answer newCap with
      | none => .ok s
      | some block => do
        s.touch 0 s.size
        return { s with data := copy block 0 s.data 0 s.size, capacity := newCap }

/-! ## Lines -/

def edLineStart (s : Editor) : Nat → Except Fault Nat
  | 0 => .ok 0
  | pos + 1 => do
    let c ← s.get pos
    if c = newline then return pos + 1 else edLineStart s pos

/-- The loop of `ed_line_end`, `n` bytes before the end of the text. -/
def lineEndFrom (s : Editor) : Nat → Nat → Except Fault Nat
  | 0, pos => .ok pos
  | n + 1, pos => do
    let c ← s.get pos
    if c = newline then return pos else lineEndFrom s n (pos + 1)

def edLineEnd (s : Editor) (pos : Nat) : Except Fault Nat := lineEndFrom s (s.size - pos) pos

def edPrevLineStart (s : Editor) (pos : Nat) : Except Fault Nat := do
  let start ← edLineStart s pos
  if start = 0 then return 0 else edLineStart s (start - 1)

def edNextLineStart (s : Editor) (pos : Nat) : Except Fault Nat := do
  let stop ← edLineEnd s pos
  if s.size ≤ stop then return s.size else return stop + 1

/-- The lines that end before `n`. -/
def countLines (s : Editor) : Nat → Except Fault Nat
  | 0 => .ok 0
  | n + 1 => do
    let cy ← countLines s n
    let c ← s.get n
    return if c = newline then cy + 1 else cy

def edUpdateCxCy (s : Editor) : Except Fault Editor := do
  let lineStart ← edLineStart s s.cursor
  let cy ← countLines s lineStart
  return { s with cx := s.cursor - lineStart, cy := cy }

def edEnsureVisible (s : Editor) : Editor :=
  if s.cy < s.scrollY then { s with scrollY := s.cy }
  else if s.scrollY + s.rows ≤ s.cy then { s with scrollY := s.cy - s.rows + 1 }
  else s

def Editor.refresh (s : Editor) : Except Fault Editor := do
  let s ← edUpdateCxCy s
  return edEnsureVisible s

/-! ## The cursor -/

def edCursorUp (s : Editor) : Except Fault Editor := do
  let prev ← edPrevLineStart s s.cursor
  if prev = s.cursor then return s
  else do
    let prevEnd ← edLineEnd s prev
    let start ← edLineStart s s.cursor
    let offset := min (s.cursor - start) (prevEnd - prev)
    Editor.refresh { s with cursor := prev + offset }

def edCursorDown (s : Editor) : Except Fault Editor := do
  let next ← edNextLineStart s s.cursor
  if next = s.size ∧ s.cursor = s.size then return s
  else do
    let nextEnd ← edLineEnd s next
    let start ← edLineStart s s.cursor
    let offset := min (s.cursor - start) (nextEnd - next)
    Editor.refresh { s with cursor := min (next + offset) s.size }

def edCursorLeft (s : Editor) : Except Fault Editor :=
  if 0 < s.cursor then Editor.refresh { s with cursor := s.cursor - 1 } else .ok s

def edCursorRight (s : Editor) : Except Fault Editor :=
  if s.cursor < s.size then Editor.refresh { s with cursor := s.cursor + 1 } else .ok s

def edCursorHome (s : Editor) : Except Fault Editor := do
  let start ← edLineStart s s.cursor
  Editor.refresh { s with cursor := start }

def edCursorEnd (s : Editor) : Except Fault Editor := do
  let stop ← edLineEnd s s.cursor
  Editor.refresh { s with cursor := stop }

/-! ## Insertion and deletion -/

def edInsert (answer : Option Mem) (c : Byte) (s : Editor) : Except Fault Editor := do
  let s ← edGrow answer s (s.size + 2)
  let s ← s.move (s.cursor + 1) s.cursor (s.size - s.cursor + 1)
  let s ← s.put s.cursor c
  Editor.refresh { s with size := s.size + 1, cursor := s.cursor + 1, dirty := true }

def edDelete (s : Editor) : Except Fault Editor :=
  if s.cursor = 0 then .ok s
  else do
    let s ← s.move (s.cursor - 1) s.cursor (s.size - s.cursor + 1)
    Editor.refresh { s with size := s.size - 1, cursor := s.cursor - 1, dirty := true }

/-- An operation on the buffer, with what `malloc` answers when it is asked. -/
inductive EditOp
  | insert (c : Byte) (answer : Option Mem)
  | delete
  | up
  | down
  | left
  | right
  | home
  | toEnd

def edStep (s : Editor) : EditOp → Except Fault Editor
  | .insert c answer => edInsert answer c s
  | .delete => edDelete s
  | .up => edCursorUp s
  | .down => edCursorDown s
  | .left => edCursorLeft s
  | .right => edCursorRight s
  | .home => edCursorHome s
  | .toEnd => edCursorEnd s

def edRun (s : Editor) (ops : List EditOp) : Except Fault Editor := ops.foldlM edStep s

/-! ## The text -/

def Editor.text (s : Editor) : Text Byte := ⟨slice s.data 0 s.cursor, slice s.data s.cursor (s.size - s.cursor)⟩

def EditOp.effect : EditOp → Text Byte → Text Byte
  | .insert c _ => Text.insert c
  | .delete => Text.delete
  | .up => Text.up newline
  | .down => Text.down newline
  | .left => Text.left
  | .right => Text.right
  | .home => Text.home newline
  | .toEnd => Text.toEnd newline

/-- The buffer has room behind its text, and `cx` and `cy` are the column and the line of the cursor. -/
structure Editor.Inv (s : Editor) : Prop where
  cursor_le : s.cursor ≤ s.size
  size_lt : s.size < s.capacity
  cx_eq : s.cx = s.text.column newline
  cy_eq : s.cy = s.text.line newline

end Ui
end AmitX
