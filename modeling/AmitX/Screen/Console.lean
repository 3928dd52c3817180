import Mathlib.Data.BitVec
import Mathlib.Data.List.GetD
import Mathlib.Logic.Function.Basic
import Mathlib.Tactic.Common
/-!
# Console — the text screen (`screen.c`)

The screen has 24 rows of text and a status row below.  A line that is fed at the bottom scrolls the text up.  It is
compared with a paper that has a row for every line ever fed, and of which the screen shows the last 24: a scroll moves the
window and touches no row that was printed before.
-/
namespace AmitX
namespace Screen

def vgaWidth : Nat := 80
def vgaHeight : Nat := 25
def chVert : BitVec 16 := 179

/-- A cell of the memory. -/
abbrev Cell := BitVec 16

/-- `(color << 8) | c`, where `c` is promoted to `int`. -/
def cell (color c : BitVec 8) : Cell := color.setWidth 16 <<< 8 ||| c.signExtend 16

/-- `(color << 8) | ' '`. -/
def blank (color : BitVec 8) : Cell := cell color 32

/-- The memory of the card by cells, the cursor, the colour, and the registers of the card that hold its cursor. -/
structure Console where
  mapped : Bool
  videoMemory : Nat → Cell
  cursorRow : BitVec 8
  cursorCol : BitVec 8
  color : BitVec 8
  crtc : Nat → BitVec 8

namespace Console

/-- `video_memory[i] = c`. -/
def store (i : Nat) (c : Cell) (s : Console) : Console := { s with videoMemory := Function.update s.videoMemory i c }

/-- The index of the cell at the cursor. -/
def index (s : Console) : Nat := s.cursorRow.toNat * vgaWidth + s.cursorCol.toNat

def setCursor (x y : Nat) (s : Console) : Console :=
  if s.mapped then
    let pos : BitVec 16 := BitVec.ofNat 16 (y * vgaWidth + x)
    { s with crtc := Function.update (Function.update s.crtc 14 ((pos >>> 8).setWidth 8)) 15 (pos.setWidth 8) }
  else s

def updateHardwareCursor (s : Console) : Console := s.setCursor s.cursorCol.toNat s.cursorRow.toNat

/-- Row `row` is copied to the row above. -/
def copyRow (row : Nat) (mem : Nat → Cell) : Nat → Cell :=
  (List.range vgaWidth).foldl
    (fun mem col => Function.update mem ((row - 1) * vgaWidth + col) (mem (row * vgaWidth + col))) mem

/-- A row is filled with one cell. -/
def fillRow (row : Nat) (c : Cell) (mem : Nat → Cell) : Nat → Cell :=
  (List.range vgaWidth).foldl (fun mem col => Function.update mem (row * vgaWidth + col) c) mem

def scrollIfNeeded (s : Console) : Console :=
  if s.cursorRow.toNat < vgaHeight - 1 then s
  else { s with
    videoMemory := fillRow (vgaHeight - 2) (blank s.color)
      ((List.range' 1 (vgaHeight - 2)).foldl (fun mem row => copyRow row mem) s.videoMemory)
    cursorRow := BitVec.ofNat 8 (vgaHeight - 2) }

def clear (s : Console) : Console :=
  if s.mapped then
    { s with
      videoMemory := (List.range (vgaWidth * vgaHeight)).foldl (fun mem i => Function.update mem i (blank s.color))
        s.videoMemory
      cursorRow := 0
      cursorCol := 0 }.updateHardwareCursor
  else s

/-- To the start of the next line. -/
def feed (s : Console) : Console := { s with cursorCol := 0, cursorRow := s.cursorRow + 1 }.scrollIfNeeded

/-- To the next cell. -/
def advance (s : Console) : Console :=
  if vgaWidth ≤ (s.cursorCol + 1).toNat then { s with cursorCol := s.cursorCol + 1 }.feed
  else { s with cursorCol := s.cursorCol + 1 }

def putc (c : BitVec 8) (s : Console) : Console :=
  if s.mapped then
    if c = 10 then s.feed.updateHardwareCursor
    else if c = 8 then
      if 0 < s.cursorCol.toNat then
        let s := { s with cursorCol := s.cursorCol - 1 }
        let s := s.store s.index (s.color.setWidth 16 <<< 8 ||| chVert)
        (s.store (s.index + 1) (blank s.color)).updateHardwareCursor
      else s
    else
      let s := if vgaHeight - 1 ≤ s.cursorRow.toNat then
        { s with cursorRow := BitVec.ofNat 8 (vgaHeight - 2), cursorCol := 0 } else s
      (s.store s.index (cell s.color c)).advance.updateHardwareCursor
  else s

def puts (str : List (BitVec 8)) (s : Console) : Console := if s.mapped then str.foldl (fun s c => s.putc c) s else s

def setcolor (fg bg : BitVec 8) (s : Console) : Console := { s with color := bg <<< 4 ||| (fg &&& 0x0F) }

def newline (s : Console) : Console := ((s.store s.index (0x0F#16 <<< 8)).feed).updateHardwareCursor

def moveCursor (x y : BitVec 8) (s : Console) : Console :=
  { s with cursorCol := x, cursorRow := y }.setCursor x.toNat y.toNat

end Console

/-! ## The paper -/

/-- **The paper**: its cells by row and column, the first row in the window, the cursor, and what lies behind the text. -/
structure Paper where
  cells : Nat → Nat → Cell
  top : Nat
  row : Nat
  col : Nat
  color : BitVec 8
  below : Nat → Cell

namespace Paper

/-- A cell is printed. -/
def print (row col : Nat) (c : Cell) (p : Paper) : Paper :=
  { p with cells := Function.update p.cells row (Function.update (p.cells row) col c) }

/-- The next line; behind the last row of the window there is a new one. -/
def feed (p : Paper) : Paper :=
  if p.row + 1 < p.top + 24 then { p with col := 0, row := p.row + 1 }
  else { p with col := 0, row := p.row + 1, top := p.top + 1, cells := Function.update p.cells (p.row + 1) (fun _ => blank p.color) }

def advance (p : Paper) : Paper := if p.col + 1 < 80 then { p with col := p.col + 1 } else p.feed

def putc (c : BitVec 8) (p : Paper) : Paper :=
  if c = 10 then p.feed
  else if c = 8 then
    if 0 < p.col then
      { (p.print p.row (p.col - 1) (p.color.setWidth 16 <<< 8 ||| chVert)).print p.row p.col (blank p.color) with
        col := p.col - 1 }
    else p
  else (p.print p.row p.col (cell p.color c)).advance

/-- A new paper. -/
def clear (p : Paper) : Paper :=
  ⟨fun _ _ => blank p.color, 0, 0, 0, p.color, fun i => if i < 2000 then blank p.color else p.below i⟩

end Paper

/-- A call of the console. -/
inductive ConsoleCall
  | putc (c : BitVec 8)
  | newline
  | clear
  | setcolor (fg bg : BitVec 8)
  | moveCursor (x y : BitVec 8)

namespace ConsoleCall

def apply (s : Console) : ConsoleCall → Console
  | putc c => s.putc c
  | newline => s.newline
  | clear => s.clear
  | setcolor fg bg => s.setcolor fg bg
  | moveCursor x y => s.moveCursor x y

/-- The call on the paper. -/
def onPaper (p : Paper) : ConsoleCall → Paper
  | putc c => p.putc c
  | newline => (p.print p.row p.col (0x0F#16 <<< 8)).feed
  | clear => p.clear
  | setcolor fg bg => { p with color := bg <<< 4 ||| (fg &&& 0x0F) }
  | moveCursor x y => { p with col := x.toNat, row := p.top + y.toNat }

/-- The cursor is only moved to a cell of the text. -/
def Inside : ConsoleCall → Prop
  | moveCursor x y => x.toNat < 80 ∧ y.toNat < 24
  | _ => True

end ConsoleCall

/-- **The memory is that of the paper**: the text is the window, the rest is what lies behind the text, and the cursor is in
the same row. -/
structure Displays (s : Console) (p : Paper) : Prop where
  mapped : s.mapped = true
  text : ∀ row < 24, ∀ col < 80, s.videoMemory (row * 80 + col) = p.cells (p.top + row) col
  below : ∀ i, 24 * 80 ≤ i → s.videoMemory i = p.below i
  row : p.row = p.top + s.cursorRow.toNat
  rowIn : s.cursorRow.toNat < 24
  color : p.color = s.color

/-- **The screen shows the paper**, and the cursor of the card is at the cursor. -/
structure Shows (s : Console) (p : Paper) : Prop extends Displays s p where
  col : p.col = s.cursorCol.toNat
  colIn : s.cursorCol.toNat < 80
  hardware : s.crtc 14 ++ s.crtc 15 = BitVec.ofNat 16 s.index

/-! ## The loops -/

section

variable {mem : Nat → Cell} {c : Cell} {row n : Nat}

theorem foldl_fill (start : Nat) : ∀ n, (List.range n).foldl (fun mem i => Function.update mem (start + i) c) mem =
    fun i => if start ≤ i ∧ i < start + n then c else mem i
  | 0 => by
    funext i
    rw [if_neg (by omega)]
    rfl
  | n + 1 => by
    rw [List.range_succ, List.foldl_append, foldl_fill start n]
    funext i
    simp only [List.foldl_cons, List.foldl_nil, Function.update_apply]
    split
    · rw [if_pos (by omega)]
    · simp only [show (start ≤ i ∧ i < start + (n + 1)) ↔ (start ≤ i ∧ i < start + n) by omega]

theorem fillRow_eq (row : Nat) : Console.fillRow row c mem =
    fun i => if row * 80 ≤ i ∧ i < row * 80 + 80 then c else mem i := foldl_fill (row * 80) 80

theorem foldl_copy (hrow : 1 ≤ row) : ∀ n, (List.range n).foldl
    (fun mem col => Function.update mem ((row - 1) * 80 + col) (mem (row * 80 + col))) mem =
      fun i => if (row - 1) * 80 ≤ i ∧ i < (row - 1) * 80 + n then mem (i + 80) else mem i
  | 0 => by
    funext i
    rw [if_neg (by omega)]
    rfl
  | n + 1 => by
    rw [List.range_succ, List.foldl_append, foldl_copy hrow n]
    funext i
    -- the cell below has not been written yet
    simp only [List.foldl_cons, List.foldl_nil, Function.update_apply,
      show ¬((row - 1) * 80 ≤ row * 80 + n ∧ row * 80 + n < (row - 1) * 80 + n) by omega, if_false]
    split
    · rename_i hi
      rw [if_pos (by omega), hi, show (row - 1) * 80 + n + 80 = row * 80 + n by omega]
    · simp only [show (row - 1) * 80 ≤ i ∧ i < (row - 1) * 80 + (n + 1) ↔
        (row - 1) * 80 ≤ i ∧ i < (row - 1) * 80 + n by omega]

theorem copyRow_eq (hrow : 1 ≤ row) : Console.copyRow row mem =
    fun i => if (row - 1) * 80 ≤ i ∧ i < (row - 1) * 80 + 80 then mem (i + 80) else mem i := foldl_copy hrow 80

/-- **The rows from 1 on are copied up.** -/
theorem copyRows_eq : ∀ n, (List.range' 1 n).foldl (fun mem row => Console.copyRow row mem) mem =
    fun i => if i < n * 80 then mem (i + 80) else mem i
  | 0 => by
    funext i
    rw [if_neg (by omega)]
    rfl
  | n + 1 => by
    rw [List.range'_1_concat, List.foldl_append, copyRows_eq n, List.foldl_cons, List.foldl_nil, copyRow_eq (by omega)]
    funext i
    rw [Nat.add_sub_cancel_left]
    by_cases h1 : n * 80 ≤ i ∧ i < n * 80 + 80
    · rw [if_pos h1, if_neg (by omega), if_pos (by omega)]
    · rw [if_neg h1]
      split
      · rw [if_pos (by omega)]
      · rw [if_neg (by omega)]

end

/-! ## Every call -/

section

variable {s : Console} {p : Paper} {c : Cell} {row col : Nat}

theorem Displays.print (h : Displays s p) (hrow : row < 24) (hcol : col < 80) :
    Displays (s.store (row * 80 + col) c) (p.print (p.top + row) col c) := by
  refine ⟨h.mapped, fun r hr k hk => ?_, fun i hi => ?_, h.row, h.rowIn, h.color⟩
  · show Function.update s.videoMemory _ c _ = Function.update p.cells _ _ (p.top + r) k
    by_cases hr' : r = row
    · subst hr'
      rw [Function.update_self]
      by_cases hk' : k = col
      · rw [hk', Function.update_self, Function.update_self]
      · rw [Function.update_of_ne hk', Function.update_of_ne (by omega), h.text r hr k hk]
    · rw [Function.update_of_ne (by omega), Function.update_of_ne (by omega), h.text r hr k hk]
  · show Function.update s.videoMemory _ c _ = p.below i
    rw [Function.update_of_ne (by omega), h.below i hi]

theorem scrollIfNeeded_of_lt (h : s.cursorRow.toNat < 24) : s.scrollIfNeeded = s := if_pos h

theorem scrollIfNeeded_of_le (h : 24 ≤ s.cursorRow.toNat) : s.scrollIfNeeded = { s with
    videoMemory := fun i => if 23 * 80 ≤ i ∧ i < 23 * 80 + 80 then blank s.color
      else if i < 23 * 80 then s.videoMemory (i + 80) else s.videoMemory i
    cursorRow := 23 } := by
  refine (if_neg (Nat.not_lt.2 h)).trans ?_
  rw [copyRows_eq, fillRow_eq]
  rfl

/-- **A line feed** moves the cursor down, or the window. -/
theorem Displays.feed (h : Displays s p) : Displays s.feed p.feed := by
  have hrow := h.row
  have hin := h.rowIn
  have hnext : (s.cursorRow + 1).toNat = s.cursorRow.toNat + 1 := by
    show (s.cursorRow.toNat + 1) % 256 = _
    omega
  unfold Console.feed Paper.feed
  by_cases hlast : s.cursorRow.toNat + 1 < 24
  · rw [scrollIfNeeded_of_lt (by dsimp only; omega), if_pos (by omega)]
    exact ⟨h.mapped, h.text, h.below, by dsimp only; omega, by dsimp only; omega, h.color⟩
  · rw [scrollIfNeeded_of_le (by dsimp only; omega), if_neg (by omega)]
    refine ⟨h.mapped, fun r hr k hk => ?_, fun i hi => ?_, ?_, show 23 < 24 by decide, h.color⟩
    · dsimp only
      by_cases hr' : r = 23
      · rw [if_pos (by omega), show p.top + 1 + r = p.row + 1 by omega, Function.update_self, h.color]
      · rw [if_neg (by omega), if_pos (by omega), Function.update_of_ne (by omega),
          show r * 80 + k + 80 = (r + 1) * 80 + k by omega, h.text (r + 1) (by omega) k hk,
          show p.top + (r + 1) = p.top + 1 + r by omega]
    · dsimp only
      rw [if_neg (by omega), if_neg (by omega), h.below i hi]
    · show p.row + 1 = p.top + 1 + 23
      omega

@[simp] theorem feed_cursorCol : s.feed.cursorCol = 0 := by
  unfold Console.feed Console.scrollIfNeeded
  split <;> rfl

@[simp] theorem feed_col : p.feed.col = 0 := by
  unfold Paper.feed
  split <;> rfl

theorem append_bytes (pos : BitVec 16) : (pos >>> 8).setWidth 8 ++ pos.setWidth 8 = pos := by
  apply BitVec.eq_of_toNat_eq
  simp only [BitVec.toNat_append, BitVec.toNat_setWidth, BitVec.toNat_ushiftRight, Nat.shiftRight_eq_div_pow]
  have := pos.isLt
  rw [Nat.mod_eq_of_lt (by omega), ← Nat.shiftLeft_add_eq_or_of_lt (Nat.mod_lt _ (by decide)), Nat.shiftLeft_eq]
  omega

/-- **The card's cursor follows.** -/
theorem Displays.shows (h : Displays s p) (hcol : p.col = s.cursorCol.toNat) (hin : s.cursorCol.toNat < 80) :
    Shows s.updateHardwareCursor p := by
  unfold Console.updateHardwareCursor Console.setCursor
  rw [if_pos h.mapped]
  refine ⟨⟨h.mapped, h.text, h.below, h.row, h.rowIn, h.color⟩, hcol, hin, ?_⟩
  exact append_bytes _

/-- The cursor of the console is in the column of that of the paper. -/
def SameCol (s : Console) (p : Paper) : Prop := p.col = s.cursorCol.toNat ∧ s.cursorCol.toNat < 80

theorem Displays.advance (h : Displays s p) (hc : SameCol s p) : Displays s.advance p.advance ∧ SameCol s.advance p.advance := by
  obtain ⟨hcol, hin⟩ := hc
  have hnext : (s.cursorCol + 1).toNat = s.cursorCol.toNat + 1 := by
    show (s.cursorCol.toNat + 1) % 256 = _
    omega
  have hmoved : Displays { s with cursorCol := s.cursorCol + 1 } p := ⟨h.mapped, h.text, h.below, h.row, h.rowIn, h.color⟩
  unfold Console.advance Paper.advance
  rw [hnext, hcol]
  by_cases hend : s.cursorCol.toNat + 1 < 80
  · have hnot : ¬vgaWidth ≤ s.cursorCol.toNat + 1 := Nat.not_le.2 hend
    rw [if_neg hnot, if_pos hend]
    exact ⟨⟨h.mapped, h.text, h.below, h.row, h.rowIn, h.color⟩, hnext.symm, hnext ▸ hend⟩
  · have hle : vgaWidth ≤ s.cursorCol.toNat + 1 := Nat.not_lt.1 hend
    rw [if_pos hle, if_neg hend]
    exact ⟨hmoved.feed, by simp [SameCol]⟩

theorem Shows.putc (h : Shows s p) (c : BitVec 8) : Shows (s.putc c) (p.putc c) := by
  have hin := h.colIn
  have hcol := h.col
  have hprint : ∀ (col : Nat) (v : Cell), col < 80 →
      Displays (s.store (s.cursorRow.toNat * 80 + col) v) (p.print p.row col v) := fun _ v hc => by
    rw [h.row]
    exact h.toDisplays.print h.rowIn hc
  unfold Console.putc Paper.putc
  rw [if_pos h.mapped]
  split
  · exact h.feed.shows (by simp) (by simp)
  split
  · -- a backspace leaves a bar behind
    rw [hcol]
    by_cases h0 : 0 < s.cursorCol.toNat
    · rw [if_pos h0, if_pos h0]
      have hback : (s.cursorCol - 1).toNat = s.cursorCol.toNat - 1 := by
        rw [BitVec.toNat_sub]
        show (2 ^ 8 - 1 + s.cursorCol.toNat) % 2 ^ 8 = _
        omega
      have hbar := hprint (s.cursorCol.toNat - 1) (s.color.setWidth 16 <<< 8 ||| chVert) (by omega)
      have hblank := hbar.print (c := blank s.color) hbar.rowIn hin
      have hidx : s.cursorRow.toNat * 80 + (s.cursorCol.toNat - 1) + 1 = s.cursorRow.toNat * 80 + s.cursorCol.toNat := by
        omega
      simp only [Console.store, Console.index, hback, vgaWidth, hidx, h.color]
      rw [h.row] at hblank ⊢
      exact Displays.shows ⟨hblank.mapped, hblank.text, hblank.below, h.row, hblank.rowIn, hblank.color⟩ hback.symm
        (by dsimp only; omega)
    · rw [if_neg h0, if_neg h0]
      exact h
  · have hnot : ¬vgaHeight - 1 ≤ s.cursorRow.toNat := Nat.not_le.2 h.rowIn
    rw [if_neg hnot, hcol, h.color]
    obtain ⟨hm, hc⟩ := (hprint _ (cell s.color c) hin).advance ⟨hcol, hin⟩
    exact hm.shows hc.1 hc.2

theorem Shows.newline (h : Shows s p) : Shows s.newline ((p.print p.row p.col (0x0F#16 <<< 8)).feed) := by
  have hprint := h.toDisplays.print (c := 0x0F#16 <<< 8) h.rowIn h.colIn
  rw [← h.row, ← h.col] at hprint
  exact Displays.shows (s := (s.store s.index (0x0F#16 <<< 8)).feed) (Displays.feed (h.col ▸ hprint)) (by simp) (by simp)

theorem shows_clear (hm : s.mapped = true) (hcolor : p.color = s.color)
    (hbelow : ∀ i, 24 * 80 ≤ i → s.videoMemory i = p.below i) : Shows s.clear p.clear := by
  have hfill : ∀ n, (List.range n).foldl (fun mem i => Function.update mem i (blank s.color)) s.videoMemory =
      fun i => if i < n then blank s.color else s.videoMemory i := fun n => by
    simpa using @foldl_fill s.videoMemory (blank s.color) 0 n
  unfold Console.clear
  rw [if_pos hm, hfill]
  refine Displays.shows ⟨hm, fun r hr k hk => ?_, fun i hi => ?_, rfl, ?_, hcolor⟩ rfl ?_
  · have hlt : r * 80 + k < vgaWidth * vgaHeight := show r * 80 + k < 2000 by omega
    exact (if_pos hlt).trans (congrArg blank hcolor.symm)
  · show (if i < vgaWidth * vgaHeight then _ else _) = if i < 2000 then blank p.color else p.below i
    by_cases hlt : i < 2000
    · have hlt' : i < vgaWidth * vgaHeight := hlt
      rw [if_pos hlt, if_pos hlt', hcolor]
    · have hlt' : ¬i < vgaWidth * vgaHeight := hlt
      rw [if_neg hlt, if_neg hlt', hbelow i hi]
  · show 0 < 24
    decide
  · show 0 < 80
    decide

theorem Shows.moveCursor (h : Shows s p) {x y : BitVec 8} (hx : x.toNat < 80) (hy : y.toNat < 24) :
    Shows (s.moveCursor x y) { p with col := x.toNat, row := p.top + y.toNat } :=
  Displays.shows (s := { s with cursorCol := x, cursorRow := y }) ⟨h.mapped, h.text, h.below, rfl, hy, h.color⟩ rfl hx

/-- **One call.** -/
theorem Shows.apply (h : Shows s p) : ∀ call : ConsoleCall, call.Inside → Shows (call.apply s) (call.onPaper p)
  | .putc c, _ => h.putc c
  | .newline, _ => h.newline
  | .clear, _ => shows_clear h.mapped h.color h.below
  | .setcolor _ _, _ => ⟨⟨h.mapped, h.text, h.below, h.row, h.rowIn, rfl⟩, h.col, h.colIn, h.hardware⟩
  | .moveCursor _ _, hin => h.moveCursor hin.1 hin.2

theorem Shows.run {calls : List ConsoleCall} (h : Shows s p) (hin : ∀ c ∈ calls, c.Inside) :
    Shows (calls.foldl ConsoleCall.apply s) (calls.foldl ConsoleCall.onPaper p) := by
  induction calls generalizing s p with
  | nil => exact h
  | cons c calls ih => exact ih (h.apply c (hin c List.mem_cons_self)) (fun d hd => hin d (List.mem_cons_of_mem c hd))

/-- The paper that is begun when the screen is cleared. -/
def Console.paper (s : Console) : Paper := Paper.clear ⟨fun _ _ => 0, 0, 0, 0, s.color, s.videoMemory⟩

/-- **The screen is a window of the paper**, after any calls since it was cleared: no line that scrolls away takes another
with it, nothing outside the text is written but by a clear, and the cursor of the card stands at the cursor. -/
theorem console_refines (s : Console) (hm : s.mapped = true) (calls : List ConsoleCall) (hin : ∀ c ∈ calls, c.Inside) :
    Shows (calls.foldl ConsoleCall.apply s.clear) (calls.foldl ConsoleCall.onPaper s.paper) :=
  Shows.run (shows_clear hm rfl (fun _ _ => rfl)) hin

end

/-- A screen in the colours at boot. -/
def bootConsole : Console := ⟨true, fun _ => 0, 0, 0, 0x0F, fun _ => 0⟩

/-- A line too many is fed, and the window moves. -/
theorem console_refines_feeds : Shows ((List.replicate 24 (ConsoleCall.putc 10)).foldl ConsoleCall.apply bootConsole.clear)
      ((List.replicate 24 (ConsoleCall.putc 10)).foldl ConsoleCall.onPaper bootConsole.paper) :=
  console_refines bootConsole rfl _ (fun c hc => by
    rw [List.eq_of_mem_replicate hc]
    trivial)

/-! ## A text -/

section

variable {p : Paper} {text : List (BitVec 8)}

/-- The text so far stands on the paper, line by line. -/
structure Paper.Holds (p : Paper) (color : BitVec 8) (text : List (BitVec 8)) : Prop where
  cells : ∀ row, ∀ col < 80, p.cells row col =
    if row * 80 + col < text.length then cell color (text.getD (row * 80 + col) 0) else blank color
  row : p.row = text.length / 80
  col : p.col = text.length % 80
  top : p.top = text.length / 80 - 23
  color : p.color = color

theorem Paper.Holds.putc {color c : BitVec 8} (h : p.Holds color text) (hc : c ≠ 10 ∧ c ≠ 8) :
    (p.putc c).Holds color (text ++ [c]) := by
  obtain ⟨hcells, hrow, hcol, htop, hcolor⟩ := h
  have hprint : ∀ row, ∀ col < 80, (p.print p.row p.col (cell p.color c)).cells row col =
      if row * 80 + col < (text ++ [c]).length then cell color ((text ++ [c]).getD (row * 80 + col) 0) else blank color := by
    intro row col hlt
    have hlen : (text ++ [c]).length = text.length + 1 := by simp
    have hold := hcells row col hlt
    show Function.update p.cells p.row (Function.update (p.cells p.row) p.col (cell p.color c)) row col = _
    rw [hlen]
    by_cases hhere : row * 80 + col = text.length
    · have hr : row = p.row := by omega
      have hk : col = p.col := by omega
      rw [if_pos (by omega), hr, hk, Function.update_self, Function.update_self, ← hr, ← hk, hhere, hcolor]
      simp
    · have hsame : Function.update p.cells p.row (Function.update (p.cells p.row) p.col (cell p.color c)) row col =
          p.cells row col := by
        by_cases hr : row = p.row
        · rw [hr, Function.update_self, Function.update_of_ne (by omega)]
        · rw [Function.update_of_ne hr]
      rw [hsame, hold]
      by_cases hbefore : row * 80 + col < text.length
      · rw [if_pos hbefore, if_pos (by omega), List.getD_append _ _ _ _ hbefore]
      · rw [if_neg hbefore, if_neg (by omega)]
  unfold Paper.putc Paper.advance Paper.feed
  rw [if_neg hc.1, if_neg hc.2]
  have hlen : (text ++ [c]).length = text.length + 1 := by simp
  have hstay : (p.print p.row p.col (cell p.color c)).row = p.row ∧ (p.print p.row p.col (cell p.color c)).col = p.col ∧
      (p.print p.row p.col (cell p.color c)).top = p.top := ⟨rfl, rfl, rfl⟩
  obtain ⟨h1, h2, h3⟩ := hstay
  rw [h1, h2, h3]
  split
  · exact ⟨hprint, by rw [hlen]; dsimp only; omega, by rw [hlen]; dsimp only; omega, by rw [hlen]; dsimp only; omega, hcolor⟩
  split
  · exact ⟨hprint, by rw [hlen]; dsimp only; omega, by rw [hlen]; dsimp only; omega, by rw [hlen]; dsimp only; omega, hcolor⟩
  · refine ⟨fun row col hlt => ?_, by rw [hlen]; dsimp only; omega, by rw [hlen]; dsimp only; omega,
      by rw [hlen]; dsimp only; omega, hcolor⟩
    dsimp only
    by_cases hnew : row = p.row + 1
    · rw [hnew, Function.update_self, if_neg (by omega)]
      exact congrArg blank hcolor
    · rw [Function.update_of_ne hnew, hprint row col hlt]

theorem Paper.Holds.puts {color : BitVec 8} (h : p.Holds color text) : ∀ {str : List (BitVec 8)},
    (∀ c ∈ str, c ≠ 10 ∧ c ≠ 8) → (str.foldl (fun p c => p.putc c) p).Holds color (text ++ str) := by
  intro str hstr
  induction str generalizing p text with
  | nil => simpa using h
  | cons c str ih =>
    have := ih (h.putc (hstr c List.mem_cons_self)) (fun d hd => hstr d (List.mem_cons_of_mem c hd))
    simpa using this

theorem Shows.puts {s : Console} (h : Shows s p) : ∀ {str : List (BitVec 8)},
    Shows (str.foldl (fun s c => s.putc c) s) (str.foldl (fun p c => p.putc c) p) := by
  intro str
  induction str generalizing s p with
  | nil => exact h
  | cons c str ih => exact ih (h.putc c)

/-- **What stands on the screen after a text** without line feeds and backspaces is printed on a cleared screen: its last
lines, 80 characters each, from the first line of the window on; every other cell is blank, and the cursor stands behind the
text. -/
theorem puts_shown (s : Console) (hm : s.mapped = true) (text : List (BitVec 8)) (htext : ∀ c ∈ text, c ≠ 10 ∧ c ≠ 8) :
    (∀ row < 24, ∀ col < 80, ((s.clear).puts text).videoMemory (row * 80 + col) =
      if (text.length / 80 - 23 + row) * 80 + col < text.length then
        cell s.color (text.getD ((text.length / 80 - 23 + row) * 80 + col) 0)
      else blank s.color) ∧
    ((text.length / 80 - 23) + ((s.clear).puts text).cursorRow.toNat) * 80 + ((s.clear).puts text).cursorCol.toNat =
      text.length := by
  have hclear : Shows s.clear s.paper := shows_clear hm rfl (fun _ _ => rfl)
  have hnew : s.paper.Holds s.color [] := ⟨fun _ _ _ => rfl, rfl, rfl, rfl, rfl⟩
  have hputs : (s.clear).puts text = text.foldl (fun s c => s.putc c) s.clear := if_pos hclear.mapped
  have hshows : Shows ((s.clear).puts text) _ := hputs ▸ hclear.puts
  have hholds := hnew.puts htext
  rw [List.nil_append] at hholds
  refine ⟨fun row hr col hk => ?_, ?_⟩
  · rw [hshows.text row hr col hk, hholds.cells _ col hk, hholds.top]
  · have h1 := hshows.row
    have h2 := hshows.col
    rw [hholds.row, hholds.top] at h1
    rw [hholds.col] at h2
    omega

end

/-- Of 2000 characters the first 160 have scrolled away. -/
theorem puts_shown_long : ((bootConsole.clear).puts (List.replicate 2000 65)).videoMemory (23 * 80 + 0) = blank 0x0F ∧
    ((bootConsole.clear).puts (List.replicate 2000 65)).videoMemory (22 * 80 + 79) = cell 0x0F 65 := by
  have h := (puts_shown bootConsole rfl (List.replicate 2000 65) (fun c hc => by
    rw [List.eq_of_mem_replicate hc]
    decide)).1
  rw [List.length_replicate] at h
  refine ⟨h 23 (by decide) 0 (by decide), (h 22 (by decide) 79 (by decide)).trans ?_⟩
  rw [if_pos (by decide)]
  exact congrArg (cell 0x0F) (List.getD_replicate 65 (by decide))

end Screen
end AmitX
