import AmitX.Lib.Stores
import Mathlib.Data.BitVec
/-!
# Mouse — packets and the cursor over the picture (`mouse.c`)

The interrupt handler puts packets of three bytes together; a packet moves the mouse and redraws the cursor straight into
the front buffer, from where it takes what lies under it and puts that back before the next move.  `fb_present` copies the
picture over all of it.  An interrupt and a present are one step each, at 32 bits a pixel and with one pitch.
-/
namespace AmitX
namespace Drivers

abbrev Pixel := BitVec 32

def cursorW : Nat := 11
def cursorH : Nat := 11

/-- Rows and cells at the end that are left out are 0. -/
def cursorArrow : List (List Nat) :=
  [[1], [1, 1], [1, 2, 1], [1, 2, 2, 1], [1, 2, 2, 2, 1], [1, 2, 2, 2, 2, 1], [1, 2, 2, 2, 2, 2, 1],
    [1, 2, 2, 2, 2, 2, 2, 1], [1, 2, 2, 2, 2, 2, 2, 2, 1], List.replicate 10 1]

def cursorLeft : List (List Nat) := [List.replicate 10 1]

def cursorRight : List (List Nat) := List.replicate 5 (List.replicate 5 1)

/-- `cursor[row][col]`. -/
def cursorAt (cursor : List (List Nat)) (row col : Nat) : Nat := (cursor.getD row []).getD col 0

/-- What the driver sees of `fb`; `white` and `black` are the colours of the theme. -/
structure Fb where
  initialized : Bool
  front : Bool
  width : BitVec 32
  height : BitVec 32
  pitchPx : BitVec 32
  white : Pixel
  black : Pixel

namespace Fb

def Inside (fb : Fb) (px py : Int) : Prop := 0 ≤ px ∧ px < fb.width.toInt ∧ 0 ≤ py ∧ py < fb.height.toInt

instance (fb : Fb) (px py : Int) : Decidable (fb.Inside px py) := inferInstanceAs (Decidable (_ ∧ _))

/-- `py * fb.back.pitch_px + px`, of 32 bits. -/
def number (fb : Fb) (px py : Int) : Nat := (BitVec.ofInt 32 py * fb.pitchPx + BitVec.ofInt 32 px).toNat

/-- The colour of a cell of the cursor that is not 0. -/
def shade (fb : Fb) (v : Nat) : Pixel := if v = 1 then fb.white else fb.black

def maxX (fb : Fb) : Int := if fb.initialized then fb.width.toInt - 1 else 1023
def maxY (fb : Fb) : Int := if fb.initialized then fb.height.toInt - 1 else 767

/-- The cells of the cursor at `(x, y)` that lie on the screen, row by row. -/
def cursorCells (fb : Fb) (x y : Int) : List (Nat × Nat) :=
  ((List.range cursorH).flatMap fun row => (List.range cursorW).map fun col => (row, col)).filter
    fun c => fb.Inside (x + c.2) (y + c.1)

/-- How many pixels are copied. -/
def size (fb : Fb) : Nat := fb.pitchPx.toNat * fb.height.toNat

/-- The number of the pixel under a cell. -/
def under (fb : Fb) (x y : Int) (c : Nat × Nat) : Nat := fb.number (x + c.2) (y + c.1)

end Fb

/-- What the handler keeps between the bytes. -/
structure Decoder where
  mousePxX : Int
  mousePxY : Int
  mouseX : Int
  mouseY : Int
  mouseButtons : BitVec 8
  mouseButtonsPrev : BitVec 8
  mouseCycle : Nat
  mouseBytes : Nat → BitVec 8

/-- The two comparisons of each coordinate. -/
def clamp (v max : Int) : Int := if max < (if v < 0 then 0 else v) then max else if v < 0 then 0 else v

/-- A movement of nine bits: a byte and its sign. -/
def movement (b : BitVec 8) (sign : Bool) : Int := if sign then b.toNat - 256 else b.toNat

namespace Decoder

/-- The third byte is there. -/
def decode (fb : Fb) (d : Decoder) : Decoder :=
  let x := clamp (d.mousePxX + movement (d.mouseBytes 1) ((d.mouseBytes 0).getLsbD 4)) fb.maxX
  let y := clamp (d.mousePxY - movement (d.mouseBytes 2) ((d.mouseBytes 0).getLsbD 5)) fb.maxY
  { d with
    mousePxX := x
    mousePxY := y
    mouseX := x
    mouseY := y
    mouseButtonsPrev := d.mouseButtons
    mouseButtons := d.mouseBytes 0 &&& 0x07
    mouseCycle := 0 }

/-- A byte; without bit 3 it cannot be the first of a packet. -/
def byte (fb : Fb) (data : BitVec 8) (d : Decoder) : Decoder :=
  match d.mouseCycle with
  | 0 => if data.getLsbD 3 then { d with mouseBytes := Function.update d.mouseBytes 0 data, mouseCycle := 1 } else d
  | 1 => { d with mouseBytes := Function.update d.mouseBytes 1 data, mouseCycle := 2 }
  | 2 => { d with mouseBytes := Function.update d.mouseBytes 2 data }.decode fb
  | _ => d

/-- `reset_mouse_position`. -/
def reset (fb : Fb) (d : Decoder) : Decoder :=
  let x := if fb.initialized then fb.width.toInt.tdiv 2 else 512
  let y := if fb.initialized then fb.height.toInt.tdiv 2 else 384
  { d with mousePxX := x, mousePxY := y, mouseX := x, mouseY := y, mouseCycle := 0, mouseBytes := fun _ => 0 }

end Decoder

structure Mouse where
  decoder : Decoder
  cursorUnder : Nat → Pixel
  cursorPrevX : Int
  cursorPrevY : Int
  front : Nat → Pixel

namespace Mouse

/-- The picture for the buttons that are down. -/
def cursor (m : Mouse) : List (List Nat) :=
  if m.decoder.mouseButtons.getLsbD 0 then cursorLeft else if m.decoder.mouseButtons.getLsbD 1 then cursorRight else cursorArrow

def eraseFront (fb : Fb) (m : Mouse) : Mouse :=
  if m.cursorPrevX < 0 ∨ fb.initialized = false ∨ fb.front = false then m
  else { m with front := Stores.apply ((fb.cursorCells m.cursorPrevX m.cursorPrevY).map fun c =>
    (fb.under m.cursorPrevX m.cursorPrevY c, m.cursorUnder (c.1 * cursorW + c.2))) m.front }

def drawFront (fb : Fb) (x y : Int) (m : Mouse) : Mouse :=
  if fb.initialized = false ∨ fb.front = false then m
  else { m with
    cursorUnder := Stores.apply ((fb.cursorCells x y).map fun c => (c.1 * cursorW + c.2, m.front (fb.under x y c)))
      m.cursorUnder
    front := Stores.apply (((fb.cursorCells x y).filter fun c => cursorAt m.cursor c.1 c.2 ≠ 0).map fun c =>
      (fb.under x y c, fb.shade (cursorAt m.cursor c.1 c.2))) m.front
    cursorPrevX := x
    cursorPrevY := y }

/-- `mouse_handler`, with the bytes that the two ports give. -/
def handler (fb : Fb) (status data : BitVec 8) (m : Mouse) : Mouse :=
  if status.getLsbD 0 = false ∨ status.getLsbD 5 = false then m
  else
    let moved := { m with decoder := m.decoder.byte fb data }
    if m.decoder.mouseCycle = 2 then
      (moved.eraseFront fb).drawFront fb moved.decoder.mouseX moved.decoder.mouseY
    else moved

def refreshCursor (fb : Fb) (m : Mouse) : Mouse :=
  if fb.initialized = false ∨ fb.front = false then m
  else { m with cursorPrevX := -1 }.drawFront fb m.decoder.mouseX m.decoder.mouseY

/-- `fb_present` of a picture. -/
def present (fb : Fb) (picture : Nat → Pixel) (m : Mouse) : Mouse :=
  if fb.initialized = false then m
  else { m with front := fun i => if i < fb.size then picture i else m.front i }.refreshCursor fb

end Mouse

/-! ## The cursor over the picture -/

/-- **A frame buffer**: it is mapped, its rows do not overlap and its pixels can be numbered. -/
structure Fb.Fits (fb : Fb) : Prop where
  initialized : fb.initialized = true
  front : fb.front = true
  width : 0 < fb.width.toInt
  height : 0 < fb.height.toInt
  pitch : fb.width.toNat ≤ fb.pitchPx.toNat
  numbers : fb.size ≤ 2 ^ 32

/-- **The picture with a cursor over it.** -/
structure Over (fb : Fb) (cursor : List (List Nat)) (x y : Int) (picture front : Nat → Pixel) : Prop where
  cell : ∀ c ∈ fb.cursorCells x y, front (fb.under x y c) =
    if cursorAt cursor c.1 c.2 = 0 then picture (fb.under x y c) else fb.shade (cursorAt cursor c.1 c.2)
  beside : ∀ i < fb.size, (∀ c ∈ fb.cursorCells x y, i ≠ fb.under x y c) → front i = picture i

section

variable {fb : Fb} {x y : Int} {c c' : Nat × Nat} {m : Mouse} {picture : Nat → Pixel}

theorem mem_cursorCells : c ∈ fb.cursorCells x y ↔ (c.1 < 11 ∧ c.2 < 11) ∧ fb.Inside (x + c.2) (y + c.1) := by
  obtain ⟨row, col⟩ := c
  simp [Fb.cursorCells, cursorW, cursorH]

theorem under_eq (hf : fb.Fits) (hc : c ∈ fb.cursorCells x y) :
    fb.under x y c = (y + c.1).toNat * fb.pitchPx.toNat + (x + c.2).toNat ∧ (x + c.2).toNat < fb.pitchPx.toNat ∧
      fb.under x y c < fb.size := by
  obtain ⟨-, h1, h2, h3, h4⟩ := mem_cursorCells.1 hc
  have hw : fb.width.toInt ≤ fb.width.toNat := by rw [BitVec.toInt_eq_toNat_cond]; split <;> omega
  have hh : fb.height.toInt ≤ fb.height.toNat := by rw [BitVec.toInt_eq_toNat_cond]; split <;> omega
  have hp := hf.pitch
  have hlt : (x + c.2).toNat < fb.pitchPx.toNat := by omega
  have hrow : (y + c.1).toNat + 1 ≤ fb.height.toNat := by omega
  have hsize : (y + c.1).toNat * fb.pitchPx.toNat + fb.pitchPx.toNat ≤ fb.size := by
    rw [Fb.size, Nat.mul_comm fb.pitchPx.toNat, ← Nat.succ_mul]
    exact Nat.mul_le_mul_right _ hrow
  have hn := hf.numbers
  have hval : fb.under x y c = (y + c.1).toNat * fb.pitchPx.toNat + (x + c.2).toNat := by
    obtain ⟨a, ha⟩ := Int.eq_ofNat_of_zero_le h3
    obtain ⟨b, hb⟩ := Int.eq_ofNat_of_zero_le h1
    rw [ha, Int.toNat_natCast] at hsize
    rw [hb, Int.toNat_natCast] at hlt
    rw [Fb.under, Fb.number, ha, hb, BitVec.ofInt_natCast, BitVec.ofInt_natCast, BitVec.toNat_add, BitVec.toNat_mul,
      BitVec.toNat_ofNat, BitVec.toNat_ofNat, ← Nat.add_mod, Nat.add_mod, Nat.mod_mul_mod, ← Nat.add_mod,
      Int.toNat_natCast, Int.toNat_natCast]
    exact Nat.mod_eq_of_lt (by omega)
  exact ⟨hval, hlt, by omega⟩

theorem under_inj (hf : fb.Fits) (hc : c ∈ fb.cursorCells x y) (hc' : c' ∈ fb.cursorCells x y)
    (h : fb.under x y c = fb.under x y c') : c = c' := by
  obtain ⟨h1, hlt, -⟩ := under_eq hf hc
  obtain ⟨h2, hlt', -⟩ := under_eq hf hc'
  obtain ⟨-, hx, -, hy, -⟩ := mem_cursorCells.1 hc
  obtain ⟨-, hx', -, hy', -⟩ := mem_cursorCells.1 hc'
  rw [h1, h2, Nat.mul_comm, Nat.mul_comm (y + c'.1).toNat] at h
  have hpos : 0 < fb.pitchPx.toNat := by omega
  have hcol : (x + c.2).toNat = (x + c'.2).toNat := by
    have := congrArg (· % fb.pitchPx.toNat) h
    simpa [Nat.mul_add_mod, Nat.mod_eq_of_lt hlt, Nat.mod_eq_of_lt hlt'] using this
  have hrow : (y + c.1).toNat = (y + c'.1).toNat := by
    rw [hcol] at h
    exact Nat.eq_of_mul_eq_mul_left hpos (Nat.add_right_cancel h)
  exact Prod.ext (by omega) (by omega)

/-- What lies under the cursor has been kept. -/
def Saved (fb : Fb) (x y : Int) (picture under : Nat → Pixel) : Prop :=
  ∀ c ∈ fb.cursorCells x y, under (c.1 * cursorW + c.2) = picture (fb.under x y c)

theorem drawFront_eq (hf : fb.Fits) : m.drawFront fb x y = { m with
    cursorUnder := Stores.apply ((fb.cursorCells x y).map fun c => (c.1 * cursorW + c.2, m.front (fb.under x y c)))
      m.cursorUnder
    front := Stores.apply (((fb.cursorCells x y).filter fun c => cursorAt m.cursor c.1 c.2 ≠ 0).map fun c =>
      (fb.under x y c, fb.shade (cursorAt m.cursor c.1 c.2))) m.front
    cursorPrevX := x
    cursorPrevY := y } := if_neg (by simp [hf.initialized, hf.front])

/-- **A cursor is drawn over the picture.** -/
theorem drawFront_over (hf : fb.Fits) (h : ∀ i < fb.size, m.front i = picture i) :
    Over fb m.cursor x y picture (m.drawFront fb x y).front ∧ Saved fb x y picture (m.drawFront fb x y).cursorUnder := by
  rw [drawFront_eq hf]
  refine ⟨⟨fun c hc => ?_, fun i hi hout => ?_⟩, fun c hc => ?_⟩
  · dsimp only
    rw [← h _ (under_eq hf hc).2.2]
    split
    · rename_i hzero
      refine Stores.apply_of_not (fun s hs heq => ?_)
      obtain ⟨c', hc', rfl⟩ := List.mem_map.1 hs
      obtain ⟨hc', hne⟩ := List.mem_filter.1 hc'
      rw [under_inj hf hc' hc heq, hzero] at hne
      simp at hne
    · rename_i hne
      refine Stores.apply_of_mem (List.mem_map.2 ⟨c, List.mem_filter.2 ⟨hc, by simpa using hne⟩, rfl⟩) (fun s hs heq => ?_)
      obtain ⟨c', hc', rfl⟩ := List.mem_map.1 hs
      rw [under_inj hf (List.mem_filter.1 hc').1 hc heq]
  · dsimp only
    rw [← h i hi]
    refine Stores.apply_of_not (fun s hs heq => ?_)
    obtain ⟨c', hc', rfl⟩ := List.mem_map.1 hs
    exact hout c' (List.mem_filter.1 hc').1 heq.symm
  · dsimp only
    rw [← h _ (under_eq hf hc).2.2]
    refine Stores.apply_of_mem (List.mem_map.2 ⟨c, hc, rfl⟩) (fun s hs heq => ?_)
    obtain ⟨c', hc', rfl⟩ := List.mem_map.1 hs
    have h1 := (mem_cursorCells.1 hc).1
    have h2 := (mem_cursorCells.1 hc').1
    have heq : c'.1 * 11 + c'.2 = c.1 * 11 + c.2 := heq
    rw [Prod.ext (show c'.1 = c.1 by omega) (show c'.2 = c.2 by omega)]

/-- **Erasing the cursor** gives the picture back. -/
theorem eraseFront_picture (hf : fb.Fits) (hpos : 0 ≤ m.cursorPrevX) {cursor : List (List Nat)}
    (hover : Over fb cursor m.cursorPrevX m.cursorPrevY picture m.front)
    (hsaved : Saved fb m.cursorPrevX m.cursorPrevY picture m.cursorUnder) :
    ∀ i < fb.size, (m.eraseFront fb).front i = picture i := by
  intro i hi
  have hnot : ¬(m.cursorPrevX < 0 ∨ fb.initialized = false ∨ fb.front = false) := by
    simp [hf.initialized, hf.front, hpos]
  rw [Mouse.eraseFront, if_neg hnot]
  dsimp only
  by_cases hc : ∃ c ∈ fb.cursorCells m.cursorPrevX m.cursorPrevY, i = fb.under m.cursorPrevX m.cursorPrevY c
  · obtain ⟨c, hc, rfl⟩ := hc
    rw [← hsaved c hc]
    refine Stores.apply_of_mem (List.mem_map.2 ⟨c, hc, rfl⟩) (fun s hs heq => ?_)
    obtain ⟨c', hc', rfl⟩ := List.mem_map.1 hs
    rw [under_inj hf hc' hc heq]
  · push Not at hc
    rw [← hover.beside i hi hc]
    refine Stores.apply_of_not (fun s hs heq => ?_)
    obtain ⟨c', hc', rfl⟩ := List.mem_map.1 hs
    exact hc c' hc' heq.symm

/-- **The mouse is inside, and the cursor lies there over the picture.** -/
structure Good (fb : Fb) (picture : Nat → Pixel) (m : Mouse) : Prop where
  pxX : m.decoder.mousePxX = m.decoder.mouseX
  pxY : m.decoder.mousePxY = m.decoder.mouseY
  inX : 0 ≤ m.decoder.mouseX ∧ m.decoder.mouseX < fb.width.toInt
  inY : 0 ≤ m.decoder.mouseY ∧ m.decoder.mouseY < fb.height.toInt
  prevX : m.cursorPrevX = m.decoder.mouseX
  prevY : m.cursorPrevY = m.decoder.mouseY
  shown : Over fb m.cursor m.decoder.mouseX m.decoder.mouseY picture m.front
  saved : Saved fb m.decoder.mouseX m.decoder.mouseY picture m.cursorUnder

/-- The position that is read is the one that is moved, and inside the screen. -/
def Decoder.Placed (fb : Fb) (d : Decoder) : Prop :=
  (d.mousePxX = d.mouseX ∧ d.mousePxY = d.mouseY) ∧ (0 ≤ d.mouseX ∧ d.mouseX < fb.width.toInt) ∧
    0 ≤ d.mouseY ∧ d.mouseY < fb.height.toInt

theorem clamp_bounds {v max : Int} (h : 0 ≤ max) : 0 ≤ clamp v max ∧ clamp v max ≤ max := by
  unfold clamp
  split <;> split <;> omega

theorem Decoder.placed_decode (hf : fb.Fits) (d : Decoder) : (d.decode fb).Placed fb := by
  have hw := hf.width
  have hh := hf.height
  have hx : fb.maxX = fb.width.toInt - 1 := if_pos hf.initialized
  have hy : fb.maxY = fb.height.toInt - 1 := if_pos hf.initialized
  have h1 := @clamp_bounds (d.mousePxX + movement (d.mouseBytes 1) ((d.mouseBytes 0).getLsbD 4)) fb.maxX (by omega)
  have h2 := @clamp_bounds (d.mousePxY - movement (d.mouseBytes 2) ((d.mouseBytes 0).getLsbD 5)) fb.maxY (by omega)
  exact ⟨⟨rfl, rfl⟩, ⟨h1.1, by show clamp _ _ < _; omega⟩, h2.1, by show clamp _ _ < _; omega⟩

/-- **A byte**: the third of a packet moves the mouse, and the others leave the position and the buttons. -/
theorem Decoder.byte_cases (d : Decoder) (fb : Fb) (data : BitVec 8) :
    (d.mouseCycle = 2 ∧ d.byte fb data = { d with mouseBytes := Function.update d.mouseBytes 2 data }.decode fb) ∨
      d.mouseCycle ≠ 2 ∧ ∃ bytes cycle, d.byte fb data = { d with mouseBytes := bytes, mouseCycle := cycle } := by
  unfold Decoder.byte
  split
  · rename_i h
    refine .inr ⟨by omega, ?_⟩
    split
    · exact ⟨_, _, rfl⟩
    · exact ⟨d.mouseBytes, d.mouseCycle, rfl⟩
  · rename_i h
    exact .inr ⟨by omega, _, _, rfl⟩
  · rename_i h
    exact .inl ⟨h, rfl⟩
  · rename_i h2
    exact .inr ⟨h2, d.mouseBytes, d.mouseCycle, rfl⟩

/-- **A packet or a present** puts the cursor where the mouse is. -/
theorem good_drawFront (hf : fb.Fits) (h : ∀ i < fb.size, m.front i = picture i) (hm : m.decoder.Placed fb) :
    Good fb picture (m.drawFront fb m.decoder.mouseX m.decoder.mouseY) := by
  obtain ⟨hover, hsaved⟩ := drawFront_over (x := m.decoder.mouseX) (y := m.decoder.mouseY) hf h
  rw [drawFront_eq hf] at hover hsaved ⊢
  exact ⟨hm.1.1, hm.1.2, hm.2.1, hm.2.2, rfl, rfl, hover, hsaved⟩

theorem Good.placed (h : Good fb picture m) : m.decoder.Placed fb := ⟨⟨h.pxX, h.pxY⟩, h.inX, h.inY⟩

theorem good_present (hf : fb.Fits) (hm : m.decoder.Placed fb) (picture : Nat → Pixel) :
    Good fb picture (m.present fb picture) := by
  have hinit : ¬fb.initialized = false := by simp [hf.initialized]
  have hready : ¬(fb.initialized = false ∨ fb.front = false) := by simp [hf.initialized, hf.front]
  rw [Mouse.present, if_neg hinit, Mouse.refreshCursor, if_neg hready]
  exact good_drawFront (m := { m with
    front := fun i => if i < fb.size then picture i else m.front i, cursorPrevX := -1 }) hf (fun i hi => if_pos hi) hm

theorem Good.handler (hf : fb.Fits) (h : Good fb picture m) (status data : BitVec 8) :
    Good fb picture (m.handler fb status data) := by
  unfold Mouse.handler
  split
  · exact h
  rcases m.decoder.byte_cases fb data with ⟨hc, hbyte⟩ | ⟨hc, bytes, cycle, hbyte⟩
  · rw [if_pos hc]
    have hplaced : (m.decoder.byte fb data).Placed fb := hbyte ▸ Decoder.placed_decode hf _
    have herase := eraseFront_picture (m := { m with decoder := m.decoder.byte fb data }) hf (h.prevX ▸ h.inX.1)
      (h.prevX ▸ h.prevY ▸ h.shown) (h.prevX ▸ h.prevY ▸ h.saved)
    have hdecoder : ({ m with decoder := m.decoder.byte fb data }.eraseFront fb).decoder = m.decoder.byte fb data := by
      unfold Mouse.eraseFront
      split <;> rfl
    have hgood := good_drawFront hf herase (by rw [hdecoder]; exact hplaced)
    rwa [hdecoder] at hgood
  · rw [if_neg hc, hbyte]
    exact ⟨h.pxX, h.pxY, h.inX, h.inY, h.prevX, h.prevY, h.shown, h.saved⟩

/-- What happens to the front buffer. -/
inductive MouseEvent
  | irq (status data : BitVec 8)
  | present (picture : Nat → Pixel)

def MouseEvent.apply (fb : Fb) (m : Mouse) : MouseEvent → Mouse
  | irq status data => m.handler fb status data
  | present picture => m.present fb picture

/-- The picture that was presented last. -/
def MouseEvent.last (picture : Nat → Pixel) : MouseEvent → Nat → Pixel
  | irq _ _ => picture
  | present picture' => picture'

theorem Good.run (hf : fb.Fits) (h : Good fb picture m) (events : List MouseEvent) :
    Good fb (events.foldl MouseEvent.last picture) (events.foldl (MouseEvent.apply fb) m) := by
  induction events generalizing picture m with
  | nil => exact h
  | cons e events ih =>
    cases e with
    | irq status data => exact ih (h.handler hf status data)
    | present picture' => exact ih (good_present hf h.placed picture')

theorem placed_reset (hf : fb.Fits) (d : Decoder) : (d.reset fb).Placed fb := by
  have hw := hf.width
  have hh := hf.height
  have hx : (d.reset fb).mouseX = fb.width.toInt.tdiv 2 := if_pos hf.initialized
  have hy : (d.reset fb).mouseY = fb.height.toInt.tdiv 2 := if_pos hf.initialized
  rw [Int.tdiv_eq_ediv_of_nonneg hw.le] at hx
  rw [Int.tdiv_eq_ediv_of_nonneg hh.le] at hy
  refine ⟨⟨rfl, rfl⟩, ?_, ?_⟩
  · omega
  · omega

end

/-- A screen of 100 × 100 pixels. -/
def smallFb : Fb := ⟨true, true, 100, 100, 100, 0xFFFFFF, 0⟩

theorem smallFb_fits : smallFb.Fits := ⟨rfl, rfl, by decide, by decide, by decide, by decide⟩

def bootMouse : Mouse := ⟨⟨512, 384, 512, 384, 0, 0, 0, fun _ => 0⟩, fun _ => 0, -1, -1, fun _ => 0⟩

/-- A packet by 5 pixels to the right and 3 up. -/
def onePacket : List MouseEvent := [.irq 0x21 0x08, .irq 0x21 5, .irq 0x21 3]

def movedMouse : Mouse := onePacket.foldl (MouseEvent.apply smallFb)
  ({ bootMouse with decoder := bootMouse.decoder.reset smallFb }.present smallFb fun _ => 7)

/-! ## The packets -/

/-- A packet of three bytes. -/
abbrev Packet := BitVec 8 × BitVec 8 × BitVec 8

/-- **The packets in a stream of bytes**: what cannot begin one is dropped. -/
def packets : List (BitVec 8) → List Packet
  | b :: b1 :: b2 :: rest => if b.getLsbD 3 then (b, b1, b2) :: packets rest else packets (b1 :: b2 :: rest)
  | _ => []

structure Pointer where
  x : Int
  y : Int
  buttons : BitVec 8

/-- A packet moves the pointer within the screen. -/
def Pointer.move (fb : Fb) (q : Pointer) (p : Packet) : Pointer :=
  ⟨clamp (q.x + movement p.2.1 (p.1.getLsbD 4)) fb.maxX, clamp (q.y - movement p.2.2 (p.1.getLsbD 5)) fb.maxY, p.1 &&& 0x07⟩

def Decoder.pointer (d : Decoder) : Pointer := ⟨d.mouseX, d.mouseY, d.mouseButtons⟩

/-- The bytes that the handler takes from the mouse. -/
def received : List MouseEvent → List (BitVec 8)
  | [] => []
  | .irq status data :: events =>
    if status.getLsbD 0 = false ∨ status.getLsbD 5 = false then received events else data :: received events
  | .present _ :: events => received events

section

variable {fb : Fb} {d : Decoder} {m : Mouse}

/-- Between two packets. -/
def Decoder.Ready (d : Decoder) : Prop := d.mouseCycle = 0 ∧ d.mousePxX = d.mouseX ∧ d.mousePxY = d.mouseY

theorem byte_dropped (h : d.Ready) {b : BitVec 8} (hb : ¬b.getLsbD 3 = true) : d.byte fb b = d := by
  rw [Decoder.byte, h.1]
  exact if_neg hb

theorem byte_first (h : d.Ready) {b : BitVec 8} (hb : b.getLsbD 3 = true) :
    d.byte fb b = { d with mouseBytes := Function.update d.mouseBytes 0 b, mouseCycle := 1 } := by
  rw [Decoder.byte, h.1]
  exact if_pos hb

/-- **A packet** in a row moves the pointer. -/
theorem packet_decoded (h : d.Ready) (fb : Fb) {b : BitVec 8} (b1 b2 : BitVec 8) (hb : b.getLsbD 3 = true) :
    (((d.byte fb b).byte fb b1).byte fb b2).pointer = d.pointer.move fb (b, b1, b2) ∧
      (((d.byte fb b).byte fb b1).byte fb b2).Ready := by
  rw [byte_first h hb]
  refine ⟨?_, rfl, rfl, rfl⟩
  simp [Decoder.pointer, Pointer.move, Decoder.byte, Decoder.decode, h.2.1, h.2.2]

theorem pointer_byte (h : d.mouseCycle ≠ 2) (b : BitVec 8) : (d.byte fb b).pointer = d.pointer := by
  rcases d.byte_cases fb b with ⟨hc, -⟩ | ⟨-, bytes, cycle, hbyte⟩
  · exact absurd hc h
  · rw [hbyte]
    rfl

theorem bytes_decoded (h : d.Ready) (data : List (BitVec 8)) :
    (data.foldl (fun d b => d.byte fb b) d).pointer = (packets data).foldl (Pointer.move fb) d.pointer := by
  have hzero : d.mouseCycle ≠ 2 := by rw [h.1]; decide
  induction data using packets.induct generalizing d with
  | case1 b b1 b2 rest hb ih =>
    obtain ⟨hmove, hready⟩ := packet_decoded h fb b1 b2 hb
    rw [packets, if_pos hb, List.foldl_cons (f := Pointer.move fb), ← hmove]
    exact ih hready (by rw [hready.1]; decide)
  | case2 b b1 b2 rest hb ih =>
    rw [packets, if_neg hb, List.foldl_cons, byte_dropped h hb]
    exact ih h hzero
  | case3 data hshort =>
    -- fewer than three bytes decode nothing
    cases data with
    | nil => rfl
    | cons b data =>
      cases data with
      | nil => exact pointer_byte hzero b
      | cons b1 data =>
        cases data with
        | cons b2 rest => exact absurd rfl (hshort b b1 b2 rest)
        | nil =>
          refine (pointer_byte ?_ b1).trans (pointer_byte hzero b)
          show (d.byte fb b).mouseCycle ≠ 2
          by_cases hb : b.getLsbD 3 = true
          · rw [byte_first h hb]
            exact (by decide : (1 : Nat) ≠ 2)
          · rwa [byte_dropped h hb]

theorem decoder_draw (x y : Int) : (m.drawFront fb x y).decoder = m.decoder := by
  unfold Mouse.drawFront
  split <;> rfl

theorem decoder_apply (e : MouseEvent) : (e.apply fb m).decoder = (received [e]).foldl (fun d b => d.byte fb b) m.decoder := by
  cases e with
  | irq status data =>
    rw [MouseEvent.apply, Mouse.handler, received]
    split
    · rfl
    · split
      · rw [decoder_draw, Mouse.eraseFront]
        split <;> rfl
      · rfl
  | present picture =>
    rw [MouseEvent.apply, Mouse.present, Mouse.refreshCursor]
    split
    · rfl
    · split
      · rfl
      · rw [decoder_draw]
        rfl

theorem received_cons (e : MouseEvent) (events : List MouseEvent) : received (e :: events) = received [e] ++ received events := by
  cases e with
  | irq status data =>
    rw [received, received]
    split <;> rfl
  | present picture => rfl

/-- **The pointer moves by the packets** in the bytes that the handler took, and the buttons are those of the last one;
presents between the bytes do not matter, and bytes that cannot begin a packet are dropped. -/
theorem packets_move_pointer (fb : Fb) (m : Mouse) (h : m.decoder.Ready) (events : List MouseEvent) :
    (events.foldl (MouseEvent.apply fb) m).decoder.pointer =
      (packets (received events)).foldl (Pointer.move fb) m.decoder.pointer := by
  rw [← bytes_decoded h]
  refine congrArg Decoder.pointer ?_
  clear h
  induction events generalizing m with
  | nil => rfl
  | cons e events ih => rw [List.foldl_cons, ih, received_cons, List.foldl_append, decoder_apply]

end

/-- The packet is decoded. -/
theorem packets_move_pointer_one : (onePacket.foldl (MouseEvent.apply smallFb)
    { bootMouse with decoder := bootMouse.decoder.reset smallFb }).decoder.pointer = ⟨55, 47, 0⟩ := by
  refine (packets_move_pointer smallFb _ ⟨rfl, rfl, rfl⟩ onePacket).trans ?_
  rfl

end Drivers
end AmitX
