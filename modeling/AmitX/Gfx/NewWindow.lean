import AmitX.Gfx.FillRect
import AmitX.Gfx.Present
/-!
# NewWindow — the pixels of a new window (`window.c`)

`window_create` clears the buffer that `malloc` returned, and draws the frame, through functions that take a handle; but
it passes them the slot's number, which is the window's handle for generation 0 only.  For any other generation
`window_get` finds no window there, and the buffer stays as the heap left it.

In a buffer `none` is a pixel that has not been stored to since `malloc`.
-/
namespace AmitX
namespace Gfx

open Run Bytes

/-- `gfx_theme_color_t`. -/
inductive ThemeColor
  | bgDesktop | bgPanel | bgTitle | bgHighlight | bgButton | bgButtonHover | fgText | fgTextDim | fgAccent
  | borderLight | borderDark | red | green | blue | yellow | white | black

structure Look where
  bpp : Nat
  redMask : BitVec 32
  font8x8 : Byte → Nat → BitVec 8

def gfxThemeColor (look : Look) : ThemeColor → Pixel
  | .bgDesktop => fbPackPixel look.bpp look.redMask 20 30 100
  | .bgPanel => fbPackPixel look.bpp look.redMask 40 45 60
  | .bgTitle => fbPackPixel look.bpp look.redMask 80 90 120
  | .bgHighlight => fbPackPixel look.bpp look.redMask 100 120 160
  | .bgButton => fbPackPixel look.bpp look.redMask 60 70 90
  | .bgButtonHover => fbPackPixel look.bpp look.redMask 80 95 120
  | .fgText => fbPackPixel look.bpp look.redMask 255 255 255
  | .fgTextDim => fbPackPixel look.bpp look.redMask 180 180 200
  | .fgAccent => fbPackPixel look.bpp look.redMask 100 200 255
  | .borderLight => fbPackPixel look.bpp look.redMask 120 130 150
  | .borderDark => fbPackPixel look.bpp look.redMask 20 25 35
  | .red => fbPackPixel look.bpp look.redMask 255 0 0
  | .green => fbPackPixel look.bpp look.redMask 0 255 0
  | .blue => fbPackPixel look.bpp look.redMask 0 0 255
  | .yellow => fbPackPixel look.bpp look.redMask 255 255 0
  | .white => fbPackPixel look.bpp look.redMask 255 255 255
  | .black => fbPackPixel look.bpp look.redMask 0 0 0

def draw (stores : List (Nat × Pixel)) (mem : Nat → Option Pixel) : Nat → Option Pixel :=
  Stores.apply (stores.map fun s => (s.1, some s.2)) mem

/-- The loops of `window_clear`. -/
def clearStores (surface : Surface) (color : Pixel) : List (Nat × Pixel) :=
  (List.range surface.height.toNat).flatMap fun row => (List.range surface.width.toNat).map fun col =>
    (row * surface.pitchPx.toNat % 2 ^ 32 + col, color)

def gfxPutPixel (surface : Surface) (x y : Nat) (color : Pixel) : List (Nat × Pixel) :=
  if x ≥ surface.width.toNat ∨ y ≥ surface.height.toNat then []
  else [((y * surface.pitchPx.toNat + x) % 2 ^ 32, color)]

def gfxDrawChar (look : Look) (surface : Surface) (x y : Nat) (c : Byte) (color : Pixel) : List (Nat × Pixel) :=
  if x ≥ surface.width.toNat ∨ y ≥ surface.height.toNat then []
  else
    let uc := if c < 32 ∨ c ≥ 128 then 0x3F else c
    ((List.range 8).takeWhile fun row => (y + row) % 2 ^ 32 < surface.height.toNat).flatMap fun row =>
      ((List.range 8).takeWhile fun col => (x + col) % 2 ^ 32 < surface.width.toNat).flatMap fun col =>
        if (look.font8x8 uc row).getLsbD (7 - col) then
          gfxPutPixel surface ((x + col) % 2 ^ 32) ((y + row) % 2 ^ 32) color
        else []

/-- The four borders; the indices are numbers of 32 bits, but for the first row's. -/
def borderStores (look : Look) (surface : Surface) : List (Nat × Pixel) :=
  let w := surface.width.toInt
  let h := surface.height.toInt
  (List.range w.toNat).flatMap (fun i =>
    [(i, gfxThemeColor look .borderLight),
      ((BitVec.ofInt 32 (h - 1) * surface.pitchPx + BitVec.ofNat 32 i).toNat, gfxThemeColor look .borderDark)]) ++
  (List.range h.toNat).flatMap fun i =>
    [((BitVec.ofNat 32 i * surface.pitchPx).toNat, gfxThemeColor look .borderLight),
      ((BitVec.ofNat 32 i * surface.pitchPx + BitVec.ofInt 32 (w - 1)).toNat, gfxThemeColor look .borderDark)]

def titleStores (look : Look) (surface : Surface) (title : List Byte) : List (Nat × Pixel) :=
  let w := surface.width.toInt
  let h := surface.height.toInt
  (List.range (min 20 h.toNat)).flatMap (fun row => (List.range w.toNat).map fun col =>
    ((BitVec.ofNat 32 row * surface.pitchPx + BitVec.ofNat 32 col).toNat, gfxThemeColor look .bgTitle)) ++
  ((List.range title.length).takeWhile fun i : Nat => decide (4 + (i : Int) * 8 < w - 8)).flatMap fun i =>
    gfxDrawChar look surface (4 + i * 8) 6 (title.getD i 0) (gfxThemeColor look .white)

/-- The stores of `window_draw_frame`: `WIN_FLAG_BORDER` is bit 0 of the flags, `WIN_FLAG_TITLEBAR` bit 1. -/
def frameStores (look : Look) (surface : Surface) (flags : Nat) (title : List Byte) : List (Nat × Pixel) :=
  (if flags.testBit 0 then borderStores look surface else []) ++
    if flags.testBit 1 then titleStores look surface title else []

structure Drawn where
  surface : Surface
  title : List Byte

def drawOn (stores : Drawn → Win → List (Nat × Pixel)) (drawn : Nat → Drawn) (handle : Nat) (s : Manager)
    (mem : Nat → Nat → Option Pixel) : Manager × (Nat → Nat → Option Pixel) :=
  match windowGet s handle with
  | none => (s, mem)
  | some slot =>
    if (s.windows slot).pixels = false then (s, mem)
    else
      (s.modify slot (fun win => { win with dirty := true }),
        Function.update mem slot (draw (stores (drawn slot) (s.windows slot)) (mem slot)))

def windowClear (color : Pixel) : (Nat → Drawn) → Nat → Manager → (Nat → Nat → Option Pixel) →
    Manager × (Nat → Nat → Option Pixel) :=
  drawOn fun d _ => clearStores d.surface color

def windowDrawFrame (look : Look) : (Nat → Drawn) → Nat → Manager → (Nat → Nat → Option Pixel) →
    Manager × (Nat → Nat → Option Pixel) :=
  drawOn fun d win => frameStores look d.surface win.flags d.title

def maxTitleLen : Nat := 64

/-- The surface and the title of a new window; the title is NULL, or text of a C string. -/
def newDrawn (w h : Int) (title : Option (List Byte)) : Drawn :=
  ⟨⟨BitVec.ofInt 32 w, BitVec.ofInt 32 h, BitVec.ofInt 32 w, Nat.le_refl _⟩, (title.getD []).take (maxTitleLen - 1)⟩

def managerAt (x y w h : Int) (flags : Nat) (pixels : Bool) (slot : Nat) (s : Manager) : Manager :=
  Manager.modify slot (fun _ => ⟨slot, s.nextGeneration, pixels, .visible, false, x, y, w, h, flags, pixels, true⟩)
    { s with nextGeneration := (s.nextGeneration + 1) % 2 ^ 32 }

/-- `window_create` with the pixels that it draws. -/
def windowCreateDrawn (look : Look) (x y w h : Int) (title : Option (List Byte)) (flags : Nat) (pixels : Bool)
    (s : Manager) (drawn : Nat → Drawn) (mem : Nat → Nat → Option Pixel) :
    Option Nat × Manager × (Nat → Nat → Option Pixel) :=
  match windowFindFree s with
  | none => (none, s, mem)
  | some slot =>
    let handle := handleMake slot s.nextGeneration
    let s := managerAt x y w h flags pixels slot s
    if pixels = false then (none, s, mem)
    else
      let drawn := Function.update drawn slot (newDrawn w h title)
      let mem := Function.update mem slot (fun _ => none)
      let (s, mem) := windowClear (gfxThemeColor look .bgPanel) drawn slot s mem
      let (s, mem) := if flags.testBit 0 ∨ flags.testBit 1 then windowDrawFrame look drawn slot s mem else (s, mem)
      (some handle, zOrderPushTop handle s, mem)

/-! ## The pixels of a new window -/

def windowColours (look : Look) : List Pixel :=
  [gfxThemeColor look .bgPanel, gfxThemeColor look .borderLight, gfxThemeColor look .borderDark,
    gfxThemeColor look .bgTitle, gfxThemeColor look .white]

def AllSet (look : Look) (surface : Surface) (buffer : Nat → Option Pixel) : Prop :=
  ∀ py < surface.height.toNat, ∀ px < surface.width.toNat,
    ∃ c ∈ windowColours look, buffer (py * surface.pitchPx.toNat + px) = some c

/-- **No new window shows stale memory**: after each call of the run that returns a handle, whatever the title and the
memory before. -/
def NoStale (look : Look) (calls : List WinCall) : Prop :=
  ∀ before x y w h flags pixels after, calls = before ++ .create x y w h flags pixels :: after →
    let s := (run WinCall.run windowsInit before).2
    ∀ title drawn mem slot handle, windowFindFree s = some slot →
      (windowCreateDrawn look x y w h title flags pixels s drawn mem).1 = some handle →
        AllSet look (newDrawn w h title).surface
          ((windowCreateDrawn look x y w h title flags pixels s drawn mem).2.2 slot)

/-- A new window with pixels has generation 0, and its last row starts at a number of 32 bits. -/
def WinCall.Cleared (s : Manager) : WinCall → Prop
  | .create _ _ w h _ pixels => ∀ slot, windowFindFree s = some slot → pixels = true →
    (BitVec.ofInt 32 w = 0 ∨ BitVec.ofInt 32 h = 0) ∨
    (s.nextGeneration = 0 ∧ ((BitVec.ofInt 32 h).toNat - 1) * (BitVec.ofInt 32 w).toNat < 2 ^ 32)
  | _ => True

section

variable {look : Look} {surface : Surface} {mem : Nat → Option Pixel} {i : Nat}

theorem draw_of_not {stores : List (Nat × Pixel)} (h : ∀ s ∈ stores, s.1 ≠ i) : draw stores mem i = mem i := by
  refine Stores.apply_of_not fun s hs => ?_
  obtain ⟨t, ht, rfl⟩ := List.mem_map.1 hs
  exact h t ht

theorem draw_cases (stores : List (Nat × Pixel)) (mem : Nat → Option Pixel) (i : Nat) :
    draw stores mem i = mem i ∨ ∃ s ∈ stores, s.1 = i ∧ draw stores mem i = some s.2 := by
  rcases Stores.apply_cases (stores.map fun s => (s.1, some s.2)) mem i with ⟨-, h⟩ | ⟨s, hs, hi, h⟩
  · exact .inl h
  · obtain ⟨t, ht, rfl⟩ := List.mem_map.1 hs
    exact .inr ⟨t, ht, hi, h⟩

def ChromeStore (look : Look) (s : Nat × Pixel) : Prop := s.1 < 2 ^ 32 ∧ s.2 ∈ windowColours look

theorem chrome_of_toNat (n : BitVec 32) {c : Pixel} (hc : c ∈ windowColours look) : ChromeStore look (n.toNat, c) :=
  ⟨n.isLt, hc⟩

theorem chrome_border : ∀ s ∈ borderStores look surface, ChromeStore look s := by
  intro s hs
  have hlight : gfxThemeColor look .borderLight ∈ windowColours look := by simp [windowColours]
  have hdark : gfxThemeColor look .borderDark ∈ windowColours look := by simp [windowColours]
  simp only [borderStores, List.mem_append, List.mem_flatMap, List.mem_range, List.mem_cons, List.not_mem_nil,
    or_false] at hs
  rcases hs with ⟨i, hi, rfl | rfl⟩ | ⟨i, -, rfl | rfl⟩
  · have := BitVec.toInt_lt (x := surface.width)
    exact ⟨show i < 2 ^ 32 by omega, hlight⟩
  · exact chrome_of_toNat _ hdark
  · exact chrome_of_toNat _ hlight
  · exact chrome_of_toNat _ hdark

theorem chrome_putPixel {x y : Nat} {color : Pixel} (hc : color ∈ windowColours look) :
    ∀ s ∈ gfxPutPixel surface x y color, ChromeStore look s := by
  intro s hs
  unfold gfxPutPixel at hs
  split at hs
  · cases hs
  · obtain rfl := List.mem_singleton.1 hs
    exact ⟨Nat.mod_lt _ (by decide), hc⟩

theorem chrome_drawChar {x y : Nat} {c : Byte} {color : Pixel} (hc : color ∈ windowColours look) :
    ∀ s ∈ gfxDrawChar look surface x y c color, ChromeStore look s := by
  intro s hs
  unfold gfxDrawChar at hs
  split at hs
  · cases hs
  dsimp only at hs
  generalize (if c < 32 ∨ c ≥ 128 then (0x3F : Byte) else c) = uc at hs
  simp only [List.mem_flatMap] at hs
  obtain ⟨row, -, col, -, hs⟩ := hs
  split at hs
  · exact chrome_putPixel hc s hs
  · cases hs

theorem chrome_title {title : List Byte} : ∀ s ∈ titleStores look surface title, ChromeStore look s := by
  intro s hs
  have hbar : gfxThemeColor look .bgTitle ∈ windowColours look := by simp [windowColours]
  have hwhite : gfxThemeColor look .white ∈ windowColours look := by simp [windowColours]
  simp only [titleStores, List.mem_append, List.mem_flatMap, List.mem_map] at hs
  rcases hs with ⟨row, -, col, -, rfl⟩ | ⟨i, -, hs⟩
  · exact chrome_of_toNat _ hbar
  · exact chrome_drawChar hwhite s hs

theorem chrome_frame {flags : Nat} {title : List Byte} : ∀ s ∈ frameStores look surface flags title, ChromeStore look s := by
  intro s hs
  rcases List.mem_append.1 hs with hs | hs
  · split at hs
    · exact chrome_border s hs
    · cases hs
  · split at hs
    · exact chrome_title s hs
    · cases hs

theorem mem_clearStores {color : Pixel} {s : Nat × Pixel} : s ∈ clearStores surface color ↔
    ∃ row < surface.height.toNat, ∃ col < surface.width.toNat,
      s = (row * surface.pitchPx.toNat % 2 ^ 32 + col, color) := by
  simp only [clearStores, List.mem_flatMap, List.mem_map, List.mem_range, eq_comm]

theorem draw_clearStores {color : Pixel} (hlast : (surface.height.toNat - 1) * surface.pitchPx.toNat < 2 ^ 32)
    {py px : Nat} (hy : py < surface.height.toNat) (hx : px < surface.width.toNat) :
    draw (clearStores surface color) mem (py * surface.pitchPx.toNat + px) = some color := by
  have hrow : py * surface.pitchPx.toNat < 2 ^ 32 :=
    Nat.lt_of_le_of_lt (Nat.mul_le_mul_right _ (by omega)) hlast
  refine Stores.apply_of_mem (List.mem_map.2 ⟨_, mem_clearStores.2 ⟨py, hy, px, hx, rfl⟩, ?_⟩) fun s hs _ => ?_
  · rw [Nat.mod_eq_of_lt hrow]
  · obtain ⟨t, ht, rfl⟩ := List.mem_map.1 hs
    obtain ⟨row, -, col, -, rfl⟩ := mem_clearStores.1 ht
    rfl

def newBuffer (look : Look) (d : Drawn) (flags : Nat) : Nat → Option Pixel :=
  let cleared := draw (clearStores d.surface (gfxThemeColor look .bgPanel)) fun _ => none
  if flags.testBit 0 ∨ flags.testBit 1 then draw (frameStores look d.surface flags d.title) cleared else cleared

theorem newBuffer_cases (look : Look) (d : Drawn) (flags i : Nat) :
    newBuffer look d flags i = draw (clearStores d.surface (gfxThemeColor look .bgPanel)) (fun _ => none) i ∨
      i < 2 ^ 32 ∧ ∃ c ∈ windowColours look, newBuffer look d flags i = some c := by
  unfold newBuffer
  split
  · rcases draw_cases (frameStores look d.surface flags d.title)
      (draw (clearStores d.surface (gfxThemeColor look .bgPanel)) fun _ => none) i with h | ⟨s, hs, rfl, h⟩
    · exact .inl h
    · obtain ⟨hlt, hc⟩ := chrome_frame s hs
      exact .inr ⟨hlt, s.2, hc, h⟩
  · exact .inl rfl

/-- **The buffer of a window that is found is set just where it has no pixel or its last row starts at a number of 32
bits.** -/
theorem allSet_newBuffer_iff (d : Drawn) (hpitch : d.surface.pitchPx = d.surface.width) (flags : Nat) :
    AllSet look d.surface (newBuffer look d flags) ↔ (d.surface.width = 0 ∨ d.surface.height = 0) ∨
      (d.surface.height.toNat - 1) * d.surface.width.toNat < 2 ^ 32 := by
  constructor
  · intro hall
    by_contra hnot
    obtain ⟨hempty, hlast⟩ := not_or.1 hnot
    obtain ⟨hw, hh⟩ := not_or.1 hempty
    have hw' : d.surface.width.toNat ≠ 0 := fun h0 => hw (BitVec.eq_of_toNat_eq h0)
    have hh' : d.surface.height.toNat ≠ 0 := fun h0 => hh (BitVec.eq_of_toNat_eq h0)
    -- the last pixel lies behind all that is stored
    obtain ⟨c, -, hset⟩ := hall (d.surface.height.toNat - 1) (by omega) (d.surface.width.toNat - 1) (by omega)
    rw [hpitch] at hset
    rcases newBuffer_cases look d flags
      ((d.surface.height.toNat - 1) * d.surface.width.toNat + (d.surface.width.toNat - 1)) with hclear | ⟨hlt, -⟩
    · rw [hclear, draw_of_not] at hset
      · cases hset
      · intro s hs hplace
        obtain ⟨row, -, col, hcol, rfl⟩ := mem_clearStores.1 hs
        have := Nat.mod_lt (row * d.surface.pitchPx.toNat) (Nat.two_pow_pos 32)
        simp only at hplace
        omega
    · omega
  · rintro (hempty | hlast) py hy px hx
    · rcases hempty with h0 | h0
      · rw [h0] at hx
        simp at hx
      · rw [h0] at hy
        simp at hy
    · rcases newBuffer_cases look d flags (py * d.surface.pitchPx.toNat + px) with hclear | ⟨-, hset⟩
      · rw [hclear, draw_clearStores (by rw [hpitch]; exact hlast) hy hx]
        exact ⟨_, by simp [windowColours], rfl⟩
      · exact hset

end

/-! ## The handle that is the slot's number -/

section

variable {look : Look} {s : Manager} {x y w h : Int} {title : Option (List Byte)} {flags slot : Nat}
  {drawn : Nat → Drawn} {mem : Nat → Nat → Option Pixel}

theorem handleId_slot (hslot : slot < maxWindows) : handleId slot = slot ∧ handleGen slot = 0 := by
  unfold handleId handleGen
  unfold maxWindows at hslot
  omega

theorem windowGet_managerAt (hslot : slot < maxWindows) :
    windowGet (managerAt x y w h flags true slot s) slot = if s.nextGeneration = 0 then some slot else none := by
  obtain ⟨hid, hgen⟩ := handleId_slot hslot
  have hwin : (managerAt x y w h flags true slot s).windows slot =
      ⟨slot, s.nextGeneration, true, .visible, false, x, y, w, h, flags, true, true⟩ := Function.update_self _ _ _
  split
  · next h0 =>
    refine windowGet_eq_some.2 ⟨hid.symm, hslot, ?_, ?_⟩
    · rw [hwin]
    · rw [hwin, hgen, ← h0]
  · next h0 =>
    refine Option.eq_none_iff_forall_ne_some.2 fun i hi => h0 ?_
    obtain ⟨rfl, -, -, hg⟩ := windowGet_eq_some.1 hi
    rw [hid, hwin, hgen] at hg
    exact hg

theorem drawOn_managerAt (stores : Drawn → Win → List (Nat × Pixel)) (hslot : slot < maxWindows) :
    drawOn stores drawn slot (managerAt x y w h flags true slot s) mem =
      (managerAt x y w h flags true slot s, if s.nextGeneration = 0 then
        Function.update mem slot (draw (stores (drawn slot) ((managerAt x y w h flags true slot s).windows slot)) (mem slot))
        else mem) := by
  have hwin : (managerAt x y w h flags true slot s).windows slot =
      ⟨slot, s.nextGeneration, true, .visible, false, x, y, w, h, flags, true, true⟩ := Function.update_self _ _ _
  have hsame : (managerAt x y w h flags true slot s).modify slot (fun win => { win with dirty := true }) =
      managerAt x y w h flags true slot s := by
    have hupdate : Function.update (managerAt x y w h flags true slot s).windows slot
        ⟨slot, s.nextGeneration, true, .visible, false, x, y, w, h, flags, true, true⟩ =
        (managerAt x y w h flags true slot s).windows := by rw [← hwin, Function.update_eq_self]
    unfold Manager.modify
    rw [hwin]
    exact congrArg (fun windows => { managerAt x y w h flags true slot s with windows := windows }) hupdate
  unfold drawOn
  rw [windowGet_managerAt hslot]
  by_cases h0 : s.nextGeneration = 0
  · have hpixels : ¬((managerAt x y w h flags true slot s).windows slot).pixels = false := by rw [hwin]; simp
    rw [if_pos h0, if_pos h0]
    simp only [if_neg hpixels, hsame]
  · rw [if_neg h0, if_neg h0]

theorem windowCreateDrawn_eq (hfree : windowFindFree s = some slot) (hslot : slot < maxWindows) :
    windowCreateDrawn look x y w h title flags true s drawn mem =
      (some (handleMake slot s.nextGeneration), zOrderPushTop (handleMake slot s.nextGeneration)
        (managerAt x y w h flags true slot s),
        Function.update mem slot (if s.nextGeneration = 0 then newBuffer look (newDrawn w h title) flags else fun _ => none)) := by
  have htrue : ¬true = false := by decide
  have hflags : ((managerAt x y w h flags true slot s).windows slot).flags = flags := by
    rw [managerAt, modify_self]
  unfold windowCreateDrawn
  rw [hfree]
  simp only [if_neg htrue, windowClear, windowDrawFrame, drawOn_managerAt _ hslot, Function.update_self, hflags, newBuffer]
  by_cases h0 : s.nextGeneration = 0
  · by_cases hchrome : flags.testBit 0 = true ∨ flags.testBit 1 = true
    · simp only [if_pos h0, if_pos hchrome, Function.update_self, Function.update_idem]
    · simp only [if_pos h0, if_neg hchrome, Function.update_idem]
  · simp only [if_neg h0, ite_self]

theorem windowCreateDrawn_manager (x y w h : Int) (title : Option (List Byte)) (flags : Nat) (pixels : Bool) (s : Manager)
    (drawn : Nat → Drawn) (mem : Nat → Nat → Option Pixel) :
    ((windowCreateDrawn look x y w h title flags pixels s drawn mem).1,
      (windowCreateDrawn look x y w h title flags pixels s drawn mem).2.1) = windowCreate x y w h flags pixels s := by
  cases hfree : windowFindFree s with
  | none => simp only [windowCreateDrawn, windowCreate, hfree]
  | some slot =>
    have hslot := (windowFindFree_eq_some hfree).1
    cases pixels with
    | false =>
      simp only [windowCreateDrawn, windowCreate, hfree, managerAt]
      rfl
    | true =>
      rw [windowCreateDrawn_eq hfree hslot]
      simp only [windowCreate, hfree]
      rfl

/-- **One call**: the new window is set just where its generation is 0 and its last row starts at a number of 32 bits, or
it has no pixel. -/
theorem allSet_windowCreate_iff (hfree : windowFindFree s = some slot) :
    AllSet look (newDrawn w h title).surface ((windowCreateDrawn look x y w h title flags true s drawn mem).2.2 slot) ↔
      (BitVec.ofInt 32 w = 0 ∨ BitVec.ofInt 32 h = 0) ∨
      (s.nextGeneration = 0 ∧ ((BitVec.ofInt 32 h).toNat - 1) * (BitVec.ofInt 32 w).toNat < 2 ^ 32) := by
  rw [windowCreateDrawn_eq hfree (windowFindFree_eq_some hfree).1]
  simp only [Function.update_self]
  by_cases h0 : s.nextGeneration = 0
  · rw [if_pos h0, allSet_newBuffer_iff _ rfl]
    exact or_congr_right (and_iff_right h0).symm
  · rw [if_neg h0]
    constructor
    · intro hall
      by_contra hnot
      obtain ⟨hw, hh⟩ := not_or.1 (not_or.1 hnot).1
      have hw' : (BitVec.ofInt 32 w).toNat ≠ 0 := fun hzero => hw (BitVec.eq_of_toNat_eq hzero)
      have hh' : (BitVec.ofInt 32 h).toNat ≠ 0 := fun hzero => hh (BitVec.eq_of_toNat_eq hzero)
      obtain ⟨c, -, hset⟩ := hall 0 (Nat.pos_of_ne_zero hh') 0 (Nat.pos_of_ne_zero hw')
      cases hset
    · rintro (hempty | ⟨hgen, -⟩) py hy px hx
      · have hy' : py < (BitVec.ofInt 32 h).toNat := hy
        have hx' : px < (BitVec.ofInt 32 w).toNat := hx
        rcases hempty with hzero | hzero
        · simp [hzero] at hx'
        · simp [hzero] at hy'
      · exact absurd hgen h0

end

/-- **New windows show no stale memory just in the runs whose new windows are cleared**: each has generation 0 or no
pixel. -/
theorem noStale_iff (look : Look) (calls : List WinCall) :
    NoStale look calls ↔ Allowed WinCall.run (fun _ => WinCall.Cleared) windowsInit calls := by
  constructor
  · rintro h before c after rfl
    cases c with
    | create x y w h' flags pixels =>
      intro slot hfree hpixels
      subst hpixels
      have hset := h before x y w h' flags true after rfl none (fun _ => newDrawn 0 0 none) (fun _ _ => none) slot _ hfree
        (by rw [windowCreateDrawn_eq hfree (windowFindFree_eq_some hfree).1])
      exact (allSet_windowCreate_iff hfree).1 hset
    | destroy _ => trivial
    | resize _ _ _ _ => trivial
    | «show» _ => trivial
    | hide _ => trivial
    | focus _ => trivial
    | raise _ => trivial
  · rintro h before x y w h' flags pixels after rfl s title drawn mem slot handle hfree hcreated
    have hpixels : pixels = true := by
      cases pixels with
      | true => rfl
      | false =>
        unfold windowCreateDrawn at hcreated
        rw [hfree] at hcreated
        cases hcreated
    subst hpixels
    exact (allSet_windowCreate_iff hfree).2 (h before _ after rfl slot hfree rfl)

/-- **The first window of 1 x 1 pixel** has generation 1. -/
theorem not_noStale : ¬∀ (look : Look) (calls : List WinCall), NoStale look calls := by
  intro hall
  have h := (noStale_iff _ _).1 (hall ⟨32, 0x00FF0000, fun _ _ => 0⟩ [.create 0 0 1 1 0 true])
  have hcleared := h [] _ [] rfl 0 (by decide) rfl
  exact absurd hcleared (by decide)

end Gfx
end AmitX
