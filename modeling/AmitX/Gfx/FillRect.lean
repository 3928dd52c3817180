import AmitX.Gfx.Compositor
import Mathlib.Tactic.Linarith
/-!
# FillRect — filled rectangles on a surface (`fb.c`) and on a window (`window.c`)

The rectangle is cut to the surface before its corner is known to be on it, and the sums `x + w` and `y + h` are sums of
32 bits.  A width whose sum wraps around is not cut: the row is painted past its end.  A height whose sum wraps around
ends the loop over the rows before its first turn.

A surface's memory is a function of the pixel's number, and goes on behind the last row.
-/
namespace AmitX
namespace Gfx

/-- `gfx_surface_t`: `height` rows that start `pitch_px` pixels apart. -/
structure Surface where
  width : BitVec 32
  height : BitVec 32
  pitchPx : BitVec 32
  width_le : width.toNat ≤ pitchPx.toNat

variable (surface : Surface)

def fillRow (dest : Nat) (w : BitVec 32) (color : Pixel) (mem : Nat → Pixel) : Nat → Pixel :=
  (List.range w.toNat).foldl (fun mem col => Function.update mem (dest + col) color) mem

/-- The loop over the rows from `y` up to `y + h`, whose numbers and products are of 32 bits. -/
def fillRows (x y w h : BitVec 32) (color : Pixel) (mem : Nat → Pixel) : Nat → Pixel :=
  (List.range' y.toNat ((y + h).toNat - y.toNat)).foldl (fun mem row =>
    fillRow ((BitVec.ofNat 32 row * surface.pitchPx).toNat + x.toNat) w color mem) mem

def gfxFillRect (x y w h : BitVec 32) (color : Pixel) (mem : Nat → Pixel) : Nat → Pixel :=
  let w := if x + w > surface.width then surface.width - x else w
  let h := if y + h > surface.height then surface.height - y else h
  if x ≥ surface.width ∨ y ≥ surface.height then mem
  else fillRows surface x y w h color mem

def gfxHline (x y w : Int) (color : Pixel) (mem : Nat → Pixel) : Nat → Pixel :=
  gfxFillRect surface (BitVec.ofInt 32 x) (BitVec.ofInt 32 y) (BitVec.ofInt 32 w) 1 color mem

def gfxVline (x y h : Int) (color : Pixel) (mem : Nat → Pixel) : Nat → Pixel :=
  gfxFillRect surface (BitVec.ofInt 32 x) (BitVec.ofInt 32 y) 1 (BitVec.ofInt 32 h) color mem

def windowFillRect (surfaces : Nat → Surface) (handle : Nat) (x y w h : BitVec 32) (color : Pixel) (s : Manager)
    (mem : Nat → Nat → Pixel) : Manager × (Nat → Nat → Pixel) :=
  match windowGet s handle with
  | none => (s, mem)
  | some slot =>
    if (s.windows slot).pixels = false then (s, mem)
    else
      let surface := surfaces slot
      let w := if x + w > surface.width then surface.width - x else w
      let h := if y + h > surface.height then surface.height - y else h
      if x ≥ surface.width ∨ y ≥ surface.height ∨ w = 0 ∨ h = 0 then (s, mem)
      else (s.modify slot (fun win => { win with dirty := true }),
        Function.update mem slot (fillRows surface x y w h color (mem slot)))

theorem row_unique {p a b a' b' : Nat} (h : a * p + b = a' * p + b') (hb : b < p) (hb' : b' < p) : a = a' ∧ b = b' := by
  have hp : 0 < p := by omega
  have hdiv := congrArg (· / p) h
  simp only [Nat.mul_comm _ p, Nat.mul_add_div hp, Nat.div_eq_of_lt hb, Nat.div_eq_of_lt hb'] at hdiv
  obtain rfl : a = a' := by omega
  exact ⟨rfl, by omega⟩

/-! ## What is painted -/

/-- The numbers of the pixels of the rectangle that are on the surface, with sums that do not wrap around. -/
def Surface.Rect (x y w h : BitVec 32) (i : Nat) : Prop :=
  ∃ px py : Nat, px < surface.width.toNat ∧ py < surface.height.toNat ∧
    (x.toNat ≤ px ∧ px < x.toNat + w.toNat) ∧ (y.toNat ≤ py ∧ py < y.toNat + h.toNat) ∧
    i = py * surface.pitchPx.toNat + px

/-- The painter sets the rectangle on the surface to its colour, and nothing else. -/
def PaintsRect (x y w h : BitVec 32) (paint : Pixel → (Nat → Pixel) → Nat → Pixel) : Prop :=
  ∀ color mem i, (surface.Rect x y w h i → paint color mem i = color) ∧
    (¬surface.Rect x y w h i → paint color mem i = mem i)

/-- The window's surface, where the handle has a window with pixels, is set in the rectangle, and no other pixel. -/
def PaintsWindow (surfaces : Nat → Surface) (handle : Nat) (x y w h : BitVec 32) (s : Manager) : Prop :=
  ∀ color mem slot i,
    (windowGet s handle = some slot ∧ (s.windows slot).pixels = true ∧ (surfaces slot).Rect x y w h i →
      (windowFillRect surfaces handle x y w h color s mem).2 slot i = color) ∧
    (¬(windowGet s handle = some slot ∧ (s.windows slot).pixels = true ∧ (surfaces slot).Rect x y w h i) →
      (windowFillRect surfaces handle x y w h color s mem).2 slot i = mem slot i)

/-- Nothing of the rectangle is on the surface, or its sums do not wrap around and its last row on the surface starts at
a number of 32 bits. -/
def Surface.Fits (x y w h : BitVec 32) : Prop :=
  (surface.width.toNat ≤ x.toNat ∨ surface.height.toNat ≤ y.toNat ∨ w = 0 ∨ h = 0) ∨
  (x.toNat + w.toNat < 2 ^ 32 ∧ y.toNat + h.toNat < 2 ^ 32 ∧
    (min (y.toNat + h.toNat) surface.height.toNat - 1) * surface.pitchPx.toNat < 2 ^ 32)

instance (x y w h : BitVec 32) : Decidable (surface.Fits x y w h) :=
  inferInstanceAs (Decidable ((_ ∨ _ ∨ _ ∨ _) ∨ (_ ∧ _ ∧ _)))

/-- The numbers that `fillRows` stores to. -/
def Surface.Stored (x y w h : BitVec 32) (i : Nat) : Prop :=
  ∃ row col : Nat, (y.toNat ≤ row ∧ row < (y + h).toNat) ∧ col < w.toNat ∧
    i = row * surface.pitchPx.toNat % 2 ^ 32 + x.toNat + col

section Loops

variable {surface} {x y w h : BitVec 32} {color : Pixel}

theorem foldl_update (f : Nat → Nat) (cols : List Nat) (mem : Nat → Pixel) (i : Nat) :
    cols.foldl (fun mem col => Function.update mem (f col) color) mem i =
      if ∃ col ∈ cols, i = f col then color else mem i := by
  induction cols generalizing mem with
  | nil => simp
  | cons c cols ih =>
    rw [List.foldl_cons, ih]
    by_cases hin : ∃ col ∈ cols, i = f col
    · simp [hin]
    · by_cases hi : i = f c <;> simp [hin, hi]

theorem fillRow_apply (dest : Nat) (w : BitVec 32) (mem : Nat → Pixel) (i : Nat) :
    fillRow dest w color mem i = if ∃ col < w.toNat, i = dest + col then color else mem i := by
  rw [fillRow, foldl_update]
  simp only [List.mem_range]

theorem foldl_fillRow (f : Nat → Nat) (rows : List Nat) (mem : Nat → Pixel) (i : Nat) :
    rows.foldl (fun mem row => fillRow (f row) w color mem) mem i =
      if ∃ row ∈ rows, ∃ col < w.toNat, i = f row + col then color else mem i := by
  induction rows generalizing mem with
  | nil => simp
  | cons r rows ih =>
    rw [List.foldl_cons, ih, fillRow_apply]
    by_cases hin : ∃ row ∈ rows, ∃ col < w.toNat, i = f row + col
    · simp [hin]
    · by_cases hi : ∃ col < w.toNat, i = f r + col <;> simp [hin, hi]

open scoped Classical in
theorem fillRows_apply (mem : Nat → Pixel) (i : Nat) :
    fillRows surface x y w h color mem i = if surface.Stored x y w h i then color else mem i := by
  rw [fillRows, foldl_fillRow]
  refine if_congr ?_ rfl rfl
  constructor
  · rintro ⟨row, hrow, col, hcol, rfl⟩
    have hmem := List.mem_range'_1.1 hrow
    have hlt := (y + h).isLt
    refine ⟨row, col, by omega, hcol, ?_⟩
    rw [BitVec.toNat_mul, BitVec.toNat_ofNat, Nat.mod_mul_mod]
  · rintro ⟨row, col, hrow, hcol, rfl⟩
    refine ⟨row, List.mem_range'_1.2 (by omega), col, hcol, ?_⟩
    rw [BitVec.toNat_mul, BitVec.toNat_ofNat, Nat.mod_mul_mod]

theorem paintsRect_iff {paint : Pixel → (Nat → Pixel) → Nat → Pixel} {set : Nat → Prop} [DecidablePred set]
    (hp : ∀ color mem i, paint color mem i = if set i then color else mem i) :
    PaintsRect surface x y w h paint ↔ ∀ i, set i ↔ surface.Rect x y w h i := by
  constructor
  · intro hpaint i
    have hi := hpaint 1 (fun _ => 0) i
    rw [hp] at hi
    by_cases hset : set i <;> by_cases hrect : surface.Rect x y w h i <;> simp_all
  · intro heq color mem i
    rw [hp, ← heq]
    exact ⟨fun hset => if_pos hset, fun hset => if_neg hset⟩

end Loops

/-! ## The cut -/

section Clip

variable {x y w h : BitVec 32}

theorem clip_of_fits {width : BitVec 32} (hx : x.toNat < width.toNat) (hfits : x.toNat + w.toNat < 2 ^ 32) :
    (if x + w > width then width - x else w).toNat = min w.toNat (width.toNat - x.toNat) := by
  have hadd : (x + w).toNat = x.toNat + w.toNat := by rw [BitVec.toNat_add, Nat.mod_eq_of_lt hfits]
  split
  · next hgt =>
    rw [gt_iff_lt, BitVec.lt_def, hadd] at hgt
    rw [BitVec.toNat_sub_of_le (BitVec.le_def.2 hx.le)]
    omega
  · next hle =>
    rw [gt_iff_lt, BitVec.lt_def, hadd] at hle
    omega

theorem clip_of_wraps {width : BitVec 32} (hx : x.toNat < width.toNat) (hwraps : 2 ^ 32 ≤ x.toNat + w.toNat) :
    (if x + w > width then width - x else w) = w := by
  refine if_neg ?_
  rw [gt_iff_lt, BitVec.lt_def, BitVec.toNat_add]
  have := w.isLt
  omega

variable {surface}

theorem rect_iff (i : Nat) (hx : x.toNat < surface.width.toNat) :
    surface.Rect x y w h i ↔ ∃ row col : Nat,
      (y.toNat ≤ row ∧ row < min (y.toNat + h.toNat) surface.height.toNat) ∧
      col < min w.toNat (surface.width.toNat - x.toNat) ∧ i = row * surface.pitchPx.toNat + x.toNat + col := by
  constructor
  · rintro ⟨px, py, hpx, hpy, hxs, hys, rfl⟩
    exact ⟨py, px - x.toNat, by omega, by omega, by omega⟩
  · rintro ⟨row, col, hrow, hcol, rfl⟩
    exact ⟨x.toNat + col, row, by omega, by omega, by omega, by omega, by omega⟩

theorem not_rect (hout : surface.width.toNat ≤ x.toNat ∨ surface.height.toNat ≤ y.toNat ∨ w = 0 ∨ h = 0) (i : Nat) :
    ¬surface.Rect x y w h i := by
  rintro ⟨px, py, hpx, hpy, hxs, hys, rfl⟩
  rcases hout with hout | hout | rfl | rfl
  · omega
  · omega
  · simp at hxs; omega
  · simp at hys; omega

theorem rowEnd_of_fits (hy : y.toNat < surface.height.toNat) (hfits : y.toNat + h.toNat < 2 ^ 32) :
    (y + (if y + h > surface.height then surface.height - y else h)).toNat =
      min (y.toNat + h.toNat) surface.height.toNat := by
  have hheight := surface.height.isLt
  rw [BitVec.toNat_add, clip_of_fits hy hfits, Nat.mod_eq_of_lt (by omega)]
  omega

theorem not_stored_of_wraps (hwraps : 2 ^ 32 ≤ y.toNat + h.toNat) (i : Nat) : ¬surface.Stored x y w h i := by
  rintro ⟨row, col, hrow, -⟩
  rw [BitVec.toNat_add] at hrow
  have := h.isLt
  omega

theorem rect_corner (hx : x.toNat < surface.width.toNat) (hy : y.toNat < surface.height.toNat) (hw : w ≠ 0)
    (hh : h ≠ 0) : surface.Rect x y w h (y.toNat * surface.pitchPx.toNat + x.toNat) := by
  have hw' : w.toNat ≠ 0 := fun h0 => hw (BitVec.eq_of_toNat_eq h0)
  have hh' : h.toNat ≠ 0 := fun h0 => hh (BitVec.eq_of_toNat_eq h0)
  exact ⟨x.toNat, y.toNat, hx, hy, by omega, by omega, rfl⟩

theorem exists_stored_of_wraps (hx : x.toNat < surface.width.toNat) (hwraps : 2 ^ 32 ≤ x.toNat + w.toNat)
    {k : BitVec 32} (hrows : y.toNat < (y + k).toNat) :
    ∃ i, surface.Stored x y w k i ∧ ¬surface.Rect x y w h i := by
  by_contra hall
  push Not at hall
  have hwidth := surface.width.isLt
  have hw := w.isLt
  have hstored : ∀ col < w.toNat,
      surface.Rect x y w h (y.toNat * surface.pitchPx.toNat % 2 ^ 32 + x.toNat + col) := fun col hcol =>
    hall _ ⟨y.toNat, col, ⟨le_rfl, hrows⟩, hcol, rfl⟩
  obtain ⟨px, r, hpx, -, hxs, -, hi⟩ := hstored 0 (by omega)
  obtain ⟨px', r', hpx', -, hxs', -, hi'⟩ := hstored (surface.width.toNat - px) (by omega)
  have hne : r < r' := by
    by_contra hle
    have := Nat.mul_le_mul_right surface.pitchPx.toNat (Nat.le_of_not_lt hle)
    omega
  have hnext := Nat.mul_le_mul_right surface.pitchPx.toNat (Nat.succ_le_of_lt hne)
  have hle := surface.width_le
  rw [Nat.succ_mul] at hnext
  omega

theorem stored_iff_rect (hx : x.toNat < surface.width.toNat) (hy : y.toNat < surface.height.toNat) :
    (∀ i, surface.Stored x y (if x + w > surface.width then surface.width - x else w)
      (if y + h > surface.height then surface.height - y else h) i ↔ surface.Rect x y w h i) ↔
    surface.Fits x y w h := by
  by_cases hempty : w = 0 ∨ h = 0
  · refine iff_of_true (fun i => ?_) (.inl (.inr (.inr hempty)))
    refine iff_of_false ?_ (not_rect (.inr (.inr hempty)) i)
    rintro ⟨row, col, hrow, hcol, -⟩
    rcases hempty with rfl | rfl
    · rw [clip_of_fits hx (by simpa using x.isLt)] at hcol
      simp at hcol
    · rw [rowEnd_of_fits hy (by simpa using y.isLt)] at hrow
      simp at hrow
      omega
  obtain ⟨hw, hh⟩ := not_or.1 hempty
  have hw' : w.toNat ≠ 0 := fun h0 => hw (BitVec.eq_of_toNat_eq h0)
  have hh' : h.toNat ≠ 0 := fun h0 => hh (BitVec.eq_of_toNat_eq h0)
  by_cases hyh : y.toNat + h.toNat < 2 ^ 32
  case neg =>
    -- the loop over the rows ends before its first turn
    refine iff_of_false (fun hall => ?_) (fun hfits => ?_)
    · rw [clip_of_wraps hy (by omega)] at hall
      exact not_stored_of_wraps (by omega) _ ((hall _).2 (rect_corner hx hy hw hh))
    · rcases hfits with (hout | hout | h0 | h0) | hfits
      · omega
      · omega
      · exact hw h0
      · exact hh h0
      · exact hyh hfits.2.1
  by_cases hxw : x.toNat + w.toNat < 2 ^ 32
  case neg =>
    refine iff_of_false (fun hall => ?_) (fun hfits => ?_)
    · rw [clip_of_wraps hx (by omega)] at hall
      have hrows : y.toNat < (y + (if y + h > surface.height then surface.height - y else h)).toNat := by
        rw [rowEnd_of_fits hy hyh]
        omega
      obtain ⟨i, hstored, hrect⟩ := exists_stored_of_wraps (w := w) (h := h) hx (by omega) hrows
      exact hrect ((hall i).1 hstored)
    · rcases hfits with (hout | hout | h0 | h0) | hfits
      · omega
      · omega
      · exact hw h0
      · exact hh h0
      · exact hxw hfits.1
  have hstored : ∀ i, surface.Stored x y (if x + w > surface.width then surface.width - x else w)
      (if y + h > surface.height then surface.height - y else h) i ↔ ∃ row col : Nat,
      (y.toNat ≤ row ∧ row < min (y.toNat + h.toNat) surface.height.toNat) ∧
      col < min w.toNat (surface.width.toNat - x.toNat) ∧
      i = row * surface.pitchPx.toNat % 2 ^ 32 + x.toNat + col := fun i => by
    rw [Surface.Stored, rowEnd_of_fits hy hyh, clip_of_fits hx hxw]
  constructor
  · intro hall
    refine .inr ⟨hxw, hyh, ?_⟩
    -- the last pixel of the last row lies behind all that is stored
    by_contra hlast
    have hrect : surface.Rect x y w h ((min (y.toNat + h.toNat) surface.height.toNat - 1) * surface.pitchPx.toNat +
        x.toNat + (min w.toNat (surface.width.toNat - x.toNat) - 1)) :=
      (rect_iff _ hx).2 ⟨_, _, by omega, by omega, rfl⟩
    obtain ⟨row, col, -, hcol, hi⟩ := (hstored _).1 ((hall _).2 hrect)
    have := Nat.mod_lt (row * surface.pitchPx.toNat) (Nat.two_pow_pos 32)
    omega
  · rintro ((hout | hout | h0 | h0) | ⟨-, -, hlast⟩)
    · omega
    · omega
    · exact absurd h0 hw
    · exact absurd h0 hh
    · intro i
      rw [hstored, rect_iff i hx]
      refine exists₂_congr fun row col => and_congr_right fun hrow => ?_
      have hle := Nat.mul_le_mul_right surface.pitchPx.toNat
        (show row ≤ min (y.toNat + h.toNat) surface.height.toNat - 1 by omega)
      rw [Nat.mod_eq_of_lt (by omega)]

end Clip

/-! ## The two painters -/

section Painters

variable {surface} {x y w h : BitVec 32}

theorem paintsRect_cut {paint : Pixel → (Nat → Pixel) → Nat → Pixel}
    (hout : x ≥ surface.width ∨ y ≥ surface.height → ∀ color mem, paint color mem = mem)
    (hin : ¬(x ≥ surface.width ∨ y ≥ surface.height) → ∀ color mem, paint color mem =
      fillRows surface x y (if x + w > surface.width then surface.width - x else w)
        (if y + h > surface.height then surface.height - y else h) color mem) :
    PaintsRect surface x y w h paint ↔ surface.Fits x y w h := by
  by_cases hoff : x ≥ surface.width ∨ y ≥ surface.height
  · have hoff' : surface.width.toNat ≤ x.toNat ∨ surface.height.toNat ≤ y.toNat := hoff
    have hfits : surface.width.toNat ≤ x.toNat ∨ surface.height.toNat ≤ y.toNat ∨ w = 0 ∨ h = 0 := by tauto
    refine iff_of_true (fun color mem i => ?_) (.inl hfits)
    rw [hout hoff]
    exact ⟨fun hrect => absurd hrect (not_rect hfits i), fun _ => rfl⟩
  · have hoff' : ¬(surface.width.toNat ≤ x.toNat ∨ surface.height.toNat ≤ y.toNat) := hoff
    classical
    rw [← stored_iff_rect (by omega) (by omega)]
    refine paintsRect_iff fun color mem i => ?_
    rw [hin hoff, fillRows_apply]

theorem gfxFillRect_paintsRect (surface : Surface) (x y w h : BitVec 32) :
    PaintsRect surface x y w h (gfxFillRect surface x y w h) ↔ surface.Fits x y w h :=
  paintsRect_cut (fun hoff _ _ => if_pos hoff) (fun hon _ _ => if_neg hon)

theorem fillRows_of_empty (hempty : w = 0 ∨ h = 0) (color : Pixel) (mem : Nat → Pixel) :
    fillRows surface x y w h color mem = mem := by
  funext i
  rw [fillRows_apply, if_neg]
  rintro ⟨row, col, hrow, hcol, -⟩
  rcases hempty with rfl | rfl
  · simp at hcol
  · simp at hrow
    omega

variable {surfaces : Nat → Surface} {s : Manager} {handle slot : Nat}

theorem windowFillRect_of_get (hget : windowGet s handle = some slot) (hpixels : (s.windows slot).pixels = true)
    (color : Pixel) (mem : Nat → Nat → Pixel) :
    (windowFillRect surfaces handle x y w h color s mem).2 =
      Function.update mem slot (gfxFillRect (surfaces slot) x y w h color (mem slot)) := by
  have hnot : ¬(s.windows slot).pixels = false := by simp [hpixels]
  simp only [windowFillRect, gfxFillRect, hget, if_neg hnot]
  by_cases hoff : x ≥ (surfaces slot).width ∨ y ≥ (surfaces slot).height
  · rw [if_pos (by tauto), if_pos hoff, Function.update_eq_self]
  rw [if_neg hoff]
  by_cases hempty : (if x + w > (surfaces slot).width then (surfaces slot).width - x else w) = 0 ∨
      (if y + h > (surfaces slot).height then (surfaces slot).height - y else h) = 0
  · rw [fillRows_of_empty hempty, Function.update_eq_self, if_pos]
    tauto
  · rw [if_neg]
    tauto

theorem windowFillRect_of_not (hnot : ¬∃ slot, windowGet s handle = some slot ∧ (s.windows slot).pixels = true)
    (color : Pixel) (mem : Nat → Nat → Pixel) :
    (windowFillRect surfaces handle x y w h color s mem).2 = mem := by
  unfold windowFillRect
  split
  · rfl
  · next slot hget =>
    rw [if_pos]
    exact Bool.eq_false_of_not_eq_true fun hpixels => hnot ⟨slot, hget, hpixels⟩

theorem windowFillRect_paintsWindow (surfaces : Nat → Surface) (handle : Nat) (x y w h : BitVec 32) (s : Manager) :
    PaintsWindow surfaces handle x y w h s ↔
      ∀ slot, windowGet s handle = some slot → (s.windows slot).pixels = true → (surfaces slot).Fits x y w h := by
  constructor
  · intro hpaint slot hget hpixels
    rw [← gfxFillRect_paintsRect]
    intro color mem i
    obtain ⟨hset, hkeep⟩ := hpaint color (fun _ => mem) slot i
    rw [windowFillRect_of_get hget hpixels, Function.update_self] at hset hkeep
    exact ⟨fun hrect => hset ⟨hget, hpixels, hrect⟩, fun hrect => hkeep fun hall => hrect hall.2.2⟩
  · intro hfits color mem slot i
    by_cases hown : ∃ own, windowGet s handle = some own ∧ (s.windows own).pixels = true
    · obtain ⟨own, hget, hpixels⟩ := hown
      rw [windowFillRect_of_get hget hpixels]
      by_cases hslot : slot = own
      · subst hslot
        rw [Function.update_self]
        obtain ⟨hset, hkeep⟩ := (gfxFillRect_paintsRect ..).2 (hfits slot hget hpixels) color (mem slot) i
        exact ⟨fun hall => hset hall.2.2, fun hnot => hkeep fun hrect => hnot ⟨hget, hpixels, hrect⟩⟩
      · rw [Function.update_of_ne hslot]
        exact ⟨fun hall => absurd (Option.some.inj (hall.1.symm.trans hget)) hslot, fun _ => rfl⟩
    · rw [windowFillRect_of_not hown]
      exact ⟨fun hall => absurd ⟨slot, hall.1, hall.2.1⟩ hown, fun _ => rfl⟩

/-- **A rectangle is painted exactly where its sums do not wrap around**, on a surface, as a line of one row or one
column, and on a window. -/
theorem fillRect_paints_iff (surface : Surface) (x y w h : BitVec 32) (xi yi len : Int) (surfaces : Nat → Surface)
    (handle : Nat) (s : Manager) :
    (PaintsRect surface x y w h (gfxFillRect surface x y w h) ↔ surface.Fits x y w h) ∧
    (PaintsRect surface (BitVec.ofInt 32 xi) (BitVec.ofInt 32 yi) (BitVec.ofInt 32 len) 1
      (gfxHline surface xi yi len) ↔
      surface.Fits (BitVec.ofInt 32 xi) (BitVec.ofInt 32 yi) (BitVec.ofInt 32 len) 1) ∧
    (PaintsRect surface (BitVec.ofInt 32 xi) (BitVec.ofInt 32 yi) 1 (BitVec.ofInt 32 len)
      (gfxVline surface xi yi len) ↔
      surface.Fits (BitVec.ofInt 32 xi) (BitVec.ofInt 32 yi) 1 (BitVec.ofInt 32 len)) ∧
    (PaintsWindow surfaces handle x y w h s ↔
      ∀ slot, windowGet s handle = some slot → (s.windows slot).pixels = true → (surfaces slot).Fits x y w h) :=
  ⟨gfxFillRect_paintsRect surface x y w h, gfxFillRect_paintsRect .., gfxFillRect_paintsRect ..,
    windowFillRect_paintsWindow surfaces handle x y w h s⟩

/-- A line of width -1 on a surface of 10 pixels is painted through the memory behind it. -/
theorem not_hline_paintsRect :
    ¬PaintsRect ⟨10, 1, 10, by decide⟩ (BitVec.ofInt 32 5) (BitVec.ofInt 32 0) (BitVec.ofInt 32 (-1)) 1
      (gfxHline ⟨10, 1, 10, by decide⟩ 5 0 (-1)) := by
  intro hpaint
  have hfits := (gfxFillRect_paintsRect ⟨10, 1, 10, by decide⟩ _ _ _ _).1 hpaint
  exact absurd hfits (by decide)

end Painters

end Gfx
end AmitX
