import AmitX.Gfx.FillRect
import AmitX.Gfx.FxMath
import AmitX.Lib.CInt
/-!
# FillCircle — filled circles on a surface (`fb.c`)

Every row's half width is the integer square root of what the row leaves of the radius' square.  Of that number
`fx_from_int` keeps sixteen bits with their sign: from 32768 on it is taken for a negative or a smaller one, and the row
is too short.  The surface's sizes are cast to `int`, and the product of the row and the pitch is one of 32 bits.
-/
namespace AmitX
namespace Gfx

open CInt

/-- The loop over the pixels of a row: none where `x++` overflows behind the last one. -/
def fillSpan (dest : Nat) (x0 x1 : Int) (color : Pixel) (mem : Nat → Pixel) : Option (Nat → Pixel) :=
  if x1 = 2 ^ 31 - 1 then none
  else some ((List.range (x1 - x0 + 1).toNat).foldl (fun mem col => Function.update mem (dest + col) color) mem)

def fillCircleRow (surface : Surface) (cx cy rSq : Int) (color : Pixel) (mem : Nat → Pixel) (y : Int) :
    Option (Nat → Pixel) := do
  let row ← int (cy + y)
  if row < 0 ∨ row ≥ surface.height.toInt then some mem
  else
    let xLen := fxToInt (fxSqrt (fxFromInt (← int (rSq - (← int (y * y))))))
    let x0 ← int (cx - xLen)
    let x1 ← int (cx + xLen)
    let x0 := if x0 < 0 then 0 else x0
    let x1 := if x1 ≥ surface.width.toInt then (surface.width - 1).toInt else x1
    if x0 ≤ x1 then
      fillSpan ((BitVec.ofInt 32 row * surface.pitchPx).toNat + x0.toNat) x0 x1 color mem
    else some mem

/-- The rows from `-radius` to `radius`. -/
def circleRows (radius : Int) : List Int := (List.range (2 * radius + 1).toNat).map fun k : Nat => (k : Int) - radius

def gfxFillCircle (surface : Surface) (cx cy radius : Int) (color : Pixel) (mem : Nat → Pixel) :
    Option (Nat → Pixel) :=
  if radius ≤ 0 then some mem
  else do
    let rSq ← int (radius * radius)
    (circleRows radius).foldlM (fillCircleRow surface cx cy rSq color) mem

/-! ## The disc -/

def InDisc (cx cy radius : Int) (px py : Nat) : Prop :=
  ((px : Int) - cx) * (px - cx) + (py - cy) * (py - cy) ≤ radius * radius

def Surface.Disc (surface : Surface) (cx cy radius : Int) (i : Nat) : Prop :=
  ∃ px py : Nat, px < surface.width.toNat ∧ py < surface.height.toNat ∧ InDisc cx cy radius px py ∧
    i = py * surface.pitchPx.toNat + px

def PaintsDisc (surface : Surface) (cx cy radius : Int) : Prop :=
  ∀ color mem, ∃ mem', gfxFillCircle surface cx cy radius color mem = some mem' ∧
    ∀ i, (surface.Disc cx cy radius i → mem' i = color) ∧ (¬surface.Disc cx cy radius i → mem' i = mem i)

def Surface.RowSeen (surface : Surface) (cy radius y : Int) : Prop :=
  |y| ≤ radius ∧ 0 ≤ cy + y ∧ cy + y < surface.height.toInt

/-- The sizes of the surface are of type `int`, its rows start at numbers of 32 bits, and no pixel of the disc on it is
farther from the middle of its row than sixteen bits of the square tell; the width is not the one whose last pixel is
the largest `int`. -/
structure Surface.Takes (surface : Surface) (cx cy radius : Int) : Prop where
  ends : surface.width.toNat = 2 ^ 31 → ∀ y, ¬surface.RowSeen cy radius y
  pixels : ∀ px py : Nat, px < surface.width.toNat → py < surface.height.toNat → InDisc cx cy radius px py →
    (surface.width.toNat < 2 ^ 31 ∧ surface.height.toNat < 2 ^ 31 ∧ py * surface.pitchPx.toNat < 2 ^ 32) ∧
    ((px : Int) = cx ∨ ((px : Int) - cx) * (px - cx) ≤ (radius * radius - (py - cy) * (py - cy)).bmod (2 ^ 16))

/-! ## A row -/

section Row

variable {surface : Surface} {cx cy radius y : Int} {color : Pixel}

theorem toInt_eq (x : BitVec 32) : x.toInt = if x.toNat < 2 ^ 31 then (x.toNat : Int) else x.toNat - 2 ^ 32 := by
  rw [BitVec.toInt_eq_toNat_cond]
  split <;> split <;> omega

theorem toInt_pred (x : BitVec 32) :
    (x - 1).toInt = if x.toNat ≤ 2 ^ 31 then (x.toNat : Int) - 1 else x.toNat - 1 - 2 ^ 32 := by
  have hx := x.isLt
  rw [toInt_eq, BitVec.toNat_sub, show (1 : BitVec 32).toNat = 1 from rfl]
  split <;> split <;> omega

/-- The half width of a row that leaves `n` of the radius' square. -/
def halfWidth (n : Int) : Nat := Nat.sqrt (n.bmod (2 ^ 16)).toNat

theorem halfWidth_lt (n : Int) : halfWidth n < 2 ^ 15 := by
  have h : n.bmod (2 ^ 16) < 2 ^ 15 := Int.bmod_lt (by decide)
  have := Nat.sqrt_le_self (n.bmod (2 ^ 16)).toNat
  unfold halfWidth
  omega

theorem le_halfWidth_iff {n : Int} {d : Int} :
    |d| ≤ halfWidth n ↔ d = 0 ∨ d * d ≤ n.bmod (2 ^ 16) := by
  have habs : ((d.natAbs : Int)) = |d| := Int.natCast_natAbs d
  have hsq : ((d.natAbs * d.natAbs : Nat) : Int) = d * d := Int.natAbs_mul_self
  rw [← habs, Int.ofNat_le, halfWidth, Nat.le_sqrt]
  constructor
  · intro h
    rcases eq_or_ne d 0 with hd | hd
    · exact .inl hd
    · right
      have hpos : 0 < d.natAbs * d.natAbs := Nat.mul_pos (Int.natAbs_pos.2 hd) (Int.natAbs_pos.2 hd)
      omega
  · rintro (rfl | h)
    · exact Nat.zero_le _
    · omega

def Surface.RowStored (surface : Surface) (cx cy radius y : Int) (i : Nat) : Prop :=
  surface.RowSeen cy radius y ∧ surface.width.toNat < 2 ^ 31 ∧
    ∃ px : Nat, px < surface.width.toNat ∧ |(px : Int) - cx| ≤ halfWidth (radius * radius - y * y) ∧
      i = (cy + y).toNat * surface.pitchPx.toNat % 2 ^ 32 + px

structure SmallCircle (cx cy radius : Int) : Prop where
  cx_lt : |cx| < 2 ^ 28
  cy_lt : |cy| < 2 ^ 28
  radius_pos : 0 < radius
  radius_le : radius ≤ 16384

open scoped Classical in
theorem fillSpan_apply (color : Pixel) (dest : Nat) {x0 x1 : Int} (h0 : 0 ≤ x0) (h1 : x1 < 2 ^ 31 - 1) (mem : Nat → Pixel) :
    ∃ mem', fillSpan (dest + x0.toNat) x0 x1 color mem = some mem' ∧
      ∀ i, mem' i = if ∃ px : Nat, x0 ≤ px ∧ px ≤ x1 ∧ i = dest + px then color else mem i := by
  refine ⟨_, if_neg (by omega), fun i => ?_⟩
  rw [foldl_update]
  refine if_congr ?_ rfl rfl
  simp only [List.mem_range]
  constructor
  · rintro ⟨col, hcol, rfl⟩
    exact ⟨x0.toNat + col, by omega, by omega, by omega⟩
  · rintro ⟨px, hx0, hx1, rfl⟩
    exact ⟨px - x0.toNat, by omega, by omega⟩

theorem rowPlace (hrow : 0 ≤ cy + y) :
    (BitVec.ofInt 32 (cy + y) * surface.pitchPx).toNat = (cy + y).toNat * surface.pitchPx.toNat % 2 ^ 32 := by
  obtain ⟨row, hrow'⟩ := Int.eq_ofNat_of_zero_le hrow
  rw [hrow', BitVec.ofInt_natCast, BitVec.toNat_mul, BitVec.toNat_ofNat, Nat.mod_mul_mod, Int.toNat_natCast]

structure RowSums (cx cy radius y : Int) : Prop where
  row : int (cy + y) = some (cy + y)
  square : int (y * y) = some (y * y)
  rest : int (radius * radius - y * y) = some (radius * radius - y * y)
  left : int (cx - halfWidth (radius * radius - y * y)) = some (cx - halfWidth (radius * radius - y * y))
  right : int (cx + halfWidth (radius * radius - y * y)) = some (cx + halfWidth (radius * radius - y * y))

theorem SmallCircle.square_le (h : SmallCircle cx cy radius) : radius * radius ≤ 2 ^ 28 := by
  have h1 := h.radius_pos
  have h2 := h.radius_le
  have := mul_le_mul h2 h2 h1.le (by decide)
  omega

theorem sq_le_of_abs_le {a b : Int} (h : |a| ≤ b) : 0 ≤ a * a ∧ a * a ≤ b * b :=
  ⟨mul_self_nonneg a, by nlinarith [abs_le.1 h]⟩

theorem SmallCircle.sums (h : SmallCircle cx cy radius) (hy : |y| ≤ radius) : RowSums cx cy radius y := by
  have hsq := h.square_le
  have hyy := sq_le_of_abs_le hy
  have hcx := abs_lt.1 h.cx_lt
  have hcy := abs_lt.1 h.cy_lt
  have hr := h.radius_le
  have hy' := abs_le.1 hy
  have hlen := halfWidth_lt (radius * radius - y * y)
  constructor <;> exact int_eq (by omega) (by omega)

def clipRight (width : BitVec 32) (x1 : Int) : Int := if x1 ≥ width.toInt then (width - 1).toInt else x1

theorem clipRight_small {width : BitVec 32} (hw : width.toNat < 2 ^ 31) (x1 : Int) :
    clipRight width x1 = min x1 (width.toNat - 1) := by
  have hwidth := toInt_eq width
  have hpred := toInt_pred width
  rw [if_pos hw] at hwidth
  rw [if_pos hw.le] at hpred
  unfold clipRight
  split <;> omega

theorem clipRight_large {width : BitVec 32} (hw : 2 ^ 31 ≤ width.toNat) {x1 : Int} (hx1 : -2 ^ 31 ≤ x1) :
    if width.toNat = 2 ^ 31 then clipRight width x1 = 2 ^ 31 - 1 else clipRight width x1 < 0 := by
  have hlt := width.isLt
  have hwidth := toInt_eq width
  have hpred := toInt_pred width
  rw [if_neg (Nat.not_lt.2 hw)] at hwidth
  unfold clipRight
  split
  · next heq =>
    rw [if_pos heq.le] at hpred
    rw [if_pos (by omega), hpred, heq]
    rfl
  · next hne =>
    rw [if_neg (by omega)] at hpred
    split <;> omega

theorem fillCircleRow_eq (h : SmallCircle cx cy radius) (hy : |y| ≤ radius) (mem : Nat → Pixel) :
    fillCircleRow surface cx cy (radius * radius) color mem y =
      if cy + y < 0 ∨ cy + y ≥ surface.height.toInt then some mem
      else if max (cx - halfWidth (radius * radius - y * y)) 0 ≤
          clipRight surface.width (cx + halfWidth (radius * radius - y * y)) then
        fillSpan ((BitVec.ofInt 32 (cy + y) * surface.pitchPx).toNat +
            (max (cx - halfWidth (radius * radius - y * y)) 0 : Int).toNat)
          (max (cx - halfWidth (radius * radius - y * y)) 0)
          (clipRight surface.width (cx + halfWidth (radius * radius - y * y))) color mem
      else some mem := by
  obtain ⟨hrow, hsquare, hrest, hleft, hright⟩ := h.sums hy
  have hlen : fxToInt (fxSqrt (fxFromInt (radius * radius - y * y))) = halfWidth (radius * radius - y * y) :=
    fxToInt_fxSqrt_fxFromInt _
  have hmax : max (cx - (halfWidth (radius * radius - y * y) : Int)) 0 =
      if cx - (halfWidth (radius * radius - y * y) : Int) < 0 then 0 else cx - halfWidth (radius * radius - y * y) := by
    split <;> omega
  rw [hmax]
  simp only [fillCircleRow, clipRight, hrow, hsquare, hrest, hlen, hleft, hright, Option.bind_eq_bind,
    Option.bind_some]
  rfl

open scoped Classical in
theorem fillCircleRow_apply (color : Pixel) (h : SmallCircle cx cy radius) (hy : |y| ≤ radius)
    (hend : surface.width.toNat = 2 ^ 31 → ¬surface.RowSeen cy radius y) (mem : Nat → Pixel) :
    ∃ mem', fillCircleRow surface cx cy (radius * radius) color mem y = some mem' ∧
      ∀ i, mem' i = if surface.RowStored cx cy radius y i then color else mem i := by
  have hcx := abs_lt.1 h.cx_lt
  have hlen := halfWidth_lt (radius * radius - y * y)
  rw [fillCircleRow_eq h hy]
  split
  · next hskip =>
    refine ⟨mem, rfl, fun i => (if_neg ?_).symm⟩
    rintro ⟨⟨-, hrow⟩, -⟩
    omega
  · next hskip =>
    have hseen : surface.RowSeen cy radius y := ⟨hy, by omega, by omega⟩
    have hstored : ∀ i, surface.RowStored cx cy radius y i ↔ surface.width.toNat < 2 ^ 31 ∧
        ∃ px : Nat, px < surface.width.toNat ∧ |(px : Int) - cx| ≤ halfWidth (radius * radius - y * y) ∧
          i = (BitVec.ofInt 32 (cy + y) * surface.pitchPx).toNat + px := fun i => by
      rw [Surface.RowStored, rowPlace hseen.2.1]
      exact and_iff_right hseen
    simp only [hstored]
    generalize halfWidth (radius * radius - y * y) = len at *
    by_cases hw : surface.width.toNat < 2 ^ 31
    · rw [clipRight_small hw]
      split
      · obtain ⟨mem', hspan, happly⟩ := fillSpan_apply color (BitVec.ofInt 32 (cy + y) * surface.pitchPx).toNat
          (show 0 ≤ max (cx - (len : Int)) 0 by omega)
          (show min (cx + (len : Int)) (surface.width.toNat - 1) < 2 ^ 31 - 1 by omega) mem
        refine ⟨mem', hspan, fun i => ?_⟩
        rw [happly]
        refine if_congr ?_ rfl rfl
        rw [and_iff_right hw]
        refine exists_congr fun px => ?_
        rw [abs_le]
        omega
      · next hempty =>
        refine ⟨mem, rfl, fun i => (if_neg ?_).symm⟩
        rintro ⟨-, px, hpx, habs, -⟩
        have := abs_le.1 habs
        omega
    · have hclip := clipRight_large (Nat.le_of_not_lt hw) (show -2 ^ 31 ≤ cx + (len : Int) by omega)
      rw [if_neg fun heq => hend heq hseen] at hclip
      rw [if_neg (by omega)]
      exact ⟨mem, rfl, fun i => (if_neg fun hsmall => hw hsmall.1).symm⟩

theorem fillCircleRow_none (h : SmallCircle cx cy radius) (hw : surface.width.toNat = 2 ^ 31)
    (hseen : surface.RowSeen cy radius y) (mem : Nat → Pixel) :
    fillCircleRow surface cx cy (radius * radius) color mem y = none := by
  have hcx := abs_lt.1 h.cx_lt
  have hlen := halfWidth_lt (radius * radius - y * y)
  obtain ⟨hy, hrow0, hrow⟩ := hseen
  have hclip := clipRight_large hw.ge
    (show -2 ^ 31 ≤ cx + (halfWidth (radius * radius - y * y) : Int) by omega)
  rw [if_pos hw] at hclip
  rw [fillCircleRow_eq h hy, if_neg (by omega), hclip, if_pos (by omega)]
  exact if_pos rfl

end Row

/-! ## The rows -/

section Rows

variable {surface : Surface} {cx cy radius : Int} {color : Pixel}

theorem mem_circleRows {y : Int} (hr : 0 < radius) : y ∈ circleRows radius ↔ |y| ≤ radius := by
  rw [abs_le]
  simp only [circleRows, List.mem_map, List.mem_range]
  constructor
  · rintro ⟨k, hk, rfl⟩
    omega
  · intro hy
    exact ⟨(y + radius).toNat, by omega, by omega⟩

open scoped Classical in
theorem rows_apply (color : Pixel) (h : SmallCircle cx cy radius)
    (hend : surface.width.toNat = 2 ^ 31 → ∀ y, ¬surface.RowSeen cy radius y) :
    ∀ {rows : List Int} (mem : Nat → Pixel), (∀ y ∈ rows, |y| ≤ radius) →
      ∃ mem', rows.foldlM (fillCircleRow surface cx cy (radius * radius) color) mem = some mem' ∧
        ∀ i, mem' i = if ∃ y ∈ rows, surface.RowStored cx cy radius y i then color else mem i
  | [], mem, _ => ⟨mem, rfl, fun i => by simp⟩
  | y :: rows, mem, hrows => by
    obtain ⟨mem₁, hrow, happly₁⟩ :=
      fillCircleRow_apply color h (hrows y List.mem_cons_self) (fun hw => hend hw y) mem
    obtain ⟨mem', hfold, happly⟩ := rows_apply color h hend mem₁ fun z hz => hrows z (List.mem_cons_of_mem y hz)
    refine ⟨mem', ?_, fun i => ?_⟩
    · rw [List.foldlM_cons, hrow]
      exact hfold
    · rw [happly, happly₁]
      by_cases hrest : ∃ z ∈ rows, surface.RowStored cx cy radius z i
      · simp [hrest]
      · by_cases hhere : surface.RowStored cx cy radius y i <;> simp [hrest, hhere]

theorem rows_none (h : SmallCircle cx cy radius) (hw : surface.width.toNat = 2 ^ 31) {y : Int}
    (hseen : surface.RowSeen cy radius y) : ∀ {rows : List Int} (mem : Nat → Pixel), y ∈ rows →
      rows.foldlM (fillCircleRow surface cx cy (radius * radius) color) mem = none
  | z :: rows, mem, hy => by
    rw [List.foldlM_cons]
    rcases List.mem_cons.1 hy with rfl | hy
    · rw [fillCircleRow_none h hw hseen]
      rfl
    · cases hrow : fillCircleRow surface cx cy (radius * radius) color mem z with
      | none => rfl
      | some mem' => exact rows_none h hw hseen mem' hy

theorem gfxFillCircle_eq (h : SmallCircle cx cy radius) (mem : Nat → Pixel) :
    gfxFillCircle surface cx cy radius color mem =
      (circleRows radius).foldlM (fillCircleRow surface cx cy (radius * radius) color) mem := by
  have hsq := h.square_le
  have hsq0 := mul_self_nonneg radius
  rw [gfxFillCircle, if_neg (by have := h.radius_pos; omega), int_eq (by omega) (by omega)]
  rfl

/-! ## What is stored to -/

/-- A pixel that its row stores to, or to another in its place. -/
structure Surface.Reached (surface : Surface) (cx cy radius : Int) (p : Nat × Nat) : Prop where
  px_lt : p.1 < surface.width.toNat
  py_lt : p.2 < surface.height.toNat
  width_lt : surface.width.toNat < 2 ^ 31
  height_lt : surface.height.toNat < 2 ^ 31
  row : |(p.2 : Int) - cy| ≤ radius
  half : |(p.1 : Int) - cx| ≤ halfWidth (radius * radius - (p.2 - cy) * (p.2 - cy))

def Surface.place (surface : Surface) (p : Nat × Nat) : Nat := p.2 * surface.pitchPx.toNat % 2 ^ 32 + p.1

def Surface.number (surface : Surface) (p : Nat × Nat) : Nat := p.2 * surface.pitchPx.toNat + p.1

theorem rowStored_iff {i : Nat} : (∃ y, surface.RowStored cx cy radius y i) ↔
    ∃ p, surface.Reached cx cy radius p ∧ i = surface.place p := by
  have hheight := toInt_eq surface.height
  constructor
  · rintro ⟨y, ⟨hy, hrow0, hrow⟩, hwidth, px, hpx, hhalf, rfl⟩
    have hsmall : surface.height.toNat < 2 ^ 31 := by
      by_contra hlarge
      rw [if_neg hlarge] at hheight
      have := surface.height.isLt
      omega
    rw [if_pos hsmall] at hheight
    have hy' : (((cy + y).toNat : Nat) : Int) - cy = y := by omega
    refine ⟨(px, (cy + y).toNat), ⟨hpx, ?_, hwidth, hsmall, ?_, ?_⟩, rfl⟩
    · show (cy + y).toNat < _
      omega
    · show |(((cy + y).toNat : Nat) : Int) - cy| ≤ radius
      rw [hy']
      exact hy
    · show |(px : Int) - cx| ≤
        halfWidth (radius * radius - (((cy + y).toNat : Nat) - cy) * (((cy + y).toNat : Nat) - cy))
      rw [hy']
      exact hhalf
  · rintro ⟨⟨px, py⟩, ⟨hpx, hpy, hwidth, hsmall, hrow, hhalf⟩, rfl⟩
    rw [if_pos hsmall] at hheight
    dsimp only at hpx hpy hrow hhalf
    have hpy' : cy + ((py : Int) - cy) = py := by omega
    refine ⟨py - cy, ⟨hrow, by omega, by omega⟩, hwidth, px, hpx, hhalf, ?_⟩
    rw [hpy', Int.toNat_natCast]
    rfl

end Rows

/-! ## The places and the numbers -/

/-- **Places that are not above the numbers**, of a part that reaches all numbers of the whole: the part is the whole,
and every place is the number. -/
theorem eq_of_reach {α : Type} {place number : α → Nat} {Part Whole : α → Prop} {N : Nat}
    (hpart : ∀ a, Part a → Whole a) (hinj : ∀ a b, Whole a → Whole b → number a = number b → a = b)
    (hle : ∀ a, Part a → place a ≤ number a) (hreach : ∀ a, Whole a → ∃ b, Part b ∧ place b = number a)
    (hN : ∀ a, Whole a → number a ≤ N) : ∀ a, Whole a → Part a ∧ place a = number a := by
  -- from the largest number down
  have hdown : ∀ m a, Whole a → N - number a ≤ m → Part a ∧ place a = number a := by
    intro m
    induction m with
    | zero =>
      intro a ha hm
      obtain ⟨b, hb, hba⟩ := hreach a ha
      have hab : a = b := hinj a b ha (hpart b hb) (by
        have := hle b hb
        have := hN b (hpart b hb)
        have := hN a ha
        omega)
      subst hab
      exact ⟨hb, hba⟩
    | succ m ih =>
      intro a ha hm
      obtain ⟨b, hb, hba⟩ := hreach a ha
      have hle' := hle b hb
      rcases Nat.eq_or_lt_of_le (hba ▸ hle') with heq | hlt
      · obtain rfl := hinj a b ha (hpart b hb) heq
        exact ⟨hb, hba⟩
      · have hbN := hN b (hpart b hb)
        have := (ih b (hpart b hb) (by omega)).2
        omega
  exact fun a ha => hdown _ a ha le_rfl

section Compare

variable {surface : Surface} {cx cy radius : Int}

structure Surface.Covered (surface : Surface) (cx cy radius : Int) (p : Nat × Nat) : Prop where
  px_lt : p.1 < surface.width.toNat
  py_lt : p.2 < surface.height.toNat
  disc : InDisc cx cy radius p.1 p.2

theorem disc_iff {i : Nat} :
    surface.Disc cx cy radius i ↔ ∃ p, surface.Covered cx cy radius p ∧ i = surface.number p := by
  constructor
  · rintro ⟨px, py, hpx, hpy, hdisc, rfl⟩
    exact ⟨(px, py), ⟨hpx, hpy, hdisc⟩, rfl⟩
  · rintro ⟨⟨px, py⟩, ⟨hpx, hpy, hdisc⟩, rfl⟩
    exact ⟨px, py, hpx, hpy, hdisc, rfl⟩

theorem bmod_le_self {n : Int} (h : 0 ≤ n) : n.bmod (2 ^ 16) ≤ n := by
  rw [Int.bmod_def]
  split <;> omega

theorem Surface.Reached.covered {p : Nat × Nat} (h : surface.Reached cx cy radius p) :
    surface.Covered cx cy radius p := by
  refine ⟨h.px_lt, h.py_lt, ?_⟩
  have hsq := (sq_le_of_abs_le h.row).2
  have hle := bmod_le_self (n := radius * radius - (p.2 - cy) * (p.2 - cy)) (by omega)
  unfold InDisc
  rcases le_halfWidth_iff.1 h.half with h0 | hhalf
  · rw [h0]
    omega
  · omega

theorem number_inj {p q : Nat × Nat} (hp : surface.Covered cx cy radius p) (hq : surface.Covered cx cy radius q)
    (h : surface.number p = surface.number q) : p = q := by
  have hpitch := surface.width_le
  have hp1 : p.1 < surface.pitchPx.toNat := by have := hp.px_lt; omega
  have hq1 : q.1 < surface.pitchPx.toNat := by have := hq.px_lt; omega
  obtain ⟨hrow, hcol⟩ := row_unique h hp1 hq1
  exact Prod.ext hcol hrow

theorem number_le {p : Nat × Nat} (h : surface.Covered cx cy radius p) :
    surface.number p ≤ 2 ^ 32 * 2 ^ 32 + 2 ^ 32 := by
  have h1 := h.px_lt
  have h2 := h.py_lt
  have hw := surface.width.isLt
  have hh := surface.height.isLt
  have hmul := Nat.mul_le_mul (show p.2 ≤ 2 ^ 32 by omega) surface.pitchPx.isLt.le
  unfold Surface.number
  omega

theorem place_le (p : Nat × Nat) : surface.place p ≤ surface.number p := by
  have := Nat.mod_le (p.2 * surface.pitchPx.toNat) (2 ^ 32)
  unfold Surface.place Surface.number
  omega

theorem covered_row {p : Nat × Nat} (hr : 0 < radius) (h : surface.Covered cx cy radius p) :
    |(p.2 : Int) - cy| ≤ radius := by
  have hdisc := h.disc
  unfold InDisc at hdisc
  have hx := mul_self_nonneg ((p.1 : Int) - cx)
  exact abs_le.2 ⟨by nlinarith, by nlinarith⟩

theorem stored_iff_takes (hr : 0 < radius)
    (hends : surface.width.toNat = 2 ^ 31 → ∀ y, ¬surface.RowSeen cy radius y) :
    (∀ i, (∃ y, surface.RowStored cx cy radius y i) ↔ surface.Disc cx cy radius i) ↔
      surface.Takes cx cy radius := by
  simp only [rowStored_iff, disc_iff]
  constructor
  · intro hall
    have hreach : ∀ p, surface.Covered cx cy radius p →
        ∃ q, surface.Reached cx cy radius q ∧ surface.place q = surface.number p := fun p hp => by
      obtain ⟨q, hq, hplace⟩ := (hall (surface.number p)).2 ⟨p, hp, rfl⟩
      exact ⟨q, hq, hplace.symm⟩
    refine ⟨hends, fun px py hpx hpy hdisc => ?_⟩
    obtain ⟨hreached, hplace⟩ := eq_of_reach (fun q => Surface.Reached.covered) (fun p q => number_inj)
      (fun q _ => place_le q) hreach (fun p => number_le) (px, py) ⟨hpx, hpy, hdisc⟩
    refine ⟨⟨hreached.width_lt, hreached.height_lt, ?_⟩, ?_⟩
    · have hlt := Nat.mod_lt (py * surface.pitchPx.toNat) (Nat.two_pow_pos 32)
      unfold Surface.place Surface.number at hplace
      dsimp only at hplace
      omega
    · exact (le_halfWidth_iff.1 hreached.half).imp_left fun h0 => by
        dsimp only at h0
        omega
  · intro htakes
    have hsame : ∀ p, surface.Covered cx cy radius p →
        surface.Reached cx cy radius p ∧ surface.place p = surface.number p := fun p hp => by
      obtain ⟨⟨hwidth, hheight, hplace⟩, hhalf⟩ := htakes.pixels p.1 p.2 hp.px_lt hp.py_lt hp.disc
      refine ⟨⟨hp.px_lt, hp.py_lt, hwidth, hheight, covered_row hr hp, le_halfWidth_iff.2 ?_⟩, ?_⟩
      · exact hhalf.imp_left fun h0 => by omega
      · unfold Surface.place Surface.number
        rw [Nat.mod_eq_of_lt hplace]
    intro i
    constructor
    · rintro ⟨p, hp, rfl⟩
      exact ⟨p, hp.covered, (hsame p hp.covered).2⟩
    · rintro ⟨p, hp, rfl⟩
      exact ⟨p, (hsame p hp).1, (hsame p hp).2.symm⟩

theorem paintsDisc_iff_stored (h : SmallCircle cx cy radius)
    (hends : surface.width.toNat = 2 ^ 31 → ∀ y, ¬surface.RowSeen cy radius y) :
    PaintsDisc surface cx cy radius ↔
      ∀ i, (∃ y, surface.RowStored cx cy radius y i) ↔ surface.Disc cx cy radius i := by
  classical
  have hrows : ∀ color mem, ∃ mem', gfxFillCircle surface cx cy radius color mem = some mem' ∧
      ∀ i, mem' i = if ∃ y, surface.RowStored cx cy radius y i then color else mem i := fun color mem => by
    rw [gfxFillCircle_eq h]
    obtain ⟨mem', hfold, happly⟩ :=
      rows_apply color h hends mem fun y hy => (mem_circleRows h.radius_pos).1 hy
    refine ⟨mem', hfold, fun i => ?_⟩
    rw [happly]
    refine if_congr (exists_congr fun y => and_iff_right_of_imp fun hy => ?_) rfl rfl
    exact (mem_circleRows h.radius_pos).2 hy.1.1
  constructor
  · intro hpaint i
    obtain ⟨mem', hdraw, hset⟩ := hpaint 1 fun _ => 0
    obtain ⟨mem₁, hdraw₁, happly⟩ := hrows 1 fun _ => 0
    obtain rfl : mem' = mem₁ := Option.some.inj (hdraw.symm.trans hdraw₁)
    have hi := hset i
    rw [happly] at hi
    by_cases hstored : ∃ y, surface.RowStored cx cy radius y i <;> by_cases hdisc : surface.Disc cx cy radius i <;>
      simp_all
  · intro heq color mem
    obtain ⟨mem', hdraw, happly⟩ := hrows color mem
    refine ⟨mem', hdraw, fun i => ?_⟩
    rw [happly, ← heq]
    exact ⟨fun hset => if_pos hset, fun hset => if_neg hset⟩

theorem ends_of_paintsDisc (h : SmallCircle cx cy radius) (hpaint : PaintsDisc surface cx cy radius)
    (hw : surface.width.toNat = 2 ^ 31) (y : Int) : ¬surface.RowSeen cy radius y := by
  intro hseen
  obtain ⟨mem', hdraw, -⟩ := hpaint 0 fun _ => 0
  rw [gfxFillCircle_eq h, rows_none h hw hseen _ ((mem_circleRows h.radius_pos).2 hseen.1)] at hdraw
  cases hdraw

theorem takes_of_paintsDisc (h : SmallCircle cx cy radius) (hpaint : PaintsDisc surface cx cy radius) :
    surface.Takes cx cy radius := by
  have hends := fun hw y => ends_of_paintsDisc h hpaint hw y
  exact (stored_iff_takes h.radius_pos hends).1 ((paintsDisc_iff_stored h hends).1 hpaint)

/-- **A filled circle is the disc** exactly where the surface takes it. -/
theorem paintsDisc_iff (surface : Surface) (cx cy radius : Int) (hcx : |cx| < 2 ^ 28) (hcy : |cy| < 2 ^ 28)
    (hr : 0 < radius) (hr' : radius ≤ 16384) :
    PaintsDisc surface cx cy radius ↔ surface.Takes cx cy radius := by
  have h : SmallCircle cx cy radius := ⟨hcx, hcy, hr, hr'⟩
  refine ⟨takes_of_paintsDisc h, fun htakes => ?_⟩
  rw [paintsDisc_iff_stored h htakes.ends, stored_iff_takes hr htakes.ends]
  exact htakes

def onePixel : Surface := { width := 1, height := 1, pitchPx := 1, width_le := le_rfl }

theorem paintsDisc_onePixel_iff : (|(3 : Int)| < 2 ^ 28 ∧ |(0 : Int)| < 2 ^ 28 ∧ (0 : Int) < 5 ∧ (5 : Int) ≤ 16384) ∧
    (PaintsDisc onePixel 3 0 5 ↔ onePixel.Takes 3 0 5) :=
  ⟨by decide, paintsDisc_iff onePixel 3 0 5 (by decide) (by decide) (by decide) (by decide)⟩

/-- Beside the middle of a circle of radius 182 the widest row is one pixel wide. -/
theorem not_paintsDisc : ¬∀ (surface : Surface) (cx cy radius : Int), |cx| < 2 ^ 28 → |cy| < 2 ^ 28 → 0 < radius →
    radius ≤ 16384 → PaintsDisc surface cx cy radius := by
  intro hall
  have htakes := takes_of_paintsDisc ⟨by decide, by decide, by decide, by decide⟩
    (hall onePixel 1 0 182 (by decide) (by decide) (by decide) (by decide))
  have hpixel := htakes.pixels 0 0 (by decide) (by decide) (by unfold InDisc; decide)
  exact absurd hpixel.2 (by decide)

end Compare

end Gfx
end AmitX
