import AmitX.Lib.Bresenham
import AmitX.Lib.CInt
import AmitX.Lib.Loop
/-!
# Line — the loops along a line (`fb.c`)

`gfx_draw_line` and `gfx_draw_line_thick` go from one end to the other with two tests of the error a turn, which are
not strict in the one and strict in the other.  Either asks for a step wherever it is needed and for none that would
leave the line, so both are the library's walk along the major axis.  What is drawn at a point is a parameter.
-/
namespace AmitX
namespace Gfx

open Bresenham CInt

variable {σ : Type}

/-- What a turn asks of `e2`, and what it then adds to `err` and to the coordinates. -/
structure Stride where
  alongX : Int → Bool
  alongY : Int → Bool
  errX : Int
  errY : Int
  sx : Int
  sy : Int

/-- The variables of the loop, and what has been drawn on. -/
structure Pen (σ : Type) where
  x0 : Int
  y0 : Int
  err : Int
  mem : σ

/-- The part of the turn behind the test for the end: none where a sum overflows. -/
def Stride.next (t : Stride) (p : Pen σ) : Option (Pen σ) := do
  let e2 ← int (2 * p.err)
  let q ← if t.alongX e2 then do
      let err ← int (p.err + t.errX)
      let x0 ← int (p.x0 + t.sx)
      some { p with err := err, x0 := x0 }
    else some p
  if t.alongY e2 then do
      let err ← int (q.err + t.errY)
      let y0 ← int (q.y0 + t.sy)
      some { q with err := err, y0 := y0 }
    else some q

/-- One turn of `while (1)`: the answer is the drawing, or none where a sum overflows. -/
def lineTurn (plot : Int → Int → σ → σ) (x1 y1 : Int) (t : Stride) (p : Pen σ) : Pen σ ⊕ Option σ :=
  let p := { p with mem := plot p.x0 p.y0 p.mem }
  if p.x0 = x1 ∧ p.y0 = y1 then .inr (some p.mem)
  else
    match t.next p with
    | some q => .inl q
    | none => .inr none

/-- The variables before the loop of `gfx_draw_line`, in which `dy` is not positive. -/
def drawLineStart (x0 y0 x1 y1 : Int) (mem : σ) : Option (Stride × Pen σ) := do
  let dx ← cabs (← int (x1 - x0))
  let dy ← int (-(← cabs (← int (y1 - y0))))
  let err ← int (dx + dy)
  some ({ alongX := fun e2 => e2 ≥ dy, alongY := fun e2 => e2 ≤ dx, errX := dy, errY := dx,
          sx := if x0 < x1 then 1 else -1, sy := if y0 < y1 then 1 else -1 },
        { x0 := x0, y0 := y0, err := err, mem := mem })

/-- The variables before the loop of `gfx_draw_line_thick`. -/
def drawLineThickStart (x0 y0 x1 y1 : Int) (mem : σ) : Option (Stride × Pen σ) := do
  let dx ← cabs (← int (x1 - x0))
  let dy ← cabs (← int (y1 - y0))
  let err ← int (dx - dy)
  some ({ alongX := fun e2 => e2 > -dy, alongY := fun e2 => e2 < dx, errX := -dy, errY := dx,
          sx := if x0 < x1 then 1 else -1, sy := if y0 < y1 then 1 else -1 },
        { x0 := x0, y0 := y0, err := err, mem := mem })

def lineLoop (plot : Int → Int → σ → σ) (x1 y1 : Int) (turns : Nat) :
    Option (Stride × Pen σ) → Option (Option σ)
  | none => some none
  | some (t, p) => Loop.loop (lineTurn plot x1 y1 t) turns p

variable (putPixel : Int → Int → σ → σ) (fillCircle : Int → Int → Int → σ → σ)

/-- `none` where the turns do not do, and `some none` where a sum overflows. -/
def gfxDrawLine (turns : Nat) (x0 y0 x1 y1 : Int) (mem : σ) : Option (Option σ) :=
  lineLoop putPixel x1 y1 turns (drawLineStart x0 y0 x1 y1 mem)

def gfxDrawLineThick (turns : Nat) (x0 y0 x1 y1 thickness : Int) (mem : σ) : Option (Option σ) :=
  if thickness ≤ 1 then gfxDrawLine putPixel turns x0 y0 x1 y1 mem
  else
    let r := thickness.tdiv 2
    let r := if r < 1 then 1 else r
    lineLoop (fun x y => fillCircle x y r) x1 y1 turns (drawLineThickStart x0 y0 x1 y1 mem)

/-! ## What a line is -/

def Near (x0 y0 x1 y1 : Int) (p : Int × Int) : Prop :=
  ∃ t : ℚ, 0 ≤ t ∧ t ≤ 1 ∧
    if |y1 - y0| ≤ |x1 - x0| then p.1 = x0 + t * (x1 - x0) ∧ |p.2 - (y0 + t * (y1 - y0))| ≤ 1 / 2
    else p.2 = y0 + t * (y1 - y0) ∧ |p.1 - (x0 + t * (x1 - x0))| ≤ 1 / 2

structure IsLine (x0 y0 x1 y1 : Int) (points : List (Int × Int)) : Prop where
  length_eq : (points.length : Int) = max |x1 - x0| |y1 - y0| + 1
  head_eq : points.head? = some (x0, y0)
  last_eq : points.getLast? = some (x1, y1)
  adjacent : ∀ k p q, points[k]? = some p → points[k + 1]? = some q → |q.1 - p.1| ≤ 1 ∧ |q.2 - p.2| ≤ 1
  near : ∀ p ∈ points, Near x0 y0 x1 y1 p

/-! ## A turn -/

structure Pen.Tame (p : Pen σ) : Prop where
  x0_le : |p.x0| ≤ 2 ^ 30
  y0_le : |p.y0| ≤ 2 ^ 30
  err_le : |2 * p.err| ≤ 3 * 2 ^ 29

structure Stride.Tame (t : Stride) : Prop where
  errX_le : |t.errX| ≤ 2 ^ 29
  errY_le : |t.errY| ≤ 2 ^ 29
  sx_le : |t.sx| ≤ 1
  sy_le : |t.sy| ≤ 1

theorem Stride.next_eq {t : Stride} {p : Pen σ} (ht : t.Tame) (hp : p.Tame) :
    t.next p = some
      { x0 := if t.alongX (2 * p.err) then p.x0 + t.sx else p.x0
        y0 := if t.alongY (2 * p.err) then p.y0 + t.sy else p.y0
        err := p.err + (if t.alongX (2 * p.err) then t.errX else 0) + if t.alongY (2 * p.err) then t.errY else 0
        mem := p.mem } := by
  have hx := abs_le.1 hp.x0_le
  have hy := abs_le.1 hp.y0_le
  have herr := abs_le.1 hp.err_le
  have herrX := abs_le.1 ht.errX_le
  have herrY := abs_le.1 ht.errY_le
  have hsx := abs_le.1 ht.sx_le
  have hsy := abs_le.1 ht.sy_le
  have he2 : int (2 * p.err) = some (2 * p.err) := int_eq (by omega) (by omega)
  have hnextX : int (p.x0 + t.sx) = some (p.x0 + t.sx) := int_eq (by omega) (by omega)
  have hnextY : int (p.y0 + t.sy) = some (p.y0 + t.sy) := int_eq (by omega) (by omega)
  have hsumX : int (p.err + t.errX) = some (p.err + t.errX) := int_eq (by omega) (by omega)
  have hsumY : int (p.err + t.errY) = some (p.err + t.errY) := int_eq (by omega) (by omega)
  have hsum : int (p.err + t.errX + t.errY) = some (p.err + t.errX + t.errY) := int_eq (by omega) (by omega)
  unfold Stride.next
  by_cases halongX : t.alongX (2 * p.err) <;> by_cases halongY : t.alongY (2 * p.err) <;>
    simp [he2, hnextX, hnextY, hsumX, hsumY, hsum, halongX, halongY]

/-- The tests ask for a step where it is needed, and for none that would leave the line. -/
structure Stride.Along (t : Stride) (Dx Dy : Int) : Prop where
  errX_eq : t.errX = -Dy
  errY_eq : t.errY = Dx
  must_x : ∀ e, -Dy < e → t.alongX e = true
  may_x : ∀ e, t.alongX e = true → -Dy ≤ e
  must_y : ∀ e, e < Dx → t.alongY e = true
  may_y : ∀ e, t.alongY e = true → e ≤ Dx

theorem loop_lineTurn (plot : Int → Int → σ → σ) (t : Stride) (x1 y1 : Int) (x y err : Nat → Int) {n : Nat}
    (hnext : ∀ k < n, ∀ mem : σ, t.next ⟨x k, y k, err k, mem⟩ = some ⟨x (k + 1), y (k + 1), err (k + 1), mem⟩)
    (hbefore : ∀ k < n, ¬(x k = x1 ∧ y k = y1)) (hx : x n = x1) (hy : y n = y1) (mem : σ) :
    Loop.loop (lineTurn plot x1 y1 t) (n + 1) ⟨x 0, y 0, err 0, mem⟩ =
      some (some (((List.range (n + 1)).map fun k => (x k, y k)).foldl (fun mem p => plot p.1 p.2 mem) mem)) := by
  let drawn : Nat → σ := fun k =>
    ((List.range k).map fun k => (x k, y k)).foldl (fun mem p => plot p.1 p.2 mem) mem
  have hdrawn : ∀ k, drawn (k + 1) = plot (x k) (y k) (drawn k) := by
    intro k
    simp only [drawn, List.range_succ, List.map_append, List.foldl_append, List.map_cons, List.map_nil,
      List.foldl_cons, List.foldl_nil]
  have hturn : ∀ k < n, lineTurn plot x1 y1 t ⟨x k, y k, err k, drawn k⟩ =
      .inl ⟨x (k + 1), y (k + 1), err (k + 1), drawn (k + 1)⟩ := by
    intro k hk
    simp only [lineTurn, if_neg (hbefore k hk), hnext k hk, hdrawn]
  have hlast : lineTurn plot x1 y1 t ⟨x n, y n, err n, drawn n⟩ = .inr (some (drawn (n + 1))) := by
    simp only [lineTurn, hx, hy, and_self, if_true, hdrawn]
  change Loop.loop (lineTurn plot x1 y1 t) (n + 1) ⟨x 0, y 0, err 0, drawn 0⟩ = some (some (drawn (n + 1)))
  rw [Loop.loop_steps (f := fun k => (⟨x k, y k, err k, drawn k⟩ : Pen σ)) hturn 1]
  exact Loop.loop_inr hlast 0

theorem Stride.Along.must_x_neg {t : Stride} {Dx Dy : Int} (ht : t.Along Dx Dy) (e : Int) (he : e < Dy) :
    t.alongX (-e) = true := ht.must_x _ (by omega)

theorem Stride.Along.may_x_neg {t : Stride} {Dx Dy : Int} (ht : t.Along Dx Dy) (e : Int) (he : t.alongX (-e) = true) :
    e ≤ Dy := by
  have := ht.may_x _ he
  omega

/-! ## The walk -/

/-- The points where `x` is the major axis. -/
def xMajor (t : Stride) (x0 y0 Dx Dy : Int) (k : Nat) : Int × Int :=
  (x0 + t.sx * k, y0 + t.sy * minors Dx Dy t.alongY k)

/-- The points where `y` is. -/
def yMajor (t : Stride) (x0 y0 Dx Dy : Int) (k : Nat) : Int × Int :=
  (x0 + t.sx * minors Dy Dx (fun e => t.alongX (-e)) k, y0 + t.sy * k)

section Walk

variable {t : Stride} {x0 y0 Dx Dy : Int} {mem : σ} {k : Nat}

theorem abs_add_mul_le {c s a : Int} (hs : s = 1 ∨ s = -1) (hc : |c| < 2 ^ 28) (ha0 : 0 ≤ a) (ha : a ≤ 2 ^ 29) :
    |c + s * a| ≤ 2 ^ 30 := by
  have := abs_lt.1 hc
  rw [abs_le]
  rcases hs with rfl | rfl
  · rw [one_mul]; omega
  · rw [neg_one_mul]; omega

theorem Stride.tame (ht : t.Along Dx Dy) (hsx : t.sx = 1 ∨ t.sx = -1) (hsy : t.sy = 1 ∨ t.sy = -1)
    (hDx : |Dx| ≤ 2 ^ 29) (hDy : |Dy| ≤ 2 ^ 29) : t.Tame where
  errX_le := by rw [ht.errX_eq, abs_neg]; exact hDy
  errY_le := by rw [ht.errY_eq]; exact hDx
  sx_le := by rcases hsx with h | h <;> rw [h] <;> decide
  sy_le := by rcases hsy with h | h <;> rw [h] <;> decide

theorem abs_error_le {A B k b : Int} (h : Close A B k b) (hA : 0 < A) (hA' : A ≤ 2 ^ 29) (hB0 : 0 ≤ B) (hB : B ≤ A) :
    |error A B k b| ≤ 3 * 2 ^ 29 := by
  have hlow := h.lt_error hB hA
  have hhigh := h.error_le hB0
  rw [abs_le]
  omega

theorem next_xMajor {k b : Int} (ht : t.Along Dx Dy) (hsx : t.sx = 1 ∨ t.sx = -1) (hsy : t.sy = 1 ∨ t.sy = -1)
    (hx0 : |x0| < 2 ^ 28) (hy0 : |y0| < 2 ^ 28) (hDx : Dx ≤ 2 ^ 29) (hDy : 0 ≤ Dy) (hle : Dy ≤ Dx)
    (hclose : Close Dx Dy k b) (hk0 : 0 ≤ k) (hk : k < Dx) (mem : σ) :
    t.next ⟨x0 + t.sx * k, y0 + t.sy * b, (b + 1) * Dx - (k + 1) * Dy, mem⟩ =
      some ⟨x0 + t.sx * (k + 1), y0 + t.sy * (if t.alongY (error Dx Dy k b) then b + 1 else b),
        ((if t.alongY (error Dx Dy k b) then b + 1 else b) + 1) * Dx - (k + 1 + 1) * Dy, mem⟩ := by
  have hpos : 0 < Dx := by omega
  obtain ⟨hb0, hb⟩ := hclose.range hpos hDy hk0 hk.le
  have htame : t.Tame := t.tame ht hsx hsy (abs_le.2 (by omega)) (abs_le.2 (by omega))
  have he : 2 * ((b + 1) * Dx - (k + 1) * Dy) = error Dx Dy k b := rfl
  have halongX : t.alongX (error Dx Dy k b) = true := ht.must_x _ (hclose.lt_error hle hpos)
  have herr : |2 * ((b + 1) * Dx - (k + 1) * Dy)| ≤ 3 * 2 ^ 29 := he ▸ abs_error_le hclose hpos hDx hDy hle
  have hpen : (Pen.mk (x0 + t.sx * k) (y0 + t.sy * b) ((b + 1) * Dx - (k + 1) * Dy) mem).Tame :=
    { x0_le := abs_add_mul_le hsx hx0 hk0 (by omega), y0_le := abs_add_mul_le hsy hy0 hb0 (by omega), err_le := herr }
  rw [Stride.next_eq htame hpen]
  dsimp only
  rw [he, if_pos halongX, if_pos halongX, ht.errX_eq, ht.errY_eq]
  split
  · congr 2 <;> ring
  · congr 2 <;> ring

theorem next_yMajor {k a : Int} (ht : t.Along Dx Dy) (hsx : t.sx = 1 ∨ t.sx = -1) (hsy : t.sy = 1 ∨ t.sy = -1)
    (hx0 : |x0| < 2 ^ 28) (hy0 : |y0| < 2 ^ 28) (hDy : Dy ≤ 2 ^ 29) (hDx : 0 ≤ Dx) (hle : Dx ≤ Dy)
    (hclose : Close Dy Dx k a) (hk0 : 0 ≤ k) (hk : k < Dy) (mem : σ) :
    t.next ⟨x0 + t.sx * a, y0 + t.sy * k, -((a + 1) * Dy - (k + 1) * Dx), mem⟩ =
      some ⟨x0 + t.sx * (if t.alongX (-error Dy Dx k a) then a + 1 else a), y0 + t.sy * (k + 1),
        -(((if t.alongX (-error Dy Dx k a) then a + 1 else a) + 1) * Dy - (k + 1 + 1) * Dx), mem⟩ := by
  have hpos : 0 < Dy := by omega
  obtain ⟨ha0, ha⟩ := hclose.range hpos hDx hk0 hk.le
  have htame : t.Tame := t.tame ht hsx hsy (abs_le.2 (by omega)) (abs_le.2 (by omega))
  have he : 2 * -((a + 1) * Dy - (k + 1) * Dx) = -error Dy Dx k a := by
    unfold error
    ring
  have halongY : t.alongY (-error Dy Dx k a) = true := ht.must_y _ (by have := hclose.lt_error hle hpos; omega)
  have herr : |2 * -((a + 1) * Dy - (k + 1) * Dx)| ≤ 3 * 2 ^ 29 := by
    rw [he, abs_neg]
    exact abs_error_le hclose hpos hDy hDx hle
  have hpen : (Pen.mk (x0 + t.sx * a) (y0 + t.sy * k) (-((a + 1) * Dy - (k + 1) * Dx)) mem).Tame :=
    { x0_le := abs_add_mul_le hsx hx0 ha0 (by omega), y0_le := abs_add_mul_le hsy hy0 hk0 (by omega), err_le := herr }
  rw [Stride.next_eq htame hpen]
  dsimp only
  rw [he, if_pos halongY, if_pos halongY, ht.errX_eq, ht.errY_eq]
  split
  · congr 2 <;> ring
  · congr 2 <;> ring

theorem loop_xMajor (plot : Int → Int → σ → σ) (ht : t.Along Dx Dy) (hsx : t.sx = 1 ∨ t.sx = -1)
    (hsy : t.sy = 1 ∨ t.sy = -1) (hx0 : |x0| < 2 ^ 28) (hy0 : |y0| < 2 ^ 28) (hDx : Dx ≤ 2 ^ 29) (hDy : 0 ≤ Dy)
    (hle : Dy ≤ Dx) {n : Nat} (hn : (n : Int) = Dx) (mem : σ) :
    Loop.loop (lineTurn plot (x0 + t.sx * Dx) (y0 + t.sy * Dy) t) (n + 1) ⟨x0, y0, Dx - Dy, mem⟩ =
      some (some (((List.range (n + 1)).map (xMajor t x0 y0 Dx Dy)).foldl (fun mem p => plot p.1 p.2 mem) mem)) := by
  have hend : ∀ k < n, x0 + t.sx * k ≠ x0 + t.sx * Dx := by
    rcases hsx with h | h <;> rw [h] <;> omega
  have hloop := loop_lineTurn plot t (x0 + t.sx * Dx) (y0 + t.sy * Dy)
    (fun k => x0 + t.sx * k) (fun k => y0 + t.sy * minors Dx Dy t.alongY k)
    (fun k => (minors Dx Dy t.alongY k + 1) * Dx - (k + 1) * Dy) (n := n)
    (fun k hk mem => by
      rw [Int.natCast_succ, minors]
      exact next_xMajor ht hsx hsy hx0 hy0 hDx hDy hle (close_minors hDy hle ht.must_y ht.may_y k) (by omega) (by omega)
        mem)
    (fun k hk h => hend k hk h.1) (by rw [hn]) (by rw [minors_last hDy hle ht.must_y ht.may_y hn]) mem
  simp only [minors, Int.natCast_zero, mul_zero, add_zero, zero_add, one_mul] at hloop
  exact hloop

theorem loop_yMajor (plot : Int → Int → σ → σ) (ht : t.Along Dx Dy) (hsx : t.sx = 1 ∨ t.sx = -1)
    (hsy : t.sy = 1 ∨ t.sy = -1) (hx0 : |x0| < 2 ^ 28) (hy0 : |y0| < 2 ^ 28) (hDy : Dy ≤ 2 ^ 29) (hDx : 0 ≤ Dx)
    (hle : Dx ≤ Dy) {n : Nat} (hn : (n : Int) = Dy) (mem : σ) :
    Loop.loop (lineTurn plot (x0 + t.sx * Dx) (y0 + t.sy * Dy) t) (n + 1) ⟨x0, y0, Dx - Dy, mem⟩ =
      some (some (((List.range (n + 1)).map (yMajor t x0 y0 Dx Dy)).foldl (fun mem p => plot p.1 p.2 mem) mem)) := by
  have hend : ∀ k < n, y0 + t.sy * k ≠ y0 + t.sy * Dy := by
    rcases hsy with h | h <;> rw [h] <;> omega
  have hloop := loop_lineTurn plot t (x0 + t.sx * Dx) (y0 + t.sy * Dy)
    (fun k => x0 + t.sx * minors Dy Dx (fun e => t.alongX (-e)) k) (fun k => y0 + t.sy * k)
    (fun k => -((minors Dy Dx (fun e => t.alongX (-e)) k + 1) * Dy - (k + 1) * Dx)) (n := n)
    (fun k hk mem => by
      rw [Int.natCast_succ, minors]
      exact next_yMajor ht hsx hsy hx0 hy0 hDy hDx hle (close_minors hDx hle ht.must_x_neg ht.may_x_neg k) (by omega)
        (by omega) mem)
    (fun k hk h => hend k hk h.2) (by rw [minors_last hDx hle ht.must_x_neg ht.may_x_neg hn]) (by rw [hn]) mem
  simp only [minors, Int.natCast_zero, mul_zero, add_zero, zero_add, one_mul, neg_sub] at hloop
  exact hloop

end Walk

/-! ## The points -/

theorem isLine_of_steps {x0 y0 x1 y1 : Int} {f : Nat → Int × Int} {n : Nat}
    (hn : (n : Int) = max |x1 - x0| |y1 - y0|) (hfirst : f 0 = (x0, y0)) (hlast : f n = (x1, y1))
    (hadjacent : ∀ k, |(f (k + 1)).1 - (f k).1| ≤ 1 ∧ |(f (k + 1)).2 - (f k).2| ≤ 1)
    (hnear : ∀ k ≤ n, Near x0 y0 x1 y1 (f k)) : IsLine x0 y0 x1 y1 ((List.range (n + 1)).map f) where
  length_eq := by
    rw [List.length_map, List.length_range, ← hn]
    rfl
  head_eq := by
    rw [List.range_succ_eq_map, List.map_cons, List.head?_cons, hfirst]
  last_eq := by
    rw [List.range_succ, List.map_append, List.map_cons, List.map_nil, List.getLast?_concat, hlast]
  adjacent := by
    intro k p q hp hq
    rw [List.getElem?_map, Option.map_eq_some_iff] at hp hq
    obtain ⟨i, hi, rfl⟩ := hp
    obtain ⟨j, hj, rfl⟩ := hq
    obtain ⟨-, rfl⟩ := List.getElem?_eq_some_iff.1 hi
    obtain ⟨-, rfl⟩ := List.getElem?_eq_some_iff.1 hj
    rw [List.getElem_range, List.getElem_range]
    exact hadjacent k
  near := by
    intro p hp
    obtain ⟨k, hk, rfl⟩ := List.mem_map.1 hp
    exact hnear k (by rw [List.mem_range] at hk; omega)

theorem near_start (x0 y0 x1 y1 : Int) : Near x0 y0 x1 y1 (x0, y0) := by
  refine ⟨0, le_rfl, zero_le_one, ?_⟩
  split <;> simp

theorem exists_beside {A B k b c s d u : Int} (hA : 0 < A) (hk0 : 0 ≤ k) (hk : k ≤ A) (h : Close A B k b)
    (hu : u = 1 ∨ u = -1) : ∃ t : ℚ, 0 ≤ t ∧ t ≤ 1 ∧
      (((c + s * k : Int) : ℚ) = c + t * ((c + s * A : Int) - c)) ∧
      |((d + u * b : Int) : ℚ) - (d + t * ((d + u * B : Int) - d))| ≤ 1 / 2 := by
  have hA' : (0 : ℚ) < A := by exact_mod_cast hA
  refine ⟨k / A, div_nonneg (by exact_mod_cast hk0) hA'.le, ?_, ?_, ?_⟩
  · rw [div_le_iff₀ hA', one_mul]
    exact_mod_cast hk
  · push_cast
    field_simp
    ring
  · have hhalf := h.half hA
    have he : ((d + u * b : Int) : ℚ) - (d + k / A * ((d + u * B : Int) - d)) = u * (b - k / A * B) := by
      push_cast
      ring
    rw [he]
    rcases hu with rfl | rfl
    · rwa [Int.cast_one, one_mul]
    · rwa [Int.cast_neg, Int.cast_one, neg_one_mul, abs_neg]

theorem abs_step_le {s : Int} (hs : s = 1 ∨ s = -1) (c : Int) {a b : Int} (h : a = b + 1 ∨ a = b) :
    |c + s * a - (c + s * b)| ≤ 1 := by
  rcases hs with rfl | rfl <;> rcases h with rfl | rfl <;> rw [abs_le] <;> omega

section Points

variable {t : Stride} {Dx Dy : Int} {n : Nat}

theorem abs_way {s c a : Int} (hs : s = 1 ∨ s = -1) (ha : 0 ≤ a) : |c + s * a - c| = a := by
  rcases hs with rfl | rfl
  · rw [one_mul, add_sub_cancel_left, abs_of_nonneg ha]
  · rw [neg_one_mul, add_sub_cancel_left, abs_neg, abs_of_nonneg ha]

theorem isLine_xMajor (x0 y0 : Int) (ht : t.Along Dx Dy) (hsx : t.sx = 1 ∨ t.sx = -1) (hsy : t.sy = 1 ∨ t.sy = -1)
    (hDy : 0 ≤ Dy) (hle : Dy ≤ Dx) (hn : (n : Int) = Dx) :
    IsLine x0 y0 (x0 + t.sx * Dx) (y0 + t.sy * Dy) ((List.range (n + 1)).map (xMajor t x0 y0 Dx Dy)) := by
  have hx := abs_way (c := x0) hsx (hDy.trans hle)
  have hy := abs_way (c := y0) hsy hDy
  refine isLine_of_steps ?_ ?_ ?_ ?_ ?_
  · rw [hx, hy, max_eq_left hle, hn]
  · simp [xMajor, minors]
  · rw [xMajor, minors_last hDy hle ht.must_y ht.may_y hn, hn]
  · intro k
    exact ⟨abs_step_le hsx x0 (.inl (Int.natCast_succ k)), abs_step_le hsy y0 (minors_succ k)⟩
  · intro k hk
    rcases Nat.eq_zero_or_pos k with rfl | hpos
    · simpa [xMajor, minors] using near_start x0 y0 (x0 + t.sx * Dx) (y0 + t.sy * Dy)
    · obtain ⟨r, hr0, hr1, hmajor, hminor⟩ := exists_beside (c := x0) (s := t.sx) (d := y0) (u := t.sy) (by omega)
        (Int.natCast_nonneg k) (by omega) (close_minors hDy hle ht.must_y ht.may_y k) hsy
      refine ⟨r, hr0, hr1, ?_⟩
      rw [if_pos (by rw [hx, hy]; exact hle)]
      exact ⟨hmajor, hminor⟩

theorem isLine_yMajor (x0 y0 : Int) (ht : t.Along Dx Dy) (hsx : t.sx = 1 ∨ t.sx = -1) (hsy : t.sy = 1 ∨ t.sy = -1)
    (hDx : 0 ≤ Dx) (hlt : Dx < Dy) (hn : (n : Int) = Dy) :
    IsLine x0 y0 (x0 + t.sx * Dx) (y0 + t.sy * Dy) ((List.range (n + 1)).map (yMajor t x0 y0 Dx Dy)) := by
  have hx := abs_way (c := x0) hsx hDx
  have hy := abs_way (c := y0) hsy (hDx.trans hlt.le)
  have hlast := minors_last hDx hlt.le ht.must_x_neg ht.may_x_neg hn
  refine isLine_of_steps ?_ ?_ ?_ ?_ ?_
  · rw [hx, hy, max_eq_right hlt.le, hn]
  · simp [yMajor, minors]
  · rw [yMajor, hlast, hn]
  · intro k
    exact ⟨abs_step_le hsx x0 (minors_succ k), abs_step_le hsy y0 (.inl (Int.natCast_succ k))⟩
  · intro k hk
    rcases Nat.eq_zero_or_pos k with rfl | hpos
    · simpa [yMajor, minors] using near_start x0 y0 (x0 + t.sx * Dx) (y0 + t.sy * Dy)
    · obtain ⟨r, hr0, hr1, hmajor, hminor⟩ := exists_beside (c := y0) (s := t.sy) (d := x0) (u := t.sx) (by omega)
        (Int.natCast_nonneg k) (by omega) (close_minors hDx hlt.le ht.must_x_neg ht.may_x_neg k) hsx
      refine ⟨r, hr0, hr1, ?_⟩
      rw [if_neg (by rw [hx, hy]; omega)]
      exact ⟨hmajor, hminor⟩

end Points

/-! ## The two loops -/

structure Starts (x0 y0 x1 y1 : Int) (mem : σ) (t : Stride) (p : Pen σ) : Prop where
  along : t.Along |x1 - x0| |y1 - y0|
  sx_eq : t.sx = if x0 < x1 then 1 else -1
  sy_eq : t.sy = if y0 < y1 then 1 else -1
  pen_eq : p = ⟨x0, y0, |x1 - x0| - |y1 - y0|, mem⟩

theorem sign_cases (a b : Int) : (if a < b then (1 : Int) else -1) = 1 ∨ (if a < b then (1 : Int) else -1) = -1 := by
  split
  · exact .inl rfl
  · exact .inr rfl

theorem sign_mul_abs (a b : Int) : (if a < b then 1 else -1) * |b - a| = b - a := by
  split
  · rw [abs_of_pos (by omega), one_mul]
  · rw [abs_of_nonpos (by omega), neg_one_mul, neg_neg]

def Small (x0 y0 x1 y1 : Int) : Prop := |x0| < 2 ^ 28 ∧ |y0| < 2 ^ 28 ∧ |x1| < 2 ^ 28 ∧ |y1| < 2 ^ 28

theorem abs_sub_le_of_small {a b : Int} (ha : |a| < 2 ^ 28) (hb : |b| < 2 ^ 28) : |b - a| ≤ 2 ^ 29 := by
  have := abs_lt.1 ha
  have := abs_lt.1 hb
  rw [abs_le]
  omega

theorem cabs_sub {a b : Int} (ha : |a| < 2 ^ 28) (hb : |b| < 2 ^ 28) :
    int (b - a) = some (b - a) ∧ cabs (b - a) = some |b - a| := by
  have := abs_le.1 (abs_sub_le_of_small ha hb)
  exact ⟨int_eq (by omega) (by omega), cabs_eq (by omega) (by omega)⟩

theorem drawLineStart_eq {x0 y0 x1 y1 : Int} (h : Small x0 y0 x1 y1) (mem : σ) :
    ∃ t p, drawLineStart x0 y0 x1 y1 mem = some (t, p) ∧ Starts x0 y0 x1 y1 mem t p := by
  obtain ⟨hx0, hy0, hx1, hy1⟩ := h
  obtain ⟨hx, hdx⟩ := cabs_sub hx0 hx1
  obtain ⟨hy, hdy⟩ := cabs_sub hy0 hy1
  have := abs_sub_le_of_small hx0 hx1
  have := abs_sub_le_of_small hy0 hy1
  have := abs_nonneg (x1 - x0)
  have := abs_nonneg (y1 - y0)
  have hneg : int (-|y1 - y0|) = some (-|y1 - y0|) := int_eq (by omega) (by omega)
  have herr : int (|x1 - x0| + -|y1 - y0|) = some (|x1 - x0| + -|y1 - y0|) := int_eq (by omega) (by omega)
  have hstart : drawLineStart x0 y0 x1 y1 mem = some
      (⟨fun e2 => e2 ≥ -|y1 - y0|, fun e2 => e2 ≤ |x1 - x0|, -|y1 - y0|, |x1 - x0|, if x0 < x1 then 1 else -1,
        if y0 < y1 then 1 else -1⟩, ⟨x0, y0, |x1 - x0| + -|y1 - y0|, mem⟩) := by
    simp only [drawLineStart, hx, hdx, hy, hdy, hneg, herr, Option.bind_eq_bind, Option.bind_some]
  refine ⟨_, _, hstart, ⟨?_, rfl, rfl, rfl⟩⟩
  exact
    { errX_eq := rfl
      errY_eq := rfl
      must_x := fun e he => decide_eq_true he.le
      may_x := fun e he => of_decide_eq_true he
      must_y := fun e he => decide_eq_true he.le
      may_y := fun e he => of_decide_eq_true he }

theorem drawLineThickStart_eq {x0 y0 x1 y1 : Int} (h : Small x0 y0 x1 y1) (mem : σ) :
    ∃ t p, drawLineThickStart x0 y0 x1 y1 mem = some (t, p) ∧ Starts x0 y0 x1 y1 mem t p := by
  obtain ⟨hx0, hy0, hx1, hy1⟩ := h
  obtain ⟨hx, hdx⟩ := cabs_sub hx0 hx1
  obtain ⟨hy, hdy⟩ := cabs_sub hy0 hy1
  have := abs_sub_le_of_small hx0 hx1
  have := abs_sub_le_of_small hy0 hy1
  have := abs_nonneg (x1 - x0)
  have := abs_nonneg (y1 - y0)
  have herr : int (|x1 - x0| - |y1 - y0|) = some (|x1 - x0| - |y1 - y0|) := int_eq (by omega) (by omega)
  have hstart : drawLineThickStart x0 y0 x1 y1 mem = some
      (⟨fun e2 => e2 > -|y1 - y0|, fun e2 => e2 < |x1 - x0|, -|y1 - y0|, |x1 - x0|, if x0 < x1 then 1 else -1,
        if y0 < y1 then 1 else -1⟩, ⟨x0, y0, |x1 - x0| - |y1 - y0|, mem⟩) := by
    simp only [drawLineThickStart, hx, hdx, hy, hdy, herr, Option.bind_eq_bind, Option.bind_some]
  refine ⟨_, _, hstart, ⟨?_, rfl, rfl, rfl⟩⟩
  exact
    { errX_eq := rfl
      errY_eq := rfl
      must_x := fun e he => decide_eq_true he
      may_x := fun e he => (of_decide_eq_true he : e > _).le
      must_y := fun e he => decide_eq_true he
      may_y := fun e he => (of_decide_eq_true he : e < _).le }

theorem lineLoop_eq {x0 y0 x1 y1 : Int} (h : Small x0 y0 x1 y1) {plot : Int → Int → σ → σ} {mem : σ} {t : Stride}
    {p : Pen σ} (hs : Starts x0 y0 x1 y1 mem t p) :
    ∃ points, IsLine x0 y0 x1 y1 points ∧ ∃ turns,
      lineLoop plot x1 y1 turns (some (t, p)) = some (some (points.foldl (fun mem p => plot p.1 p.2 mem) mem)) := by
  obtain ⟨hx0, hy0, hx1, hy1⟩ := h
  have hDx := abs_sub_le_of_small hx0 hx1
  have hDy := abs_sub_le_of_small hy0 hy1
  have hsx : t.sx = 1 ∨ t.sx = -1 := hs.sx_eq ▸ sign_cases x0 x1
  have hsy : t.sy = 1 ∨ t.sy = -1 := hs.sy_eq ▸ sign_cases y0 y1
  have hendX : x0 + t.sx * |x1 - x0| = x1 := by rw [hs.sx_eq, sign_mul_abs]; omega
  have hendY : y0 + t.sy * |y1 - y0| = y1 := by rw [hs.sy_eq, sign_mul_abs]; omega
  rw [hs.pen_eq]
  rcases le_or_gt |y1 - y0| |x1 - x0| with hle | hlt
  · have hn := Int.toNat_of_nonneg (abs_nonneg (x1 - x0))
    have hline := isLine_xMajor x0 y0 hs.along hsx hsy (abs_nonneg _) hle hn
    have hloop := loop_xMajor plot hs.along hsx hsy hx0 hy0 hDx (abs_nonneg _) hle hn mem
    rw [hendX, hendY] at hline hloop
    exact ⟨_, hline, |x1 - x0|.toNat + 1, hloop⟩
  · have hn := Int.toNat_of_nonneg (abs_nonneg (y1 - y0))
    have hline := isLine_yMajor x0 y0 hs.along hsx hsy (abs_nonneg _) hlt hn
    have hloop := loop_yMajor plot hs.along hsx hsy hx0 hy0 hDy (abs_nonneg _) hlt.le hn mem
    rw [hendX, hendY] at hline hloop
    exact ⟨_, hline, |y1 - y0|.toNat + 1, hloop⟩

/-- The drawing of a line between the two points, however often the loop has to turn. -/
def DrawsLine (draw : Nat → Option (Option σ)) (plot : Int → Int → σ → σ) (x0 y0 x1 y1 : Int) (mem : σ) : Prop :=
  ∃ points, IsLine x0 y0 x1 y1 points ∧
    ∃ turns, draw turns = some (some (points.foldl (fun mem p => plot p.1 p.2 mem) mem))

/-- **Both loops draw a line** from its first to its last point, whatever drawing a point is. -/
theorem draws_line (x0 y0 x1 y1 : Int) (hx0 : |x0| < 2 ^ 28) (hy0 : |y0| < 2 ^ 28) (hx1 : |x1| < 2 ^ 28)
    (hy1 : |y1| < 2 ^ 28) (putPixel : Int → Int → σ → σ) (fillCircle : Int → Int → Int → σ → σ) (mem : σ) :
    DrawsLine (fun turns => gfxDrawLine putPixel turns x0 y0 x1 y1 mem) putPixel x0 y0 x1 y1 mem ∧
    ∀ thickness, 1 < thickness →
      DrawsLine (fun turns => gfxDrawLineThick putPixel fillCircle turns x0 y0 x1 y1 thickness mem)
        (fun x y => fillCircle x y (max (thickness.tdiv 2) 1)) x0 y0 x1 y1 mem := by
  have hsmall : Small x0 y0 x1 y1 := ⟨hx0, hy0, hx1, hy1⟩
  refine ⟨?_, fun thickness hthick => ?_⟩
  · obtain ⟨t, p, hstart, hs⟩ := drawLineStart_eq hsmall mem
    simp only [DrawsLine, gfxDrawLine, hstart]
    exact lineLoop_eq hsmall hs
  · obtain ⟨t, p, hstart, hs⟩ := drawLineThickStart_eq hsmall mem
    have hr : (if thickness.tdiv 2 < 1 then 1 else thickness.tdiv 2) = max (thickness.tdiv 2) 1 := by
      split <;> omega
    simp only [DrawsLine, gfxDrawLineThick, hstart, if_neg (not_le.2 hthick), hr]
    exact lineLoop_eq hsmall hs

/-- A line down and to the left, on a list of the points drawn on. -/
theorem draws_line_steep : (|(3 : Int)| < 2 ^ 28 ∧ |(2 : Int)| < 2 ^ 28 ∧ |(1 : Int)| < 2 ^ 28 ∧ |(7 : Int)| < 2 ^ 28) ∧
    DrawsLine (fun turns => gfxDrawLine (fun x y mem => mem ++ [(x, y)]) turns 3 2 1 7 [])
      (fun x y mem => mem ++ [(x, y)]) 3 2 1 7 [] ∧
    ∀ thickness, 1 < thickness →
      DrawsLine (fun turns => gfxDrawLineThick (fun x y mem => mem ++ [(x, y)]) (fun x y _ mem => mem ++ [(x, y)]) turns
        3 2 1 7 thickness []) (fun x y mem => mem ++ [(x, y)]) 3 2 1 7 [] :=
  ⟨by decide, draws_line 3 2 1 7 (by decide) (by decide) (by decide) (by decide) (fun x y mem => mem ++ [(x, y)])
    (fun x y _ mem => mem ++ [(x, y)]) []⟩

end Gfx
end AmitX
