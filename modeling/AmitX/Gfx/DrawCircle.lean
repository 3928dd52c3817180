import AmitX.Lib.CInt
import AmitX.Lib.Loop
import Mathlib.Algebra.Order.Ring.Int
import Mathlib.Data.List.TakeWhile
import Mathlib.Data.Nat.Sqrt
import Mathlib.Tactic.Linarith
import Mathlib.Tactic.Ring
/-!
# DrawCircle — the midpoint circle (`fb.c`)

`gfx_draw_circle` goes along the eighth of the circle between the pole and the diagonal and draws each point eight times.
Its error is `x² + y² - radius²` in every turn, so a turn finds the largest `x` of its row in the circle; only the first
row stops one short of the radius.  What is drawn at a point is a parameter.
-/
namespace AmitX
namespace Gfx

open CInt Loop

variable {σ : Type}

/-- The variables of the loop, and what has been drawn on. -/
structure Compass (σ : Type) where
  x : Int
  y : Int
  dx : Int
  dy : Int
  err : Int
  mem : σ

/-- The eight points of a turn: none where a sum overflows. -/
def plotEight (plot : Int → Int → σ → σ) (cx cy x y : Int) (mem : σ) : Option σ := do
  let mem := plot (← int (cx + x)) (← int (cy + y)) mem
  let mem := plot (← int (cx + y)) (← int (cy + x)) mem
  let mem := plot (← int (cx - y)) (← int (cy + x)) mem
  let mem := plot (← int (cx - x)) (← int (cy + y)) mem
  let mem := plot (← int (cx - x)) (← int (cy - y)) mem
  let mem := plot (← int (cx - y)) (← int (cy - x)) mem
  let mem := plot (← int (cx + y)) (← int (cy - x)) mem
  some (plot (← int (cx + x)) (← int (cy - y)) mem)

/-- The turn behind the test. -/
def circleNext (plot : Int → Int → σ → σ) (cx cy radius : Int) (p : Compass σ) : Option (Compass σ) := do
  let mem ← plotEight plot cx cy p.x p.y p.mem
  let q ← if p.err ≤ 0 then do
      let y ← int (p.y + 1)
      let err ← int (p.err + p.dy)
      let dy ← int (p.dy + 2)
      some { p with y := y, err := err, dy := dy, mem := mem }
    else some { p with mem := mem }
  if q.err > 0 then do
      let x ← int (q.x - 1)
      let dx ← int (q.dx + 2)
      let err ← int (q.err + (← int (dx - (← int (radius * 2)))))
      some { q with x := x, dx := dx, err := err }
    else some q

/-- One turn of the loop: the answer is the drawing, or none where a sum overflows. -/
def circleTurn (plot : Int → Int → σ → σ) (cx cy radius : Int) (p : Compass σ) : Compass σ ⊕ Option σ :=
  if p.x < p.y then .inr (some p.mem) else ((circleNext plot cx cy radius p).map Sum.inl).getD (.inr none)

/-- `none` where the turns do not do, and `some none` where a sum overflows. -/
def gfxDrawCircle (plot : Int → Int → σ → σ) (turns : Nat) (cx cy radius : Int) (mem : σ) : Option (Option σ) :=
  if radius ≤ 0 then some (some mem)
  else
    match (int (radius * 2)).bind (fun d => int (1 - d)) with
    | none => some none
    | some err => loop (circleTurn plot cx cy radius) turns ⟨radius - 1, 0, 1, 1, err, mem⟩

/-! ## The eighth of a circle -/

/-- The largest `x` of a row in the circle; in the first row it is one less. -/
def rowEnd (r y : Nat) : Nat := if y = 0 then r - 1 else Nat.sqrt (r * r - y * y)

/-- The eight points of a row. -/
def drawEight (plot : Int → Int → σ → σ) (cx cy x y : Int) (mem : σ) : σ :=
  [(x, y), (y, x), (-y, x), (-x, y), (-x, -y), (-y, -x), (y, -x), (x, -y)].foldl
    (fun mem p => plot (cx + p.1) (cy + p.2) mem) mem

/-- The rows from the pole on, up to the diagonal. -/
def eighth (r : Nat) : List Nat := (List.range r).takeWhile fun y => y ≤ rowEnd r y

section

variable {plot : Int → Int → σ → σ} {cx cy radius : Int} {r y : Nat} {mem : σ}

theorem rowEnd_bounds (hr : 0 < r) (hy : y ≤ r) : rowEnd r y * rowEnd r y + y * y ≤ r * r ∧
    r * r ≤ (rowEnd r y + 1) * (rowEnd r y + 1) + y * y ∧ rowEnd r y < r := by
  have hsq : y * y ≤ r * r := Nat.mul_le_mul hy hy
  unfold rowEnd
  split
  · obtain ⟨n, rfl⟩ : ∃ n, r = n + 1 := ⟨r - 1, by omega⟩
    subst y
    rw [Nat.add_sub_cancel]
    exact ⟨by nlinarith, Nat.le_add_right _ _, Nat.lt_succ_self n⟩
  · have hle := Nat.sqrt_le (r * r - y * y)
    have hlt := Nat.lt_succ_sqrt (r * r - y * y)
    have hpos : 0 < y * y := Nat.mul_pos (by omega) (by omega)
    refine ⟨by omega, by rw [Nat.succ_eq_add_one] at hlt; omega, Nat.sqrt_lt.2 (by omega)⟩

/-- **The next row** has the end of this one, or one less. -/
theorem rowEnd_next (hr : 0 < r) (h : y < rowEnd r y) : rowEnd r (y + 1) =
    if rowEnd r y * rowEnd r y + (y + 1) * (y + 1) ≤ r * r then rowEnd r y else rowEnd r y - 1 := by
  have hy : y ≤ r := by
    by_contra hno
    rw [rowEnd, if_neg (by omega), Nat.sub_eq_zero_of_le (Nat.mul_le_mul (by omega) (by omega))] at h
    simp at h
  obtain ⟨hin, hout, -⟩ := rowEnd_bounds hr hy
  generalize rowEnd r y = x at h hin hout
  obtain ⟨z, rfl⟩ : ∃ z, x = z + 1 := ⟨x - 1, by omega⟩
  rw [rowEnd, if_neg (Nat.succ_ne_zero y)]
  split
  · refine (Nat.eq_sqrt.2 ⟨by omega, ?_⟩).symm
    have : y * y < (y + 1) * (y + 1) := Nat.mul_self_lt_mul_self (Nat.lt_succ_self y)
    omega
  · have : z * z + (y + 1) * (y + 1) ≤ r * r := by nlinarith
    exact (Nat.eq_sqrt.2 ⟨by rw [Nat.add_sub_cancel]; omega, by rw [Nat.add_sub_cancel]; omega⟩).symm

/-- The state before row `y`. -/
def rowState (r y : Nat) (mem : σ) : Compass σ :=
  ⟨rowEnd r y, y, 2 * (r - rowEnd r y) - 1, 2 * y + 1, rowEnd r y * rowEnd r y + y * y - r * r, mem⟩

theorem plotEight_eq {x : Nat} (hcx : |cx| ≤ 2 ^ 29) (hcy : |cy| ≤ 2 ^ 29) (hx : x ≤ 2 ^ 29) (hy : y ≤ 2 ^ 29) :
    plotEight plot cx cy x y mem = some (drawEight plot cx cy x y mem) := by
  have hcx' := abs_le.1 hcx
  have hcy' := abs_le.1 hcy
  have hadd {c : Int} {n : Nat} (hc : -2 ^ 29 ≤ c ∧ c ≤ 2 ^ 29) (hn : n ≤ 2 ^ 29) : int (c + n) = some (c + n) :=
    int_eq (by omega) (by omega)
  have hsub {c : Int} {n : Nat} (hc : -2 ^ 29 ≤ c ∧ c ≤ 2 ^ 29) (hn : n ≤ 2 ^ 29) : int (c - n) = some (c - n) :=
    int_eq (by omega) (by omega)
  simp only [plotEight, hadd hcx' hx, hadd hcx' hy, hadd hcy' hx, hadd hcy' hy, hsub hcx' hx, hsub hcx' hy, hsub hcy' hx,
    hsub hcy' hy, bind, Option.bind]
  simp only [drawEight, List.foldl_cons, List.foldl_nil, Int.sub_eq_add_neg]

/-- The error grows by the odd number of the row, and falls again where it has got positive. -/
theorem circleNext_eq (plot : Int → Int → σ → σ) (mem : σ) {x : Nat} {err : Int} (hcx : |cx| ≤ 2 ^ 29)
    (hcy : |cy| ≤ 2 ^ 29) (hr : r ≤ 2 ^ 29) (hx : x < r) (hy : y < r) (herr : err = x * x + y * y - r * r) (hle : err ≤ 0) (hge : -(2 * r : Int) ≤ err) :
    circleNext plot cx cy r ⟨x, y, 2 * (r - x) - 1, 2 * y + 1, err, mem⟩ = some
      (if x * x + (y + 1) * (y + 1) ≤ r * r then
        ⟨x, (y + 1 : Nat), 2 * (r - x) - 1, 2 * (y + 1 : Nat) + 1, x * x + (y + 1 : Nat) * (y + 1 : Nat) - r * r,
          drawEight plot cx cy x y mem⟩
      else ⟨x - 1, (y + 1 : Nat), 2 * (r - (x - 1)) - 1, 2 * (y + 1 : Nat) + 1,
        (x - 1) * (x - 1) + (y + 1 : Nat) * (y + 1 : Nat) - r * r, drawEight plot cx cy x y mem⟩) := by
  have hrow : err + (2 * y + 1) = x * x + (y + 1 : Nat) * (y + 1 : Nat) - r * r := by
    rw [herr]; push_cast; ring
  have hdy : (2 * y + 1 + 2 : Int) = 2 * (y + 1 : Nat) + 1 := by push_cast; ring
  have hif : (x * x + (y + 1) * (y + 1) ≤ r * r) ↔ ¬err + (2 * y + 1) > 0 := by
    rw [hrow, not_lt, sub_nonpos]; norm_cast
  simp only [circleNext, plotEight_eq hcx hcy (hx.le.trans hr) (hy.le.trans hr), Option.bind_eq_bind, Option.bind_some,
    int_eq (v := (y : Int) + 1) (by omega) (by omega), int_eq (v := err + (2 * y + 1)) (by omega) (by omega),
    int_eq (v := (2 * y + 1 + 2 : Int)) (by omega) (by omega), if_pos hle]
  by_cases hin : x * x + (y + 1) * (y + 1) ≤ r * r
  · rw [if_neg (hif.1 hin), if_pos hin, hrow, hdy, Int.natCast_add_one]
  · have hpos : err + (2 * y + 1) > 0 := not_not.1 fun h => hin (hif.2 h)
    rw [if_neg hin, if_pos hpos]
    simp only [int_eq (v := (x : Int) - 1) (by omega) (by omega),
      int_eq (v := (2 * (r - x) - 1 + 2 : Int)) (by omega) (by omega), int_eq (v := (r * 2 : Int)) (by omega) (by omega),
      int_eq (v := (2 * (r - x) - 1 + 2 - r * 2 : Int)) (by omega) (by omega), Option.bind_some,
      int_eq (v := err + (2 * y + 1) + (2 * (r - x) - 1 + 2 - r * 2)) (by omega) (by omega)]
    rw [hrow, hdy, Int.natCast_add_one, show (2 * (r - x) - 1 + 2 : Int) = 2 * (r - (x - 1)) - 1 by ring,
      show (x * x + (y + 1 : Int) * (y + 1) - r * r + (2 * (r - (x - 1)) - 1 - r * 2) : Int) =
        (x - 1) * (x - 1) + (y + 1) * (y + 1) - r * r by ring]

theorem rowEnd_le (hr : 0 < r) (hy : y < r) : rowEnd r (y + 1) ≤ rowEnd r y := by
  have hlt := (rowEnd_bounds hr (show y + 1 ≤ r by omega)).2.2
  by_cases h0 : y = 0
  · rw [rowEnd.eq_1 r y, if_pos h0]
    omega
  · rw [rowEnd, rowEnd, if_neg h0, if_neg (Nat.succ_ne_zero y)]
    exact Nat.sqrt_le_sqrt (Nat.sub_le_sub_left (Nat.mul_le_mul (Nat.le_succ y) (Nat.le_succ y)) _)

/-- **A turn** draws its row; the state behind it is that of the next row, unless the row was on the diagonal. -/
theorem circleTurn_row (plot : Int → Int → σ → σ) (mem : σ) (hcx : |cx| ≤ 2 ^ 29) (hcy : |cy| ≤ 2 ^ 29) (hr : 0 < r)
    (hr' : r ≤ 2 ^ 29) (hy : y ≤ rowEnd r y) :
    ∃ q, circleTurn plot cx cy r (rowState r y mem) = .inl q ∧ q.mem = drawEight plot cx cy (rowEnd r y) y mem ∧
      (y = rowEnd r y → q.x < q.y) ∧
      (y < rowEnd r y → q = rowState r (y + 1) (drawEight plot cx cy (rowEnd r y) y mem)) := by
  have hyr : y < r := by
    by_contra hno
    rw [rowEnd, if_neg (by omega), Nat.sub_eq_zero_of_le (Nat.mul_le_mul (by omega) (by omega)), Nat.sqrt_zero] at hy
    omega
  obtain ⟨hin, hout, hlt⟩ := rowEnd_bounds hr hyr.le
  have hle : (rowEnd r y * rowEnd r y + y * y - r * r : Int) ≤ 0 := by
    have : (rowEnd r y * rowEnd r y + y * y : Int) ≤ r * r := by exact_mod_cast hin
    omega
  have hge : -(2 * r : Int) ≤ rowEnd r y * rowEnd r y + y * y - r * r := by
    have : (r * r : Int) ≤ (rowEnd r y + 1) * (rowEnd r y + 1) + y * y := by exact_mod_cast hout
    have : ((rowEnd r y + 1) * (rowEnd r y + 1) : Int) = rowEnd r y * rowEnd r y + 2 * rowEnd r y + 1 := by ring
    omega
  have hnext := circleNext_eq plot mem hcx hcy hr' hlt hyr rfl hle hge
  refine ⟨_, by rw [circleTurn, rowState, if_neg (show ¬(rowEnd r y : Int) < y by omega), hnext]; rfl, ?_,
    fun hdiag => ?_, fun hoff => ?_⟩
  · split <;> rfl
  · split
    · change (rowEnd r y : Int) < (y + 1 : Nat)
      omega
    · change (rowEnd r y : Int) - 1 < (y + 1 : Nat)
      omega
  · have hrow := rowEnd_next hr hoff
    split
    · next hcase => rw [rowState, hrow, if_pos hcase]
    · next hcase =>
      rw [rowState, hrow, if_neg hcase, Nat.cast_sub (by omega), Nat.cast_one]

theorem circleTurn_done {p : Compass σ} (h : p.x < p.y) : circleTurn plot cx cy radius p = .inr (some p.mem) :=
  if_pos h

/-- **A run from any row on.** -/
theorem loop_rows (hcx : |cx| ≤ 2 ^ 29) (hcy : |cy| ≤ 2 ^ 29) (hr : 0 < r) (hr' : r ≤ 2 ^ 29) :
    ∀ {k y turns : Nat} {mem : σ}, y + k = r → k < turns → loop (circleTurn plot cx cy r) turns (rowState r y mem) =
      some (some (((List.range' y k).takeWhile fun y => y ≤ rowEnd r y).foldl
        (fun mem y => drawEight plot cx cy (rowEnd r y) y mem) mem)) := by
  intro k
  induction k with
  | zero =>
    intro y turns mem hy hturns
    obtain ⟨n, rfl⟩ : ∃ n, turns = n + 1 := ⟨turns - 1, by omega⟩
    have hlt := (rowEnd_bounds hr (show y ≤ r by omega)).2.2
    exact loop_inr (circleTurn_done (show (rowEnd r y : Int) < y by omega)) n
  | succ k ih =>
    intro y turns mem hy hturns
    obtain ⟨n, rfl⟩ : ∃ n, turns = n + 1 := ⟨turns - 1, by omega⟩
    rw [List.range'_succ, List.takeWhile_cons]
    by_cases hin : y ≤ rowEnd r y
    · obtain ⟨q, hq, hmem, hdiag, hoff⟩ := circleTurn_row plot mem hcx hcy hr hr' hin
      rw [if_pos (decide_eq_true hin), List.foldl_cons, loop_inl hq]
      rcases Nat.lt_or_eq_of_le hin with hlt | heq
      · rw [hoff hlt]
        exact ih (by omega) (by omega)
      · -- the row on the diagonal is the last one
        obtain ⟨m, rfl⟩ : ∃ m, n = m + 1 := ⟨n - 1, by omega⟩
        have hlast := rowEnd_le hr (show y < r by omega)
        have hnil : (List.range' (y + 1) k).takeWhile (fun y => decide (y ≤ rowEnd r y)) = [] := by
          cases k with
          | zero => rfl
          | succ k => rw [List.range'_succ, List.takeWhile_cons_of_neg (by simp; omega)]
        rw [hnil, loop_inr (circleTurn_done (hdiag heq)), hmem, List.foldl_nil]
    · rw [if_neg (by simpa using hin)]
      exact loop_inr (circleTurn_done (show (rowEnd r y : Int) < y by omega)) n

end

/-- **A circle is drawn row by row**: the eight points of every row from the pole to the diagonal, each the last point of
its row in the circle, or for the pole one short of the radius. -/
theorem draws_circle (plot : Int → Int → σ → σ) {cx cy : Int} {r turns : Nat} (hcx : |cx| ≤ 2 ^ 29) (hcy : |cy| ≤ 2 ^ 29)
    (hr : 0 < r) (hr' : r ≤ 2 ^ 29) (hturns : r < turns) (mem : σ) :
    gfxDrawCircle plot turns cx cy r mem = some (some ((eighth r).foldl
      (fun mem y => drawEight plot cx cy (rowEnd r y) y mem) mem)) ∧
    ∀ y ∈ eighth r, y ≤ rowEnd r y ∧ rowEnd r y < r ∧ rowEnd r y * rowEnd r y + y * y ≤ r * r ∧
      r * r ≤ (rowEnd r y + 1) * (rowEnd r y + 1) + y * y := by
  constructor
  · have hstart : (⟨(r : Int) - 1, 0, 1, 1, 1 - r * 2, mem⟩ : Compass σ) = rowState r 0 mem := by
      rw [rowState, rowEnd, if_pos rfl, Nat.cast_sub (by omega)]
      congr 1 <;> push_cast <;> ring
    rw [gfxDrawCircle, if_neg (by omega), int_eq (by omega) (by omega), Option.bind_some, int_eq (by omega) (by omega),
      eighth, List.range_eq_range', ← loop_rows hcx hcy hr hr' (Nat.zero_add r) hturns, ← hstart]
  · intro y hy
    have hrange := List.mem_range.1 ((List.takeWhile_sublist _).subset hy)
    obtain ⟨hin, hout, hlt⟩ := rowEnd_bounds hr hrange.le
    exact ⟨of_decide_eq_true (List.mem_takeWhile_imp (p := fun y => decide (y ≤ rowEnd r y)) hy), hlt, hin, hout⟩

theorem draws_circle_five : gfxDrawCircle (fun _ _ n => n + 1) 6 0 0 5 0 = some (some 32) ∧
    gfxDrawCircle (fun x y l => l ++ [(x, y)]) 6 0 0 5 [] = some (some ((eighth 5).foldl
      (fun mem y => drawEight (fun x y l => l ++ [(x, y)]) 0 0 (rowEnd 5 y) y mem) [])) :=
  ⟨by decide, (draws_circle (fun x y l => l ++ [(x, y)]) (by decide) (by decide) (by decide) (by decide) (by decide) []).1⟩

end Gfx
end AmitX
