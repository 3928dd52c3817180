import AmitX.Lib.Loop
import Mathlib.Tactic.Linarith
import Mathlib.Tactic.Ring
/-!
# Arc — the loop along an arc (`fb.c`)

`gfx_draw_arc` goes from the start angle to the end angle by a step that the radius decides.  An angle behind the end is
set back to it, but only where it is seen to be behind: below the full circle if the end is above the start, and below
the start if it is not.  An angle that has passed the end unseen goes on around the circle.  What is drawn at an angle
is a parameter.
-/
namespace AmitX
namespace Gfx

variable {σ : Type}

def angleFullBrad : Int := 65536

/-- An angle below the full circle; `%` has the sign of its left side. -/
def normalAngle (angle : Int) : Int :=
  let angle := angle.tmod angleFullBrad
  if angle < 0 then angle + angleFullBrad else angle

def arcStep (radius : Int) : Int :=
  let step := 10
  let step := if radius > 100 then 5 else step
  if radius > 300 then 2 else step

/-- The angle behind `a`, which is not the end angle. -/
def nextAngle (startAngle endAngle step a : Int) : Int :=
  let a := a + step
  let a := if a ≥ angleFullBrad then a - angleFullBrad else a
  if step > 0 ∧ ((endAngle > startAngle ∧ a > endAngle) ∨ (endAngle < startAngle ∧ a > endAngle ∧ a < startAngle)) then
    endAngle
  else a

/-- One turn of `while (!done)`, on the angle and what has been drawn on. -/
def arcTurn (plot : Int → σ → σ) (startAngle endAngle step : Int) (s : Int × σ) : Int × σ ⊕ σ :=
  let mem := plot s.1 s.2
  if s.1 = endAngle then .inr mem else .inl (nextAngle startAngle endAngle step s.1, mem)

def gfxDrawArc (plot : Int → σ → σ) (turns : Nat) (radius startAngle endAngle : Int) (mem : σ) : Option σ :=
  if radius ≤ 0 then some mem
  else
    let startAngle := normalAngle startAngle
    let endAngle := normalAngle endAngle
    Loop.loop (arcTurn plot startAngle endAngle (arcStep radius)) turns (startAngle, mem)

/-! ## Once around -/

def travelled : List Int → Int
  | a :: b :: l => (b - a) % angleFullBrad + travelled (b :: l)
  | _ => 0

/-- The arc stops at its end, and its angles go at most once around the circle. -/
def ArcStops (radius startAngle endAngle : Int) : Prop :=
  ∃ angles, (∃ turns, gfxDrawArc (fun a mem => mem ++ [a]) turns radius startAngle endAngle [] = some angles) ∧
    angles.getLast? = some (normalAngle endAngle) ∧ travelled angles ≤ angleFullBrad

def arcLength (startAngle endAngle : Int) : Int := (endAngle - startAngle) % angleFullBrad

def overshoot (startAngle endAngle step : Int) : Int := -arcLength startAngle endAngle % step

/-- The arc is empty, or its steps meet the end, or the first angle past the end is seen to be. -/
def ArcSeen (startAngle endAngle step : Int) : Prop :=
  startAngle = endAngle ∨ overshoot startAngle endAngle step = 0 ∨
    endAngle + overshoot startAngle endAngle step < if startAngle < endAngle then angleFullBrad else startAngle

instance (startAngle endAngle step : Int) : Decidable (ArcSeen startAngle endAngle step) :=
  inferInstanceAs (Decidable (_ ∨ _ ∨ _))

/-! ## The angles -/

section Angles

variable {S E step : Int}

theorem normalAngle_mem (angle : Int) : 0 ≤ normalAngle angle ∧ normalAngle angle < angleFullBrad := by
  have h1 := Int.tmod_lt_of_pos angle (show (0 : Int) < angleFullBrad by decide)
  have h2 := Int.lt_tmod_of_pos angle (show (0 : Int) < angleFullBrad by decide)
  unfold normalAngle
  dsimp only
  split <;> omega

theorem arcStep_mem (radius : Int) : 0 < arcStep radius ∧ arcStep radius ≤ 10 := by
  unfold arcStep
  dsimp only
  split
  · decide
  · split <;> decide

def arcAngle (S E step : Int) : Nat → Int
  | 0 => S
  | k + 1 => nextAngle S E step (arcAngle S E step k)

/-- The way along the first `k` steps. -/
def arcWay (S E step : Int) : Nat → Int
  | 0 => 0
  | k + 1 => arcWay S E step k + (arcAngle S E step (k + 1) - arcAngle S E step k) % angleFullBrad

theorem travelled_concat (a b : Int) : ∀ l : List Int,
    travelled (l ++ [a, b]) = travelled (l ++ [a]) + (b - a) % angleFullBrad
  | [] => by simp [travelled]
  | [c] => by simp [travelled]
  | c :: d :: l => by
    have ih := travelled_concat a b (d :: l)
    simp only [List.cons_append] at ih ⊢
    rw [travelled, travelled, ih]
    ring

theorem travelled_angles (n : Nat) :
    travelled ((List.range (n + 1)).map (arcAngle S E step)) = arcWay S E step n := by
  induction n with
  | zero => rfl
  | succ n ih =>
    rw [List.range_succ, List.map_append, List.map_cons, List.map_nil] at ih
    rw [List.range_succ, List.map_append, List.range_succ, List.map_append, List.map_cons, List.map_nil, List.map_cons,
      List.map_nil, List.append_assoc, List.singleton_append, travelled_concat, ih, arcWay]

theorem arcWay_emod (n : Nat) :
    arcWay S E step n % angleFullBrad = (arcAngle S E step n - S) % angleFullBrad := by
  induction n with
  | zero => simp [arcWay, arcAngle]
  | succ n ih =>
    rw [arcWay, Int.add_emod, ih, Int.emod_emod, ← Int.add_emod]
    congr 1
    ring

theorem arcWay_mono {m n : Nat} (h : m ≤ n) : arcWay S E step m ≤ arcWay S E step n := by
  induction n, h using Nat.le_induction with
  | base => exact le_rfl
  | succ n _ ih =>
    have := Int.emod_nonneg (arcAngle S E step (n + 1) - arcAngle S E step n) (show angleFullBrad ≠ 0 by decide)
    rw [arcWay]
    omega

theorem drawArc_iff {radius startAngle endAngle : Int} (hr : 0 < radius) {angles : List Int} :
    (∃ turns, gfxDrawArc (fun a mem => mem ++ [a]) turns radius startAngle endAngle [] = some angles) ↔
      ∃ n, arcAngle (normalAngle startAngle) (normalAngle endAngle) (arcStep radius) n = normalAngle endAngle ∧
        (∀ k < n, arcAngle (normalAngle startAngle) (normalAngle endAngle) (arcStep radius) k ≠ normalAngle endAngle) ∧
        (List.range (n + 1)).map (arcAngle (normalAngle startAngle) (normalAngle endAngle) (arcStep radius)) =
          angles := by
  simp only [gfxDrawArc, if_neg (not_le.2 hr)]
  generalize normalAngle startAngle = S
  generalize normalAngle endAngle = E
  generalize arcStep radius = step
  refine Loop.loop_along_iff (fun k => (arcAngle S E step k, (List.range k).map (arcAngle S E step)))
    (fun n => (List.range (n + 1)).map (arcAngle S E step)) (fun k => arcAngle S E step k = E) ?_ ?_
  · intro k hk
    simp only [arcTurn, if_neg hk, List.range_succ, List.map_append, List.map_cons, List.map_nil, arcAngle]
  · intro k hk
    simp only [arcTurn, if_pos hk, List.range_succ, List.map_append, List.map_cons, List.map_nil]

theorem arcStops_iff_angles {radius startAngle endAngle : Int} (hr : 0 < radius) :
    ArcStops radius startAngle endAngle ↔
      ∃ n, arcAngle (normalAngle startAngle) (normalAngle endAngle) (arcStep radius) n = normalAngle endAngle ∧
        (∀ k < n, arcAngle (normalAngle startAngle) (normalAngle endAngle) (arcStep radius) k ≠ normalAngle endAngle) ∧
        arcWay (normalAngle startAngle) (normalAngle endAngle) (arcStep radius) n ≤ angleFullBrad := by
  constructor
  · rintro ⟨angles, hdraw, -, hway⟩
    obtain ⟨n, hend, hbefore, rfl⟩ := (drawArc_iff hr).1 hdraw
    rw [travelled_angles] at hway
    exact ⟨n, hend, hbefore, hway⟩
  · rintro ⟨n, hend, hbefore, hway⟩
    refine ⟨_, (drawArc_iff hr).2 ⟨n, hend, hbefore, rfl⟩, ?_, ?_⟩
    · rw [List.range_succ, List.map_append, List.map_cons, List.map_nil, List.getLast?_concat, hend]
    · rw [travelled_angles]
      exact hway

/-! ## The first time at the end -/

theorem nextAngle_eq {v : Int} (hS0 : 0 ≤ S) (hS : S < angleFullBrad) (hE0 : 0 ≤ E) (hE : E < angleFullBrad)
    (hstep0 : 0 < step) (hstep : step ≤ 10) (hv0 : 0 ≤ v) (hv : v < arcLength S E) :
    nextAngle S E step ((S + v) % angleFullBrad) =
      if v + step < arcLength S E then (S + (v + step)) % angleFullBrad
      else if v + step = arcLength S E ∨ E + (v + step - arcLength S E) < (if S < E then angleFullBrad else S) then E
      else (S + (v + step)) % angleFullBrad := by
  unfold nextAngle arcLength angleFullBrad at *
  dsimp only
  split_ifs <;> omega

theorem ne_end_of_lt {v : Int} (hv0 : 0 ≤ v) (hv : v < arcLength S E) : (S + v) % angleFullBrad ≠ E := by
  unfold arcLength angleFullBrad at *
  omega

structure OnCircle (S E step : Int) : Prop where
  start_nonneg : 0 ≤ S
  start_lt : S < angleFullBrad
  end_nonneg : 0 ≤ E
  end_lt : E < angleFullBrad
  step_pos : 0 < step
  step_le : step ≤ 10

theorem arcAngle_before (h : OnCircle S E step) : ∀ k : Nat, k * step < arcLength S E →
    arcAngle S E step k = (S + k * step) % angleFullBrad ∧ arcWay S E step k = k * step
  | 0, _ => by
    refine ⟨?_, by simp [arcWay]⟩
    rw [Int.natCast_zero, zero_mul, add_zero, Int.emod_eq_of_lt h.start_nonneg h.start_lt]
    rfl
  | k + 1, hk => by
    have hmul : ((k + 1 : Nat) : Int) * step = k * step + step := by
      rw [Int.natCast_succ]
      ring
    have hk0 : 0 ≤ (k : Int) * step := mul_nonneg (Int.natCast_nonneg k) h.step_pos.le
    have hstep := h.step_pos
    obtain ⟨hangle, hway⟩ := arcAngle_before h k (by omega)
    have hnext : arcAngle S E step (k + 1) = (S + (k * step + step)) % angleFullBrad := by
      rw [arcAngle, hangle, nextAngle_eq h.start_nonneg h.start_lt h.end_nonneg h.end_lt h.step_pos h.step_le hk0
        (by omega), if_pos (by omega)]
    refine ⟨by rw [hnext, hmul], ?_⟩
    rw [arcWay, hway, hnext, hangle, hmul, Int.emod_sub_emod, Int.sub_emod_emod]
    have hstep' := h.step_le
    rw [show S + (k * step + step) - (S + k * step) = step by ring, Int.emod_eq_of_lt hstep.le]
    unfold angleFullBrad
    omega

theorem exists_last_step (hstep : 0 < step) (hd : 0 < arcLength S E) : ∃ m : Nat, m * step < arcLength S E ∧
    arcLength S E ≤ m * step + step ∧ overshoot S E step = m * step + step - arcLength S E := by
  refine ⟨((arcLength S E - 1) / step).toNat, ?_⟩
  have hm : 0 ≤ (arcLength S E - 1) / step := Int.ediv_nonneg (by omega) hstep.le
  rw [Int.toNat_of_nonneg hm]
  have h1 := Int.ediv_mul_le (arcLength S E - 1) hstep.ne'
  have h2 := Int.lt_ediv_add_one_mul_self (arcLength S E - 1) hstep
  rw [add_mul, one_mul] at h2
  refine ⟨by omega, by omega, ?_⟩
  generalize (arcLength S E - 1) / step = m at *
  rw [overshoot, ← Int.add_mul_emod_self_right (-arcLength S E) (m + 1) step, Int.emod_eq_of_lt]
  · ring
  · rw [add_mul, one_mul]; omega
  · rw [add_mul, one_mul]; omega

theorem overshoot_nonneg (hstep : 0 < step) : 0 ≤ overshoot S E step := Int.emod_nonneg _ hstep.ne'

theorem arcLength_pos (h : OnCircle S E step) (hne : S ≠ E) : 0 < arcLength S E := by
  obtain ⟨hS0, hS, hE0, hE, -, -⟩ := h
  unfold arcLength angleFullBrad at *
  omega

theorem stops_of_seen (h : OnCircle S E step) (hseen : ArcSeen S E step) :
    ∃ n, arcAngle S E step n = E ∧ (∀ k < n, arcAngle S E step k ≠ E) ∧ arcWay S E step n ≤ angleFullBrad := by
  rcases eq_or_ne S E with hSE | hne
  · exact ⟨0, hSE, fun k hk => absurd hk (Nat.not_lt_zero k),
      show (0 : Int) ≤ angleFullBrad by decide⟩
  · have hd : arcLength S E < angleFullBrad := Int.emod_lt_of_pos _ (by decide)
    have hstep := h.step_pos
    obtain ⟨m, hlt, hle, hover⟩ := exists_last_step hstep (arcLength_pos h hne)
    have hm0 : 0 ≤ (m : Int) * step := mul_nonneg (Int.natCast_nonneg m) hstep.le
    obtain ⟨hangle, hway⟩ := arcAngle_before h m hlt
    have hlast : arcAngle S E step (m + 1) = E := by
      rw [arcAngle, hangle, nextAngle_eq h.start_nonneg h.start_lt h.end_nonneg h.end_lt hstep h.step_le hm0 hlt,
        if_neg (by omega), if_pos]
      rw [← hover]
      refine (hseen.resolve_left hne).imp (fun h0 => ?_) id
      omega
    refine ⟨m + 1, hlast, fun k hk => ?_, ?_⟩
    · have hk' : (k : Int) * step ≤ m * step := mul_le_mul_of_nonneg_right (by omega) hstep.le
      rw [(arcAngle_before h k (by omega)).1]
      exact ne_end_of_lt (mul_nonneg (Int.natCast_nonneg k) hstep.le) (by omega)
    · have hrest : (E - (S + m * step) % angleFullBrad) % angleFullBrad = arcLength S E - m * step := by
        have hmod : (E - (S + m * step)) % angleFullBrad = (arcLength S E - m * step) % angleFullBrad := by
          rw [arcLength, Int.emod_sub_emod]
          congr 1
          ring
        rw [Int.sub_emod_emod, hmod, Int.emod_eq_of_lt (by omega) (by omega)]
      rw [arcWay, hway, hlast, hangle, hrest]
      omega

theorem passes_of_not_seen (h : OnCircle S E step) (hseen : ¬ArcSeen S E step) {n : Nat}
    (hn : arcAngle S E step n = E) : angleFullBrad < arcWay S E step n := by
  have hne : S ≠ E := fun hSE => hseen (.inl hSE)
  have hd : arcLength S E < angleFullBrad := Int.emod_lt_of_pos _ (by decide)
  have hstep := h.step_pos
  have hover0 := overshoot_nonneg (S := S) (E := E) hstep
  obtain ⟨m, hlt, hle, hover⟩ := exists_last_step hstep (arcLength_pos h hne)
  have hm0 : 0 ≤ (m : Int) * step := mul_nonneg (Int.natCast_nonneg m) hstep.le
  obtain ⟨hangle, hway⟩ := arcAngle_before h m hlt
  have hmet : ¬overshoot S E step = 0 := fun h0 => hseen (.inr (.inl h0))
  have hpast : arcAngle S E step (m + 1) = (S + (m * step + step)) % angleFullBrad := by
    rw [arcAngle, hangle, nextAngle_eq h.start_nonneg h.start_lt h.end_nonneg h.end_lt hstep h.step_le hm0 hlt,
      if_neg (by omega), if_neg]
    rw [← hover]
    exact fun hor => hor.elim (fun h0 => hmet (by omega)) (fun hlt => hseen (.inr (.inr hlt)))
  have hpastWay : arcWay S E step (m + 1) = m * step + step := by
    have hstep' := h.step_le
    rw [arcWay, hway, hpast, hangle, Int.emod_sub_emod, Int.sub_emod_emod,
      show S + (m * step + step) - (S + m * step) = step by ring, Int.emod_eq_of_lt hstep.le]
    unfold angleFullBrad
    omega
  have hlater : m + 1 ≤ n := by
    by_contra hlt'
    have hk' : (n : Int) * step ≤ m * step := mul_le_mul_of_nonneg_right (by omega) hstep.le
    rw [(arcAngle_before h n (by omega)).1] at hn
    exact ne_end_of_lt (mul_nonneg (Int.natCast_nonneg n) hstep.le) (by omega) hn
  have hge : arcWay S E step (m + 1) ≤ arcWay S E step n := arcWay_mono hlater
  have hmod : arcWay S E step n % angleFullBrad = (arcAngle S E step n - S) % angleFullBrad := arcWay_emod n
  rw [hn] at hmod
  change _ = arcLength S E at hmod
  unfold angleFullBrad at *
  omega

end Angles

section Stops

variable {radius startAngle endAngle : Int}

theorem onCircle (radius startAngle endAngle : Int) :
    OnCircle (normalAngle startAngle) (normalAngle endAngle) (arcStep radius) where
  start_nonneg := (normalAngle_mem startAngle).1
  start_lt := (normalAngle_mem startAngle).2
  end_nonneg := (normalAngle_mem endAngle).1
  end_lt := (normalAngle_mem endAngle).2
  step_pos := (arcStep_mem radius).1
  step_le := (arcStep_mem radius).2

theorem not_arcStops_of_not_seen (hr : 0 < radius)
    (h : ¬ArcSeen (normalAngle startAngle) (normalAngle endAngle) (arcStep radius)) :
    ¬ArcStops radius startAngle endAngle := by
  rw [arcStops_iff_angles hr]
  rintro ⟨n, hend, -, hway⟩
  exact absurd (passes_of_not_seen (onCircle radius startAngle endAngle) h hend) (not_lt.2 hway)

/-- **The arc stops** within the circle exactly where its end is seen. -/
theorem arcStops_iff (radius startAngle endAngle : Int) (hr : 0 < radius) :
    ArcStops radius startAngle endAngle ↔
      ArcSeen (normalAngle startAngle) (normalAngle endAngle) (arcStep radius) := by
  refine ⟨fun hstops => ?_, fun hseen => ?_⟩
  · by_contra hseen
    exact not_arcStops_of_not_seen hr hseen hstops
  · rw [arcStops_iff_angles hr]
    exact stops_of_seen (onCircle radius startAngle endAngle) hseen

theorem arcStops_quarter_iff : (0 : Int) < 50 ∧
    (ArcStops 50 0 16384 ↔ ArcSeen (normalAngle 0) (normalAngle 16384) (arcStep 50)) :=
  ⟨by decide, arcStops_iff 50 0 16384 (by decide)⟩

/-- The last angle of the circle, from the first one by steps of two: the loop goes round for ever. -/
theorem not_arcStops : ¬∀ radius startAngle endAngle : Int, 0 < radius → ArcStops radius startAngle endAngle := by
  intro h
  exact not_arcStops_of_not_seen (by decide) (by decide) (h 400 0 65535 (by decide))

end Stops

end Gfx
end AmitX
