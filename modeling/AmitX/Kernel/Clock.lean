import AmitX.Lib.Run
import Mathlib.Data.Nat.Basic
import Mathlib.Algebra.Group.Nat.Defs
/-!
# Clock — the monotonic clock (`time.c`)

Before `time_init_tsc` has found the frequency of the time stamp counter, the clock counts the ticks of the timer since
boot; behind it, the counts since `tsc_base`, which is the counter at the call.  So the clock changes its origin with
each call, at any moment.  A call of `time_init_tsc` is a sequence of steps, with ticks, counts and readings in between.
-/
namespace AmitX
namespace Kernel

open Run

structure Clock where
  tickCount : Nat
  tsc : Nat
  tscBase : Nat
  tscFrequency : Nat
deriving DecidableEq

/-- Where a call of `time_init_tsc` is, with the variables of `calibrate_tsc` so far. -/
inductive CalibratePoint
  | idle
  | begin
  | boundary (startTick : Nat)
  | start (tscStart : Nat)
  | interval (tscStart startTick : Nat)
  | finish (delta : Nat)

/-- `lastCall` is the clock at the last call of `time_get_monotonic_ns`. -/
structure ClockState where
  clock : Clock
  point : CalibratePoint
  lastCall : Option Clock

def ClockState.boot : ClockState := ⟨⟨0, 0, 0, 0⟩, .idle, none⟩

def timeGetMonotonicNs (c : Clock) : Nat :=
  if c.tscFrequency = 0 then c.tickCount * 10000000 % 2 ^ 64
  else
    let tscDelta := (c.tsc + 2 ^ 64 - c.tscBase) % 2 ^ 64
    let seconds := tscDelta / c.tscFrequency
    let remainder := tscDelta % c.tscFrequency
    let fracNs := remainder * 1000000000 % 2 ^ 64 / c.tscFrequency
    (seconds * 1000000000 + fracNs) % 2 ^ 64

/-- The next step of the call of `time_init_tsc` that runs; the two loops wait by taking the step again. -/
def calibrateStep (s : ClockState) : ClockState :=
  match s.point with
  | .idle => s
  | .begin => { s with point := .boundary s.clock.tickCount }
  | .boundary startTick => if s.clock.tickCount = startTick then s else { s with point := .start s.clock.tsc }
  | .start tscStart => { s with point := .interval tscStart s.clock.tickCount }
  | .interval tscStart startTick =>
    if (s.clock.tickCount + 2 ^ 32 - startTick) % 2 ^ 32 < 10 then s
    else { s with point := .finish ((s.clock.tsc + 2 ^ 64 - tscStart) % 2 ^ 64) }
  | .finish delta => { s with clock.tscFrequency := delta * 10 % 2 ^ 64, point := .idle }

/-- A tick of the timer, some counts of the time stamp counter, the begin of a call of `time_init_tsc` where none runs, a
step of the one that runs, or a call of `time_get_monotonic_ns`.  Neither counter wraps around. -/
inductive ClockStep
  | tick
  | count (n : Nat)
  | init
  | calibrate
  | read

/-- The step, and what a call of `time_get_monotonic_ns` returns. -/
def ClockStep.run (s : ClockState) : ClockStep → Option Nat × ClockState
  | .tick => (none, if s.clock.tickCount + 1 < 2 ^ 32 then { s with clock.tickCount := s.clock.tickCount + 1 } else s)
  | .count n => (none, if s.clock.tsc + n < 2 ^ 64 then { s with clock.tsc := s.clock.tsc + n } else s)
  | .init =>
    (none, match s.point with
      | .idle => { s with clock.tscBase := s.clock.tsc, point := .begin }
      | _ => s)
  | .calibrate => (none, calibrateStep s)
  | .read => (some (timeGetMonotonicNs s.clock), { s with lastCall := some s.clock })

def clockAfter (steps : List ClockStep) : ClockState := (run ClockStep.run ClockState.boot steps).2

/-! ## What the clock promises -/

def Clock.nanoseconds (c : Clock) : Nat :=
  if c.tscFrequency = 0 then c.tickCount * 10000000 else (c.tsc - c.tscBase) * 1000000000 / c.tscFrequency

/-- The frequencies that a calibration finds are between 1 MHz and 18 GHz, and the results are below 2^64. -/
def ClockStep.InRange (s : ClockState) (c : ClockStep) : Prop :=
  match c, s.point with
  | .calibrate, .finish delta => 1000000 ≤ delta * 10 ∧ delta * 10 ≤ 18000000000
  | .read, _ => s.clock.nanoseconds < 2 ^ 64
  | _, _ => True

instance (s : ClockState) : (c : ClockStep) → Decidable (c.InRange s)
  | .tick | .count _ | .init => isTrue trivial
  | .read => inferInstanceAs (Decidable (s.clock.nanoseconds < 2 ^ 64))
  | .calibrate =>
    match hp : s.point with
    | .finish delta => decidable_of_iff (1000000 ≤ delta * 10 ∧ delta * 10 ≤ 18000000000) (by simp [ClockStep.InRange, hp])
    | .idle | .begin | .boundary _ | .start _ | .interval _ _ => isTrue (by simp [ClockStep.InRange, hp])

/-- **The clock never goes back**: in every state of the run a call whose result is below 2^64 returns at least what the
last call returned, and after a calibration the exact time since `tsc_base`. -/
def NeverBack (steps : List ClockStep) : Prop :=
  ∀ before after, steps = before ++ after → let s := clockAfter before
    s.clock.nanoseconds < 2 ^ 64 →
      (∀ c, s.lastCall = some c → timeGetMonotonicNs c ≤ timeGetMonotonicNs s.clock) ∧
      (s.clock.tscFrequency ≠ 0 → timeGetMonotonicNs s.clock =
        (s.clock.tsc - s.clock.tscBase) * 1000000000 / s.clock.tscFrequency)

def NotBehind (s : ClockState) : Prop := ∀ c, s.lastCall = some c → c.nanoseconds ≤ s.clock.nanoseconds

/-- A step that gives the clock another origin, the counter for a calibrated clock's base or a new frequency, does not
put it behind its last call. -/
def ClockStep.KeepsTime (s : ClockState) (c : ClockStep) : Prop :=
  match c, s.point with
  | .init, .idle => s.clock.tscFrequency ≠ 0 → ∀ last, s.lastCall = some last → last.nanoseconds = 0
  | .calibrate, .finish delta => ∀ last, s.lastCall = some last →
      last.nanoseconds ≤ (s.clock.tsc - s.clock.tscBase) * 1000000000 / (delta * 10)
  | _, _ => True

/-- The counters have not wrapped around, and the frequency is one of those that a calibration finds. -/
structure Clock.Ok (c : Clock) : Prop where
  tick : c.tickCount < 2 ^ 32
  tsc : c.tsc < 2 ^ 64
  base : c.tscBase ≤ c.tsc
  frequency : c.tscFrequency ≤ 18000000000

/-- The clock and the one of the last call are such clocks. -/
structure ClockInv (s : ClockState) : Prop where
  clock : s.clock.Ok
  last : ∀ c, s.lastCall = some c → c.Ok ∧ c.nanoseconds < 2 ^ 64

theorem Clock.Ok.exact {c : Clock} (h : c.Ok) (hlt : c.nanoseconds < 2 ^ 64) : timeGetMonotonicNs c = c.nanoseconds := by
  unfold timeGetMonotonicNs
  unfold Clock.nanoseconds at *
  split
  · next hf =>
    rw [if_pos hf] at hlt
    exact Nat.mod_eq_of_lt hlt
  · next hf =>
    rw [if_neg hf] at hlt
    have hpos : 0 < c.tscFrequency := Nat.pos_of_ne_zero hf
    have hdelta : (c.tsc + 2 ^ 64 - c.tscBase) % 2 ^ 64 = c.tsc - c.tscBase := by
      have htsc := h.tsc
      have hbase := h.base
      omega
    have hrem : (c.tsc - c.tscBase) % c.tscFrequency * 1000000000 < 2 ^ 64 := by
      have := Nat.mod_lt (c.tsc - c.tscBase) hpos
      have hfreq := h.frequency
      omega
    have hsplit : (c.tsc - c.tscBase) / c.tscFrequency * 1000000000 +
        (c.tsc - c.tscBase) % c.tscFrequency * 1000000000 / c.tscFrequency =
        (c.tsc - c.tscBase) * 1000000000 / c.tscFrequency := by
      conv_rhs => rw [← Nat.div_add_mod (c.tsc - c.tscBase) c.tscFrequency, Nat.add_mul, Nat.mul_assoc]
      rw [Nat.mul_add_div hpos]
    simp only [hdelta, Nat.mod_eq_of_lt hrem, hsplit]
    exact Nat.mod_eq_of_lt hlt

section

variable {s : ClockState}

theorem clockInv_boot : ClockInv ClockState.boot :=
  ⟨⟨by decide, by decide, by decide, by decide⟩, fun c h => by cases h⟩

theorem clockInv_step (h : ClockInv s) {c : ClockStep} (hc : c.InRange s) : ClockInv (ClockStep.run s c).2 := by
  have hclock := h.clock
  cases c with
  | tick =>
    simp only [ClockStep.run]
    split
    · next hlt => exact ⟨⟨hlt, hclock.tsc, hclock.base, hclock.frequency⟩, h.last⟩
    · exact h
  | count n =>
    simp only [ClockStep.run]
    split
    · next hlt => exact ⟨⟨hclock.tick, hlt, Nat.le_add_right_of_le hclock.base, hclock.frequency⟩, h.last⟩
    · exact h
  | init =>
    simp only [ClockStep.run]
    split
    · exact ⟨⟨hclock.tick, hclock.tsc, Nat.le_refl _, hclock.frequency⟩, h.last⟩
    · exact h
  | calibrate =>
    simp only [ClockStep.run, calibrateStep]
    cases hp : s.point with
    | idle => exact h
    | begin => exact ⟨hclock, h.last⟩
    | boundary startTick =>
      simp only
      split
      · exact h
      · exact ⟨hclock, h.last⟩
    | start tscStart => exact ⟨hclock, h.last⟩
    | interval tscStart startTick =>
      simp only
      split
      · exact h
      · exact ⟨hclock, h.last⟩
    | finish delta =>
      have hrange : 1000000 ≤ delta * 10 ∧ delta * 10 ≤ 18000000000 := by
        unfold ClockStep.InRange at hc
        rw [hp] at hc
        exact hc
      exact ⟨⟨hclock.tick, hclock.tsc, hclock.base, Nat.le_trans (Nat.mod_le _ _) hrange.2⟩, h.last⟩
  | read =>
    refine ⟨hclock, fun c hlast => ?_⟩
    injection hlast with hlast
    subst hlast
    exact ⟨hclock, hc⟩

theorem nanoseconds_le {c c' : Clock} (htick : c.tickCount ≤ c'.tickCount) (htsc : c.tsc ≤ c'.tsc)
    (hbase : c'.tscBase = c.tscBase) (hfreq : c'.tscFrequency = c.tscFrequency) : c.nanoseconds ≤ c'.nanoseconds := by
  unfold Clock.nanoseconds
  rw [hbase, hfreq]
  split
  · exact Nat.mul_le_mul_right _ htick
  · exact Nat.div_le_div_right (Nat.mul_le_mul_right _ (Nat.sub_le_sub_right htsc _))

theorem NotBehind.le (hn : NotBehind s) {clock : Clock} (hle : s.clock.nanoseconds ≤ clock.nanoseconds)
    (point : CalibratePoint) : NotBehind ⟨clock, point, s.lastCall⟩ :=
  fun c hlast => Nat.le_trans (hn c hlast) hle

theorem notBehind_step (hn : NotBehind s) {c : ClockStep} (hc : c.InRange s) :
    NotBehind (ClockStep.run s c).2 ↔ c.KeepsTime s := by
  cases c with
  | tick =>
    refine iff_of_true ?_ trivial
    simp only [ClockStep.run]
    split
    · have hle : s.clock.nanoseconds ≤ ({ s.clock with tickCount := s.clock.tickCount + 1 } : Clock).nanoseconds :=
        nanoseconds_le (Nat.le_succ _) (Nat.le_refl _) rfl rfl
      exact hn.le hle s.point
    · exact hn
  | count n =>
    refine iff_of_true ?_ trivial
    simp only [ClockStep.run]
    split
    · have hle : s.clock.nanoseconds ≤ ({ s.clock with tsc := s.clock.tsc + n } : Clock).nanoseconds :=
        nanoseconds_le (Nat.le_refl _) (Nat.le_add_right _ _) rfl rfl
      exact hn.le hle s.point
    · exact hn
  | init =>
    simp only [ClockStep.run, ClockStep.KeepsTime]
    cases hp : s.point with
    | idle =>
      by_cases hfreq : s.clock.tscFrequency = 0
      · refine iff_of_true (hn.le (Nat.le_of_eq ?_) _) (fun h => absurd hfreq h)
        simp only [Clock.nanoseconds, if_pos hfreq]
      · have hzero : ({ s.clock with tscBase := s.clock.tsc } : Clock).nanoseconds = 0 := by
          simp only [Clock.nanoseconds, if_neg hfreq, Nat.sub_self, Nat.zero_mul, Nat.zero_div]
        constructor
        · exact fun h _ last hlast => Nat.le_zero.1 (hzero ▸ h last hlast)
        · exact fun h last hlast => Nat.le_of_eq ((h hfreq last hlast).trans hzero.symm)
    | begin => exact iff_of_true hn trivial
    | boundary _ => exact iff_of_true hn trivial
    | start _ => exact iff_of_true hn trivial
    | interval _ _ => exact iff_of_true hn trivial
    | finish _ => exact iff_of_true hn trivial
  | calibrate =>
    simp only [ClockStep.run, ClockStep.KeepsTime, calibrateStep]
    cases hp : s.point with
    | idle => exact iff_of_true hn trivial
    | begin => exact iff_of_true hn trivial
    | boundary startTick =>
      refine iff_of_true ?_ trivial
      simp only
      split
      · exact hn
      · exact hn
    | start tscStart => exact iff_of_true hn trivial
    | interval tscStart startTick =>
      refine iff_of_true ?_ trivial
      simp only
      split
      · exact hn
      · exact hn
    | finish delta =>
      have hrange : 1000000 ≤ delta * 10 ∧ delta * 10 ≤ 18000000000 := by
        unfold ClockStep.InRange at hc
        rw [hp] at hc
        exact hc
      have hmod : delta * 10 % 2 ^ 64 = delta * 10 := Nat.mod_eq_of_lt (by omega)
      have hnew : ({ s.clock with tscFrequency := delta * 10 % 2 ^ 64 } : Clock).nanoseconds =
          (s.clock.tsc - s.clock.tscBase) * 1000000000 / (delta * 10) := by
        have hne : ¬delta * 10 = 0 := by omega
        rw [hmod]
        exact if_neg hne
      simp only [NotBehind, hnew]
  | read =>
    refine iff_of_true (fun c hlast => ?_) trivial
    injection hlast with hlast
    subst hlast
    exact Nat.le_refl _

end

def InRange (steps : List ClockStep) : Prop := Allowed ClockStep.run (fun _ => ClockStep.InRange) ClockState.boot steps

instance (steps : List ClockStep) : Decidable (InRange steps) := decidableAllowed _ _

theorem clockInv_after {steps : List ClockStep} (h : InRange steps) : ClockInv (clockAfter steps) :=
  run_keeps (I := fun _ s => ClockInv s) (fun _ s c hs hc => show ClockInv (ClockStep.run s c).2 from
    clockInv_step hs hc) clockInv_boot steps h

theorem ClockInv.le_iff {s : ClockState} (h : ClockInv s) (hlt : s.clock.nanoseconds < 2 ^ 64) :
    (∀ c, s.lastCall = some c → timeGetMonotonicNs c ≤ timeGetMonotonicNs s.clock) ↔ NotBehind s := by
  refine forall₂_congr fun c hlast => ?_
  obtain ⟨hok, hc⟩ := h.last c hlast
  rw [hok.exact hc, h.clock.exact hlt]

/-- **The clock never goes back just in the runs whose steps keep the time**: no call of `time_init_tsc` moves the base
of a calibrated clock that has been read at a later nanosecond than its first, and none ends with fewer nanoseconds since
its base than the last call counted. -/
theorem neverBack_iff (steps : List ClockStep) (h : InRange steps) :
    NeverBack steps ↔ Allowed ClockStep.run (fun _ => ClockStep.KeepsTime) ClockState.boot steps := by
  constructor
  · intro hback
    have hnot : ∀ before after, steps = before ++ after → NotBehind (clockAfter before) := by
      rintro before after rfl
      have hinv := clockInv_after h.left
      by_cases hlt : (clockAfter before).clock.nanoseconds < 2 ^ 64
      · exact (hinv.le_iff hlt).1 (hback before after rfl hlt).1
      · exact fun c hlast => Nat.le_trans (Nat.le_of_lt (hinv.last c hlast).2) (Nat.le_of_not_lt hlt)
    rintro before c after rfl
    have hafter := hnot (before ++ [c]) after (by simp)
    unfold clockAfter at hafter
    rw [run_concat] at hafter
    exact (notBehind_step (hnot before (c :: after) rfl) (h before c after rfl)).1 hafter
  · rintro hkeeps before after rfl
    have hinv := clockInv_after h.left
    have hnot : NotBehind (clockAfter before) := by
      refine run_keeps (A := fun _ s c => c.InRange s ∧ c.KeepsTime s) (I := fun _ s => NotBehind s)
        (fun _ s c hs hc => show NotBehind (ClockStep.run s c).2 from (notBehind_step hs hc.1).2 hc.2)
        (fun c hlast => by cases hlast) before ?_
      exact fun b c a he => ⟨h.left b c a he, hkeeps.left b c a he⟩
    intro s hlt
    refine ⟨(hinv.le_iff hlt).2 hnot, fun hfreq => ?_⟩
    rw [hinv.clock.exact hlt]
    exact if_neg hfreq

theorem neverBack_ticks : InRange [.read, .tick, .read] ∧ (NeverBack [.read, .tick, .read] ↔
    Allowed ClockStep.run (fun _ => ClockStep.KeepsTime) ClockState.boot [.read, .tick, .read]) :=
  ⟨by decide, neverBack_iff _ (by decide)⟩

def lateInit : List ClockStep :=
  List.replicate 12 .tick ++ [.read, .init, .calibrate, .tick, .calibrate, .calibrate, .count 10000000] ++
    List.replicate 10 .tick ++ [.calibrate, .calibrate]

/-- **The clock goes back from 120 to 100 milliseconds.** -/
theorem not_neverBack : ¬∀ steps, InRange steps → NeverBack steps := by
  intro hall
  have hback := hall lateInit (by decide) lateInit [] (List.append_nil _).symm (by decide)
  exact absurd (hback.1 ⟨12, 0, 0, 0⟩ (by decide)) (by decide)

end Kernel
end AmitX
