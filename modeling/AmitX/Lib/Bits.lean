import Mathlib.Data.Nat.Count
import Mathlib.Logic.Function.Basic
/-!
# Bits — the set bits of a bitmap

A bitmap is a function from positions; `sets b n` counts the set bits among the first `n`, and `firstRun` is the search
for a run of clear bits that keeps the run it is in.
-/

namespace Bits

def sets (b : Nat → Bool) (n : Nat) : Nat := Nat.count (fun i => b i = true) n

theorem sets_succ (b : Nat → Bool) (n : Nat) : sets b (n + 1) = sets b n + if b n = true then 1 else 0 :=
  Nat.count_succ (fun i => b i = true) n

theorem sets_le (b : Nat → Bool) (n : Nat) : sets b n ≤ n := Nat.count_le _

theorem sets_congr {b c : Nat → Bool} : ∀ {n : Nat}, (∀ i < n, b i = c i) → sets b n = sets c n
  | 0, _ => rfl
  | n + 1, h => by
    rw [sets_succ, sets_succ, sets_congr (fun i hi => h i (by omega)), h n (by omega)]

theorem sets_of_forall {b : Nat → Bool} : ∀ {n : Nat}, (∀ i < n, b i = true) → sets b n = n
  | 0, _ => rfl
  | n + 1, h => by
    rw [sets_succ, sets_of_forall (fun i hi => h i (by omega)), if_pos (h n (by omega))]

theorem sets_set {b : Nat → Bool} {i : Nat} (h : b i = false) : ∀ n,
    sets (Function.update b i true) n = sets b n + if i < n then 1 else 0
  | 0 => rfl
  | n + 1 => by
    have ih := sets_set h n
    rw [sets_succ, sets_succ]
    by_cases hi : i = n
    · subst hi
      rw [Function.update_self, if_pos rfl, h, if_neg Bool.false_ne_true, ih]
      simp
    · rw [Function.update_of_ne (Ne.symm hi), ih]
      have hlt : i < n + 1 ↔ i < n := by omega
      simp only [hlt]
      omega

theorem sets_clear {b : Nat → Bool} {i : Nat} (h : b i = true) (n : Nat) :
    sets (Function.update b i false) n + (if i < n then 1 else 0) = sets b n := by
  have := sets_set (b := Function.update b i false) (i := i) (Function.update_self ..) n
  rw [Function.update_idem, Function.update_eq_self_iff.2 h.symm] at this
  exact this.symm

theorem sets_pos {b : Nat → Bool} {i n : Nat} (hi : i < n) (h : b i = true) : 0 < sets b n := by
  have := sets_clear h n
  rw [if_pos hi] at this
  omega

/-! ## Runs of clear bits -/

/-- The first run of `count` clear bits among `n` bits from `i` on, where a run of `runLen` bits from `runStart` on ends
before `i`. -/
def firstRun (b : Nat → Bool) (count : Nat) : Nat → Nat → Nat → Nat → Option Nat
  | 0, _, _, _ => none
  | n + 1, i, runStart, runLen =>
    if b i then firstRun b count n (i + 1) runStart 0
    else
      let runStart := if runLen = 0 then i else runStart
      if count ≤ runLen + 1 then some runStart else firstRun b count n (i + 1) runStart (runLen + 1)

theorem firstRun_sound {b : Nat → Bool} {count : Nat} : ∀ {n i runStart runLen f : Nat},
    (runLen ≠ 0 → runStart + runLen = i) → (∀ k < runLen, b (runStart + k) = false) →
      firstRun b count n i runStart runLen = some f → ∀ k < count, f + k < i + n ∧ b (f + k) = false
  | 0, _, _, _, _, _, _, h => by cases h
  | n + 1, i, runStart, runLen, f, hrun, hfree, h => by
    rw [firstRun] at h
    split at h
    · intro k hk
      have := firstRun_sound (by omega) (by omega) h k hk
      exact ⟨by omega, this.2⟩
    · next hb =>
      have hb' : b i = false := Bool.eq_false_iff.2 hb
      dsimp only at h
      -- the run ends in `i` now
      have hstart : (if runLen = 0 then i else runStart) + runLen = i := by
        split <;> omega
      have hall : ∀ k < runLen + 1, b ((if runLen = 0 then i else runStart) + k) = false := by
        intro k hk
        rcases Nat.lt_succ_iff_lt_or_eq.1 hk with hk | rfl
        · rw [if_neg (by omega)]
          exact hfree k hk
        · rw [hstart]
          exact hb'
      split at h
      · next hcount =>
        cases h
        intro k hk
        exact ⟨by omega, hall k (by omega)⟩
      · intro k hk
        have := firstRun_sound (by omega) hall h k hk
        exact ⟨by omega, this.2⟩

theorem firstRun_complete {b : Nat → Bool} {count c : Nat} (hfree : ∀ k < count, b (c + k) = false) :
    ∀ {n i runStart runLen : Nat}, c + count ≤ i + n → runLen < count → (runLen ≠ 0 → runStart + runLen = i) →
      (c < i → runLen ≠ 0 ∧ runStart ≤ c) → ∃ f, firstRun b count n i runStart runLen = some f
  | 0, i, runStart, runLen, hn, hlen, hrun, hbefore => by
    obtain ⟨hne, hle⟩ := hbefore (by omega)
    have := hrun hne
    omega
  | n + 1, i, runStart, runLen, hn, hlen, hrun, hbefore => by
    rw [firstRun]
    split
    · next hb =>
      -- the run does not contain `i`, and it does not end before
      have hlt : i < c := by
        by_contra hge
        rcases Nat.lt_or_ge i (c + count) with hin | hout
        · have := hfree (i - c) (by omega)
          rw [Nat.add_sub_cancel' (Nat.le_of_not_lt hge), hb] at this
          cases this
        · obtain ⟨hne, hle⟩ := hbefore (by omega)
          have := hrun hne
          omega
      exact firstRun_complete hfree (by omega) (by omega) (fun h => absurd rfl h) (fun h => absurd hlt (by omega))
    · dsimp only
      split
      · exact ⟨_, rfl⟩
      · refine firstRun_complete hfree (by omega) (by omega) (fun _ => by split <;> omega) (fun hc => ⟨by omega, ?_⟩)
        split
        · next h0 =>
          by_contra hlt
          exact (hbefore (by omega)).1 h0
        · next h0 =>
          have := hrun h0
          by_contra hlt
          have := (hbefore (by omega)).2
          omega

end Bits
