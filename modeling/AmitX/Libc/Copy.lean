import AmitX.Lib.Bytes
import Mathlib.Logic.Function.Basic
/-!
# Copy — `memcpy` and `memmove` (`lib/string.c`)

Both copy byte by byte in one memory, so that a store may change a byte that is still to be read.  `memmove` chooses its
direction for that; `memcpy` goes up, and where its destination begins inside its source it repeats the bytes before.
-/
namespace AmitX
namespace Libc

open Bytes

def memcpy (dest src : Nat) : Nat → Mem → Mem
  | 0, m => m
  | len + 1, m => memcpy (dest + 1) (src + 1) len (Function.update m dest (m src))

/-- The loop of `memmove` from the first byte up. -/
def moveUp (d s n : Nat) (m : Mem) : Mem := (List.range n).foldl (fun m i => Function.update m (d + i) (m (s + i))) m

/-- The loop of `memmove` from the last byte down. -/
def moveDown (d s : Nat) : Nat → Mem → Mem
  | 0, m => m
  | i + 1, m => moveDown d s i (Function.update m (d + i) (m (s + i)))

def memmove (d s n : Nat) (m : Mem) : Mem := if d = s then m else if d < s then moveUp d s n m else moveDown d s n m

section

variable {d s : Nat}

theorem moveUp_succ (d s n : Nat) (m : Mem) :
    moveUp d s (n + 1) m = Function.update (moveUp d s n m) (d + n) (moveUp d s n m (s + n)) := by
  simp [moveUp, List.range_succ]

theorem memcpy_eq_moveUp : ∀ (n d s : Nat) (m : Mem), memcpy d s n m = moveUp d s n m
  | 0, _, _, _ => rfl
  | n + 1, d, s, m => by
    rw [memcpy, memcpy_eq_moveUp n, moveUp, moveUp, List.range_succ_eq_map, List.foldl_cons, List.foldl_map]
    simp [Nat.add_assoc, Nat.add_comm 1]

/-- **Up, with the destination in front**: every byte is read before it is changed. -/
theorem moveUp_of_le (h : d ≤ s) (n : Nat) (m : Mem) : moveUp d s n m = copy m d m s n := by
  induction n with
  | zero =>
    funext a
    exact (copy_of_not (by omega)).symm
  | succ n ih =>
    funext a
    rw [moveUp_succ, ih]
    by_cases ha : a = d + n
    · subst ha
      rw [Function.update_self, copy_of_not (by omega), copy_of_mem (by omega) (by omega), Nat.add_sub_cancel_left]
    · rw [Function.update_of_ne ha]
      unfold copy
      exact if_congr (by omega) rfl rfl

/-- **Up, with the destination behind**: the bytes in front of it are repeated. -/
theorem moveUp_of_lt (h : s < d) (n : Nat) (m : Mem) (a : Nat) :
    moveUp d s n m a = if d ≤ a ∧ a < d + n then m (s + (a - d) % (d - s)) else m a := by
  induction n generalizing a with
  | zero => exact (if_neg (by omega)).symm
  | succ n ih =>
    rw [moveUp_succ]
    by_cases ha : a = d + n
    · subst ha
      rw [Function.update_self, ih, if_pos (show d ≤ d + n ∧ d + n < d + (n + 1) by omega), Nat.add_sub_cancel_left]
      by_cases hn : d ≤ s + n
      · rw [if_pos (by omega), Nat.mod_eq_sub_mod (show n ≥ d - s by omega), show s + n - d = n - (d - s) by omega]
      · rw [if_neg (by omega), Nat.mod_eq_of_lt (by omega)]
    · rw [Function.update_of_ne ha, ih]
      exact if_congr (by omega) rfl rfl

theorem moveDown_of_lt (h : s < d) (n : Nat) (m : Mem) : moveDown d s n m = copy m d m s n := by
  induction n generalizing m with
  | zero =>
    funext a
    exact (copy_of_not (by omega)).symm
  | succ n ih =>
    funext a
    rw [moveDown, ih]
    by_cases hn : d ≤ a ∧ a < d + n
    · rw [copy_of_mem hn.1 hn.2, copy_of_mem hn.1 (by omega), Function.update_of_ne (by omega)]
    · rw [copy_of_not (by omega)]
      by_cases ha : a = d + n
      · subst ha
        rw [Function.update_self, copy_of_mem (by omega) (by omega), Nat.add_sub_cancel_left]
      · rw [Function.update_of_ne ha, copy_of_not (by omega)]

end

/-- **Copies that overlap.**  `memmove` copies as if through a buffer, wherever its ranges lie.  `memcpy` does so, whatever
the memory, exactly if its destination does not begin inside its source. -/
theorem copies_overlapping (d s n : Nat) : (∀ m, memmove d s n m = copy m d m s n) ∧
    ((∀ m, memcpy d s n m = copy m d m s n) ↔ ¬(s < d ∧ d < s + n)) := by
  refine ⟨fun m => ?_, fun h hin => ?_, fun h m => ?_⟩
  · unfold memmove
    split
    · next hd =>
      subst hd
      rw [← moveUp_of_le (Nat.le_refl d)]
      induction n with
      | zero => rfl
      | succ n ih => rw [moveUp_succ, ← ih, Function.update_eq_self]
    · split
      · next hlt => exact moveUp_of_le (Nat.le_of_lt hlt) n m
      · next hne hle => exact moveDown_of_lt (by omega) n m
  · -- the byte at `d` differs from the one at `s` that is repeated there
    have hm := congrFun (h fun a => if a = d then 1 else 0) (d + (d - s))
    rw [memcpy_eq_moveUp, moveUp_of_lt hin.1, if_pos (by omega), copy_of_mem (by omega) (by omega)] at hm
    rw [if_neg (by rw [Nat.add_sub_cancel_left, Nat.mod_self]; omega), if_pos (by omega)] at hm
    exact absurd hm (by decide)
  · rw [memcpy_eq_moveUp]
    by_cases hle : d ≤ s
    · exact moveUp_of_le hle n m
    · -- the ranges do not meet
      funext a
      rw [moveUp_of_lt (by omega)]
      unfold copy
      split
      · rw [Nat.mod_eq_of_lt (by omega)]
      · rfl

end Libc
end AmitX
