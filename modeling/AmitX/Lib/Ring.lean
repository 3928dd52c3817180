import Mathlib.Data.List.Range
import Mathlib.Logic.Function.Basic
import Mathlib.Tactic.Common
/-!
# Ring — a queue in a circle of `n` places

`window n buf start len` is the list of the `len` elements from place `start` on, places counted modulo `n`.  An element
put behind a window that is not full is appended, one taken from its first place is removed, and a store to any other
place leaves the window as it is.
-/

namespace Ring

variable {α β : Type} {n start len : Nat} {buf buf' : Nat → α} {a : α}

def window (n : Nat) (buf : Nat → α) (start len : Nat) : List α := (List.range len).map fun k => buf ((start + k) % n)

@[simp] theorem length_window : (window n buf start len).length = len := by
  simp [window]

theorem window_concat : window n buf start (len + 1) = window n buf start len ++ [buf ((start + len) % n)] := by
  simp [window, List.range_succ]

theorem window_cons : window n buf start (len + 1) = buf (start % n) :: window n buf (start + 1) len := by
  simp only [window, List.range_succ_eq_map, List.map_cons, List.map_map, Nat.add_zero]
  congr 2
  funext k
  exact congrArg (fun i => buf (i % n)) (by omega)

theorem window_mod : window n buf (start % n) len = window n buf start len := by
  simp only [window, Nat.mod_add_mod]

theorem window_congr (h : ∀ k < len, buf ((start + k) % n) = buf' ((start + k) % n)) :
    window n buf start len = window n buf' start len :=
  List.map_congr_left fun k hk => h k (List.mem_range.1 hk)

theorem place_ne {i j : Nat} (hij : i < j) (hj : j < i + n) : i % n ≠ j % n := by
  intro h
  have hdvd : n ∣ j - i := Nat.dvd_of_mod_eq_zero (Nat.sub_mod_eq_zero_of_mod_eq h.symm)
  have := Nat.le_of_dvd (by omega) hdvd
  omega

theorem place_behind {k : Nat} (hlen : len < n) (hk : k < len) : (start + k) % n ≠ (start + len) % n :=
  place_ne (by omega) (by omega)

theorem window_push (hlen : len < n) :
    window n (Function.update buf ((start + len) % n) a) start (len + 1) = window n buf start len ++ [a] := by
  rw [window_concat, Function.update_self]
  congr 1
  exact window_congr fun k hk => Function.update_of_ne (place_behind hlen hk) _ _

end Ring
