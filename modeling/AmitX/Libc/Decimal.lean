import AmitX.Lib.CInt
import AmitX.Lib.Fprintf
import AmitX.Lib.Loop
import Mathlib.Algebra.Ring.Nat
import Mathlib.Algebra.Ring.Int.Defs
import Mathlib.Logic.Function.Basic
/-!
# Decimal — `itoa` and `atoi` (`lib/string.c`)

`itoa` writes the digits backwards, the sign behind them, and then reverses what it has written.  It makes the value
positive first, which overflows for the least `int`.  `atoi` reads digits up to the first other character, in 32 bits,
and knows no sign.  `int_to_ascii` does what `itoa` does.
-/
namespace AmitX
namespace Libc

open Bytes CInt

/-- The loop over the digits: how far it has written, and the memory. -/
def putDigits (str n i : Nat) (m : Mem) : Nat × Mem :=
  if n / 10 > 0 then putDigits str (n / 10) (i + 1) (Function.update m (str + i) (BitVec.ofNat 8 (n % 10 + 0x30)))
  else (i + 1, Function.update m (str + i) (BitVec.ofNat 8 (n % 10 + 0x30)))
termination_by n

/-- One turn of the loop that reverses: `j` and `i - 1 - j` change places. -/
def swapEnds (str i : Nat) (m : Mem) (j : Nat) : Mem :=
  Function.update (Function.update m (str + j) (m (str + (i - 1 - j)))) (str + (i - 1 - j)) (m (str + j))

def reverseLoop (str i turns : Nat) (m : Mem) : Mem := (List.range turns).foldl (swapEnds str i) m

/-- What follows the digits: the sign, the NUL and the reversal. -/
def finishText (isNeg : Bool) (str : Nat) (p : Nat × Mem) : Mem :=
  let i := if isNeg then p.1 + 1 else p.1
  let m := if isNeg then Function.update p.2 (str + p.1) 0x2D else p.2
  reverseLoop str i (i / 2) (Function.update m (str + i) 0)

/-- `none` where `-n` overflows. -/
def itoa (n : Int) (str : Nat) (m : Mem) : Option Mem :=
  (if n < 0 then int (-n) else some n).map fun v => finishText (decide (n < 0)) str (putDigits str v.toNat 0 m)

/-- One turn of the loop of `atoi` at the character at `s.1`. -/
def atoiTurn (m : Mem) (s : Nat × BitVec 32) : (Nat × BitVec 32) ⊕ BitVec 32 :=
  if 0x30 ≤ m s.1 ∧ m s.1 ≤ 0x39 then .inl (s.1 + 1, s.2 * 10 + ((m s.1).setWidth 32 - 0x30)) else .inr s.2

def atoi (m : Mem) (turns str : Nat) : Option (BitVec 32) := Loop.loop (atoiTurn m) turns (str, 0)

/-! ## Lists in memory -/

/-- The memory after the characters of a list were written to `a`. -/
def put (a : Nat) (l : List Byte) (m : Mem) : Mem := copy m a (ofList l) 0 l.length

section

variable {a n str i k : Nat} {c : Byte} {l l' : List Byte} {m : Mem}

theorem put_of_mem (h : k < l.length) : put a l m (a + k) = ofList l k := by
  rw [put, copy_of_mem (by omega) (by omega), Nat.zero_add, Nat.add_sub_cancel_left]

theorem put_append : put (a + l.length) l' (put a l m) = put a (l ++ l') m := by
  funext b
  by_cases h : a ≤ b ∧ b < a + (l ++ l').length
  · obtain ⟨k, rfl⟩ := Nat.exists_eq_add_of_le h.1
    rw [put_of_mem (by omega)]
    by_cases hk : k < l.length
    · rw [ofList_append_left hk, put, copy_of_not (by omega), put_of_mem hk]
    · obtain ⟨j, rfl⟩ := Nat.exists_eq_add_of_le (Nat.le_of_not_lt hk)
      have hj : j < l'.length := by rw [List.length_append] at h; omega
      rw [ofList_append_right, ← Nat.add_assoc, put_of_mem hj]
  · rw [List.length_append] at h
    rw [put, put, put, copy_of_not (by omega), copy_of_not (by omega), copy_of_not (by rw [List.length_append]; omega)]

theorem put_singleton : put a [c] m = Function.update m a c := by
  funext b
  by_cases hb : b = a
  · subst hb
    rw [Function.update_self]
    exact put_of_mem (k := 0) Nat.one_pos
  · rw [Function.update_of_ne hb, put, List.length_singleton, copy_of_not (by omega)]

/-! ## The reversal -/

theorem reverseLoop_apply (hk : 2 * k ≤ i) (a : Nat) : reverseLoop str i k m a =
    if str ≤ a ∧ a < str + i ∧ (a < str + k ∨ str + i ≤ a + k) then m (str + (i - 1 - (a - str))) else m a := by
  induction k generalizing a with
  | zero => exact (if_neg (by omega)).symm
  | succ k ih =>
    have ih := fun a => ih (by omega) a
    rw [reverseLoop, List.range_succ, List.foldl_append, List.foldl_cons, List.foldl_nil]
    show swapEnds str i (reverseLoop str i k m) k a = _
    rw [swapEnds]
    by_cases hlast : a = str + (i - 1 - k)
    · subst hlast
      rw [Function.update_self, ih, if_neg (by omega), if_pos (by omega)]
      exact congrArg (fun p => m (str + p)) (by omega)
    · rw [Function.update_of_ne hlast]
      by_cases hfirst : a = str + k
      · subst hfirst
        rw [Function.update_self, ih, if_neg (by omega), if_pos (by omega), Nat.add_sub_cancel_left]
      · rw [Function.update_of_ne hfirst, ih]
        exact if_congr (by omega) rfl rfl

theorem reverseLoop_put : reverseLoop str l.length (l.length / 2) (put str l m) = put str l.reverse m := by
  funext a
  rw [reverseLoop_apply (by omega)]
  by_cases h : str ≤ a ∧ a < str + l.length
  · obtain ⟨k, rfl⟩ := Nat.exists_eq_add_of_le h.1
    have hk : k < l.length := by omega
    have hrev : ofList l.reverse k = ofList l (l.length - 1 - k) := by
      rw [ofList, ofList, List.getD_eq_getElem _ _ (by rw [List.length_reverse]; exact hk),
        List.getD_eq_getElem _ _ (by omega), List.getElem_reverse]
    rw [put_of_mem (l := l.reverse) (by rw [List.length_reverse]; exact hk), hrev, Nat.add_sub_cancel_left]
    split
    · exact put_of_mem (by omega)
    · rw [put_of_mem hk]
      exact congrArg (ofList l) (by omega)
  · rw [if_neg (by omega), put, put, copy_of_not (by omega), copy_of_not (by rw [List.length_reverse]; omega)]

theorem reverseLoop_update : reverseLoop str i (i / 2) (Function.update m (str + i) c) =
    Function.update (reverseLoop str i (i / 2) m) (str + i) c := by
  funext a
  rw [reverseLoop_apply (by omega)]
  by_cases ha : a = str + i
  · subst ha
    rw [if_neg (by omega), Function.update_self, Function.update_self]
  · rw [Function.update_of_ne ha, Function.update_of_ne ha, reverseLoop_apply (by omega)]
    by_cases hin : str ≤ a ∧ a < str + i ∧ (a < str + i / 2 ∨ str + i ≤ a + i / 2)
    · rw [if_pos hin, if_pos hin, Function.update_of_ne (by omega)]
    · rw [if_neg hin, if_neg hin]

/-! ## The digits -/

theorem putDigits_eq (n : Nat) : ∀ (i : Nat) (m : Mem), putDigits str n i m =
    (i + (Fprintf.digits .signed n).length, put (str + i) (Fprintf.digits .signed n).reverse m) := by
  have hcode : ∀ d < 10, BitVec.ofNat 8 (d + 0x30) = Fprintf.code (Nat.digitChar d) := by decide
  induction n using Nat.strongRecOn with
  | ind n ih =>
    intro i m
    have hlast : BitVec.ofNat 8 (n % 10 + 0x30) = Fprintf.code (Nat.digitChar (n % 10)) :=
      hcode _ (Nat.mod_lt n (by decide))
    rw [putDigits, hlast]
    by_cases h : n < 10
    · rw [if_neg (by omega), Fprintf.digits_of_lt h, List.reverse_singleton, put_singleton, Nat.mod_eq_of_lt h]
      rfl
    · have hd : Fprintf.digits .signed n = _ := Fprintf.digits_of_ge (Nat.le_of_not_lt h)
      rw [if_pos (by omega), ih (n / 10) (by omega), ← put_singleton, hd]
      simp only [List.length_append, List.length_singleton, List.reverse_append, List.reverse_singleton]
      rw [← put_append, List.length_singleton, Nat.add_assoc, Nat.add_assoc, Nat.add_comm 1]
      rfl

/-- The conversion `d` without flags. -/
def plainSpec : Fprintf.Spec := ⟨false, false, false, false, false, 0, none⟩

theorem text_plain (n : Int) : Fprintf.text plainSpec .signed n =
    (if n < 0 then [Fprintf.code '-'] else []) ++ Fprintf.digits .signed n.natAbs := by
  have hpos : 1 ≤ (Fprintf.digits .signed n.natAbs).length := by
    by_cases h : n.natAbs < 10
    · rw [Fprintf.digits_of_lt h, List.length_singleton]
    · rw [Fprintf.digits_of_ge (Nat.le_of_not_lt h), List.length_append, List.length_singleton]
      exact Nat.le_add_left 1 _
  have hzeros : 1 - (Fprintf.digits .signed n.natAbs).length = 0 := by omega
  simp [Fprintf.text, Fprintf.field, Fprintf.number, Fprintf.lead, Fprintf.sign, plainSpec, Fprintf.Spec.zeros, hzeros]

/-- **`itoa` writes what `printf` prints for `%d`**, and a NUL; the least `int` has no text. -/
theorem itoa_eq (n : Int) (hn : Fits n) (str : Nat) (m : Mem) : itoa n str m =
    if n = -2 ^ 31 then none else some (put str (Fprintf.text plainSpec .signed n ++ [0]) m) := by
  have hfinish : ∀ (neg : Bool) (v : Nat), finishText neg str (putDigits str v 0 m) =
      put str ((if neg then [Fprintf.code '-'] else []) ++ Fprintf.digits .signed v ++ [0]) m := by
    intro neg v
    have hminus : (0x2D : Byte) = Fprintf.code '-' := by decide
    have hback : ∀ l : List Byte, reverseLoop str l.length (l.length / 2) (Function.update (put str l m) (str + l.length) 0)
        = put str (l.reverse ++ [0]) m := fun l => by
      rw [reverseLoop_update, reverseLoop_put, ← put_append, put_singleton, List.length_reverse]
    rw [putDigits_eq]
    cases neg with
    | false =>
      have := hback (Fprintf.digits .signed v).reverse
      rw [List.length_reverse, List.reverse_reverse] at this
      simpa [finishText] using this
    | true =>
      have := hback ((Fprintf.digits .signed v).reverse ++ [Fprintf.code '-'])
      rw [List.reverse_append, List.reverse_reverse, List.length_append, List.length_reverse, ← put_append, put_singleton,
        List.length_reverse] at this
      simpa [finishText, hminus] using this
  unfold itoa
  obtain ⟨hlow, hhigh⟩ := hn
  by_cases hneg : n < 0
  · rw [if_pos hneg, text_plain, if_pos hneg]
    by_cases hmin : n = -2 ^ 31
    · rw [if_pos hmin, hmin]
      rfl
    · rw [if_neg hmin, int_eq (by omega) (by omega), Option.map_some, hfinish, decide_eq_true hneg,
        show (-n).toNat = n.natAbs by omega]
      rfl
  · rw [if_neg hneg, if_neg (by omega), text_plain, if_neg hneg, Option.map_some, hfinish, decide_eq_false hneg,
      show n.toNat = n.natAbs by omega]
    rfl

/-! ## Reading -/

def IsDigit (c : Byte) : Prop := 0x30 ≤ c ∧ c ≤ 0x39

theorem readFrom_congr {v w : Nat} (h : v % 2 ^ 32 = w % 2 ^ 32) :
    Fprintf.readFrom 10 v l % 2 ^ 32 = Fprintf.readFrom 10 w l % 2 ^ 32 := by
  unfold Fprintf.readFrom
  induction l.filterMap Fprintf.digitValue generalizing v w with
  | nil => exact h
  | cons d ds ih =>
    refine ih (show (10 * v + d) % 2 ^ 32 = (10 * w + d) % 2 ^ 32 from ?_)
    omega

/-- **`atoi` reads the digits up to the first other character**, modulo 2^32. -/
theorem loop_atoiTurn (hc : ¬IsDigit c) (l : List Byte) (hd : ∀ d ∈ l, IsDigit d) (r : BitVec 32) (hat : At m a (l ++ [c]))
    (turns : Nat) : Loop.loop (atoiTurn m) (turns + l.length + 1) (a, r) =
      some (BitVec.ofNat 32 (Fprintf.readFrom 10 r.toNat l)) := by
  induction l generalizing a r with
  | nil =>
    have hm : m a = c := hat 0 Nat.one_pos
    rw [Loop.loop_inr (r := r) (by unfold atoiTurn; rw [hm]; exact if_neg hc), Fprintf.readFrom]
    simp
  | cons d l ih =>
    have hm : m a = d := hat 0 (Nat.succ_pos _)
    obtain ⟨h1, h2⟩ := hd d List.mem_cons_self
    have hlow : 48 ≤ d.toNat := h1
    have hhigh : d.toNat ≤ 57 := h2
    have hrest : At m (a + 1) (l ++ [c]) := (at_append (l := [d]).1 hat).2
    have hstep : atoiTurn m (a, r) = .inl (a + 1, r * 10 + (d.setWidth 32 - 0x30)) := by
      unfold atoiTurn
      rw [hm]
      exact if_pos ⟨h1, h2⟩
    have hvalue : Fprintf.readFrom 10 r.toNat (d :: l) = Fprintf.readFrom 10 (10 * r.toNat + (d.toNat - 48)) l := by
      rw [Fprintf.readFrom, List.filterMap_cons_some (show Fprintf.digitValue d = some (d.toNat - 48) from
        if_pos ⟨hlow, hhigh⟩)]
      rfl
    have hcongr : (r * 10 + (d.setWidth 32 - 0x30)).toNat % 2 ^ 32 = (10 * r.toNat + (d.toNat - 48)) % 2 ^ 32 := by
      have h10 : (10 : BitVec 32).toNat = 10 := rfl
      have h48 : (0x30 : BitVec 32).toNat = 48 := rfl
      simp only [BitVec.toNat_add, BitVec.toNat_mul, BitVec.toNat_sub, BitVec.toNat_setWidth, h10, h48]
      omega
    rw [List.length_cons, show turns + (l.length + 1) + 1 = turns + l.length + 1 + 1 by omega, Loop.loop_inl hstep,
      ih (fun x hx => hd x (List.mem_cons_of_mem d hx)) _ hrest, hvalue]
    refine congrArg some (BitVec.eq_of_toNat_eq ?_)
    rw [BitVec.toNat_ofNat, BitVec.toNat_ofNat]
    exact readFrom_congr hcongr

theorem isDigit_of_mem_digits (n : Nat) : ∀ d ∈ Fprintf.digits .signed n, IsDigit d := by
  have hcode : ∀ d < 10, 0x30 ≤ Fprintf.code (Nat.digitChar d) ∧ Fprintf.code (Nat.digitChar d) ≤ 0x39 := by decide
  induction n using Nat.strongRecOn with
  | ind n ih =>
    intro d hd
    by_cases h : n < 10
    · rw [Fprintf.digits_of_lt h, List.mem_singleton] at hd
      rw [hd]
      exact hcode n h
    · rw [Fprintf.digits_of_ge (Nat.le_of_not_lt h), List.mem_append, List.mem_singleton] at hd
      rcases hd with hd | hd
      · exact ih (n / 10) (by omega) d hd
      · rw [hd]
        exact hcode _ (Nat.mod_lt n (by decide))

end

/-- **There and back.**  For every `int` but the least, `itoa` stores what `printf` prints for `%d` with a NUL behind it,
and nothing beside; `atoi`, which knows no sign, reads the value back behind the sign.  For the least `int` there is no
text, as its negation overflows. -/
theorem itoa_atoi (n : Int) (hn : Fits n) (str : Nat) (m : Mem) :
    (n = -2 ^ 31 → itoa n str m = none) ∧ (n ≠ -2 ^ 31 → ∃ m', itoa n str m = some m' ∧
      At m' str (Fprintf.text plainSpec .signed n ++ [0]) ∧
      (∀ a, a < str ∨ str + (Fprintf.text plainSpec .signed n).length + 1 ≤ a → m' a = m a) ∧
      ∃ turns, atoi m' turns (if n < 0 then str + 1 else str) = some (BitVec.ofNat 32 n.natAbs)) := by
  rw [itoa_eq n hn]
  refine ⟨fun h => if_pos h, fun h => ⟨_, if_neg h, at_copy _ _ _, fun a ha => ?_, ?_⟩⟩
  · rw [put, copy_of_not (by rw [List.length_append, List.length_singleton]; omega)]
  · have hat := at_copy m str (Fprintf.text plainSpec .signed n ++ [0])
    rw [text_plain] at hat ⊢
    refine ⟨_, (loop_atoiTurn (c := 0) (fun h => absurd h.1 (by decide)) _ (isDigit_of_mem_digits n.natAbs) 0 ?_ 0).trans ?_⟩
    · split
      · next hneg =>
        rw [if_pos hneg, List.append_assoc] at hat
        exact (at_append (l := [_]).1 hat).2
      · next hpos =>
        rw [if_neg hpos] at hat
        exact hat
    · exact congrArg (fun v => some (BitVec.ofNat 32 v)) (Fprintf.readFrom_digits .signed n.natAbs)

theorem itoa_atoi_negative : ∃ m', itoa (-2026) 7 (fun _ => 0) = some m' ∧
    At m' 7 (Fprintf.text plainSpec .signed (-2026) ++ [0]) ∧
    (∀ a, a < 7 ∨ 7 + (Fprintf.text plainSpec .signed (-2026)).length + 1 ≤ a → m' a = 0) ∧
    ∃ turns, atoi m' turns (if (-2026 : Int) < 0 then 7 + 1 else 7) = some (BitVec.ofNat 32 2026) :=
  (itoa_atoi (-2026) (by decide) 7 (fun _ => 0)).2 (by decide)

end Libc
end AmitX
