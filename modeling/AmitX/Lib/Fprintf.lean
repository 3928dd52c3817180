import AmitX.Lib.Bytes
import Mathlib.Tactic.Common
/-!
# Fprintf — integer conversions of the C standard

What `fprintf` prints for `d`, `i`, `u`, `x` and `X`: the digits with at least as many as the precision says, in front of
them the lead (a sign for a signed conversion, `0x` for the alternate form), and the field filled up with blanks, or with
zeros behind the lead.  A text can be read back (`magnitude_text`): so texts of one conversion that are equal are texts
of one value.
-/

namespace Fprintf

open Bytes (Byte)

def code (c : Char) : Byte := BitVec.ofNat 8 c.toNat

inductive Kind
  | signed
  | unsigned
  | hex (upper : Bool)
  deriving DecidableEq

def Kind.base : Kind → Nat
  | .signed => 10
  | .unsigned => 10
  | .hex _ => 16

def Kind.upper : Kind → Bool
  | .hex upper => upper
  | _ => false

/-- The flags `-`, `0`, `+`, blank and `#`, the minimum field width, and the precision if there is one. -/
structure Spec where
  left : Bool
  zero : Bool
  plus : Bool
  space : Bool
  alternate : Bool
  width : Nat
  precision : Option Nat

def digits (kind : Kind) (n : Nat) : List Byte :=
  (Nat.toDigits kind.base n).map (fun c => code (if kind.upper then c.toUpper else c))

/-- At least as many digits as the precision says; the value 0 with precision 0 has none. -/
def number (s : Spec) (kind : Kind) (n : Nat) : List Byte :=
  let ds := if n = 0 ∧ s.precision = some 0 then [] else digits kind n
  List.replicate (s.precision.getD 1 - ds.length) (code '0') ++ ds

def sign (s : Spec) (negative : Bool) : List Byte :=
  if negative then [code '-'] else if s.plus then [code '+'] else if s.space then [code ' '] else []

def mark (s : Spec) (upper : Bool) (n : Nat) : List Byte :=
  if s.alternate ∧ n ≠ 0 then [code '0', code (if upper then 'X' else 'x')] else []

def lead (s : Spec) (kind : Kind) (value : Int) : List Byte :=
  match kind with
  | .signed => sign s (decide (value < 0))
  | .unsigned => []
  | .hex upper => mark s upper value.natAbs

/-- `0` is ignored if there is a precision, and `-` goes before it. -/
def Spec.zeros (s : Spec) : Bool := s.zero && !s.left && s.precision.isNone

def field (s : Spec) (lead number : List Byte) : List Byte :=
  let n := s.width - (lead.length + number.length)
  if s.left then lead ++ number ++ List.replicate n (code ' ')
  else if s.zeros then lead ++ List.replicate n (code '0') ++ number
  else List.replicate n (code ' ') ++ lead ++ number

def text (s : Spec) (kind : Kind) (value : Int) : List Byte :=
  field s (lead s kind value) (number s kind value.natAbs)

/-! ## Reading back -/

def digitValue (c : Byte) : Option Nat :=
  if 48 ≤ c.toNat ∧ c.toNat ≤ 57 then some (c.toNat - 48)
  else if 97 ≤ c.toNat ∧ c.toNat ≤ 102 then some (c.toNat - 87)
  else if 65 ≤ c.toNat ∧ c.toNat ≤ 70 then some (c.toNat - 55)
  else none

def readFrom (base : Nat) (v : Nat) (l : List Byte) : Nat := (l.filterMap digitValue).foldl (fun v d => base * v + d) v

variable {base v n d : Nat} {kind : Kind} {l m : List Byte} {s : Spec} {value : Int} {x y : Int}

theorem readFrom_append : readFrom base v (l ++ m) = readFrom base (readFrom base v l) m := by
  rw [readFrom, List.filterMap_append, List.foldl_append]
  rfl

theorem readFrom_of_none (h : ∀ c ∈ l, digitValue c = none) : readFrom base v l = v := by
  rw [readFrom, List.filterMap_eq_nil_iff.2 h]
  rfl

theorem kind_base (kind : Kind) : 1 < kind.base ∧ kind.base ≤ 16 := by
  cases kind <;> simp [Kind.base]

theorem digitValue_digit (upper : Bool) (h : d < 16) :
    digitValue (code (if upper then (Nat.digitChar d).toUpper else Nat.digitChar d)) = some d := by
  have hall : ∀ u : Bool, ∀ d < 16,
      digitValue (code (if u then (Nat.digitChar d).toUpper else Nat.digitChar d)) = some d := by decide
  exact hall upper d h

theorem digits_of_lt (h : n < kind.base) :
    digits kind n = [code (if kind.upper then (Nat.digitChar n).toUpper else Nat.digitChar n)] := by
  rw [digits, Nat.toDigits_of_lt_base h]
  rfl

theorem digits_of_ge (h : kind.base ≤ n) : digits kind n = digits kind (n / kind.base) ++
    [code (if kind.upper then (Nat.digitChar (n % kind.base)).toUpper else Nat.digitChar (n % kind.base))] := by
  rw [digits, Nat.toDigits_of_base_le (kind_base kind).1 h, List.map_append]
  rfl

theorem readFrom_digit (upper : Bool) (h : d < 16) :
    readFrom base v [code (if upper then (Nat.digitChar d).toUpper else Nat.digitChar d)] = base * v + d := by
  rw [readFrom, List.filterMap_cons_some (digitValue_digit upper h)]
  rfl

theorem readFrom_digits (kind : Kind) (n : Nat) : readFrom kind.base 0 (digits kind n) = n := by
  obtain ⟨hb, hb16⟩ := kind_base kind
  induction n using Nat.strongRecOn with
  | ind n ih =>
    by_cases h : n < kind.base
    · rw [digits_of_lt h, readFrom_digit _ (by omega), Nat.mul_zero, Nat.zero_add]
    · have hlt : n / kind.base < n := Nat.div_lt_self (by omega) hb
      have hmod : n % kind.base < 16 := Nat.lt_of_lt_of_le (Nat.mod_lt n (by omega)) hb16
      rw [digits_of_ge (Nat.le_of_not_lt h), readFrom_append, ih _ hlt, readFrom_digit _ hmod]
      exact Nat.div_add_mod n kind.base

def Lead (l : List Byte) : Prop := ∀ c ∈ l, digitValue c = none ∨ digitValue c = some 0

theorem readFrom_lead (h : Lead l) : readFrom base 0 l = 0 := by
  induction l with
  | nil => rfl
  | cons c l ih =>
    have ih := ih (fun c hc => h c (List.mem_cons_of_mem _ hc))
    rcases h c List.mem_cons_self with hc | hc
    · rw [readFrom, List.filterMap_cons_none hc]
      exact ih
    · rw [readFrom, List.filterMap_cons_some hc, List.foldl_cons, Nat.mul_zero, Nat.zero_add]
      exact ih

theorem Lead.append (h : Lead l) (h' : Lead m) : Lead (l ++ m) := by
  intro c hc
  rcases List.mem_append.1 hc with hc | hc
  · exact h c hc
  · exact h' c hc

theorem lead_replicate {c : Byte} (h : digitValue c = none ∨ digitValue c = some 0) (n : Nat) :
    Lead (List.replicate n c) := by
  intro x hx
  rw [(List.mem_replicate.1 hx).2]
  exact h

theorem digitValue_of_mem_digits (kind : Kind) (n : Nat) : ∀ c ∈ digits kind n, ∃ d, digitValue c = some d := by
  obtain ⟨hb, hb16⟩ := kind_base kind
  induction n using Nat.strongRecOn with
  | ind n ih =>
    by_cases h : n < kind.base
    · rw [digits_of_lt h]
      intro c hc
      rw [List.mem_singleton.1 hc]
      exact ⟨n, digitValue_digit _ (by omega)⟩
    · have hlt : n / kind.base < n := Nat.div_lt_self (by omega) hb
      have hmod : n % kind.base < 16 := Nat.lt_of_lt_of_le (Nat.mod_lt n (by omega)) hb16
      rw [digits_of_ge (Nat.le_of_not_lt h)]
      intro c hc
      rcases List.mem_append.1 hc with hc | hc
      · exact ih _ hlt c hc
      · rw [List.mem_singleton.1 hc]
        exact ⟨_, digitValue_digit _ hmod⟩

theorem digitValue_of_mem_number {c : Byte} (h : c ∈ number s kind n) : ∃ d, digitValue c = some d := by
  unfold number at h
  dsimp only at h
  rcases List.mem_append.1 h with h | h
  · rw [(List.mem_replicate.1 h).2]
    exact ⟨0, by decide⟩
  · split at h
    · cases h
    · exact digitValue_of_mem_digits kind n c h

theorem readFrom_number (s : Spec) (kind : Kind) (n : Nat) : readFrom kind.base 0 (number s kind n) = n := by
  unfold number
  dsimp only
  rw [readFrom_append, readFrom_lead (lead_replicate (by decide) _)]
  split
  · next h => exact h.1.symm
  · exact readFrom_digits kind n

theorem readFrom_field (h : Lead l) (s : Spec) (kind : Kind) (n : Nat) :
    readFrom kind.base 0 (field s l (number s kind n)) = n := by
  have hblank : digitValue (code ' ') = none := by decide
  unfold field
  dsimp only
  split
  · rw [readFrom_append, readFrom_append, readFrom_lead h, readFrom_number, readFrom_of_none]
    intro c hc
    rw [(List.mem_replicate.1 hc).2, hblank]
  · split
    · rw [readFrom_append, readFrom_lead (h.append (lead_replicate (Or.inr (by decide)) _)), readFrom_number]
    · rw [readFrom_append, readFrom_lead ((lead_replicate (Or.inl hblank) _).append h), readFrom_number]

theorem mem_field {c : Byte} (hb : c ≠ code ' ') (hd : digitValue c = none) :
    c ∈ field s l (number s kind n) ↔ c ∈ l := by
  have hnum : c ∉ number s kind n := by
    intro h
    obtain ⟨d, hd'⟩ := digitValue_of_mem_number h
    rw [hd] at hd'
    cases hd'
  have hblank : ∀ k, c ∉ List.replicate k (code ' ') := fun k h => hb (List.mem_replicate.1 h).2
  have hzero : ∀ k, c ∉ List.replicate k (code '0') := by
    intro k h
    rw [(List.mem_replicate.1 h).2] at hd
    exact absurd hd (by decide)
  unfold field
  dsimp only
  split_ifs
  · simp only [List.mem_append, hnum, hblank, or_false]
  · simp only [List.mem_append, hnum, hzero, or_false]
  · simp only [List.mem_append, hnum, hblank, or_false, false_or]

theorem lead_sign (s : Spec) (negative : Bool) : Lead (sign s negative) := by
  intro c hc
  unfold sign at hc
  split_ifs at hc
  · rw [List.mem_singleton.1 hc]
    decide
  · rw [List.mem_singleton.1 hc]
    decide
  · rw [List.mem_singleton.1 hc]
    decide
  · cases hc

theorem minus_mem_sign {negative : Bool} : code '-' ∈ sign s negative ↔ negative = true := by
  cases negative
  · rw [sign, if_neg (by simp)]
    split_ifs
    · decide
    · decide
    · simp
  · simp [sign]

theorem lead_mark (s : Spec) (upper : Bool) (n : Nat) : Lead (mark s upper n) := by
  have hall : ∀ u : Bool, Lead [code '0', code (if u then 'X' else 'x')] := by
    intro u c hc
    simp only [List.mem_cons, List.not_mem_nil, or_false] at hc
    rcases hc with rfl | rfl
    · decide
    · cases u <;> decide
  unfold mark
  split
  · exact hall upper
  · exact fun c hc => absurd hc List.not_mem_nil

theorem lead_lead (s : Spec) (kind : Kind) (value : Int) : Lead (lead s kind value) := by
  cases kind with
  | signed => exact lead_sign s _
  | unsigned => exact fun c hc => absurd hc List.not_mem_nil
  | hex upper => exact lead_mark s upper _

theorem magnitude_text (s : Spec) (kind : Kind) (value : Int) :
    readFrom kind.base 0 (text s kind value) = value.natAbs :=
  readFrom_field (lead_lead s kind value) s kind _

theorem text_inj (hx : kind = .signed ∨ 0 ≤ x ∧ 0 ≤ y) : text s kind x = text s kind y ↔ x = y := by
  refine ⟨fun h => ?_, fun h => by rw [h]⟩
  have habs : x.natAbs = y.natAbs := by
    rw [← magnitude_text s kind x, ← magnitude_text s kind y, h]
  rcases hx with rfl | ⟨hx, hy⟩
  · have hminus : ∀ z : Int, code '-' ∈ text s .signed z ↔ z < 0 := by
      intro z
      rw [text, mem_field (by decide) (by decide), lead, minus_mem_sign, decide_eq_true_eq]
    have hneg : x < 0 ↔ y < 0 := by rw [← hminus, ← hminus, h]
    omega
  · omega

/-! ## A blank in front -/

theorem blank_not_mem_number : code ' ' ∉ number s kind n := by
  intro h
  obtain ⟨d, hd⟩ := digitValue_of_mem_number h
  exact absurd hd (by simp [show digitValue (code ' ') = none by decide])

theorem field_blank (hzeros : s.zeros = true → number s kind n ≠ []) :
    field s [code ' '] (number s kind n) = field s [] (number s kind n) ↔
      (s.left = false ∧ s.zeros = false ∧ (number s kind n).length < s.width) ∨
        (number s kind n = [] ∧ 0 < s.width) := by
  have hblank := @blank_not_mem_number n kind s
  generalize number s kind n = l at *
  unfold field
  dsimp only
  rw [List.length_singleton, List.length_nil, Nat.zero_add]
  by_cases hleft : s.left = true
  · rw [if_pos hleft, if_pos hleft]
    cases l with
    | nil =>
      -- nothing but blanks
      cases hw : s.width with
      | zero => simp
      | succ w => simp [List.replicate_succ]
    | cons c l =>
      have hc : code ' ' ≠ c := fun he => hblank (he ▸ List.mem_cons_self)
      simp [hleft, hc]
  · rw [if_neg hleft, if_neg hleft]
    rw [Bool.not_eq_true] at hleft
    by_cases hz : s.zeros = true
    · rw [if_pos hz, if_pos hz]
      have hne := hzeros hz
      refine iff_of_false (fun he => ?_) (by simp [hz, hne])
      have hmem : code ' ' ∈ [] ++ List.replicate (s.width - l.length) (code '0') ++ l := by
        rw [← he]
        simp
      simp only [List.nil_append, List.mem_append, List.mem_replicate] at hmem
      rcases hmem with hmem | hmem
      · exact absurd hmem.2 (by decide)
      · exact hblank hmem
    · rw [if_neg hz, if_neg hz]
      rw [Bool.not_eq_true] at hz
      by_cases hw : l.length < s.width
      · refine iff_of_true ?_ (Or.inl ⟨hleft, hz, hw⟩)
        rw [show s.width - l.length = s.width - (1 + l.length) + 1 by omega, List.replicate_succ', List.append_nil]
      · refine iff_of_false (fun he => ?_) ?_
        · have hlen := congrArg List.length he
          simp only [List.length_append, List.length_replicate, List.length_singleton, List.length_nil] at hlen
          omega
        · rintro (h | ⟨rfl, h⟩)
          · exact hw h.2.2
          · exact hw h

theorem length_field (s : Spec) (l m : List Byte) : (field s l m).length = max s.width (l.length + m.length) := by
  unfold field
  dsimp only
  split_ifs <;> simp only [List.length_append, List.length_replicate] <;> omega

theorem length_number_le {k : Nat} (hk : 0 < k) (h : n < kind.base ^ k) :
    (number s kind n).length ≤ max (s.precision.getD 1) k := by
  have hlen : (digits kind n).length ≤ k := by
    rw [digits, List.length_map]
    exact (Nat.length_toDigits_le_iff (kind_base kind).1 hk).2 h
  unfold number
  dsimp only
  rw [List.length_append, List.length_replicate]
  split
  · rw [List.length_nil]
    omega
  · omega

end Fprintf
