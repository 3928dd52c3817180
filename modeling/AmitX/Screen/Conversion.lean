import AmitX.Lib.Fprintf
import AmitX.Screen.PrintkSpec
/-!
# Conversion — integer conversions as they are written

A conversion is flags in any order, a width, a precision, a length modifier and one of `d`, `i`, `u`, `x` and `X`.
`parse_format` reads back what is written, and `format_integer` fills the field as the C standard says; only the lead of
`u` is another.
-/
namespace AmitX
namespace Screen

open Bytes
open Mm (Arch)
open Fprintf (Kind Spec field number sign mark)

inductive Flag
  | minus
  | zero
  | plus
  | space
  | hash
  deriving DecidableEq

def Flag.char : Flag → Byte
  | minus => ch '-'
  | zero => ch '0'
  | plus => ch '+'
  | space => ch ' '
  | hash => ch '#'

/-- A width or precision: not given, in digits, or a star with its argument. -/
inductive Amount
  | omitted
  | literal (ds : List (Fin 10))
  | star (x : BitVec 32)

def digitCode (d : Fin 10) : Byte := BitVec.ofNat 8 (48 + d)

/-- The value of decimal digits behind `v`. -/
def decimalFrom (v : Nat) (ds : List (Fin 10)) : Nat := ds.foldl (fun v d => 10 * v + d) v

namespace Amount

def chars : Amount → List Byte
  | omitted => []
  | literal ds => ds.map digitCode
  | star _ => [ch '*']

def args : Amount → List Arg
  | star x => [.int x]
  | _ => []

/-- A width below 2³⁰; its digits do not begin with the flag `0`. -/
def IsWidth : Amount → Prop
  | omitted => True
  | literal ds => (∃ d rest, ds = d :: rest ∧ d ≠ 0) ∧ decimalFrom 0 ds < 2 ^ 30
  | star x => x.toInt.natAbs < 2 ^ 30

def IsPrecision : Amount → Prop
  | omitted => True
  | literal ds => decimalFrom 0 ds < 2 ^ 30
  | star x => x.toInt < 2 ^ 30

def width : Amount → Nat
  | omitted => 0
  | literal ds => decimalFrom 0 ds
  | star x => x.toInt.natAbs

/-- A negative width is a `-` flag and a width. -/
def left : Amount → Bool
  | star x => decide (x.toInt < 0)
  | _ => false

def precision : Amount → Option Nat
  | omitted => none
  | literal ds => some (decimalFrom 0 ds)
  | star x => if x.toInt < 0 then none else some x.toInt.toNat

def dotted : Amount → List Byte
  | omitted => []
  | p => ch '.' :: p.chars

end Amount

def LengthModifier.chars : LengthModifier → List Byte
  | none => []
  | hh => [ch 'h', ch 'h']
  | h => [ch 'h']
  | l => [ch 'l']
  | ll => [ch 'l', ch 'l']
  | z => [ch 'z']
  | t => [ch 't']

inductive Specifier
  | d
  | i
  | u
  | x
  | upperX
  deriving DecidableEq

def Specifier.char : Specifier → Byte
  | d => ch 'd'
  | i => ch 'i'
  | u => ch 'u'
  | x => ch 'x'
  | upperX => ch 'X'

def Specifier.kind : Specifier → Kind
  | d => .signed
  | i => .signed
  | u => .unsigned
  | x => .hex false
  | upperX => .hex true

structure Conversion where
  flags : List Flag
  width : Amount
  precision : Amount
  length : LengthModifier
  specifier : Specifier

namespace Conversion

structure Wf (c : Conversion) : Prop where
  width : c.width.IsWidth
  precision : c.precision.IsPrecision

def behind (c : Conversion) : List Byte := c.precision.dotted ++ (c.length.chars ++ [c.specifier.char])

def chars (c : Conversion) : List Byte := ch '%' :: (c.flags.map Flag.char ++ (c.width.chars ++ c.behind))

def args (c : Conversion) (x : Arg) : List Arg := c.width.args ++ (c.precision.args ++ [x])

def spec (c : Conversion) : Spec where
  left := decide (Flag.minus ∈ c.flags) || c.width.left
  zero := decide (Flag.zero ∈ c.flags)
  plus := decide (Flag.plus ∈ c.flags)
  space := decide (Flag.space ∈ c.flags)
  alternate := decide (Flag.hash ∈ c.flags)
  width := c.width.width
  precision := c.precision.precision

/-- The `int` of a precision. -/
def precisionField : Option Nat → Int
  | none => -1
  | some p => p

/-- The conversion as `parse_format` reads it. -/
def parsed (c : Conversion) : FormatSpec where
  left := c.spec.left
  zero := c.spec.zero
  plus := c.spec.plus
  space := c.spec.space
  alternate := c.spec.alternate
  width := c.spec.width
  precision := precisionField c.spec.precision
  length := c.length
  specifier := c.specifier.char

end Conversion

/-! ## Parsing -/

variable {a : Arch} {c : Conversion} {rest : List Byte} {x : Arg} {args : List Arg} {spec : FormatSpec}

def letters : List Byte := "hlztdiuxX".toList.map ch

theorem cur_length (length : LengthModifier) (specifier : Specifier) : cur (length.chars ++ [specifier.char]) ∈ letters := by
  cases length <;> cases specifier <;> decide

theorem cur_behind (c : Conversion) : cur c.behind ∈ ch '.' :: letters := by
  unfold Conversion.behind
  cases c.precision with
  | omitted => exact List.mem_cons_of_mem _ (cur_length c.length c.specifier)
  | literal ds => exact List.mem_cons_self
  | star x => exact List.mem_cons_self

theorem parseFlags_stop (spec : FormatSpec) (h : ∀ f : Flag, cur rest ≠ f.char) : parseFlags spec rest = (spec, rest) := by
  cases rest with
  | nil => rfl
  | cons c rest =>
    have hminus : c ≠ ch '-' := h .minus
    have hzero : c ≠ ch '0' := h .zero
    have hplus : c ≠ ch '+' := h .plus
    have hspace : c ≠ ch ' ' := h .space
    have hhash : c ≠ ch '#' := h .hash
    rw [parseFlags, if_neg hminus, if_neg hzero, if_neg hplus, if_neg hspace, if_neg hhash]

def Flag.set : Flag → FormatSpec → FormatSpec
  | minus, spec => { spec with left := true }
  | zero, spec => { spec with zero := true }
  | plus, spec => { spec with plus := true }
  | space, spec => { spec with space := true }
  | hash, spec => { spec with alternate := true }

theorem parseFlags_char (f : Flag) (spec : FormatSpec) (rest : List Byte) :
    parseFlags spec (f.char :: rest) = parseFlags (f.set spec) rest := by
  cases f <;> rfl

theorem parseFlags_flags (h : ∀ f : Flag, cur rest ≠ f.char) : ∀ (flags : List Flag) (spec : FormatSpec),
    parseFlags spec (flags.map Flag.char ++ rest) = ({ spec with
      left := spec.left || decide (Flag.minus ∈ flags)
      zero := spec.zero || decide (Flag.zero ∈ flags)
      plus := spec.plus || decide (Flag.plus ∈ flags)
      space := spec.space || decide (Flag.space ∈ flags)
      alternate := spec.alternate || decide (Flag.hash ∈ flags) }, rest)
  | [], spec => by
    simp [parseFlags_stop spec h]
  | f :: flags, spec => by
    rw [List.map_cons, List.cons_append, parseFlags_char, parseFlags_flags h flags]
    cases f <;> simp [Flag.set]

def marks : List Byte := "%-0+ #".toList.map ch

theorem Flag.char_mem (f : Flag) : f.char ∈ marks := by
  cases f <;> decide

theorem cur_width_not_mem (h : c.Wf) : cur (c.width.chars ++ c.behind) ∉ marks := by
  have hbehind : ∀ x ∈ ch '.' :: letters, x ∉ marks := by decide
  have hdigit : ∀ d : Fin 10, d ≠ 0 → digitCode d ∉ marks := by decide
  have hw := h.width
  cases hwidth : c.width with
  | omitted => exact hbehind _ (cur_behind c)
  | literal ds =>
    rw [hwidth] at hw
    obtain ⟨⟨d, rest, rfl, hd⟩, -⟩ := hw
    exact hdigit d hd
  | star x =>
    change ch '*' ∉ marks
    decide

theorem cur_width_ne (h : c.Wf) (f : Flag) : cur (c.width.chars ++ c.behind) ≠ f.char := by
  intro he
  exact cur_width_not_mem h (he ▸ f.char_mem)

theorem isDigit_digitCode (d : Fin 10) : isDigit (digitCode d) = true ∧ ((digitCode d).toNat : Int) - 48 = d := by
  revert d
  decide

theorem decimalFrom_ge (ds : List (Fin 10)) : ∀ v : Nat, v ≤ decimalFrom v ds := by
  induction ds with
  | nil => exact fun v => Nat.le_refl v
  | cons d ds ih =>
    intro v
    have := ih (10 * v + d)
    change v ≤ decimalFrom (10 * v + d) ds
    omega

theorem parseDigits_stop (n : Int) (h : isDigit (cur rest) = false) : parseDigits n rest = (n, rest) := by
  cases rest with
  | nil => rfl
  | cons c rest => exact if_neg (by rw [show isDigit c = false from h]; exact Bool.false_ne_true)

theorem parseDigits_digits (h : isDigit (cur rest) = false) : ∀ (ds : List (Fin 10)) (v : Nat),
    decimalFrom v ds < 2 ^ 30 → parseDigits v (ds.map digitCode ++ rest) = (((decimalFrom v ds : Nat) : Int), rest)
  | [], v, _ => parseDigits_stop _ h
  | d :: ds, v, hlt => by
    obtain ⟨hdigit, hvalue⟩ := isDigit_digitCode d
    have hlt' : decimalFrom (10 * v + d) ds < 2 ^ 30 := hlt
    have hge := decimalFrom_ge ds (10 * v + d)
    have hstep : int32 (int32 ((v : Int) * 10) + ((digitCode d).toNat - 48)) = ((10 * v + d : Nat) : Int) := by
      rw [hvalue, @int32_eq ((v : Int) * 10) (by omega) (by omega), int32_eq (by omega) (by omega)]
      omega
    rw [List.map_cons, List.cons_append, parseDigits, if_pos hdigit, hstep]
    exact parseDigits_digits h ds (10 * v + d) hlt'

theorem letters_plain : ∀ x ∈ ch '.' :: letters, isDigit x = false ∧ x ≠ ch '*' := by decide

theorem digitCode_ne_star (d : Fin 10) : digitCode d ≠ ch '*' := by
  revert d
  decide

theorem parseWidth_width (h : c.Wf) (spec : FormatSpec) (args : List Arg) :
    parseWidth spec (c.width.chars ++ c.behind) (c.width.args ++ args) =
      .ok ({ spec with left := spec.left || c.width.left, width := c.width.width }, c.behind, args) := by
  obtain ⟨hdigit, hstar⟩ := letters_plain _ (cur_behind c)
  have hw := h.width
  cases hwidth : c.width with
  | omitted =>
    rw [parseWidth, if_neg (show cur (Amount.omitted.chars ++ c.behind) ≠ ch '*' from hstar)]
    simp [Amount.chars, Amount.args, Amount.width, Amount.left, parseDigits_stop 0 hdigit]
  | literal ds =>
    rw [hwidth] at hw
    obtain ⟨⟨d, rest, rfl, hd⟩, hlt⟩ := hw
    have hread : parseDigits 0 ((Amount.literal (d :: rest)).chars ++ c.behind) =
        (((decimalFrom 0 (d :: rest) : Nat) : Int), c.behind) := parseDigits_digits hdigit (d :: rest) 0 hlt
    rw [parseWidth, if_neg (show cur ((Amount.literal (d :: rest)).chars ++ c.behind) ≠ ch '*' from digitCode_ne_star d),
      hread]
    simp [Amount.width, Amount.left, Amount.args]
  | star x =>
    rw [hwidth] at hw
    have hw : x.toInt.natAbs < 2 ^ 30 := hw
    rw [parseWidth, if_pos (show cur ((Amount.star x).chars ++ c.behind) = ch '*' from rfl)]
    change (if x.toInt < 0 then
        Except.ok ({ spec with left := true, width := int32 (-x.toInt) }, c.behind, args)
      else Except.ok ({ spec with width := x.toInt }, c.behind, args)) = _
    by_cases hneg : x.toInt < 0
    · have hwidth : int32 (-x.toInt) = (x.toInt.natAbs : Int) := by
        rw [int32_eq (by omega) (by omega)]
        omega
      rw [if_pos hneg, hwidth]
      simp [Amount.width, Amount.left, hneg]
    · have hwidth : x.toInt = (x.toInt.natAbs : Int) := by omega
      rw [if_neg hneg]
      simp only [Amount.width, Amount.left, hneg, decide_false, Bool.or_false, ← hwidth]

theorem letters_behind : ∀ x ∈ letters, x ≠ ch '.' ∧ isDigit x = false ∧ x ≠ ch '*' := by decide

theorem parsePrecision_precision {p : Amount} (hp : p.IsPrecision) (hrest : cur rest ∈ letters) (spec : FormatSpec)
    (args : List Arg) (hspec : spec.precision = -1) : parsePrecision spec (p.dotted ++ rest) (p.args ++ args) =
      .ok ({ spec with precision := Conversion.precisionField p.precision }, rest, args) := by
  obtain ⟨hdot, hdigit, hplain⟩ := letters_behind _ hrest
  cases p with
  | omitted =>
    rw [parsePrecision, if_neg (show cur (Amount.omitted.dotted ++ rest) ≠ ch '.' from hdot)]
    simp [Amount.dotted, Amount.args, Amount.precision, Conversion.precisionField, ← hspec]
  | literal ds =>
    have hread : parseDigits 0 (ds.map digitCode ++ rest) = (((decimalFrom 0 ds : Nat) : Int), rest) :=
      parseDigits_digits hdigit ds 0 hp
    have hstar : cur (ds.map digitCode ++ rest) ≠ ch '*' := by
      cases ds with
      | nil => exact hplain
      | cons d ds => exact digitCode_ne_star d
    change parsePrecision spec (ch '.' :: (ds.map digitCode ++ rest)) args = _
    rw [parsePrecision, if_pos (show cur (ch '.' :: (ds.map digitCode ++ rest)) = ch '.' from rfl), List.tail_cons,
      if_neg hstar, hread]
    rfl
  | star x =>
    change (Except.ok ({ spec with precision := if x.toInt < 0 then -1 else x.toInt }, rest, args) :
      Except Stop (FormatSpec × List Byte × List Arg)) = _
    by_cases hneg : x.toInt < 0
    · simp [Amount.precision, Conversion.precisionField, hneg]
    · simp [Amount.precision, Conversion.precisionField, hneg]
      omega

theorem parseLength_chars (length : LengthModifier) (specifier : Specifier) :
    parseLength (length.chars ++ [specifier.char]) = (length, [specifier.char]) := by
  cases length <;> cases specifier <;> decide

theorem specifier_ne_zero (specifier : Specifier) : specifier.char ≠ 0 := by
  cases specifier <;> decide

theorem parseFormat_chars (h : c.Wf) (x : Arg) : parseFormat c.chars.tail (c.args x) = .ok (c.parsed, [], [x]) := by
  have hwidth := parseWidth_width h
  have hprec := parsePrecision_precision h.precision (cur_length c.length c.specifier)
  unfold parseFormat Conversion.args
  change (parseWidth (parseFlags _ (c.flags.map Flag.char ++ (c.width.chars ++ c.behind))).1
    (parseFlags _ (c.flags.map Flag.char ++ (c.width.chars ++ c.behind))).2 _ >>= _) = _
  rw [parseFlags_flags (cur_width_ne h), hwidth, ok_bind]
  dsimp only [Conversion.behind]
  rw [hprec _ _ rfl, ok_bind]
  dsimp only
  rw [parseLength_chars]
  dsimp only
  rw [if_neg (show cur [c.specifier.char] ≠ 0 from specifier_ne_zero c.specifier)]
  simp only [Bool.false_or]
  rfl

theorem cur_tail_ne (h : c.Wf) : cur c.chars.tail ≠ ch '%' := by
  change cur (c.flags.map Flag.char ++ (c.width.chars ++ c.behind)) ≠ ch '%'
  cases c.flags with
  | nil =>
    intro he
    exact cur_width_not_mem h (he ▸ (by decide : ch '%' ∈ marks))
  | cons f flags =>
    change f.char ≠ ch '%'
    cases f <;> decide

theorem formatText_chars (h : c.Wf) {text : List Byte} (htext : oneText a c.parsed [x] = .ok (text, [])) :
    formatText a (c.chars.length + 1) c.chars (c.args x) = .ok text := by
  have hcur : cur c.chars = ch '%' := rfl
  have hlen : c.chars.length = (c.flags.map Flag.char ++ (c.width.chars ++ c.behind)).length + 1 := rfl
  rw [formatText, if_neg (by rw [hcur]; decide), if_neg (not_not_intro hcur), if_neg (cur_tail_ne h),
    parseFormat_chars h, ok_bind]
  dsimp only
  rw [htext, ok_bind]
  dsimp only
  rw [hlen, formatText, if_pos (show cur [] = 0 from rfl)]
  exact congrArg Except.ok (List.append_nil text)

end Screen
end AmitX
