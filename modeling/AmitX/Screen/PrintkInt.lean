import AmitX.Screen.Conversion
/-!
# PrintkInt — integer conversions and the C standard

`format_integer` prints the digits, the precision and the field as the C standard says, for every value of 64 bits.  What
it prints differs where the value that is fetched is not that of the type the length modifier names, and where `u` gets
the lead of a signed conversion.
-/
namespace AmitX
namespace Screen

open Bytes
open Mm (Arch)
open Fprintf (Kind Spec field number sign mark code digits)

variable {a : Arch} {c : Conversion} {x : Arg} {n k d : Nat} {kind : Kind} {s : Spec} {text o out : List Byte}

/-! ## Digits -/

theorem digitChar_eq (upper : Bool) (h : d < 16) :
    digitChar upper d = code (if upper then (Nat.digitChar d).toUpper else Nat.digitChar d) := by
  have hall : ∀ u : Bool, ∀ d < 16,
      digitChar u d = code (if u then (Nat.digitChar d).toUpper else Nat.digitChar d) := by decide
  exact hall upper d h

theorem tmpDigits_digits (kind : Kind) : ∀ (k n : Nat), n ≠ 0 → n < 2 ^ k →
    ((tmpDigits kind.base k n).map (digitChar kind.upper)).reverse = digits kind n
  | 0, n, hn, hlt => by omega
  | k + 1, n, hn, hlt => by
    obtain ⟨hb, hb16⟩ := Fprintf.kind_base kind
    have hmod : n % kind.base < 16 := Nat.lt_of_lt_of_le (Nat.mod_lt n (by omega)) hb16
    have hdiv : n / kind.base < 2 ^ k := by
      refine Nat.div_lt_of_lt_mul (Nat.lt_of_lt_of_le hlt ?_)
      rw [Nat.pow_succ, Nat.mul_comm]
      exact Nat.mul_le_mul_right _ hb
    rw [tmpDigits, if_neg hn, List.map_cons, List.reverse_cons, digitChar_eq _ hmod]
    by_cases h : n < kind.base
    · rw [Fprintf.digits_of_lt h, Nat.div_eq_of_lt h, Nat.mod_eq_of_lt h]
      cases k <;> rfl
    · rw [Fprintf.digits_of_ge (Nat.le_of_not_lt h)]
      have hne : n / kind.base ≠ 0 := by
        have := Nat.div_pos (Nat.le_of_not_lt h) (by omega)
        omega
      rw [tmpDigits_digits kind k _ hne hdiv]

theorem utoaBase_eq (kind : Kind) (h : n < 2 ^ 64) : utoaBase n kind.base kind.upper = digits kind n := by
  obtain ⟨hb, hb16⟩ := Fprintf.kind_base kind
  rw [utoaBase, if_neg (by omega)]
  by_cases hn : n = 0
  · rw [if_pos hn, hn, Fprintf.digits_of_lt (by omega)]
    cases kind with
    | hex upper => cases upper <;> decide
    | _ => decide
  · rw [if_neg hn, tmpDigits_digits kind 64 n hn h]

/-! ## The field -/

theorem turns_ofNat (h : n < 2 ^ 32) : turns n = n := by
  rw [turns]
  omega

theorem padding_ofNat (c : Byte) (h : n < 2 ^ 32) : padding c n = List.replicate n c := by
  rw [padding, turns_ofNat h]

/-- What goes in front of the number: the sign of a decimal number, signed or not, or the mark of a hexadecimal one. -/
def leadOf (s : Spec) (negative : Bool) (n : Nat) : Kind → List Byte
  | .hex upper => mark s upper n
  | _ => sign s negative

theorem precision_eq_zero (p : Option Nat) : Conversion.precisionField p = 0 ↔ p = some 0 := by
  cases p with
  | none => simp [Conversion.precisionField]
  | some p => simp [Conversion.precisionField]

theorem precision_neg (p : Option Nat) : decide (Conversion.precisionField p < 0) = p.isNone := by
  cases p with
  | none => rfl
  | some p => exact decide_eq_false (Int.not_lt.2 (Int.natCast_nonneg p))

theorem Conversion.Wf.width_lt (h : c.Wf) : c.spec.width < 2 ^ 30 := by
  have hw := h.width
  change c.width.width < 2 ^ 30
  cases hwidth : c.width with
  | omitted => decide
  | literal ds =>
    rw [hwidth] at hw
    exact hw.2
  | star x =>
    rw [hwidth] at hw
    exact hw

theorem Conversion.Wf.precision_lt (h : c.Wf) : c.spec.precision.getD 1 < 2 ^ 30 := by
  have hp := h.precision
  change c.precision.precision.getD 1 < 2 ^ 30
  cases hprec : c.precision with
  | omitted => decide
  | literal ds =>
    rw [hprec] at hp
    exact hp
  | star x =>
    rw [hprec] at hp
    have hp : x.toInt < 2 ^ 30 := hp
    rw [Amount.precision]
    by_cases hneg : x.toInt < 0
    · rw [if_pos hneg]
      decide
    · rw [if_neg hneg]
      change x.toInt.toNat < 2 ^ 30
      omega

theorem length_digits (kind : Kind) (h : n < 2 ^ 64) : 0 < (digits kind n).length ∧ (digits kind n).length ≤ 64 := by
  obtain ⟨hb, -⟩ := Fprintf.kind_base kind
  rw [digits, List.length_map]
  refine ⟨Nat.length_toDigits_pos, (Nat.length_toDigits_le_iff hb (by decide)).2 ?_⟩
  exact Nat.lt_of_lt_of_le h (Nat.pow_le_pow_left hb 64)

theorem digitPad_eq {p : Option Nat} {len : Nat} (hp : p.getD 1 < 2 ^ 30) (hlen : 0 < len ∨ p = some 0) :
    (if (len : Int) < Conversion.precisionField p then int32 (Conversion.precisionField p - len) else 0) =
      ((p.getD 1 - len : Nat) : Int) := by
  cases p with
  | none =>
    have hlen := hlen.resolve_right (by simp)
    have hfield : Conversion.precisionField none = -1 := rfl
    rw [hfield, if_neg (show ¬(len : Int) < -1 by omega), Option.getD_none]
    omega
  | some p =>
    have hfield : Conversion.precisionField (some p) = (p : Int) := rfl
    have hp : p < 2 ^ 30 := hp
    rw [hfield, Option.getD_some]
    by_cases hlt : len < p
    · rw [if_pos (Int.ofNat_lt.2 hlt), int32_eq (by omega) (by omega), Int.ofNat_sub hlt.le]
    · rw [if_neg (fun h => hlt (Int.ofNat_lt.1 h)), Nat.sub_eq_zero_of_le (by omega)]
      rfl

/-- What `format_integer` computes, in the terms of the standard. -/
structure IntegerParts.Are (p : IntegerParts) (s : Spec) (lead number : List Byte) : Prop where
  lead_eq : (if p.hex then [ch '0'] else []) ++ p.marks = lead
  number_eq : padding (ch '0') p.digitPad ++ p.digits = number
  fieldPad_eq : p.fieldPad = ((s.width - (lead.length + number.length) : Nat) : Int)
  useZero_eq : p.useZero = s.zeros

theorem IntegerParts.Are.text_eq {uvalue base : Nat} {negative upper : Bool} {spec : FormatSpec} {lead num : List Byte}
    (h : (integerParts uvalue negative base upper spec).Are s lead num) (hleft : spec.left = s.left)
    (hwidth : s.width < 2 ^ 30) : integerText uvalue negative base upper spec = field s lead num := by
  have hpad : ∀ c : Byte, padding c (integerParts uvalue negative base upper spec).fieldPad =
      List.replicate (s.width - (lead.length + num.length)) c := by
    intro c
    rw [h.fieldPad_eq, padding_ofNat c (by omega)]
  unfold integerText field
  dsimp only
  rw [hpad, hpad, h.useZero_eq, hleft, ← h.lead_eq, ← h.number_eq]
  cases s.left with
  | true => simp [ch, code]
  | false => cases s.zeros <;> simp [ch, code]

theorem lead_eq (c : Conversion) (kind : Kind) {negative : Bool} (n : Nat) (hhex : negative = true → kind.base = 10) :
    (if (integerParts n negative kind.base kind.upper c.parsed).hex then [ch '0'] else []) ++
      (integerParts n negative kind.base kind.upper c.parsed).marks = leadOf c.spec negative n kind := by
  change (if c.spec.alternate && kind.base == 16 && n != 0 then [ch '0'] else []) ++
    ((if negative then [ch '-'] else if c.spec.plus && kind.base == 10 then [ch '+']
      else if c.spec.space && kind.base == 10 then [ch ' '] else []) ++
      if c.spec.alternate && kind.base == 16 && n != 0 then [if kind.upper then ch 'X' else ch 'x'] else []) = _
  cases kind with
  | hex upper =>
    cases negative with
    | true => exact absurd (hhex rfl) (show (16 : Nat) ≠ 10 by decide)
    | false =>
      cases halt : c.spec.alternate
      · simp [Kind.base, leadOf, mark, halt]
      · by_cases hn : n = 0 <;> cases upper <;> simp [Kind.base, Kind.upper, leadOf, mark, halt, hn, ch, code]
  | signed => cases negative <;> simp [Kind.base, leadOf, sign, ch, code]
  | unsigned => cases negative <;> simp [Kind.base, leadOf, sign, ch, code]

theorem length_leadOf (s : Spec) (negative : Bool) (n : Nat) (kind : Kind) : (leadOf s negative n kind).length ≤ 2 := by
  have hsign : (sign s negative).length ≤ 2 := by
    unfold sign
    split_ifs <;> simp
  cases kind with
  | hex upper =>
    change (mark s upper n).length ≤ 2
    unfold mark
    split <;> simp
  | _ => exact hsign

theorem integerParts_fieldPad (n : Nat) (negative : Bool) (base : Nat) (upper : Bool) (spec : FormatSpec)
    {p : IntegerParts} (hp : integerParts n negative base upper spec = p) : p.fieldPad =
      if int32 (p.marks.length + p.digitPad + p.digits.length + if p.hex then 1 else 0) < spec.width then
        int32 (spec.width - int32 (p.marks.length + p.digitPad + p.digits.length + if p.hex then 1 else 0)) else 0 := by
  subst hp
  rfl

theorem integerParts_are (h : c.Wf) (kind : Kind) {negative : Bool} (hhex : negative = true → kind.base = 10)
    (hn : n < 2 ^ 64) : (integerParts n negative kind.base kind.upper c.parsed).Are c.spec
      (leadOf c.spec negative n kind) (number c.spec kind n) := by
  have hdigits : (if n = 0 ∧ c.parsed.precision = 0 then [] else utoaBase n kind.base kind.upper) =
      if n = 0 ∧ c.spec.precision = some 0 then [] else digits kind n := by
    rw [utoaBase_eq kind hn]
    exact if_congr (and_congr_right fun _ => precision_eq_zero _) rfl rfl
  have hlead := lead_eq c kind n hhex
  obtain ⟨hpos, hle⟩ := length_digits kind hn
  have hp := h.precision_lt
  have hw := h.width_lt
  unfold number
  dsimp only
  generalize hds : (if n = 0 ∧ c.spec.precision = some 0 then [] else digits kind n) = ds at hdigits ⊢
  have hlen : (0 < ds.length ∨ c.spec.precision = some 0) ∧ ds.length ≤ 64 := by
    rw [← hds]
    split
    · next hzero => exact ⟨Or.inr hzero.2, Nat.zero_le _⟩
    · exact ⟨Or.inl hpos, hle⟩
  have hpad : (if (ds.length : Int) < c.parsed.precision then int32 (c.parsed.precision - ds.length) else 0) =
      ((c.spec.precision.getD 1 - ds.length : Nat) : Int) := digitPad_eq hp hlen.1
  have hfield := integerParts_fieldPad n negative kind.base kind.upper c.parsed rfl
  have hds : (integerParts n negative kind.base kind.upper c.parsed).digits = ds := hdigits
  have hD : (integerParts n negative kind.base kind.upper c.parsed).digitPad =
      ((c.spec.precision.getD 1 - ds.length : Nat) : Int) := by
    rw [← hpad, ← hdigits]
    rfl
  have huse : (integerParts n negative kind.base kind.upper c.parsed).useZero = c.spec.zeros := by
    rw [Spec.zeros, ← precision_neg]
    rfl
  have hleadlen := length_leadOf c.spec negative n kind
  have hmarks := congrArg List.length hlead
  rw [List.length_append] at hmarks
  generalize integerParts n negative kind.base kind.upper c.parsed = p at *
  refine ⟨hlead, ?_, ?_, ?_⟩
  · rw [hds, hD, padding_ofNat _ (by omega)]
    rfl
  · have hwidth : c.parsed.width = (c.spec.width : Int) := rfl
    rw [hds, hD, hwidth] at hfield
    rw [hfield, List.length_append, List.length_replicate]
    have hmark : ((if p.hex then [ch '0'] else []).length : Int) = if p.hex then 1 else 0 := by
      cases p.hex <;> rfl
    generalize (if p.hex then (1 : Int) else 0) = t at *
    rw [@int32_eq (_ + _ + _ + t) (by omega) (by omega)]
    split
    · rw [int32_eq (by omega) (by omega)]
      omega
    · omega
  · exact huse

theorem integerText_eq (h : c.Wf) (kind : Kind) {negative : Bool} (hhex : negative = true → kind.base = 10)
    (hn : n < 2 ^ 64) : integerText n negative kind.base kind.upper c.parsed =
      field c.spec (leadOf c.spec negative n kind) (number c.spec kind n) :=
  (integerParts_are h kind hhex hn).text_eq rfl h.width_lt

/-! ## Values -/

def LengthModifier.bits (a : Arch) : LengthModifier → Nat
  | hh => 8
  | h => 16
  | none => 32
  | ll => 64
  | _ => a.bits

def Arg.raw : Arg → Nat
  | int x => x.toNat
  | word x => x
  | longLong x => x.toNat
  | _ => 0

def Arg.value (a : Arch) (kind : Kind) (length : LengthModifier) (x : Arg) : Int :=
  match kind with
  | .signed => Int.bmod x.raw (2 ^ length.bits a)
  | _ => ((x.raw % 2 ^ length.bits a : Nat) : Int)

/-- The argument is a value of the type that the length modifier names: with `hh` and `h` one of 8 and 16 bits, and with
`z` and `t` of 32 bits not one whose sign the code takes the other way. -/
def Arg.InType (a : Arch) (kind : Kind) : LengthModifier → Arg → Prop
  | .hh, .int x => if kind = .signed then -2 ^ 7 ≤ x.toInt ∧ x.toInt < 2 ^ 7 else x.toNat < 2 ^ 8
  | .h, .int x => if kind = .signed then -2 ^ 15 ≤ x.toInt ∧ x.toInt < 2 ^ 15 else x.toNat < 2 ^ 16
  | .z, .word x => kind = .signed → a = .x86 → a.word x < 2 ^ 31
  | .t, .word x => kind ≠ .signed → a = .x86 → a.word x < 2 ^ 31
  | _, _ => True

theorem bmod_cases (n : Int) (k : Nat) : Int.bmod n (2 ^ (k + 1)) =
    if n % 2 ^ (k + 1) < 2 ^ k then n % 2 ^ (k + 1) else n % 2 ^ (k + 1) - 2 ^ (k + 1) := by
  have hhalf : (((2 ^ (k + 1) : Nat) : Int) + 1) / 2 = 2 ^ k := by
    push_cast
    rw [pow_succ]
    omega
  rw [Int.bmod, hhalf]
  push_cast
  rfl

theorem signed_eq (a : Arch) (x : Nat) : a.signed x = Int.bmod x (2 ^ a.bits) := by
  obtain ⟨k, hk⟩ : ∃ k, a.bits = k + 1 := by cases a <;> exact ⟨_, rfl⟩
  unfold Arch.signed Arch.word
  rw [hk, bmod_cases, Nat.add_sub_cancel]
  have hcast : ((x % 2 ^ (k + 1) : Nat) : Int) = (x : Int) % 2 ^ (k + 1) := by push_cast; rfl
  rw [hcast]
  refine if_congr ?_ rfl rfl
  rw [← hcast]
  exact_mod_cast Iff.rfl

theorem toInt_eq_bmod (x : BitVec 32) (k : Nat) (hk : k < 32) :
    x.toInt = Int.bmod x.toNat (2 ^ (k + 1)) ↔ -2 ^ k ≤ x.toInt ∧ x.toInt < 2 ^ k := by
  have hdvd : 2 ^ (k + 1) ∣ 2 ^ 32 := Nat.pow_dvd_pow 2 hk
  have hpow : ((2 ^ (k + 1) : Nat) : Int) = 2 * 2 ^ k := by
    push_cast
    rw [pow_succ, mul_comm]
  have hnarrow : Int.bmod x.toNat (2 ^ (k + 1)) = Int.bmod x.toInt (2 ^ (k + 1)) := by
    rw [BitVec.toInt_eq_toNat_bmod, Int.bmod_bmod_of_dvd hdvd]
  rw [hnarrow]
  constructor
  · intro h
    have hle := @Int.le_bmod x.toInt (2 ^ (k + 1)) (Nat.two_pow_pos _)
    have hlt := @Int.bmod_lt x.toInt (2 ^ (k + 1)) (Nat.two_pow_pos _)
    omega
  · rintro ⟨hle, hlt⟩
    exact (Int.bmod_eq_of_le (by omega) (by omega)).symm

theorem word_lt (a : Arch) (x : Nat) : a.word x < 2 ^ a.bits := Nat.mod_lt _ (Nat.two_pow_pos _)

theorem signed_bounds (a : Arch) (x : Nat) : -2 ^ 63 ≤ a.signed x ∧ a.signed x < 2 ^ 63 := by
  have hlt := word_lt a x
  unfold Arch.signed
  cases a
  · have hlt : Arch.x86.word x < 2 ^ 32 := hlt
    change -2 ^ 63 ≤ (if Arch.x86.word x < 2 ^ 31 then (Arch.x86.word x : Int) else Arch.x86.word x - 2 ^ 32) ∧
      (if Arch.x86.word x < 2 ^ 31 then (Arch.x86.word x : Int) else Arch.x86.word x - 2 ^ 32) < 2 ^ 63
    split <;> omega
  · have hlt : Arch.x64.word x < 2 ^ 64 := hlt
    change -2 ^ 63 ≤ (if Arch.x64.word x < 2 ^ 63 then (Arch.x64.word x : Int) else Arch.x64.word x - 2 ^ 64) ∧
      (if Arch.x64.word x < 2 ^ 63 then (Arch.x64.word x : Int) else Arch.x64.word x - 2 ^ 64) < 2 ^ 63
    split <;> omega

theorem signed_emod (a : Arch) (x : Nat) :
    (a.signed x % 2 ^ 64 = a.word x ↔ (a = .x86 → a.word x < 2 ^ 31)) ∧
      (Int.bmod (a.word x) (2 ^ 64) = a.signed x ↔ (a = .x86 → a.word x < 2 ^ 31)) := by
  have hlt := word_lt a x
  have hbmod := bmod_cases (a.word x) 63
  unfold Arch.signed
  cases a with
  | x86 =>
    have hlt : Arch.x86.word x < 2 ^ 32 := hlt
    rw [hbmod]
    change ((if Arch.x86.word x < 2 ^ 31 then (Arch.x86.word x : Int) else Arch.x86.word x - 2 ^ 32) % 2 ^ 64 = _ ↔ _) ∧
      (_ = (if Arch.x86.word x < 2 ^ 31 then (Arch.x86.word x : Int) else Arch.x86.word x - 2 ^ 32) ↔ _)
    simp only [true_imp_iff]
    generalize Arch.x86.word x = w at *
    constructor <;> split_ifs <;> omega
  | x64 =>
    have hlt : Arch.x64.word x < 2 ^ 64 := hlt
    rw [hbmod]
    change ((if Arch.x64.word x < 2 ^ 63 then (Arch.x64.word x : Int) else Arch.x64.word x - 2 ^ 64) % 2 ^ 64 = _ ↔ _) ∧
      (_ = (if Arch.x64.word x < 2 ^ 63 then (Arch.x64.word x : Int) else Arch.x64.word x - 2 ^ 64) ↔ _)
    generalize Arch.x64.word x = w at *
    refine ⟨iff_of_true ?_ nofun, iff_of_true ?_ nofun⟩ <;> split_ifs <;> omega

theorem fetchSigned_value {length : LengthModifier} (h : x.OfLength length) : ∃ v, fetchSigned a length [x] = .ok (v, []) ∧
    (-2 ^ 63 ≤ v ∧ v < 2 ^ 63) ∧ (v = x.value a .signed length ↔ x.InType a .signed length) := by
  cases x with
  | int x =>
    have hlt := x.toInt_lt
    have hle := x.le_toInt
    rcases h with rfl | rfl | rfl
    · exact ⟨_, rfl, by omega, iff_of_true (BitVec.toInt_eq_toNat_bmod x) trivial⟩
    · exact ⟨_, rfl, by omega, toInt_eq_bmod x 7 (by decide)⟩
    · exact ⟨_, rfl, by omega, toInt_eq_bmod x 15 (by decide)⟩
  | word x =>
    rcases h with rfl | rfl | rfl
    · exact ⟨_, rfl, signed_bounds a x, iff_of_true (signed_eq a x) trivial⟩
    · refine ⟨_, rfl, ?_, ?_⟩
      · have hle := @Int.le_bmod (a.word x) (2 ^ 64) (Nat.two_pow_pos _)
        have hlt := @Int.bmod_lt (a.word x) (2 ^ 64) (Nat.two_pow_pos _)
        omega
      · change Int.bmod (a.word x) (2 ^ 64) = Int.bmod x (2 ^ a.bits) ↔ (Kind.signed = .signed → a = .x86 → _)
        rw [← signed_eq, (signed_emod a x).2]
        exact ⟨fun h _ => h, fun h => h rfl⟩
    · exact ⟨_, rfl, signed_bounds a x, iff_of_true (signed_eq a x) (fun hne => absurd rfl hne)⟩
  | longLong x =>
    cases h
    have hlt := x.toInt_lt
    have hle := x.le_toInt
    exact ⟨_, rfl, by omega, iff_of_true (BitVec.toInt_eq_toNat_bmod x) trivial⟩
  | string bytes => cases h
  | pointer x => cases h

theorem fetchUnsigned_value {length : LengthModifier} (h : x.OfLength length) (hkind : kind ≠ .signed) :
    ∃ v, fetchUnsigned a length [x] = .ok (v, []) ∧ v < 2 ^ 64 ∧
      ((v : Int) = x.value a kind length ↔ x.InType a kind length) := by
  have hvalue : x.value a kind length = ((x.raw % 2 ^ length.bits a : Nat) : Int) := by
    cases kind with
    | signed => exact absurd rfl hkind
    | _ => rfl
  rw [hvalue]
  have hbits : 2 ^ a.bits ≤ 2 ^ 64 := by cases a <;> decide
  cases x with
  | int x =>
    have hlt := x.isLt
    have hnarrow : ∀ k : Nat, ((x.toNat : Int) = ((x.toNat % 2 ^ k : Nat) : Int) ↔ x.toNat < 2 ^ k) := by
      intro k
      rw [Int.ofNat_inj]
      exact ⟨fun he => he ▸ Nat.mod_lt _ (Nat.two_pow_pos k), fun hlt => (Nat.mod_eq_of_lt hlt).symm⟩
    rcases h with rfl | rfl | rfl
    · exact ⟨_, rfl, by omega, iff_of_true ((hnarrow 32).2 hlt) trivial⟩
    · exact ⟨_, rfl, by omega, by rw [Arg.InType, if_neg hkind]; exact hnarrow 8⟩
    · exact ⟨_, rfl, by omega, by rw [Arg.InType, if_neg hkind]; exact hnarrow 16⟩
  | word x =>
    have hlt := word_lt a x
    rcases h with rfl | rfl | rfl
    · exact ⟨_, rfl, by omega, iff_of_true rfl trivial⟩
    · exact ⟨_, rfl, by omega, iff_of_true rfl (fun he => absurd he hkind)⟩
    · refine ⟨_, rfl, by omega, ?_⟩
      rw [Int.toNat_of_nonneg (Int.emod_nonneg _ (by decide))]
      change a.signed x % 2 ^ 64 = a.word x ↔ _
      rw [(signed_emod a x).1]
      exact ⟨fun h _ => h, fun h => h hkind⟩
  | longLong x =>
    cases h
    exact ⟨_, rfl, x.isLt, iff_of_true (by rw [Arg.raw, LengthModifier.bits, Nat.mod_eq_of_lt x.isLt]) trivial⟩
  | string bytes => cases h
  | pointer x => cases h

/-! ## A conversion -/

/-- In every buffer with room for it the call stores `out` with its zero. -/
def Prints (a : Arch) (fmt : List Byte) (args : List Arg) (out : List Byte) : Prop :=
  ∀ (size : Nat) (buf : Mem), out.length < size → size < 2 ^ 31 →
    ∃ n buf', kvsnprintf a buf size fmt args = .ok (n, buf') ∧ Printed buf buf' size out n

theorem prints_iff_eq {fmt : List Byte} {args : List Arg} (h : formatText a (fmt.length + 1) fmt args = .ok o)
    (ho : o.length + 1 < 2 ^ 31) (hout : out.length + 1 < 2 ^ 31) : Prints a fmt args out ↔ o = out := by
  constructor
  · intro hprints
    let size := max o.length out.length + 1
    have hsize : size < 2 ^ 31 := by omega
    obtain ⟨n, buf', hrun, hprinted⟩ := hprints size (fun _ => 0) (by omega) hsize
    obtain ⟨n', buf'', hrun', hprinted'⟩ : ∃ n buf', kvsnprintf a (fun _ => 0) size fmt args = .ok (n, buf') ∧
        Printed (fun _ => 0) buf' size o n := kvsnprintf_printed hsize h
    rw [hrun'] at hrun
    cases hrun
    have hcount := hprinted.count
    have hcount' := hprinted'.count
    have hlen : o.length = out.length := by omega
    refine List.ext_getElem hlen fun i hi hi' => ?_
    have hc := hprinted.chars i (by omega)
    rw [hprinted'.chars i (by omega)] at hc
    simpa [ofList, hi, hi'] using hc
  · rintro rfl size buf hlt hsize
    exact kvsnprintf_printed hsize h

theorem oneText_signed {v : Int} (hkind : c.specifier.kind = .signed)
    (hfetch : fetchSigned a c.length [x] = .ok (v, [])) : oneText a c.parsed [x] =
      .ok (integerText (magnitude v) (decide (v < 0)) 10 false c.parsed, []) := by
  have hs : c.parsed.specifier = c.specifier.char := rfl
  have hl : c.parsed.length = c.length := rfl
  unfold oneText
  rw [hs, hl, hfetch]
  cases hspec : c.specifier with
  | d => rfl
  | i => rfl
  | _ => exact absurd hkind (by rw [hspec]; nofun)

theorem oneText_unsigned (hkind : c.specifier.kind ≠ .signed)
    (hfetch : fetchUnsigned a c.length [x] = .ok (n, [])) : oneText a c.parsed [x] =
      .ok (integerText n false c.specifier.kind.base c.specifier.kind.upper c.parsed, []) := by
  have hs : c.parsed.specifier = c.specifier.char := rfl
  have hl : c.parsed.length = c.length := rfl
  unfold oneText
  rw [hs, hl, hfetch]
  cases hspec : c.specifier with
  | d => exact absurd (by rw [hspec]; rfl) hkind
  | i => exact absurd (by rw [hspec]; rfl) hkind
  | _ => rfl

theorem magnitude_eq {v : Int} (hle : -2 ^ 63 ≤ v) (hlt : v < 2 ^ 63) : magnitude v = v.natAbs := by
  unfold magnitude
  dsimp only
  split <;> omega

/-- The text that `kvsnprintf` prints of a value. -/
def codeText (c : Conversion) (v : Int) : List Byte :=
  field c.spec (leadOf c.spec (decide (v < 0)) v.natAbs c.specifier.kind) (number c.spec c.specifier.kind v.natAbs)

theorem formatText_conversion (h : c.Wf) (hx : x.OfLength c.length) :
    ∃ v, formatText a (c.chars.length + 1) c.chars (c.args x) = .ok (codeText c v) ∧ v.natAbs < 2 ^ 64 ∧
      (c.specifier.kind = .signed ∨ 0 ≤ v) ∧ (v = x.value a c.specifier.kind c.length ↔ x.InType a c.specifier.kind c.length) := by
  by_cases hkind : c.specifier.kind = .signed
  · obtain ⟨v, hfetch, ⟨hle, hlt⟩, hvalue⟩ := fetchSigned_value (a := a) hx
    have habs : v.natAbs < 2 ^ 64 := by omega
    have htext := @integerText_eq c v.natAbs h .signed (decide (v < 0)) (fun _ => rfl) habs
    refine ⟨v, formatText_chars h ?_, habs, Or.inl hkind, by rw [hkind]; exact hvalue⟩
    rw [oneText_signed hkind hfetch, magnitude_eq hle hlt, codeText, hkind]
    exact congrArg (fun t => Except.ok (t, [])) htext
  · obtain ⟨v, hfetch, hlt, hvalue⟩ := fetchUnsigned_value (a := a) hx hkind
    have htext := @integerText_eq c v h c.specifier.kind false nofun hlt
    refine ⟨v, formatText_chars h ?_, hlt, Or.inr (Int.natCast_nonneg v), hvalue⟩
    rw [oneText_unsigned hkind hfetch, htext, codeText]
    rfl

theorem bits_le (a : Arch) (length : LengthModifier) : length.bits a ≤ 64 := by
  cases a <;> cases length <;> decide

theorem value_nonneg {length : LengthModifier} (hkind : kind ≠ .signed) : 0 ≤ x.value a kind length := by
  cases kind with
  | signed => exact absurd rfl hkind
  | _ => exact Int.natCast_nonneg _

theorem value_lt (a : Arch) (kind : Kind) (length : LengthModifier) (x : Arg) :
    (x.value a kind length).natAbs < 2 ^ 64 := by
  have hpow : 2 ^ length.bits a ≤ 2 ^ 64 := Nat.pow_le_pow_right (by decide) (bits_le a length)
  have hmod : x.raw % 2 ^ length.bits a < 2 ^ length.bits a := Nat.mod_lt _ (Nat.two_pow_pos _)
  cases kind with
  | signed =>
    have hle := @Int.le_bmod x.raw (2 ^ length.bits a) (Nat.two_pow_pos _)
    have hlt := @Int.bmod_lt x.raw (2 ^ length.bits a) (Nat.two_pow_pos _)
    change (Int.bmod x.raw (2 ^ length.bits a)).natAbs < 2 ^ 64
    generalize 2 ^ length.bits a = m at *
    omega
  | _ =>
    change (((x.raw % 2 ^ length.bits a : Nat) : Int)).natAbs < 2 ^ 64
    rw [Int.natAbs_natCast]
    omega

theorem length_field_lt (h : c.Wf) {l : List Byte} (hl : l.length ≤ 2) (hn : n < 2 ^ 64) :
    (field c.spec l (number c.spec kind n)).length + 1 < 2 ^ 31 := by
  have hw := h.width_lt
  have hp := h.precision_lt
  have hnum := @Fprintf.length_number_le n kind c.spec 64 (by decide)
    (Nat.lt_of_lt_of_le hn (Nat.pow_le_pow_left (Fprintf.kind_base kind).1 64))
  rw [Fprintf.length_field]
  omega

theorem length_lead_le (s : Spec) (kind : Kind) (v : Int) : (Fprintf.lead s kind v).length ≤ 2 := by
  cases kind with
  | signed => exact length_leadOf s _ v.natAbs .signed
  | unsigned => exact Nat.zero_le _
  | hex upper => exact length_leadOf s false v.natAbs (.hex upper)

/-- A sign or blank in front of an unsigned number is none: there is no `+`, and for the blank of the flag there is one
less of the field, or the field has only blanks. -/
def Conversion.LeadHidden (c : Conversion) (n : Nat) : Prop :=
  c.spec.plus = false ∧ (c.spec.space = true →
    (c.spec.left = false ∧ c.spec.zeros = false ∧ (number c.spec .unsigned n).length < c.spec.width) ∨
      (number c.spec .unsigned n = [] ∧ 0 < c.spec.width))

theorem number_ne_nil (h : s.zeros = true) (kind : Kind) (hn : n < 2 ^ 64) : number s kind n ≠ [] := by
  have hprec : s.precision = none := by
    simp only [Spec.zeros, Bool.and_eq_true, Option.isNone_iff_eq_none] at h
    exact h.2
  have hpos := (length_digits kind hn).1
  have hds : (if n = 0 ∧ (none : Option Nat) = some 0 then [] else digits kind n) = digits kind n := if_neg nofun
  intro hnil
  rw [number, hprec, hds] at hnil
  rw [(List.append_eq_nil_iff.1 hnil).2] at hpos
  exact absurd hpos (by decide)

theorem field_sign (c : Conversion) (hn : n < 2 ^ 64) :
    field c.spec (sign c.spec false) (number c.spec .unsigned n) = field c.spec [] (number c.spec .unsigned n) ↔
      c.LeadHidden n := by
  unfold Conversion.LeadHidden
  cases hplus : c.spec.plus with
  | true =>
    refine iff_of_false (fun he => ?_) (fun h => absurd h.1 (by decide))
    have hmem : code '+' ∈ field c.spec (sign c.spec false) (number c.spec .unsigned n) :=
      (Fprintf.mem_field (by decide) (by decide)).2 (by simp [sign, hplus])
    rw [he, Fprintf.mem_field (by decide) (by decide)] at hmem
    cases hmem
  | false =>
    cases hspace : c.spec.space with
    | false => exact iff_of_true (by simp [sign, hplus, hspace]) ⟨rfl, fun h => by cases h⟩
    | true =>
      have hsign : sign c.spec false = [code ' '] := by simp [sign, hplus, hspace]
      rw [hsign, Fprintf.field_blank (fun hz => number_ne_nil hz .unsigned hn)]
      simp

theorem codeText_eq {v value : Int} (hv : v.natAbs < 2 ^ 64)
    (hsigned : c.specifier.kind = .signed ∨ 0 ≤ v ∧ 0 ≤ value) :
    codeText c v = Fprintf.text c.spec c.specifier.kind value ↔
      v = value ∧ (c.specifier.kind = .unsigned → c.LeadHidden value.natAbs) := by
  cases hkind : c.specifier.kind with
  | signed =>
    rw [codeText, hkind]
    exact (Fprintf.text_inj (Or.inl rfl)).trans ⟨fun h => ⟨h, nofun⟩, fun h => h.1⟩
  | hex upper =>
    rw [codeText, hkind]
    rw [hkind] at hsigned
    exact (Fprintf.text_inj hsigned).trans ⟨fun h => ⟨h, nofun⟩, fun h => h.1⟩
  | unsigned =>
    rw [hkind] at hsigned
    obtain ⟨hv0, hvalue0⟩ := hsigned.resolve_left nofun
    have hneg : decide (v < 0) = false := decide_eq_false (Int.not_lt.2 hv0)
    have hcode : codeText c v = field c.spec (sign c.spec false) (number c.spec .unsigned v.natAbs) := by
      rw [codeText, hkind, hneg]
      rfl
    have hfield := field_sign c hv
    have hnil : Fprintf.Lead [] := fun c hc => absurd hc List.not_mem_nil
    rw [hcode]
    change _ = field c.spec [] (number c.spec .unsigned value.natAbs) ↔ _
    constructor
    · intro he
      have hread := congrArg (Fprintf.readFrom Kind.unsigned.base 0) he
      rw [Fprintf.readFrom_field (Fprintf.lead_sign c.spec false), Fprintf.readFrom_field hnil] at hread
      obtain rfl : v = value := by omega
      exact ⟨rfl, fun _ => hfield.1 he⟩
    · rintro ⟨rfl, hhidden⟩
      exact hfield.2 (hhidden rfl)

/-- **What is printed of an integer conversion is what the C standard says** exactly if the argument is a value of the
type that the length modifier names, and `u` has no sign or blank that shows. -/
theorem prints_iff (a : Arch) (c : Conversion) (x : Arg) (h : c.Wf) (hx : x.OfLength c.length) :
    Prints a c.chars (c.args x) (Fprintf.text c.spec c.specifier.kind (x.value a c.specifier.kind c.length)) ↔
      x.InType a c.specifier.kind c.length ∧
        (c.specifier.kind = .unsigned → c.LeadHidden (x.value a c.specifier.kind c.length).natAbs) := by
  obtain ⟨v, htext, hv, hsigned, hvalue⟩ := formatText_conversion (a := a) h hx
  have hcode : (codeText c v).length + 1 < 2 ^ 31 := length_field_lt h (length_leadOf c.spec _ _ _) hv
  have hstandard : (Fprintf.text c.spec c.specifier.kind (x.value a c.specifier.kind c.length)).length + 1 < 2 ^ 31 :=
    length_field_lt h (length_lead_le c.spec c.specifier.kind _) (value_lt a c.specifier.kind c.length x)
  have hnonneg : c.specifier.kind = .signed ∨ 0 ≤ v ∧ 0 ≤ x.value a c.specifier.kind c.length := by
    by_cases hkind : c.specifier.kind = .signed
    · exact Or.inl hkind
    · exact Or.inr ⟨hsigned.resolve_left hkind, value_nonneg hkind⟩
  rw [prints_iff_eq htext hcode hstandard, codeText_eq hv hnonneg, hvalue]

/-- `%-8.3d` of −42. -/
theorem prints_iff_negative :
    Prints .x86 ("%-8.3d".toList.map ch) [.int (-42)] ("-042    ".toList.map ch) := by
  have hwf : Conversion.Wf ⟨[.minus], .literal [8], .literal [3], .none, .d⟩ :=
    ⟨⟨⟨8, [], rfl, by decide⟩, by decide⟩, show decimalFrom 0 [3] < 2 ^ 30 by decide⟩
  have h := (prints_iff .x86 ⟨[.minus], .literal [8], .literal [3], .none, .d⟩ (.int (-42)) hwf (Or.inl rfl)).2
    ⟨trivial, nofun⟩
  have htext : Fprintf.text (Conversion.spec ⟨[.minus], .literal [8], .literal [3], .none, .d⟩) .signed
      (Arg.value .x86 .signed .none (.int (-42))) = "-042    ".toList.map ch := by decide
  rw [← htext]
  exact h

/-- **Not every conversion is printed as the standard says**: `%+u` of 5 prints a sign. -/
theorem not_prints : ¬∀ (a : Arch) (c : Conversion) (x : Arg), c.Wf → x.OfLength c.length →
    Prints a c.chars (c.args x) (Fprintf.text c.spec c.specifier.kind (x.value a c.specifier.kind c.length)) := by
  intro hall
  have h := hall .x86 ⟨[.plus], .omitted, .omitted, .none, .u⟩ (.int 5) ⟨trivial, trivial⟩ (Or.inl rfl)
  have hcode : formatText .x86 4 ("%+u".toList.map ch) [.int 5] = .ok ("+5".toList.map ch) := rfl
  have he := (prints_iff_eq hcode (by decide) (by decide)).1 h
  exact absurd he (by decide)

end Screen
end AmitX
