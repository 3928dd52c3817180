import AmitX.Exec.AsmParser
import Mathlib.Algebra.BigOperators.Group.List.Basic
import Mathlib.Data.List.Induction
/-!
# DbData — the bytes of a `db` directive (`amx-asm.py`)

The parser keeps the texts of the operands only, and `assemble_pass1` takes a text of digits for a number and any other
for a string.  A hexadecimal number gives its text, and a string of digits one byte.
-/
namespace AmitX
namespace Exec

open Bytes

/-- What is known of Python's `str.isdigit`, `int` and `str.encode("ascii")` on texts of ASCII characters. -/
structure AsciiPython (py : Python) : Prop where
  isdigit : ∀ cs : List Char, (∀ c ∈ cs, c.toNat < 128) →
    (py.isdigit (String.ofList cs) = true ↔ cs ≠ [] ∧ ∀ c ∈ cs, c.isDigit = true)
  int : ∀ ds : List Char, ds ≠ [] → (∀ c ∈ ds, c.isDigit = true) →
    py.int (String.ofList ds) = some (ds.foldl (fun v c => 10 * v + (c.toNat - 48)) 0)
  encodeAscii : ∀ cs : List Char, (∀ c ∈ cs, c.toNat < 128) →
    py.encodeAscii (String.ofList cs) = some (cs.map (fun c => BitVec.ofNat 8 c.toNat))

def decimalValue (ds : List Char) : Nat := ds.foldl (fun v c => 10 * v + (c.toNat - 48)) 0

def hexDigit (c : Char) : Nat :=
  if c.isDigit then c.toNat - 48 else if 97 ≤ c.toNat then c.toNat - 87 else c.toNat - 55

def hexValue (ds : List Char) : Nat := ds.foldl (fun v c => 16 * v + hexDigit c) 0

/-- An operand as it is written: a `NUMBER` of decimal digits, or of `0x` or `0X` and hexadecimal ones, or a `STRING`. -/
inductive DbOperand
  | decimal (ds : List Char)
  | hex (x : Char) (ds : List Char)
  | string (s : List Char)

namespace DbOperand

def Wf : DbOperand → Prop
  | decimal ds => ds ≠ [] ∧ (∀ c ∈ ds, c.isDigit = true) ∧ decimalValue ds < 256
  | hex x ds => (x = 'x' ∨ x = 'X') ∧ ds ≠ [] ∧ (∀ c ∈ ds, isHex c = true) ∧ hexValue ds < 256
  | string s => ∀ c ∈ s, c.toNat < 128

def text : DbOperand → List Char
  | decimal ds => ds
  | hex x ds => '0' :: x :: ds
  | string s => s

def token (o : DbOperand) : Token :=
  match o with
  | string s => ⟨.string, String.ofList s⟩
  | o => ⟨.number, String.ofList o.text⟩

/-- The bytes that are written: the number's value, or the string's characters. -/
def bytes : DbOperand → List Byte
  | decimal ds => [BitVec.ofNat 8 (decimalValue ds)]
  | hex _ ds => [BitVec.ofNat 8 (hexValue ds)]
  | string s => s.map (fun c => BitVec.ofNat 8 c.toNat)

def Misread : DbOperand → Prop
  | decimal _ => False
  | hex _ _ => True
  | string s => s ≠ [] ∧ ∀ c ∈ s, c.isDigit = true

end DbOperand

def dbTokens (ops : List DbOperand) : List Token := (ops.map DbOperand.token).intersperse ⟨.comma, ","⟩

/-- The directive appends the bytes that are written, and its label and one behind it are where the next byte is. -/
def EmitsWritten (py : Python) (p : Pass1) (label : Option String) (ops : List DbOperand) : Prop :=
  ∃ p', pass1Step py p (.directive "db" (parseOperands (dbTokens ops)).1 label) = some p' ∧
    p'.text.data = p.text.data ++ ops.flatMap DbOperand.bytes ∧
    (∀ name, label = some name → p'.text.symbols name = some p.text.data.length) ∧
    ∀ name, ∃ p'', pass1Step py p' (.label name) = some p'' ∧ p''.text.symbols name = some p'.text.data.length

/-! ## Weights -/

def digitWeight (d : Nat) : Int := [0, 0, -3, -1, -6, -4, 0, -3, 5, 0].getD d 20

/-- Weights of bytes under which every operand that is misread weighs more than it should. -/
def weight (b : Nat) : Int :=
  if 48 ≤ b ∧ b < 58 then digitWeight (b - 48) else if b = 120 ∨ b = 88 then 100 else 20

def weights (bytes : List Byte) : Int := (bytes.map (fun b => weight b.toNat)).sum

def decimalWeight (v : Nat) : Int := digitWeight (v / 100) + digitWeight (v / 10 % 10) + digitWeight (v % 10)

def hexWeight (v : Nat) : Int := digitWeight (v / 16) + digitWeight (v % 16)

section Weights

variable {c x : Char} {ds s : List Char} {bytes bytes' : List Byte}

theorem weights_append : weights (bytes ++ bytes') = weights bytes + weights bytes' := by
  simp [weights]

theorem isDigit_iff : c.isDigit = true ↔ 48 ≤ c.toNat ∧ c.toNat < 58 := by
  simp only [Char.isDigit, Bool.and_eq_true, decide_eq_true_eq, ge_iff_le, UInt32.le_iff_toNat_le]
  exact and_congr_right fun _ => Nat.lt_succ_iff.symm

theorem mem_hexDigits (h : isHex c = true) : c ∈ "0123456789abcdefABCDEF".toList := by
  simpa [isHex] using h

theorem weight_hex (h : isHex c = true) : c.toNat < 128 ∧ weight c.toNat = digitWeight (hexDigit c) ∧ hexDigit c < 16 := by
  have hall : "0123456789abcdefABCDEF".toList.all (fun c => decide
      (c.toNat < 128 ∧ weight c.toNat = digitWeight (hexDigit c) ∧ hexDigit c < 16)) = true := by decide
  exact of_decide_eq_true (List.all_eq_true.1 hall c (mem_hexDigits h))

theorem weights_text (h : ∀ c ∈ s, c.toNat < 128) :
    weights (s.map (fun c => BitVec.ofNat 8 c.toNat)) = (s.map (fun c => weight c.toNat)).sum := by
  rw [weights, List.map_map]
  refine congrArg List.sum (List.map_congr_left fun c hc => ?_)
  have hlt := h c hc
  simp only [Function.comp_apply, BitVec.toNat_ofNat]
  rw [Nat.mod_eq_of_lt (by omega)]

theorem decimalWeight_step : ∀ v < 26, ∀ d < 10, decimalWeight (10 * v + d) = decimalWeight v + digitWeight d := by
  decide

theorem hexWeight_step : ∀ v < 16, ∀ d < 16, hexWeight (16 * v + d) = hexWeight v + digitWeight d := by
  decide

theorem weight_decimal (hds : ∀ c ∈ ds, c.isDigit = true) (hlt : decimalValue ds < 256) :
    (ds.map (fun c => weight c.toNat)).sum = decimalWeight (decimalValue ds) := by
  induction ds using List.reverseRecOn with
  | nil => decide
  | append_singleton ds c ih =>
    have hc := isDigit_iff.1 (hds c (by simp))
    have hvalue : decimalValue (ds ++ [c]) = 10 * decimalValue ds + (c.toNat - 48) := by
      simp [decimalValue, List.foldl_append]
    rw [hvalue] at hlt ⊢
    have hweight : weight c.toNat = digitWeight (c.toNat - 48) := if_pos hc
    rw [decimalWeight_step _ (by omega) _ (by omega), List.map_append, List.sum_append,
      ih (fun c hc => hds c (by simp [hc])) (by omega)]
    simp [hweight]

theorem weight_hexadecimal (hds : ∀ c ∈ ds, isHex c = true) (hlt : hexValue ds < 256) :
    (ds.map (fun c => weight c.toNat)).sum = hexWeight (hexValue ds) := by
  induction ds using List.reverseRecOn with
  | nil => decide
  | append_singleton ds c ih =>
    obtain ⟨-, hweight, hdigit⟩ := weight_hex (hds c (by simp))
    have hvalue : hexValue (ds ++ [c]) = 16 * hexValue ds + hexDigit c := by
      simp [hexValue, List.foldl_append]
    rw [hvalue] at hlt ⊢
    rw [hexWeight_step _ (by omega) _ hdigit, List.map_append, List.sum_append,
      ih (fun c hc => hds c (by simp [hc])) (by omega)]
    simp [hweight]

theorem weight_between : ∀ v < 256, decimalWeight v < weight v ∧ weight v < 100 + hexWeight v := by decide +kernel

end Weights

/-! ## Operands -/

section Operands

variable {py : Python} {o : DbOperand} {ops : List DbOperand} {data : List Byte} {p : Pass1} {label : Option String}

theorem parseOperands_tokens (ops : List DbOperand) :
    (parseOperands (dbTokens ops)).1 = ops.map (fun o => String.ofList o.text) := by
  have htoken : ∀ o : DbOperand, o.token.kind ≠ .newline ∧ o.token.kind ≠ .comma ∧
      o.token.value = String.ofList o.text := fun o => by
    cases o <;> exact ⟨by simp [DbOperand.token], by simp [DbOperand.token], rfl⟩
  induction ops with
  | nil => rfl
  | cons o ops ih =>
    obtain ⟨hnewline, hcomma, hvalue⟩ := htoken o
    cases ops with
    | nil =>
      show (parseOperands [o.token]).1 = [String.ofList o.text]
      rw [parseOperands, if_neg hnewline, if_neg hcomma, hvalue]
      rfl
    | cons o' ops =>
      have htokens : dbTokens (o :: o' :: ops) = o.token :: ⟨.comma, ","⟩ :: dbTokens (o' :: ops) := rfl
      rw [htokens, parseOperands, if_neg hnewline, if_neg hcomma, hvalue, parseOperands, if_neg (by simp), if_pos rfl, ih]
      rfl

theorem DbOperand.Wf.ascii (h : o.Wf) : ∀ c ∈ o.text, c.toNat < 128 := by
  cases o with
  | decimal ds => exact fun c hc => by have := isDigit_iff.1 (h.2.1 c hc); omega
  | string s => exact h
  | hex x ds =>
    refine List.forall_mem_cons.2 ⟨by decide, List.forall_mem_cons.2 ⟨?_, fun c hc => (weight_hex (h.2.2.1 c hc)).1⟩⟩
    rcases h.1 with rfl | rfl <;> decide

theorem dbBytes_of_digits (hpy : AsciiPython py) {ds : List Char} (hne : ds ≠ []) (hds : ∀ c ∈ ds, c.isDigit = true) :
    dbBytes py (String.ofList ds) =
      if decimalValue ds < 256 then some [BitVec.ofNat 8 (decimalValue ds)] else none := by
  have hascii : ∀ c ∈ ds, c.toNat < 128 := fun c hc => by
    have := isDigit_iff.1 (hds c hc)
    omega
  rw [dbBytes, if_pos ((hpy.isdigit ds hascii).2 ⟨hne, hds⟩), hpy.int ds hne hds]
  rfl

theorem dbBytes_of_text (hpy : AsciiPython py) {s : List Char} (hs : ∀ c ∈ s, c.toNat < 128)
    (hdigits : ¬(s ≠ [] ∧ ∀ c ∈ s, c.isDigit = true)) :
    dbBytes py (String.ofList s) = some (s.map (fun c => BitVec.ofNat 8 c.toNat)) := by
  rw [dbBytes, if_neg (mt (hpy.isdigit s hs).1 hdigits), hpy.encodeAscii s hs]

theorem dbBytes_of_read (hpy : AsciiPython py) (hwf : o.Wf) (hread : ¬o.Misread) :
    dbBytes py (String.ofList o.text) = some o.bytes := by
  cases o with
  | decimal ds => exact (dbBytes_of_digits hpy hwf.1 hwf.2.1).trans (if_pos hwf.2.2)
  | hex x ds => exact absurd trivial hread
  | string s => exact dbBytes_of_text hpy hwf hread

theorem weights_of_misread (hpy : AsciiPython py) (hwf : o.Wf) (hmisread : o.Misread)
    (h : dbBytes py (String.ofList o.text) = some data) : weights o.bytes < weights data := by
  cases o with
  | decimal ds => exact hmisread.elim
  | string s =>
    rw [show String.ofList (DbOperand.string s).text = String.ofList s from rfl,
      dbBytes_of_digits hpy hmisread.1 hmisread.2] at h
    split at h
    · next hlt =>
      cases h
      rw [DbOperand.bytes, weights_text hwf, weight_decimal hmisread.2 hlt]
      have hsingle : weights [BitVec.ofNat 8 (decimalValue s)] = weight (decimalValue s) := by
        simp [weights, Nat.mod_eq_of_lt hlt]
      rw [hsingle]
      exact (weight_between _ hlt).1
    · cases h
  | hex x ds =>
    obtain ⟨hx, hne, hds, hlt⟩ := hwf
    have hxdigit : x.isDigit = false := by rcases hx with rfl | rfl <;> decide
    have hxweight : weight x.toNat = 100 := by rcases hx with rfl | rfl <;> decide
    rw [dbBytes_of_text hpy (DbOperand.Wf.ascii (o := .hex x ds) ⟨hx, hne, hds, hlt⟩)
      (fun hall => by
        have := hall.2 x (by simp [DbOperand.text])
        rw [hxdigit] at this
        cases this)] at h
    cases h
    rw [weights_text (DbOperand.Wf.ascii (o := .hex x ds) ⟨hx, hne, hds, hlt⟩)]
    simp only [DbOperand.text, List.map_cons, List.sum_cons, hxweight, weight_hexadecimal hds hlt]
    have hsingle : weights (DbOperand.hex x ds).bytes = weight (hexValue ds) := by
      simp [DbOperand.bytes, weights, Nat.mod_eq_of_lt hlt]
    have hzero : weight ('0' : Char).toNat = 0 := by decide
    rw [hsingle, hzero, zero_add]
    exact (weight_between _ hlt).2

theorem weights_le (hpy : AsciiPython py) (hwf : ∀ o ∈ ops, o.Wf)
    (h : dbAll py (ops.map (fun o => String.ofList o.text)) = some data) :
    weights (ops.flatMap DbOperand.bytes) ≤ weights data ∧
      ((∃ o ∈ ops, o.Misread) → weights (ops.flatMap DbOperand.bytes) < weights data) := by
  induction ops generalizing data with
  | nil =>
    cases h
    exact ⟨le_rfl, fun ⟨o, ho, _⟩ => absurd ho List.not_mem_nil⟩
  | cons o ops ih =>
    obtain ⟨hwfo, hwf⟩ := List.forall_mem_cons.1 hwf
    rw [List.map_cons, dbAll] at h
    split at h
    · next own rest hown hrest =>
      cases h
      obtain ⟨hle, hlt⟩ := ih hwf hrest
      rw [List.flatMap_cons, weights_append, weights_append]
      by_cases hmisread : o.Misread
      · have := weights_of_misread hpy hwfo hmisread hown
        exact ⟨by omega, fun _ => by omega⟩
      · rw [dbBytes_of_read hpy hwfo hmisread] at hown
        cases hown
        refine ⟨by omega, fun hex => ?_⟩
        obtain ⟨o', ho', hmis⟩ := hex
        rcases List.mem_cons.1 ho' with rfl | ho'
        · exact absurd hmis hmisread
        · have := hlt ⟨o', ho', hmis⟩
          omega
    · cases h

theorem dbAll_of_read (hpy : AsciiPython py) (hwf : ∀ o ∈ ops, o.Wf) (hread : ∀ o ∈ ops, ¬o.Misread) :
    dbAll py (ops.map (fun o => String.ofList o.text)) = some (ops.flatMap DbOperand.bytes) := by
  induction ops with
  | nil => rfl
  | cons o ops ih =>
    obtain ⟨hwfo, hwf⟩ := List.forall_mem_cons.1 hwf
    obtain ⟨hreado, hread⟩ := List.forall_mem_cons.1 hread
    rw [List.map_cons, dbAll, dbBytes_of_read hpy hwfo hreado, ih hwf hread]
    rfl

theorem dbAll_iff (hpy : AsciiPython py) (hwf : ∀ o ∈ ops, o.Wf) :
    dbAll py (ops.map (fun o => String.ofList o.text)) = some (ops.flatMap DbOperand.bytes) ↔
      ∀ o ∈ ops, ¬o.Misread := by
  constructor
  · intro h o ho hmisread
    exact lt_irrefl _ ((weights_le hpy hwf h).2 ⟨o, ho, hmisread⟩)
  · exact dbAll_of_read hpy hwf

end Operands

/-! ## Directives -/

section Directives

variable {py : Python} {p p' : Pass1} {stmt : Stmt}

theorem offset_step (hp : p.offset = p.text.data.length) (h : pass1Step py p stmt = some p') :
    p'.offset = p'.text.data.length := by
  have hextend : ∀ bytes (q : Pass1), (q.extend bytes).offset = (q.extend bytes).text.data.length := fun _ _ => rfl
  have hlabel : ∀ front, (p.defineLabel front).offset = (p.defineLabel front).text.data.length := by
    intro front
    cases front <;> exact hp
  cases stmt with
  | label name =>
    cases h
    exact hp
  | instruction opcode operands =>
    rw [pass1Step] at h
    split at h
    · cases h
    · obtain ⟨encoding, -, rfl⟩ := Option.map_eq_some_iff.1 h
      rfl
    · obtain ⟨encoding, -, rfl⟩ := Option.map_eq_some_iff.1 h
      exact hextend _ _
  | directive name operands front =>
    rw [pass1Step] at h
    split at h
    · obtain ⟨bytes, -, rfl⟩ := Option.map_eq_some_iff.1 h
      exact hextend _ _
    · cases h
      exact hlabel front

theorem offset_eq : ∀ (before : List Stmt) {q : Pass1}, q.offset = q.text.data.length →
    before.foldlM (pass1Step py) q = some p → p.offset = p.text.data.length
  | [], q, hq, h => by
    cases h
    exact hq
  | stmt :: before, q, hq, h => by
    rw [List.foldlM_cons] at h
    obtain ⟨q', hstep, hrest⟩ := Option.bind_eq_some_iff.1 h
    exact offset_eq before (offset_step hq hstep) hrest

/-- **The bytes that are written are emitted just where no operand is a hexadecimal number or a string of digits.** -/
theorem emitsWritten_iff {py : Python} (hpy : AsciiPython py) {before : List Stmt} {p : Pass1}
    (hbefore : before.foldlM (pass1Step py) Pass1.init = some p) (label : Option String) {ops : List DbOperand}
    (hwf : ∀ o ∈ ops, o.Wf) : EmitsWritten py p label ops ↔ ∀ o ∈ ops, ¬o.Misread := by
  have hoffset := offset_eq before rfl hbefore
  have hdata : (p.defineLabel label).text.data = p.text.data := by cases label <;> rfl
  rw [← dbAll_iff hpy hwf]
  unfold EmitsWritten
  rw [parseOperands_tokens]
  constructor
  · rintro ⟨p', hstep, hbytes, -⟩
    obtain ⟨bytes, hall, rfl⟩ := Option.map_eq_some_iff.1 hstep
    have happend : (p.defineLabel label).text.data ++ bytes = p.text.data ++ ops.flatMap DbOperand.bytes := hbytes
    rw [hdata] at happend
    rw [hall, List.append_cancel_left happend]
  · intro hall
    refine ⟨(p.defineLabel label).extend (ops.flatMap DbOperand.bytes), ?_, ?_, fun name hname => ?_, fun name => ?_⟩
    · exact congrArg (Option.map _) hall
    · show (p.defineLabel label).text.data ++ _ = _
      rw [hdata]
    · subst hname
      show Function.update p.text.symbols name (some p.offset) name = some p.text.data.length
      rw [Function.update_self, hoffset]
    · exact ⟨_, rfl, Function.update_self ..⟩

def asciiPython : Python where
  asm _ := none
  lower := id
  isalpha _ := false
  isdigit s := !s.toList.isEmpty && s.toList.all Char.isDigit
  int s := some (decimalValue s.toList)
  encodeAscii s := some (s.toList.map (fun c => BitVec.ofNat 8 c.toNat))

theorem asciiPython_ok : AsciiPython asciiPython where
  isdigit cs _ := by simp [asciiPython]
  int ds _ _ := by simp [asciiPython, decimalValue]
  encodeAscii cs _ := by simp [asciiPython]

theorem emitsWritten_small : EmitsWritten asciiPython Pass1.init (some "a") [.decimal ['7'], .string ['h', 'i']] := by
  refine (@emitsWritten_iff _ asciiPython_ok [] _ rfl _ _ fun o ho => ?_).2 fun o ho => ?_
  · rcases List.mem_cons.1 ho with rfl | ho
    · exact ⟨by decide, by simp, by decide⟩
    · rw [List.mem_singleton.1 ho]
      exact fun c hc => (by simp : ∀ c ∈ ['h', 'i'], c.toNat < 128) c hc
  · rcases List.mem_cons.1 ho with rfl | ho
    · exact id
    · rw [List.mem_singleton.1 ho]
      exact fun h => absurd (h.2 'h' (by simp)) (by decide)

/-- `db 0x10` gives the four characters of its text. -/
theorem not_emitsWritten : ¬EmitsWritten asciiPython Pass1.init none [.hex 'x' ['1', '0']] := by
  rintro ⟨p', hstep, hbytes, -⟩
  have hlength : (pass1Step asciiPython Pass1.init
      (.directive "db" (parseOperands (dbTokens [.hex 'x' ['1', '0']])).1 none)).map (fun p => p.text.data.length) =
      some 4 := by rfl
  rw [hstep, Option.map_some, hbytes] at hlength
  exact absurd hlength (by decide)

end Directives

end Exec
end AmitX
