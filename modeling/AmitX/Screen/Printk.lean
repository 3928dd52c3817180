import AmitX.Lib.Bytes
import AmitX.Mm.Heap
/-!
# Printk — formatted output (`printk.c`)

The formatters of the kernel, on a list of arguments each of which has the type it was passed with.  A fetch of another
type, or behind the last argument, is undefined, and so is a read behind the bytes of a string.  An `int` wraps around.
Every store is checked against the size of the buffer.
-/
namespace AmitX
namespace Screen

open Bytes
open Mm (Arch)

def ch (c : Char) : Byte := BitVec.ofNat 8 c.toNat

/-- The `int` that arithmetic gives. -/
def int32 (x : Int) : Int := Int.bmod x (2 ^ 32)

inductive Stop
  /-- An argument is missing or has another type, or a string ends without a zero. -/
  | undefined
  /-- A store outside the buffer. -/
  | outside
  /-- The bound of a loop is used up. -/
  | bound
  deriving DecidableEq

inductive LengthModifier
  | none
  | hh
  | h
  | l
  | ll
  | z
  | t
  deriving DecidableEq

structure FormatSpec where
  left : Bool
  zero : Bool
  alternate : Bool
  plus : Bool
  space : Bool
  width : Int
  precision : Int
  length : LengthModifier
  specifier : Byte

/-- An argument: an `int` or `unsigned int`, a word of the build (`long`, `size_t`, `ptrdiff_t` and their counterparts),
a `long long`, a string by the bytes that can be read of it, or a pointer. -/
inductive Arg
  | int (x : BitVec 32)
  | word (x : Nat)
  | longLong (x : BitVec 64)
  | string (bytes : Option (List Byte))
  | pointer (x : Nat)

/-! ## The buffer -/

/-- The buffer with the three variables that the emitters share: the next place, how many bytes remain, and the count. -/
structure Sink where
  size : Nat
  buf : Mem
  out : Nat
  remaining : Nat
  count : Int

/-- `buf[i] = c`. -/
def Sink.put (s : Sink) (i : Nat) (c : Byte) : Except Stop Mem :=
  if i < s.size then .ok (fill s.buf i 1 c) else .error .outside

def emitChar (s : Sink) (c : Byte) : Except Stop Sink :=
  if 1 < s.remaining then do
    let buf ← s.put s.out c
    return { s with buf := buf, out := s.out + 1, remaining := s.remaining - 1, count := int32 (s.count + 1) }
  else .ok s

def emitString (s : Sink) (str : List Byte) : Except Stop Sink := str.foldlM emitChar s

/-- How often the body of `while (n--)` runs. -/
def turns (n : Int) : Nat := (n % 2 ^ 32).toNat

/-- `while (n--) emit_char(c)`. -/
def emitRepeat (s : Sink) (c : Byte) (n : Int) : Except Stop Sink := emitString s (List.replicate (turns n) c)

/-! ## Integers -/

def digitChar (uppercase : Bool) (d : Nat) : Byte :=
  ((if uppercase then "0123456789ABCDEF" else "0123456789abcdef").toList.map ch).getD d 0

/-- `tmp`: the digits of a value, the lowest first.  A value of 64 bits has no more than 64. -/
def tmpDigits (base : Nat) : Nat → Nat → List Nat
  | 0, _ => []
  | n + 1, value => if value = 0 then [] else value % base :: tmpDigits base n (value / base)

def utoaBase (value base : Nat) (uppercase : Bool) : List Byte :=
  if base < 2 ∨ 16 < base then []
  else if value = 0 then [ch '0']
  else ((tmpDigits base 64 value).map (digitChar uppercase)).reverse

def fetchUnsigned (a : Arch) : LengthModifier → List Arg → Except Stop (Nat × List Arg)
  | .l, .word x :: args => .ok (a.word x, args)
  | .ll, .longLong x :: args => .ok (x.toNat, args)
  | .z, .word x :: args => .ok (a.word x, args)
  -- `ptrdiff_t` is signed
  | .t, .word x :: args => .ok ((a.signed x % 2 ^ 64).toNat, args)
  | .hh, .int x :: args => .ok (x.toNat, args)
  | .h, .int x :: args => .ok (x.toNat, args)
  | .none, .int x :: args => .ok (x.toNat, args)
  | _, _ => .error .undefined

def fetchSigned (a : Arch) : LengthModifier → List Arg → Except Stop (Int × List Arg)
  | .l, .word x :: args => .ok (a.signed x, args)
  | .ll, .longLong x :: args => .ok (x.toInt, args)
  -- `size_t` is not signed
  | .z, .word x :: args => .ok (Int.bmod (a.word x) (2 ^ 64), args)
  | .t, .word x :: args => .ok (a.signed x, args)
  | .hh, .int x :: args => .ok (x.toInt, args)
  | .h, .int x :: args => .ok (x.toInt, args)
  | .none, .int x :: args => .ok (x.toInt, args)
  | _, _ => .error .undefined

/-- What `format_integer` computes before it prints. -/
structure IntegerParts where
  digits : List Byte
  /-- Sign, and the letter of `0x`. -/
  marks : List Byte
  /-- A `0` goes ahead of the marks. -/
  hex : Bool
  digitPad : Int
  fieldPad : Int
  useZero : Bool

def integerParts (uvalue : Nat) (negative : Bool) (base : Nat) (uppercase : Bool) (spec : FormatSpec) : IntegerParts :=
  let digits := if uvalue = 0 ∧ spec.precision = 0 then [] else utoaBase uvalue base uppercase
  let len : Int := digits.length
  let digitPad := if len < spec.precision then int32 (spec.precision - len) else 0
  let sign :=
    if negative then [ch '-']
    else if spec.plus && base == 10 then [ch '+']
    else if spec.space && base == 10 then [ch ' ']
    else []
  let hex := spec.alternate && base == 16 && uvalue != 0
  let marks := sign ++ if hex then [if uppercase then ch 'X' else ch 'x'] else []
  let totalLen := int32 (marks.length + digitPad + len + if hex then 1 else 0)
  let fieldPad := if totalLen < spec.width then int32 (spec.width - totalLen) else 0
  { digits, marks, hex, digitPad, fieldPad, useZero := spec.zero && !spec.left && decide (spec.precision < 0) }

def formatInteger (s : Sink) (uvalue : Nat) (negative : Bool) (base : Nat) (uppercase : Bool) (spec : FormatSpec) :
    Except Stop Sink := do
  let p := integerParts uvalue negative base uppercase spec
  let s ← (if !spec.left && !p.useZero then emitRepeat s (ch ' ') p.fieldPad else .ok s)
  let s ← (if p.hex then emitChar s (ch '0') else .ok s)
  let s ← emitString s p.marks
  let s ← (if !spec.left && p.useZero then emitRepeat s (ch '0') p.fieldPad else .ok s)
  let s ← emitRepeat s (ch '0') p.digitPad
  let s ← emitString s p.digits
  if spec.left then emitRepeat s (ch ' ') p.fieldPad else .ok s

/-! ## Strings -/

def strlen : List Byte → Except Stop Nat
  | [] => .error .undefined
  | c :: str => if c = 0 then .ok 0 else (strlen str).map (· + 1)

/-- The loop that reads no more than `precision` characters. -/
def strnlen : Nat → List Byte → Except Stop Nat
  | 0, _ => .ok 0
  | _ + 1, [] => .error .undefined
  | n + 1, c :: str => if c = 0 then .ok 0 else (strnlen n str).map (· + 1)

/-- `"(null)"` with its zero. -/
def nullText : List Byte := "(null)".toList.map ch ++ [0]

/-- The characters that `format_string` prints of a string, and the padding. -/
def stringParts (bytes : Option (List Byte)) (spec : FormatSpec) : Except Stop (List Byte × Int) := do
  let str := bytes.getD nullText
  let len : Int ← (if 0 ≤ spec.precision then (strnlen spec.precision.toNat str).map Int.ofNat
    else (strlen str).map (fun n : Nat => int32 n))
  return (str.take len.toNat, if len < spec.width then int32 (spec.width - len) else 0)

def formatString (s : Sink) (bytes : Option (List Byte)) (spec : FormatSpec) : Except Stop Sink := do
  let (str, pad) ← stringParts bytes spec
  let s ← (if !spec.left then emitRepeat s (ch ' ') pad else .ok s)
  let s ← emitString s str
  if spec.left then emitRepeat s (ch ' ') pad else .ok s

/-! ## The format -/

/-- `*fmt`. -/
def cur (fmt : List Byte) : Byte := fmt.headD 0

def isDigit (c : Byte) : Bool := decide (48 ≤ c.toNat ∧ c.toNat ≤ 57)

def parseFlags : FormatSpec → List Byte → FormatSpec × List Byte
  | spec, [] => (spec, [])
  | spec, c :: fmt =>
    if c = ch '-' then parseFlags { spec with left := true } fmt
    else if c = ch '0' then parseFlags { spec with zero := true } fmt
    else if c = ch '+' then parseFlags { spec with plus := true } fmt
    else if c = ch ' ' then parseFlags { spec with space := true } fmt
    else if c = ch '#' then parseFlags { spec with alternate := true } fmt
    else (spec, c :: fmt)

def parseDigits : Int → List Byte → Int × List Byte
  | n, [] => (n, [])
  | n, c :: fmt => if isDigit c then parseDigits (int32 (int32 (n * 10) + (c.toNat - 48))) fmt else (n, c :: fmt)

/-- `va_arg(*args, int)`. -/
def fetchInt : List Arg → Except Stop (Int × List Arg)
  | .int x :: args => .ok (x.toInt, args)
  | _ => .error .undefined

def parseWidth (spec : FormatSpec) (fmt : List Byte) (args : List Arg) :
    Except Stop (FormatSpec × List Byte × List Arg) :=
  if cur fmt = ch '*' then do
    let (width, args) ← fetchInt args
    if width < 0 then return ({ spec with left := true, width := int32 (-width) }, fmt.tail, args)
    else return ({ spec with width := width }, fmt.tail, args)
  else
    let (width, fmt) := parseDigits 0 fmt
    .ok ({ spec with width := width }, fmt, args)

def parsePrecision (spec : FormatSpec) (fmt : List Byte) (args : List Arg) :
    Except Stop (FormatSpec × List Byte × List Arg) :=
  if cur fmt = ch '.' then
    if cur fmt.tail = ch '*' then do
      let (precision, args) ← fetchInt args
      return ({ spec with precision := if precision < 0 then -1 else precision }, fmt.tail.tail, args)
    else
      let (precision, fmt) := parseDigits 0 fmt.tail
      .ok ({ spec with precision := precision }, fmt, args)
  else .ok (spec, fmt, args)

def parseLength (fmt : List Byte) : LengthModifier × List Byte :=
  if cur fmt = ch 'h' then if cur fmt.tail = ch 'h' then (.hh, fmt.tail.tail) else (.h, fmt.tail)
  else if cur fmt = ch 'l' then if cur fmt.tail = ch 'l' then (.ll, fmt.tail.tail) else (.l, fmt.tail)
  else if cur fmt = ch 'z' then (.z, fmt.tail)
  else if cur fmt = ch 't' then (.t, fmt.tail)
  else (.none, fmt)

def parseFormat (fmt : List Byte) (args : List Arg) : Except Stop (FormatSpec × List Byte × List Arg) := do
  let spec : FormatSpec := ⟨false, false, false, false, false, 0, -1, .none, 0⟩
  let (spec, fmt) := parseFlags spec fmt
  let (spec, fmt, args) ← parseWidth spec fmt args
  let (spec, fmt, args) ← parsePrecision spec fmt args
  let (length, fmt) := parseLength fmt
  -- at the end of the format the pointer stays
  return ({ spec with length := length, specifier := cur fmt }, if cur fmt = 0 then fmt else fmt.tail, args)

/-- The magnitude of a value, by `uint64_t` arithmetic. -/
def magnitude (value : Int) : Nat :=
  let u := (value % 2 ^ 64).toNat
  if value < 0 then (2 ^ 64 - u) % 2 ^ 64 else u

/-- The specification that `%p` prints with. -/
def pointerSpec (a : Arch) (spec : FormatSpec) : FormatSpec :=
  { spec with
    width := a.wordBytes * 2, zero := true, precision := -1, left := false, plus := false, space := false,
    alternate := false }

/-- The `switch` of `kvsnprintf`. -/
def formatOne (a : Arch) (s : Sink) (spec : FormatSpec) (args : List Arg) : Except Stop (Sink × List Arg) :=
  if spec.specifier = ch 's' then
    match args with
    | .string bytes :: args => do return (← formatString s bytes spec, args)
    | _ => .error .undefined
  else if spec.specifier = ch 'c' then
    match args with
    | .int x :: args => do return (← emitChar s (x.setWidth 8), args)
    | _ => .error .undefined
  else if spec.specifier = ch 'd' ∨ spec.specifier = ch 'i' then do
    let (value, args) ← fetchSigned a spec.length args
    return (← formatInteger s (magnitude value) (decide (value < 0)) 10 false spec, args)
  else if spec.specifier = ch 'u' then do
    let (value, args) ← fetchUnsigned a spec.length args
    return (← formatInteger s value false 10 false spec, args)
  else if spec.specifier = ch 'x' then do
    let (value, args) ← fetchUnsigned a spec.length args
    return (← formatInteger s value false 16 false spec, args)
  else if spec.specifier = ch 'X' then do
    let (value, args) ← fetchUnsigned a spec.length args
    return (← formatInteger s value false 16 true spec, args)
  else if spec.specifier = ch 'p' then
    match args with
    | .pointer x :: args => do
      let s ← emitString s ("0x".toList.map ch)
      return (← formatInteger s (a.word x) false 16 false (pointerSpec a spec), args)
    | _ => .error .undefined
  else if spec.specifier = 0 then .ok (s, args)
  else do
    let s ← emitChar s (ch '%')
    return (← emitChar s spec.specifier, args)

/-- The loop of `kvsnprintf`. -/
def formatLoop (a : Arch) : Nat → Sink → List Byte → List Arg → Except Stop Sink
  | 0, _, _, _ => .error .bound
  | n + 1, s, fmt, args =>
    if cur fmt = 0 then .ok s
    else if cur fmt ≠ ch '%' then do formatLoop a n (← emitChar s (cur fmt)) fmt.tail args
    else if cur fmt.tail = ch '%' then do formatLoop a n (← emitChar s (ch '%')) fmt.tail.tail args
    else do
      let (spec, fmt, args) ← parseFormat fmt.tail args
      let (s, args) ← formatOne a s spec args
      formatLoop a n s fmt args

/-- The result and the buffer; each turn of the loop takes a character of the format. -/
def kvsnprintf (a : Arch) (buf : Mem) (size : Nat) (fmt : List Byte) (args : List Arg) : Except Stop (Int × Mem) := do
  let s ← formatLoop a (fmt.length + 1) ⟨size, buf, 0, size, 0⟩ fmt args
  if 0 < size then return (s.count, ← s.put s.out 0) else return (s.count, s.buf)

end Screen
end AmitX
