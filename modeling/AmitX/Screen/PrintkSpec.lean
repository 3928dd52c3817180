import AmitX.Screen.Printk
/-!
# PrintkSpec — the characters of a format, and what a buffer gets of them

`formatText` is the complete output of a format and its arguments.  Every emitter prints one character after another, and
a buffer holds the front of what was printed (`Holds`): so a call of `kvsnprintf` stores as much of the complete output
as there is room for, whatever the size.
-/
namespace AmitX
namespace Screen

open Bytes
open Mm (Arch)

/-! ## The characters -/

def padding (c : Byte) (n : Int) : List Byte := List.replicate (turns n) c

def integerText (uvalue : Nat) (negative : Bool) (base : Nat) (uppercase : Bool) (spec : FormatSpec) : List Byte :=
  let p := integerParts uvalue negative base uppercase spec
  (if !spec.left && !p.useZero then padding (ch ' ') p.fieldPad else []) ++
    ((if p.hex then [ch '0'] else []) ++ (p.marks ++
      ((if !spec.left && p.useZero then padding (ch '0') p.fieldPad else []) ++ (padding (ch '0') p.digitPad ++
        (p.digits ++ (if spec.left then padding (ch ' ') p.fieldPad else []))))))

def stringText (bytes : Option (List Byte)) (spec : FormatSpec) : Except Stop (List Byte) :=
  (stringParts bytes spec).map fun (str, pad) =>
    (if !spec.left then padding (ch ' ') pad else []) ++ (str ++ (if spec.left then padding (ch ' ') pad else []))

def oneText (a : Arch) (spec : FormatSpec) (args : List Arg) : Except Stop (List Byte × List Arg) :=
  if spec.specifier = ch 's' then
    match args with
    | .string bytes :: args => (stringText bytes spec).map (·, args)
    | _ => .error .undefined
  else if spec.specifier = ch 'c' then
    match args with
    | .int x :: args => .ok ([x.setWidth 8], args)
    | _ => .error .undefined
  else if spec.specifier = ch 'd' ∨ spec.specifier = ch 'i' then
    (fetchSigned a spec.length args).map fun (value, args) =>
      (integerText (magnitude value) (decide (value < 0)) 10 false spec, args)
  else if spec.specifier = ch 'u' then
    (fetchUnsigned a spec.length args).map fun (value, args) => (integerText value false 10 false spec, args)
  else if spec.specifier = ch 'x' then
    (fetchUnsigned a spec.length args).map fun (value, args) => (integerText value false 16 false spec, args)
  else if spec.specifier = ch 'X' then
    (fetchUnsigned a spec.length args).map fun (value, args) => (integerText value false 16 true spec, args)
  else if spec.specifier = ch 'p' then
    match args with
    | .pointer x :: args =>
      .ok ("0x".toList.map ch ++ integerText (a.word x) false 16 false (pointerSpec a spec), args)
    | _ => .error .undefined
  else if spec.specifier = 0 then .ok ([], args)
  else .ok ([ch '%', spec.specifier], args)

def formatText (a : Arch) : Nat → List Byte → List Arg → Except Stop (List Byte)
  | 0, _, _ => .error .bound
  | n + 1, fmt, args =>
    if cur fmt = 0 then .ok []
    else if cur fmt ≠ ch '%' then (formatText a n fmt.tail args).map (cur fmt :: ·)
    else if cur fmt.tail = ch '%' then (formatText a n fmt.tail.tail args).map (ch '%' :: ·)
    else do
      let (spec, fmt, args) ← parseFormat fmt.tail args
      let (text, args) ← oneText a spec args
      (formatText a n fmt args).map (text ++ ·)

/-! ## The emitters -/

variable {a : Arch} {s s' : Sink} {o l m fmt rest : List Byte} {c : Byte} {size i : Nat} {buf : Mem}
  {spec : FormatSpec} {args args' : List Arg}

@[simp] theorem ok_bind {α β : Type} (x : α) (f : α → Except Stop β) : (Except.ok x >>= f) = f x := rfl

theorem map_ok {α β : Type} {x : Except Stop α} {f : α → β} {y : β} (h : x.map f = .ok y) : ∃ z, x = .ok z ∧ f z = y := by
  cases x with
  | error e => cases h
  | ok z => exact ⟨z, rfl, Except.ok.inj h⟩

theorem bind_ok {α β : Type} {x : Except Stop α} {f : α → Except Stop β} {y : β} (h : (x >>= f) = .ok y) :
    ∃ z, x = .ok z ∧ f z = .ok y := by
  cases x with
  | error e => cases h
  | ok z => exact ⟨z, rfl, h⟩

theorem emitString_append (s : Sink) (l m : List Byte) :
    emitString s (l ++ m) = emitString s l >>= fun s => emitString s m := List.foldlM_append

theorem emitString_singleton (s : Sink) (c : Byte) : emitString s [c] = emitChar s c := by
  rw [emitString, List.foldlM_cons]
  cases emitChar s c <;> rfl

theorem emitString_ite (p : Bool) (s : Sink) (l : List Byte) :
    emitString s (if p then l else []) = if p then emitString s l else .ok s := by
  cases p <;> rfl

theorem formatInteger_eq (s : Sink) (uvalue : Nat) (negative : Bool) (base : Nat) (uppercase : Bool)
    (spec : FormatSpec) : formatInteger s uvalue negative base uppercase spec =
      emitString s (integerText uvalue negative base uppercase spec) := by
  simp only [formatInteger, integerText, emitString_append, emitString_ite, emitString_singleton, emitRepeat, padding]

theorem formatString_eq (s : Sink) (bytes : Option (List Byte)) (spec : FormatSpec) :
    formatString s bytes spec = stringText bytes spec >>= emitString s := by
  rw [formatString, stringText]
  cases stringParts bytes spec with
  | error e => rfl
  | ok r =>
    obtain ⟨str, pad⟩ := r
    change _ = emitString s (_ ++ (_ ++ _))
    simp only [ok_bind, emitString_append, emitString_ite, emitRepeat, padding]

theorem bind_args (x : Except Stop Sink) (args : List Arg) :
    (x >>= fun s => pure (s, args)) = x.map (·, args) := by
  cases x <;> rfl

theorem formatOne_eq (a : Arch) (s : Sink) (spec : FormatSpec) (args : List Arg) :
    formatOne a s spec args = oneText a spec args >>= fun r => (emitString s r.1).map (·, r.2) := by
  unfold formatOne oneText
  split_ifs
  · cases args with
    | nil => rfl
    | cons x args =>
      cases x with
      | string bytes =>
        dsimp only
        rw [bind_args, formatString_eq]
        cases stringText bytes spec <;> rfl
      | _ => rfl
  · cases args with
    | nil => rfl
    | cons x args =>
      cases x with
      | int x =>
        dsimp only
        rw [bind_args, ok_bind, emitString_singleton]
      | _ => rfl
  · cases fetchSigned a spec.length args with
    | error e => rfl
    | ok r => exact (bind_args _ _).trans (by rw [formatInteger_eq]; rfl)
  · cases fetchUnsigned a spec.length args with
    | error e => rfl
    | ok r => exact (bind_args _ _).trans (by rw [formatInteger_eq]; rfl)
  · cases fetchUnsigned a spec.length args with
    | error e => rfl
    | ok r => exact (bind_args _ _).trans (by rw [formatInteger_eq]; rfl)
  · cases fetchUnsigned a spec.length args with
    | error e => rfl
    | ok r => exact (bind_args _ _).trans (by rw [formatInteger_eq]; rfl)
  · cases args with
    | nil => rfl
    | cons x args =>
      cases x with
      | pointer x =>
        dsimp only
        rw [ok_bind, emitString_append]
        cases emitString s ("0x".toList.map ch) with
        | error e => rfl
        | ok s' =>
          rw [ok_bind, ok_bind, bind_args, formatInteger_eq]
      | _ => rfl
  · rfl
  · rw [ok_bind]
    change _ = (emitString s ([ch '%'] ++ [spec.specifier])).map _
    rw [emitString_append, emitString_singleton]
    cases emitChar s (ch '%') with
    | error e => rfl
    | ok s' => rw [ok_bind, ok_bind, bind_args, emitString_singleton]

/-! ## The buffer -/

/-- The buffer holds the front of what was printed, and the place for the zero is left. -/
structure Sink.Holds (buf : Mem) (size : Nat) (s : Sink) (o : List Byte) : Prop where
  size_eq : s.size = size
  out : s.out = min (size - 1) o.length
  remaining : s.remaining = size - s.out
  count : s.count = s.out
  written : ∀ i < s.out, s.buf i = ofList o i
  kept : ∀ i, s.out ≤ i → s.buf i = buf i

theorem holds_start (buf : Mem) (size : Nat) : Sink.Holds buf size ⟨size, buf, 0, size, 0⟩ [] where
  size_eq := rfl
  out := (Nat.min_zero _).symm
  remaining := rfl
  count := rfl
  written _ h := absurd h (Nat.not_lt_zero _)
  kept _ _ := rfl

theorem int32_eq {x : Int} (h1 : -2 ^ 31 ≤ x) (h2 : x < 2 ^ 31) : int32 x = x := by
  unfold int32
  rw [Int.bmod_eq_of_le] <;> omega

theorem Sink.Holds.char (h : s.Holds buf size o) (hsize : size < 2 ^ 31) (c : Byte) :
    ∃ s', emitChar s c = .ok s' ∧ s'.Holds buf size (o ++ [c]) := by
  have hout := h.out
  have hrem := h.remaining
  have hlen : (o ++ [c]).length = o.length + 1 := by rw [List.length_append, List.length_singleton]
  unfold emitChar
  by_cases hroom : 1 < s.remaining
  · have hat : s.out = o.length := by omega
    have hput : s.put s.out c = .ok (fill s.buf s.out 1 c) := if_pos (by rw [h.size_eq]; omega)
    rw [if_pos hroom, hput]
    refine ⟨_, rfl, h.size_eq, ?_, ?_, ?_, ?_, ?_⟩
    · dsimp only
      omega
    · dsimp only
      omega
    · dsimp only
      rw [h.count, int32_eq (by omega) (by omega)]
      omega
    · intro i hi
      dsimp only at hi ⊢
      by_cases hlast : i = s.out
      · subst hlast
        have hself : ofList (o ++ [c]) (o.length + 0) = ofList [c] 0 := ofList_append_right o [c] 0
        rw [fill, if_pos (by omega), hat]
        exact hself.symm
      · rw [fill_of_not (by omega), h.written i (by omega), ofList_append_left (by omega)]
    · intro i hi
      dsimp only at hi ⊢
      rw [fill_of_not (by omega), h.kept i (by omega)]
  · rw [if_neg hroom]
    refine ⟨s, rfl, h.size_eq, by omega, hrem, h.count, fun i hi => ?_, h.kept⟩
    rw [h.written i hi, ofList_append_left (by omega)]

theorem Sink.Holds.string (hsize : size < 2 ^ 31) : ∀ (l : List Byte) {s : Sink} {o : List Byte},
    s.Holds buf size o → ∃ s', emitString s l = .ok s' ∧ s'.Holds buf size (o ++ l)
  | [], s, o, h => ⟨s, rfl, by rwa [List.append_nil]⟩
  | c :: l, s, o, h => by
    obtain ⟨s₁, hc, h₁⟩ := h.char hsize c
    obtain ⟨s', hl, h'⟩ := Sink.Holds.string hsize l h₁
    refine ⟨s', ?_, ?_⟩
    · rw [emitString, List.foldlM_cons, hc, ok_bind]
      exact hl
    · rwa [List.append_assoc, List.singleton_append] at h'

theorem formatLoop_holds (hsize : size < 2 ^ 31) : ∀ {n : Nat} {fmt l o : List Byte} {args : List Arg} {s : Sink},
    formatText a n fmt args = .ok l → s.Holds buf size o →
      ∃ s', formatLoop a n s fmt args = .ok s' ∧ s'.Holds buf size (o ++ l)
  | 0, _, _, _, _, _, h, _ => by cases h
  | n + 1, fmt, l, o, args, s, h, hs => by
    rw [formatText] at h
    rw [formatLoop]
    by_cases h0 : cur fmt = 0
    · rw [if_pos h0] at h ⊢
      cases h
      exact ⟨s, rfl, by rwa [List.append_nil]⟩
    rw [if_neg h0] at h ⊢
    by_cases hchar : cur fmt ≠ ch '%'
    · rw [if_pos hchar] at h ⊢
      obtain ⟨text, htext, rfl⟩ := map_ok h
      obtain ⟨s₁, hc, h₁⟩ := hs.char hsize (cur fmt)
      obtain ⟨s', hl, h'⟩ := formatLoop_holds hsize htext h₁
      rw [hc, ok_bind]
      rw [List.append_assoc, List.singleton_append] at h'
      exact ⟨s', hl, h'⟩
    rw [if_neg hchar] at h ⊢
    by_cases hpercent : cur fmt.tail = ch '%'
    · rw [if_pos hpercent] at h ⊢
      obtain ⟨text, htext, rfl⟩ := map_ok h
      obtain ⟨s₁, hc, h₁⟩ := hs.char hsize (ch '%')
      obtain ⟨s', hl, h'⟩ := formatLoop_holds hsize htext h₁
      rw [hc, ok_bind]
      rw [List.append_assoc, List.singleton_append] at h'
      exact ⟨s', hl, h'⟩
    rw [if_neg hpercent] at h ⊢
    obtain ⟨⟨spec, rest, args'⟩, hparse, h⟩ := bind_ok h
    obtain ⟨⟨text, args''⟩, hone, h⟩ := bind_ok h
    obtain ⟨more, hmore, rfl⟩ := map_ok h
    obtain ⟨s₁, hemit, h₁⟩ := Sink.Holds.string hsize text hs
    obtain ⟨s', hl, h'⟩ := formatLoop_holds hsize hmore h₁
    rw [hparse, ok_bind]
    dsimp only
    rw [formatOne_eq, hone, ok_bind, hemit]
    rw [List.append_assoc] at h'
    exact ⟨s', hl, h'⟩

/-- What a call leaves: `n` characters, all that there is room for, and a zero behind them. -/
structure Printed (buf buf' : Mem) (size : Nat) (o : List Byte) (n : Int) : Prop where
  count : n = min (size - 1) o.length
  chars : ∀ i < min (size - 1) o.length, buf' i = ofList o i
  zero : 0 < size → min (size - 1) o.length < size ∧ buf' (min (size - 1) o.length) = 0
  kept : ∀ i, size ≤ i → buf' i = buf i

theorem kvsnprintf_printed (hsize : size < 2 ^ 31) (h : formatText a (fmt.length + 1) fmt args = .ok o) :
    ∃ n buf', kvsnprintf a buf size fmt args = .ok (n, buf') ∧ Printed buf buf' size o n := by
  obtain ⟨s, hrun, hs⟩ := formatLoop_holds hsize h (holds_start buf size)
  rw [List.nil_append] at hs
  have hout := hs.out
  rw [kvsnprintf, hrun, ok_bind]
  by_cases hpos : 0 < size
  · have hput : s.put s.out 0 = .ok (fill s.buf s.out 1 0) := if_pos (by rw [hs.size_eq]; omega)
    rw [if_pos hpos, hput]
    refine ⟨_, _, rfl, by rw [hs.count, hout], fun i hi => ?_, fun _ => ⟨by omega, ?_⟩, fun i hi => ?_⟩
    · rw [fill_of_not (by omega), hs.written i (by omega)]
    · rw [fill, if_pos (by omega)]
    · rw [fill_of_not (by omega), hs.kept i (by omega)]
  · rw [if_neg hpos]
    refine ⟨_, _, rfl, by rw [hs.count, hout], fun i hi => ?_, fun h => absurd h hpos, fun i hi => ?_⟩
    · omega
    · exact hs.kept i (by omega)

/-! ## Matching arguments -/

def Arg.OfLength : Arg → LengthModifier → Prop
  | .int _, length => length = .none ∨ length = .hh ∨ length = .h
  | .word _, length => length = .l ∨ length = .z ∨ length = .t
  | .longLong _, length => length = .ll
  | _, _ => False

def Readable (precision : Int) (bytes : Option (List Byte)) : Prop :=
  ∀ str ∈ bytes, 0 ∈ str ∨ (0 ≤ precision ∧ precision ≤ str.length)

/-- Characters are compared by their equality. -/
local instance charLawful : LawfulBEq Byte := inferInstance

def Takes (spec : FormatSpec) (args rest : List Arg) : Prop :=
  if spec.specifier = ch 's' then ∃ bytes, args = .string bytes :: rest ∧ Readable spec.precision bytes
  else if spec.specifier = ch 'c' then ∃ x, args = .int x :: rest
  else if spec.specifier ∈ [ch 'd', ch 'i', ch 'u', ch 'x', ch 'X'] then ∃ x, args = x :: rest ∧ x.OfLength spec.length
  else if spec.specifier = ch 'p' then ∃ x, args = .pointer x :: rest
  else args = rest

/-- **The arguments match the format**: each star gets an `int`, and each conversion an argument of its type. -/
inductive Matches : List Byte → List Arg → Prop
  | done {fmt : List Byte} {args : List Arg} (h : cur fmt = 0) : Matches fmt args
  | char {fmt : List Byte} {args : List Arg} (h0 : cur fmt ≠ 0) (h : cur fmt ≠ ch '%') (hrest : Matches fmt.tail args) :
      Matches fmt args
  | percent {fmt : List Byte} {args : List Arg} (h : cur fmt = ch '%') (h' : cur fmt.tail = ch '%')
      (hrest : Matches fmt.tail.tail args) : Matches fmt args
  | conversion {fmt fmt' : List Byte} {args args' rest : List Arg} {spec : FormatSpec} (h : cur fmt = ch '%')
      (h' : cur fmt.tail ≠ ch '%') (hparse : parseFormat fmt.tail args = .ok (spec, fmt', args'))
      (htakes : Takes spec args' rest) (hrest : Matches fmt' rest) : Matches fmt args

theorem parseFlags_length : ∀ (fmt : List Byte) (spec : FormatSpec), (parseFlags spec fmt).2.length ≤ fmt.length
  | [], _ => Nat.le_refl _
  | c :: fmt, spec => by
    have ih := parseFlags_length fmt
    unfold parseFlags
    split_ifs
    all_goals first | exact Nat.le_succ_of_le (ih _) | exact Nat.le_refl _

theorem parseDigits_length : ∀ (fmt : List Byte) (n : Int), (parseDigits n fmt).2.length ≤ fmt.length
  | [], _ => Nat.le_refl _
  | c :: fmt, n => by
    unfold parseDigits
    split
    · exact Nat.le_succ_of_le (parseDigits_length fmt _)
    · exact Nat.le_refl _

theorem length_tail_le (fmt : List Byte) : fmt.tail.length ≤ fmt.length := by
  rw [List.length_tail]
  exact Nat.sub_le _ _

theorem parseWidth_length {r : FormatSpec × List Byte × List Arg} (h : parseWidth spec fmt args = .ok r) :
    r.2.1.length ≤ fmt.length := by
  unfold parseWidth at h
  split at h
  · obtain ⟨⟨width, rest⟩, -, h⟩ := bind_ok h
    dsimp only at h
    split at h
    · cases h
      exact length_tail_le fmt
    · cases h
      exact length_tail_le fmt
  · cases h
    exact parseDigits_length fmt 0

theorem parsePrecision_length {r : FormatSpec × List Byte × List Arg} (h : parsePrecision spec fmt args = .ok r) :
    r.2.1.length ≤ fmt.length := by
  unfold parsePrecision at h
  split at h
  · split at h
    · obtain ⟨⟨precision, rest⟩, -, h⟩ := bind_ok h
      cases h
      exact Nat.le_trans (length_tail_le fmt.tail) (length_tail_le fmt)
    · cases h
      exact Nat.le_trans (parseDigits_length fmt.tail 0) (length_tail_le fmt)
  · cases h
    exact Nat.le_refl _

theorem parseLength_length (fmt : List Byte) : (parseLength fmt).2.length ≤ fmt.length := by
  have h1 := length_tail_le fmt
  have h2 := Nat.le_trans (length_tail_le fmt.tail) h1
  unfold parseLength
  split_ifs <;> first | exact h1 | exact h2 | exact Nat.le_refl _

theorem length_skip_le (fmt : List Byte) : (if cur fmt = 0 then fmt else fmt.tail).length ≤ fmt.length := by
  split
  · exact Nat.le_refl _
  · exact length_tail_le fmt

theorem parseFormat_length {r : FormatSpec × List Byte × List Arg} (h : parseFormat fmt args = .ok r) :
    r.2.1.length ≤ fmt.length := by
  unfold parseFormat at h
  obtain ⟨⟨spec₁, fmt₁, args₁⟩, hwidth, h⟩ := bind_ok h
  obtain ⟨⟨spec₂, fmt₂, args₂⟩, hprec, h⟩ := bind_ok h
  cases h
  exact Nat.le_trans (length_skip_le _) (Nat.le_trans (parseLength_length fmt₂) (Nat.le_trans
    (parsePrecision_length hprec) (Nat.le_trans (parseWidth_length hwidth) (parseFlags_length fmt _))))

theorem strlen_ok : ∀ {str : List Byte}, 0 ∈ str → ∃ n, strlen str = .ok n
  | [], h => by cases h
  | c :: str, h => by
    rw [strlen]
    split
    · exact ⟨0, rfl⟩
    · next hc =>
      obtain ⟨n, hn⟩ := strlen_ok ((List.mem_cons.1 h).resolve_left (Ne.symm hc))
      exact ⟨n + 1, by rw [hn]; rfl⟩

theorem strnlen_ok : ∀ {n : Nat} {str : List Byte}, 0 ∈ str ∨ n ≤ str.length → ∃ k, strnlen n str = .ok k
  | 0, _, _ => ⟨0, rfl⟩
  | n + 1, [], h => by
    rcases h with h | h
    · cases h
    · exact absurd h (Nat.not_succ_le_zero n)
  | n + 1, c :: str, h => by
    rw [strnlen]
    split
    · exact ⟨0, rfl⟩
    · next hc =>
      obtain ⟨k, hk⟩ := @strnlen_ok n str (h.imp
        (fun h => (List.mem_cons.1 h).resolve_left (Ne.symm hc)) Nat.le_of_succ_le_succ)
      exact ⟨k + 1, by rw [hk]; rfl⟩

theorem stringText_ok {bytes : Option (List Byte)} (h : Readable spec.precision bytes) :
    ∃ text, stringText bytes spec = .ok text := by
  have hstr : 0 ∈ bytes.getD nullText ∨ (0 ≤ spec.precision ∧ spec.precision ≤ (bytes.getD nullText).length) := by
    cases bytes with
    | none => exact Or.inl (by decide)
    | some str => exact h str rfl
  unfold stringText stringParts
  dsimp only
  by_cases hp : 0 ≤ spec.precision
  · obtain ⟨k, hk⟩ := strnlen_ok (n := spec.precision.toNat) (hstr.imp_right (fun h => by omega))
    rw [if_pos hp, hk]
    exact ⟨_, rfl⟩
  · obtain ⟨k, hk⟩ := strlen_ok (hstr.resolve_right (fun h => hp h.1))
    rw [if_neg hp, hk]
    exact ⟨_, rfl⟩

theorem fetchSigned_ok {x : Arg} {length : LengthModifier} (h : x.OfLength length) (rest : List Arg) :
    ∃ value, fetchSigned a length (x :: rest) = .ok (value, rest) := by
  cases x with
  | int x => rcases h with rfl | rfl | rfl <;> exact ⟨_, rfl⟩
  | word x => rcases h with rfl | rfl | rfl <;> exact ⟨_, rfl⟩
  | longLong x =>
    cases h
    exact ⟨_, rfl⟩
  | string bytes => cases h
  | pointer x => cases h

theorem fetchUnsigned_ok {x : Arg} {length : LengthModifier} (h : x.OfLength length) (rest : List Arg) :
    ∃ value, fetchUnsigned a length (x :: rest) = .ok (value, rest) := by
  cases x with
  | int x => rcases h with rfl | rfl | rfl <;> exact ⟨_, rfl⟩
  | word x => rcases h with rfl | rfl | rfl <;> exact ⟨_, rfl⟩
  | longLong x =>
    cases h
    exact ⟨_, rfl⟩
  | string bytes => cases h
  | pointer x => cases h

theorem oneText_ok {rest : List Arg} (h : Takes spec args rest) : ∃ text, oneText a spec args = .ok (text, rest) := by
  unfold Takes at h
  unfold oneText
  by_cases hs : spec.specifier = ch 's'
  · rw [if_pos hs] at h ⊢
    obtain ⟨bytes, rfl, hread⟩ := h
    obtain ⟨text, htext⟩ := stringText_ok hread
    exact ⟨text, by dsimp only; rw [htext]; rfl⟩
  rw [if_neg hs] at h ⊢
  by_cases hc : spec.specifier = ch 'c'
  · rw [if_pos hc] at h ⊢
    obtain ⟨x, rfl⟩ := h
    exact ⟨_, rfl⟩
  rw [if_neg hc] at h ⊢
  by_cases hint : spec.specifier ∈ [ch 'd', ch 'i', ch 'u', ch 'x', ch 'X']
  · rw [if_pos hint] at h
    obtain ⟨x, rfl, hlen⟩ := h
    obtain ⟨value, hsigned⟩ := fetchSigned_ok (a := a) hlen rest
    obtain ⟨uvalue, hunsigned⟩ := fetchUnsigned_ok (a := a) hlen rest
    rw [hsigned, hunsigned]
    simp only [List.mem_cons, List.not_mem_nil, or_false] at hint
    split_ifs with hd hu hx hX
    · exact ⟨_, rfl⟩
    · exact ⟨_, rfl⟩
    · exact ⟨_, rfl⟩
    · exact ⟨_, rfl⟩
    all_goals exact absurd hint (by tauto)
  rw [if_neg hint] at h
  simp only [List.mem_cons, List.not_mem_nil, or_false, not_or] at hint
  obtain ⟨hd, hi, hu, hx, hX⟩ := hint
  rw [if_neg (not_or.2 ⟨hd, hi⟩), if_neg hu, if_neg hx, if_neg hX]
  by_cases hp : spec.specifier = ch 'p'
  · rw [if_pos hp] at h ⊢
    obtain ⟨x, rfl⟩ := h
    exact ⟨_, rfl⟩
  rw [if_neg hp] at h ⊢
  subst h
  split
  · exact ⟨_, rfl⟩
  · exact ⟨_, rfl⟩

theorem length_tail_lt (h : cur fmt ≠ 0) : fmt.tail.length < fmt.length := by
  cases fmt with
  | nil => exact absurd rfl h
  | cons c fmt => exact Nat.lt_succ_self _

theorem Matches.text (h : Matches fmt args) : ∃ o, ∀ n, fmt.length < n → formatText a n fmt args = .ok o := by
  have hpercent : ch '%' ≠ 0 := by decide
  induction h with
  | done h =>
    refine ⟨[], fun n hn => ?_⟩
    obtain ⟨k, rfl⟩ := Nat.exists_eq_succ_of_ne_zero (Nat.ne_zero_of_lt hn)
    rw [formatText, if_pos h]
  | @char fmt args h0 h hrest ih =>
    obtain ⟨o, ho⟩ := ih
    refine ⟨cur fmt :: o, fun n hn => ?_⟩
    obtain ⟨k, rfl⟩ := Nat.exists_eq_succ_of_ne_zero (Nat.ne_zero_of_lt hn)
    have hlt := length_tail_lt h0
    rw [formatText, if_neg h0, if_pos h, ho k (by omega)]
    rfl
  | @percent fmt args h h' hrest ih =>
    obtain ⟨o, ho⟩ := ih
    refine ⟨ch '%' :: o, fun n hn => ?_⟩
    obtain ⟨k, rfl⟩ := Nat.exists_eq_succ_of_ne_zero (Nat.ne_zero_of_lt hn)
    have h0 : cur fmt ≠ 0 := by rwa [h]
    have hlt := length_tail_lt h0
    have hle := length_tail_le fmt.tail
    rw [formatText, if_neg h0, if_neg (not_not_intro h), if_pos h', ho k (by omega)]
    rfl
  | @conversion fmt fmt' args args' rest spec h h' hparse htakes hrest ih =>
    obtain ⟨o, ho⟩ := ih
    obtain ⟨text, hone⟩ := oneText_ok (a := a) htakes
    refine ⟨text ++ o, fun n hn => ?_⟩
    obtain ⟨k, rfl⟩ := Nat.exists_eq_succ_of_ne_zero (Nat.ne_zero_of_lt hn)
    have h0 : cur fmt ≠ 0 := by rwa [h]
    have hlt := length_tail_lt h0
    have hle := parseFormat_length hparse
    dsimp only at hle
    rw [formatText, if_neg h0, if_neg (not_not_intro h), if_neg h', hparse, ok_bind]
    dsimp only
    rw [hone, ok_bind]
    dsimp only
    rw [ho k (by omega)]
    rfl

/-- **Formatted output never overruns**: for each format and matching arguments there is one complete output, and with
every size below 2³¹ `kvsnprintf` stores as much of it as there is room for, a zero behind that, and nothing outside. -/
theorem kvsnprintf_truncates (a : Arch) (fmt : List Byte) (args : List Arg) (h : Matches fmt args) :
    ∃ o : List Byte, ∀ (size : Nat) (buf : Mem), size < 2 ^ 31 →
      ∃ n buf', kvsnprintf a buf size fmt args = .ok (n, buf') ∧ Printed buf buf' size o n := by
  obtain ⟨o, ho⟩ := h.text (a := a)
  exact ⟨o, fun size buf hsize => kvsnprintf_printed hsize (ho _ (Nat.lt_succ_self _))⟩

/-- `"%s=%5d%%"`. -/
theorem kvsnprintf_truncates_report : ∃ o : List Byte, ∀ (size : Nat) (buf : Mem), size < 2 ^ 31 →
    ∃ n buf', kvsnprintf .x86 buf size ("%s=%5d%%".toList.map ch)
      [.string (some [ch 'a', 0]), .int 42#32] = .ok (n, buf') ∧ Printed buf buf' size o n := by
  refine kvsnprintf_truncates .x86 _ _ ?_
  refine @Matches.conversion _ ("=%5d%%".toList.map ch) _ _ [.int 42#32] _ (by decide) (by decide) rfl ?_ ?_
  · exact ⟨_, rfl, fun str hstr => Or.inl (by cases hstr; decide)⟩
  refine .char (by decide) (by decide) ?_
  refine @Matches.conversion _ ("%%".toList.map ch) _ _ [] _ (by decide) (by decide) rfl ?_ ?_
  · exact ⟨_, rfl, Or.inl rfl⟩
  exact .percent (by decide) (by decide) (.done (by decide))

end Screen
end AmitX
