import AmitX.Exec.Assembler
/-!
# AsmLexer — the tokens of a source text (`amx-asm.py`)

`AMX_LEXER.string` steps over the closing quote, and `lex` steps over one more character behind it: a line that ends with
a string has no `NEWLINE` token.  A string that ends in its line leaves the lexer at the start of the next line in any
case, so that a text's tokens are those of its lines.

Lines and columns of tokens, which only messages show, are left out.  `none` is an exception.
-/
namespace AmitX
namespace Exec

/-- Python's `str.isalpha`, `str.isalnum` and `str.isdigit` on single characters, with what is known of them. -/
structure CharClasses where
  isalpha : Char → Bool
  isalnum : Char → Bool
  isdigit : Char → Bool
  alnum_of_alpha : ∀ c, isalpha c = true → isalnum c = true
  alnum_newline : isalnum '\n' = false
  alnum_quote : isalnum '"' = false
  digit_newline : isdigit '\n' = false
  digit_quote : isdigit '"' = false

inductive TokenKind
  | ident
  | string
  | number
  | newline
  | comma
  | colon
  deriving DecidableEq

/-- `Token`; the `EOF` token is the end of the list. -/
structure Token where
  kind : TokenKind
  value : String
  deriving DecidableEq

variable (cls : CharClasses)

def isIdent (c : Char) : Bool := cls.isalnum c || c == '_'

def isHex (c : Char) : Bool := "0123456789abcdefABCDEF".toList.contains c

/-- `AMX_LEXER.identifier`, with the rest of the text. -/
def lexIdentifier (text : List Char) : List Char × List Char := (text.takeWhile (isIdent cls), text.dropWhile (isIdent cls))

/-- `AMX_LEXER.string`, behind the opening quote. -/
def lexString : List Char → Option (List Char × List Char)
  | [] => none
  | c :: text => if c = '"' then some ([], text) else (lexString text).map (fun r => (c :: r.1, r.2))

/-- `AMX_LEXER.number`. -/
def lexNumber (text : List Char) : List Char × List Char :=
  let value := text.takeWhile cls.isdigit
  match text.dropWhile cls.isdigit with
  | [] => (value, [])
  | x :: rest =>
    if value = ['0'] ∧ (x = 'x' ∨ x = 'X') then (value ++ x :: rest.takeWhile isHex, rest.dropWhile isHex)
    else (value, x :: rest)

/-- The loop of `AMX_LEXER.lex`, which takes at most as many turns as there are characters. -/
def lexLoop : Nat → List Char → Option (List Token)
  | _, [] => some []
  | 0, _ :: _ => none
  | n + 1, c :: text =>
    if c = ' ' ∨ c = '\t' then lexLoop n text
    else if c = '\n' then (lexLoop n text).map (⟨.newline, "\\n"⟩ :: ·)
    else if cls.isalpha c = true ∨ c = '_' then
      let r := lexIdentifier cls (c :: text)
      (lexLoop n r.2).map (⟨.ident, String.ofList r.1⟩ :: ·)
    else if cls.isdigit c = true then
      let r := lexNumber cls (c :: text)
      (lexLoop n r.2).map (⟨.number, String.ofList r.1⟩ :: ·)
    else if c = ',' then (lexLoop n text).map (⟨.comma, ","⟩ :: ·)
    else if c = ':' then (lexLoop n text).map (⟨.colon, ":"⟩ :: ·)
    else if c = '"' then
      match lexString text with
      | none => none
      | some r => (lexLoop n (r.2.drop 1)).map (⟨.string, String.ofList r.1⟩ :: ·)
    else none

def lex (text : List Char) : Option (List Token) := lexLoop cls text.length text

/-! ## Quotes -/

/-- Where a text stands: in a string, right behind the closing quote of one, or outside. -/
inductive QuoteState
  | outside
  | inside
  | after
  deriving DecidableEq

/-- The character behind a closing quote is stepped over, even if it is a quote. -/
def quoteState : QuoteState → List Char → QuoteState
  | q, [] => q
  | .outside, c :: text => quoteState (if c = '"' then .inside else .outside) text
  | .inside, c :: text => quoteState (if c = '"' then .after else .inside) text
  | .after, _ :: text => quoteState .outside text

/-- The line, with its newline, ends with the closing quote of a string directly before the newline. -/
def EndsWithString (line : List Char) : Prop := quoteState .outside line.dropLast = .after

instance (line : List Char) : Decidable (EndsWithString line) := inferInstanceAs (Decidable (_ = _))

/-! ## Progress -/

section Progress

variable {cls} {c : Char} {text rest : List Char} {n : Nat}

theorem lexIdentifier_lt (h : isIdent cls c = true) : (lexIdentifier cls (c :: text)).2.length ≤ text.length := by
  rw [lexIdentifier, List.dropWhile_cons_of_pos h]
  exact (List.dropWhile_sublist _).length_le

theorem lexNumber_lt (h : cls.isdigit c = true) : (lexNumber cls (c :: text)).2.length ≤ text.length := by
  have hle : ((c :: text).dropWhile cls.isdigit).length ≤ text.length := by
    rw [List.dropWhile_cons_of_pos h]
    exact (List.dropWhile_sublist _).length_le
  unfold lexNumber
  dsimp only
  split
  · exact Nat.zero_le _
  · next x rest hdrop =>
    rw [hdrop, List.length_cons] at hle
    split
    · have := (List.dropWhile_sublist isHex (l := rest)).length_le
      dsimp only
      omega
    · exact hle

theorem lexString_lt {r : List Char × List Char} (h : lexString text = some r) : r.2.length < text.length := by
  induction text generalizing r with
  | nil => cases h
  | cons c text ih =>
    unfold lexString at h
    split at h
    · cases h
      exact Nat.lt_succ_self _
    · obtain ⟨r', hr', hr⟩ := Option.map_eq_some_iff.1 h
      have hlt := ih hr'
      rw [← hr]
      exact Nat.lt_succ_of_lt hlt

theorem isIdent_of_start (h : cls.isalpha c = true ∨ c = '_') : isIdent cls c = true := by
  unfold isIdent
  rcases h with h | rfl
  · rw [cls.alnum_of_alpha c h]
    rfl
  · simp

theorem lexLoop_eq (h : text.length ≤ n) : lexLoop cls n text = lex cls text := by
  suffices hall : ∀ m n text, text.length ≤ m → text.length ≤ n → lexLoop cls m text = lexLoop cls n text from
    hall n text.length text h le_rfl
  intro m
  induction m with
  | zero =>
    intro n text hm _
    rw [List.length_eq_zero_iff.1 (Nat.le_zero.1 hm)]
    cases n <;> rfl
  | succ m ih =>
    intro n text hm hn
    match text, n with
    | [], n => cases n <;> rfl
    | c :: text, 0 => exact absurd hn (Nat.not_succ_le_zero _)
    | c :: text, n + 1 =>
      have hm' : text.length ≤ m := Nat.le_of_succ_le_succ hm
      have hn' : text.length ≤ n := Nat.le_of_succ_le_succ hn
      have hstep : ∀ rest : List Char, rest.length ≤ text.length → lexLoop cls m rest = lexLoop cls n rest :=
        fun rest hle => ih n rest (hle.trans hm') (hle.trans hn')
      unfold lexLoop
      dsimp only
      rw [hstep text le_rfl]
      split
      · rfl
      split
      · rfl
      split
      · next hstart => rw [hstep _ (lexIdentifier_lt (isIdent_of_start hstart))]
      split
      · next hdigit => rw [hstep _ (lexNumber_lt hdigit)]
      split
      · rfl
      split
      · rfl
      split
      · split
        · rfl
        · next r hr =>
          have hlt := lexString_lt hr
          rw [hstep _ (by rw [List.length_drop]; omega)]
      · rfl

theorem lex_nil : lex cls [] = some [] := rfl

theorem lex_cons : lex cls (c :: text) =
    if c = ' ' ∨ c = '\t' then lex cls text
    else if c = '\n' then (lex cls text).map (⟨.newline, "\\n"⟩ :: ·)
    else if cls.isalpha c = true ∨ c = '_' then
      (lex cls (lexIdentifier cls (c :: text)).2).map (⟨.ident, String.ofList (lexIdentifier cls (c :: text)).1⟩ :: ·)
    else if cls.isdigit c = true then
      (lex cls (lexNumber cls (c :: text)).2).map (⟨.number, String.ofList (lexNumber cls (c :: text)).1⟩ :: ·)
    else if c = ',' then (lex cls text).map (⟨.comma, ","⟩ :: ·)
    else if c = ':' then (lex cls text).map (⟨.colon, ":"⟩ :: ·)
    else if c = '"' then
      match lexString text with
      | none => none
      | some r => (lex cls (r.2.drop 1)).map (⟨.string, String.ofList r.1⟩ :: ·)
    else none := by
  show lexLoop cls (text.length + 1) (c :: text) = _
  rw [lexLoop, lexLoop_eq le_rfl]
  dsimp only
  split
  · rfl
  split
  · rfl
  split
  · next hstart => rw [lexLoop_eq (lexIdentifier_lt (isIdent_of_start hstart))]
  split
  · next hdigit => rw [lexLoop_eq (lexNumber_lt hdigit)]
  split
  · rfl
  split
  · rfl
  split
  · split
    · rfl
    · next r hr =>
      have hlt := lexString_lt hr
      rw [lexLoop_eq (by rw [List.length_drop]; omega)]
  · rfl

end Progress

/-! ## Lines -/

/-- `NEWLINE`. -/
def newlineToken : Token := ⟨.newline, "\\n"⟩

/-- A line without its newline, and its tokens: a text that goes on behind the newline has these and the tokens of what
follows, and the last of them is `NEWLINE`, unless the line ends with a string. -/
structure LexedLine (s : List Char) (ts : List Token) : Prop where
  append : ∀ rest, lex cls (s ++ '\n' :: rest) = (lex cls rest).map (ts ++ ·)
  ending : (quoteState .outside s = .outside ∧ ∃ ts', ts = ts' ++ [newlineToken] ∧ ∀ t ∈ ts', t.kind ≠ .newline) ∨
    (quoteState .outside s = .after ∧ (∀ t ∈ ts, t.kind ≠ .newline) ∧ ∃ ts' v, ts = ts' ++ [⟨.string, v⟩])

section Lines

variable {cls} {c : Char} {s s' text rest : List Char} {t : Token} {ts : List Token} {p : Char → Bool}

theorem takeWhile_line (hp : p '\n' = false) (s rest : List Char) :
    (s ++ '\n' :: rest).takeWhile p = s.takeWhile p ∧ (s ++ '\n' :: rest).dropWhile p = s.dropWhile p ++ '\n' :: rest := by
  induction s with
  | nil => simp [hp]
  | cons c s ih =>
    by_cases hc : p c = true
    · simp [hc, ih.1, ih.2]
    · simp [hc]

theorem lexNumber_line (s rest : List Char) :
    lexNumber cls (s ++ '\n' :: rest) = ((lexNumber cls s).1, (lexNumber cls s).2 ++ '\n' :: rest) := by
  unfold lexNumber
  obtain ⟨htake, hdrop⟩ := takeWhile_line cls.digit_newline s rest
  rw [htake, hdrop]
  cases hs : s.dropWhile cls.isdigit with
  | nil => simp
  | cons x tail =>
    obtain ⟨htake', hdrop'⟩ := takeWhile_line (p := isHex) (by decide) tail rest
    simp only [List.cons_append, htake', hdrop']
    split <;> rfl

theorem lexString_line {r : List Char × List Char} (h : lexString s = some r) (rest : List Char) :
    lexString (s ++ '\n' :: rest) = some (r.1, r.2 ++ '\n' :: rest) := by
  induction s generalizing r with
  | nil => cases h
  | cons c s ih =>
    rw [List.cons_append]
    unfold lexString at h ⊢
    split
    · next hc =>
      rw [if_pos hc] at h
      cases h
      rfl
    · next hc =>
      rw [if_neg hc] at h
      obtain ⟨r', hr', hr⟩ := Option.map_eq_some_iff.1 h
      rw [ih hr', ← hr]
      rfl

theorem lexString_append {r : List Char × List Char} (h : lexString s = some r) : r.1 ++ '"' :: r.2 = s := by
  induction s generalizing r with
  | nil => cases h
  | cons c s ih =>
    unfold lexString at h
    split at h
    · next hc =>
      cases h
      rw [hc]
      rfl
    · obtain ⟨r', hr', hr⟩ := Option.map_eq_some_iff.1 h
      have hs := ih hr'
      rw [← hr, ← hs]
      rfl

theorem lexString_open (h : lexString s = none) : lexString (s ++ ['\n']) = none := by
  induction s with
  | nil => rfl
  | cons c s ih =>
    rw [List.cons_append]
    unfold lexString at h ⊢
    split
    · next hc =>
      rw [if_pos hc] at h
      cases h
    · next hc =>
      rw [if_neg hc, Option.map_eq_none_iff] at h
      rw [ih h]
      rfl

theorem quoteState_dropWhile (hp : p '"' = false) (s : List Char) :
    quoteState .outside s = quoteState .outside (s.dropWhile p) := by
  induction s with
  | nil => rfl
  | cons c s ih =>
    by_cases hc : p c = true
    · have hne : c ≠ '"' := by
        rintro rfl
        rw [hp] at hc
        cases hc
      rw [List.dropWhile_cons_of_pos hc, quoteState, if_neg hne, ih]
    · rw [List.dropWhile_cons_of_neg hc]

theorem quoteState_number (s : List Char) :
    quoteState .outside s = quoteState .outside (lexNumber cls s).2 := by
  rw [quoteState_dropWhile cls.digit_quote]
  unfold lexNumber
  cases hs : s.dropWhile cls.isdigit with
  | nil => rfl
  | cons x tail =>
    dsimp only
    split
    · next hx =>
      have hne : x ≠ '"' := by
        rintro rfl
        rcases hx.2 with h | h <;> exact absurd h (by decide)
      rw [quoteState, if_neg hne, quoteState_dropWhile (p := isHex) (by decide)]
    · rfl

theorem quoteState_string {r : List Char × List Char} (h : lexString s = some r) :
    quoteState .inside s = quoteState .after r.2 := by
  induction s generalizing r with
  | nil => cases h
  | cons c s ih =>
    unfold lexString at h
    rw [quoteState]
    split at h
    · next hc =>
      cases h
      rw [if_pos hc]
    · next hc =>
      obtain ⟨r', hr', hr⟩ := Option.map_eq_some_iff.1 h
      rw [if_neg hc, ih hr', ← hr]

theorem LexedLine.cons (h : LexedLine cls s' ts) (ht : t.kind ≠ .newline)
    (hq : quoteState .outside s = quoteState .outside s')
    (hl : ∀ rest, lex cls (s ++ '\n' :: rest) = (lex cls (s' ++ '\n' :: rest)).map (t :: ·)) :
    LexedLine cls s (t :: ts) := by
  refine ⟨fun rest => ?_, ?_⟩
  · rw [hl, h.append, Option.map_map]
    rfl
  · rw [hq]
    rcases h.ending with ⟨hout, ts', rfl, hfree⟩ | ⟨hafter, hfree, ts', v, rfl⟩
    · exact .inl ⟨hout, t :: ts', rfl, List.forall_mem_cons.2 ⟨ht, hfree⟩⟩
    · exact .inr ⟨hafter, List.forall_mem_cons.2 ⟨ht, hfree⟩, t :: ts', v, rfl⟩

theorem exists_tail {o : Option (List Token)} (h : o.map (t :: ·) = some ts) : ∃ ts', o = some ts' ∧ ts = t :: ts' := by
  obtain ⟨ts', ho, hts⟩ := Option.map_eq_some_iff.1 h
  exact ⟨ts', ho, hts.symm⟩

theorem lexedLine : ∀ (n : Nat) (s : List Char), s.length ≤ n → '\n' ∉ s → ∀ ts, lex cls (s ++ ['\n']) = some ts →
    LexedLine cls s ts
  | _, [], _, _, ts, h => by
    have hnil : ∀ rest, lex cls ('\n' :: rest) = (lex cls rest).map (newlineToken :: ·) := by
      intro rest
      rw [lex_cons, if_neg (by decide), if_pos rfl]
      rfl
    rw [List.nil_append, hnil, lex_nil] at h
    cases h
    exact ⟨fun rest => hnil rest, .inl ⟨rfl, [], rfl, fun t ht => absurd ht List.not_mem_nil⟩⟩
  | 0, c :: s, hn, _, ts, _ => absurd hn (Nat.not_succ_le_zero _)
  | n + 1, c :: s, hn, hfree, ts, h => by
    have hn : s.length ≤ n := Nat.le_of_succ_le_succ hn
    obtain ⟨hc, hs⟩ := not_or.1 (mt List.mem_cons.2 hfree)
    have hdrop : ∀ p : Char → Bool, '\n' ∉ s.dropWhile p := fun p hmem => hs ((List.dropWhile_sublist p).subset hmem)
    rw [List.cons_append, lex_cons] at h
    by_cases hblank : c = ' ' ∨ c = '\t'
    · rw [if_pos hblank] at h
      have hline := lexedLine n s hn hs ts h
      have hne : c ≠ '"' := by
        rintro rfl
        rcases hblank with h | h <;> exact absurd h (by decide)
      refine ⟨fun rest => ?_, ?_⟩
      · rw [List.cons_append, lex_cons, if_pos hblank]
        exact hline.append rest
      · rw [quoteState, if_neg hne]
        exact hline.ending
    rw [if_neg hblank, if_neg (Ne.symm hc)] at h
    by_cases hstart : cls.isalpha c = true ∨ c = '_'
    · rw [if_pos hstart] at h
      obtain ⟨ts', htail, rfl⟩ := exists_tail h
      have hident := isIdent_of_start hstart
      have hp : isIdent cls '\n' = false := by simp [isIdent, cls.alnum_newline]
      have hq : isIdent cls '"' = false := by simp [isIdent, cls.alnum_quote]
      have hrest : ∀ rest, lexIdentifier cls (c :: (s ++ '\n' :: rest)) =
          ((c :: s).takeWhile (isIdent cls), s.dropWhile (isIdent cls) ++ '\n' :: rest) := by
        intro rest
        obtain ⟨htake, hdropr⟩ := takeWhile_line hp (c :: s) rest
        rw [← List.cons_append, lexIdentifier, htake, hdropr, List.dropWhile_cons_of_pos hident]
      rw [hrest] at htail
      have hline := lexedLine n (s.dropWhile (isIdent cls)) ((List.dropWhile_sublist _).length_le.trans hn) (hdrop _) ts'
        htail
      refine hline.cons (by simp) ?_ fun rest => ?_
      · rw [quoteState_dropWhile hq, List.dropWhile_cons_of_pos hident]
      · rw [List.cons_append, lex_cons, if_neg hblank, if_neg (Ne.symm hc), if_pos hstart, hrest, hrest]
    rw [if_neg hstart] at h
    by_cases hdigit : cls.isdigit c = true
    · rw [if_pos hdigit] at h
      obtain ⟨ts', htail, rfl⟩ := exists_tail h
      have hrest : ∀ rest, lexNumber cls (c :: (s ++ '\n' :: rest)) =
          ((lexNumber cls (c :: s)).1, (lexNumber cls (c :: s)).2 ++ '\n' :: rest) := fun rest => lexNumber_line (c :: s) rest
      rw [hrest] at htail
      have hbehind : '\n' ∉ (lexNumber cls (c :: s)).2 := by
        intro hmem
        unfold lexNumber at hmem
        rw [List.dropWhile_cons_of_pos hdigit] at hmem
        have hd := hdrop cls.isdigit
        cases hds : s.dropWhile cls.isdigit with
        | nil =>
          rw [hds] at hmem
          exact List.not_mem_nil hmem
        | cons x tail =>
          rw [hds] at hmem hd
          dsimp only at hmem
          split at hmem
          · exact hd (List.mem_cons_of_mem _ ((List.dropWhile_sublist isHex).subset hmem))
          · exact hd hmem
      have hline := lexedLine n _ ((lexNumber_lt hdigit).trans hn) hbehind ts' htail
      refine hline.cons (by simp) (quoteState_number _) fun rest => ?_
      rw [List.cons_append, lex_cons, if_neg hblank, if_neg (Ne.symm hc), if_neg hstart, if_pos hdigit, hrest, hrest]
    rw [if_neg hdigit] at h
    by_cases hcomma : c = ','
    · rw [if_pos hcomma] at h
      obtain ⟨ts', htail, rfl⟩ := exists_tail h
      have hline := lexedLine n s hn hs ts' htail
      refine hline.cons (by simp) ?_ fun rest => ?_
      · rw [quoteState, if_neg (by rw [hcomma]; decide)]
      · rw [List.cons_append, lex_cons, if_neg hblank, if_neg (Ne.symm hc), if_neg hstart, if_neg hdigit, if_pos hcomma]
    rw [if_neg hcomma] at h
    by_cases hcolon : c = ':'
    · rw [if_pos hcolon] at h
      obtain ⟨ts', htail, rfl⟩ := exists_tail h
      have hline := lexedLine n s hn hs ts' htail
      refine hline.cons (by simp) ?_ fun rest => ?_
      · rw [quoteState, if_neg (by rw [hcolon]; decide)]
      · rw [List.cons_append, lex_cons, if_neg hblank, if_neg (Ne.symm hc), if_neg hstart, if_neg hdigit, if_neg hcomma,
          if_pos hcolon]
    rw [if_neg hcolon] at h
    by_cases hquote : c = '"'
    · subst hquote
      rw [if_pos rfl] at h
      have hlex : ∀ rest, lex cls ('"' :: s ++ '\n' :: rest) =
          match lexString (s ++ '\n' :: rest) with
          | none => none
          | some r => (lex cls (r.2.drop 1)).map (⟨.string, String.ofList r.1⟩ :: ·) := by
        intro rest
        rw [List.cons_append, lex_cons, if_neg hblank, if_neg (Ne.symm hc), if_neg hstart, if_neg hdigit, if_neg hcomma,
          if_neg hcolon, if_pos rfl]
      cases hstring : lexString s with
      | none =>
        rw [lexString_open hstring] at h
        cases h
      | some r =>
        obtain ⟨value, behind⟩ := r
        simp only [lexString_line hstring] at h hlex
        have hstate : quoteState .outside ('"' :: s) = quoteState .after behind := by
          rw [quoteState, if_pos rfl, quoteState_string hstring]
        cases behind with
        | nil =>
          -- the newline is stepped over
          cases h
          refine ⟨hlex, .inr ⟨hstate, fun t ht => ?_, [], _, rfl⟩⟩
          rw [List.mem_singleton.1 ht]
          simp
        | cons d behind =>
          obtain ⟨ts', htail, rfl⟩ := exists_tail h
          have hlt := lexString_lt hstring
          have hsub : '\n' ∉ d :: behind := by
            intro hmem
            have happ : value ++ '"' :: d :: behind = s := lexString_append hstring
            refine hs ?_
            rw [← happ]
            exact List.mem_append_right _ (List.mem_cons_of_mem _ hmem)
          have hline := lexedLine n behind (by simp only [List.length_cons] at hlt; omega)
            (fun hmem => hsub (List.mem_cons_of_mem _ hmem)) ts' htail
          exact hline.cons (by simp) hstate hlex
    rw [if_neg hquote] at h
    cases h

end Lines

end Exec
end AmitX
