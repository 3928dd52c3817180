import AmitX.Exec.AsmLexer
/-!
# AsmParser — the statements of a source text (`amx-asm.py`)

`AMX_PARSER.parse_operands` takes every token up to the next `NEWLINE`, so that a line without one goes on in the next:
its words become operands of the statement before.
-/
namespace AmitX
namespace Exec

/-- Python's `str.lower` and `str.upper`. -/
structure CaseMaps where
  lower : String → String
  upper : String → String

def directives : List String := ["db", "dw", "dd", "section", "global", "extern"]

variable (cm : CaseMaps)

/-- `AMX_PARSER.parse_operands`, with the tokens from the `NEWLINE` on. -/
def parseOperands : List Token → List String × List Token
  | [] => ([], [])
  | t :: ts =>
    if t.kind = .newline then ([], t :: ts)
    else if t.kind = .comma then parseOperands ts
    else (t.value :: (parseOperands ts).1, (parseOperands ts).2)

def skipNewline : List Token → List Token
  | [] => []
  | t :: ts => if t.kind = .newline then ts else t :: ts

def parseInstruction : List Token → Option (Stmt × List Token)
  | [] => none
  | t :: ts =>
    if t.kind = .ident then
      some (.instruction (cm.upper t.value) (parseOperands ts).1, skipNewline (parseOperands ts).2)
    else none

def parseDirective (label : Option String) : List Token → Option (Stmt × List Token)
  | [] => none
  | t :: ts =>
    if t.kind = .ident then
      some (.directive (cm.lower t.value) (parseOperands ts).1 label, skipNewline (parseOperands ts).2)
    else none

/-- `AMX_PARSER.parse_label`, of a name and a colon. -/
def parseLabel : List Token → Option (List Stmt × List Token)
  | name :: _ :: word :: ts =>
    if word.kind = .newline then some ([.label name.value], ts)
    else if word.kind ≠ .ident then none
    else if cm.lower word.value ∈ directives then
      (parseDirective cm (some name.value) (word :: ts)).map (fun r => ([r.1], r.2))
    else (parseInstruction cm (word :: ts)).map (fun r => ([.label name.value, r.1], r.2))
  | _ => none

def parseStatement : List Token → Option (List Stmt × List Token)
  | [] => none
  | t :: ts =>
    if t.kind = .newline then some ([], ts)
    else if t.kind = .ident ∧ ts.head?.map Token.kind = some .colon then parseLabel cm (t :: ts)
    else if cm.lower t.value ∈ directives then (parseDirective cm none (t :: ts)).map (fun r => ([r.1], r.2))
    else (parseInstruction cm (t :: ts)).map (fun r => ([r.1], r.2))

/-- The loop of `AMX_PARSER.parse`, which takes at most as many turns as there are tokens. -/
def parseLoop : Nat → List Token → Option (List Stmt)
  | _, [] => some []
  | 0, _ :: _ => none
  | n + 1, t :: ts => (parseStatement cm (t :: ts)).bind fun r => (parseLoop n r.2).map (r.1 ++ ·)

def parse (ts : List Token) : Option (List Stmt) := parseLoop cm ts.length ts

variable (cls : CharClasses)

def parseText (text : List Char) : Option (List Stmt) := (lex cls text).bind (parse cm)

/-! ## Lines -/

def Lines : List (List Char) → Prop
  | [] => True
  | [last] => ∃ body, '\n' ∉ body ∧ (last = body ∨ last = body ++ ['\n'])
  | line :: rest => (∃ body, '\n' ∉ body ∧ line = body ++ ['\n']) ∧ Lines rest

def KeptApart (lines : List (List Char)) : Prop :=
  parseText cm cls lines.flatten = (lines.mapM (parseText cm cls)).map List.flatten

/-! ## Progress -/

section Progress

variable {cm} {t : Token} {ts ops rest : List Token} {n : Nat}

theorem parseOperands_le (ts : List Token) : (parseOperands ts).2.length ≤ ts.length := by
  induction ts with
  | nil => exact le_rfl
  | cons t ts ih =>
    unfold parseOperands
    split
    · exact le_rfl
    split
    · exact ih.trans (Nat.le_succ _)
    · exact ih.trans (Nat.le_succ _)

theorem skipNewline_le (ts : List Token) : (skipNewline ts).length ≤ ts.length := by
  cases ts with
  | nil => exact le_rfl
  | cons t ts =>
    rw [skipNewline]
    split
    · exact Nat.le_succ _
    · exact le_rfl

theorem parseInstruction_le {r : Stmt × List Token} (h : parseInstruction cm (t :: ts) = some r) :
    r.2.length ≤ ts.length := by
  rw [parseInstruction] at h
  split at h
  · cases h
    exact (skipNewline_le _).trans (parseOperands_le ts)
  · cases h

theorem parseDirective_le {label : Option String} {r : Stmt × List Token}
    (h : parseDirective cm label (t :: ts) = some r) : r.2.length ≤ ts.length := by
  rw [parseDirective] at h
  split at h
  · cases h
    exact (skipNewline_le _).trans (parseOperands_le ts)
  · cases h

theorem parseLabel_le {r : List Stmt × List Token} (h : parseLabel cm (t :: ts) = some r) :
    r.2.length ≤ ts.length := by
  match ts, h with
  | _ :: word :: ts, h =>
    rw [parseLabel] at h
    split at h
    · cases h
      simp only [List.length_cons]
      omega
    split at h
    · cases h
    split at h
    · obtain ⟨r', hr', hr⟩ := Option.map_eq_some_iff.1 h
      have := parseDirective_le hr'
      rw [← hr]
      simp only [List.length_cons]
      omega
    · obtain ⟨r', hr', hr⟩ := Option.map_eq_some_iff.1 h
      have := parseInstruction_le hr'
      rw [← hr]
      simp only [List.length_cons]
      omega

theorem parseStatement_le {r : List Stmt × List Token} (h : parseStatement cm (t :: ts) = some r) :
    r.2.length ≤ ts.length := by
  rw [parseStatement] at h
  split at h
  · cases h
    exact le_rfl
  split at h
  · exact parseLabel_le h
  split at h
  · obtain ⟨r', hr', hr⟩ := Option.map_eq_some_iff.1 h
    rw [← hr]
    exact parseDirective_le hr'
  · obtain ⟨r', hr', hr⟩ := Option.map_eq_some_iff.1 h
    rw [← hr]
    exact parseInstruction_le hr'

theorem parseLoop_eq (h : ts.length ≤ n) : parseLoop cm n ts = parse cm ts := by
  suffices hall : ∀ m n ts, ts.length ≤ m → ts.length ≤ n → parseLoop cm m ts = parseLoop cm n ts from
    hall n ts.length ts h le_rfl
  intro m
  induction m with
  | zero =>
    intro n ts hm _
    rw [List.length_eq_zero_iff.1 (Nat.le_zero.1 hm)]
    cases n <;> rfl
  | succ m ih =>
    intro n ts hm hn
    match ts, n with
    | [], n => cases n <;> rfl
    | t :: ts, 0 => exact absurd hn (Nat.not_succ_le_zero _)
    | t :: ts, n + 1 =>
      unfold parseLoop
      cases hstmt : parseStatement cm (t :: ts) with
      | none => rfl
      | some r =>
        have hle := parseStatement_le hstmt
        rw [Option.bind_some, Option.bind_some, ih n r.2 (hle.trans (Nat.le_of_succ_le_succ hm))
          (hle.trans (Nat.le_of_succ_le_succ hn))]

theorem parse_nil : parse cm [] = some [] := rfl

theorem parse_cons : parse cm (t :: ts) =
    (parseStatement cm (t :: ts)).bind fun r => (parse cm r.2).map (r.1 ++ ·) := by
  show (parseStatement cm (t :: ts)).bind (fun r => (parseLoop cm ts.length r.2).map (r.1 ++ ·)) = _
  cases hstmt : parseStatement cm (t :: ts) with
  | none => rfl
  | some r => rw [Option.bind_some, Option.bind_some, parseLoop_eq (parseStatement_le hstmt)]

end Progress

/-! ## Statements with more operands behind -/

def Stmt.addOperands (extra : List String) : Stmt → Stmt
  | .instruction opcode operands => .instruction opcode (operands ++ extra)
  | .label name => .label name
  | .directive name operands front => .directive name (operands ++ extra) front

def Stmt.HasOperands : Stmt → Prop
  | .instruction _ _ | .directive _ _ _ => True
  | .label _ => False

def OneLine (ts : List Token) : Prop := ∀ t ∈ ts, t.kind ≠ .newline

def LabelOnly (ts : List Token) : Prop := ∃ name colon : Token, ts = [name, colon] ∧ name.kind = .ident ∧ colon.kind = .colon

def operandValues (ops : List Token) : List String := (ops.filter (fun t => t.kind ≠ .comma)).map Token.value

section Statements

variable {cm} {t : Token} {ts ops rest X : List Token} {s : Stmt} {extra : List String}

theorem Stmt.addOperands_nil (s : Stmt) : s.addOperands [] = s := by
  cases s <;> simp [Stmt.addOperands]

theorem Stmt.HasOperands.eq_nil (hs : s.HasOperands) (h : s.addOperands extra = s) : extra = [] := by
  cases s with
  | label name => exact hs.elim
  | instruction opcode operands => simpa [Stmt.addOperands] using h
  | directive name operands front => simpa [Stmt.addOperands] using h

theorem parseOperands_append (hops : OneLine ops) (X : List Token) :
    parseOperands (ops ++ X) = (operandValues ops ++ (parseOperands X).1, (parseOperands X).2) := by
  induction ops with
  | nil => rfl
  | cons t ops ih =>
    obtain ⟨ht, hops⟩ := List.forall_mem_cons.1 hops
    rw [List.cons_append, parseOperands, if_neg ht, ih hops]
    by_cases hc : t.kind = .comma
    · simp [operandValues, hc]
    · simp [operandValues, hc]

theorem parseStatement_plain (ht : t.kind ≠ .newline) (hops : OneLine ops)
    (hcolon : ∀ X : List Token, X.head?.map Token.kind ≠ some .colon →
      ¬(t.kind = .ident ∧ (ops ++ X).head?.map Token.kind = some .colon)) :
    (∀ X : List Token, X.head?.map Token.kind ≠ some .colon → parseStatement cm (t :: (ops ++ X)) = none) ∨
    ∃ before last, Stmt.HasOperands last ∧ ∀ X : List Token, X.head?.map Token.kind ≠ some .colon →
      parseStatement cm (t :: (ops ++ X)) =
        some (before ++ [last.addOperands (parseOperands X).1], skipNewline (parseOperands X).2) := by
  by_cases hident : t.kind = .ident
  · refine .inr ⟨[], if cm.lower t.value ∈ directives then .directive (cm.lower t.value) (operandValues ops) none
      else .instruction (cm.upper t.value) (operandValues ops), by split <;> trivial, fun X hX => ?_⟩
    rw [parseStatement, if_neg ht, if_neg (hcolon X hX)]
    split
    · rw [parseDirective, if_pos hident, parseOperands_append hops]
      rfl
    · rw [parseInstruction, if_pos hident, parseOperands_append hops]
      rfl
  · refine .inl fun X hX => ?_
    rw [parseStatement, if_neg ht, if_neg (hcolon X hX)]
    split
    · rw [parseDirective, if_neg hident]
      rfl
    · rw [parseInstruction, if_neg hident]
      rfl

theorem parseStatement_append (hts : OneLine ts) (hne : ts ≠ []) (hlabel : ¬LabelOnly ts) :
    (∀ X : List Token, X.head?.map Token.kind ≠ some .colon → parseStatement cm (ts ++ X) = none) ∨
    ∃ before last, Stmt.HasOperands last ∧ ∀ X : List Token, X.head?.map Token.kind ≠ some .colon →
      parseStatement cm (ts ++ X) =
        some (before ++ [last.addOperands (parseOperands X).1], skipNewline (parseOperands X).2) := by
  cases ts with
  | nil => exact absurd rfl hne
  | cons t ops =>
    obtain ⟨ht, hops⟩ := List.forall_mem_cons.1 hts
    by_cases hname : t.kind = .ident ∧ ops.head?.map Token.kind = some .colon
    case neg =>
      refine parseStatement_plain ht hops fun X hX hboth => hname ⟨hboth.1, ?_⟩
      cases ops with
      | nil => exact absurd hboth.2 hX
      | cons u ops => exact hboth.2
    obtain ⟨hident, hcolon⟩ := hname
    match ops with
    | [] => cases hcolon
    | [u] =>
      rw [List.head?_cons, Option.map_some] at hcolon
      exact absurd ⟨t, u, rfl, hident, Option.some.inj hcolon⟩ hlabel
    | u :: word :: ops =>
      obtain ⟨-, hops⟩ := List.forall_mem_cons.1 hops
      obtain ⟨hword, hops⟩ := List.forall_mem_cons.1 hops
      have hstmt : ∀ X, parseStatement cm (t :: u :: word :: ops ++ X) =
          parseLabel cm (t :: u :: word :: (ops ++ X)) := fun X => by
        rw [List.cons_append, parseStatement, if_neg ht, if_pos ⟨hident, hcolon⟩]
        rfl
      by_cases hident' : word.kind = .ident
      · by_cases hdir : cm.lower word.value ∈ directives
        · refine .inr ⟨[], .directive (cm.lower word.value) (operandValues ops) (some t.value), trivial, fun X _ => ?_⟩
          rw [hstmt, parseLabel, if_neg hword, if_neg (not_not.2 hident'), if_pos hdir, parseDirective, if_pos hident',
            parseOperands_append hops]
          rfl
        · refine .inr ⟨[.label t.value], .instruction (cm.upper word.value) (operandValues ops), trivial, fun X _ => ?_⟩
          rw [hstmt, parseLabel, if_neg hword, if_neg (not_not.2 hident'), if_neg hdir, parseInstruction, if_pos hident',
            parseOperands_append hops]
          rfl
      · refine .inl fun X _ => ?_
        rw [hstmt, parseLabel, if_neg hword, if_pos hident']

theorem ident_of_parse {stmts : List Stmt} (h : parse cm (t :: ts) = some stmts) (ht : t.kind ≠ .newline) :
    t.kind = .ident := by
  rw [parse_cons, parseStatement, if_neg ht] at h
  by_contra hident
  rw [if_neg (fun hboth => hident hboth.1), parseDirective, parseInstruction, if_neg hident, if_neg hident] at h
  split at h <;> cases h

end Statements

/-! ## Lines of tokens -/

section TokenLines

variable {cm} {t : Token} {ts rest : List Token} {stmts : List Stmt}

theorem parse_line (hts : OneLine ts) (rest : List Token) : parse cm (ts ++ newlineToken :: rest) =
    (parse cm (ts ++ [newlineToken])).bind fun stmts => (parse cm rest).map (stmts ++ ·) := by
  have hfirst : parseStatement cm (ts ++ newlineToken :: rest) =
      (parseStatement cm (ts ++ [newlineToken])).map (fun r => (r.1, rest)) ∧
      ∀ r, parseStatement cm (ts ++ [newlineToken]) = some r → r.2 = [] := by
    by_cases hne : ts = []
    · subst hne
      refine ⟨rfl, fun r hr => ?_⟩
      cases hr
      rfl
    by_cases hlabel : LabelOnly ts
    · obtain ⟨name, colon, rfl, hname, hcolon⟩ := hlabel
      have hstmt : ∀ X : List Token, parseStatement cm (name :: colon :: newlineToken :: X) = some ([.label name.value], X) := by
        intro X
        rw [parseStatement, if_neg (by rw [hname]; decide), if_pos ⟨hname, congrArg some hcolon⟩, parseLabel]
        exact if_pos rfl
      refine ⟨?_, fun r hr => ?_⟩
      · have hnil : parseStatement cm ([name, colon] ++ [newlineToken]) = some ([.label name.value], []) := hstmt []
        rw [hnil]
        exact hstmt rest
      · have hr := (hstmt []).symm.trans hr
        cases hr
        rfl
    · have hX : ∀ X : List Token, (newlineToken :: X).head?.map Token.kind ≠ some .colon := fun X h => by cases h
      rcases @parseStatement_append cm _ hts hne hlabel with hnone | ⟨before, last, hlast, hsome⟩
      · refine ⟨?_, fun r hr => ?_⟩
        · rw [hnone _ (hX rest), hnone _ (hX [])]
          rfl
        · rw [hnone _ (hX [])] at hr
          cases hr
      · refine ⟨?_, fun r hr => ?_⟩
        · rw [hsome _ (hX rest), hsome _ (hX [])]
          rfl
        · rw [hsome _ (hX [])] at hr
          cases hr
          rfl
  obtain ⟨hmap, hend⟩ := hfirst
  have hcons : ∀ X : List Token, parse cm (ts ++ newlineToken :: X) =
      (parseStatement cm (ts ++ newlineToken :: X)).bind fun r => (parse cm r.2).map (r.1 ++ ·) := by
    intro X
    cases ts with
    | nil => exact parse_cons
    | cons t ts => exact parse_cons
  rw [hcons, hcons [], hmap]
  cases hstmt : parseStatement cm (ts ++ [newlineToken]) with
  | none => rfl
  | some r =>
    obtain ⟨stmts, behind⟩ := r
    obtain rfl : behind = [] := hend _ hstmt
    simp [parse_nil]

theorem parse_joined (hts : OneLine ts) {before : List Token} {value : String} (hend : ts = before ++ [⟨.string, value⟩])
    (h : parse cm ts = some stmts) (ht : t.kind = .ident) (rest : List Token) (more : List Stmt) :
    parse cm (ts ++ t :: rest) ≠ some (stmts ++ more) := by
  have hne : ts ≠ [] := by simp [hend]
  have hlabel : ¬LabelOnly ts := by
    rintro ⟨name, colon, hpair, -, hcolon⟩
    rw [hpair] at hend
    have hlast := congrArg List.getLast? hend
    rw [List.getLast?_append] at hlast
    simp only [List.getLast?_cons_cons, List.getLast?_singleton, Option.some_or, Option.some.injEq] at hlast
    rw [hlast] at hcolon
    cases hcolon
  have hcons : ∀ X : List Token, parse cm (ts ++ X) =
      (parseStatement cm (ts ++ X)).bind fun r => (parse cm r.2).map (r.1 ++ ·) := by
    intro X
    cases ts with
    | nil => exact absurd rfl hne
    | cons t ts => exact parse_cons
  rcases @parseStatement_append cm _ hts hne hlabel with hnone | ⟨first, last, hlast, hsome⟩
  · have hnil := hcons []
    rw [hnone [] (by simp), List.append_nil, h] at hnil
    cases hnil
  · have hnil := hcons []
    rw [hsome [] (by simp), List.append_nil, h] at hnil
    obtain rfl : stmts = first ++ [last] := by
      simpa [parseOperands, skipNewline, parse_nil, Stmt.addOperands_nil] using hnil
    have hword : (parseOperands (t :: rest)).1 ≠ [] := by
      rw [parseOperands, if_neg (by rw [ht]; decide), if_neg (by rw [ht]; decide)]
      exact List.cons_ne_nil _ _
    rw [hcons, hsome (t :: rest) (by simp [ht]), Option.bind_some]
    intro heq
    obtain ⟨behind, -, hbehind⟩ := Option.map_eq_some_iff.1 heq
    rw [List.append_assoc, List.append_assoc] at hbehind
    have hsame := List.append_cancel_left hbehind
    exact hword (hlast.eq_nil (List.cons.inj hsame).1)

end TokenLines

/-! ## Texts -/

section Texts

variable {cm cls} {c : Char} {t : Token} {ts : List Token} {s text line rest : List Char} {stmts : List Stmt}
  {lines : List (List Char)}

theorem head_ne_newline (hs : '\n' ∉ s) (h : lex cls s = some (t :: ts)) : t.kind ≠ .newline := by
  induction s with
  | nil => cases h
  | cons c s ih =>
    obtain ⟨hc, hs⟩ := not_or.1 (mt List.mem_cons.2 hs)
    rw [lex_cons] at h
    split at h
    · exact ih hs h
    rw [if_neg (Ne.symm hc)] at h
    have htail : ∀ {t' : Token} {o : Option (List Token)}, t'.kind ≠ .newline → o.map (t' :: ·) = some (t :: ts) →
        t.kind ≠ .newline := by
      intro t' o ht' ho
      obtain ⟨ts', -, heq⟩ := exists_tail ho
      rw [(List.cons.inj heq).1]
      exact ht'
    split at h
    · exact htail (by simp) h
    split at h
    · exact htail (by simp) h
    split at h
    · exact htail (by simp) h
    split at h
    · exact htail (by simp) h
    split at h
    · split at h
      · cases h
      · exact htail (by simp) h
    · cases h

theorem word_of_line (hs : '\n' ∉ s) (h : parseText cm cls (s ++ ['\n']) = some stmts) (hne : stmts ≠ [])
    (rest : List Char) {all : List Token} (hall : lex cls (s ++ '\n' :: rest) = some all) :
    ∃ t ts, all = t :: ts ∧ t.kind = .ident := by
  obtain ⟨ts, hts, hparse⟩ := Option.bind_eq_some_iff.1 h
  have hline := lexedLine s.length s le_rfl hs ts hts
  rw [hline.append] at hall
  obtain ⟨behind, -, rfl⟩ := Option.map_eq_some_iff.1 hall
  rcases hline.ending with ⟨-, ts', rfl, hfree⟩ | ⟨-, hfree, ts', v, hts'⟩
  · cases ts' with
    | nil =>
      cases hparse
      exact absurd rfl hne
    | cons t ts' => exact ⟨t, _, rfl, ident_of_parse hparse (hfree t (List.mem_cons_self ..))⟩
  · cases ts with
    | nil => simp at hts'
    | cons t ts => exact ⟨t, _, rfl, ident_of_parse hparse (hfree t (List.mem_cons_self ..))⟩

theorem word_of_lines {first : List Char} (hlines : Lines (first :: lines)) (h : parseText cm cls first = some stmts)
    (hne : stmts ≠ []) {all : List Token} (hall : lex cls (first :: lines).flatten = some all) :
    ∃ t ts, all = t :: ts ∧ t.kind = .ident := by
  cases lines with
  | cons line lines =>
    obtain ⟨⟨s, hs, rfl⟩, -⟩ := hlines
    rw [List.flatten_cons, List.append_assoc] at hall
    exact word_of_line hs h hne _ hall
  | nil =>
    obtain ⟨s, hs, rfl | rfl⟩ := hlines
    · rw [List.flatten_singleton] at hall
      obtain ⟨ts, hts, hparse⟩ := Option.bind_eq_some_iff.1 h
      obtain rfl : ts = all := Option.some.inj (hts.symm.trans hall)
      cases ts with
      | nil =>
        cases hparse
        exact absurd rfl hne
      | cons t ts => exact ⟨t, ts, rfl, ident_of_parse hparse (head_ne_newline hs hts)⟩
    · rw [List.flatten_singleton] at hall
      exact word_of_line hs h hne [] hall

theorem keptApart_cons (hs : '\n' ∉ s) (hstmts : parseText cm cls (s ++ ['\n']) = some stmts) {first : List Char}
    (hlines : Lines (first :: lines)) {firsts : List Stmt} (hfirst : parseText cm cls first = some firsts)
    (hne : firsts ≠ []) {all : List (List Stmt)} (hall : (first :: lines).mapM (parseText cm cls) = some all) :
    KeptApart cm cls ((s ++ ['\n']) :: first :: lines) ↔
      ¬EndsWithString (s ++ ['\n']) ∧ KeptApart cm cls (first :: lines) := by
  obtain ⟨ts, hts, hparse⟩ := Option.bind_eq_some_iff.1 hstmts
  have hline := lexedLine s.length s le_rfl hs ts hts
  have hlex : parseText cm cls (((s ++ ['\n']) :: first :: lines).flatten) =
      (lex cls (first :: lines).flatten).bind fun more => parse cm (ts ++ more) := by
    rw [parseText, List.flatten_cons, List.append_assoc, List.singleton_append, hline.append, Option.bind_map]
    rfl
  have hends : EndsWithString (s ++ ['\n']) ↔ quoteState .outside s = .after := by
    rw [EndsWithString, List.dropLast_concat]
  unfold KeptApart
  rw [List.mapM_cons, hstmts, hall, hlex, hends]
  change _ = some (stmts ++ all.flatten) ↔ _ ∧ _ = some all.flatten
  rcases hline.ending with ⟨hout, ts', rfl, hfree⟩ | ⟨hafter, hfree, ts', v, hts'⟩
  · have hbind : ((lex cls (first :: lines).flatten).bind fun more => parse cm (ts' ++ [newlineToken] ++ more)) =
        (parseText cm cls (first :: lines).flatten).map (stmts ++ ·) := by
      rw [parseText]
      cases lex cls (first :: lines).flatten with
      | none => rfl
      | some more =>
        rw [Option.bind_some, Option.bind_some, List.append_assoc, List.singleton_append, parse_line hfree, hparse]
        rfl
    rw [hbind, hout]
    constructor
    · intro h
      obtain ⟨more, hmore, heq⟩ := Option.map_eq_some_iff.1 h
      rw [hmore, List.append_cancel_left heq]
      exact ⟨by decide, rfl⟩
    · rintro ⟨-, h⟩
      rw [h]
      rfl
  · refine iff_of_false (fun h => ?_) (fun h => h.1 hafter)
    obtain ⟨more, hmore, heq⟩ := Option.bind_eq_some_iff.1 h
    obtain ⟨t, tail, rfl, ht⟩ := word_of_lines hlines hfirst hne hmore
    exact parse_joined hfree hts' hparse ht tail _ heq

/-- **The statements of a text are those of its lines just where no line before the last ends with a string.** -/
theorem parseText_keptApart_iff (cm : CaseMaps) (cls : CharClasses) {lines : List (List Char)} (hlines : Lines lines)
    (hstmts : ∀ line ∈ lines, ∃ stmts, stmts ≠ [] ∧ parseText cm cls line = some stmts) :
    KeptApart cm cls lines ↔ ∀ line ∈ lines.dropLast, ¬EndsWithString line := by
  have hmap : ∀ lines : List (List Char), (∀ line ∈ lines, ∃ stmts, stmts ≠ [] ∧ parseText cm cls line = some stmts) →
      ∃ all, lines.mapM (parseText cm cls) = some all := by
    intro lines hstmts
    induction lines with
    | nil => exact ⟨[], rfl⟩
    | cons line lines ih =>
      obtain ⟨⟨stmts, -, hline⟩, hrest⟩ := List.forall_mem_cons.1 hstmts
      obtain ⟨all, hall⟩ := ih hrest
      exact ⟨stmts :: all, by rw [List.mapM_cons, hline, hall]; rfl⟩
  induction lines with
  | nil => exact iff_of_true rfl fun line hline => absurd hline List.not_mem_nil
  | cons line lines ih =>
    obtain ⟨⟨stmts, -, hline⟩, hrest⟩ := List.forall_mem_cons.1 hstmts
    cases lines with
    | nil =>
      refine iff_of_true ?_ fun line hline => absurd hline List.not_mem_nil
      rw [KeptApart, List.flatten_singleton, List.mapM_cons, hline]
      simp
    | cons first lines =>
      obtain ⟨⟨s, hs, rfl⟩, hlines⟩ := hlines
      obtain ⟨⟨firsts, hne, hfirst⟩, -⟩ := List.forall_mem_cons.1 hrest
      obtain ⟨all, hall⟩ := hmap _ hrest
      refine (keptApart_cons hs hline hlines hfirst hne hall).trans ?_
      rw [List.dropLast_cons_of_ne_nil (by simp), List.forall_mem_cons]
      exact and_congr_right fun _ => ih hlines hrest

end Texts

/-! ## Two lines -/

def asciiClasses : CharClasses where
  isalpha := Char.isAlpha
  isalnum := Char.isAlphanum
  isdigit := Char.isDigit
  alnum_of_alpha c h := by simp [Char.isAlphanum, h]
  alnum_newline := by decide
  alnum_quote := by decide
  digit_newline := by decide
  digit_quote := by decide

def lowerNames : CaseMaps := ⟨id, fun s => s.map Char.toUpper⟩

def labelLine : List Char := ['a', ':', '\n']

def stringLine : List Char := ['d', 'b', ' ', '"', 'x', '"', '\n']

theorem labelLine_stmts : parseText lowerNames asciiClasses labelLine = some [.label "a"] := by rfl

theorem stringLine_stmts : parseText lowerNames asciiClasses stringLine = some [.directive "db" ["x"] none] := by rfl

theorem parseText_keptApart_two : KeptApart lowerNames asciiClasses [labelLine, stringLine] := by
  refine (parseText_keptApart_iff lowerNames asciiClasses ?_ ?_).2 ?_
  · exact ⟨⟨['a', ':'], by decide, rfl⟩, ['d', 'b', ' ', '"', 'x', '"'], by decide, .inr rfl⟩
  · intro line hline
    rcases List.mem_cons.1 hline with rfl | hline
    · exact ⟨_, by simp, labelLine_stmts⟩
    · rw [List.mem_singleton.1 hline]
      exact ⟨_, by simp, stringLine_stmts⟩
  · intro line hline
    rw [List.mem_singleton.1 hline]
    decide

/-- Two lines that each hold a `db` with a string give one directive. -/
theorem not_parseText_keptApart : ¬KeptApart lowerNames asciiClasses [stringLine, stringLine] := by
  have htext : parseText lowerNames asciiClasses [stringLine, stringLine].flatten =
      some [.directive "db" ["x", "db", "x"] none] := by rfl
  intro h
  rw [KeptApart, htext, List.mapM_cons, List.mapM_cons, stringLine_stmts] at h
  have hlength := congrArg (Option.map List.length) h
  exact absurd hlength (by decide)

end Exec
end AmitX
