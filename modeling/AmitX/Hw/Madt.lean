import AmitX.Lib.Bytes
import AmitX.Lib.Loop
import Mathlib.Data.List.Induction
/-!
# Madt — the walk over the interrupt controller table (`acpi.c`)

`acpi_parse_madt` goes from entry to entry by the length that each one states, and stops at the first length that is
shorter than the entry's header or leads out of the table.  The fields of an entry are read at their places in the
structure of its type, whatever length it states.
-/
namespace AmitX
namespace Hw

open Bytes Loop

/-- `sizeof(acpi_madt_t)`. -/
def madtSize : Nat := 44

/-- `sizeof(madt_entry_header_t)`. -/
def madtEntryHeaderSize : Nat := 2

def madtTypeLapic : Byte := 0
def madtTypeIoapic : Byte := 1
def madtTypeIso : Byte := 2

/-- `header.length`. -/
def madtLen (madt : Mem) : Nat := load madt 4 4

/-- `madt_parsed_t`, over a `cpu_apic_ids` and a `cpu_enabled` of eight and an `iso_map` of sixteen places. -/
structure MadtParsed where
  numCpus : Nat
  cpuApicIds : Nat → Byte
  cpuEnabled : Nat → Byte
  hasIoapic : Int
  ioapicAddr : Nat
  ioapicGsiBase : Nat
  isoMap : Nat → Int

/-- `madt_parsed` before the walk. -/
def MadtParsed.init : MadtParsed :=
  { numCpus := 0
    cpuApicIds := fun _ => 0
    cpuEnabled := fun _ => 0
    hasIoapic := 0
    ioapicAddr := 0
    ioapicGsiBase := 0
    isoMap := fun i => i }

section Fields

variable (madt : Mem) (entry : Nat)

def entryType : Byte := madt entry
def entryLength : Nat := (madt (entry + 1)).toNat

def apicId : Byte := madt (entry + 3)

/-- `(lapic->flags & 1) ? 1 : 0`. -/
def apicEnabled : Byte := if load madt (entry + 4) 4 % 2 = 1 then 1 else 0

def ioApicAddr : Nat := load madt (entry + 4) 4

def gsiBase : Nat := load madt (entry + 8) 4

def irqSource : Nat := (madt (entry + 3)).toNat

def isoGsi : Int := (BitVec.ofNat 32 (load madt (entry + 4) 4)).toInt

end Fields

/-- The `switch` over an entry's type. -/
def parseEntry (madt : Mem) (p : MadtParsed) (entry : Nat) : MadtParsed :=
  if entryType madt entry = madtTypeLapic then
    if p.numCpus < 8 then
      { p with
        numCpus := p.numCpus + 1
        cpuApicIds := Function.update p.cpuApicIds p.numCpus (apicId madt entry)
        cpuEnabled := Function.update p.cpuEnabled p.numCpus (apicEnabled madt entry) }
    else p
  else if entryType madt entry = madtTypeIoapic then
    { p with hasIoapic := 1, ioapicAddr := ioApicAddr madt entry, ioapicGsiBase := gsiBase madt entry }
  else if entryType madt entry = madtTypeIso then
    if irqSource madt entry < 16 then
      { p with isoMap := Function.update p.isoMap (irqSource madt entry) (isoGsi madt entry) }
    else p
  else p

/-- The bytes of an entry's fields that the `switch` reads. -/
def fieldsRead (madt : Mem) (p : MadtParsed) (entry : Nat) : List Nat :=
  if entryType madt entry = madtTypeLapic then
    if p.numCpus < 8 then (entry + 3) :: List.range' (entry + 4) 4 else []
  else if entryType madt entry = madtTypeIoapic then List.range' (entry + 4) 8
  else if entryType madt entry = madtTypeIso then
    if irqSource madt entry < 16 then (entry + 3) :: List.range' (entry + 4) 4 else [entry + 3]
  else []

/-- `reads` are the places of the bytes read so far. -/
structure MadtWalk where
  offset : Nat
  parsed : MadtParsed
  reads : List Nat

def madtTurn (madt : Mem) (s : MadtWalk) : MadtWalk ⊕ MadtWalk :=
  if s.offset + madtEntryHeaderSize ≤ madtLen madt then
    let length := entryLength madt s.offset
    if length < madtEntryHeaderSize ∨ madtLen madt < (s.offset + length) % 2 ^ 32 then
      .inr { s with reads := s.reads ++ [s.offset + 1] }
    else
      .inl
        { offset := (s.offset + length) % 2 ^ 32
          parsed := parseEntry madt s.parsed s.offset
          reads := s.reads ++ [s.offset + 1, s.offset] ++ fieldsRead madt s.parsed s.offset }
  else .inr s

def madtStart : MadtWalk := ⟨madtSize, .init, List.range' 4 4⟩

/-! ## The entries of a table -/

def ValidEntry (madt : Mem) (entry : Nat) : Prop :=
  entry + madtEntryHeaderSize ≤ madtLen madt ∧ madtEntryHeaderSize ≤ entryLength madt entry ∧
    entry + entryLength madt entry ≤ madtLen madt

/-- The entries from a place on, up to the first one with an invalid length. -/
inductive Entries (madt : Mem) : Nat → List Nat → Prop
  | stop {entry : Nat} : ¬ValidEntry madt entry → Entries madt entry []
  | next {entry : Nat} {es : List Nat} : ValidEntry madt entry → Entries madt (entry + entryLength madt entry) es →
      Entries madt entry (entry :: es)

def lapics (madt : Mem) (es : List Nat) : List Nat := es.filter fun e => entryType madt e = madtTypeLapic

def ioapics (madt : Mem) (es : List Nat) : List Nat := es.filter fun e => entryType madt e = madtTypeIoapic

def overrides (madt : Mem) (irq : Nat) (es : List Nat) : List Nat :=
  es.filter fun e => entryType madt e = madtTypeIso ∧ irqSource madt e = irq

/-- The summary holds the first eight local APICs in the order of the table, the last I/O APIC, and for each irq the last
override, or the irq itself. -/
structure Summary (madt : Mem) (es : List Nat) (p : MadtParsed) : Prop where
  numCpus : p.numCpus = min 8 (lapics madt es).length
  cpus : ∀ k e, k < 8 → (lapics madt es)[k]? = some e →
    p.cpuApicIds k = apicId madt e ∧ p.cpuEnabled k = apicEnabled madt e
  ioapic : (p.hasIoapic, p.ioapicAddr, p.ioapicGsiBase) =
    ((ioapics madt es).getLast?.map fun e => (1, ioApicAddr madt e, gsiBase madt e)).getD (0, 0, 0)
  iso : ∀ irq < 16, p.isoMap irq = ((overrides madt irq es).getLast?.map (isoGsi madt)).getD irq

/-- **The walk is bounded and exact**: it ends, with the summary of the entries, and reads no byte outside the table. -/
def MadtExact (madt : Mem) : Prop :=
  ∃ n w es, loop (madtTurn madt) n madtStart = some w ∧ Entries madt madtSize es ∧ Summary madt es w.parsed ∧
    ∀ i ∈ w.reads, i < madtLen madt

/-- The fields that are read of an entry, with `cpus` local APICs before it, lie in the table. -/
def FieldsIn (madt : Mem) (cpus entry : Nat) : Prop :=
  (entryType madt entry = madtTypeLapic → cpus < 8 → entry + 8 ≤ madtLen madt) ∧
  (entryType madt entry = madtTypeIoapic → entry + 12 ≤ madtLen madt) ∧
  (entryType madt entry = madtTypeIso → entry + 4 ≤ madtLen madt ∧
    (irqSource madt entry < 16 → entry + 8 ≤ madtLen madt))

section

variable {madt : Mem} {p : MadtParsed} {entry : Nat} {es : List Nat}

theorem Entries.unique {es' : List Nat} (h : Entries madt entry es) (h' : Entries madt entry es') : es = es' := by
  induction h generalizing es' with
  | stop hnot =>
    cases h' with
    | stop => rfl
    | next hvalid => exact absurd hvalid hnot
  | next hvalid _ ih =>
    cases h' with
    | stop hnot => exact absurd hvalid hnot
    | next _ hrest => rw [ih hrest]

theorem fieldsRead_iff : (∀ i ∈ fieldsRead madt p entry, i < madtLen madt) ↔ FieldsIn madt p.numCpus entry := by
  unfold fieldsRead FieldsIn
  have hdiff : madtTypeLapic ≠ madtTypeIoapic ∧ madtTypeLapic ≠ madtTypeIso ∧ madtTypeIoapic ≠ madtTypeIso := by decide
  by_cases hl : entryType madt entry = madtTypeLapic
  · simp only [hl, if_true, hdiff, false_implies, and_true, true_implies]
    split
    · next hcpus =>
      simp only [List.mem_cons, List.mem_range'_1, forall_eq_or_imp, hcpus, true_implies]
      exact ⟨fun h => h.2 (entry + 7) (by omega), fun h => ⟨by omega, fun i hi => by omega⟩⟩
    · next hcpus => simp [hcpus]
  by_cases hi : entryType madt entry = madtTypeIoapic
  · simp only [hi, if_true, hdiff.1.symm, hdiff.2.2, if_false, false_implies, and_true, true_and, true_implies,
      List.mem_range'_1]
    exact ⟨fun h => h (entry + 11) (by omega), fun h i hi => by omega⟩
  by_cases hs : entryType madt entry = madtTypeIso
  · simp only [hs, if_true, hdiff.2.1.symm, hdiff.2.2.symm, if_false, false_implies, true_and, true_implies]
    split
    · next hirq =>
      simp only [List.mem_cons, List.mem_range'_1, forall_eq_or_imp, hirq, true_implies]
      exact ⟨fun h => ⟨h.1, h.2 (entry + 7) (by omega)⟩, fun h => ⟨h.1, fun i hi => by omega⟩⟩
    · next hirq =>
      simp only [List.mem_singleton, forall_eq, hirq, false_implies, and_true]
      exact Iff.rfl
  · simp [hl, hi, hs]

/-! ## The summary -/

theorem summary_init : Summary madt [] MadtParsed.init where
  numCpus := rfl
  cpus k e _ h := by simp [lapics] at h
  ioapic := rfl
  iso irq _ := rfl

theorem filter_concat_of_not {q : Nat → Bool} (h : q entry = false) : (es ++ [entry]).filter q = es.filter q := by
  simp [h]

theorem filter_concat {q : Nat → Bool} (h : q entry = true) : (es ++ [entry]).filter q = es.filter q ++ [entry] := by
  simp [h]

theorem Summary.concat_lapic (h : Summary madt es p) (hl : entryType madt entry = madtTypeLapic) :
    Summary madt (es ++ [entry]) (parseEntry madt p entry) := by
  have hnew : lapics madt (es ++ [entry]) = lapics madt es ++ [entry] := filter_concat (by simpa using hl)
  have hio : ioapics madt (es ++ [entry]) = ioapics madt es := filter_concat_of_not (by rw [hl]; decide)
  have hov : ∀ irq, overrides madt irq (es ++ [entry]) = overrides madt irq es := fun irq =>
    filter_concat_of_not (by rw [hl]; simp [madtTypeLapic, madtTypeIso])
  have hnum := h.numCpus
  rw [parseEntry, if_pos hl]
  split
  · next hcpus =>
    have hlen : p.numCpus = (lapics madt es).length := by omega
    refine ⟨?_, fun k e hk he => ?_, by rw [hio]; exact h.ioapic, fun irq hirq => by rw [hov]; exact h.iso irq hirq⟩
    · rw [hnew, List.length_append, List.length_singleton]
      simp only
      omega
    · rw [hnew, List.getElem?_append] at he
      split at he
      · next hlt =>
        have hne : k ≠ p.numCpus := by omega
        simp only [Function.update_of_ne hne]
        exact h.cpus k e hk he
      · next hge =>
        have hkn : k = p.numCpus := by
          have := (List.getElem?_eq_some_iff.1 he).1
          simp only [List.length_singleton] at this
          omega
        rw [hkn, hlen, Nat.sub_self, List.getElem?_cons_zero] at he
        injection he with he
        subst hkn he
        simp only [Function.update_self]
        exact ⟨trivial, trivial⟩
  · next hfull =>
    refine ⟨?_, fun k e hk he => ?_, by rw [hio]; exact h.ioapic, fun irq hirq => by rw [hov]; exact h.iso irq hirq⟩
    · rw [hnew, List.length_append, List.length_singleton]
      omega
    · rw [hnew, List.getElem?_append_left (by omega)] at he
      exact h.cpus k e hk he

theorem Summary.cpus_concat (h : Summary madt es p) (hl : entryType madt entry ≠ madtTypeLapic) :
    p.numCpus = min 8 (lapics madt (es ++ [entry])).length ∧
    ∀ k e, k < 8 → (lapics madt (es ++ [entry]))[k]? = some e →
      p.cpuApicIds k = apicId madt e ∧ p.cpuEnabled k = apicEnabled madt e := by
  rw [show lapics madt (es ++ [entry]) = lapics madt es from filter_concat_of_not (by simpa using hl)]
  exact ⟨h.numCpus, h.cpus⟩

theorem Summary.concat (h : Summary madt es p) (entry : Nat) :
    Summary madt (es ++ [entry]) (parseEntry madt p entry) := by
  by_cases hl : entryType madt entry = madtTypeLapic
  · exact h.concat_lapic hl
  obtain ⟨hnum, hcpus⟩ := h.cpus_concat hl
  rw [parseEntry, if_neg hl]
  by_cases hi : entryType madt entry = madtTypeIoapic
  · have hnew : ioapics madt (es ++ [entry]) = ioapics madt es ++ [entry] := filter_concat (by simpa using hi)
    have hov : ∀ irq, overrides madt irq (es ++ [entry]) = overrides madt irq es := fun irq =>
      filter_concat_of_not (by rw [hi]; simp [madtTypeIoapic, madtTypeIso])
    rw [if_pos hi]
    refine ⟨hnum, hcpus, ?_, fun irq hirq => by rw [hov]; exact h.iso irq hirq⟩
    rw [hnew, List.getLast?_concat]
    rfl
  have hio : ioapics madt (es ++ [entry]) = ioapics madt es := filter_concat_of_not (by simpa using hi)
  rw [if_neg hi]
  by_cases hs : entryType madt entry = madtTypeIso
  · have hnew : overrides madt (irqSource madt entry) (es ++ [entry]) =
        overrides madt (irqSource madt entry) es ++ [entry] := filter_concat (by simpa using hs)
    have hov : ∀ irq, irqSource madt entry ≠ irq → overrides madt irq (es ++ [entry]) = overrides madt irq es :=
      fun irq hne => filter_concat_of_not (by simpa using fun _ => hne)
    rw [if_pos hs]
    split
    · refine ⟨hnum, hcpus, by rw [hio]; exact h.ioapic, fun irq hirq => ?_⟩
      by_cases hsame : irqSource madt entry = irq
      · subst hsame
        rw [hnew, List.getLast?_concat]
        exact Function.update_self _ _ _
      · rw [hov irq hsame, ← h.iso irq hirq]
        exact Function.update_of_ne (Ne.symm hsame) _ _
    · refine ⟨hnum, hcpus, by rw [hio]; exact h.ioapic, fun irq hirq => ?_⟩
      rw [hov irq (by omega)]
      exact h.iso irq hirq
  · rw [if_neg hs]
    refine ⟨hnum, hcpus, by rw [hio]; exact h.ioapic, fun irq hirq => ?_⟩
    rw [show overrides madt irq (es ++ [entry]) = overrides madt irq es from
      filter_concat_of_not (by simpa using fun he => absurd he hs)]
    exact h.iso irq hirq

theorem summary_foldl : ∀ es : List Nat, Summary madt es (es.foldl (parseEntry madt) MadtParsed.init) := by
  intro es
  induction es using List.reverseRecOn with
  | nil => exact summary_init
  | append_singleton es entry ih =>
    rw [List.foldl_append, List.foldl_cons, List.foldl_nil]
    exact ih.concat entry

/-! ## The walk -/

theorem loop_madtTurn (hlen : madtLen madt < 2 ^ 31) : ∀ (m : Nat) (s : MadtWalk), madtLen madt - s.offset < m →
    ∃ n w es, loop (madtTurn madt) n s = some w ∧ Entries madt s.offset es ∧
      w.parsed = es.foldl (parseEntry madt) s.parsed ∧
      ((∀ i ∈ w.reads, i < madtLen madt) ↔ (∀ i ∈ s.reads, i < madtLen madt) ∧
        ∀ before e after, es = before ++ e :: after →
          FieldsIn madt (before.foldl (parseEntry madt) s.parsed).numCpus e)
  | 0, _, h => absurd h (Nat.not_lt_zero _)
  | m + 1, s, hm => by
    by_cases hhead : s.offset + madtEntryHeaderSize ≤ madtLen madt
    case neg =>
      have hstep : madtTurn madt s = .inr s := if_neg hhead
      refine ⟨1, s, [], loop_inr hstep 0, .stop fun h => hhead h.1, rfl, ?_⟩
      simp
    have hbyte : entryLength madt s.offset < 256 := (madt (s.offset + 1)).isLt
    have hsize : madtEntryHeaderSize = 2 := rfl
    have hmod : (s.offset + entryLength madt s.offset) % 2 ^ 32 = s.offset + entryLength madt s.offset :=
      Nat.mod_eq_of_lt (by omega)
    by_cases hbad : entryLength madt s.offset < madtEntryHeaderSize ∨
        madtLen madt < (s.offset + entryLength madt s.offset) % 2 ^ 32
    · have hstep : madtTurn madt s = .inr { s with reads := s.reads ++ [s.offset + 1] } := by
        rw [madtTurn, if_pos hhead]
        exact if_pos hbad
      refine ⟨1, _, [], loop_inr hstep 0, .stop fun h => ?_, rfl, ?_⟩
      · obtain ⟨-, h1, h2⟩ := h
        omega
      · simp only [List.mem_append, List.mem_singleton]
        constructor
        · exact fun h => ⟨fun i hi => h i (.inl hi), fun before e after he => by simp at he⟩
        · rintro ⟨h, -⟩ i (hi | rfl)
          · exact h i hi
          · omega
    · have hstep : madtTurn madt s = .inl
          { offset := (s.offset + entryLength madt s.offset) % 2 ^ 32
            parsed := parseEntry madt s.parsed s.offset
            reads := s.reads ++ [s.offset + 1, s.offset] ++ fieldsRead madt s.parsed s.offset } := by
        rw [madtTurn, if_pos hhead]
        exact if_neg hbad
      have hvalid : ValidEntry madt s.offset := ⟨hhead, by omega, by omega⟩
      obtain ⟨n, w, es, hloop, hes, hparsed, hreads⟩ := loop_madtTurn hlen m
        ⟨(s.offset + entryLength madt s.offset) % 2 ^ 32, parseEntry madt s.parsed s.offset,
          s.reads ++ [s.offset + 1, s.offset] ++ fieldsRead madt s.parsed s.offset⟩
        (show madtLen madt - (s.offset + entryLength madt s.offset) % 2 ^ 32 < m by omega)
      rw [hmod] at hes
      refine ⟨n + 1, w, s.offset :: es, by rw [loop_inl hstep]; exact hloop, .next hvalid hes, hparsed, ?_⟩
      rw [hreads]
      simp only [List.mem_append, List.mem_cons, List.not_mem_nil, or_false]
      constructor
      · rintro ⟨hall, hrest⟩
        refine ⟨fun i hi => hall i (.inl (.inl hi)), fun before e after he => ?_⟩
        cases before with
        | nil =>
          injection he with he
          subst he
          exact fieldsRead_iff.1 fun i hi => hall i (.inr hi)
        | cons b before =>
          injection he with hb he
          subst hb
          exact hrest before e after he
      · rintro ⟨hall, hrest⟩
        refine ⟨?_, fun before e after he => hrest (s.offset :: before) e after (by rw [he]; rfl)⟩
        rintro i ((hi | rfl | rfl) | hi)
        · exact hall i hi
        · omega
        · omega
        · exact fieldsRead_iff.2 (hrest [] s.offset es rfl) i hi

theorem walk_unique {n n' : Nat} {w w' s : MadtWalk} (h : loop (madtTurn madt) n s = some w)
    (h' : loop (madtTurn madt) n' s = some w') : w = w' := loop_unique h h'

end

/-- **The walk of a table is bounded and exact just where no entry that is read is cut off by the table's end**: the first
eight local APICs have their eight bytes in the table, each I/O APIC its twelve, each source override its first four,
and its eight where its irq is an ISA one. -/
theorem madtExact_iff (madt : Mem) (hmin : madtSize ≤ madtLen madt) (hlen : madtLen madt < 2 ^ 31) :
    MadtExact madt ↔ ∀ es, Entries madt madtSize es → ∀ before e after, es = before ++ e :: after →
      FieldsIn madt (lapics madt before).length e := by
  obtain ⟨n, w, es, hloop, hes, hparsed, hreads⟩ := loop_madtTurn hlen _ madtStart (Nat.lt_succ_self _)
  have hcpus : ∀ before e, FieldsIn madt (before.foldl (parseEntry madt) MadtParsed.init).numCpus e ↔
      FieldsIn madt (lapics madt before).length e := fun before e => by
    unfold FieldsIn
    rw [(summary_foldl before).numCpus]
    exact and_congr_left' (imp_congr_right fun _ => imp_congr_left (by omega))
  have hstart : ∀ i ∈ madtStart.reads, i < madtLen madt := fun i hi => by
    have := (List.mem_range'_1.1 hi).2
    unfold madtSize at hmin
    omega
  constructor
  · rintro ⟨n', w', es', hloop', hes', -, hin⟩ es'' hes'' before e after he
    rw [walk_unique hloop' hloop] at hin
    rw [hes''.unique hes] at he
    exact (hcpus before e).1 ((hreads.1 hin).2 before e after he)
  · intro hall
    refine ⟨n, w, es, hloop, hes, by rw [hparsed]; exact summary_foldl es, hreads.2 ⟨hstart, fun before e after he => ?_⟩⟩
    exact (hcpus before e).2 (hall es hes before e after he)

def emptyMadt : Mem := ofList [0x41, 0x50, 0x49, 0x43, 44, 0, 0, 0]

theorem madtExact_emptyMadt_iff : madtSize ≤ madtLen emptyMadt ∧ madtLen emptyMadt < 2 ^ 31 ∧
    (MadtExact emptyMadt ↔ ∀ es, Entries emptyMadt madtSize es → ∀ before e after, es = before ++ e :: after →
      FieldsIn emptyMadt (lapics emptyMadt before).length e) :=
  ⟨by decide, by decide, madtExact_iff emptyMadt (by decide) (by decide)⟩

def shortLapicMadt : Mem := ofList ([0x41, 0x50, 0x49, 0x43, 46, 0, 0, 0] ++ List.replicate 36 0 ++ [0, 2])

/-- **The short entry at the table's end is read past it.** -/
theorem not_madtExact : ¬∀ madt : Mem, madtSize ≤ madtLen madt → madtLen madt < 2 ^ 31 → MadtExact madt := by
  intro hall
  obtain ⟨n, w, es, hloop, -, -, hin⟩ := hall shortLapicMadt (by decide) (by decide)
  have hwalk : (loop (madtTurn shortLapicMadt) 2 madtStart).map (fun w => decide (47 ∈ w.reads)) = some true := by decide
  rw [Option.map_eq_some_iff] at hwalk
  obtain ⟨w', hw', hmem⟩ := hwalk
  rw [walk_unique hloop hw'] at hin
  have hlt := hin 47 (of_decide_eq_true hmem)
  exact absurd hlt (by decide)

end Hw
end AmitX
