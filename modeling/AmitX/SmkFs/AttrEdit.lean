import AmitX.SmkFs.AttrSpec
/-!
# AttrEdit — what `record_add_attr` leaves behind

An add of a registered type drops the old instance of a unique type, and then needs room for the attribute and for two
headers more than are there.  So a buffer acts as a list as long as that room is there (`attrs_as_list`); an add that
is refused leaves the buffer alone except where a unique attribute was dropped before (`addRefused_iff`).
-/
namespace AmitX
namespace SmkFs
namespace AttrBuf

open Bytes

def isUnique (t : Nat) : Bool :=
  match smkfsAttrLookup t with
  | none => false
  | some flags => flags &&& attrfUnique != 0

def kept (t : Nat) (l : List Tlv) : List Tlv := if isUnique t then eraseLast (fun a => a.type == t) l else l

def givenId (t : Nat) (l : List Tlv) : Nat := if isUnique t then 0 else nextId t l

section
variable {b : Buf} {l : List Tlv} {t bufSize : Nat} {data : List Byte}

theorem givenId_lt (t : Nat) (l : List Tlv) : givenId t l < 2 ^ 32 := by
  have hadd : ∀ m, add32 m 1 < 2 ^ 32 := by
    intro m
    rw [add32]
    exact Nat.mod_lt _ (by decide)
  unfold givenId nextId
  split
  · decide
  · cases highest t l with
    | none => decide
    | some m => exact hadd m

theorem lookup_lt {flags : Nat} (h : smkfsAttrLookup t = some flags) : t < 2 ^ 16 := by
  rw [smkfsAttrLookup, Option.map_eq_some_iff] at h
  obtain ⟨p, hp, -⟩ := h
  have hmem := List.mem_of_find?_eq_some hp
  have ht : p.1 = t := by simpa using List.find?_some hp
  have hall : ∀ p ∈ attrRegistry, p.1 < 2 ^ 16 := by decide
  exact ht ▸ hall p hmem

def added (t : Nat) (l : List Tlv) (data : List Byte) (ht : t ≠ attrtEnd) (hlt : t < 2 ^ 16)
    (hlen : data.length < 2 ^ 32) : Tlv :=
  ⟨t, 0, givenId t l, data, ht, hlt, by decide, givenId_lt t l, hlen⟩

theorem recordAddAttr_kept (h : Holds b l) {flags : Nat} (ht : smkfsAttrLookup t = some flags) (bufSize : Nat)
    (data : List Byte) (hs : 2 * attrHeaderSize + data.length ≤ bufSize) : ∃ b', b'.size = b.size ∧ Holds b' (kept t l) ∧
      recordAddAttr b bufSize t data = appendAttr b' bufSize t (givenId t l) data ∧
      (isUnique t = false → b' = b) ∧ ((∀ a ∈ l, a.type ≠ t) → b' = b) := by
  rw [recordAddAttr, if_neg (by omega), ht]
  simp only
  by_cases hu : flags &&& attrfUnique = 0
  · have hun : isUnique t = false := by simp [isUnique, ht, hu]
    rw [if_neg (by simpa using hu), freshId_ended h.toEnded, kept, givenId, hun]
    exact ⟨b, rfl, h, rfl, fun _ => rfl, fun _ => rfl⟩
  · have hun : isUnique t = true := by simp [isUnique, ht, hu]
    obtain ⟨b', hrem, hsize, hholds⟩ := recordRemoveAttr_holds h t
    rw [if_pos hu, hrem, kept, givenId, hun]
    refine ⟨b', hsize, hholds, rfl, fun hf => (by cases hf), fun hn => ?_⟩
    have hsame := removeLast_none h.toEnded (picks_type b t) (fun a ha => beq_eq_false_iff_ne.2 (hn a ha))
    exact Option.some.inj (hrem.symm.trans hsame)

theorem recordAddAttr_ok (h : Holds b l) {flags : Nat} (ht : smkfsAttrLookup t = some flags) (hend : t ≠ attrtEnd)
    (hlen : data.length < 2 ^ 32) (hsize : bufSize ≤ b.size)
    (hs : (encode (kept t l)).length + 3 * attrHeaderSize + data.length ≤ bufSize) :
    ∃ b', recordAddAttr b bufSize t data = some (.ok (), b') ∧ b'.size = b.size ∧
      Holds b' (kept t l ++ [added t l data hend (lookup_lt ht) hlen]) := by
  obtain ⟨b', hb', hholds, hadd, -⟩ := recordAddAttr_kept h ht bufSize data (by omega)
  obtain ⟨b'', happ, hsize', hfin⟩ := appendAttr_ok (a := added t l data hend (lookup_lt ht) hlen)
    hholds.toEnded hs (by omega) rfl rfl (rfl : _ = givenId t l) rfl
  exact ⟨b'', hadd.trans happ, hsize'.trans hb', hfin⟩

/-- **A well-formed attribute buffer acts as the list of its attributes.** -/
theorem attrs_as_list (h : Holds b l) :
    (∀ t, match l.find? (fun a => a.type = t) with
      | none => recordFindAttr b t = some (.error .notfound)
      | some a => ∃ q, recordFindAttr b t = some (.ok (q, a.data.length)) ∧ At b.mem q a.data) ∧
    (∀ (σ : Type) t (cb : Nat → List Byte → σ → Int × σ) ctx,
      recordIterateAttr b t cb ctx = some (visitAll cb (l.filter (fun a => a.type = t)) ctx)) ∧
    (∀ t, ∃ b', recordRemoveAttr b t = some b' ∧ b'.size = b.size ∧
      Holds b' (eraseLast (fun a => a.type == t) l)) ∧
    (∀ t id, ∃ b', recordRemoveAttrId b t id = some b' ∧ b'.size = b.size ∧
      Holds b' (eraseLast (fun a => a.type == t && a.id == id) l)) ∧
    attrBufTotalLen b = some ((encode l).length + attrHeaderSize) ∧
    ∀ t data bufSize, (∃ flags, smkfsAttrLookup t = some flags) → t ≠ attrtEnd → data.length < 2 ^ 32 →
      bufSize ≤ b.size → (encode (kept t l)).length + 3 * attrHeaderSize + data.length ≤ bufSize →
      ∃ b' a, recordAddAttr b bufSize t data = some (.ok (), b') ∧ b'.size = b.size ∧ Holds b' (kept t l ++ [a]) ∧
        a.type = t ∧ a.id = givenId t l ∧ a.data = data := by
  refine ⟨fun t => ?_, fun σ t cb ctx => recordIterateAttr_ended h.toEnded t cb ctx, recordRemoveAttr_holds h,
    recordRemoveAttrId_holds h, ?_, ?_⟩
  · cases hf : l.find? (fun a => a.type = t) with
    | none =>
      exact recordFindAttr_none h.toEnded (fun a ha => by simpa using List.find?_eq_none.1 hf a ha)
    | some a =>
      obtain ⟨q, hq, hat, -⟩ := recordFindAttr_some h.toEnded hf
      exact ⟨q, hq, hat⟩
  · rw [attrBufTotalLen_ended h.toEnded, h.length, Nat.add_zero]
  · rintro t data bufSize ⟨flags, ht⟩ hend hlen hsize hs
    obtain ⟨b', hadd, hb', hholds⟩ := recordAddAttr_ok h ht hend hlen hsize hs
    exact ⟨b', _, hadd, hb', hholds, rfl, rfl, rfl⟩

end

/-! ## An unused type -/

/-- A buffer of `size` bytes with the attributes in it, and zeros behind them. -/
def bufOf (l : List Tlv) (size : Nat) : Buf := ⟨ofList (encode l), size⟩

theorem holds_bufOf {l : List Tlv} {size : Nat} (h : (encode l).length + attrHeaderSize ≤ size) :
    Holds (bufOf l size) l := by
  have hzero : ∀ i n, n ≤ 4 → load (ofList (encode l)) ((encode l).length + i) n = 0 := by
    intro i n hn
    have hload : load (ofList (encode l)) ((encode l).length + i) n = load (fun _ => 0) 0 n := by
      have hright := load_append_right (encode l) [] i n
      rw [List.append_nil] at hright
      rw [hright]
      apply (load_divs (v := 0) (fun j _ => ?_)).trans (load_divs (v := 0) (fun j _ => ?_)).symm
      · simp [ofList]
      · simp
    rw [hload]
    exact (load_divs (v := 0) (fun j _ => by simp)).trans (Nat.zero_mod _)
  refine ⟨⟨?_, hzero 0 2 (by decide), h⟩, hzero 8 4 (by decide)⟩
  intro i _
  rw [Nat.zero_add]
  rfl

def blankBuf : Buf := bufOf [] attrBufSize

theorem holds_blankBuf : Holds blankBuf [] := holds_bufOf (by decide)

/-- A blank buffer takes in a name of one byte. -/
theorem attrs_as_list_blankBuf : attrBufTotalLen blankBuf = some attrHeaderSize ∧
    ∃ b' a, recordAddAttr blankBuf attrBufSize 1 [0#8] = some (.ok (), b') ∧ b'.size = blankBuf.size ∧
      Holds b' (kept 1 [] ++ [a]) ∧ a.type = 1 ∧ a.id = givenId 1 [] ∧ a.data = [0#8] :=
  have h := attrs_as_list holds_blankBuf
  ⟨h.2.2.2.2.1, h.2.2.2.2.2 1 [0#8] attrBufSize ⟨1, by decide⟩ (by decide) (by decide) (by decide) (by decide)⟩

/-- **A type without a row is not appended**, whatever room there is. -/
theorem unknown_not_appended : Holds blankBuf [] ∧
    ¬∃ b', recordAddAttr blankBuf attrBufSize 11 [] = some (.ok (), b') := by
  refine ⟨holds_blankBuf, ?_⟩
  rintro ⟨b', h⟩
  have hinval : recordAddAttr blankBuf attrBufSize 11 [] = some (.error .inval, blankBuf) := rfl
  rw [hinval] at h
  simp at h

/-! ## A refused add -/

def resultLength (t : Nat) (l : List Tlv) (data : List Byte) : Nat :=
  (encode (kept t l)).length + attrHeaderSize + data.length + attrHeaderSize

/-- A refused add leaves the bytes alone, and it is refused for its size only if the result would not fit. -/
def RefusedAlone (b : Buf) (l : List Tlv) (bufSize t : Nat) (data : List Byte) : Prop :=
  ∀ e b', recordAddAttr b bufSize t data = some (.error e, b') →
    (∀ i, i < b.size → b'.mem i = b.mem i) ∧ (e = .nospc → bufSize < resultLength t l data)

section
variable {b : Buf} {l l₁ l₂ : List Tlv} {a : Tlv} {t bufSize : Nat} {data : List Byte}

/-- The type in the first header of a list and its `END`. -/
def headType : List Tlv → Nat
  | [] => attrtEnd
  | a :: _ => a.type

theorem Ended.next (h : Ended b (l₁ ++ l₂)) : load b.mem (encode l₁).length 2 = headType l₂ := by
  cases l₂ with
  | nil =>
    have ht := h.type
    rwa [List.append_nil] at ht
  | cons a l₂ => exact (at_attrHeader h.lies.header).1.load a.type_lt

theorem move_changes {b' : Buf} (h : Ended b (l₁ ++ a :: l₂)) (h' : Ended b' (l₁ ++ l₂)) (ha : a.type = t)
    (hn : ∀ x ∈ l₂, x.type ≠ t) (ht : t ≠ attrtEnd) : ¬∀ i, i < b.size → b'.mem i = b.mem i := by
  intro hsame
  have hin := h.lies.inside
  unfold attrHeaderSize at hin
  have hload : load b'.mem (encode l₁).length 2 = load b.mem (encode l₁).length 2 :=
    load_congr (fun i _ hi => hsame i (by omega))
  rw [h.next, h'.next, headType, ha] at hload
  cases l₂ with
  | nil => exact ht hload.symm
  | cons x l₂ => exact hn x List.mem_cons_self hload

theorem appendAttr_room {newId : Nat} (h : Ended b l) (hs : (encode l).length + 3 * attrHeaderSize + data.length ≤ bufSize)
    (e : Err) (b' : Buf) : appendAttr b bufSize t newId data ≠ some (.error e, b') := by
  rw [appendAttr, walkFrom_end h]
  simp only [Option.bind_eq_bind, Option.bind_some]
  rw [if_neg (by omega)]
  cases b.write (encode l).length (attrHeader t 0 newId data.length) with
  | none => simp
  | some b₁ =>
    rw [Option.bind_some]
    cases b₁.write ((encode l).length + attrHeaderSize) data with
    | none => simp
    | some b₂ =>
      rw [Option.bind_some]
      cases b₂.write ((encode l).length + attrHeaderSize + data.length) (attrHeader attrtEnd 0 0 0) with
      | none => simp
      | some b₃ => simp [pure]

/-- **When a refused add leaves the buffer alone**: it is refused by the first checks, or it is not refused since there
is room for the result and one header more, or no attribute is dropped and the result would not fit. -/
theorem addRefused_iff (h : Holds b l) (t bufSize : Nat) (data : List Byte) : RefusedAlone b l bufSize t data ↔
    bufSize < 2 * attrHeaderSize + data.length ∨ smkfsAttrLookup t = none ∨
    resultLength t l data + attrHeaderSize ≤ bufSize ∨
    (isUnique t = true → ∀ a ∈ l, a.type ≠ t) ∧ bufSize < resultLength t l data := by
  by_cases hs : bufSize < 2 * attrHeaderSize + data.length
  · have hadd : recordAddAttr b bufSize t data = some (.error .nospc, b) := by rw [recordAddAttr, if_pos hs]
    refine iff_of_true (fun e b' he => ?_) (Or.inl hs)
    cases hadd.symm.trans he
    exact ⟨fun _ _ => rfl, fun _ => by unfold resultLength; omega⟩
  cases hl : smkfsAttrLookup t with
  | none =>
    have hadd : recordAddAttr b bufSize t data = some (.error .inval, b) := by rw [recordAddAttr, if_neg hs, hl]
    refine iff_of_true (fun e b' he => ?_) (Or.inr (Or.inl rfl))
    cases hadd.symm.trans he
    exact ⟨fun _ _ => rfl, fun he => by cases he⟩
  | some flags =>
    obtain ⟨b₁, -, hholds, hadd, hmulti, hnone⟩ := recordAddAttr_kept h hl bufSize data (Nat.le_of_not_lt hs)
    by_cases hroom : resultLength t l data + attrHeaderSize ≤ bufSize
    · refine iff_of_true (fun e b' he => ?_) (Or.inr (Or.inr (Or.inl hroom)))
      rw [hadd] at he
      exact absurd he (appendAttr_room hholds.toEnded (by unfold resultLength at hroom; omega) e b')
    have hrefused : recordAddAttr b bufSize t data = some (.error .nospc, b₁) :=
      hadd.trans (appendAttr_nospc hholds.toEnded (by unfold resultLength at hroom; omega))
    constructor
    · intro halone
      obtain ⟨hsame, hfit⟩ := halone _ _ hrefused
      refine Or.inr (Or.inr (Or.inr ⟨fun hu a ha hat => ?_, hfit rfl⟩))
      rcases exists_last (fun a : Tlv => a.type == t) l with hn | ⟨l₁, x, l₂, rfl, hx, hn⟩
      · exact beq_eq_false_iff_ne.1 (hn a ha) hat
      · rw [kept, if_pos hu, eraseLast_split (q := fun a : Tlv => a.type == t) hx hn] at hholds
        exact move_changes h.toEnded hholds.toEnded (beq_iff_eq.1 hx) (fun y hy => beq_eq_false_iff_ne.1 (hn y hy))
          (hat ▸ a.type_ne) hsame
    · rintro (h1 | h1 | h1 | ⟨hdrop, hfit⟩)
      · exact absurd h1 hs
      · cases h1
      · exact absurd h1 hroom
      · have hb : b₁ = b := by
          cases hu : isUnique t with
          | false => exact hmulti hu
          | true => exact hnone (hdrop hu)
        subst hb
        intro e b' he
        cases hrefused.symm.trans he
        exact ⟨fun _ _ => rfl, fun _ => hfit⟩

def linkAttr : Tlv := ⟨9, 0, 0, List.replicate 4 1#8, by decide, by decide, by decide, by decide, by decide⟩

def linkBuf : Buf := bufOf [linkAttr] attrBufSize

theorem holds_linkBuf : Holds linkBuf [linkAttr] := holds_bufOf (by decide)

/-- **A longer target is refused and the old one is gone**, though the longer one would have fitted. -/
theorem linkBuf_not_alone : Holds linkBuf [linkAttr] ∧
    (∃ b', recordAddAttr linkBuf attrBufSize 9 (List.replicate 4008 1#8) = some (.error .nospc, b') ∧
      recordFindAttr b' 9 = some (.error .notfound)) ∧
    ¬RefusedAlone linkBuf [linkAttr] attrBufSize 9 (List.replicate 4008 1#8) := by
  have hlookup : smkfsAttrLookup 9 = some attrfUnique := rfl
  have hkept : kept 9 [linkAttr] = [] := rfl
  have hlen : (List.replicate 4008 1#8).length = 4008 := List.length_replicate
  have hroom : attrBufSize = 4040 := rfl
  have hheader : attrHeaderSize = 12 := rfl
  obtain ⟨b₁, -, hholds, hadd, -⟩ := recordAddAttr_kept holds_linkBuf hlookup attrBufSize
    (List.replicate 4008 1#8) (by omega)
  rw [hkept] at hholds
  have hrefused := hadd.trans (appendAttr_nospc hholds.toEnded (by rw [encode_nil, List.length_nil]; omega))
  refine ⟨holds_linkBuf, ⟨b₁, hrefused, recordFindAttr_none hholds.toEnded (fun a ha => by cases ha)⟩, fun halone => ?_⟩
  have hfit := (halone _ _ hrefused).2 rfl
  rw [resultLength, hkept, encode_nil, List.length_nil] at hfit
  omega

/-- A blank buffer refuses what is too long for it, and stays blank. -/
theorem addRefused_blankBuf : RefusedAlone blankBuf [] attrBufSize 9 (List.replicate 4040 1#8) :=
  (addRefused_iff holds_blankBuf 9 attrBufSize _).2 (Or.inl (by rw [List.length_replicate]; decide))

end

end AttrBuf
end SmkFs
end AmitX
