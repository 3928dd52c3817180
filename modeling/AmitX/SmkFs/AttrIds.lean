import AmitX.SmkFs.AttrEdit
import AmitX.Lib.Run
/-!
# AttrIds — the ids of a type over adds and removals

The instances of a type that is not unique are told apart by their ids.  A new id is one above those in the buffer, so
it is new for good only as long as a removal leaves an instance with the highest id there: an id that only a removed
instance had is given again.
-/
namespace AmitX
namespace SmkFs
namespace AttrBuf

open Bytes Run

/-- The ids that the instances of a type have, as `record_iterate_attr` shows them. -/
def instanceIds (b : Buf) (t : Nat) : List Nat :=
  ((recordIterateAttr b t (fun id _ ids => (0, ids ++ [id])) []).map Prod.snd).getD []

inductive Call
  | add (bufSize : Nat) (data : List Byte)
  | remove
  | removeId (id : Nat)

/-- What is seen of a call: the ids before it, and the id of the instance that it added behind the others. -/
structure Event where
  had : List Nat
  given : Option Nat
  deriving DecidableEq

/-- A call on the instances of `t`; a walk that left the buffer would change nothing. -/
def idStep (t : Nat) (b : Buf) : Call → Event × Buf
  | .add bufSize data => match recordAddAttr b bufSize t data with
    | some (.ok (), b') => (⟨instanceIds b t, (instanceIds b' t).getLast?⟩, b')
    | some (.error _, b') => (⟨instanceIds b t, none⟩, b')
    | none => (⟨instanceIds b t, none⟩, b)
  | .remove => (⟨instanceIds b t, none⟩, (recordRemoveAttr b t).getD b)
  | .removeId id => (⟨instanceIds b t, none⟩, (recordRemoveAttrId b t id).getD b)

/-- A removal leaves an instance with the highest id; an add is of a size that fits its fields, and there is an id
above the highest one. -/
def KeepsHighest (t : Nat) (b : Buf) : Call → Prop
  | .add bufSize data => bufSize ≤ b.size ∧ data.length < 2 ^ 32 ∧ ∀ id ∈ instanceIds b t, id + 1 < 2 ^ 32
  | .remove => (eraseLast (fun _ => true) (instanceIds b t)).max? = (instanceIds b t).max?
  | .removeId id => (eraseLast (fun x => x == id) (instanceIds b t)).max? = (instanceIds b t).max?

def NeverReused (es : List Event) : Prop :=
  ∀ before e after id, es = before ++ e :: after → e.given = some id → id ∉ e.had ∧ ∀ e' ∈ before, id ∉ e'.had

def ids (t : Nat) (l : List Tlv) : List Nat := (l.filter (fun a => a.type = t)).map Tlv.id

section
variable {b : Buf} {l l₁ l₂ : List Tlv} {a : Tlv} {t id : Nat}

theorem instanceIds_ended (h : Ended b l) (t : Nat) : instanceIds b t = ids t l := by
  have hvisit : ∀ (l : List Tlv) (ctx : List Nat),
      visitAll (fun id _ ids => (0, ids ++ [id])) l ctx = (0, ctx ++ l.map Tlv.id) := by
    intro l
    induction l with
    | nil => exact fun ctx => by rw [visitAll, List.map_nil, List.append_nil]
    | cons a l ih =>
      intro ctx
      rw [visitAll]
      simp only [if_true]
      rw [ih, List.append_assoc, List.map_cons, List.singleton_append]
  rw [instanceIds, recordIterateAttr_ended h, hvisit]
  rfl

@[simp] theorem ids_append (t : Nat) (l₁ l₂ : List Tlv) : ids t (l₁ ++ l₂) = ids t l₁ ++ ids t l₂ := by
  simp [ids]

theorem ids_cons_of_eq (h : a.type = t) (l : List Tlv) : ids t (a :: l) = a.id :: ids t l := by
  simp [ids, h]

theorem ids_eq_nil (h : ∀ a ∈ l, (a.type == t) = false) : ids t l = [] := by
  rw [ids, List.map_eq_nil_iff, List.filter_eq_nil_iff]
  intro a ha
  simpa using h a ha

theorem mem_ids : id ∈ ids t l ↔ ∃ a ∈ l, a.type = t ∧ a.id = id := by
  simp [ids, and_assoc]

theorem ids_eraseLast (t : Nat) (l : List Tlv) :
    ids t (eraseLast (fun a => a.type == t) l) = eraseLast (fun _ => true) (ids t l) := by
  rcases exists_last (fun a : Tlv => a.type == t) l with hn | ⟨l₁, a, l₂, rfl, ha, hn⟩
  · rw [eraseLast_of_forall (q := fun a : Tlv => a.type == t) hn, ids_eq_nil hn]
    rfl
  · rw [eraseLast_split (q := fun a : Tlv => a.type == t) ha hn, ids_append, ids_append, ids_eq_nil hn,
      ids_cons_of_eq (beq_iff_eq.1 ha), ids_eq_nil hn, eraseLast_split rfl (fun y hy => by cases hy)]

theorem ids_eraseLast_id (t id : Nat) (l : List Tlv) :
    ids t (eraseLast (fun a => a.type == t && a.id == id) l) = eraseLast (fun x => x == id) (ids t l) := by
  have hfree : ∀ {l : List Tlv}, (∀ x ∈ l, (x.type == t && x.id == id) = false) → ∀ x ∈ ids t l, (x == id) = false := by
    intro l hn x hx
    obtain ⟨a, ha, ht, rfl⟩ := mem_ids.1 hx
    have hna := hn a ha
    rwa [beq_iff_eq.2 ht, Bool.true_and] at hna
  rcases exists_last (fun a : Tlv => a.type == t && a.id == id) l with hn | ⟨l₁, a, l₂, rfl, ha, hn⟩
  · rw [eraseLast_of_forall (q := fun a : Tlv => a.type == t && a.id == id) hn, eraseLast_of_forall (hfree hn)]
  · have ht := (Bool.and_eq_true_iff.1 ha)
    rw [eraseLast_split (q := fun a : Tlv => a.type == t && a.id == id) ha hn, ids_append, ids_append,
      ids_cons_of_eq (beq_iff_eq.1 ht.1), eraseLast_split (q := fun x => x == id) ht.2 (hfree hn)]

end

/-! ## Runs -/

theorem neverReused_concat {es : List Event} {e : Event} (h : NeverReused es)
    (he : ∀ id, e.given = some id → id ∉ e.had ∧ ∀ e' ∈ es, id ∉ e'.had) : NeverReused (es ++ [e]) := by
  intro before e' after id hes hid
  rcases List.eq_nil_or_concat after with rfl | ⟨after', x, rfl⟩
  · obtain ⟨rfl, hd⟩ := List.append_inj' hes rfl
    injection hd with hd
    subst hd
    exact he id hid
  · have hes' : es ++ [e] = (before ++ e' :: after') ++ [x] := by simpa using hes
    obtain ⟨rfl, -⟩ := List.append_inj' hes' rfl
    exact h before e' after' id rfl hid

/-- The highest id in the buffer bounds every id that was there. -/
structure IdInv (t : Nat) (es : List Event) (b : Buf) (l : List Tlv) : Prop where
  holds : Holds b l
  fresh : NeverReused es
  bound : ∀ e ∈ es, ∀ id ∈ e.had, ∃ m, (ids t l).max? = some m ∧ id ≤ m

section
variable {b b' : Buf} {l l' : List Tlv} {t : Nat} {es : List Event}

theorem exists_max {l : List Nat} {id : Nat} (h : id ∈ l) : ∃ m, l.max? = some m ∧ id ≤ m := by
  cases hm : l.max? with
  | none =>
    rw [List.max?_eq_none_iff] at hm
    rw [hm] at h
    cases h
  | some m => exact ⟨m, rfl, (List.max?_eq_some_iff.1 hm).2 id h⟩

theorem IdInv.keep (h : IdInv t es b l) (hl : Holds b' l') (hmax : (ids t l').max? = (ids t l).max?) :
    IdInv t (es ++ [⟨instanceIds b t, none⟩]) b' l' := by
  refine ⟨hl, neverReused_concat h.fresh (fun id hid => by cases hid), fun e he id hid => ?_⟩
  rw [hmax]
  rcases List.mem_append.1 he with he | he
  · exact h.bound e he id hid
  · rw [List.mem_singleton.1 he, instanceIds_ended h.holds.toEnded] at hid
    exact exists_max hid

theorem IdInv.add (h : IdInv t es b l) {a : Tlv} (hl : Holds b' (l ++ [a])) (ht : a.type = t)
    (hid : a.id = nextId t l) (hroom : ∀ id ∈ ids t l, id + 1 < 2 ^ 32) :
    IdInv t (es ++ [⟨instanceIds b t, (instanceIds b' t).getLast?⟩]) b' (l ++ [a]) := by
  have hids : ids t (l ++ [a]) = ids t l ++ [a.id] := by rw [ids_append, ids_cons_of_eq ht]; rfl
  have habove : ∀ m, (ids t l).max? = some m → m < a.id := by
    intro m hm
    have hlt := hroom m (List.max?_mem hm)
    rw [hid, nextId, highest, show ((l.filter (fun a => a.type = t)).map Tlv.id).max? = some m from hm]
    simp only [add32]
    rw [Nat.mod_eq_of_lt hlt]
    omega
  have hnew : ∀ {ids' : List Nat}, (∀ x ∈ ids', ∃ m, (ids t l).max? = some m ∧ x ≤ m) → a.id ∉ ids' := by
    intro ids' hb hmem
    obtain ⟨m, hm, hle⟩ := hb a.id hmem
    have := habove m hm
    omega
  refine ⟨hl, neverReused_concat h.fresh (fun id hg => ?_), fun e he id hmem => ?_⟩
  · rw [instanceIds_ended hl.toEnded, hids, List.getLast?_concat, Option.some.injEq] at hg
    subst hg
    rw [instanceIds_ended h.holds.toEnded]
    exact ⟨hnew (fun x hx => exists_max hx), fun e he => hnew (h.bound e he)⟩
  · have hold : ∃ m, (ids t l).max? = some m ∧ id ≤ m := by
      rcases List.mem_append.1 he with he | he
      · exact h.bound e he id hmem
      · rw [List.mem_singleton.1 he, instanceIds_ended h.holds.toEnded] at hmem
        exact exists_max hmem
    obtain ⟨m, hm, hle⟩ := hold
    obtain ⟨m', hm', hle'⟩ := exists_max (show a.id ∈ ids t (l ++ [a]) by rw [hids]; simp)
    have := habove m hm
    exact ⟨m', hm', by omega⟩

theorem idInv_step {flags : Nat} (ht : smkfsAttrLookup t = some flags) (hu : isUnique t = false) (h : IdInv t es b l)
    (c : Call) (hc : KeepsHighest t b c) : ∃ l', IdInv t (es ++ [(idStep t b c).1]) (idStep t b c).2 l' := by
  have hids := instanceIds_ended h.holds.toEnded t
  cases c with
  | remove =>
    obtain ⟨b', hrem, -, hholds⟩ := recordRemoveAttr_holds h.holds t
    rw [KeepsHighest, hids] at hc
    rw [idStep, hrem, Option.getD_some]
    exact ⟨_, h.keep hholds (by rw [ids_eraseLast, hc])⟩
  | removeId id =>
    obtain ⟨b', hrem, -, hholds⟩ := recordRemoveAttrId_holds h.holds t id
    rw [KeepsHighest, hids] at hc
    rw [idStep, hrem, Option.getD_some]
    exact ⟨_, h.keep hholds (by rw [ids_eraseLast_id, hc])⟩
  | add bufSize data =>
    obtain ⟨hsize, hlen, hroom⟩ := hc
    rw [hids] at hroom
    have hend : t ≠ attrtEnd := by
      rintro rfl
      cases hu
    have hkept : kept t l = l := by rw [kept, hu]; rfl
    by_cases hs : bufSize < 2 * attrHeaderSize + data.length
    · have hadd : recordAddAttr b bufSize t data = some (.error .nospc, b) := by rw [recordAddAttr, if_pos hs]
      rw [idStep, hadd]
      exact ⟨l, h.keep h.holds rfl⟩
    · by_cases hfit : (encode (kept t l)).length + 3 * attrHeaderSize + data.length ≤ bufSize
      · obtain ⟨b', hadd, -, hholds⟩ := recordAddAttr_ok h.holds ht hend hlen hsize hfit
        rw [hkept] at hholds
        rw [idStep, hadd]
        refine ⟨_, h.add hholds rfl ?_ hroom⟩
        show givenId t l = _
        rw [givenId, hu]
        rfl
      · obtain ⟨b₁, -, hholds, hadd, hsame, -⟩ := recordAddAttr_kept h.holds ht bufSize data (Nat.le_of_not_lt hs)
        have hb : b₁ = b := hsame hu
        subst hb
        have hrefused := hadd.trans (appendAttr_nospc hholds.toEnded (by omega))
        rw [idStep, hrefused]
        exact ⟨l, h.keep h.holds rfl⟩

/-- **Ids are not given again in a run that keeps the highest one.** -/
theorem ids_neverReused {flags : Nat} (ht : smkfsAttrLookup t = some flags) (hu : isUnique t = false) (h : Holds b l)
    (cs : List Call) (hA : Allowed (idStep t) (fun _ => KeepsHighest t) b cs) :
    NeverReused (run (idStep t) b cs).1 := by
  have hstart : IdInv t [] b l := by
    refine ⟨h, fun before e after id hes _ => ?_, fun e he => by cases he⟩
    cases before <;> cases hes
  obtain ⟨l', hinv⟩ := run_keeps (I := fun es b => ∃ l, IdInv t es b l)
    (fun _ _ c ⟨_, hi⟩ hc => idInv_step ht hu hi c hc) ⟨l, hstart⟩ cs hA
  exact hinv.fresh

/-- **An id is given twice**: an instance is added, removed, and added again. -/
theorem id_reused : Holds blankBuf [] ∧ ¬NeverReused (run (idStep 8) blankBuf
    [.add attrBufSize (List.replicate 24 0#8), .remove, .add attrBufSize (List.replicate 24 1#8)]).1 := by
  have hrun : (run (idStep 8) blankBuf
      [.add attrBufSize (List.replicate 24 0#8), .remove, .add attrBufSize (List.replicate 24 1#8)]).1 =
      [⟨[], some 0⟩, ⟨[0], none⟩, ⟨[], some 0⟩] := by
    decide
  refine ⟨holds_blankBuf, fun h => ?_⟩
  rw [hrun] at h
  have hnew := (h [⟨[], some 0⟩, ⟨[0], none⟩] ⟨[], some 0⟩ [] 0 rfl rfl).2 ⟨[0], none⟩ (by simp)
  simp at hnew

instance (t : Nat) (b : Buf) : (c : Call) → Decidable (KeepsHighest t b c)
  | .add _ _ => inferInstanceAs (Decidable (_ ∧ _ ∧ _))
  | .remove => inferInstanceAs (Decidable (_ = _))
  | .removeId _ => inferInstanceAs (Decidable (_ = _))

/-- Three instances, the first of them removed before the third comes. -/
theorem ids_neverReused_three : NeverReused (run (idStep 8) blankBuf [.add attrBufSize (List.replicate 24 0#8),
    .add attrBufSize (List.replicate 24 1#8), .removeId 0, .add attrBufSize (List.replicate 24 2#8)]).1 :=
  ids_neverReused (show smkfsAttrLookup 8 = some 0 by decide) (by decide) holds_blankBuf _
    (allowed_cons.2 ⟨by decide +kernel, allowed_cons.2 ⟨by decide +kernel, allowed_cons.2 ⟨by decide +kernel,
      allowed_cons.2 ⟨by decide +kernel, allowed_nil _⟩⟩⟩⟩)

end

end AttrBuf
end SmkFs
end AmitX
