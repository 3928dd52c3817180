import AmitX.SmkFs.PathOps
import AmitX.SmkFs.Rebuild
/-!
# AttrEdits — how many attributes a record has after an edit

The edits that the calls make to the attributes of a record, as far as the number of them and the room they take are
concerned.  A unique attribute that is there already is replaced, so that the number stays; one that is not there is added.
-/
namespace AmitX
namespace SmkFs

open Prog

/-- There is room to replace the root of a tree: the attributes fit, and a `DATA` attribute is no shorter than a root. -/
structure Roomy (attrs : List Attr) : Prop where
  room : attrBufTotalLen attrs + attrHeaderSize ≤ attrBufSize
  root : ∀ a ∈ attrs, a.type = .data → 8 ≤ a.data.length

/-- The count of a record is right, and the root of its tree can be replaced. -/
structure Counted (rec : Record) (attrs : List Attr) : Prop extends Roomy attrs where
  count : rec.attrCount = attrs.length

section

variable {attrs attrs' xs ys : List Attr} {a : Attr} {type : AttrType} {data : AttrData} {unique : Bool}

/-! ## Room -/

theorem attrBufTotalLen_append_one (xs : List Attr) (a : Attr) :
    attrBufTotalLen (xs ++ [a]) = attrBufTotalLen xs + (attrHeaderSize + a.data.length) := by
  simp only [attrBufTotalLen, List.map_append, List.sum_append, List.map_cons, List.map_nil, List.sum_cons, List.sum_nil]
  omega

theorem attrBufTotalLen_cons (a : Attr) (xs : List Attr) :
    attrBufTotalLen (a :: xs) = attrHeaderSize + a.data.length + attrBufTotalLen xs := by
  simp only [attrBufTotalLen, List.map_cons, List.sum_cons]
  omega

theorem attrBufTotalLen_sublist (h : xs.Sublist ys) : attrBufTotalLen xs ≤ attrBufTotalLen ys := by
  induction h with
  | slnil => exact Nat.le_refl _
  | cons a _ ih =>
    rw [attrBufTotalLen_cons]
    omega
  | cons_cons a _ ih =>
    rw [attrBufTotalLen_cons, attrBufTotalLen_cons]
    omega

theorem attrBufTotalLen_perm (h : xs.Perm ys) : attrBufTotalLen xs = attrBufTotalLen ys := by
  rw [attrBufTotalLen, attrBufTotalLen, (h.map _).sum_nat]

theorem Roomy.sublist (h : Roomy ys) (hs : xs.Sublist ys) : Roomy xs :=
  ⟨Nat.le_trans (Nat.add_le_add_right (attrBufTotalLen_sublist hs) _) h.room, fun a ha => h.root a (hs.subset ha)⟩

theorem roomy_nil : Roomy [] := ⟨by decide, fun _ ha => by cases ha⟩

/-! ## Removing -/

theorem dropLastAttr_sublist (p : Attr → Bool) (attrs : List Attr) : (dropLastAttr p attrs).Sublist attrs :=
  List.reverse_sublist.1 (by rw [dropLastAttr, List.reverse_reverse]; exact List.eraseP_sublist)

theorem recordRemoveAttr_sublist (type : AttrType) (attrs : List Attr) : (recordRemoveAttr type attrs).Sublist attrs :=
  dropLastAttr_sublist _ attrs

theorem addBase_sublist (unique : Bool) (type : AttrType) (attrs : List Attr) :
    (addBase unique type attrs).Sublist attrs := by
  cases unique with
  | false => exact List.Sublist.refl attrs
  | true => exact recordRemoveAttr_sublist type attrs

theorem recordRemoveAttr_found {d : AttrData} (h : recordFindAttr type attrs = some d) :
    ∃ a ∈ attrs, a.type = type ∧ (a :: recordRemoveAttr type attrs).Perm attrs := by
  obtain ⟨a, ha, rfl⟩ := Option.map_eq_some_iff.1 h
  obtain ⟨b, l₁, l₂, -, hb, hrev, hdrop⟩ := List.exists_of_eraseP (p := fun a : Attr => decide (a.type = type))
    (List.mem_reverse.2 (List.mem_of_find?_eq_some ha)) (List.find?_some (p := fun a : Attr => decide (a.type = type)) ha)
  have hperm : (b :: recordRemoveAttr type attrs).Perm attrs := by
    rw [recordRemoveAttr, dropLastAttr, hdrop]
    calc b :: (l₁ ++ l₂).reverse
      _ |>.Perm (b :: (l₁ ++ l₂)) := (List.reverse_perm _).cons b
      _ |>.Perm (l₁ ++ b :: l₂) := List.perm_middle.symm
      _ |>.Perm attrs := hrev ▸ List.reverse_perm attrs
  exact ⟨b, hperm.subset List.mem_cons_self, by simpa using hb, hperm⟩

theorem recordRemoveAttr_absent (h : recordFindAttr type attrs = none) : recordRemoveAttr type attrs = attrs := by
  rw [recordFindAttr, Option.map_eq_none_iff, List.find?_eq_none] at h
  rw [recordRemoveAttr, dropLastAttr, List.eraseP_of_forall_not (fun a ha => h a (List.mem_reverse.1 ha)),
    List.reverse_reverse]

/-! ## Adding -/

/-- The attribute that `record_add_attr` appends. -/
def addedAttr (unique : Bool) (type : AttrType) (data : AttrData) (attrs : List Attr) : Attr :=
  ⟨type, if unique then 0 else nextAttrId type (addBase unique type attrs), data⟩

theorem recordAddAttr_ok (h : recordAddAttr attrBufSize type data attrs = (.ok (), attrs')) :
    ∃ unique, smkfsAttrLookup type = some unique ∧
      attrBufTotalLen (addBase unique type attrs) + (attrHeaderSize + data.length + attrHeaderSize) ≤ attrBufSize ∧
      attrs' = addBase unique type attrs ++ if type = .end_ then [] else [addedAttr unique type data attrs] := by
  unfold recordAddAttr at h
  rw [failIf] at h
  split at h
  · cases h
  cases hlook : smkfsAttrLookup type with
  | none =>
    rw [hlook] at h
    cases h
  | some unique =>
    rw [hlook] at h
    have hrest : (do
        failIf (attrBufSize < attrBufTotalLen (addBase unique type attrs) +
            (attrHeaderSize + data.length + attrHeaderSize)) Err.nospc
        when (type ≠ .end_) (modify (fun attrs =>
            attrs ++ [⟨type, if unique then 0 else nextAttrId type attrs, data⟩])) :
        Prog (List Attr) Err Unit) (addBase unique type attrs) = (.ok (), attrs') := by
      rw [← h]
      cases unique <;> rfl
    refine ⟨unique, rfl, ?_⟩
    rw [failIf] at hrest
    split at hrest
    · cases hrest
    rename_i hroom
    refine ⟨Nat.not_lt.1 hroom, ?_⟩
    rw [when] at hrest
    split at hrest
    · rename_i htype
      rw [if_neg htype]
      exact (Prod.ext_iff.1 hrest).2.symm
    · rename_i htype
      rw [if_pos (Decidable.not_not.1 htype), List.append_nil]
      exact (Prod.ext_iff.1 hrest).2.symm

theorem recordAddAttr_of_room (hlook : smkfsAttrLookup type = some unique) (htype : type ≠ .end_)
    (hroom : attrBufTotalLen (addBase unique type attrs) + (attrHeaderSize + data.length + attrHeaderSize) ≤ attrBufSize) :
    recordAddAttr attrBufSize type data attrs =
      (.ok (), addBase unique type attrs ++ [addedAttr unique type data attrs]) := by
  have hmin : ¬attrBufSize < 2 * attrHeaderSize + data.length := by omega
  have hstep : recordAddAttr attrBufSize type data attrs =
      (do failIf (attrBufSize < attrBufTotalLen (addBase unique type attrs) +
            (attrHeaderSize + data.length + attrHeaderSize)) Err.nospc
          when (type ≠ .end_) (modify (fun attrs =>
            attrs ++ [⟨type, if unique then 0 else nextAttrId type attrs, data⟩])) :
        Prog (List Attr) Err Unit) (addBase unique type attrs) := by
    unfold recordAddAttr
    rw [hlook, failIf, if_neg hmin]
    cases unique <;> rfl
  rw [hstep, when, if_pos htype, failIf, if_neg (Nat.not_lt.2 hroom)]
  rfl

theorem Roomy.add (h : Roomy attrs) (hrun : recordAddAttr attrBufSize type data attrs = (.ok (), attrs'))
    (hdata : type = .data → 8 ≤ data.length) : Roomy attrs' := by
  obtain ⟨unique, -, hroom, rfl⟩ := recordAddAttr_ok hrun
  have hbase := h.sublist (addBase_sublist unique type attrs)
  split
  · rw [List.append_nil]
    exact hbase
  · refine ⟨?_, fun a ha ht => ?_⟩
    · rw [attrBufTotalLen_append_one]
      have hlen : (addedAttr unique type data attrs).data.length = data.length := rfl
      rw [hlen]
      omega
    · rcases List.mem_append.1 ha with ha | ha
      · exact hbase.root a ha ht
      · rw [List.mem_singleton.1 ha] at ht ⊢
        exact hdata ht

theorem length_replaced {d : AttrData} (hrun : recordAddAttr attrBufSize type data attrs = (.ok (), attrs'))
    (htype : type ≠ .end_) (hunique : type ≠ .extents) (hfound : recordFindAttr type attrs = some d) :
    attrs'.length = attrs.length := by
  obtain ⟨unique, hlook, -, rfl⟩ := recordAddAttr_ok hrun
  have hu : unique = true := by
    cases type <;> simp_all [smkfsAttrLookup]
  subst hu
  obtain ⟨a, -, -, hperm⟩ := recordRemoveAttr_found hfound
  rw [if_neg htype, List.length_append, ← hperm.length_eq]
  rfl

theorem length_added (hrun : recordAddAttr attrBufSize type data attrs = (.ok (), attrs')) (htype : type ≠ .end_)
    (habsent : recordFindAttr type attrs = none) : attrs'.length = attrs.length + 1 := by
  obtain ⟨unique, -, -, rfl⟩ := recordAddAttr_ok hrun
  have hbase : addBase unique type attrs = attrs := by
    cases unique with
    | false => rfl
    | true => exact recordRemoveAttr_absent habsent
  rw [if_neg htype, hbase, List.length_append]
  rfl

theorem Roomy.replaceRoot (h : Roomy attrs) {d : AttrData} (hfound : recordFindAttr .data attrs = some d) (n : Nat) :
    recordAddAttr attrBufSize .data (.u64 n) attrs = (.ok (), addAttr .data (.u64 n) attrs) ∧
      addAttr .data (.u64 n) attrs = recordRemoveAttr .data attrs ++ [⟨.data, 0, .u64 n⟩] := by
  obtain ⟨a, ha, htype, hperm⟩ := recordRemoveAttr_found hfound
  have hlen := attrBufTotalLen_perm hperm
  rw [attrBufTotalLen_cons] at hlen
  have hroot := h.root a ha htype
  have hroom := h.room
  have hok := @recordAddAttr_of_room attrs .data (.u64 n) true rfl (by decide) (by
      have hbase : addBase true .data attrs = recordRemoveAttr .data attrs := rfl
      have hu64 : (AttrData.u64 n).length = 8 := rfl
      rw [hbase, hu64]
      omega)
  rw [addAttr, hok]
  exact ⟨rfl, rfl⟩

/-! ## Finding -/

theorem findAttr_append_other {type' : AttrType} (h : a.type ≠ type') :
    recordFindAttr type' (xs ++ [a]) = recordFindAttr type' xs := by
  rw [recordFindAttr, recordFindAttr, List.find?_append]
  simp [h]

theorem findAttr_none_sublist (h : recordFindAttr type ys = none) (hs : xs.Sublist ys) : recordFindAttr type xs = none := by
  rw [recordFindAttr, Option.map_eq_none_iff, List.find?_eq_none] at h ⊢
  exact fun a ha => h a (hs.subset ha)

theorem findAttr_none_add {type' : AttrType} (h : recordFindAttr type' attrs = none) (hne : type ≠ type')
    (hrun : recordAddAttr attrBufSize type data attrs = (.ok (), attrs')) : recordFindAttr type' attrs' = none := by
  obtain ⟨unique, -, -, rfl⟩ := recordAddAttr_ok hrun
  have hbase := findAttr_none_sublist h (addBase_sublist unique type attrs)
  split
  · rw [List.append_nil]
    exact hbase
  · rw [findAttr_append_other (show (addedAttr unique type data attrs).type ≠ type' from hne)]
    exact hbase

/-! ## Numbers of a type -/

def numOf (type : AttrType) (attrs : List Attr) : Nat := attrs.countP (fun a => a.type = type)

theorem numOf_append_other {type' : AttrType} (h : a.type ≠ type') : numOf type' (xs ++ [a]) = numOf type' xs := by
  rw [numOf, numOf, List.countP_append, List.countP_singleton, if_neg (by simpa using h), Nat.add_zero]

theorem numOf_eq_zero : numOf type attrs = 0 ↔ recordFindAttr type attrs = none := by
  rw [numOf, List.countP_eq_zero, recordFindAttr, Option.map_eq_none_iff, List.find?_eq_none]

theorem length_strip (type : AttrType) (attrs : List Attr) :
    (stripAttr type attrs.length attrs).length + numOf type attrs = attrs.length := by
  have h := List.length_eq_countP_add_countP (p := fun a : Attr => decide (a.type = type)) (l := attrs)
  rw [stripAttr_eq _ _ _ (Nat.le_refl _), ← List.countP_eq_length_filter, numOf]
  have hc : attrs.countP (fun a => decide (a.type ≠ type)) =
      attrs.countP (fun a => decide ¬decide (a.type = type) = true) :=
    List.countP_congr (fun a _ => by simp)
  omega

theorem strip_sublist (type : AttrType) (attrs : List Attr) : (stripAttr type attrs.length attrs).Sublist attrs := by
  rw [stripAttr_eq _ _ _ (Nat.le_refl _)]
  exact List.filter_sublist

theorem numOf_strip {type' : AttrType} (h : type ≠ type') :
    numOf type' (stripAttr type attrs.length attrs) = numOf type' attrs := by
  rw [stripAttr_eq _ _ _ (Nat.le_refl _), numOf, numOf, List.countP_filter]
  refine List.countP_congr (fun a _ => ?_)
  by_cases ha : a.type = type'
  · simp [ha, Ne.symm h]
  · simp [ha]

theorem length_resized {n : Nat} (hone : numOf .fsize attrs = 1)
    (hrun : recordAddAttr attrBufSize .fsize (.u64 n) (recordRemoveAttr .fsize attrs) = (.ok (), attrs')) :
    attrs'.length = attrs.length := by
  cases hfind : recordFindAttr .fsize attrs with
  | none =>
    rw [numOf_eq_zero.2 hfind] at hone
    cases hone
  | some d =>
    obtain ⟨a, -, htype, hperm⟩ := recordRemoveAttr_found hfind
    have hcount : numOf .fsize (a :: recordRemoveAttr .fsize attrs) = 1 := (hperm.countP_eq _).trans hone
    have hnone : recordFindAttr .fsize (recordRemoveAttr .fsize attrs) = none := by
      rw [← numOf_eq_zero]
      rw [numOf, List.countP_cons_of_pos (by simpa using htype)] at hcount
      exact Nat.succ.inj hcount
    rw [length_added hrun (by decide) hnone, ← hperm.length_eq, List.length_cons]

def tableOf (attrs : List Attr) : List Extent := ((extentsOf attrs).map Prod.snd).take extentTableSize

theorem collect_table (attrs : List Attr) : (recordIterateAttr .extents collectCb attrs []).2 = tableOf attrs := by
  rw [collect_take attrs [] (Nat.zero_le _)]
  rfl

/-- As many pieces of the extents in the table are put back as there are `EXTENTS` attributes. -/
def PutsBackAll (parts : Extent → Nat) (attrs : List Attr) : Prop := ((tableOf attrs).map parts).sum = numOf .extents attrs

instance (parts : Extent → Nat) (attrs : List Attr) : Decidable (PutsBackAll parts attrs) :=
  inferInstanceAs (Decidable (_ = _))

/-- How many pieces of an extent stay when a file is cut off at a logical block. -/
def truncateParts (newBlocks : Nat) (e : Extent) : Nat := if newBlocks ≤ e.logicalOffset then 0 else 1

def puncParts (holeStart holeEnd : Nat) (e : Extent) : Nat :=
  if e.logicalOffset + e.blockCount ≤ holeStart ∨ holeEnd ≤ e.logicalOffset then 1
  else (if e.logicalOffset < holeStart then 1 else 0) + (if holeEnd < e.logicalOffset + e.blockCount then 1 else 0)

/-- `k` extents have been put behind the attributes. -/
structure ExtentsAdded (k : Nat) (attrs attrs' : List Attr) : Prop where
  roomy : Roomy attrs'
  length : attrs'.length = attrs.length + k
  sizes : numOf .fsize attrs' = numOf .fsize attrs

theorem ExtentsAdded.refl (h : Roomy attrs) : ExtentsAdded 0 attrs attrs := ⟨h, rfl, rfl⟩

theorem ExtentsAdded.trans {j k : Nat} (h : ExtentsAdded j xs ys) (h' : ExtentsAdded k ys attrs) :
    ExtentsAdded (j + k) xs attrs :=
  ⟨h'.roomy, by rw [h'.length, h.length, Nat.add_assoc], h'.sizes.trans h.sizes⟩

theorem extentsAdded_put {e : Extent} (h : Roomy attrs)
    (hrun : recordAddAttr attrBufSize .extents (.extent e) attrs = (.ok (), attrs')) : ExtentsAdded 1 attrs attrs' := by
  obtain ⟨unique, hlook, -, heq⟩ := recordAddAttr_ok hrun
  cases Option.some.inj hlook
  refine ⟨h.add hrun (fun ht => by cases ht), ?_, ?_⟩
  · rw [heq, List.length_append]
    rfl
  · rw [heq]
    exact numOf_append_other (show AttrType.extents ≠ .fsize by decide)

/-! ## Joining an extent -/

theorem extentInsert_ok {new : Extent} (hrun : extentInsert new attrs = (.ok (), attrs')) : ∃ e base,
    List.Sublist base attrs ∧
      (e.physicalBlock = new.physicalBlock ∨ ∃ x ∈ extentsOf attrs, e.physicalBlock = x.2.physicalBlock) ∧
      recordAddAttr attrBufSize .extents (.extent e) base = (.ok (), attrs') := by
  have horThrow : ∀ {e : Extent} {base : List Attr},
      ((recordAddAttr attrBufSize .extents (.extent e)).orThrow .nospc) base = (.ok (), attrs') →
      recordAddAttr attrBufSize .extents (.extent e) base = (.ok (), attrs') := by
    intro e base h
    exact ok_orThrow h
  cases hfind : (extentsOf attrs).findSome? (fun x => new.joined x.1 x.2) with
  | none =>
    rw [extentInsert_none hfind] at hrun
    exact ⟨new, attrs, List.Sublist.refl _, Or.inl rfl, horThrow hrun⟩
  | some m =>
    obtain ⟨merged, matchedId⟩ := m
    rw [extentInsert_some hfind] at hrun
    obtain ⟨x, hx, hjoin⟩ := List.exists_of_findSome?_eq_some hfind
    refine ⟨merged, recordRemoveAttrId .extents matchedId attrs, dropLastAttr_sublist _ _, ?_, horThrow hrun⟩
    unfold Extent.joined at hjoin
    split at hjoin
    · cases hjoin
      exact Or.inr ⟨x, hx, rfl⟩
    · split at hjoin
      · cases hjoin
        exact Or.inl rfl
      · cases hjoin

theorem extentsOf_insert {new : Extent} (hrun : extentInsert new attrs = (.ok (), attrs')) {P : Nat → Prop}
    (hnew : P new.physicalBlock) (h : ∀ x ∈ extentsOf attrs, P x.2.physicalBlock) :
    ∀ x ∈ extentsOf attrs', P x.2.physicalBlock := by
  obtain ⟨e, base, hsub, hplace, hadd⟩ := extentInsert_ok hrun
  obtain ⟨unique, hlook, -, rfl⟩ := recordAddAttr_ok hadd
  cases Option.some.inj hlook
  intro x hx
  rw [if_neg (by decide), extentsOf_append, List.mem_append] at hx
  rcases hx with hx | hx
  · exact h x ((extentsOf_sublist hsub).subset hx)
  · have hxe : x.2 = e := by
      rw [extentsOf_cons_some (extent_of_type rfl rfl), extentsOf, List.filterMap_nil, List.mem_singleton] at hx
      rw [hx]
    rw [hxe]
    rcases hplace with hp | ⟨y, hy, hp⟩
    · rw [hp]
      exact hnew
    · rw [hp]
      exact h y hy

end

end SmkFs
end AmitX
