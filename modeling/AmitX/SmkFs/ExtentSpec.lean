import AmitX.SmkFs.Extent
/-!
# ExtentSpec — the extents of a list of attributes

`extentsOf` are the extents with the ids of their attributes, `pieces` the map they are.  `Extents` is what every edit of
the file system keeps: no logical block lies in two extents and no block of the disk in two, and the ids are distinct and
smaller than the number of blocks mapped, so that they do not wrap.
-/
namespace AmitX
namespace SmkFs

open Prog Pieces

/-! ## The extents of a record -/

def Attr.extent (a : Attr) : Option (Nat × Extent) :=
  if a.type = .extents then a.data.asExtent.map (fun e => (a.id, e)) else none

def extentsOf (attrs : List Attr) : List (Nat × Extent) := attrs.filterMap Attr.extent

/-- An extent as a piece of the map from logical blocks to blocks of the disk. -/
def Extent.piece (e : Extent) : Piece := ⟨e.logicalOffset, e.physicalBlock, e.blockCount⟩

def pieces (attrs : List Attr) : List Piece := (extentsOf attrs).map (fun x => x.2.piece)

def blockPairs (attrs : List Attr) : List (Nat × Nat) := graph (pieces attrs)

def blockOf (attrs : List Attr) (logicalBlock : Nat) : Option Nat := lookup (pieces attrs) logicalBlock

section

variable {attrs xs ys : List Attr} {a : Attr} {b : Nat}

@[simp] theorem extentsOf_append : extentsOf (xs ++ ys) = extentsOf xs ++ extentsOf ys := List.filterMap_append

@[simp] theorem pieces_append : pieces (xs ++ ys) = pieces xs ++ pieces ys := by
  simp [pieces]

theorem extentsOf_cons_some {x : Nat × Extent} (h : a.extent = some x) : extentsOf (a :: xs) = x :: extentsOf xs :=
  List.filterMap_cons_some h

theorem extentsOf_cons_none (h : a.extent = none) : extentsOf (a :: xs) = extentsOf xs := List.filterMap_cons_none h

theorem extent_of_type {e : Extent} (ht : a.type = .extents) (he : a.data.asExtent = some e) :
    a.extent = some (a.id, e) := by
  rw [Attr.extent, if_pos ht, he]
  rfl

theorem extent_of_ne (h : a.type ≠ .extents) : a.extent = none := if_neg h

theorem iterate_extents {ρ : Type} {cb : Nat → AttrData → Option ρ → Int × Option ρ} {f : Nat → Extent → Option ρ}
    (h : ∀ id data, cb id data none = match data.asExtent.bind (f id) with
      | some x => (1, some x)
      | none => (0, none)) : ∀ attrs : List Attr,
    (recordIterateAttr .extents cb attrs none).2 = (extentsOf attrs).findSome? (fun x => f x.1 x.2)
  | [] => rfl
  | a :: attrs => by
    have ih := iterate_extents h attrs
    rw [recordIterateAttr]
    by_cases ht : a.type = .extents
    · simp only [if_pos ht, h]
      cases he : a.data.asExtent with
      | none =>
        rw [extentsOf_cons_none (by rw [Attr.extent, if_pos ht, he]; rfl)]
        exact ih
      | some e =>
        rw [extentsOf_cons_some (extent_of_type ht he), List.findSome?_cons, Option.bind_some]
        cases f a.id e with
        | none => exact ih
        | some x => rfl
    · rw [if_neg ht, extentsOf_cons_none (extent_of_ne ht)]
      exact ih

def Extent.holds? (b : Nat) (e : Extent) : Option Extent :=
  if e.logicalOffset ≤ b ∧ b < e.logicalOffset + e.blockCount then some e else none

theorem iterate_resolve (b : Nat) (attrs : List Attr) :
    (recordIterateAttr .extents (extentResolveCb b) attrs none).2 =
      (extentsOf attrs).findSome? (fun x => x.2.holds? b) := by
  apply iterate_extents (f := fun _ e => e.holds? b)
  intro id data
  rw [extentResolveCb]
  cases data.asExtent with
  | none => rfl
  | some e =>
    dsimp only [Option.bind_some, Extent.holds?]
    split <;> rfl

def Extent.joined (new : Extent) (id : Nat) (e : Extent) : Option (Extent × Nat) :=
  if e.logicalOffset + e.blockCount = new.logicalOffset ∧ e.physicalBlock + e.blockCount = new.physicalBlock then
    some (⟨e.logicalOffset, e.physicalBlock, add32 e.blockCount new.blockCount⟩, id)
  else if new.logicalOffset + new.blockCount = e.logicalOffset ∧
      new.physicalBlock + new.blockCount = e.physicalBlock then
    some (⟨new.logicalOffset, new.physicalBlock, add32 new.blockCount e.blockCount⟩, id)
  else none

theorem iterate_merge (new : Extent) (attrs : List Attr) :
    (recordIterateAttr .extents (extentMergeCb new) attrs none).2 =
      (extentsOf attrs).findSome? (fun x => new.joined x.1 x.2) := by
  apply iterate_extents (f := new.joined)
  intro id data
  rw [extentMergeCb]
  cases data.asExtent with
  | none => rfl
  | some e =>
    dsimp only [Option.bind_some, Extent.joined]
    split
    · rfl
    · split <;> rfl

theorem extentInsert_none {new : Extent} {attrs : List Attr}
    (h : (extentsOf attrs).findSome? (fun x => new.joined x.1 x.2) = none) :
    extentInsert new attrs = (recordAddAttr attrBufSize .extents (.extent new)).orThrow .nospc attrs := by
  rw [← iterate_merge] at h
  rw [extentInsert, get_bind]
  simp only [h]

theorem extentInsert_some {new merged : Extent} {attrs : List Attr} {matchedId : Nat}
    (h : (extentsOf attrs).findSome? (fun x => new.joined x.1 x.2) = some (merged, matchedId)) :
    extentInsert new attrs = (recordAddAttr attrBufSize .extents (.extent merged)).orThrow .nospc
      (recordRemoveAttrId .extents matchedId attrs) := by
  rw [← iterate_merge] at h
  rw [extentInsert, get_bind]
  simp only [h]
  rfl

theorem resolve_place (b : Nat) (attrs : List Attr) :
    ((extentsOf attrs).findSome? (fun x => x.2.holds? b)).map (fun e => e.physicalBlock + (b - e.logicalOffset)) =
      blockOf attrs b := by
  rw [blockOf, lookup, pieces, List.findSome?_map, List.map_findSome?]
  congr 1
  funext x
  simp only [Function.comp_apply, Extent.holds?, Piece.image, Extent.piece]
  split <;> rfl

end

/-! ## Extents that are a one-to-one map -/

/-- Every `EXTENTS` attribute is an extent of some blocks, and their ids are distinct and smaller than `n`. -/
structure Tagged (n : Nat) (attrs : List Attr) : Prop where
  typed : ∀ a ∈ attrs, a.type = .extents → ∃ e, a.data.asExtent = some e
  nonempty : ∀ x ∈ extentsOf attrs, 0 < x.2.blockCount
  ids : ((extentsOf attrs).map Prod.fst).Nodup
  idsLt : ∀ x ∈ extentsOf attrs, x.1 < n

/-- **What every edit of the file system keeps of the extents of a record.** -/
structure Extents (attrs : List Attr) : Prop extends Tagged (blockPairs attrs).length attrs where
  functional : Functional (pieces attrs)
  injective : Injective (pieces attrs)

section

variable {n : Nat} {attrs attrs' xs ys : List Attr} {a : Attr} {e : Extent}

theorem extentsOf_sublist (h : xs.Sublist ys) : (extentsOf xs).Sublist (extentsOf ys) := h.filterMap _

theorem Tagged.of_sublist (h : Tagged n ys) (hs : xs.Sublist ys) : Tagged n xs :=
  ⟨fun a ha => h.typed a (hs.subset ha), fun x hx => h.nonempty x ((extentsOf_sublist hs).subset hx),
    h.ids.sublist ((extentsOf_sublist hs).map _), fun x hx => h.idsLt x ((extentsOf_sublist hs).subset hx)⟩

theorem ids_extents : ∀ {attrs : List Attr}, (∀ a ∈ attrs, a.type = .extents → ∃ e, a.data.asExtent = some e) →
    (attrs.filter (fun a => a.type = .extents)).map Attr.id = (extentsOf attrs).map Prod.fst
  | [], _ => rfl
  | a :: attrs, h => by
    have ih := ids_extents (fun b hb => h b (List.mem_cons_of_mem a hb))
    by_cases ht : a.type = .extents
    · obtain ⟨e, he⟩ := h a List.mem_cons_self ht
      rw [List.filter_cons_of_pos (by simpa using ht), extentsOf_cons_some (extent_of_type ht he), List.map_cons,
        List.map_cons, ih]
    · rw [List.filter_cons_of_neg (by simpa using ht), extentsOf_cons_none (extent_of_ne ht), ih]

theorem le_foldl_max : ∀ (ids : List Nat) (id : Nat), id ≤ ids.foldl max id ∧ ∀ i ∈ ids, i ≤ ids.foldl max id
  | [], id => ⟨Nat.le_refl id, by simp⟩
  | j :: ids, id => by
    obtain ⟨h, hall⟩ := le_foldl_max ids (max id j)
    refine ⟨le_trans (Nat.le_max_left _ _) h, fun i hi => ?_⟩
    rcases List.mem_cons.1 hi with rfl | hi
    · exact le_trans (Nat.le_max_right _ _) h
    · exact hall i hi

theorem foldl_max_lt : ∀ {ids : List Nat} {id : Nat}, id < n → (∀ i ∈ ids, i < n) → ids.foldl max id < n
  | [], _, h, _ => h
  | j :: ids, id, h, hall =>
    show ids.foldl max (max id j) < n from
      foldl_max_lt (max_lt h (hall j List.mem_cons_self)) (fun i hi => hall i (List.mem_cons_of_mem j hi))

theorem Tagged.nextAttrId (h : Tagged n attrs) (hn : n < 2 ^ 32) :
    nextAttrId .extents attrs ≤ n ∧ ∀ x ∈ extentsOf attrs, x.1 < nextAttrId .extents attrs := by
  have hmem : ∀ {x}, x ∈ extentsOf attrs → x.1 ∈ (extentsOf attrs).map Prod.fst := fun hx => List.mem_map_of_mem hx
  have hlt : ∀ i ∈ (extentsOf attrs).map Prod.fst, i < n := fun i hi => by
    obtain ⟨x, hx, rfl⟩ := List.mem_map.1 hi
    exact h.idsLt x hx
  unfold SmkFs.nextAttrId
  rw [ids_extents h.typed]
  cases hids : (extentsOf attrs).map Prod.fst with
  | nil =>
    refine ⟨Nat.zero_le n, fun x hx => ?_⟩
    have := hmem hx
    rw [hids] at this
    cases this
  | cons id ids =>
    rw [hids] at hlt
    have hmax := foldl_max_lt (hlt id List.mem_cons_self) (fun i hi => hlt i (List.mem_cons_of_mem id hi))
    have hadd : add32 (ids.foldl max id) 1 = ids.foldl max id + 1 := by
      unfold add32
      exact Nat.mod_eq_of_lt (by omega)
    dsimp only
    rw [hadd]
    refine ⟨hmax, fun x hx => ?_⟩
    have hx := hmem hx
    rw [hids] at hx
    obtain ⟨hfirst, hrest⟩ := le_foldl_max ids id
    rcases List.mem_cons.1 hx with hx | hx
    · omega
    · exact Nat.lt_succ_of_le (hrest _ hx)

/-- The attribute that `record_add_attr` appends for an extent. -/
def newExtent (e : Extent) (attrs : List Attr) : Attr := ⟨.extents, nextAttrId .extents attrs, .extent e⟩

theorem extentsOf_push (e : Extent) (attrs xs : List Attr) :
    extentsOf (xs ++ [newExtent e attrs]) = extentsOf xs ++ [(nextAttrId .extents attrs, e)] := by
  rw [extentsOf_append]
  rfl

theorem pieces_push (e : Extent) (attrs xs : List Attr) : pieces (xs ++ [newExtent e attrs]) = pieces xs ++ [e.piece] := by
  rw [pieces_append]
  rfl

theorem Tagged.push (h : Tagged n attrs) (hn : n < 2 ^ 32) (he : 0 < e.blockCount) :
    Tagged (n + 1) (attrs ++ [newExtent e attrs]) := by
  obtain ⟨hle, hfresh⟩ := h.nextAttrId hn
  have hmem : ∀ x ∈ extentsOf (attrs ++ [newExtent e attrs]),
      x ∈ extentsOf attrs ∨ x = (SmkFs.nextAttrId .extents attrs, e) := by
    intro x hx
    rw [extentsOf_push] at hx
    simpa using hx
  constructor
  · intro a ha ht
    rcases List.mem_append.1 ha with ha | ha
    · exact h.typed a ha ht
    · rw [List.mem_singleton.1 ha]
      exact ⟨e, rfl⟩
  · intro x hx
    rcases hmem x hx with hx | rfl
    · exact h.nonempty x hx
    · exact he
  · rw [extentsOf_push, List.map_append, List.nodup_append]
    refine ⟨h.ids, List.nodup_singleton _, fun i hi j hj => ?_⟩
    obtain ⟨x, hx, rfl⟩ := List.mem_map.1 hi
    rw [List.mem_singleton.1 hj]
    exact Nat.ne_of_lt (hfresh x hx)
  · intro x hx
    rcases hmem x hx with hx | rfl
    · exact Nat.lt_succ_of_lt (h.idsLt x hx)
    · exact Nat.lt_succ_of_le hle

def addBase (unique : Bool) (type : AttrType) (attrs : List Attr) : List Attr :=
  if unique then recordRemoveAttr type attrs else attrs

theorem recordAddAttr_cases {type : AttrType} {unique : Bool} (bufSize : Nat) (data : AttrData) (attrs : List Attr)
    (hlook : smkfsAttrLookup type = some unique) (htype : type ≠ .end_) :
    (∃ attrs', recordAddAttr bufSize type data attrs = (.error .nospc, attrs')) ∨
      recordAddAttr bufSize type data attrs = (.ok (), addBase unique type attrs ++
        [⟨type, if unique then 0 else nextAttrId type (addBase unique type attrs), data⟩]) := by
  by_cases hmin : bufSize < 2 * attrHeaderSize + data.length
  · refine Or.inl ⟨attrs, ?_⟩
    unfold recordAddAttr
    rw [failIf, if_pos hmin]
    rfl
  have hstep : recordAddAttr bufSize type data attrs =
      (do failIf (bufSize < attrBufTotalLen (addBase unique type attrs) +
            (attrHeaderSize + data.length + attrHeaderSize)) Err.nospc
          when (type ≠ .end_) (modify (fun attrs =>
            attrs ++ [⟨type, if unique then 0 else nextAttrId type attrs, data⟩])) :
        Prog (List Attr) Err Unit) (addBase unique type attrs) := by
    unfold recordAddAttr
    rw [hlook, failIf, if_neg hmin]
    cases unique <;> rfl
  rw [hstep, when, if_pos htype, failIf]
  split
  · exact Or.inl ⟨_, rfl⟩
  · exact Or.inr rfl

theorem recordAddAttr_extent (bufSize : Nat) (e : Extent) (attrs : List Attr) :
    (∃ attrs', recordAddAttr bufSize .extents (.extent e) attrs = (.error .nospc, attrs')) ∨
      recordAddAttr bufSize .extents (.extent e) attrs = (.ok (), attrs ++ [newExtent e attrs]) :=
  recordAddAttr_cases bufSize (.extent e) attrs (show smkfsAttrLookup .extents = some false from rfl) (by decide)

theorem dropLastAttr_mid {p : Attr → Bool} (ha : p a = true) (hys : ∀ b ∈ ys, p b = false) :
    dropLastAttr p (xs ++ a :: ys) = xs ++ ys := by
  have hrev : (xs ++ a :: ys).reverse = ys.reverse ++ a :: xs.reverse := by simp
  rw [dropLastAttr, hrev, List.eraseP_append_right _ (fun b hb => by simp [hys b (List.mem_reverse.1 hb)]),
    List.eraseP_cons_of_pos ha]
  simp

theorem recordRemoveAttrId_extent {x : Nat × Extent} (h : Tagged n (xs ++ a :: ys)) (ha : a.extent = some x) :
    recordRemoveAttrId .extents x.1 (xs ++ a :: ys) = xs ++ ys := by
  have htype : a.type = .extents := by
    by_contra hne
    rw [extent_of_ne hne] at ha
    cases ha
  have hid : a.id = x.1 := by
    obtain ⟨e, he⟩ := h.typed a (by simp) htype
    rw [extent_of_type htype he] at ha
    exact congrArg Prod.fst (Option.some.inj ha)
  apply dropLastAttr_mid
  · simp [htype, hid]
  · intro b hb
    have hids := h.ids
    rw [extentsOf_append, extentsOf_cons_some ha, List.map_append, List.map_cons] at hids
    have hnot := (List.nodup_cons.1 (List.nodup_append.1 hids).2.1).1
    simp only [decide_eq_false_iff_not, not_and]
    intro hbt hbid
    obtain ⟨e, he⟩ := h.typed b (by simp [hb]) hbt
    exact hnot (List.mem_map.2 ⟨(b.id, e), List.mem_filterMap.2 ⟨b, hb, extent_of_type hbt he⟩, hbid⟩)

theorem blockPairs_append : blockPairs (xs ++ ys) = blockPairs xs ++ blockPairs ys := by
  rw [blockPairs, pieces_append, graph_append]
  rfl

theorem blockPairs_mid {x : Nat × Extent} (ha : a.extent = some x) :
    (blockPairs (xs ++ a :: ys)).Perm (x.2.piece.pairs ++ blockPairs (xs ++ ys)) := by
  have hcons : blockPairs (a :: ys) = x.2.piece.pairs ++ blockPairs ys := by
    rw [blockPairs, pieces, extentsOf_cons_some ha, List.map_cons, graph_cons]
    rfl
  rw [blockPairs_append, hcons, blockPairs_append]
  exact List.perm_append_comm_assoc _ _ _

theorem joined_pairs {l b id i : Nat} {m : Extent} (h : (Extent.mk l b 1).joined id e = some (m, i))
    (hsmall : e.blockCount + 1 < 2 ^ 32) :
    i = id ∧ m.blockCount = e.blockCount + 1 ∧ m.piece.pairs.Perm ((l, b) :: e.piece.pairs) := by
  have hadd : add32 e.blockCount 1 = e.blockCount + 1 ∧ add32 1 e.blockCount = e.blockCount + 1 := by
    unfold add32
    omega
  rw [Extent.joined] at h
  split at h
  · rename_i hc
    cases h
    refine ⟨rfl, hadd.1, ?_⟩
    have hjoin := pairs_join (p := e.piece) (q := ⟨l, b, 1⟩) (n := e.blockCount + 1) hc.1 hc.2 rfl
    rw [pairs_one] at hjoin
    rw [Extent.piece, hadd.1]
    show (Piece.mk e.piece.src e.piece.dst (e.blockCount + 1)).pairs.Perm _
    rw [hjoin]
    exact List.perm_append_comm
  · split at h
    · rename_i hc
      cases h
      refine ⟨rfl, hadd.2, ?_⟩
      have hjoin := pairs_join (p := ⟨l, b, 1⟩) (q := e.piece) (n := e.blockCount + 1) hc.1 hc.2 (Nat.add_comm _ _)
      rw [pairs_one] at hjoin
      rw [Extent.piece, hadd.2, hjoin]
      rfl
    · cases h

theorem extents_insert {l b : Nat} (h : Extents attrs) (hl : blockOf attrs l = none)
    (hb : b ∉ (blockPairs attrs).map Prod.snd) (hsmall : (blockPairs attrs).length + 1 < 2 ^ 32)
    (hrun : extentInsert ⟨l, b, 1⟩ attrs = (.ok (), attrs')) :
    Extents attrs' ∧ (blockPairs attrs').Perm ((l, b) :: blockPairs attrs) := by
  have hgoal : ∀ (xs : List Attr) (m : Extent), Tagged (blockPairs attrs).length xs → 0 < m.blockCount →
      (m.piece.pairs ++ blockPairs xs).Perm ((l, b) :: blockPairs attrs) →
      (recordAddAttr attrBufSize .extents (.extent m)).orThrow Err.nospc xs = (.ok (), attrs') →
      Extents attrs' ∧ (blockPairs attrs').Perm ((l, b) :: blockPairs attrs) := by
    intro xs m ht hpos hperm hadd
    have hxs : attrs' = xs ++ [newExtent m xs] := by
      rcases recordAddAttr_extent attrBufSize m xs with ⟨ys, hy⟩ | hy
      · rw [Prog.orThrow, Prog.catchWith, hy] at hadd
        cases hadd
      · rw [Prog.orThrow, Prog.catchWith, hy] at hadd
        exact (Prod.ext_iff.1 hadd).2.symm
    subst hxs
    have hgraph : (blockPairs (xs ++ [newExtent m xs])).Perm ((l, b) :: blockPairs attrs) := by
      rw [blockPairs, pieces_push, graph_append, graph_cons, graph_nil, List.append_nil]
      exact List.perm_append_comm.trans hperm
    have hlen : (blockPairs (xs ++ [newExtent m xs])).length = (blockPairs attrs).length + 1 := by
      rw [hgraph.length_eq, List.length_cons]
    refine ⟨⟨?_, functional_insert h.functional hgraph hl, ?_⟩, hgraph⟩
    · rw [hlen]
      exact ht.push (by omega) hpos
    · refine ((hgraph.map Prod.snd).nodup_iff).2 ?_
      rw [List.map_cons, List.nodup_cons]
      exact ⟨hb, h.injective⟩
  cases hfind : (extentsOf attrs).findSome? (fun x : Nat × Extent => (Extent.mk l b 1).joined x.1 x.2) with
  | none =>
    rw [extentInsert_none hfind] at hrun
    exact hgoal attrs ⟨l, b, 1⟩ h.toTagged Nat.one_pos (List.Perm.refl _) hrun
  | some x =>
    obtain ⟨m, i⟩ := x
    rw [extentInsert_some hfind] at hrun
    obtain ⟨x, hx, hjoin⟩ := List.exists_of_findSome?_eq_some hfind
    obtain ⟨a, ha, hext⟩ := List.mem_filterMap.1 hx
    obtain ⟨xs, ys, rfl⟩ := List.append_of_mem ha
    have hmid := @blockPairs_mid xs ys a x hext
    have hcount : x.2.blockCount ≤ (blockPairs (xs ++ a :: ys)).length := by
      rw [hmid.length_eq, List.length_append]
      simp [Extent.piece, Piece.pairs]
    obtain ⟨rfl, hm, hperm⟩ := joined_pairs hjoin (by omega)
    have hrest : Tagged (blockPairs (xs ++ a :: ys)).length (xs ++ ys) :=
      h.toTagged.of_sublist (List.Sublist.append_left (List.sublist_cons_self a ys) xs)
    refine hgoal (xs ++ ys) m hrest (by omega) ?_ ?_
    · exact (hperm.append_right _).trans (hmid.symm.cons (l, b))
    · rw [← recordRemoveAttrId_extent h.toTagged hext]
      exact hrun

end

end SmkFs
end AmitX
