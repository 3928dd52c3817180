import AmitX.SmkFs.AttrEdits
import AmitX.SmkFs.BlockInv
/-!
# AttrCount — the stored number of attributes

Each call that changes the attributes of a record keeps `attr_count` in a way of its own: `extent_add`, `smkfs_setattr` and
`extent_remove_all` count anew, `smkfs_write` and `smkfs_create_file` add one, and the others write the count that they have
read.  The count is an invariant of the blocks; a `Demand` says what else a call needs to know of the blocks while it runs,
as that the record it writes has no size yet.
-/
namespace AmitX
namespace SmkFs

open Prog

/-- What is asked of the slots of the table, and of the attributes of the records in each block. -/
structure Demand where
  slot : Nat → MrtEntry → Prop
  attrs : Nat → List Attr → Prop
  sublist : ∀ {b xs ys}, List.Sublist xs ys → attrs b ys → attrs b xs
  root : ∀ {b xs} n, attrs b xs → attrs b (xs ++ [⟨.data, 0, .u64 n⟩])

def Demand.nothing : Demand := ⟨fun _ _ => True, fun _ _ => True, fun _ _ => trivial, fun _ _ => trivial⟩

/-- A block meets the demand, and the record in it, if it holds one, is counted right. -/
structure Demand.Met (L : Layout) (G : Demand) (b : Nat) (x : BlockData) : Prop where
  record : ∀ rec attrs, x = .record rec attrs → Counted rec attrs ∧ G.attrs b attrs
  slots : ∀ id, id < L.mrtCapacity → b = L.mrtStart + id / entriesPerBlock →
    (x.mrtEntries (id % entriesPerBlock)).allocated = true → G.slot id (x.mrtEntries (id % entriesPerBlock))

/-- What the demand says of the attributes of a record does not depend on which allowed slot it is reached through. -/
def Demand.Stable (L : Layout) (G : Demand) (id : Nat) : Prop :=
  ∀ e e' attrs, SlotAllowed L (G.Met L) id e → SlotAllowed L (G.Met L) id e' → G.attrs e.physicalBlock attrs →
    G.attrs e'.physicalBlock attrs

structure Demand.ReadAs (L : Layout) (G : Demand) (id : Nat) (rec : Record) (attrs : List Attr) : Prop where
  counted : Counted rec attrs
  asked : ∃ e, SlotAllowed L (G.Met L) id e ∧ G.attrs e.physicalBlock attrs

section

variable {α : Type} {L : Layout} {G : Demand} {id : Nat}

theorem not_allocated {e : MrtEntry} (h : e.flags = 0) : ¬e.allocated = true := by
  rw [MrtEntry.allocated, h, Nat.zero_testBit]
  exact Bool.false_ne_true

theorem allowsSystem_met : AllowsSystem (G.Met L) := by
  constructor <;> intros <;> exact ⟨fun _ _ h => (by cases h), fun _ _ _ h => absurd h (not_allocated rfl)⟩

theorem slot_of_allowed {e : MrtEntry} (h : SlotAllowed L (G.Met L) id e) : G.slot id e := by
  obtain ⟨x, hx, rfl, halloc, -, -, hid⟩ := h
  exact hx.slots id hid rfl halloc

theorem met_record {b : Nat} {rec : Record} {attrs : List Attr} (hc : Counted rec attrs) (ha : G.attrs b attrs) :
    G.Met L b (.record rec attrs) :=
  ⟨fun _ _ h => (by cases h; exact ⟨hc, ha⟩), fun _ _ _ h => absurd h (not_allocated rfl)⟩

theorem met_setMrtEntry {x : BlockData} {e : MrtEntry} (hx : G.Met L (L.mrtStart + id / entriesPerBlock) x)
    (he : e.allocated = true → G.slot id e) :
    G.Met L (L.mrtStart + id / entriesPerBlock) (x.setMrtEntry (id % entriesPerBlock) e) := by
  refine ⟨fun _ _ h => (by cases h), fun id' hid' hb h => ?_⟩
  rw [BlockData.mrtEntries_setMrtEntry] at h ⊢
  by_cases hm : id' % entriesPerBlock = id % entriesPerBlock
  · have hid : id' = id := Volume.mrtSlot_injective (by omega) hm
    subst hid
    rw [Function.update_self] at h ⊢
    exact he h
  · rw [Function.update_of_ne hm] at h ⊢
    exact hx.slots id' hid' hb h

theorem slotMay_of {f : MrtEntry → MrtEntry} (hf : ∀ e, (f e).allocated = true → G.slot id (f e)) :
    SlotMay L (G.Met L) id f := by
  intro x hx
  refine ⟨met_setMrtEntry hx (hf _), ⟨fun _ _ h => (by cases h), fun id' hid' hb h => ?_⟩⟩
  rw [BlockData.mrtEntries_setMrtEntry, BlockData.mrtEntries_setMrtEntry, Function.update_idem,
    Function.update_eq_self] at h ⊢
  exact hx.slots id' hid' hb h

theorem slotMay_freed : SlotMay L (G.Met L) id MrtEntry.freed := slotMay_of (fun _ h => absurd h (not_allocated rfl))

theorem slotMay_nothing (f : MrtEntry → MrtEntry) : SlotMay L (Demand.nothing.Met L) id f := slotMay_of (fun _ _ => trivial)

theorem stable_nothing : Demand.nothing.Stable L id := fun _ _ _ _ _ _ => trivial

theorem Demand.ReadAs.write {rec : Record} {attrs : List Attr} (h : G.ReadAs L id rec attrs) (hst : G.Stable L id) :
    ∀ e, SlotAllowed L (G.Met L) id e → G.attrs e.physicalBlock attrs := by
  obtain ⟨e, he, ha⟩ := h.asked
  exact fun e' he' => hst e e' attrs he he' ha

/-! ## Records -/

theorem keeps_read (id : Nat) : KeepsBlocks L (G.Met L) (recordRead id) (fun x => G.ReadAs L id x.1 x.2) :=
  (keeps_recordRead id).mono (fun _ h => by
    obtain ⟨e, he, hx⟩ := h
    obtain ⟨hc, ha⟩ := hx.record _ _ rfl
    exact ⟨hc, e, he, ha⟩)

theorem keeps_write {rec : Record} {attrs : List Attr} (hc : Counted rec attrs)
    (ha : ∀ e, SlotAllowed L (G.Met L) id e → G.attrs e.physicalBlock attrs) :
    KeepsBlocks L (G.Met L) (recordWrite id rec attrs) (fun _ => True) :=
  keeps_recordWrite allowsSystem_met (fun e he => met_record hc (ha e he))

theorem keeps_onAttrs (m : Prog (List Attr) Err Unit) (attrs : List Attr) :
    KeepsBlocks L (G.Met L) (onAttrs m attrs) (fun attrs' => m attrs = (.ok (), attrs')) := by
  unfold onAttrs
  rcases hm : m attrs with ⟨e | u, xs⟩
  · exact preserves_throw e
  · exact preserves_pure rfl

theorem keeps_abortOnError {m : FsM α} {Q : α → Prop} (h : KeepsBlocks L (G.Met L) m Q) :
    KeepsBlocks L (G.Met L) (abortOnError m) Q :=
  h.catchWith (fun e => keeps_journalAbort.bind (fun _ _ => preserves_throw e))

theorem keeps_orAbort {m : FsM α} {Q : α → Prop} (h : KeepsBlocks L (G.Met L) m Q) (e : Err) :
    KeepsBlocks L (G.Met L) (orAbort m e) Q :=
  h.catchWith (fun _ => keeps_journalAbort.bind (fun _ _ => preserves_throw e))

theorem keeps_extentRemoveAll (hst : G.Stable L id) : KeepsBlocks L (G.Met L) (extentRemoveAll id) (fun _ => True) := by
  refine (keeps_mrtResolve id).elseDo (preserves_pure trivial) (fun e he =>
    (keeps_readBlock _).elseDo (preserves_pure trivial) (fun x hx => ?_))
  cases x with
  | record rec attrs =>
    obtain ⟨hc, ha⟩ := hx.record rec attrs rfl
    have hsub := recordRemoveAttr_sublist .extents attrs
    exact (Preserves.forEach (fun e _ => (keeps_bitmapFreeRange allowsSystem_met _ _).ignore)).bind (fun _ _ =>
      (keeps_write ⟨hc.toRoomy.sublist hsub, rfl⟩ (fun e' he' => G.sublist hsub (hst e e' attrs he he' ha))).ignore)
  | raw _ | super _ | node _ | mrt _ | bitmap _ | journal _ _ => exact preserves_pure trivial

theorem keeps_mapRecordCount (f : Nat → Nat) :
    KeepsBlocks L (G.Met L) (modifyMem (Mem.mapRecordCount f)) (fun _ => True) :=
  keeps_modifyMem (fun _ => rfl)

theorem keeps_recordFree (hst : G.Stable L id) : KeepsBlocks L (G.Met L) (recordFree id) (fun _ => True) := by
  refine (keeps_mrtResolve id).elseDo (preserves_pure trivial) (fun e he => ?_)
  have hmark : KeepsBlocks L (G.Met L) (recordMarkDeleted id e.physicalBlock) (fun _ => True) := by
    refine (keeps_readBlock _).elseDo (preserves_pure trivial) (fun x hx => ?_)
    cases x with
    | record rec attrs =>
      obtain ⟨hc, ha⟩ := hx.record rec attrs rfl
      exact (@keeps_write _ _ _ { rec with deleted := true } _ ⟨hc.toRoomy, hc.count⟩
        (fun e' he' => hst e e' attrs he he' ha)).ignore
    | raw _ | super _ | node _ | mrt _ | bitmap _ | journal _ _ => exact preserves_pure trivial
  exact (keeps_extentRemoveAll hst).bind (fun _ _ => hmark.bind (fun _ _ =>
    (keeps_bitmapFreeRange allowsSystem_met _ _).ignore.bind (fun _ _ =>
      (keeps_mrtFreeEntry allowsSystem_met slotMay_freed).ignore.bind (fun _ _ =>
        keeps_mapRecordCount _))))

/-! ## Directories -/

theorem Counted.replaceRoot {rec : Record} {attrs attrs' : List Attr} {d : AttrData} {n : Nat} (h : Counted rec attrs)
    (hfound : recordFindAttr .data attrs = some d)
    (hrun : recordAddAttr attrBufSize .data (.u64 n) attrs = (.ok (), attrs')) : Counted rec attrs' :=
  ⟨h.toRoomy.add hrun (fun _ => Nat.le_refl 8), h.count.trans (length_replaced hrun (by decide) (by decide) hfound).symm⟩

theorem keeps_createRefuse (hst : G.Stable L id) {Q : α → Prop} : KeepsBlocks L (G.Met L) (createRefuse id) Q :=
  (keeps_recordFree hst).bind (fun _ _ => preserves_throw _)

theorem keeps_createUndo (hst : G.Stable L id) (btreeRoot : Nat) {Q : α → Prop} :
    KeepsBlocks L (G.Met L) (createUndo id btreeRoot) Q :=
  (Preserves.when (keeps_bitmapClear allowsSystem_met _).ignore).bind (fun _ _ => keeps_createRefuse hst)

theorem keeps_createTree (hst : G.Stable L id) : KeepsBlocks L (G.Met L) (createTree id) (fun _ => True) :=
  keeps_malloc.bind (fun _ _ => Preserves.ite (fun _ => keeps_createRefuse hst) (fun _ =>
    (keeps_bitmapAlloc allowsSystem_met).bind (fun _ _ => Preserves.ite (fun _ => keeps_createRefuse hst) (fun _ =>
      (keeps_writeBlock (allowsSystem_met.node _ _)).elseDo (keeps_createUndo hst _) (fun _ _ =>
        preserves_pure trivial)))))

theorem createAttrs_eq (parentDir btreeRoot : Nat) : createAttrs parentDir btreeRoot =
    ⟨.parent, 0, .u64 parentDir⟩ :: if btreeRoot ≠ 0 then [⟨.data, 0, .u64 btreeRoot⟩] else [] := by
  have hparent : addAttr .parent (.u64 parentDir) [] = [⟨.parent, 0, .u64 parentDir⟩] := by
    have hok := @recordAddAttr_of_room [] .parent (.u64 parentDir) true rfl (by decide) (Nat.le_of_ble_eq_true rfl)
    rw [addAttr, hok]
    rfl
  have hdata : addAttr .data (.u64 btreeRoot) [⟨.parent, 0, .u64 parentDir⟩] =
      [⟨.parent, 0, .u64 parentDir⟩, ⟨.data, 0, .u64 btreeRoot⟩] := by
    have hok := @recordAddAttr_of_room [⟨.parent, 0, .u64 parentDir⟩] .data (.u64 btreeRoot) true rfl (by decide) (Nat.le_of_ble_eq_true rfl)
    rw [addAttr, hok]
    rfl
  unfold createAttrs
  dsimp only
  rw [hparent, hdata]
  split <;> rfl

theorem counted_created (newId generation parentDir btreeRoot : Nat) (objectType : ObjectType) :
    Counted ⟨newId, objectType, if btreeRoot ≠ 0 then 2 else 1, 1, generation, false⟩ (createAttrs parentDir btreeRoot) := by
  rw [createAttrs_eq]
  by_cases h : btreeRoot = 0
  · rw [if_neg (not_not.2 h), if_neg (not_not.2 h)]
    refine ⟨⟨Nat.le_of_ble_eq_true rfl, fun a ha ht => ?_⟩, rfl⟩
    rw [List.mem_singleton.1 ha] at ht
    cases ht
  · rw [if_pos h, if_pos h]
    refine ⟨⟨Nat.le_of_ble_eq_true rfl, fun a ha ht => ?_⟩, rfl⟩
    rcases List.mem_cons.1 ha with rfl | ha
    · cases ht
    · rw [List.mem_singleton.1 ha]
      exact Nat.le_refl 8

theorem keeps_createEnter (hst : ∀ id, G.Stable L id) {newId : Nat}
    (hnew : ∀ parentDir btreeRoot e, SlotAllowed L (G.Met L) newId e →
      G.attrs e.physicalBlock (createAttrs parentDir btreeRoot))
    (n : Nat) (objectType : ObjectType) (parentDir : Nat) (name : CStr) (generation btreeRoot : Nat) :
    KeepsBlocks L (G.Met L) (createEnter n objectType parentDir name newId generation btreeRoot) (fun _ => True) := by
  refine (keeps_read parentDir).elseDo (keeps_createUndo (hst newId) btreeRoot) (fun x hx => ?_)
  obtain ⟨parentRec, parentAttrs⟩ := x
  dsimp only at hx ⊢
  cases hfound : recordFindAttr .data parentAttrs with
  | none => exact keeps_createUndo (hst newId) btreeRoot
  | some parentBtree =>
    refine (keeps_btreeInsert allowsSystem_met n parentBtree.asU64 name newId).elseDo
      (keeps_createUndo (hst newId) btreeRoot) (fun newRoot _ => ?_)
    refine (keeps_write (counted_created newId generation parentDir btreeRoot objectType)
      (hnew parentDir btreeRoot)).elseDo (keeps_createUndo (hst newId) btreeRoot) (fun _ _ => ?_)
    obtain ⟨hok, heq⟩ := hx.counted.toRoomy.replaceRoot hfound newRoot
    refine (keeps_write (hx.counted.replaceRoot hfound hok) (fun e he => ?_)).elseDo (keeps_createRefuse (hst newId))
      (fun _ _ => preserves_pure trivial)
    rw [heq]
    exact G.root _ (G.sublist (recordRemoveAttr_sublist _ _) (hx.write (hst parentDir) e he))

def createRest (n : Nat) (objectType : ObjectType) (parentDir : Nat) (name : CStr) (newId : Nat) : FsM Nat := do
  failIf (newId = 0) .io
  let entry ← (mrtResolve newId).orThrow .io
  let btreeRoot ← (if objectType = .dir then createTree newId else pure 0)
  createEnter n objectType parentDir name newId entry.generation btreeRoot
  pure newId

theorem createBody_eq (n : Nat) (objectType : ObjectType) (parentDir : Nat) (name : CStr) :
    createBody n objectType parentDir name = (do
      let m ← getMem
      failIf (m.mounted = false) .io
      let newId ← recordAlloc objectType
      createRest n objectType parentDir name newId) := rfl

theorem keeps_createRest (hst : ∀ id, G.Stable L id) {newId : Nat}
    (hnew : ∀ parentDir btreeRoot e, SlotAllowed L (G.Met L) newId e →
      G.attrs e.physicalBlock (createAttrs parentDir btreeRoot))
    (n : Nat) (objectType : ObjectType) (parentDir : Nat) (name : CStr) :
    KeepsBlocks L (G.Met L) (createRest n objectType parentDir name newId) (fun x => x = newId) :=
  (preserves_failIf _ _).bind (fun _ _ => ((keeps_mrtResolve newId).orThrow _).bind (fun _ _ =>
    (Preserves.ite (fun _ => keeps_createTree (hst newId)) (fun _ => preserves_pure trivial)).bind (fun _ _ =>
      (keeps_createEnter hst hnew n objectType parentDir name _ _).bind (fun _ _ => preserves_pure rfl))))

end

/-! ## Calls that need no condition -/

section

variable {α : Type} {L : Layout} {id : Nat}

/-- The records of the volume are counted right, whatever else its blocks hold. -/
abbrev StaysCounted (L : Layout) (m : FsM α) (Q : α → Prop) : Prop := KeepsBlocks L (Demand.nothing.Met L) m Q

theorem keeps_writeCounted {rec : Record} {attrs : List Attr} (hc : Counted rec attrs) :
    StaysCounted L (recordWrite id rec attrs) (fun _ => True) :=
  keeps_write hc (fun _ _ => trivial)

theorem keeps_recordUnbind (block recordId : Nat) : StaysCounted L (recordUnbind block recordId) (fun _ => True) :=
  (keeps_bitmapClear allowsSystem_met _).ignore.bind (fun _ _ =>
    (keeps_mrtFreeEntry allowsSystem_met (slotMay_nothing _)).ignore.bind (fun _ _ => preserves_pure trivial))

theorem keeps_recordBind (objectType : ObjectType) (recordId generation block : Nat) :
    StaysCounted L (recordBind objectType recordId generation block) (fun _ => True) :=
  (keeps_mrtUpdateEntry allowsSystem_met (slotMay_nothing _)).elseDo (keeps_recordUnbind _ _) (fun _ _ =>
    (keeps_writeCounted ⟨roomy_nil, rfl⟩).elseDo (keeps_recordUnbind _ _) (fun _ _ =>
      (keeps_mapRecordCount _).bind (fun _ _ => preserves_pure trivial)))

theorem keeps_recordAlloc (objectType : ObjectType) : StaysCounted L (recordAlloc objectType) (fun _ => True) :=
  (keeps_mrtAllocEntry allowsSystem_met (fun _ => slotMay_nothing _)).elseDo (preserves_pure trivial) (fun _ _ =>
    (keeps_bitmapAlloc allowsSystem_met).bind (fun _ _ => Preserves.ite
      (fun _ => (keeps_mrtFreeEntry allowsSystem_met (slotMay_nothing _)).ignore.bind (fun _ _ => preserves_pure trivial))
      (fun _ => keeps_recordBind _ _ _ _)))

theorem keeps_smkfsCreateRecord (n : Nat) (objectType : ObjectType) (parentDir : Nat) (name : CStr) :
    StaysCounted L (smkfsCreateRecord n objectType parentDir name) (fun _ => True) := by
  have hbody : StaysCounted L (createBody n objectType parentDir name) (fun _ => True) := by
    rw [createBody_eq]
    exact keeps_getMem.bind (fun _ _ => (preserves_failIf _ _).bind (fun _ _ => (keeps_recordAlloc _).bind (fun _ _ =>
      (keeps_createRest (fun _ => stable_nothing) (fun _ _ _ _ => trivial) n objectType parentDir name).any)))
  exact ((keeps_journalStartTransaction allowsSystem_met).orThrow _).bind (fun _ _ => keeps_malloc.bind (fun _ _ =>
    keeps_malloc.bind (fun _ _ => Preserves.ite
      (fun _ => (keeps_journalCommit allowsSystem_met).ignore.bind (fun _ _ => preserves_throw _))
      (fun _ => (keeps_abortOnError hbody).bind (fun _ _ => (keeps_journalCommit allowsSystem_met).ignore.bind
        (fun _ _ => preserves_pure trivial))))))

theorem keeps_dirRemove (n parentDir : Nat) (name : CStr) : StaysCounted L (dirRemove n parentDir name) (fun _ => True) := by
  refine ((keeps_read parentDir).orThrow _).bind (fun x hx => ?_)
  obtain ⟨parentRec, parentAttrs⟩ := x
  dsimp only at hx ⊢
  cases hfound : recordFindAttr .data parentAttrs with
  | none => exact preserves_throw _
  | some parentBtree =>
    exact (keeps_btreeDelete allowsSystem_met _ _ _).bind (fun _ _ => ((keeps_onAttrs _ _).orThrow _).bind (fun _ hrun =>
      (keeps_writeCounted (hx.counted.replaceRoot hfound hrun)).orThrow _))

theorem keeps_dirInsert (n parentDir : Nat) (name : CStr) (recordId : Nat) :
    StaysCounted L (dirInsert n parentDir name recordId) (fun _ => True) := by
  refine ((keeps_read parentDir).orThrow _).bind (fun x hx => ?_)
  obtain ⟨parentRec, parentAttrs⟩ := x
  dsimp only at hx ⊢
  cases hfound : recordFindAttr .data parentAttrs with
  | none => exact preserves_throw _
  | some parentBtree =>
    exact ((keeps_btreeInsert allowsSystem_met _ _ _ _).orThrow _).bind (fun _ _ =>
      ((keeps_onAttrs _ _).orThrow _).bind (fun _ hrun =>
        (keeps_writeCounted (hx.counted.replaceRoot hfound hrun)).orThrow _))

theorem keeps_deleteLink {rec : Record} {attrs : List Attr} (hc : Counted rec attrs) :
    StaysCounted L (deleteLink id rec attrs) (fun _ => True) := by
  unfold deleteLink
  dsimp only
  generalize (if rec.linkCount = 0 then 1 else rec.linkCount) - 1 = links
  have hlinks : Counted { rec with linkCount := links } attrs := ⟨hc.toRoomy, hc.count⟩
  exact Preserves.ite (fun _ => keeps_recordFree stable_nothing) (fun _ => (keeps_writeCounted hlinks).orThrow _)

theorem keeps_btreeNodeRead (block payloadSize : Nat) :
    StaysCounted L (btreeNodeRead block payloadSize) (fun _ => True) :=
  (preserves_failIf _ _).bind (fun _ _ => keeps_malloc.bind (fun _ _ => (preserves_failIf _ _).bind (fun _ _ =>
    (keeps_btreeLoad _).bind (fun _ _ => (preserves_failIf _ _).bind (fun _ _ => preserves_pure trivial)))))

theorem keeps_dirHasEntries (attrs : List Attr) : StaysCounted L (dirHasEntries attrs) (fun _ => True) := by
  unfold dirHasEntries
  split
  · exact preserves_pure trivial
  · exact (keeps_btreeNodeRead _ _).elseDo (preserves_pure trivial) (fun _ _ => preserves_pure trivial)

theorem keeps_smkfsDeleteRecord (n parentDir : Nat) (name : CStr) (recordId : Nat) :
    StaysCounted L (smkfsDeleteRecord n parentDir name recordId) (fun _ => True) :=
  keeps_getMem.bind (fun _ _ => (preserves_failIf _ _).bind (fun _ _ => ((keeps_read recordId).orThrow _).bind (fun _ hx =>
    (Preserves.ite (fun _ => keeps_dirHasEntries _) (fun _ => preserves_pure trivial)).bind (fun _ _ =>
      (preserves_failIf _ _).bind (fun _ _ => ((keeps_journalStartTransaction allowsSystem_met).orThrow _).bind (fun _ _ =>
        (keeps_abortOnError ((keeps_dirRemove n parentDir name).bind (fun _ _ => keeps_deleteLink hx.counted))).bind
          (fun _ _ => (keeps_journalCommit allowsSystem_met).orThrow _)))))))

end

end SmkFs
end AmitX
