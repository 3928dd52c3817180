import AmitX.SmkFs.AttrCount
import AmitX.SmkFs.AllocSpec
/-!
# AttrCountCalls — which calls keep the stored number of attributes

The calls that write back a count they have read, or add one to it, keep it right on a condition on the record they find;
the others always do.  Nothing is assumed of what fails in them.
-/
namespace AmitX
namespace SmkFs

open Prog

section

variable {α : Type} {L : Layout} {id : Nat} {v : Volume} {rec : Record} {attrs : List Attr}

/-! ## Putting extents back -/

theorem keeps_putExtent (e : Extent) (h : Roomy attrs) :
    StaysCounted L (putExtent e attrs) (fun attrs' => ExtentsAdded 1 attrs attrs') :=
  keeps_orAbort ((keeps_onAttrs _ attrs).mono (fun _ hrun => extentsAdded_put h hrun)) _

theorem keeps_rebuild {body : Extent → List Attr → FsM (List Attr)} {parts : Extent → Nat}
    (hbody : ∀ e attrs, Roomy attrs → StaysCounted L (body e attrs) (fun attrs' => ExtentsAdded (parts e) attrs attrs')) :
    ∀ (es : List Extent) (attrs : List Attr), Roomy attrs →
      StaysCounted L (rebuild body es attrs) (fun attrs' => ExtentsAdded (es.map parts).sum attrs attrs')
  | [], _, h => preserves_pure (ExtentsAdded.refl h)
  | e :: es, attrs, h => (hbody e attrs h).bind (fun _ ha => (keeps_rebuild hbody es _ ha.roomy).mono (fun _ hb => by
      rw [List.map_cons, List.sum_cons]
      exact ha.trans hb))

theorem keeps_free (start count : Nat) : StaysCounted L (bitmapFreeRange start count).ignore (fun _ => True) :=
  (keeps_bitmapFreeRange allowsSystem_met start count).ignore

theorem keeps_truncateExtent (newBlocks : Nat) (e : Extent) (attrs : List Attr) (h : Roomy attrs) :
    StaysCounted L (truncateExtent newBlocks e attrs) (fun attrs' => ExtentsAdded (truncateParts newBlocks e) attrs attrs') := by
  unfold truncateExtent truncateParts
  split
  · exact (keeps_free _ _).bind (fun _ _ => preserves_pure (ExtentsAdded.refl h))
  · split
    · exact (keeps_free _ _).bind (fun _ _ => keeps_putExtent _ h)
    · exact keeps_putExtent _ h

theorem keeps_puncExtent (holeStart holeEnd : Nat) (e : Extent) (attrs : List Attr) (h : Roomy attrs) :
    StaysCounted L (puncExtent holeStart holeEnd e attrs)
      (fun attrs' => ExtentsAdded (puncParts holeStart holeEnd e) attrs attrs') := by
  unfold puncExtent puncParts
  dsimp only
  split
  · exact keeps_putExtent _ h
  rename_i hmeets
  obtain ⟨hlow, hhigh⟩ := not_or.1 hmeets
  split
  · rename_i hin
    rw [if_neg (by omega), if_neg (by omega)]
    exact (keeps_free _ _).bind (fun _ _ => preserves_pure (ExtentsAdded.refl h))
  split
  · rename_i hboth
    rw [if_pos hboth.1, if_pos hboth.2]
    exact (keeps_putExtent _ h).bind (fun _ ha => (keeps_free _ _).bind (fun _ _ =>
      (keeps_putExtent _ ha.roomy).mono (fun _ hb => ha.trans hb)))
  split
  · rename_i hleft
    rw [if_pos hleft.1, if_neg (by omega)]
    exact (keeps_putExtent _ h).bind (fun _ ha => (keeps_free _ _).bind (fun _ _ => preserves_pure ha))
  split
  · rename_i hright
    rw [if_neg (by omega), if_pos hright.2]
    exact (keeps_free _ _).bind (fun _ _ => keeps_putExtent _ h)
  · omega

/-! ## Calls on a record -/

theorem vwp_afterRead {G : Demand} {c : Mem → Prop} [∀ m, Decidable (c m)] {k : Record × List Attr → FsM α}
    {Q : α → Volume → Prop} {E : Err → Volume → Prop} (hv : v.Meets L (G.Met L))
    (hk : ∀ rec attrs, v.RecordAt id rec attrs → Counted rec attrs → vwp True (k (rec, attrs)) Q E v)
    (hE : ∀ e, E e v) :
    vwp True (getMem >>= fun m => failIf (c m) .inval >>= fun _ => (recordRead id).orThrow .io >>= k) Q E v := by
  refine wpAbs_bind (vwp_getMem (wpAbs_bind (wpAbs_failIf (fun _ => hE _) (fun _ => ?_))))
  refine wpAbs_seq (wpAbs_orThrow (wpAbs_mono (fwp_recordRead_at True True v id) (fun _ _ h => h) (fun _ w h => ?_)))
    (fun x w h => ?_) (fun _ _ h => h)
  · rw [h.1]
    exact hE _
  · obtain ⟨hw, hr⟩ := h
    rw [hw]
    exact hk x.1 x.2 hr ((hv.2 _).record _ _ hr.view).1

abbrev Counts (L : Layout) (v : Volume) : Prop := v.Meets L (Demand.nothing.Met L)

theorem counts_afterRead {c : Mem → Prop} [∀ m, Decidable (c m)] {k : Record × List Attr → FsM α} (hv : Counts L v)
    (hk : ∀ rec attrs, v.RecordAt id rec attrs → Counted rec attrs → StaysCounted L (k (rec, attrs)) (fun _ => True)) :
    vwp True (getMem >>= fun m => failIf (c m) .inval >>= fun _ => (recordRead id).orThrow .io >>= k)
      (fun _ => Counts L) (fun _ => Counts L) v :=
  vwp_afterRead hv (fun rec attrs hr hc => wpAbs_mono (hk rec attrs hr hc v hv) (fun _ _ h => h.2) (fun _ _ h => h))
    (fun _ => hv)

theorem keeps_start {G : Demand} : KeepsBlocks L (G.Met L) (journalStartTransaction.orThrow .journal) (fun _ => True) :=
  (keeps_journalStartTransaction allowsSystem_met).orThrow _

theorem keeps_commit {G : Demand} : KeepsBlocks L (G.Met L) (journalCommit.orThrow .journal) (fun _ => True) :=
  (keeps_journalCommit allowsSystem_met).orThrow _

theorem vwp_smkfsSetattr (hv : Counts L v) {type : AttrType} {data : AttrData}
    (hdata : type = .data → 8 ≤ data.length) : vwp True (smkfsSetattr id type data)
      (fun _ => Counts L) (fun _ => Counts L) v :=
  counts_afterRead hv (fun _ attrs _ hc => keeps_start.bind (fun _ _ => (keeps_orAbort (keeps_onAttrs _ attrs) _).bind
    (fun _ hrun => (keeps_abortOnError (keeps_writeCounted ⟨hc.toRoomy.add hrun hdata, rfl⟩)).bind (fun _ _ => keeps_commit))))

theorem keeps_renameParent {d : AttrData} (hc : Counted rec attrs) (hfound : recordFindAttr .parent attrs = some d)
    (newParent : Nat) : StaysCounted L (renameParent newParent id rec attrs) (fun _ => True) :=
  ((keeps_onAttrs _ attrs).orThrow _).bind (fun _ hrun => (keeps_writeCounted
    ⟨hc.toRoomy.add hrun (fun h => by cases h),
      hc.count.trans (length_replaced hrun (by decide) (by decide) hfound).symm⟩).orThrow _)

theorem vwp_smkfsRename (hv : Counts L v) {n oldParent newParent : Nat} {oldName newName : CStr}
    (hparent : ∀ rec attrs, v.RecordAt id rec attrs → recordFindAttr .parent attrs ≠ none) :
    vwp True (smkfsRename n oldParent oldName newParent newName id)
      (fun _ => Counts L) (fun _ => Counts L) v := by
  refine counts_afterRead hv (fun rec attrs hr hc => ?_)
  obtain ⟨d, hd⟩ := Option.ne_none_iff_exists'.1 (hparent rec attrs hr)
  exact keeps_start.bind (fun _ _ => (keeps_abortOnError ((keeps_dirRemove n oldParent oldName).bind (fun _ _ =>
    (keeps_dirInsert n newParent newName id).bind (fun _ _ => keeps_renameParent hc hd newParent)))).bind
      (fun _ _ => keeps_commit))

/-- The condition of a truncation on the attributes of the file: there is just one size, and no extent is dropped. -/
structure TruncateCounts (newSize : Nat) (attrs : List Attr) : Prop where
  size : numOf .fsize attrs = 1
  extents : newSize < fileSize attrs → blocksOf newSize < blocksOf (fileSize attrs) →
    PutsBackAll (truncateParts (blocksOf newSize)) attrs

theorem vwp_smkfsTruncate (hv : Counts L v) {newSize : Nat}
    (hcounts : ∀ rec attrs, v.RecordAt id rec attrs → newSize = fileSize attrs ∨ TruncateCounts newSize attrs) :
    vwp True (smkfsTruncate id newSize)
      (fun _ => Counts L) (fun _ => Counts L) v := by
  refine counts_afterRead hv (fun rec attrs hr hc => (preserves_failIf _ _).bind (fun _ _ => Preserves.ite
    (fun _ => preserves_pure trivial) (fun hne => keeps_start.bind (fun _ _ => ?_))))
  obtain ⟨hsize, hextents⟩ := (hcounts rec attrs hr).resolve_left hne
  have hrest : ∀ attrs₁, ExtentsAdded 0 attrs attrs₁ → StaysCounted L (do
      let attrs₂ ← orAbort (onAttrs (recordAddAttr attrBufSize .fsize (.u64 newSize))
        (recordRemoveAttr .fsize attrs₁)) .nospc
      abortOnError (recordWrite id rec attrs₂)
      journalCommit.orThrow .journal) (fun _ => True) := by
    intro attrs₁ h₁
    refine (keeps_orAbort (keeps_onAttrs _ _) _).bind (fun attrs₂ hrun =>
      (keeps_abortOnError (keeps_writeCounted ⟨?_, ?_⟩)).bind (fun _ _ => keeps_commit))
    · exact (h₁.roomy.sublist (recordRemoveAttr_sublist _ _)).add hrun (fun h => by cases h)
    · rw [length_resized (h₁.sizes.trans hsize) hrun, h₁.length]
      exact hc.count
  have hcut : newSize < fileSize attrs ∧ blocksOf newSize < blocksOf (fileSize attrs) →
      StaysCounted L (truncateBlocks (blocksOf newSize) attrs) (fun attrs' => ExtentsAdded 0 attrs attrs') := by
    intro hshrink
    have hparts := hextents hshrink.1 hshrink.2
    have hstrip := strip_sublist .extents attrs
    refine (keeps_rebuild (keeps_truncateExtent _) _ _ (hc.toRoomy.sublist hstrip)).mono (fun attrs' h => ?_)
    have hlen := h.length
    have hall := length_strip .extents attrs
    rw [truncateCollectCb, collect_table, hparts] at hlen
    exact ⟨h.roomy, by omega, h.sizes.trans (numOf_strip (by decide))⟩
  exact Preserves.ite (fun hshrink => (hcut hshrink).bind hrest)
    (fun _ => (preserves_pure (ExtentsAdded.refl hc.toRoomy)).bind hrest)

/-- The condition of a punch on the attributes of the file: as many pieces lie outside the hole as there are extents. -/
def PuncCounts (offset len : Nat) (attrs : List Attr) : Prop :=
  fileSize attrs ≤ offset ∨ PutsBackAll (puncParts (offset / blockSize) (blocksOf (add64 offset
    (if fileSize attrs < add64 offset len then fileSize attrs - offset else len)))) attrs

theorem vwp_smkfsPuncHole (hv : Counts L v) {offset len : Nat}
    (hcounts : ∀ rec attrs, v.RecordAt id rec attrs → PuncCounts offset len attrs) :
    vwp True (smkfsPuncHole id offset len)
      (fun _ => Counts L) (fun _ => Counts L) v := by
  refine counts_afterRead hv (fun rec attrs hr hc => (preserves_failIf _ _).bind (fun _ _ => Preserves.ite
    (fun _ => preserves_pure trivial) (fun hpast => keeps_start.bind (fun _ _ => ?_))))
  have hparts := (hcounts rec attrs hr).resolve_left hpast
  have hstrip := strip_sublist .extents attrs
  refine (keeps_rebuild (keeps_puncExtent _ _) _ _ (hc.toRoomy.sublist hstrip)).bind (fun attrs₁ h₁ =>
    (keeps_abortOnError (keeps_writeCounted ⟨h₁.roomy, ?_⟩)).bind (fun _ _ => keeps_commit))
  have hlen := h₁.length
  have hall := length_strip .extents attrs
  rw [puncCollectCb, collect_table, hparts] at hlen
  exact hc.count.trans (by omega)

/-! ## Writing -/

/-- While a file without a size is written: its slot stays, its record has no size, and its extents lie in the data area. -/
def Demand.unsized (L : Layout) (id : Nat) (slot : MrtEntry) : Demand where
  slot id' e := id' = id → e = slot
  attrs b xs := b = slot.physicalBlock →
    recordFindAttr .fsize xs = none ∧ ∀ x ∈ extentsOf xs, L.dataStart ≤ x.2.physicalBlock
  sublist hs h hb := ⟨findAttr_none_sublist (h hb).1 hs, fun x hx => (h hb).2 x ((extentsOf_sublist hs).subset hx)⟩
  root n h hb := by
    have hdata : extentsOf [⟨.data, 0, .u64 n⟩] = [] :=
      extentsOf_cons_none (extent_of_ne (show AttrType.data ≠ .extents by decide))
    refine ⟨(findAttr_append_other (show AttrType.data ≠ .fsize by decide)).trans (h hb).1, fun x hx => (h hb).2 x ?_⟩
    rwa [extentsOf_append, hdata, List.append_nil] at hx

structure Demand.Writable (L : Layout) (G : Demand) (id : Nat) : Prop where
  stable : G.Stable L id
  insert : ∀ {rec attrs attrs' new}, G.ReadAs L id rec attrs → L.dataStart ≤ new.physicalBlock →
    extentInsert new attrs = (.ok (), attrs') → ∀ e, SlotAllowed L (G.Met L) id e → G.attrs e.physicalBlock attrs'
  fresh : ∀ {b} f, L.dataStart ≤ b → G.Met L b (.raw f)
  mapped : ∀ {rec attrs x}, G.ReadAs L id rec attrs → x ∈ extentsOf attrs → ∀ l f, G.Met L (x.2.place l) (.raw f)

theorem writable_nothing : Demand.nothing.Writable L id :=
  ⟨stable_nothing, fun _ _ _ _ _ => trivial, fun _ _ => ⟨fun _ _ h => (by cases h), fun _ _ _ _ => trivial⟩,
    fun _ _ _ _ => ⟨fun _ _ h => (by cases h), fun _ _ _ _ => trivial⟩⟩

theorem met_raw {G : Demand} (hl : L.WF) {b : Nat} (hb : L.dataStart ≤ b) (f : Nat → UInt8) : G.Met L b (.raw f) := by
  refine ⟨fun _ _ h => (by cases h), fun id hid hslot _ => ?_⟩
  have hlen : id / entriesPerBlock < L.mrtLength := Nat.div_lt_of_lt_mul (by
    rw [Nat.mul_comm, ← hl.capacity]
    exact hid)
  have hmrt := hl.mrt
  omega

theorem writable_unsized (hl : L.WF) (slot : MrtEntry) : (Demand.unsized L id slot).Writable L id := by
  have hslot : ∀ e, SlotAllowed L ((Demand.unsized L id slot).Met L) id e → e = slot := fun e he =>
    slot_of_allowed he rfl
  have hread : ∀ {rec attrs}, (Demand.unsized L id slot).ReadAs L id rec attrs →
      recordFindAttr .fsize attrs = none ∧ ∀ x ∈ extentsOf attrs, L.dataStart ≤ x.2.physicalBlock := by
    intro rec attrs h
    obtain ⟨e, he, ha⟩ := h.asked
    exact ha (congrArg MrtEntry.physicalBlock (hslot e he))
  refine ⟨fun e e' attrs he he' ha => ?_, fun h hnew hrun e he _ => ?_, fun f hb => met_raw hl hb f,
    fun h hx l f => met_raw hl (Nat.le_trans ((hread h).2 _ hx) (Nat.le_add_right _ _)) f⟩
  · rw [hslot e he] at ha
    rw [hslot e' he']
    exact ha
  · obtain ⟨e, base, hsub, -, hadd⟩ := extentInsert_ok hrun
    exact ⟨findAttr_none_add (findAttr_none_sublist (hread h).1 hsub) (by decide) hadd,
      extentsOf_insert hrun (P := fun b => L.dataStart ≤ b) hnew (hread h).2⟩

section

variable {G : Demand} (hG : G.Writable L id)

include hG

theorem keeps_extentAdd {logicalBlock physicalBlock : Nat} (hphys : L.dataStart ≤ physicalBlock) (count : Nat) :
    KeepsBlocks L (G.Met L) (extentAdd id logicalBlock physicalBlock count) (fun _ => True) := by
  refine (keeps_mrtResolve id).bind (fun e he => ((keeps_readBlock _).orThrow _).bind (fun x hx => ?_))
  cases x with
  | record rec attrs =>
    obtain ⟨hc, ha⟩ := hx.record rec attrs rfl
    refine (keeps_onAttrs _ attrs).bind (fun attrs' hrun => keeps_write ⟨?_, rfl⟩
      (hG.insert ⟨hc, e, he, ha⟩ hphys hrun))
    obtain ⟨_, base, hsub, -, hadd⟩ := extentInsert_ok hrun
    exact (hc.toRoomy.sublist hsub).add hadd (fun h => by cases h)
  | raw _ | super _ | node _ | mrt _ | bitmap _ | journal _ _ => exact preserves_throw _

theorem keeps_extentResolve (logicalBlock : Nat) : KeepsBlocks L (G.Met L) (extentResolve id logicalBlock)
    (fun ext => ∀ l f, G.Met L (ext.place l) (.raw f)) := by
  refine (keeps_read id).bind (fun x hx => ?_)
  obtain ⟨rec, attrs⟩ := x
  dsimp only at hx ⊢
  rw [iterate_resolve]
  cases hfind : (extentsOf attrs).findSome? (fun x => x.2.holds? logicalBlock) with
  | none => exact preserves_throw _
  | some ext =>
    obtain ⟨y, hy, hholds⟩ := List.exists_of_findSome?_eq_some hfind
    have hext : ext = y.2 := by
      unfold Extent.holds? at hholds
      split at hholds
      · exact (Option.some.inj hholds).symm
      · cases hholds
    rw [hext]
    exact preserves_pure (hG.mapped hx hy)

theorem keeps_fillHole (logicalBlock : Nat) : KeepsBlocks L (G.Met L) (fillHole id logicalBlock)
    (fun x => ∀ f, G.Met L x.1 (.raw f)) :=
  (keeps_bitmapAlloc allowsSystem_met).bind (fun _ hb => (preserves_failIf _ _).bind (fun _ hne =>
    (keeps_extentAdd hG (hb.resolve_left hne) 1).elseDo
      ((keeps_bitmapClear allowsSystem_met _).ignore.bind (fun _ _ => preserves_throw _))
      (fun _ _ => preserves_pure (fun f => hG.fresh f (hb.resolve_left hne)))))

theorem keeps_blockForWrite (other : BlockData → Nat → UInt8) (logicalBlock : Nat) :
    KeepsBlocks L (G.Met L) (blockForWrite other id logicalBlock) (fun x => ∀ f, G.Met L x.1 (.raw f)) :=
  (keeps_extentResolve hG logicalBlock).elseDo (keeps_fillHole hG logicalBlock) (fun _ hext =>
    ((keeps_readBlock _).orThrow _).bind (fun _ _ => preserves_pure (hext logicalBlock)))

theorem keeps_blockWriteByte (other : BlockData → Nat → UInt8) (logicalBlock offset : Nat) (src : List UInt8) :
    KeepsBlocks L (G.Met L) (blockWriteByte other id logicalBlock offset src) (fun _ => True) :=
  keeps_malloc.bind (fun _ _ => (preserves_failIf _ _).bind (fun _ _ => (preserves_failIf _ _).bind (fun _ _ =>
    Preserves.ite (fun _ => preserves_pure trivial) (fun _ => (keeps_blockForWrite hG other logicalBlock).bind
      (fun _ hb => ((keeps_writeBlock (hb _)).orThrow _).bind (fun _ _ => preserves_pure trivial))))))

theorem keeps_writeChunks (other : BlockData → Nat → UInt8) (offset : Nat) (buf : List UInt8) : ∀ n done,
    KeepsBlocks L (G.Met L) (writeChunks other id offset buf n done) (fun _ => True)
  | 0, _ => preserves_throw _
  | n + 1, _ => Preserves.ite (fun _ => (keeps_blockWriteByte hG other _ _ _).bind (fun _ _ =>
      keeps_writeChunks other offset buf n _)) (fun _ => preserves_pure trivial)

end

theorem counts_of_meets {G : Demand} (h : v.Meets L (G.Met L)) : Counts L v :=
  ⟨h.1, fun b => ⟨fun rec attrs hx => ⟨((h.2 b).record rec attrs hx).1, trivial⟩, fun _ _ _ _ => trivial⟩⟩

theorem meets_unsized (hv : Counts L v) (hr : v.RecordAt id rec attrs) (hnone : recordFindAttr .fsize attrs = none)
    (hdata : ∀ x ∈ extentsOf attrs, L.dataStart ≤ x.2.physicalBlock) :
    v.Meets L ((Demand.unsized L id (v.mrtEntry id)).Met L) := by
  refine ⟨hv.1, fun b => ⟨fun rec' attrs' hx => ⟨((hv.2 b).record rec' attrs' hx).1, fun hb => ?_⟩,
    fun id' _ hb _ hid => ?_⟩⟩
  · rw [hb, hr.view] at hx
    cases hx
    exact ⟨hnone, hdata⟩
  · rw [hid, hb, hid, ← hv.1]
    rfl

theorem counts_writeSize {slot : MrtEntry} (hv : v.Meets L ((Demand.unsized L id slot).Met L)) (newSize : Nat) :
    vwp True (writeSize id newSize) (fun _ => Counts L) (fun _ => Counts L) v := by
  refine wpAbs_seq (keeps_orAbort (keeps_read id) _ v hv) (fun x w h => ?_) (fun _ _ h => counts_of_meets h)
  obtain ⟨rec, attrs⟩ := x
  obtain ⟨hx, hw⟩ := h
  obtain ⟨e, he, ha⟩ := hx.asked
  have hnone := (ha (congrArg MrtEntry.physicalBlock (slot_of_allowed he rfl))).1
  dsimp only
  rcases hrun : recordAddAttr attrBufSize .fsize (.u64 newSize) attrs with ⟨err | u, attrs'⟩
  · exact wpAbs_pure (counts_of_meets hw)
  · have hc : Counted { rec with attrCount := rec.attrCount + 1 } attrs' :=
      ⟨hx.counted.toRoomy.add hrun (fun h => by cases h),
        (congrArg (· + 1) hx.counted.count).trans (length_added hrun (by decide) hnone).symm⟩
    exact wpAbs_mono (keeps_orAbort (keeps_writeCounted hc) _ w (counts_of_meets hw)) (fun _ _ h => h.2) (fun _ _ h => h)

/-- The condition of a write on the attributes of the file: it does not grow, or it has no size yet and its extents lie in
the data area. -/
def WriteCounts (L : Layout) (offset len : Nat) (attrs : List Attr) : Prop :=
  max (add64 offset len) (fileSize attrs) = fileSize attrs ∨
    (recordFindAttr .fsize attrs = none ∧ ∀ x ∈ extentsOf attrs, L.dataStart ≤ x.2.physicalBlock)

theorem vwp_smkfsWrite (hl : L.WF) (hv : Counts L v) {other : BlockData → Nat → UInt8} {offset : Nat} {buf : List UInt8}
    (hcounts : ∀ rec attrs, v.RecordAt id rec attrs → WriteCounts L offset buf.length attrs) :
    vwp True (smkfsWrite other id offset buf) (fun _ => Counts L) (fun _ => Counts L) v := by
  refine wpAbs_bind (vwp_afterRead hv (fun rec attrs hr hc => ?_) (fun _ => hv))
  have hchunks : ∀ {G : Demand} {w : Volume}, G.Writable L id → w.Meets L (G.Met L) →
      (∀ u : Volume, u.Meets L (G.Met L) → vwp True (when
        (max (add64 offset buf.length) (fileSize attrs) ≠ fileSize attrs)
        (writeSize id (max (add64 offset buf.length) (fileSize attrs)))) (fun _ => Counts L) (fun _ => Counts L) u) →
      vwp True (do
        abortOnError (writeChunks other id offset buf (buf.length + 1) 0)
        when (max (add64 offset buf.length) (fileSize attrs) ≠ fileSize attrs)
          (writeSize id (max (add64 offset buf.length) (fileSize attrs)))
        journalCommit.orThrow Err.journal
        pure buf.length) (fun _ => Counts L) (fun _ => Counts L) w := by
    intro G w hG hw hsize
    refine wpAbs_seq (keeps_abortOnError (keeps_writeChunks hG other offset buf _ _) w hw) (fun _ u hu => ?_)
      (fun _ _ h => counts_of_meets h)
    refine wpAbs_seq (hsize u hu.2) (fun _ x hx => ?_) (fun _ _ h => h)
    exact wpAbs_mono ((keeps_commit.bind (fun _ _ => preserves_pure (Q := fun _ => True) trivial)) x hx)
      (fun _ _ h => h.2) (fun _ _ h => h)
  refine wpAbs_bind (wpAbs_failIf (fun _ => hv) (fun _ => ?_))
  rcases hcounts rec attrs hr with hsame | ⟨hnone, hdata⟩
  · refine wpAbs_seq (keeps_start v hv) (fun _ w hw => wpAbs_pure (hchunks writable_nothing hw.2 (fun u hu => ?_)))
      (fun _ _ h => h)
    rw [when, if_neg (not_not.2 hsame)]
    exact wpAbs_pure hu
  · refine wpAbs_seq (keeps_start v (meets_unsized hv hr hnone hdata)) (fun _ w hw =>
      wpAbs_pure (hchunks (writable_unsized hl _) hw.2 (fun u hu => ?_))) (fun _ _ h => counts_of_meets h)
    exact wpAbs_ite (fun _ => counts_writeSize hu _) (fun _ => wpAbs_pure (counts_of_meets hu))

/-! ## Calls by path -/

def ReadsOnly (m : FsM α) : Prop := ∀ v, Preserves (faultView True True) (fun w => w = v) m (fun _ => True)

theorem ReadsOnly.keeps {m : FsM α} {φ : Nat → BlockData → Prop} (h : ReadsOnly m) :
    KeepsBlocks L φ m (fun _ => True) := fun v hv =>
  wpAbs_mono (h v v rfl) (fun _ _ hw => ⟨trivial, by rw [hw.2]; exact hv⟩) (fun _ _ hw => by rw [hw]; exact hv)

theorem readsOnly_getMem : ReadsOnly getMem := fun _ _ hw => vwp_getMem ⟨trivial, hw⟩

theorem readsOnly_malloc : ReadsOnly malloc := fun _ _ hw => vwp_malloc ⟨trivial, hw⟩ (fun _ => ⟨trivial, hw⟩)

theorem readsOnly_recordRead (id : Nat) : ReadsOnly (recordRead id) := fun _ w hw =>
  wpAbs_mono (fwp_recordRead_at True True w id) (fun _ _ h => ⟨trivial, h.1.trans hw⟩) (fun _ _ h => h.1.trans hw)

theorem readsOnly_btreeLoad (block : Nat) : ReadsOnly (btreeLoad block) := fun v => by
  refine (preserves_failIf _ _).bind (fun _ _ => Preserves.bind (R := fun _ => True) (Preserves.orThrow (fun w hw =>
    vwp_readBlock ⟨trivial, hw⟩ (fun _ => hw)) _) (fun x _ => ?_))
  cases x with
  | node node => exact (preserves_failIf _ _).bind (fun _ _ => preserves_pure trivial)
  | raw _ | super _ | record _ _ | mrt _ | bitmap _ | journal _ _ => exact preserves_throw _

theorem readsOnly_btreeDescend (key : CStr) : ∀ n block, ReadsOnly (btreeDescend key n block)
  | 0, _ => fun _ => preserves_throw _
  | n + 1, block => fun v => by
    refine (readsOnly_btreeLoad block v).bind (fun node _ => Preserves.ite (fun _ => ?_) (fun _ => ?_))
    · unfold btreeLeafLookup
      split
      · exact Preserves.ite (fun _ => preserves_pure trivial) (fun _ => preserves_throw _)
      · exact preserves_throw _
    · split
      · exact preserves_throw _
      · exact readsOnly_btreeDescend key n _ v

theorem readsOnly_smkfsLookupByName (n dirRecord : Nat) (name : CStr) : ReadsOnly (smkfsLookupByName n dirRecord name) :=
  fun v => by
    refine (readsOnly_getMem v).bind (fun _ _ => (preserves_failIf _ _).bind (fun _ _ =>
      ((readsOnly_recordRead dirRecord v).orThrow _).bind (fun x _ => (preserves_failIf _ _).bind (fun _ _ => ?_))))
    split
    · exact preserves_throw _
    · exact (preserves_failIf _ _).bind (fun _ _ => (readsOnly_malloc v).bind (fun _ _ =>
        (preserves_failIf _ _).bind (fun _ _ => readsOnly_btreeDescend _ n _ v)))

theorem readsOnly_pathWalk (n : Nat) : ∀ k p current, ReadsOnly (pathWalk n k p current)
  | 0, _, _ => fun _ => preserves_throw _
  | k + 1, _, current => fun v => Preserves.ite (fun _ => preserves_pure trivial) (fun _ =>
      ((readsOnly_smkfsLookupByName n current _ v).orThrow _).bind (fun _ _ => readsOnly_pathWalk n k _ _ v))

theorem readsOnly_pathLookup (n : Nat) (driveNum : UInt8) (path : CStr) : ReadsOnly (pathLookup n driveNum path) :=
  fun v => (preserves_failIf _ _).bind (fun _ _ => (preserves_failIf _ _).bind (fun _ _ =>
    Preserves.bind (R := fun _ => True) (fun _ hw => vwp_getSb ⟨trivial, hw⟩) (fun _ _ => readsOnly_pathWalk n _ _ _ v)))

theorem readsOnly_pathSplit (n : Nat) (driveNum : UInt8) (path : CStr) : ReadsOnly (pathSplit n driveNum path) :=
  fun v => Preserves.bind (R := fun _ => True) (fun _ hw => vwp_getSb ⟨trivial, hw⟩) (fun _ _ => Preserves.ite
    (fun _ => (preserves_failIf _ _).bind (fun _ _ => preserves_pure trivial))
    (fun _ => (preserves_failIf _ _).bind (fun _ _ => (readsOnly_malloc v).bind (fun _ _ =>
      (preserves_failIf _ _).bind (fun _ _ => ((readsOnly_pathLookup n driveNum _ v).orThrow _).bind (fun _ _ =>
        (preserves_failIf _ _).bind (fun _ _ => preserves_pure trivial)))))))

theorem keeps_linkEnter (n parentDir : Nat) (name : CStr) (recordId : Nat) :
    StaysCounted L (linkEnter n parentDir name recordId) (fun _ => True) := by
  refine ((keeps_read parentDir).orThrow _).bind (fun x hx => ?_)
  obtain ⟨parentRec, parentAttrs⟩ := x
  dsimp only at hx ⊢
  cases hfound : recordFindAttr .data parentAttrs with
  | none => exact preserves_throw _
  | some parentBtree =>
    exact ((keeps_btreeInsert allowsSystem_met _ _ _ _).orThrow _).bind (fun newRoot _ =>
      (keeps_writeCounted (hx.counted.replaceRoot hfound (hx.counted.toRoomy.replaceRoot hfound newRoot).1)).orThrow _)

theorem keeps_smkfsLink (n : Nat) (driveNum : UInt8) (existingPath newPath : CStr) :
    StaysCounted L (smkfsLink n driveNum existingPath newPath) (fun _ => True) := by
  have hlinked : ∀ {id : Nat} {rec : Record} {attrs : List Attr}, Counted rec attrs →
      StaysCounted L (recordWrite id { rec with linkCount := add32 rec.linkCount 1 } attrs) (fun _ => True) :=
    fun hc => keeps_writeCounted ⟨hc.toRoomy, hc.count⟩
  have hbody : StaysCounted L (linkBody n driveNum existingPath newPath) (fun _ => True) :=
    keeps_getMem.bind (fun _ _ => (preserves_failIf _ _).bind (fun _ _ =>
      ((readsOnly_pathLookup n driveNum _).keeps.orThrow _).bind (fun existingId _ =>
      ((keeps_read existingId).orThrow _).bind (fun _ hx => (preserves_failIf _ _).bind (fun _ _ =>
      (readsOnly_pathLookup n driveNum _).keeps.attempt.bind (fun _ _ => (preserves_failIf _ _).bind (fun _ _ =>
      ((readsOnly_pathSplit n driveNum _).keeps.orThrow _).bind (fun _ _ => keeps_start.bind (fun _ _ =>
      (keeps_linkEnter n _ _ _).bind (fun _ _ => (hlinked hx.counted).orThrow _))))))))))
  exact (keeps_abortOnError hbody).bind (fun _ _ => (keeps_journalCommit allowsSystem_met).ignore)

theorem keeps_smkfsMkdir (n : Nat) (driveNum : UInt8) (path : CStr) :
    StaysCounted L (smkfsMkdir n driveNum path) (fun _ => True) :=
  keeps_getMem.bind (fun _ _ => (preserves_failIf _ _).bind (fun _ _ =>
    ((readsOnly_pathSplit n driveNum _).keeps.orThrow _).bind (fun _ _ => keeps_smkfsCreateRecord n _ _ _)))

theorem keeps_deletePath (n : Nat) (driveNum : UInt8) (path : CStr) :
    StaysCounted L (deletePath n driveNum path) (fun _ => True) :=
  keeps_getMem.bind (fun _ _ => (preserves_failIf _ _).bind (fun _ _ =>
    ((readsOnly_pathLookup n driveNum _).keeps.orThrow _).bind (fun _ _ =>
    ((readsOnly_pathSplit n driveNum _).keeps.orThrow _).bind (fun _ _ => keeps_smkfsDeleteRecord n _ _ _))))

theorem keeps_smkfsUnlink (n : Nat) (driveNum : UInt8) (path : CStr) :
    StaysCounted L (smkfsUnlink n driveNum path) (fun _ => True) :=
  keeps_getMem.bind (fun _ _ => (preserves_failIf _ _).bind (fun _ _ =>
    ((readsOnly_pathLookup n driveNum _).keeps.orThrow _).bind (fun recordId _ =>
    ((readsOnly_pathSplit n driveNum _).keeps.orThrow _).bind (fun _ _ =>
    ((keeps_read recordId).any.orThrow _).bind (fun _ _ => (preserves_failIf _ _).bind (fun _ _ =>
      keeps_smkfsDeleteRecord n _ _ _))))))

end

end SmkFs
end AmitX
