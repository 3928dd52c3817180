import AmitX.SmkFs.AttrCountCalls
import AmitX.SmkFs.ExtentMap
import AmitX.SmkFs.FormatMount
/-!
# AttrCountRun — the stored number of attributes over runs

A new file gets its permissions in a second transaction, which adds one to the count that it finds.  The record it finds is
the one it has created, because the block that was allocated for it belongs to no other record.  A run whose calls all meet
their conditions leaves every record with the right count, whatever fails in it.
-/
namespace AmitX
namespace SmkFs

open Prog Run

structure Volume.FreeData (v : Volume) (b : Nat) : Prop where
  low : v.sb.dataStart ≤ b
  high : b - v.sb.dataStart < v.sb.dataBlocks
  clear : v.used (b - v.sb.dataStart) = false

/-- Laid out as it was formatted, with no record in a block that is marked free. -/
structure Volume.Marked (v : Volume) : Prop where
  layout : v.sb.toLayout.WF
  ring : v.RingOk
  marked : ∀ id < v.sb.mrtCapacity, (v.mrtEntry id).allocated = true → ¬v.FreeData (v.mrtEntry id).physicalBlock

section

variable {L : Layout} {v w : Volume} {id : Nat}

theorem Volume.FreeData.lt (h : v.FreeData b) (hl : v.sb.toLayout.WF) : b < uint64Max := by
  have hhigh := h.high
  rw [hl.dataBlocks_eq] at hhigh
  have htotal := hl.total
  have hmax : uint64Max = 2 ^ 64 - 1 := rfl
  omega

theorem Volume.Marked.congr (h : v.Marked) (hlay : w.sb.toLayout = v.sb.toLayout) (hring : w.RingOk)
    (hu : SameUsed v w) (hm : ∀ id < v.sb.mrtCapacity, (w.mrtEntry id).allocated = true →
      (v.mrtEntry id).allocated = true ∧ (w.mrtEntry id).physicalBlock = (v.mrtEntry id).physicalBlock ∨
        ¬v.FreeData (w.mrtEntry id).physicalBlock) : w.Marked := by
  refine ⟨hlay ▸ h.layout, hring, fun id hid halloc hfree => ?_⟩
  rw [hlay] at hid
  have hback : v.FreeData (w.mrtEntry id).physicalBlock := by
    obtain ⟨hlow, hhigh, hclear⟩ := hfree
    rw [hlay] at hlow hhigh hclear
    exact ⟨hlow, hhigh, by rw [← hu _ hhigh]; exact hclear⟩
  rcases hm id hid halloc with ⟨ha, he⟩ | hn
  · rw [he] at hback
    exact h.marked id hid ha hback
  · exact hn hback

theorem Volume.Marked.journal (h : v.Marked) (hj : JournalSteps v w) : w.Marked := by
  have hs := hj h.ring
  have hmrt := sameMrt_of_view h.layout hs.layout hs.view
  refine h.congr hs.layout hs.head (sameUsed_of_view h.layout hs.layout hs.view) (fun id hid halloc => Or.inl ?_)
  rw [hmrt id hid] at halloc ⊢
  exact ⟨halloc, rfl⟩

theorem Volume.Marked.setMrtEntry (h : v.Marked) {e : MrtEntry} (hid : id < v.sb.mrtCapacity)
    (he : ¬v.FreeData e.physicalBlock) : (v.setMrtEntry id e).Marked := by
  refine h.congr rfl h.ring (fun i hi => ?_) (fun id' _ halloc => ?_)
  · unfold Volume.used
    rw [Volume.setMrtEntry, Volume.write_view, Volume.write_toMem, Function.update_of_ne]
    have hb := h.layout.inBitmap hi
    have hm := h.layout.inMrt hid
    have hle := h.layout.bitmap
    intro heq
    rw [heq] at hb
    have := hb.2
    have := hm.1
    omega
  · rw [Volume.mrtEntry_setMrtEntry] at halloc ⊢
    by_cases hne : id' = id
    · rw [hne, Function.update_self]
      exact Or.inr he
    · rw [Function.update_of_ne hne] at halloc ⊢
      exact Or.inl ⟨halloc, rfl⟩

theorem mrtEntry_mapMrtFree (f : Nat → Nat) (v : Volume) : (v.mapMem (Mem.mapMrtFree f)).mrtEntry = v.mrtEntry := rfl

theorem Volume.Marked.mapMrtFree (h : v.Marked) (f : Nat → Nat) : (v.mapMem (Mem.mapMrtFree f)).Marked :=
  h.congr rfl h.ring (fun _ _ => rfl) (fun _ _ ha => Or.inl ⟨ha, rfl⟩)

/-! ## A new record -/

theorem vwp_mrtAllocEntry (hv : v.Marked) : vwp True mrtAllocEntry
    (fun x w => w.Marked ∧ (w.mrtEntry x.1).physicalBlock = uint64Max) (fun _ _ => True) v := by
  have hscan : ∀ n i, i + n = v.sb.mrtLength → vwp True (mrtScanBlocks v.sb i n)
      (fun x w => w.Marked ∧ (w.mrtEntry x.1).physicalBlock = uint64Max) (fun _ _ => True) v := by
    intro n
    induction n with
    | zero => exact fun _ _ => wpAbs_throw trivial
    | succ n ih =>
      intro i hi
      rw [mrtScanBlocks]
      refine wpAbs_bind (vwp_readBlock ?_ (fun _ => trivial))
      cases hfind : mrtFindFree (v.view (v.sb.mrtStart + i)).mrtEntries i 0 entriesPerBlock with
      | none => exact ih (i + 1) (by omega)
      | some j =>
        have hj : j < entriesPerBlock := by
          have := (mrtFindFree_some hfind).2.1
          omega
        have hid : i * entriesPerBlock + j < v.sb.mrtCapacity := by
          rw [hv.layout.capacity]
          calc i * entriesPerBlock + j
            _ < i * entriesPerBlock + entriesPerBlock := Nat.add_lt_add_left hj _
            _ = (i + 1) * entriesPerBlock := (Nat.succ_mul i _).symm
            _ ≤ v.sb.mrtLength * entriesPerBlock := Nat.mul_le_mul_right _ (by omega)
        have hblock : v.mrtBlock (i * entriesPerBlock + j) = v.sb.mrtStart + i := by
          rw [Volume.mrtBlock, slot_div i hj]
        refine wpAbs_seq (vwp_mrtStoreEntry True v _ _ _ _ _) (fun _ w hw => ?_) (fun _ _ _ => trivial)
        refine wpAbs_bind (vwp_modifyMem (wpAbs_pure ?_))
        have hset : v.write (v.sb.mrtStart + i) ((v.view (v.sb.mrtStart + i)).setMrtEntry j
            ((v.view (v.sb.mrtStart + i)).mrtEntries j).taken) =
            v.setMrtEntry (i * entriesPerBlock + j) ((v.view (v.sb.mrtStart + i)).mrtEntries j).taken := by
          rw [Volume.setMrtEntry, hblock, slot_mod i hj]
        rw [hset] at hw
        have hfree : ¬v.FreeData uint64Max := fun h => Nat.lt_irrefl _ (h.lt hv.layout)
        have hmarked := hv.setMrtEntry hid (e := ((v.view (v.sb.mrtStart + i)).mrtEntries j).taken) hfree
        have hs := hw hmarked.ring
        have hmrt := sameMrt_of_view hmarked.layout hs.layout hs.view (i * entriesPerBlock + j) hid
        refine ⟨(hmarked.journal hw).mapMrtFree _, ?_⟩
        rw [mrtEntry_mapMrtFree, hmrt, Volume.mrtEntry_setMrtEntry, Function.update_self, MrtEntry.taken]
  refine wpAbs_bind (vwp_getSb (hscan _ _ (Nat.zero_add _)))

def Demand.bound (newBlock newId : Nat) : Demand where
  slot id e := (id = newId → e.physicalBlock = newBlock ∨ e.physicalBlock = uint64Max) ∧
    (id ≠ newId → e.physicalBlock ≠ newBlock)
  attrs _ _ := True
  sublist _ _ := trivial
  root _ _ := trivial

def Demand.unpermitted (newBlock newId : Nat) : Demand where
  slot := (Demand.bound newBlock newId).slot
  attrs b xs := b = newBlock → recordFindAttr .permissions xs = none
  sublist hs h hb := findAttr_none_sublist (h hb) hs
  root _ h hb := (findAttr_append_other (show AttrType.data ≠ .permissions by decide)).trans (h hb)

variable {newBlock newId : Nat}

theorem block_of_allowed {e : MrtEntry} (h : SlotAllowed L ((Demand.unpermitted newBlock newId).Met L) newId e) :
    e.physicalBlock = newBlock := by
  have hslot := (slot_of_allowed h).1 rfl
  obtain ⟨_, -, -, -, -, hmax, -⟩ := h
  exact hslot.resolve_right hmax

theorem stable_unpermitted (id : Nat) : (Demand.unpermitted newBlock newId).Stable L id := by
  intro e e' attrs he he' ha hb
  have hid : id = newId := by
    by_contra hne
    exact (slot_of_allowed he').2 hne hb
  subst hid
  exact ha (block_of_allowed he)

theorem createAttrs_permissions (parentDir btreeRoot : Nat) :
    recordFindAttr .permissions (createAttrs parentDir btreeRoot) = none := by
  rw [createAttrs_eq]
  split <;> rfl

theorem meets_bound (hv : Counts L w) (hm : v.Marked) (hid : (v.mrtEntry newId).physicalBlock = uint64Max)
    (hlay : w.sb.toLayout = v.sb.toLayout) (hsame : SameMrt v w) (hfree : v.FreeData newBlock) :
    w.Meets L ((Demand.bound newBlock newId).Met L) := by
  refine ⟨hv.1, fun b => ⟨fun rec attrs hx => ⟨((hv.2 b).record rec attrs hx).1, trivial⟩, fun id hcap hb halloc => ?_⟩⟩
  have hL : L = v.sb.toLayout := hv.1.symm.trans hlay
  have hentry : (w.view b).mrtEntries (id % entriesPerBlock) = v.mrtEntry id := by
    rw [hb, hL, ← hsame id (by rw [← hL]; exact hcap), Volume.mrtEntry, Volume.mrtBlock, hlay]
  rw [hentry] at halloc ⊢
  refine ⟨fun h => Or.inr (by rw [h]; exact hid), fun _ heq => hm.marked id (by rw [← hL]; exact hcap) halloc ?_⟩
  rw [heq]
  exact hfree

theorem slotMay_updated (flags : Nat) :
    SlotMay L ((Demand.bound newBlock newId).Met L) newId (fun e => e.updated newBlock flags) :=
  slotMay_of (fun _ _ => ⟨fun _ => Or.inl rfl, fun h => absurd rfl h⟩)

theorem vwp_recordWrite_view {G : Demand} {rec : Record} {attrs : List Attr} (hv : v.Meets L (G.Met L))
    (hc : Counted rec attrs) (ha : ∀ e, SlotAllowed L (G.Met L) id e → G.attrs e.physicalBlock attrs) :
    vwp True (recordWrite id rec attrs) (fun _ w => w.Meets L (G.Met L) ∧ ∃ e, SlotAllowed L (G.Met L) id e ∧
      w.view e.physicalBlock = .record rec attrs) (fun _ w => w.Meets L (G.Met L)) v := by
  refine wpAbs_seq (preserves_failIf _ _ v hv) (fun _ v₁ h₁ => ?_) (fun _ _ h => h)
  refine wpAbs_seq (keeps_malloc v₁ h₁.2) (fun _ v₂ h₂ => ?_) (fun _ _ h => h)
  refine wpAbs_seq (keeps_malloc v₂ h₂.2) (fun _ v₃ h₃ => ?_) (fun _ _ h => h)
  refine wpAbs_seq (preserves_failIf _ _ v₃ h₃.2) (fun _ v₄ h₄ => ?_) (fun _ _ h => h)
  refine wpAbs_seq (keeps_mrtResolve id v₄ h₄.2) (fun e v₅ h₅ => ?_) (fun _ _ h => h)
  refine wpAbs_seq ((keeps_readBlock _).ignore v₅ h₅.2) (fun _ v₆ h₆ => ?_) (fun _ _ h => h)
  refine wpAbs_seq (keeps_journalWriteEntry allowsSystem_met _ _ _ _ _ v₆ h₆.2) (fun _ v₇ h₇ => ?_) (fun _ _ h => h)
  have hmet := met_record (L := L) hc (ha e h₅.1)
  have hwritten : vwp True ((writeBlock e.physicalBlock (.record rec attrs)).orThrow .io)
      (fun _ w => w.view e.physicalBlock = .record rec attrs) (fun _ _ => True) v₇ :=
    wpAbs_orThrow (vwp_writeBlock (by rw [Volume.write_view, Function.update_self]) (fun _ => trivial))
  exact wpAbs_mono (wpAbs_and ((keeps_writeBlock hmet).orThrow .io v₇ h₇.2) hwritten)
    (fun _ w h => ⟨h.1.2, e, h₅.1, h.2⟩) (fun _ _ h => h.1)

/-- What a record that has been allocated, or 0, leaves of a volume. -/
structure Allocated (L : Layout) (newId : Nat) (w : Volume) : Prop where
  counts : Counts L w
  place : newId ≠ 0 → ∃ newBlock, w.Meets L ((Demand.unpermitted newBlock newId).Met L)

theorem allocated_zero (h : Counts L w) : Allocated L 0 w := ⟨h, fun hne => absurd rfl hne⟩

theorem vwp_recordUnbind (hv : Counts L v) (block recordId : Nat) :
    vwp True (recordUnbind block recordId) (Allocated L) (fun _ => Counts L) v :=
  wpAbs_mono (((keeps_bitmapClear allowsSystem_met block).ignore.bind (fun _ _ =>
    (keeps_mrtFreeEntry allowsSystem_met (slotMay_nothing _)).ignore.bind (fun _ _ =>
      preserves_pure (Q := fun x => x = 0) rfl))) v hv)
    (fun _ _ h => by rw [h.1]; exact allocated_zero h.2) (fun _ _ h => h)

theorem vwp_recordBind (hv : v.Meets L ((Demand.bound newBlock newId).Met L)) (objectType : ObjectType)
    (generation : Nat) : vwp True (recordBind objectType newId generation newBlock) (Allocated L) (fun _ => Counts L) v := by
  refine wpAbs_elseDo (wpAbs_mono (keeps_mrtUpdateEntry allowsSystem_met (slotMay_updated _) v hv) (fun _ w h => ?_)
    (fun _ _ h => vwp_recordUnbind (counts_of_meets h) _ _))
  refine wpAbs_elseDo (wpAbs_mono (vwp_recordWrite_view h.2 ⟨roomy_nil, rfl⟩ (fun _ _ => trivial)) (fun _ u hu => ?_)
    (fun _ _ h => vwp_recordUnbind (counts_of_meets h) _ _))
  obtain ⟨hu, e, he, hview⟩ := hu
  have hblock : e.physicalBlock = newBlock := by
    have hslot := (slot_of_allowed he).1 rfl
    obtain ⟨_, -, -, -, -, hmax, -⟩ := he
    exact hslot.resolve_right hmax
  have hmeets : u.Meets L ((Demand.unpermitted newBlock newId).Met L) := by
    refine ⟨hu.1, fun b => ⟨fun rec attrs hx => ⟨((hu.2 b).record rec attrs hx).1, fun hb => ?_⟩, (hu.2 b).slots⟩⟩
    rw [hb, ← hblock, hview] at hx
    cases hx
    rfl
  exact wpAbs_mono (((keeps_mapRecordCount _).bind (fun _ _ => preserves_pure (Q := fun x => x = newId) rfl)) u hmeets)
    (fun _ _ h => by rw [h.1]; exact ⟨counts_of_meets h.2, fun _ => ⟨newBlock, h.2⟩⟩) (fun _ _ h => counts_of_meets h)

theorem vwp_recordAlloc (hv : Counts L v) (hm : v.Marked) (objectType : ObjectType) :
    vwp True (recordAlloc objectType) (Allocated L) (fun _ => Counts L) v := by
  refine wpAbs_elseDo (wpAbs_mono (wpAbs_and
    (keeps_mrtAllocEntry allowsSystem_met (fun _ => slotMay_nothing _) v hv) (vwp_mrtAllocEntry hm))
    (fun x w h => ?_) (fun _ _ h => wpAbs_pure (allocated_zero h.1)))
  obtain ⟨⟨-, hw⟩, hmark, hid⟩ := h
  refine wpAbs_seq (wpAbs_and (keeps_bitmapAlloc allowsSystem_met w hw) (vwp_bitmapAlloc True hmark.layout hmark.ring))
    (fun block u h => ?_) (fun _ _ h => h.1)
  obtain ⟨⟨-, hu⟩, hpost⟩ := h
  refine wpAbs_ite (fun _ => ?_) (fun hne => ?_)
  · exact wpAbs_mono (((keeps_mrtFreeEntry allowsSystem_met (slotMay_nothing _)).ignore.bind (fun _ _ =>
      preserves_pure (Q := fun x => x = 0) rfl)) u hu) (fun _ _ h => by rw [h.1]; exact allocated_zero h.2) (fun _ _ h => h)
  obtain ⟨hne, s, rfl, hs, hclear, -⟩ | ⟨h0, -⟩ := hpost.result
  · have hfree : w.FreeData (w.sb.dataStart + s) := by
      refine ⟨Nat.le_add_right _ _, ?_, ?_⟩
      · rw [Nat.add_sub_cancel_left]
        omega
      · rw [Nat.add_sub_cancel_left]
        exact hclear s (Nat.le_refl _) (Nat.lt_succ_self s)
    have hsame : SameMrt w u := by
      intro id hcap
      have hin := hmark.layout.inMrt hcap
      have hout : ¬w.sb.InBitmap (w.mrtBlock id) := fun hb => by
        have := hmark.layout.bitmap
        have := hb.2
        have := hin.1
        omega
      rw [Volume.mrtEntry, Volume.mrtEntry, Volume.mrtBlock, Volume.mrtBlock, hpost.frame.layout]
      exact congrArg (fun x => x.mrtEntries (id % entriesPerBlock))
        (hpost.frame.view _ (hmark.layout.mrt_not_inJournal hin) hout)
    exact vwp_recordBind (meets_bound hu hmark hid hpost.frame.layout hsame hfree) objectType x.2
  · exact absurd h0 hne

theorem vwp_smkfsCreateRecord (hv : Counts L v) (hm : v.Marked) {n parentDir : Nat} {name : CStr}
    {objectType : ObjectType} : vwp True (smkfsCreateRecord n objectType parentDir name)
      (fun newId w => ∃ newBlock, w.Meets L ((Demand.unpermitted newBlock newId).Met L)) (fun _ => Counts L) v := by
  have hbody : ∀ {w : Volume}, Counts L w → w.Marked → vwp True (createBody n objectType parentDir name)
      (fun newId w => ∃ newBlock, w.Meets L ((Demand.unpermitted newBlock newId).Met L)) (fun _ => Counts L) w := by
    intro w hw hmark
    rw [createBody_eq]
    refine wpAbs_bind (vwp_getMem (wpAbs_bind (wpAbs_failIf (fun _ => hw) (fun _ => ?_))))
    refine wpAbs_seq (vwp_recordAlloc hw hmark objectType) (fun newId u hu => ?_) (fun _ _ h => h)
    by_cases h0 : newId = 0
    · unfold createRest
      rw [failIf, if_pos h0]
      exact wpAbs_bind (wpAbs_throw hu.counts)
    · obtain ⟨newBlock, hmeets⟩ := hu.place h0
      exact wpAbs_mono (keeps_createRest stable_unpermitted (fun _ _ _ _ _ => createAttrs_permissions _ _)
        n objectType parentDir name u hmeets) (fun _ _ h => ⟨newBlock, by rw [h.1]; exact h.2⟩)
        (fun _ _ h => counts_of_meets h)
  have hsteps : vwp True (journalStartTransaction.orThrow .journal) (fun _ w => JournalSteps v w) (fun _ _ => True) v :=
    wpAbs_orThrow (wpAbs_mono (journalStartTransaction_steps v) (fun _ _ h => h) (fun _ _ _ => trivial))
  refine wpAbs_seq (wpAbs_and (keeps_start v hv) hsteps) (fun _ w h => ?_)
    (fun _ _ h => h.1)
  obtain ⟨⟨-, hw⟩, hj⟩ := h
  have hmark := hm.journal hj
  have hmalloc : ∀ u, vwp True malloc (fun _ u' => u' = u) (fun _ _ => False) u := fun u =>
    vwp_malloc rfl (fun _ => rfl)
  refine wpAbs_seq (hmalloc w) (fun _ w₁ h₁ => ?_) (fun _ _ h => h.elim)
  refine wpAbs_seq (hmalloc w₁) (fun _ w₂ h₂ => ?_) (fun _ _ h => h.elim)
  rw [h₂, h₁]
  refine wpAbs_ite (fun _ => ?_) (fun _ => ?_)
  · exact wpAbs_mono (((keeps_journalCommit allowsSystem_met).ignore.bind (fun _ _ =>
      preserves_throw (Q := fun _ => False) _)) w hw) (fun _ _ h => h.1.elim) (fun _ _ h => h)
  · refine wpAbs_seq (wpAbs_catchWith (wpAbs_mono (hbody hw hmark) (fun _ _ h => h) (fun e u hu =>
      wpAbs_mono ((keeps_journalAbort.bind (fun _ _ => preserves_throw (Q := fun _ => False) e)) u hu)
        (fun _ _ h => h.1.elim) (fun _ _ h => h)))) (fun newId u hu => ?_) (fun _ _ h => h)
    obtain ⟨newBlock, hu⟩ := hu
    exact wpAbs_mono (((keeps_journalCommit allowsSystem_met).ignore.bind (fun _ _ =>
      preserves_pure (Q := fun x => x = newId) rfl)) u hu) (fun _ _ h => ⟨newBlock, by rw [h.1]; exact h.2⟩)
      (fun _ _ h => counts_of_meets h)

theorem vwp_createPermissions (hv : v.Meets L ((Demand.unpermitted newBlock newId).Met L)) (permissions : Nat) :
    vwp True (createPermissions newId permissions) (fun _ => Counts L) (fun _ => Counts L) v := by
  refine wpAbs_seq (keeps_start v hv) (fun _ w hw => ?_) (fun _ _ h => counts_of_meets h)
  refine wpAbs_seq (keeps_orAbort (keeps_read newId) _ w hw.2) (fun x u h => ?_) (fun _ _ h => counts_of_meets h)
  obtain ⟨rec, attrs⟩ := x
  obtain ⟨hx, hu⟩ := h
  obtain ⟨e, he, ha⟩ := hx.asked
  have hnone := ha (block_of_allowed he)
  have hrest : StaysCounted L (do
      let attrs ← orAbort (onAttrs (recordAddAttr attrBufSize .permissions (.u16 permissions)) attrs) .nospc
      abortOnError (recordWrite newId { rec with attrCount := rec.attrCount + 1 } attrs)
      journalCommit.orThrow .journal) (fun _ => True) := by
    refine (keeps_orAbort (keeps_onAttrs _ attrs) _).bind (fun attrs' hrun => ?_)
    have hc : Counted { rec with attrCount := rec.attrCount + 1 } attrs' :=
      ⟨hx.counted.toRoomy.add hrun (fun h => by cases h),
        (congrArg (· + 1) hx.counted.count).trans (length_added hrun (by decide) hnone).symm⟩
    exact (keeps_abortOnError (keeps_writeCounted hc)).bind (fun _ _ => keeps_commit)
  exact wpAbs_mono (hrest u (counts_of_meets hu)) (fun _ _ h => h.2) (fun _ _ h => h)

theorem vwp_smkfsCreateFile (hv : Counts L v) (hm : v.Marked) {n : Nat} {driveNum : UInt8} {path : CStr}
    {permissions : Nat} : vwp True (smkfsCreateFile n driveNum path permissions) (fun _ => Counts L)
      (fun _ => Counts L) v := by
  refine wpAbs_bind (vwp_getMem (wpAbs_bind (wpAbs_failIf (fun _ => hv) (fun _ => ?_))))
  refine wpAbs_seq ((readsOnly_pathSplit n driveNum path v).orThrow _ v rfl) (fun x w h => ?_)
    (fun _ _ h => by rw [h]; exact hv)
  rw [h.2]
  refine wpAbs_seq (wpAbs_orThrow (vwp_smkfsCreateRecord hv hm)) (fun newId u hu => ?_) (fun _ _ h => h)
  obtain ⟨newBlock, hu⟩ := hu
  exact vwp_createPermissions hu permissions

end

/-! ## Runs -/

/-- A call that changes the file system; `turns` bounds the search for a name. -/
inductive FsCall
  | createFile (turns : Nat) (driveNum : UInt8) (path : CStr) (permissions : Nat)
  | mkdir (turns : Nat) (driveNum : UInt8) (path : CStr)
  | createRecord (turns : Nat) (objectType : ObjectType) (parentDir : Nat) (name : CStr)
  | write (recordId offset : Nat) (buf : List UInt8)
  | truncate (recordId newSize : Nat)
  | puncHole (recordId offset len : Nat)
  | setattr (recordId : Nat) (type : AttrType) (data : AttrData)
  | rename (turns oldParent : Nat) (oldName : CStr) (newParent : Nat) (newName : CStr) (recordId : Nat)
  | link (turns : Nat) (driveNum : UInt8) (existingPath newPath : CStr)
  | deleteFile (turns : Nat) (driveNum : UInt8) (path : CStr)
  | rmdir (turns : Nat) (driveNum : UInt8) (path : CStr)
  | unlink (turns : Nat) (driveNum : UInt8) (path : CStr)
  | deleteRecord (turns parentDir : Nat) (name : CStr) (recordId : Nat)

def FsCall.exec (other : BlockData → Nat → UInt8) : FsCall → FsM Unit
  | .createFile turns driveNum path permissions => smkfsCreateFile turns driveNum path permissions
  | .mkdir turns driveNum path => do
    let _ ← smkfsMkdir turns driveNum path
  | .createRecord turns objectType parentDir name => do
    let _ ← smkfsCreateRecord turns objectType parentDir name
  | .write recordId offset buf => do
    let _ ← smkfsWrite other recordId offset buf
  | .truncate recordId newSize => smkfsTruncate recordId newSize
  | .puncHole recordId offset len => smkfsPuncHole recordId offset len
  | .setattr recordId type data => smkfsSetattr recordId type data
  | .rename turns oldParent oldName newParent newName recordId =>
    smkfsRename turns oldParent oldName newParent newName recordId
  | .link turns driveNum existingPath newPath => smkfsLink turns driveNum existingPath newPath
  | .deleteFile turns driveNum path => smkfsDeleteFile turns driveNum path
  | .rmdir turns driveNum path => smkfsRmdir turns driveNum path
  | .unlink turns driveNum path => smkfsUnlink turns driveNum path
  | .deleteRecord turns parentDir name recordId => smkfsDeleteRecord turns parentDir name recordId

def FsCall.KeepsCount (v : Volume) : FsCall → Prop
  | .createFile _ _ _ _ => v.Marked
  | .write recordId offset buf => ∀ rec attrs, v.RecordAt recordId rec attrs →
    WriteCounts v.sb.toLayout offset buf.length attrs
  | .truncate recordId newSize => ∀ rec attrs, v.RecordAt recordId rec attrs →
    newSize = fileSize attrs ∨ TruncateCounts newSize attrs
  | .puncHole recordId offset len => ∀ rec attrs, v.RecordAt recordId rec attrs → PuncCounts offset len attrs
  | .setattr _ type data => type = .data → 8 ≤ data.length
  | .rename _ _ _ _ _ recordId => ∀ rec attrs, v.RecordAt recordId rec attrs → recordFindAttr .parent attrs ≠ none
  | _ => True

/-- A call, with the transfers and allocations that fail in it. -/
structure FaultyCall where
  call : FsCall
  outcomes : List Outcome
  heap : List Bool

def FaultyCall.run (other : BlockData → Nat → UInt8) (s : Mount) (c : FaultyCall) : Except Err Unit × Mount :=
  c.call.exec other (s.meet c.outcomes c.heap)

def Volume.CountsRight (v : Volume) : Prop :=
  ∀ id rec attrs, v.RecordAt id rec attrs → rec.attrCount = attrs.length

theorem Counts.right {v : Volume} (h : Counts v.sb.toLayout v) : v.CountsRight := fun _ _ _ hr =>
  ((h.2 _).record _ _ hr.view).1.count

theorem counts_exec {v : Volume} (other : BlockData → Nat → UInt8) (hl : v.sb.toLayout.WF) (hv : Counts v.sb.toLayout v)
    (c : FsCall) (hc : c.KeepsCount v) :
    vwp True (c.exec other) (fun _ => Counts v.sb.toLayout) (fun _ => Counts v.sb.toLayout) v := by
  have huncond : ∀ {α : Type} {m : FsM α}, StaysCounted v.sb.toLayout m (fun _ => True) →
      vwp True m (fun _ => Counts v.sb.toLayout) (fun _ => Counts v.sb.toLayout) v := fun h =>
    wpAbs_mono (h v hv) (fun _ _ h => h.2) (fun _ _ h => h)
  have hdrop : ∀ {α : Type} {m : FsM α},
      vwp True m (fun _ => Counts v.sb.toLayout) (fun _ => Counts v.sb.toLayout) v →
      vwp True (do let _ ← m) (fun _ => Counts v.sb.toLayout) (fun _ => Counts v.sb.toLayout) v := fun h =>
    wpAbs_seq h (fun _ _ h => wpAbs_pure h) (fun _ _ h => h)
  cases c with
  | createFile turns driveNum path permissions => exact vwp_smkfsCreateFile hv hc
  | mkdir turns driveNum path => exact hdrop (huncond (keeps_smkfsMkdir turns driveNum path))
  | createRecord turns objectType parentDir name =>
    exact hdrop (huncond (keeps_smkfsCreateRecord turns objectType parentDir name))
  | write recordId offset buf => exact hdrop (vwp_smkfsWrite hl hv hc)
  | truncate recordId newSize => exact vwp_smkfsTruncate hv hc
  | puncHole recordId offset len => exact vwp_smkfsPuncHole hv hc
  | setattr recordId type data => exact vwp_smkfsSetattr hv hc
  | rename turns oldParent oldName newParent newName recordId => exact vwp_smkfsRename hv hc
  | link turns driveNum existingPath newPath => exact huncond (keeps_smkfsLink turns driveNum existingPath newPath)
  | deleteFile turns driveNum path => exact huncond (keeps_deletePath turns driveNum path)
  | rmdir turns driveNum path => exact huncond (keeps_deletePath turns driveNum path)
  | unlink turns driveNum path => exact huncond (keeps_smkfsUnlink turns driveNum path)
  | deleteRecord turns parentDir name recordId =>
    exact huncond (keeps_smkfsDeleteRecord turns parentDir name recordId)

/-- **`attr_count` is the number of attributes** in every state of a run whose calls meet their conditions. -/
theorem attr_counts_right (other : BlockData → Nat → UInt8) (s : Mount) (hl : s.vol.sb.toLayout.WF)
    (h0 : ∀ b rec attrs, s.vol.view b = .record rec attrs → Counted rec attrs) (calls : List FaultyCall)
    (hcalls : Allowed (FaultyCall.run other) (fun _ s c => c.call.KeepsCount s.vol) s calls) :
    (run (FaultyCall.run other) s calls).2.vol.CountsRight := by
  have hstart : Counts s.vol.sb.toLayout s.vol := ⟨rfl, fun b => ⟨fun rec attrs hx => ⟨h0 b rec attrs hx, trivial⟩,
    fun _ _ _ _ => trivial⟩⟩
  have hinv := run_keeps (I := fun _ t => Counts s.vol.sb.toLayout t.vol) (fun _ t c ht hc => ?_) hstart calls hcalls
  · exact Counts.right (by rw [hinv.1]; exact hinv)
  · have hlay : t.vol.sb.toLayout = s.vol.sb.toLayout := ht.1
    have hcall := counts_exec other (by rw [hlay]; exact hl) (by rw [hlay]; exact ht) c.call hc
    rw [hlay] at hcall
    have hwp := wp_of_vwp (s := t.meet c.outcomes c.heap) hcall
    unfold FaultyCall.run
    rcases hrun : c.call.exec other (t.meet c.outcomes c.heap) with ⟨e | u, t'⟩
    · have h := wp_error hwp hrun
      exact h
    · have h := wp_ok hwp hrun
      exact h

def quietCalls : List FaultyCall := [⟨.write 2 0 [5], [], []⟩, ⟨.setattr 2 .permissions (.u16 420), [], []⟩]

theorem attr_counts_right_quiet :
    (run (FaultyCall.run (fun _ _ => 0)) (fileDisk twoBlocks 7) quietCalls).1 = [.ok (), .ok ()] ∧
      (run (FaultyCall.run (fun _ _ => 0)) (fileDisk twoBlocks 7) quietCalls).2.vol.CountsRight := by
  refine ⟨by decide +kernel, attr_counts_right _ _ (fileDisk_ready twoBlocks 7).2.1 (fun b rec attrs hx => ?_) quietCalls
    (allowed_cons.2 ⟨fun rec attrs hr => ?_, allowed_cons.2 ⟨fun h => ?_, allowed_nil _⟩⟩)⟩
  · rw [fileDisk_view, fileBlock] at hx
    split at hx
    · cases hx
    split at hx
    · cases hx
      refine ⟨⟨by decide, fun a ha ht => ?_⟩, rfl⟩
      simp only [twoBlocks, List.mem_cons, List.not_mem_nil, or_false] at ha
      rcases ha with rfl | rfl <;> cases ht
    split at hx <;> cases hx
  · obtain ⟨-, rfl⟩ := (fileDisk_file twoBlocks 7).toRecordAt.unique hr
    exact Or.inl (by decide +kernel)
  · cases h

def formattedFs : Mount := (smkfsMount (smkfsMkfs 512 512 (blankMount zeroMem.sb)).2).2

/-- `A:/f`. -/
def pathF : CStr := ⟨[65, 58, 47, 102], by simp⟩

def growingCalls : List FaultyCall := [⟨.createFile 1 0 pathF 420, [], []⟩, ⟨.write 2 0 [1], [], []⟩, ⟨.write 2 1 [2], [], []⟩]

/-- The second write replaces the size and adds one to the count all the same. -/
theorem not_attr_counts_right :
    (run (FaultyCall.run (fun _ _ => 0)) formattedFs growingCalls).1 = [.ok (), .ok (), .ok ()] ∧
      ¬(run (FaultyCall.run (fun _ _ => 0)) formattedFs growingCalls).2.vol.CountsRight := by
  refine ⟨by decide +kernel, fun h => ?_⟩
  have hr : (run (FaultyCall.run (fun _ _ => 0)) formattedFs growingCalls).2.vol.RecordAt 2 ⟨2, .file, 5, 1, 1, false⟩
      [⟨.parent, 0, .u64 1⟩, ⟨.permissions, 0, .u16 420⟩, ⟨.extents, 0, .extent ⟨0, 23, 1⟩⟩, ⟨.fsize, 0, .u64 2⟩] := by
    refine ⟨?_, view_of_readAt (by decide +kernel), by decide +kernel⟩
    unfold Volume.Bound
    decide +kernel
  have hcount := h 2 _ _ hr
  cases hcount

end SmkFs
end AmitX
