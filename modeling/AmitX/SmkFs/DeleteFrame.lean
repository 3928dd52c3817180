import AmitX.SmkFs.Release
import AmitX.SmkFs.ReadSpec
/-!
# DeleteFrame — what a delete leaves alone (`smkfs_delete_record`)

A delete takes the name out of the tree of its directory and frees the blocks of the record.  Whatever reads, writes and
allocations fail on the way, the slots of the other records, the blocks outside and their bits are as before; so no other
file can tell.
-/
namespace AmitX
namespace SmkFs

open Prog Volume Pieces Pages

/-- Of the table only slot `id` has changed, of the data area only the blocks in `C`, and of the bits only those of the
blocks in `B`. -/
structure Spared (id : Nat) (C B : Nat → Prop) (v w : Volume) : Prop where
  layout : w.sb.toLayout = v.sb.toLayout
  ring : w.RingOk
  mounted : w.mounted = v.mounted
  entry : ∀ k < v.sb.mrtCapacity, k ≠ id → w.mrtEntry k = v.mrtEntry k
  view : ∀ b, v.sb.dataStart ≤ b → ¬C b → w.view b = v.view b
  used : ∀ j < v.sb.dataBlocks, ¬B (v.sb.dataStart + j) → w.used j = v.used j

section

variable {F : Prop} {C B : Nat → Prop} {v w w' : Volume} {id k dir : Nat} {rec rec' : Record} {attrs attrs' : List Attr}

theorem Beside.spared (h : Beside C B v w) (hl : v.sb.toLayout.WF) (hC : ∀ b, C b → v.sb.dataStart ≤ b) :
    Spared id C B v w :=
  ⟨h.layout, h.ring, h.mounted, fun _ hk _ => h.mrtEntry hC hl hk, fun b hb => h.view b (le_trans hl.mrtStart_le hb), h.used⟩

theorem Spared.wf (h : Spared id C B v w) (hl : v.sb.toLayout.WF) : w.sb.toLayout.WF := by
  rw [h.layout]
  exact hl

theorem Spared.mrtBlock (h : Spared id C B v w) : w.mrtBlock k = v.mrtBlock k := by
  unfold Volume.mrtBlock
  rw [h.layout]

theorem Spared.journal (h : Spared id C B v w) (hl : v.sb.toLayout.WF) (hsteps : JournalSteps w w') :
    Spared id C B v w' := by
  have hlw := h.wf hl
  have hlv := hsteps.leavesFiles h.ring
  refine ⟨hlv.layout.trans h.layout, hlv.ring h.ring, hlv.mounted.trans h.mounted, fun k hk hne => ?_, fun b hb hno => ?_,
    fun j hj hno => ?_⟩
  · rw [hlv.mrtEntry hlw, h.entry k hk hne]
  · rw [hlv.view_of_data hlw (by rw [h.layout]; exact hb), h.view b hb hno]
  · rw [sameUsed_of_view hlw hlv.layout (hsteps h.ring).view j (by rw [h.layout]; exact hj), h.used j hj hno]

theorem Spared.slot (h : Spared id C B v w) (hl : v.sb.toLayout.WF) (hid : id < v.sb.mrtCapacity) {y : BlockData}
    (hy : ∀ j, j ≠ id % entriesPerBlock → y.mrtEntries j = (v.view (v.mrtBlock id)).mrtEntries j) :
    Spared id C B v (w.write (v.mrtBlock id) y) := by
  have hin := hl.inMrt hid
  have hmrt := hl.mrt
  refine ⟨h.layout, h.ring, h.mounted, fun k hk hne => ?_, fun b hb hno => ?_, fun j hj hno => ?_⟩
  · rw [← h.entry k hk hne]
    have hblock : (w.write (v.mrtBlock id) y).mrtBlock k = w.mrtBlock k := rfl
    rw [Volume.mrtEntry, Volume.mrtEntry, hblock, Volume.write_view]
    by_cases hb : w.mrtBlock k = v.mrtBlock id
    · have hslot : k % entriesPerBlock ≠ id % entriesPerBlock := fun hm => hne (by
        rw [h.mrtBlock] at hb
        unfold Volume.mrtBlock at hb
        exact mrtSlot_injective (by omega) hm)
      have hold := h.entry k hk hne
      rw [Volume.mrtEntry, Volume.mrtEntry, ← h.mrtBlock, hb] at hold
      rw [hb, Function.update_self, hy _ hslot, hold]
    · rw [Function.update_of_ne hb]
  · rw [← h.view b hb hno]
    have hlow := hin.2
    exact Function.update_of_ne (by omega) _ _
  · rw [← h.used j hj hno]
    have hne : v.sb.bitmapBlock j ≠ v.mrtBlock id := fun heq => by
      have hbit := hl.inBitmap hj
      rw [heq] at hbit
      exact hl.not_bitmap_of_mrt (Nat.le_add_right _ _) hbit
    have hbb : w.sb.bitmapBlock j = v.sb.bitmapBlock j := by
      show w.sb.toLayout.bitmapBlock j = v.sb.toLayout.bitmapBlock j
      rw [h.layout]
    refine congrArg (fun x : BlockData => x.bits (j % bitsPerBlock)) (Function.update_of_ne ?_ _ _)
    exact fun heq => hne (hbb.symm.trans heq)

theorem vwp_mrtFreeEntry_spared (F : Prop) (h : Beside C B v w) (hl : v.sb.toLayout.WF)
    (hC : ∀ b, C b → v.sb.dataStart ≤ b) (hid : id < v.sb.mrtCapacity) : vwp F (mrtFreeEntry id)
      (fun _ w' => Spared id C B v w') (fun _ w' => Spared id C B v w') w := by
  have hs : Spared id C B v w := h.spared hl hC
  have hin := hl.inMrt hid
  have hmrt := hl.mrt
  have hx : w.view (v.mrtBlock id) = v.view (v.mrtBlock id) :=
    h.view _ hin.1 (fun hc => absurd (hC _ hc) (by have := hin.2; omega))
  have hset : ∀ e j, j ≠ id % entriesPerBlock → ((w.view (v.mrtBlock id)).setMrtEntry (id % entriesPerBlock) e).mrtEntries j =
      (v.view (v.mrtBlock id)).mrtEntries j := fun e j hj => by
    rw [BlockData.mrtEntries_setMrtEntry, Function.update_of_ne hj, hx]
  have hblock : w.sb.mrtStart + id / entriesPerBlock = v.mrtBlock id := hs.mrtBlock
  unfold mrtFreeEntry
  refine wpAbs_bind (vwp_getSb (wpAbs_bind (wpAbs_failIf (fun _ => hs) (fun _ => ?_))))
  rw [hblock]
  refine wpAbs_bind (vwp_readBlock ?_ (fun _ => hs))
  refine wpAbs_seq (R := fun _ w' => Spared id C B v w') ?_ (fun _ w' hw => vwp_modifyMem
    ⟨hw.layout, hw.ring, hw.mounted, hw.entry, hw.view, hw.used⟩) (fun _ _ hw => hw)
  refine wpAbs_bind (vwp_writeBlock ?_ (fun _ => hs))
  have h1 := fun e => hs.slot hl hid (hset e)
  refine wpAbs_bind (vwp_getMem (wpAbs_ite (fun _ => ?_) (fun _ => wpAbs_pure (h1 _))))
  refine wpAbs_elseDo (wpAbs_mono (journalWriteEntry_steps _ _ _ _ _ _)
    (fun _ w' hw => wpAbs_pure ((h1 _).journal hl hw)) (fun _ w' hw => ?_))
  have h2 := (h1 _).journal hl hw
  refine wpAbs_bind (wpAbs_ignore (vwp_writeBlock (wpAbs_throw (h2.slot hl hid (fun j hj => ?_))) (fun _ => wpAbs_throw h2)))
  rw [BlockData.mrtEntries_setMrtEntry, Function.update_of_ne hj, hset _ j hj]

/-! ## The record -/

theorem preserves_freeRange (F : Prop) (hl : v.sb.toLayout.WF) {start n : Nat} (hlow : v.sb.dataStart ≤ start)
    (hhigh : start + n ≤ v.sb.totalBlocks) (hB : ∀ b, start ≤ b → b < start + n → B b) :
    Preserves (faultView F F) (Beside C B v) (bitmapFreeRange start n) (fun _ => True) := by
  intro w h
  have hlay := h.layout
  have hstart : w.sb.dataStart = v.sb.dataStart := congrArg Layout.dataStart hlay
  have hblocks : w.sb.dataBlocks = v.sb.dataBlocks := congrArg Layout.dataBlocks hlay
  have hspec := vwp_bitmapFreeRange_frame F (s := start - w.sb.dataStart) (n := n) (h.wf hl) h.ring (by
    rw [hstart, hblocks, hl.dataBlocks_eq]
    omega)
  rw [hstart, Nat.add_sub_cancel' hlow] at hspec
  have hkeeps : ∀ w', FreeFrame w (start - v.sb.dataStart) n w' → Beside C B v w' := fun w' hf =>
    h.free hl (fun j hj => hB _ (by omega) (by omega)) hf
  exact wpAbs_mono hspec (fun _ w' hw => ⟨trivial, hkeeps w' hw⟩) (fun _ w' hw => hkeeps w' hw)

theorem preserves_recordWrite (F : Prop) (hl : v.sb.toLayout.WF) (hC : ∀ b, C b → v.sb.dataStart ≤ b)
    (hid : id < v.sb.mrtCapacity) (hown : C (v.mrtEntry id).physicalBlock) (rec : Record) (attrs : List Attr) :
    Preserves (faultView F F) (Beside C B v) (recordWrite id rec attrs) (fun _ => True) := by
  intro w h
  refine wpAbs_mono (fwp_recordWrite F F w id rec attrs) (fun _ w' hw => ⟨trivial, ?_⟩) (fun _ w' hw => h.journal hl hw)
  obtain ⟨-, x, hx, rfl⟩ := hw
  rw [h.mrtEntry hC hl hid]
  exact (h.journal hl hx).write hl (hC _ hown) hown

theorem preserves_recordMarkDeleted (F : Prop) (hl : v.sb.toLayout.WF) (hC : ∀ b, C b → v.sb.dataStart ≤ b)
    (hid : id < v.sb.mrtCapacity) (hown : C (v.mrtEntry id).physicalBlock) (b : Nat) :
    Preserves (faultView F F) (Beside C B v) (recordMarkDeleted id b) (fun _ => True) := by
  intro w h
  refine wpAbs_elseDo (vwp_readBlock ?_ (fun _ => wpAbs_pure ⟨trivial, h⟩))
  cases w.view b with
  | record r a => exact (preserves_recordWrite F hl hC hid hown _ _).ignore w h
  | raw _ | super _ | node _ | mrt _ | bitmap _ | journal _ _ => exact wpAbs_pure ⟨trivial, h⟩

theorem table_owned {e : Extent} (he : e ∈ tableOfExtents attrs) {b : Nat} (h1 : e.physicalBlock ≤ b)
    (h2 : b < e.physicalBlock + e.blockCount) : b ∈ v.owned id attrs := by
  have hpiece : e.piece ∈ (pieces attrs).take extentTableSize := by
    rw [← tableOfExtents_pieces]
    exact List.mem_map_of_mem he
  exact mem_owned.2 (.inr ⟨_, List.mem_of_mem_take hpiece, mem_targets.2 ⟨h1, h2⟩⟩)

/-- The blocks that a removal of the record writes, where the blocks in `C` may have been written before. -/
def Volume.Written (v : Volume) (id : Nat) (C : Nat → Prop) (b : Nat) : Prop := C b ∨ b = (v.mrtEntry id).physicalBlock

/-- **`extent_remove_all`, whatever fails**, while the block of the record has not changed. -/
theorem vwp_extentRemoveAll_beside (F : Prop) (hv : v.Freeable id rec attrs) (h : Beside C B v w)
    (hC : ∀ b, v.Written id C b → v.sb.dataStart ≤ b) (hout : ¬C (v.mrtEntry id).physicalBlock)
    (hB : ∀ b ∈ v.owned id attrs, B b) : vwp F (extentRemoveAll id)
      (fun _ w' => Beside (v.Written id C) B v w') (fun _ w' => Beside (v.Written id C) B v w') w := by
  have hl := hv.layout
  have hup : Beside (v.Written id C) B v w := h.mono (fun _ hb => Or.inl hb) (fun _ hb => hb)
  have hfrees : Preserves (faultView F F) (Beside (v.Written id C) B v) (forEach (fun e : Extent =>
      (bitmapFreeRange e.physicalBlock e.blockCount).ignore) (tableOfExtents attrs)) (fun _ => True) :=
    Preserves.forEach (fun e he => (preserves_freeRange F hl (hv.table e he).1.1 (hv.table e he).1.2
      (fun b h1 h2 => hB b (table_owned he h1 h2))).ignore)
  refine wpAbs_elseDo (wpAbs_mono (fwp_mrtResolve_bound F F w id) (fun e u hu => ?_) (fun _ u hu => ?_))
  · obtain ⟨rfl, rfl, -⟩ := hu
    refine wpAbs_elseDo (vwp_readBlock ?_ (fun _ => wpAbs_pure hup))
    rw [hup.mrtEntry hC hl hv.record.bound.1, h.view _ (le_trans hl.mrtStart_le (hv.low _ rfl)) hout, hv.view]
    refine wpAbs_seq (hfrees _ hup) (fun _ w' hw => ?_) (fun _ _ hw => hw)
    exact wpAbs_mono ((preserves_recordWrite F hl hC hv.record.bound.1 (Or.inr rfl) _ _).ignore w' hw.2)
      (fun _ _ hw => hw.2) (fun _ _ hw => hw)
  · obtain ⟨rfl, -⟩ := hu
    exact wpAbs_pure hup

theorem vwp_recordFree_spared (F : Prop) (hv : v.Freeable id rec attrs) (h : Beside C B v w)
    (hC : ∀ b, v.Written id C b → v.sb.dataStart ≤ b) (hout : ¬C (v.mrtEntry id).physicalBlock)
    (hB : ∀ b ∈ v.owned id attrs, B b) : vwp F (recordFree id)
      (fun _ w' => Spared id (v.Written id C) B v w') (fun _ w' => Spared id (v.Written id C) B v w') w := by
  have hl := hv.layout
  have hid := hv.record.bound.1
  have hup : Beside (v.Written id C) B v w := h.mono (fun _ hb => Or.inl hb) (fun _ hb => hb)
  refine wpAbs_elseDo (wpAbs_mono (fwp_mrtResolve_bound F F w id) (fun e u hu => ?_) (fun _ u hu => ?_))
  · obtain ⟨rfl, rfl, -⟩ := hu
    rw [hup.mrtEntry hC hl hid]
    have hspared : ∀ {w'}, Beside (v.Written id C) B v w' → Spared id (v.Written id C) B v w' := fun h => h.spared hl hC
    refine wpAbs_seq (vwp_extentRemoveAll_beside F hv h hC hout hB) (fun _ w' hw => ?_) (fun _ _ hw => hspared hw)
    refine wpAbs_seq (preserves_recordMarkDeleted F hl hC hid (Or.inr rfl) _ w' hw) (fun _ w' hw => ?_)
      (fun _ _ hw => hspared hw)
    have hone := (preserves_freeRange (B := B) (C := v.Written id C) F hl (hv.low _ rfl) hv.high (fun b h1 h2 => by
      obtain rfl : b = (v.mrtEntry id).physicalBlock := by omega
      exact hB _ List.mem_cons_self)).ignore
    refine wpAbs_seq (hone w' hw.2) (fun _ w' hw => ?_) (fun _ _ hw => hspared hw)
    refine wpAbs_seq (R := fun _ w' => Spared id (v.Written id C) B v w')
      (wpAbs_ignore (vwp_mrtFreeEntry_spared F hw.2 hl hC hid)) (fun _ w' hw => vwp_modifyMem ?_) (fun _ _ hw => hw)
    exact ⟨hw.layout, hw.ring, hw.mounted, hw.entry, hw.view, hw.used⟩
  · obtain ⟨rfl, -⟩ := hu
    exact wpAbs_pure (hup.spared hl hC)

/-! ## The delete -/

/-- What a delete of file `id` from a directory may touch, of the data area and of the bits. -/
def Volume.DeleteWrites (v : Volume) (dir id b : Nat) : Prop := v.Written id (v.DirWritten dir) b

def Volume.DeleteFrees (v : Volume) (dir id : Nat) (attrs : List Attr) (b : Nat) : Prop :=
  v.DirBlock dir b ∨ b ∈ v.owned id attrs

def Volume.DirApart (v : Volume) (dir : Nat) : Prop :=
  ∀ {k rec attrs}, v.FileAt k rec attrs → ∀ b ∈ v.owned k attrs, ¬v.DirWritten dir b

theorem vwp_smkfsDeleteRecord (F : Prop) (hv : v.FilesOk) (hdir : v.DirOk dir) (hapart : v.DirApart dir)
    (hf : v.FileAt id rec attrs) (n : Nat) (name : CStr) : vwp F (smkfsDeleteRecord n dir name id)
      (fun _ w => Spared id (v.DeleteWrites dir id) (v.DeleteFrees dir id attrs) v w)
      (fun _ w => Spared id (v.DeleteWrites dir id) (v.DeleteFrees dir id attrs) v w) v := by
  have hl := hv.layout
  have hok := hv.files hf
  have hfree : v.Freeable id rec attrs := ⟨hl, hv.ring, hf.toRecordAt, hok⟩
  have hout : ¬v.DirWritten dir (v.mrtEntry id).physicalBlock := hapart hf _ List.mem_cons_self
  have hC : ∀ b, v.DeleteWrites dir id b → v.sb.dataStart ≤ b := by
    rintro b ((hb | ⟨hb, rfl⟩) | rfl)
    · exact hdir.low b hb
    · exact hdir.slot hb
    · exact hfree.low _ rfl
  have hrefl : Spared id (v.DeleteWrites dir id) (v.DeleteFrees dir id attrs) v v :=
    (Beside.refl _ _ hv.ring).spared hl hC
  have hup : ∀ {w}, Beside (v.DirWritten dir) (v.DirBlock dir) v w →
      Beside (v.DirWritten dir) (v.DeleteFrees dir id attrs) v w :=
    fun h => h.mono (fun _ hb => hb) (fun _ hb => Or.inl hb)
  have hspared : ∀ {w}, Beside (v.DirWritten dir) (v.DirBlock dir) v w →
      Spared id (v.DeleteWrites dir id) (v.DeleteFrees dir id attrs) v w :=
    fun h => ((hup h).mono (fun _ hb => Or.inl hb) (fun _ hb => hb)).spared hl hC
  refine wpAbs_bind (vwp_getMem (wpAbs_bind (wpAbs_failIf (fun _ => hrefl) (fun _ => ?_))))
  refine wpAbs_seq (wpAbs_orThrow (wpAbs_mono (fwp_recordRead_at F F v id) (fun _ _ h => h)
    (fun _ u h => (show u = v from h.1) ▸ hrefl))) (fun x u h => ?_) (fun _ _ h => h)
  obtain ⟨rfl, hr⟩ := h
  obtain ⟨rec', attrs'⟩ := x
  obtain ⟨rfl, rfl⟩ := hr.unique hf.toRecordAt
  have hfile : ¬rec'.objectType = .dir := by rw [hf.file]; decide
  dsimp only
  rw [if_neg hfile]
  refine wpAbs_bind (wpAbs_pure (wpAbs_bind (wpAbs_failIf (fun _ => hrefl) (fun _ => ?_))))
  refine wpAbs_seq (wpAbs_orThrow (wpAbs_mono (journalStartTransaction_steps u) (fun _ _ h => h)
    (fun _ _ h => hrefl.journal hl h))) (fun _ w hsteps => ?_) (fun _ _ h => h)
  have hlink : ∀ {w}, Beside (u.DirWritten dir) (u.DirBlock dir) u w → vwp F (deleteLink id rec' attrs')
      (fun _ w' => Spared id (u.DeleteWrites dir id) (u.DeleteFrees dir id attrs') u w')
      (fun _ w' => Spared id (u.DeleteWrites dir id) (u.DeleteFrees dir id attrs') u w') w := fun {w} hw => by
    refine wpAbs_ite (fun _ => ?_) (fun _ => ?_)
    · exact vwp_recordFree_spared F hfree (hup hw) hC hout (fun b hb => Or.inr hb)
    · refine wpAbs_orThrow (wpAbs_mono (preserves_recordWrite F hl hC hf.bound.1 (Or.inr rfl) _ _ w
        ((hup hw).mono (fun _ hb => Or.inl hb) (fun _ hb => hb))) (fun _ _ h => h.2.spared hl hC)
        (fun _ _ h => h.spared hl hC))
  refine wpAbs_seq (wpAbs_catchWith (wpAbs_seq (vwp_dirRemove F hl hv.ring hdir hsteps n name)
    (fun _ w hw => wpAbs_mono (hlink hw) (fun _ _ h => h) (fun e w' h => ?_)) (fun e w' h => ?_)))
    (fun _ w hw => ?_) (fun _ _ h => h)
  · exact wpAbs_seq (journalAbort_steps w') (fun _ _ hx => wpAbs_throw (h.journal hl hx)) (fun _ _ hx => h.journal hl hx)
  · exact wpAbs_seq (journalAbort_steps w') (fun _ _ hx => wpAbs_throw ((hspared h).journal hl hx))
      (fun _ _ hx => (hspared h).journal hl hx)
  · exact wpAbs_orThrow (wpAbs_mono (journalCommit_steps w) (fun _ _ h => hw.journal hl h) (fun _ _ h => hw.journal hl h))

theorem Spared.fileAt (h : Spared id C B v w) (hv : v.FilesOk) (hk : v.FileAt k rec attrs) (hne : k ≠ id)
    (hC : ∀ b ∈ v.owned k attrs, ¬C b) : w.FileAt k rec attrs := by
  have hentry := h.entry k hk.bound.1 hne
  refine ⟨⟨?_, ?_, ?_⟩, hk.file⟩
  · unfold Volume.Bound
    rw [h.layout, hentry]
    exact hk.bound
  · rw [hentry, h.view _ (hv.slots k hk.bound) (hC _ List.mem_cons_self), hk.view]
  · rw [hentry, hk.generation]

theorem Spared.fileOk (h : Spared id C B v w) (hv : v.FilesOk) (hk : v.FileAt k rec attrs) (hne : k ≠ id)
    (hB : ∀ b ∈ v.owned k attrs, ¬B b) : w.FileOk k attrs := by
  have hown : w.owned k attrs = v.owned k attrs := by
    rw [Volume.owned, Volume.owned, h.entry k hk.bound.1 hne]
  have hok := hv.files hk
  have hstart : w.sb.dataStart = v.sb.dataStart := congrArg Layout.dataStart h.layout
  refine ⟨hok.extents, hown ▸ hok.nodup, fun b hb => ?_⟩
  rw [hown] at hb
  have huse := hok.inUse b hb
  refine ⟨hstart ▸ huse.low, ?_, ?_⟩
  · rw [h.layout]
    exact huse.high
  · rw [hstart, h.used _ huse.high (by rw [Nat.add_sub_cancel' huse.low]; exact hB b hb)]
    exact huse.used

theorem Spared.byteAt (other : BlockData → Nat → UInt8) (h : Spared id C B v w) (hv : v.FilesOk)
    (hk : v.FileAt k rec attrs) (hC : ∀ b ∈ v.owned k attrs, ¬C b) : byteAt other w attrs = byteAt other v attrs := by
  funext pos
  rw [SmkFs.byteAt, SmkFs.byteAt, byteIn, byteIn]
  cases hb : blockOf attrs (pos / blockSize) with
  | none => rfl
  | some b =>
    have hmem : b ∈ v.owned k attrs := List.mem_cons_of_mem _ (mem_of_blockOf hb)
    exact congrArg (fun x => imageBytes other x (pos % blockSize))
      (h.view b ((hv.files hk).inUse b hmem).low (hC b hmem))

end

theorem smkfsRead_inval {other : BlockData → Nat → UInt8} {s : Mount} {id offset len : Nat}
    (h : s.mounted = false ∨ id = 0) : (smkfsRead other id offset len s).1 = .error .inval := by
  have hfail : smkfsRead other id offset len s = (.error .inval, s) := by
    unfold smkfsRead
    exact (bind_of_ok (by rfl) _).trans (bind_of_error (by rw [failIf, if_pos h]; rfl) _)
  rw [hfail]

section

variable {s s' : Mount} {r : Except Err Unit} {dir id : Nat} {rec : Record} {attrs : List Attr}

/-- **A delete leaves the other files alone**, whatever fails on the way and however it ends.  The slots of the other
records are as before; every other file has its record, its blocks are its own and in use, and where nothing fails it
reads as before. -/
theorem delete_spares_files (other : BlockData → Nat → UInt8) (hv : s.vol.FilesOk) (hdir : s.vol.DirOk dir)
    (hapart : s.vol.DirApart dir) (hf : s.vol.FileAt id rec attrs) {n : Nat} {name : CStr}
    (hrun : smkfsDeleteRecord n dir name id s = (r, s')) :
    (∀ k < s.vol.sb.mrtCapacity, k ≠ id → s'.vol.mrtEntry k = s.vol.mrtEntry k) ∧
      ∀ {k rec' attrs'}, s.vol.FileAt k rec' attrs' → k ≠ id → s'.vol.FileAt k rec' attrs' ∧ s'.vol.FileOk k attrs' ∧
        ∀ offset len, offset + len < 2 ^ 64 →
          (smkfsRead other k offset len s'.faultless).1 = (smkfsRead other k offset len s.faultless).1 := by
  have hpost := (fwp_apply (P := fun _ w => Spared id (s.vol.DeleteWrites dir id) (s.vol.DeleteFrees dir id attrs) s.vol w)
    (vwp_smkfsDeleteRecord True hv hdir hapart hf n name) ⟨fun _ => trivial, fun _ => trivial⟩).2
  rw [hrun] at hpost
  refine ⟨hpost.entry, fun {k rec' attrs'} hk hne => ?_⟩
  have hout : ∀ b ∈ s.vol.owned k attrs', ¬s.vol.DeleteWrites dir id b := by
    rintro b hb (hd | rfl)
    · exact hapart hk b hb hd
    · exact hv.apart hk hf hne _ hb List.mem_cons_self
  have hkept : ∀ b ∈ s.vol.owned k attrs', ¬s.vol.DeleteFrees dir id attrs b := by
    rintro b hb (hd | hown)
    · exact hapart hk b hb (Or.inl hd)
    · exact hv.apart hk hf hne _ hb hown
  have hk' := hpost.fileAt hv hk hne hout
  refine ⟨hk', hpost.fileOk hv hk hne hkept, fun offset len hwrap => ?_⟩
  by_cases hm : s.mounted = false ∨ k = 0
  · rw [smkfsRead_inval (s := s.faultless) hm,
      smkfsRead_inval (s := s'.faultless) (hm.imp_left (hpost.mounted.trans ·))]
  · obtain ⟨hm, h0⟩ := not_or.1 hm
    have hm : s.mounted = true := by simpa using hm
    have hread := readsAs_file other hk hv.layout.sector hm h0 offset len hwrap
    have hread' := readsAs_file other hk' (hpost.wf hv.layout).sector (hpost.mounted.trans hm) h0 offset len hwrap
    rw [hread, hread', hpost.byteAt other hv hk hout]

end

/-! ## Two files in a directory -/

def oneBlock : List Attr := [⟨.extents, 0, .extent ⟨0, 15, 1⟩⟩, ⟨.fsize, 0, .u64 4096⟩]

def nameX : CStr := ⟨[120], by simp⟩

/-- The blocks of a volume with the root directory 1, the empty file 2 and the file 3, which has one block. -/
def twoFilesBlock (b : Nat) : BlockData :=
  if b = 10 then .mrt (fun i => if i ∈ [1, 2, 3] then ⟨if i = 1 then 11 else 11 + i, mrtfAllocated, 1⟩ else ⟨0, 0, 0⟩)
  else if b = 11 then .record ⟨1, .dir, 1, 1, 1, false⟩ [⟨.data, 0, .u64 12⟩]
  else if b = 12 then .node ⟨true, true, 0, 0, [⟨nameX, 2⟩]⟩
  else if b = 13 then .record ⟨2, .file, 0, 1, 1, false⟩ []
  else if b = 14 then .record ⟨3, .file, 2, 1, 1, false⟩ oneBlock
  else if b = 15 then .raw (fun _ => 7)
  else .bitmap (fun _ => true)

def twoFilesDisk : Mount :=
  { blankMount ⟨mkfsLayout 16 512, ⟨0, 0, 0, 1, false, 1⟩, ⟨0, 0, 0⟩⟩ with
    mounted := true
    dev := ⟨cacheInit { blankDrive with base := twoFilesBlock }, cacheInit_wf _⟩ }

theorem twoFilesDisk_view (b : Nat) : twoFilesDisk.vol.view b = twoFilesBlock b := by
  have hcold : ¬twoFilesDisk.dev.1.Cached b := by
    rintro ⟨j, hj, -⟩
    cases hj
  exact Drive.content_of_uncached hcold

theorem twoFilesDisk_layout : twoFilesDisk.vol.sb.mrtStart = 10 ∧ twoFilesDisk.vol.sb.mrtCapacity = 256 ∧
    twoFilesDisk.vol.sb.dataStart = 11 ∧ twoFilesDisk.vol.sb.dataBlocks = 5 ∧ twoFilesDisk.vol.sb.totalBlocks = 16 ∧
    twoFilesDisk.vol.sb.journalHead < twoFilesDisk.vol.sb.journalLength ∧ ∀ j < 5, twoFilesDisk.vol.used j = true := by
  decide +kernel

theorem twoFilesDisk_entry {id : Nat} (h : id < 256) : twoFilesDisk.vol.mrtEntry id =
    if id ∈ [1, 2, 3] then ⟨if id = 1 then 11 else 11 + id, mrtfAllocated, 1⟩ else ⟨0, 0, 0⟩ := by
  have hlt : id < entriesPerBlock := by
    unfold entriesPerBlock
    omega
  have hdiv : id / entriesPerBlock = 0 := Nat.div_eq_of_lt hlt
  have hmod : id % entriesPerBlock = id := Nat.mod_eq_of_lt hlt
  rw [Volume.mrtEntry, Volume.mrtBlock, twoFilesDisk_layout.1, hdiv, hmod, twoFilesDisk_view]
  rfl

theorem twoFilesDisk_entries : twoFilesDisk.vol.mrtEntry 1 = ⟨11, mrtfAllocated, 1⟩ ∧
    twoFilesDisk.vol.mrtEntry 2 = ⟨13, mrtfAllocated, 1⟩ ∧ twoFilesDisk.vol.mrtEntry 3 = ⟨14, mrtfAllocated, 1⟩ :=
  ⟨twoFilesDisk_entry (by decide), twoFilesDisk_entry (by decide), twoFilesDisk_entry (by decide)⟩

theorem twoFilesDisk_readAt : twoFilesDisk.vol.readAt 1 = some (⟨1, .dir, 1, 1, 1, false⟩, [⟨.data, 0, .u64 12⟩]) ∧
    twoFilesDisk.vol.readAt 2 = some (⟨2, .file, 0, 1, 1, false⟩, []) ∧
    twoFilesDisk.vol.readAt 3 = some (⟨3, .file, 2, 1, 1, false⟩, oneBlock) := by
  obtain ⟨h1, h2, h3⟩ := twoFilesDisk_entries
  simp only [Volume.readAt, h1, h2, h3, twoFilesDisk_view]
  exact ⟨rfl, rfl, rfl⟩

theorem twoFilesDisk_bound {id : Nat} (h : twoFilesDisk.vol.Bound id) : id = 1 ∨ id = 2 ∨ id = 3 := by
  obtain ⟨-, hcap, -⟩ := twoFilesDisk_layout
  have hallocated := h.2.1
  rw [twoFilesDisk_entry (hcap ▸ h.1)] at hallocated
  split at hallocated
  · next hmem => simpa using hmem
  · exact absurd hallocated (by decide)

theorem twoFilesDisk_file {id : Nat} {rec : Record} {attrs : List Attr} (h : twoFilesDisk.vol.FileAt id rec attrs) :
    id = 2 ∧ attrs = [] ∨ id = 3 ∧ attrs = oneBlock := by
  obtain ⟨hroot, htwo, hthree⟩ := twoFilesDisk_readAt
  have hread := h.toRecordAt.readAt
  rcases twoFilesDisk_bound h.bound with rfl | rfl | rfl
  · cases hroot.symm.trans hread
    cases h.file
  · cases htwo.symm.trans hread
    exact .inl ⟨rfl, rfl⟩
  · cases hthree.symm.trans hread
    exact .inr ⟨rfl, rfl⟩

theorem twoFilesDisk_inUse {b : Nat} (h : 11 ≤ b ∧ b < 16) : twoFilesDisk.vol.InUse b := by
  obtain ⟨-, -, hstart, hblocks, -, -, hused⟩ := twoFilesDisk_layout
  exact ⟨by omega, by omega, hused _ (by omega)⟩

theorem twoFilesDisk_owned : twoFilesDisk.vol.owned 2 [] = [13] ∧ twoFilesDisk.vol.owned 3 oneBlock = [14, 15] := by
  obtain ⟨-, h2, h3⟩ := twoFilesDisk_entries
  rw [Volume.owned, Volume.owned, h2, h3]
  decide

theorem twoFilesDisk_filesOk : twoFilesDisk.vol.FilesOk := by
  obtain ⟨htwo, hthree⟩ := twoFilesDisk_owned
  obtain ⟨h1, h2, h3⟩ := twoFilesDisk_entries
  obtain ⟨-, -, hstart, -, -, hring, -⟩ := twoFilesDisk_layout
  refine ⟨(mkfsLayout_facts (by decide) (by decide)).1, hring, fun id hb => ?_, fun hf => ?_,
    fun hf hf' hne b hb => ?_⟩
  · rcases twoFilesDisk_bound hb with rfl | rfl | rfl
    all_goals simp [hstart, h1, h2, h3]
  · rcases twoFilesDisk_file hf with ⟨rfl, rfl⟩ | ⟨rfl, rfl⟩
    · refine ⟨⟨⟨fun _ h => (by cases h), fun _ h => (by cases h), List.nodup_nil, fun _ h => (by cases h)⟩,
        List.nodup_nil, List.nodup_nil⟩, by rw [htwo]; decide, fun b hb => twoFilesDisk_inUse ?_⟩
      simp only [htwo, List.mem_cons, List.not_mem_nil, or_false] at hb
      omega
    · refine ⟨⟨⟨?_, by decide, by decide, by decide⟩, ?_, ?_⟩, by rw [hthree]; decide,
        fun b hb => twoFilesDisk_inUse ?_⟩
      · intro a ha ht
        simp only [oneBlock, List.mem_cons, List.not_mem_nil, or_false] at ha
        rcases ha with rfl | rfl
        · exact ⟨_, rfl⟩
        · cases ht
      · unfold Functional
        decide
      · unfold Injective
        decide
      · simp only [hthree, List.mem_cons, List.not_mem_nil, or_false] at hb
        omega
  · rcases twoFilesDisk_file hf with ⟨rfl, rfl⟩ | ⟨rfl, rfl⟩ <;> rcases twoFilesDisk_file hf' with ⟨rfl, rfl⟩ | ⟨rfl, rfl⟩
    · exact absurd rfl hne
    · simp only [htwo, hthree, List.mem_cons, List.not_mem_nil, or_false] at hb ⊢
      omega
    · simp only [htwo, hthree, List.mem_cons, List.not_mem_nil, or_false] at hb ⊢
      omega
    · exact absurd rfl hne

theorem twoFilesDisk_tree {b : Nat} (h : twoFilesDisk.vol.DirBlock 1 b) :
    b = 12 ∧ loadNode twoFilesDisk.vol b = some ⟨true, true, 0, 0, [⟨nameX, 2⟩]⟩ := by
  obtain ⟨root, ⟨rec, attrs, data, hr, hfind, rfl⟩, hunder⟩ := h
  cases twoFilesDisk_readAt.1.symm.trans hr.readAt
  cases hfind
  have hload : loadNode twoFilesDisk.vol 12 = some ⟨true, true, 0, 0, [⟨nameX, 2⟩]⟩ := by
    rw [loadNode, twoFilesDisk_view]
    decide
  obtain rfl : b = 12 := under_here (pages_of_load hload) rfl hunder
  exact ⟨rfl, hload⟩

theorem twoFilesDisk_dirOk : twoFilesDisk.vol.DirOk 1 ∧ twoFilesDisk.vol.DirApart 1 := by
  obtain ⟨-, -, hstart, -, hblocks, -⟩ := twoFilesDisk_layout
  have hentry : (twoFilesDisk.vol.mrtEntry 1).physicalBlock = 11 := by rw [twoFilesDisk_entries.1]
  refine ⟨⟨fun _ => ?_, fun b hb => ?_, fun b hb => ?_, fun _ => 0, fun b node hb hload => ?_⟩, fun hf b hb hd => ?_⟩
  · omega
  · have := (twoFilesDisk_tree hb).1
    omega
  · have := (twoFilesDisk_tree hb).1
    omega
  · rw [(twoFilesDisk_tree hb).2, Option.some.injEq] at hload
    subst hload
    exact ⟨⟨fun _ => rfl, fun _ => rfl⟩, fun h => by cases h⟩
  · have hdir : b = 12 ∨ b = 11 := hd.imp (fun h => (twoFilesDisk_tree h).1) (fun h => h.2.trans hentry)
    obtain ⟨htwo, hthree⟩ := twoFilesDisk_owned
    rcases twoFilesDisk_file hf with ⟨rfl, rfl⟩ | ⟨rfl, rfl⟩
    · simp only [htwo, List.mem_cons, List.not_mem_nil, or_false] at hb
      omega
    · simp only [hthree, List.mem_cons, List.not_mem_nil, or_false] at hb
      omega

theorem twoFilesDisk_recordAt {id : Nat} {e : MrtEntry} {rec : Record} {attrs : List Attr} (hid : id < 256)
    (he : twoFilesDisk.vol.mrtEntry id = e) (hview : twoFilesBlock e.physicalBlock = .record rec attrs)
    (hslot : e.allocated = true ∧ e.physicalBlock ≠ 0 ∧ e.physicalBlock ≠ uint64Max) (hgen : rec.generation = e.generation) :
    twoFilesDisk.vol.RecordAt id rec attrs := by
  subst he
  exact ⟨⟨twoFilesDisk_layout.2.1 ▸ hid, hslot⟩, (twoFilesDisk_view _).trans hview, hgen⟩

theorem twoFilesDisk_two : twoFilesDisk.vol.FileAt 2 ⟨2, .file, 0, 1, 1, false⟩ [] :=
  ⟨twoFilesDisk_recordAt (by decide) twoFilesDisk_entries.2.1 rfl (by decide) rfl, rfl⟩

theorem twoFilesDisk_three : twoFilesDisk.vol.FileAt 3 ⟨3, .file, 2, 1, 1, false⟩ oneBlock :=
  ⟨twoFilesDisk_recordAt (by decide) twoFilesDisk_entries.2.2 rfl (by decide) rfl, rfl⟩

/-- File 2 is deleted, and file 3 reads as before. -/
theorem delete_spares_files_two : (smkfsDeleteRecord 32 1 nameX 2 twoFilesDisk).1 = .ok () ∧
    (smkfsRead (fun _ _ => 0) 3 0 10 (smkfsDeleteRecord 32 1 nameX 2 twoFilesDisk).2.faultless).1 =
      (smkfsRead (fun _ _ => 0) 3 0 10 twoFilesDisk.faultless).1 := by
  obtain ⟨hdir, hapart⟩ := twoFilesDisk_dirOk
  refine ⟨by decide +kernel, ?_⟩
  exact ((delete_spares_files (fun _ _ => 0) twoFilesDisk_filesOk hdir hapart twoFilesDisk_two rfl).2 twoFilesDisk_three
    (by decide)).2.2 0 10 (by decide)

end SmkFs
end AmitX
