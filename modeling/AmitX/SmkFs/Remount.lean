import AmitX.SmkFs.DeleteFrame
import AmitX.SmkFs.FormatMount
/-!
# Remount — what an unmount and the next mount keep (`super.c`)

An unmount takes a last checkpoint, which leaves nothing in the journal to redo, and writes the superblock; the mount
reads it back and counts the regions anew.  Where nothing fails, the two change block 0, the journal and the memory, and
no file.
-/
namespace AmitX
namespace SmkFs

open Prog Volume

/-- What `m` does where nothing fails. -/
theorem Mount.Reliable.run {α : Type} {m : FsM α} {P : α → Volume → Prop} {s : Mount} (hs : s.Reliable)
    (h : fwp False False m P (fun _ _ => False) s.vol) : ∃ a s', m s = (.ok a, s') ∧ P a s'.vol ∧ s'.Reliable := by
  have hw := h s ⟨hs.1, hs.2⟩ rfl
  rcases hm : m s with ⟨e | a, s'⟩
  · exact (wp_error hw hm).2.elim
  · obtain ⟨hi, hp⟩ := wp_ok hw hm
    exact ⟨a, s', rfl, hp, hi⟩

section

variable {v w : Volume} {sb : Superblock} {c : Counters} {dir : Nat}

/-! ## The unmount -/

/-- **A checkpoint leaves nothing to redo**, whether its marker fits into the ring or not. -/
theorem fwp_journalCheckpoint_empties (hs : v.sectorOk) (htxn : v.journalInTransaction = false) :
    fwp False False journalCheckpoint
      (fun _ w => JournalSteps v w ∧ w.sb.journalHead = w.sb.journalTail ∧ w.view 0 = .super w.sb) (fun _ _ => False) v := by
  have hrest : ∀ (marker : Except Err Unit) {w : Volume}, w.sectorOk →
      (marker.isOk = false → w.sb.journalHead = w.sb.journalTail) → fwp False False (do
        setInTransaction false
        when (marker.isOk = true) (modifyMem (fun m => { m with
          sb.journalTail := m.sb.journalHead, sb.journalSequence := m.journalNextSequence }))
        journalPersistSuperblock) (fun _ w => w.sb.journalHead = w.sb.journalTail ∧ w.view 0 = .super w.sb)
          (fun _ _ => False) w := by
    intro marker w hs hempty
    refine wpAbs_bind (vwp_modifyMem (wpAbs_bind (wpAbs_when (fun _ => vwp_modifyMem ?_) (fun hno => ?_))))
    · exact wpAbs_mono (runs_journalPersistSuperblock hs) (fun _ _ h => by rw [h.2]; exact ⟨rfl, publish_zero⟩) (fun _ _ h => h)
    · exact wpAbs_mono (runs_journalPersistSuperblock hs)
        (fun _ _ h => by rw [h.2]; exact ⟨hempty (by simpa using hno), publish_zero⟩) (fun _ _ h => h)
  refine wpAbs_mono (wpAbs_and (journalCheckpoint_steps v) (show fwp False False journalCheckpoint
    (fun _ w => w.sb.journalHead = w.sb.journalTail ∧ w.view 0 = .super w.sb) (fun _ _ => False) v from ?_))
    (fun _ _ h => h) (fun _ _ h => h.2)
  unfold journalCheckpoint
  refine wpAbs_bind (vwp_getMem (wpAbs_bind (wpAbs_failIf (fun h => by simp [htxn] at h) (fun _ => ?_))))
  refine wpAbs_bind (vwp_blockCacheFlush ?_ (fun h => h.elim id (fun h => h hs)))
  refine wpAbs_bind (vwp_modifyMem (wpAbs_bind (vwp_modifyMem (wpAbs_bind (wpAbs_attempt ?_)))))
  refine wpAbs_mono (fwp_journalWriteEntry False False _ .checkpoint 0 0 0 .zero) (fun _ w h => ?_) (fun e w h => ?_)
  · rw [h.2]
    exact hrest (.ok ()) hs (fun h => by cases h)
  · rcases h with ⟨-, rfl⟩ | ⟨h, -⟩ | ⟨h | h, -⟩
    · exact hrest (.error e) hs (fun _ => rfl)
    · exact h.elim
    · exact h.elim
    · exact absurd hs h

/-- A disk that holds `v` and nothing to redo. -/
structure ClosedDisk (v : Volume) (sb : Superblock) (disk : Nat → BlockData) : Prop where
  superblock : disk 0 = .super sb
  blocks : ∀ b, ¬v.sb.InJournal b → disk b = v.view b
  layout : sb.toLayout = v.sb.toLayout
  root : sb.rootRecordId = v.sb.rootRecordId
  empty : sb.journalHead = sb.journalTail
  ring : sb.journalHead < sb.journalLength

theorem smkfsUnmount_closes {s : Mount} (hs : s.Reliable) (hl : s.sb.toLayout.WF) (hring : s.vol.RingOk)
    (hm : s.mounted = true) (htxn : s.journalInTransaction = false) : ∃ s' sb, smkfsUnmount s = (.ok (), s') ∧
      s'.Reliable ∧ s'.mounted = false ∧ s'.regions = none ∧ ClosedDisk s.vol sb s'.dev.1.disk ∧
      sb.toCounters = s.sb.closeVolume.toCounters := by
  obtain ⟨_, s1, h1, ⟨hsteps, hempty, -⟩, hs1⟩ := hs.run (fwp_journalCheckpoint_empties (sectorOk_of_wf hl) htxn)
  have hstep := hsteps hring
  have h2 : modifySb Superblock.closeVolume s1 = (.ok (), s1.mapMem (fun m => { m with sb := m.sb.closeVolume })) := rfl
  have hlay : s1.sb.closeVolume.toLayout = s.sb.toLayout := hstep.layout
  have hsec : (s1.mapMem (fun m => { m with sb := m.sb.closeVolume })).vol.sectorOk :=
    sectorOk_of_wf (hlay.symm ▸ hl : s1.sb.closeVolume.toLayout.WF)
  obtain ⟨s3, h3, hv3, hs3⟩ := (runs_writeBlock hsec 0 (.super s1.sb.closeVolume)).apply'
    (show (s1.mapMem (fun m => { m with sb := m.sb.closeVolume })).Reliable from hs1)
  have hsec3 : s3.vol.sectorOk := by
    rw [hv3]
    exact hsec
  obtain ⟨s4, h4, hq, -⟩ := blockCacheFlush_reliable hs3 hsec3
  have h5 : bitmapShutdown s4 =
    (.ok (), s4.mapMem (fun m => { m with regions := none, regionCount := 0, allocHintRegion := 0 })) := rfl
  have hsec4 : (s4.mapMem (fun m => { m with regions := none, regionCount := 0, allocHintRegion := 0 })).sectorOk := by
    change s4.vol.sectorOk
    rw [hq.vol]
    exact hsec3
  obtain ⟨s6, h6, hv6, hsync, hs6⟩ := blockCacheShutdown_reliable
    (show (s4.mapMem (fun m => { m with regions := none, regionCount := 0, allocHintRegion := 0 })).Reliable from
      hq.reliable hs3) hsec4
  have hdisk : s6.dev.1.disk = Function.update s1.vol.view 0 (.super s1.sb.closeVolume) := by
    rw [← hsync]
    change s6.vol.view = _
    rw [hv6]
    change s4.vol.view = _
    rw [hq.vol, hv3]
    rfl
  have hcount : s1.sb.toCounters = s.sb.toCounters := hstep.counters
  refine ⟨s6.mapMem (Mem.setMounted false), s1.sb.closeVolume, ?_, hs6, rfl, congrArg (fun v : Volume => v.regions) hv6,
    ?_, ?_⟩
  · unfold smkfsUnmount
    rw [bind_of_ok (show getMem s = (.ok s.toMem, s) from rfl),
      bind_of_ok (show (failIf (s.mounted = false) .inval : FsM Unit) s = (.ok (), s) by rw [hm]; rfl),
      bind_of_ok (ignore_of_run h1), bind_of_ok h2]
    refine (bind_of_ok (show getSb _ = (.ok s1.sb.closeVolume, _) from rfl) _).trans ?_
    rw [bind_of_ok (catchWith_of_ok h3 _), bind_of_ok (ignore_of_run h4), bind_of_ok h5, bind_of_ok h6]
    rfl
  · refine ⟨?_, fun b hb => ?_, hlay,
      (congrArg Counters.rootRecordId hcount : s1.sb.rootRecordId = s.sb.rootRecordId), hempty, hstep.head⟩
    · change s6.dev.1.disk 0 = _
      rw [hdisk, Function.update_self]
    · change s6.dev.1.disk b = _
      rw [hdisk, Function.update_of_ne (fun h0 => hb (Or.inl h0))]
      exact hstep.view b hb
  · change ({ s1.sb.toCounters with mountCount := _, clean := true } : Counters) = _
    rw [hcount]
    rfl

/-! ## The mount -/

/-- **The dump of a directory's tree ends**: a path down it has a block on every level, so it is no longer than the volume.
`S` is what lies above on the path. -/
theorem fwp_btreeDumpRecursive (hdir : v.DirOk dir) (hs : v.sectorOk) {level : Nat → Nat}
    (htree : v.TreeOn (v.DirBlock dir) level (fun _ => True)) : ∀ (n : Nat) {b : Nat} {S : Finset Nat}, v.DirBlock dir b →
      S ⊆ Finset.range v.sb.totalBlocks → (∀ c ∈ S, level b < level c) → v.sb.totalBlocks < S.card + n →
      fwp False False (btreeDumpRecursive n b) (fun _ w => w = v) (fun _ _ => False) v
  | 0, b, S, hb, hsub, habove, hcard => by
    have := Finset.card_le_card hsub
    rw [Finset.card_range] at this
    omega
  | n + 1, b, S, hb, hsub, habove, hcard => by
    have hnew : b ∉ S := fun h => Nat.lt_irrefl _ (habove b h)
    rw [btreeDumpRecursive]
    refine wpAbs_ite (fun _ => wpAbs_pure rfl) (fun _ => wpAbs_bind (vwp_malloc ?_ False.elim))
    refine wpAbs_ite (fun h => by simp at h) (fun _ => wpAbs_elseDo ?_)
    refine fwp_btreeLoad (fun node hload => ?_) (fun _ _ h => (h.elim id (fun h => h hs)).elim)
      (fun _ _ _ => wpAbs_pure rfl)
    refine wpAbs_ite (fun _ => wpAbs_pure rfl) (fun hleaf => ?_)
    have hchild : ∀ e ∈ node.entries, fwp False False (btreeDumpRecursive n e.value) (fun _ w => w = v)
        (fun _ _ => False) v := by
      intro e he
      have hne : ¬level b = 0 := fun h => hleaf ((htree b node hb hload).1.2 h)
      have hrule : v.DirBlock dir e.value ∧ level b = level e.value + 1 := by
        have h := (htree b node hb hload).2 e he
        exact (if_neg hne).mp h
      refine fwp_btreeDumpRecursive hdir hs htree n (S := insert b S) hrule.1
        (Finset.insert_subset (Finset.mem_range.2 (hdir.high b hb)) hsub) (fun c hc => ?_) ?_
      · have hlt : level e.value < level b := by omega
        rcases Finset.mem_insert.1 hc with rfl | hc
        · exact hlt
        · exact hlt.trans (habove c hc)
      · rw [Finset.card_insert_of_notMem hnew]
        omega
    generalize node.entries = es at hchild
    induction es with
    | nil => exact wpAbs_pure rfl
    | cons e es ih =>
      refine wpAbs_seq (hchild e List.mem_cons_self) (fun _ w hw => ?_) (fun _ _ h => h)
      rw [hw]
      exact ih (fun e' he' => hchild e' (List.mem_cons_of_mem e he'))

theorem fwp_dumpRoot (hs : v.sectorOk) (hdir : v.DirOk v.sb.rootRecordId) :
    fwp False False (dumpRoot v.sb) (fun _ w => w = v) (fun _ _ => False) v := by
  obtain ⟨level, htree⟩ := hdir.treeOn
  unfold dumpRoot
  refine wpAbs_bind (vwp_malloc ?_ False.elim)
  refine wpAbs_ite (fun h => by simp at h) (fun _ => wpAbs_elseDo ?_)
  refine wpAbs_mono (fwp_recordRead_at False False v _) (fun x w h => ?_) (fun _ w h => ?_)
  · obtain ⟨rfl, hr⟩ := h
    obtain ⟨rec, attrs⟩ := x
    dsimp only
    split
    · next root hroot =>
      exact fwp_btreeDumpRecursive hdir hs htree _ ⟨_, ⟨rec, attrs, root, hr, hroot, rfl⟩, .refl _⟩
        (Finset.empty_subset _) (fun c hc => absurd hc (Finset.notMem_empty c)) (by simp)
    · exact wpAbs_pure rfl
  · rw [h.1]
    exact wpAbs_pure rfl

theorem add32_sub32_one {n : Nat} (h : n < 2 ^ 32) : add32 (sub32 n 1) 1 = n := by
  unfold add32 sub32
  omega

theorem Volume.DirOk.leaves (hdir : v.DirOk dir) (hl : v.sb.toLayout.WF) (h : LeavesFiles v w) : w.DirOk dir := by
  have hload : ∀ b, v.DirBlock dir b → loadNode w b = loadNode v b := fun b hb =>
    loadNode_congr (h.view_of_data hl (hdir.low b hb))
  have hblock : ∀ b, w.DirBlock dir b → v.DirBlock dir b := by
    rintro b ⟨root, ⟨rec, attrs, data, hr, hroot⟩, hunder⟩
    have hv : v.DirRoot dir root := ⟨rec, attrs, data, (h.recordAt hl hdir.slot).1 hr, hroot⟩
    refine ⟨root, hv, hunder.congr (fun p hp => ?_)⟩
    rw [Volume.pages, Volume.pages, hload p ⟨root, hv, hp⟩]
  refine ⟨fun hb => ?_, fun b hb => ?_, fun b hb => ?_, ?_⟩
  · rw [h.mrtEntry hl, h.layout]
    exact hdir.slot ((h.bound hl).1 hb)
  · rw [h.layout]
    exact hdir.low b (hblock b hb)
  · rw [h.layout]
    exact hdir.high b (hblock b hb)
  · obtain ⟨level, heven⟩ := hdir.even
    exact ⟨level, fun b node hb hnode => heven b node (hblock b hb) ((hload b (hblock b hb)).symm.trans hnode)⟩

/-- **What an unmount and a mount leave of a volume**: everything but the journal and block 0; the regions are counted
anew. -/
structure Remounted (c : Counters) (v w : Volume) : Prop where
  view : ∀ b, ¬v.sb.InJournal b → w.view b = v.view b
  layout : w.sb.toLayout = v.sb.toLayout
  counters : w.sb.toCounters = c
  ring : w.sb.journalHead = w.sb.journalTail ∧ w.RingOk
  mounted : w.mounted = true
  regions : w.RegionsExact

theorem Remounted.leavesFiles (h : Remounted c v w) (hm : v.mounted = true) : LeavesFiles v w :=
  ⟨fun b hb _ => h.view b hb, h.layout, fun _ => h.ring.2, h.mounted.trans hm.symm⟩

theorem fwp_mountVolume (hl : v.sb.toLayout.WF) (hm : v.mounted = true) (hdir : v.DirOk v.sb.rootRecordId)
    (hclosed : ClosedDisk v sb w.view) (hreg : w.regions = none) :
    fwp False False (mountVolume sb) (fun _ w => Remounted sb.openVolume.toCounters v w) (fun _ _ => False) w := by
  have hlsb : sb.toLayout.WF := hclosed.layout ▸ hl
  unfold mountVolume
  refine wpAbs_bind (vwp_modifyMem (wpAbs_seq (runs_journalReplay_empty hclosed.empty) (fun _ u hu => ?_)
    (fun _ _ h => h)))
  obtain ⟨-, rfl⟩ := hu
  refine wpAbs_seq (Runs.catchWith (runs_bitmapInitRegions hlsb hreg)) (fun _ u hu => ?_) (fun _ _ h => h)
  have hview : u.view = w.view := by rw [hu.2, rebuilt_view]; rfl
  have hsb : u.sb = sb := by rw [hu.2, rebuilt_sb]; rfl
  have hexact : u.RegionsExact := hu.2 ▸ regionsExact_rebuilt
  clear hu
  refine wpAbs_bind (vwp_modifyMem (wpAbs_bind (vwp_getSb ?_)))
  have hsb' : (u.mapMem Mem.opened).sb = sb.openVolume := by rw [mapMem_toMem, opened_sb, hsb]
  have hlay : (u.mapMem Mem.opened).sb.toLayout = v.sb.toLayout := by rw [hsb', openVolume_layout, hclosed.layout]
  have hremounted : Remounted sb.openVolume.toCounters v (u.mapMem Mem.opened) := by
    refine ⟨fun b hb => ?_, hlay, by rw [hsb'], ?_, by rw [mapMem_toMem, opened_mounted], regionsExact_opened hexact⟩
    · rw [mapMem_view, hview]
      exact hclosed.blocks b hb
    · unfold Volume.RingOk
      rw [hsb']
      exact ⟨hclosed.empty, hclosed.ring⟩
  have hroot : (u.mapMem Mem.opened).sb.rootRecordId = v.sb.rootRecordId :=
    (congrArg Counters.rootRecordId hremounted.counters).trans hclosed.root
  refine wpAbs_mono (fwp_dumpRoot (sectorOk_of_wf (hlay.symm ▸ hl)) ?_) (fun _ u h => h ▸ hremounted) (fun _ _ h => h)
  exact hroot ▸ hdir.leaves hl (hremounted.leavesFiles hm)

theorem smkfsMount_opens {s : Mount} (hs : s.Reliable) (hunmounted : s.mounted = false) (hreg : s.regions = none)
    (hl : v.sb.toLayout.WF) (hm : v.mounted = true) (hdir : v.DirOk v.sb.rootRecordId)
    (hclosed : ClosedDisk v sb s.dev.1.disk) :
    ∃ s', smkfsMount s = (.ok (), s') ∧ Remounted sb.openVolume.toCounters v s'.vol := by
  have hvol := vol_blockCacheInit (s.mapMem (fun m => { m with sb.sectorSize := 512 }))
  have hsec : (⟨(s.mapMem (fun m => { m with sb.sectorSize := 512 })).toMem, s.dev.1.disk⟩ : Volume).sectorOk := by
    change blockSize % 512 = 0
    decide
  obtain ⟨_, s', h', hw, -⟩ := Mount.Reliable.run (s := blockCacheInit (s.mapMem (fun m => { m with sb.sectorSize := 512 })))
    (m := mountDisk) (P := fun _ w => Remounted sb.openVolume.toCounters v w) hs (by
      rw [hvol]
      refine wpAbs_seq (Runs.catchWith (runs_readBlock hsec 0)) (fun x u hu => ?_) (fun _ _ h => h)
      obtain ⟨rfl, rfl⟩ := hu
      dsimp only
      rw [hclosed.superblock]
      exact fwp_mountVolume hl hm hdir hclosed hreg)
  exact ⟨s', (smkfsMount_eq hunmounted).trans h', hw⟩

theorem Remounted.filesOk (h : Remounted c v w) (hv : v.FilesOk) (hm : v.mounted = true) : w.FilesOk := by
  refine hv.leaves (h.leavesFiles hm) (fun hf b hb => ?_)
  have huse := (hv.files hf).inUse b hb
  rw [sameUsed_of_view hv.layout h.layout h.view _ huse.high]
  exact huse.used

theorem Remounted.byteAt (other : BlockData → Nat → UInt8) (h : Remounted c v w) (hv : v.FilesOk) (hm : v.mounted = true)
    {id : Nat} {rec : Record} {attrs : List Attr} (hf : v.FileAt id rec attrs) : byteAt other w attrs = byteAt other v attrs := by
  funext pos
  rw [SmkFs.byteAt, SmkFs.byteAt, byteIn, byteIn]
  cases hb : blockOf attrs (pos / blockSize) with
  | none => rfl
  | some b =>
    have hmem : b ∈ v.owned id attrs := List.mem_cons_of_mem _ (mem_of_blockOf hb)
    exact congrArg (fun x => imageBytes other x (pos % blockSize))
      ((h.leavesFiles hm).view_of_data hv.layout ((hv.files hf).inUse b hmem).low)

end

/-- **Every file reads as before.** -/
theorem Remounted.reads (other : BlockData → Nat → UInt8) {s s' : Mount} {c : Counters} (h : Remounted c s.vol s'.vol)
    (hv : s.vol.FilesOk) (hm : s.mounted = true) {k : Nat} {rec : Record} {attrs : List Attr}
    (hk : s.vol.FileAt k rec attrs) : s'.vol.FileAt k rec attrs ∧ ∀ offset len, offset + len < 2 ^ 64 →
      (smkfsRead other k offset len s'.faultless).1 = (smkfsRead other k offset len s.faultless).1 := by
  have hk' := ((h.leavesFiles hm).fileAt hv).2 hk
  refine ⟨hk', fun offset len hwrap => ?_⟩
  by_cases h0 : k = 0
  · rw [smkfsRead_inval (s := s.faultless) (.inr h0), smkfsRead_inval (s := s'.faultless) (.inr h0)]
  · rw [readsAs_file other hk hv.layout.sector hm h0 offset len hwrap,
      readsAs_file other hk' (h.filesOk hv hm).layout.sector h.mounted h0 offset len hwrap, h.byteAt other hv hm hk]

/-- **Unmounting and mounting again keeps the volume**, where nothing fails and the tree of the root directory is sound.
The superblock on the disk says CLEAN in between; after the mount nothing is left to redo, the free blocks of the regions
are counted right, no block outside the journal has changed but that of the superblock, and every file reads as before. -/
theorem remount_keeps (other : BlockData → Nat → UInt8) {s : Mount} (hs : s.Reliable) (hv : s.vol.FilesOk)
    (hdir : s.vol.DirOk s.sb.rootRecordId) (hm : s.mounted = true) (htxn : s.journalInTransaction = false)
    (hcount : s.sb.mountCount < 2 ^ 32) : ∃ s1 s2, smkfsUnmount s = (.ok (), s1) ∧
      (∃ sb, s1.dev.1.disk 0 = .super sb ∧ sb.clean = true) ∧ smkfsMount s1 = (.ok (), s2) ∧
      Remounted { s.sb.toCounters with clean := false } s.vol s2.vol ∧ s2.vol.FilesOk ∧
      ∀ {k rec attrs}, s.vol.FileAt k rec attrs → s2.vol.FileAt k rec attrs ∧ ∀ offset len, offset + len < 2 ^ 64 →
        (smkfsRead other k offset len s2.faultless).1 = (smkfsRead other k offset len s.faultless).1 := by
  obtain ⟨s1, sb, h1, hs1, hm1, hr1, hclosed, hcounters⟩ := smkfsUnmount_closes hs hv.layout hv.ring hm htxn
  obtain ⟨s2, h2, hw⟩ := smkfsMount_opens hs1 hm1 hr1 hv.layout hm hdir hclosed
  have hopen : sb.openVolume.toCounters = { s.sb.toCounters with clean := false } := by
    change ({ sb.toCounters with mountCount := add32 sb.toCounters.mountCount 1, clean := false } : Counters) = _
    rw [hcounters]
    exact congrArg (fun n => ({ s.sb.toCounters with mountCount := n, clean := false } : Counters)) (add32_sub32_one hcount)
  rw [hopen] at hw
  exact ⟨s1, s2, h1, ⟨sb, hclosed.superblock, congrArg Counters.clean hcounters⟩, h2, hw, hw.filesOk hv hm,
    hw.reads other hv hm⟩

/-! ## A crash after `smkfs_sync` -/

theorem wp_last {α β : Type} {m : FsM α} {k : α → FsM β} {Q : β → Mount → Prop} {s : Mount}
    (h : ∀ a s, wp (k a) Q (fun _ _ => True) s) : wp (m >>= k) Q (fun _ _ => True) s :=
  (wp_bind m k).2 ((wp_iff m).2 ⟨fun a s' _ => h a s', fun _ _ _ => trivial⟩)

/-- What a checkpoint does last is to flush the cache. -/
theorem journalCheckpoint_flushed (s : Mount) : wp journalCheckpoint (fun _ s' => s'.dev.1.Flushed) (fun _ _ => True) s := by
  unfold journalCheckpoint journalPersistSuperblock
  iterate 10 refine wp_last (fun _ s => ?_)
  exact wp_mono (wp_blockCacheFlush s) (fun _ _ h => h.2) (fun _ _ _ => trivial)

theorem smkfsSync_closes {s : Mount} (hs : s.Reliable) (hl : s.sb.toLayout.WF) (hring : s.vol.RingOk)
    (hm : s.mounted = true) (htxn : s.journalInTransaction = false) : ∃ s' sb, smkfsSync s = (.ok (), s') ∧
      s'.Reliable ∧ ClosedDisk s.vol sb s'.dev.1.disk ∧ sb.toCounters = s.sb.toCounters := by
  obtain ⟨_, s1, h1, ⟨hsteps, hempty, hzero⟩, hs1⟩ := hs.run (fwp_journalCheckpoint_empties (sectorOk_of_wf hl) htxn)
  have hstep := hsteps hring
  have hdisk : s1.dev.1.disk = s1.vol.view := (Drive.content_of_flushed s1.dev.2 (wp_ok (journalCheckpoint_flushed s) h1)).symm
  refine ⟨s1, s1.sb, ?_, hs1, ⟨?_, fun b hb => ?_, hstep.layout, congrArg Counters.rootRecordId hstep.counters, hempty,
    hstep.head⟩, hstep.counters⟩
  · unfold smkfsSync
    rw [bind_of_ok (show getMem s = (.ok s.toMem, s) from rfl),
      bind_of_ok (show (failIf (s.mounted = false) .inval : FsM Unit) s = (.ok (), s) by rw [hm]; rfl)]
    exact catchWith_of_ok h1 _
  · rw [hdisk, hzero]
    rfl
  · rw [hdisk]
    exact hstep.view b hb

/-- **What has been synced outlasts a crash.**  A mount that finds the disk as `smkfs_sync` left it, whatever was in the
memory and the cache, has the volume of the moment of the sync: no block outside the journal differs but that of the
superblock, and every file reads as then. -/
theorem sync_outlasts_crash (other : BlockData → Nat → UInt8) {s : Mount} (hs : s.Reliable) (hv : s.vol.FilesOk)
    (hdir : s.vol.DirOk s.sb.rootRecordId) (hm : s.mounted = true) (htxn : s.journalInTransaction = false) :
    ∃ s1, smkfsSync s = (.ok (), s1) ∧ s1.Reliable ∧ ∀ s' : Mount, s'.Reliable → s'.mounted = false → s'.regions = none →
      s'.dev.1.disk = s1.dev.1.disk → ∃ s2, smkfsMount s' = (.ok (), s2) ∧
        Remounted s.sb.openVolume.toCounters s.vol s2.vol ∧ s2.vol.FilesOk ∧
        ∀ {k rec attrs}, s.vol.FileAt k rec attrs → s2.vol.FileAt k rec attrs ∧ ∀ offset len, offset + len < 2 ^ 64 →
          (smkfsRead other k offset len s2.faultless).1 = (smkfsRead other k offset len s.faultless).1 := by
  obtain ⟨s1, sb, h1, hs1, hclosed, hcounters⟩ := smkfsSync_closes hs hv.layout hv.ring hm htxn
  refine ⟨s1, h1, hs1, fun s' hs' hm' hr' hdisk => ?_⟩
  obtain ⟨s2, h2, hw⟩ := smkfsMount_opens hs' hm' hr' hv.layout hm hdir (hdisk.symm ▸ hclosed)
  have hopen : sb.openVolume.toCounters = s.sb.openVolume.toCounters := by
    change ({ sb.toCounters with mountCount := add32 sb.toCounters.mountCount 1, clean := false } : Counters) = _
    rw [hcounters]
    rfl
  rw [hopen] at hw
  exact ⟨s2, h2, hw, hw.filesOk hv hm, hw.reads other hv hm⟩

theorem twoFilesDisk_reliable : twoFilesDisk.Reliable := by
  constructor
  · rintro ⟨o, ho, -⟩
    cases ho
  · intro h
    cases h

/-- File 3 reads as before. -/
theorem remount_keeps_two : ∃ s1 s2, smkfsUnmount twoFilesDisk = (.ok (), s1) ∧ smkfsMount s1 = (.ok (), s2) ∧
    (smkfsRead (fun _ _ => 0) 3 0 10 s2.faultless).1 = (smkfsRead (fun _ _ => 0) 3 0 10 twoFilesDisk.faultless).1 := by
  obtain ⟨s1, s2, h1, -, h2, -, -, hread⟩ := remount_keeps (fun _ _ => 0) twoFilesDisk_reliable twoFilesDisk_filesOk
    twoFilesDisk_dirOk.1 rfl rfl (by decide)
  exact ⟨s1, s2, h1, h2, (hread twoFilesDisk_three).2 0 10 (by decide)⟩

/-- After a crash, file 3 reads as before. -/
theorem sync_outlasts_crash_two : ∃ s1 s2, smkfsSync twoFilesDisk = (.ok (), s1) ∧
    smkfsMount ⟨zeroMem, s1.dev, s1.heap⟩ = (.ok (), s2) ∧
    (smkfsRead (fun _ _ => 0) 3 0 10 s2.faultless).1 = (smkfsRead (fun _ _ => 0) 3 0 10 twoFilesDisk.faultless).1 := by
  obtain ⟨s1, h1, hs1, hmount⟩ := sync_outlasts_crash (fun _ _ => 0) twoFilesDisk_reliable twoFilesDisk_filesOk
    twoFilesDisk_dirOk.1 rfl rfl
  obtain ⟨s2, h2, -, -, hread⟩ := hmount ⟨zeroMem, s1.dev, s1.heap⟩ hs1 rfl rfl rfl
  exact ⟨s1, s2, h1, h2, (hread twoFilesDisk_three).2 0 10 (by decide)⟩

end SmkFs
end AmitX
