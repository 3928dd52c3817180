import AmitX.SmkFs.Format
import AmitX.SmkFs.Mounting
/-!
# FormatMount — a formatted volume mounts (`super.c`)

`smkfs_fsck` finds nothing to repair on a formatted volume, so the disk after `smkfs_mkfs` is what the format wrote, and
`smkfs_mount` accepts it.
-/
namespace AmitX
namespace SmkFs

open Prog Volume Drive

section

variable {L : Layout} {v w : Volume}

theorem Formatted.congr (h : Formatted L v) (hview : w.view = v.view) (hsuper : w.sb = v.sb) : Formatted L w := by
  refine ⟨by rw [hview, h.superblock, hsuper], by rw [hsuper, h.layout], fun i hi => ?_, fun id hid => ?_,
    ⟨by rw [hview, h.root.record], by rw [hview, h.root.tree]⟩, by rw [hsuper, h.rootId], by rw [hsuper, h.head],
    by rw [hsuper, h.tail], by rw [hsuper, h.free]⟩
  · rw [used_congr hview (by rw [hsuper]), h.used i hi]
  · rw [← h.slots id hid]
    unfold Volume.mrtEntry Volume.mrtBlock
    rw [hview, hsuper]

variable (hl : L.WF) (hcap : entriesPerBlock ≤ L.mrtCapacity) (hdata : 2 < L.dataBlocks)

include hl hcap hdata in
theorem Formatted.bound (h : Formatted L v) :
    v.Bound 1 ∧ v.mrtEntry 1 = rootSlot (L.dataStart + 1) := by
  have hcap1 := one_lt_capacity hcap
  have hd := dataStart_succ_lt hl hdata
  have hslot : v.mrtEntry 1 = rootSlot (L.dataStart + 1) := by
    rw [h.slots 1 hcap1, formatSlots, Function.update_self]
  have hbound := rootSlot_bound (Nat.succ_pos L.dataStart) hd.2
  unfold Volume.Bound
  rw [hslot, h.layout]
  exact ⟨⟨hcap1, hbound.1, hbound.2.1, hbound.2.2.1⟩, rfl⟩

theorem Formatted.sectorOk (h : Formatted L v) (hl : L.WF) : v.sectorOk := sectorOk_of_wf (by rw [h.layout]; exact hl)

theorem runs_bitmapTest (hs : v.sectorOk) {block : Nat} (hb : v.sb.dataStart ≤ block) :
    Runs (bitmapTest block) v (v.used (block - v.sb.dataStart)) v :=
  runs_getSb.bind ((runs_failIf (by omega)).bind (runs_malloc.bind ((runs_failIf (by simp)).bind
    ((runs_readBlock hs _).bind (runs_pure _ _)))))

include hl hcap hdata in
theorem runs_fsckVolume (h : Formatted L v) (hview : w.view = v.view) :
    ∃ w', Runs fsckVolume w () w' ∧ w'.view = v.view ∧ w'.sectorOk := by
  have hd := dataStart_succ_lt hl hdata
  -- the superblock
  have r1 := @runs_modifySb w (fun sb => { sb with sectorSize := 512 })
  have hview1 : (w.mapMem (fun m => { m with sb.sectorSize := 512 })).view = v.view := hview
  have hs1 : (w.mapMem (fun m => { m with sb.sectorSize := 512 })).sectorOk := by
    change blockSize % 512 = 0
    decide
  change Runs _ w () (w.mapMem (fun m => { m with sb.sectorSize := 512 })) at r1
  generalize w.mapMem (fun m => { m with sb.sectorSize := 512 }) = w1 at r1 hview1 hs1
  have r2 := runs_readBlock hs1 0
  rw [hview1, h.superblock] at r2
  have r3 := @runs_modifySb w1 (fun _ => v.sb)
  have h3 : Formatted L (w1.mapMem (fun m => { m with sb := v.sb })) := h.congr hview1 rfl
  have hview3 : (w1.mapMem (fun m => { m with sb := v.sb })).view = v.view := hview1
  have hsb3 : (w1.mapMem (fun m => { m with sb := v.sb })).sb = v.sb := rfl
  generalize w1.mapMem (fun m => { m with sb := v.sb }) = w3 at r3 h3 hview3 hsb3
  -- the checks
  have hs3 := h3.sectorOk hl
  obtain ⟨hbound, hslot⟩ := h3.bound hl hcap hdata
  have hblocks := hl.dataBlocks_eq
  have hcount : ¬(v.sb.totalBlocks - v.sb.dataStart < v.sb.freeBlocks) := by
    rw [h.layout, h.free]
    omega
  have r4 := runs_mrtResolve hs3 hbound
  rw [hslot] at r4
  have r5 := runs_bitmapTest hs3 (show w3.sb.dataStart ≤ L.dataStart + 1 by rw [h3.layout]; omega)
  have hbit : w3.used (L.dataStart + 1 - w3.sb.dataStart) = true := by
    rw [h3.layout, show L.dataStart + 1 - L.dataStart = 1 by omega, h3.used 1 (by omega)]
    rfl
  rw [hbit] at r5
  refine ⟨w3, ?_, hview3, hs3⟩
  unfold fsckVolume
  refine r1.bind (r2.orThrow.bind ?_)
  refine r3.bind ((runs_failIf ?_).bind ?_)
  · rw [h.layout]
    omega
  dsimp only
  rw [decide_eq_false hcount, if_neg (by simp), h.rootId]
  exact r4.bind (r5.attempt.bind (runs_when_neg (by simp [Except.toOption])))

theorem mrtEntry_congr (hview : w.view = v.view) (hlay : w.sb.toLayout = v.sb.toLayout) : w.mrtEntry = v.mrtEntry := by
  funext id
  unfold Volume.mrtEntry Volume.mrtBlock
  rw [hview, hlay]

include hl hcap hdata in
theorem Formatted.bound_congr (h : Formatted L v) (hview : w.view = v.view) (hlay : w.sb.toLayout = L) :
    w.Bound 1 ∧ w.mrtEntry 1 = rootSlot (L.dataStart + 1) := by
  have hlay' : w.sb.toLayout = v.sb.toLayout := hlay.trans h.layout.symm
  obtain ⟨hbound, hslot⟩ := h.bound hl hcap hdata
  have hslot' : w.mrtEntry 1 = rootSlot (L.dataStart + 1) := by rw [mrtEntry_congr hview hlay', hslot]
  refine ⟨?_, hslot'⟩
  unfold Volume.Bound at hbound ⊢
  rw [hslot', hlay']
  rw [hslot] at hbound
  exact hbound

include hl hcap hdata in
theorem Formatted.runs_readRoot (h : Formatted L v) (hview : w.view = v.view) (hlay : w.sb.toLayout = L) :
    Runs (recordRead 1) w (rootDirectory, rootAttrs L.dataStart) w ∧ Runs (btreeLoad L.dataStart) w emptyRoot w := by
  have hd := dataStart_succ_lt hl hdata
  obtain ⟨hbound, hslot⟩ := h.bound_congr hl hcap hdata hview hlay
  have hgen := (rootSlot_bound (Nat.succ_pos L.dataStart) hd.2).2.2.2
  have hs : w.sectorOk := sectorOk_of_wf (by rw [hlay]; exact hl)
  refine ⟨runs_recordRead hs hbound ?_ ?_, runs_btreeLoad hs (Nat.ne_of_gt hd.1) ?_ (Nat.zero_le _)⟩
  · have hphys : (rootSlot (L.dataStart + 1)).physicalBlock = L.dataStart + 1 := rfl
    rw [hslot, hphys, hview, h.root.record]
  · rw [hslot, hgen]
    rfl
  · rw [hview]
    exact h.root.tree

include hl hcap hdata in
theorem Formatted.runs_dumpRoot (h : Formatted L v) (hview : w.view = v.view) (hlay : w.sb.toLayout = L)
    {sb : Superblock} (hid : sb.rootRecordId = 1) : Runs (dumpRoot sb) w () w := by
  have hd := dataStart_succ_lt hl hdata
  obtain ⟨hread, htree⟩ := h.runs_readRoot hl hcap hdata hview hlay
  have hdump : Runs (btreeDumpRecursive (sb.totalBlocks + 1) L.dataStart) w () w := by
    rw [btreeDumpRecursive]
    refine Runs.ite_neg (Nat.ne_of_gt hd.1) (runs_malloc.bind (Runs.ite_neg (by simp) ?_))
    exact htree.elseDo (Runs.ite_pos rfl (runs_pure _ _))
  unfold dumpRoot
  rw [hid]
  exact runs_malloc.bind (Runs.ite_neg (by simp) (hread.elseDo hdump))

theorem opened_sb (m : Mem) : m.opened.sb = m.sb.openVolume := by
  unfold Mem.opened
  rfl

theorem opened_mounted (m : Mem) : m.opened.mounted = true := by
  unfold Mem.opened
  rfl

theorem opened_regions (m : Mem) : m.opened.regions = m.regions ∧ m.opened.regionCount = m.regionCount := by
  unfold Mem.opened
  exact ⟨rfl, rfl⟩

theorem openVolume_layout (sb : Superblock) : sb.openVolume.toLayout = sb.toLayout := by
  unfold Superblock.openVolume
  rfl

theorem regionsExact_opened (h : v.RegionsExact) : (v.mapMem Mem.opened).RegionsExact := by
  have hlay : (Mem.opened v.toMem).sb.toLayout = v.sb.toLayout := by rw [opened_sb, openVolume_layout]
  intro c hc i hi
  rw [mapMem_toMem] at hc hi
  rw [(opened_regions v.toMem).1] at hc
  rw [(opened_regions v.toMem).2] at hi
  rw [used_mapMem hlay, mapMem_toMem, hlay]
  exact h c hc i hi

/-- What a mount leaves in the memory, over the formatted volume. -/
structure MountedFormat (L : Layout) (v w : Volume) : Prop where
  view : w.view = v.view
  superblock : w.sb = v.sb.openVolume
  mounted : w.mounted = true
  regions : w.RegionsExact

include hl hcap hdata in
theorem runs_mountVolume (h : Formatted L v) (hview : w.view = v.view) (hreg : w.regions = none) :
    ∃ w', Runs (mountVolume v.sb) w () w' ∧ MountedFormat L v w' := by
  have r1 := @runs_modifySb w (fun _ => v.sb)
  have hview1 : (w.mapMem (fun m => { m with sb := v.sb })).view = v.view := hview
  have hsb1 : (w.mapMem (fun m => { m with sb := v.sb })).sb = v.sb := rfl
  have hreg1 : (w.mapMem (fun m => { m with sb := v.sb })).regions = none := hreg
  generalize w.mapMem (fun m => { m with sb := v.sb }) = w1 at r1 hview1 hsb1 hreg1
  have r2 := @runs_journalReplay_empty w1 (by rw [hsb1, h.head, h.tail])
  have hview2 : (w1.mapMem (fun m => { m with journalNextSequence := m.sb.journalSequence })).view = v.view := hview1
  have hsb2 : (w1.mapMem (fun m => { m with journalNextSequence := m.sb.journalSequence })).sb = v.sb := hsb1
  have hreg2 : (w1.mapMem (fun m => { m with journalNextSequence := m.sb.journalSequence })).regions = none := hreg1
  generalize w1.mapMem (fun m => { m with journalNextSequence := m.sb.journalSequence }) = w2 at r2 hview2 hsb2 hreg2
  have r3 := runs_bitmapInitRegions (by rw [hsb2, h.layout]; exact hl) hreg2
  have hview3 : w2.rebuilt.view = v.view := rebuilt_view.trans hview2
  have hsb3 : w2.rebuilt.sb = v.sb := rebuilt_sb.trans hsb2
  have hexact3 := @regionsExact_rebuilt w2
  generalize w2.rebuilt = w3 at r3 hview3 hsb3 hexact3
  have r4 := @runs_modifyMem w3 Mem.opened
  have hview4 : (w3.mapMem Mem.opened).view = v.view := (mapMem_view _ _).trans hview3
  have hsb4 : (w3.mapMem Mem.opened).sb = v.sb.openVolume := by rw [mapMem_toMem, opened_sb, hsb3]
  have hmounted4 : (w3.mapMem Mem.opened).mounted = true := by rw [mapMem_toMem, opened_mounted]
  have hexact4 := regionsExact_opened hexact3
  generalize w3.mapMem Mem.opened = w4 at r4 hview4 hsb4 hmounted4 hexact4
  have r5 : Runs (dumpRoot w4.sb) w4 () w4 := by
    refine h.runs_dumpRoot hl hcap hdata hview4 ?_ ?_
    · rw [hsb4]
      exact h.layout
    · rw [hsb4]
      exact h.rootId
  refine ⟨w4, ?_, hview4, hsb4, hmounted4, hexact4⟩
  unfold mountVolume
  exact r1.bind (r2.bind (r3.catchWith.bind (r4.bind (runs_getSb.bind r5))))

/-! ## On the disk -/

/-- What a program does to the disk, run from it in a context of its own where nothing fails. -/
structure LeavesDisk (m : FsM Unit) (s : Mount) (disk : Nat → BlockData) : Prop where
  run : ∃ s', m s = (.ok (), s') ∧ s'.toMem = s.toMem ∧ s'.Reliable ∧ s'.dev.1.disk = disk ∧
    (s.dev.1.Flushed → s'.dev.1.content = disk)

theorem leavesDisk_ownContext {m : FsM Unit} {s : Mount} {disk : Nat → BlockData} (hs : s.Reliable)
    (h : ∀ s0 : Mount, s0.vol = ⟨zeroMem, s.dev.1.disk⟩ → s0.Reliable →
      ∃ s', m s0 = (.ok (), s') ∧ s'.Reliable ∧ s'.Synced ∧ s'.vol.view = disk) :
    LeavesDisk (ownContext m) s disk := by
  have hv := vol_blockCacheInit ⟨zeroMem, s.dev, s.heap⟩
  have hr : (blockCacheInit ⟨zeroMem, s.dev, s.heap⟩).Reliable := hs
  obtain ⟨s', h', hs', hsync, hview⟩ := h _ hv hr
  have hdisk : s'.dev.1.disk = disk := by rw [← hview, ← hsync]; rfl
  exact ⟨_, ownContext_eq h', rfl, hs', hdisk, fun hf => (content_besideCache hf).trans hdisk⟩

include hl hcap hdata in
theorem leavesDisk_smkfsFsck (h : Formatted L v) {s : Mount} (hs : s.Reliable) (hdisk : s.dev.1.disk = v.view) :
    LeavesDisk smkfsFsck s v.view := by
  obtain ⟨s1, h1, hm1, hd1, hs1⟩ := malloc_reliable hs
  have hdisk1 : s1.dev.1.disk = v.view := by rw [hd1, hdisk]
  obtain ⟨s2, h2, hm2, hs2, hdisk2, hf2⟩ := @leavesDisk_ownContext (thenShutdown fsckVolume) s1 v.view hs1
    (fun s0 hv0 hs0 => by
      obtain ⟨w', hrun, hview, hsec⟩ := runs_fsckVolume hl hcap hdata h
        (show s0.vol.view = v.view by rw [hv0, hdisk1])
      obtain ⟨s3, h3, hv3, hs3⟩ := hrun.apply' hs0
      obtain ⟨s4, h4, hv4, hsync, hs4⟩ := blockCacheShutdown_reliable hs3
        (show s3.vol.sectorOk by rw [hv3]; exact hsec)
      refine ⟨s4, ?_, hs4, hsync, by rw [hv4, hv3, hview]⟩
      exact (bind_of_ok (catchWith_of_ok h3 _) _).trans h4)
  refine ⟨s2, ?_, hm2.trans hm1, hs2, hdisk2, fun hf => hf2 (by rw [hd1]; exact hf)⟩
  exact (bind_of_ok h1 _).trans h2

end

section

variable {total : Nat} (h16 : 16 ≤ total) (hmax : 8 * total < 2 ^ 32)

include h16 hmax in
theorem mkfsLayout_facts : (mkfsLayout total 512).WF ∧ entriesPerBlock ≤ (mkfsLayout total 512).mrtCapacity ∧
    2 < (mkfsLayout total 512).dataBlocks ∧ 7 < (mkfsLayout total 512).journalLength := by
  have hl := mkfsLayout_wf h16 hmax
  obtain ⟨_, hj, _⟩ := mkfsLayout_eq h16
  refine ⟨hl, ?_, (mkfsLayout_dataBlocks h16 hmax).2, ?_⟩
  · rw [hl.capacity]
    exact Nat.le_mul_of_pos_left _ (lt_of_lt_of_le Nat.one_pos (Nat.le_max_right _ _))
  · change 7 < mkfsJournalBlocks total
    omega

include h16 hmax in
theorem leavesDisk_smkfsMkfs {s : Mount} (hs : s.Reliable) :
    ∃ v, Formatted (mkfsLayout total 512) v ∧ LeavesDisk (smkfsMkfs total 512) s v.view := by
  obtain ⟨hl, hcap, hdata, _⟩ := mkfsLayout_facts h16 hmax
  obtain ⟨s1, h1, hm1, hd1, hs1⟩ := malloc_reliable hs
  obtain ⟨v, hrun, hfmt⟩ := @runs_mkfsVolume total h16 hmax ⟨zeroMem, s1.dev.1.disk⟩ rfl rfl
  obtain ⟨s2, h2, hm2, hs2, hdisk2, hf2⟩ := @leavesDisk_ownContext (do
      (mkfsVolume total 512).catchWith (fun e => do
        blockCacheShutdown
        throw e)
      blockCacheFlush.ignore
      smkfsFsck.ignore
      blockCacheShutdown) s1 v.view hs1 (fun s0 hv0 hs0 => by
    obtain ⟨s3, h3, hv3, hs3⟩ := (hv0 ▸ hrun : Runs (mkfsVolume total 512) s0.vol () v).apply' hs0
    have hsec3 : s3.vol.sectorOk := by
      rw [hv3]
      exact hfmt.sectorOk hl
    obtain ⟨s4, h4, hq4, hf4⟩ := blockCacheFlush_reliable hs3 hsec3
    have hview4 : s4.dev.1.disk = v.view := by
      rw [← hq4.synced hf4, ← hv3, ← hq4.vol]
      rfl
    obtain ⟨s5, h5, hm5, hs5, _, hc5⟩ := leavesDisk_smkfsFsck hl hcap hdata hfmt (hq4.reliable hs3) hview4
    have hsec5 : s5.sectorOk := by
      unfold Mem.sectorOk at *
      rw [hm5, hq4.mem]
      exact hsec3
    obtain ⟨s6, h6, hv6, hsync6, hs6⟩ := blockCacheShutdown_reliable hs5 hsec5
    refine ⟨s6, ?_, hs6, hsync6, ?_⟩
    · rw [bind_of_ok (catchWith_of_ok h3 _), bind_of_ok (ignore_of_run h4), bind_of_ok (ignore_of_run h5), h6]
    · rw [hv6]
      exact hc5 hf4)
  refine ⟨v, hfmt, s2, ?_, hm2.trans hm1, hs2, hdisk2, fun hf => hf2 (by rw [hd1]; exact hf)⟩
  unfold smkfsMkfs
  rw [bind_of_ok h1]
  exact h2

end

/-! ## The promises -/

def Layout.areas (l : Layout) : List (Nat × Nat) := [(0, 1), (l.journalStart, l.journalLength),
  (l.bitmapStart, l.bitmapLength), (l.mrtStart, l.mrtLength), (l.dataStart, l.dataBlocks)]

/-- The areas are pairwise disjoint and inside the volume. -/
structure Layout.AreasOk (l : Layout) : Prop where
  disjoint : l.areas.Pairwise (fun a a' => ∀ b, ¬((a.1 ≤ b ∧ b < a.1 + a.2) ∧ a'.1 ≤ b ∧ b < a'.1 + a'.2))
  inside : ∀ a ∈ l.areas, a.1 + a.2 ≤ l.totalBlocks

theorem Layout.WF.areasOk {l : Layout} (h : l.WF) : l.AreasOk := by
  have h0 := h.journalStart
  have h1 := h.journal
  have h2 := h.bitmap
  have h3 := h.mrt
  have h4 := h.data
  have h5 := h.dataBlocks_eq
  refine ⟨?_, ?_⟩
  · simp only [Layout.areas, List.pairwise_cons, List.mem_cons, List.not_mem_nil, or_false, forall_eq_or_imp, forall_eq]
    refine ⟨⟨?_, ?_, ?_, ?_⟩, ⟨?_, ?_, ?_⟩, ⟨?_, ?_⟩, ?_, fun _ h => absurd h (by simp), List.Pairwise.nil⟩ <;>
      (intro b hb; omega)
  · simp only [Layout.areas, List.mem_cons, List.not_mem_nil, or_false, forall_eq_or_imp, forall_eq]
    refine ⟨?_, ?_, ?_, ?_, ?_⟩ <;> omega

/-- **What the disk holds after the format**: a superblock whose areas are disjoint and inside the volume, with a ring
that the entries of the format, its `COMMIT` included, have not filled. -/
structure FormatOk (total : Nat) (sb : Superblock) : Prop where
  total : sb.totalBlocks = total
  areas : sb.toLayout.AreasOk
  head : sb.journalHead = 7
  tail : sb.journalTail = 7
  ring : 7 < sb.journalLength

def EmptyDirectory (id : Nat) (s : Mount) : Prop := ∃ rec attrs root node, (recordRead id s).1 = .ok (rec, attrs) ∧
  rec.objectType = .dir ∧ recordFindAttr .data attrs = some root ∧ (btreeLoad root.asU64 s).1 = .ok node ∧
  node.leaf = true ∧ node.entries = []

/-- **What a mount finds on a formatted volume.** -/
structure FreshMount (s : Mount) : Prop where
  mounted : s.mounted = true
  root : EmptyDirectory s.sb.rootRecordId s
  used : (List.range s.sb.dataBlocks).filter s.vol.used = [0, 1]
  free : s.vol.FreeExact

theorem clears_formatUsed : ∀ n, clears formatUsed (n + 2) = n
  | 0 => by simp [clears, Nat.count_succ, formatUsed]
  | n + 1 => by
    rw [clears_succ, clears_formatUsed n, if_pos]
    simp [formatUsed]

theorem filter_formatUsed : ∀ n, (List.range (n + 2)).filter formatUsed = [0, 1]
  | 0 => by decide
  | n + 1 => by
    rw [List.range_succ, List.filter_append, filter_formatUsed n]
    simp [formatUsed]

theorem Runs.value {α : Type} {m : FsM α} {s : Mount} {a : α} {v' : Volume} (h : Runs m s.vol a v') (hs : s.Reliable) :
    (m s).1 = .ok a := by
  obtain ⟨s', h', -⟩ := h.apply' hs
  rw [h']

theorem MountedFormat.fresh {L : Layout} {v : Volume} {s : Mount} (hl : L.WF) (hcap : entriesPerBlock ≤ L.mrtCapacity)
    (hdata : 2 < L.dataBlocks) (h : Formatted L v) (hm : MountedFormat L v s.vol) (hs : s.Reliable) : FreshMount s := by
  have hsb : s.sb = v.sb.openVolume := hm.superblock
  have hlay : s.sb.toLayout = L := by rw [hsb, openVolume_layout, h.layout]
  obtain ⟨n, hn⟩ : ∃ n, L.dataBlocks = n + 2 := ⟨L.dataBlocks - 2, by omega⟩
  have hused : ∀ i < n + 2, s.vol.used i = formatUsed i := fun i hi => by
    rw [used_congr hm.view (hlay.trans h.layout.symm), h.used i (by rw [hn]; exact hi)]
  have hid : s.sb.rootRecordId = 1 := by
    rw [hsb]
    exact h.rootId
  have hfree : s.sb.freeBlocks = n := by
    rw [hsb]
    change v.sb.freeBlocks = n
    rw [h.free, hn, Nat.add_sub_cancel]
  obtain ⟨hread, htree⟩ := h.runs_readRoot hl hcap hdata hm.view hlay
  refine ⟨hm.mounted, ?_, ?_, ?_⟩
  · rw [hid]
    exact ⟨rootDirectory, rootAttrs L.dataStart, .u64 L.dataStart, emptyRoot, hread.value hs, rfl, rfl, htree.value hs,
      rfl, rfl⟩
  · rw [hlay, hn, ← filter_formatUsed n]
    exact List.filter_congr (fun i hi => hused i (List.mem_range.1 hi))
  · change s.sb.freeBlocks = clears s.vol.used s.sb.dataBlocks
    rw [hlay, hn, clears_congr hused, clears_formatUsed, hfree]

def mountDisk : FsM Unit := do
  let x ← (readBlock 0).catchWith (fun _ => abandonMount .io)
  match x with
  | .super sb => mountVolume sb
  | _ => abandonMount .corrupt

theorem smkfsMount_eq {s : Mount} (hm : s.mounted = false) :
    smkfsMount s = mountDisk (blockCacheInit (s.mapMem (fun m => { m with sb.sectorSize := 512 }))) := by
  have h0 : (failIf (s.mounted = true) .inval : FsM Unit) s = (.ok (), s) := by
    rw [hm]
    rfl
  have h1 : (modifySb (fun sb => { sb with sectorSize := 512 })) s =
      (.ok (), s.mapMem (fun m => { m with sb.sectorSize := 512 })) := rfl
  unfold smkfsMount
  rw [bind_of_ok (show getMem s = (.ok s.toMem, s) from rfl), bind_of_ok h0, bind_of_ok h1]
  rfl

theorem smkfsMount_formatted {L : Layout} {v : Volume} (hl : L.WF) (hcap : entriesPerBlock ≤ L.mrtCapacity)
    (hdata : 2 < L.dataBlocks) (h : Formatted L v) {s : Mount} (hs : s.Reliable) (hm : s.mounted = false)
    (hr : s.regions = none) (hdisk : s.dev.1.disk = v.view) :
    ∃ s', smkfsMount s = (.ok (), s') ∧ s'.Reliable ∧ MountedFormat L v s'.vol := by
  have hvol := vol_blockCacheInit (s.mapMem (fun m => { m with sb.sectorSize := 512 }))
  have hr0 : (blockCacheInit (s.mapMem (fun m => { m with sb.sectorSize := 512 }))).Reliable := hs
  have hview : (blockCacheInit (s.mapMem (fun m => { m with sb.sectorSize := 512 }))).vol.view = v.view := by
    rw [hvol]
    exact hdisk
  have hreg : (blockCacheInit (s.mapMem (fun m => { m with sb.sectorSize := 512 }))).vol.regions = none := hr
  have hsec : (blockCacheInit (s.mapMem (fun m => { m with sb.sectorSize := 512 }))).vol.sectorOk := by
    change blockSize % 512 = 0
    decide
  have hrun := smkfsMount_eq hm
  generalize blockCacheInit (s.mapMem (fun m => { m with sb.sectorSize := 512 })) = s0 at *
  have r1 := runs_readBlock hsec 0
  rw [hview, h.superblock] at r1
  obtain ⟨w, r2, hw⟩ := runs_mountVolume hl hcap hdata h hview hreg
  have r3 : Runs mountDisk s0.vol () w := r1.catchWith.bind r2
  obtain ⟨s', h', hv', hs'⟩ := r3.apply' hr0
  exact ⟨s', hrun.trans h', hs', hv' ▸ hw⟩

section

variable {total : Nat} (h16 : 16 ≤ total) (hmax : 8 * total < 2 ^ 32)

include h16 hmax in
/-- **`smkfs_mkfs`, then `smkfs_mount`.** For every number of blocks that is admitted, on a disk and a heap that do not
fail, both return OK: the areas are in their places, the format's transaction fits in the ring, and the mount finds an
empty root directory, two used blocks and the right number of free ones. -/
theorem mkfs_then_mount (s : Mount) (hs : s.Reliable) (hm : s.mounted = false) (hr : s.regions = none) :
    ∃ s1 sb s2, smkfsMkfs total 512 s = (.ok (), s1) ∧ s1.dev.1.disk 0 = .super sb ∧ FormatOk total sb ∧
      smkfsMount s1 = (.ok (), s2) ∧ FreshMount s2 := by
  obtain ⟨hl, hcap, hdata, hring⟩ := mkfsLayout_facts h16 hmax
  obtain ⟨v, h, s1, h1, hmem, hs1, hdisk, -⟩ := leavesDisk_smkfsMkfs h16 hmax hs
  obtain ⟨s2, h2, hs2, hw⟩ := smkfsMount_formatted hl hcap hdata h hs1 (by rw [hmem]; exact hm) (by rw [hmem]; exact hr)
    hdisk
  refine ⟨s1, v.sb, s2, h1, by rw [hdisk, h.superblock], ⟨?_, ?_, h.head, h.tail, ?_⟩, h2, hw.fresh hl hcap hdata h hs2⟩
  · rw [h.layout]
    rfl
  · rw [h.layout]
    exact hl.areasOk
  · rw [h.layout]
    exact hring

/-- A volume of 16 blocks, on a disk of zeros. -/
theorem mkfs_then_mount_small : ∃ s1 sb s2, smkfsMkfs 16 512 (blankMount zeroMem.sb) = (.ok (), s1) ∧
    s1.dev.1.disk 0 = .super sb ∧ FormatOk 16 sb ∧ smkfsMount s1 = (.ok (), s2) ∧ FreshMount s2 := by
  have hs : (blankMount zeroMem.sb).Reliable := by
    refine ⟨?_, ?_⟩
    · rintro ⟨o, ho, -⟩
      simp [blankMount, cacheInit, blankDrive] at ho
    · simp [Mount.HeapFaulty, blankMount]
  exact mkfs_then_mount (by decide) (by decide) (blankMount zeroMem.sb) hs rfl rfl

end

end SmkFs
end AmitX
