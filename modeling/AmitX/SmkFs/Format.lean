import AmitX.SmkFs.Exact
/-!
# Format — what `smkfs_mkfs` writes (`super.c`)

The format transaction takes two data blocks and one slot, in seven entries of the ring: the tree of the root
directory, its record's slot and block, and the record twice.  `Formatting` is what is known of the volume in between.
-/
namespace AmitX
namespace SmkFs

open Prog Volume

/-! ## The areas -/

section Layout

variable {total : Nat} (h16 : 16 ≤ total) (hmax : 8 * total < 2 ^ 32)

include h16 in
theorem mkfsLayout_eq : mkfsBitmapBlocks total = (total + bitsPerBlock - 1) / bitsPerBlock ∧
    mkfsJournalBlocks total = total / 64 + 8 ∧ mkfsMrtBlocks total = (total + entriesPerBlock - 1) / entriesPerBlock := by
  unfold mkfsJournalBlocks mkfsBitmapBlocks mkfsMrtBlocks bitsPerBlock entriesPerBlock
  refine ⟨by omega, ?_, by omega⟩
  dsimp only
  rw [if_neg (by omega)]
  omega

include h16 hmax in
theorem mkfsLayout_wf : (mkfsLayout total 512).WF := by
  obtain ⟨hb, hj, hm⟩ := mkfsLayout_eq h16
  have hcap : mul64 (mkfsMrtBlocks total) entriesPerBlock = mkfsMrtBlocks total * entriesPerBlock := by
    refine mul64_of_lt ?_
    rw [hm]
    unfold entriesPerBlock
    omega
  unfold bitsPerBlock at hb
  unfold entriesPerBlock at hm
  refine ⟨?_, ?_, ?_, ?_, ?_, ?_, ?_, hcap, by change blockSize % 512 = 0; decide⟩ <;> simp only [mkfsLayout] <;>
    (try unfold bitsPerBlock) <;> omega

include h16 in
theorem two_lt_dataBlocks : 2 < total - (mkfsLayout total 512).dataStart := by
  obtain ⟨hb, hj, hm⟩ := mkfsLayout_eq h16
  unfold bitsPerBlock at hb
  unfold entriesPerBlock at hm
  simp only [mkfsLayout]
  omega

end Layout

/-! ## A volume under the format transaction -/

/-- Bits `u`, slots `t` and data blocks `d` of a volume that is formatted, with `n` entries in the ring and `free` free
blocks counted. -/
structure Formatting (L : Layout) (u : Nat → Bool) (t : Nat → MrtEntry) (d : Nat → BlockData) (n free : Nat)
    (v : Volume) : Prop where
  layout : v.sb.toLayout = L
  used : ∀ i < L.dataBlocks, v.used i = u i
  slots : ∀ id < L.mrtCapacity, v.mrtEntry id = t id
  data : ∀ b, L.dataStart ≤ b → v.view b = d b
  head : v.sb.journalHead = n
  tail : v.sb.journalTail = 0
  free : v.sb.freeBlocks = free
  regions : v.regions = none
  inTransaction : v.journalInTransaction = true

section

variable {L : Layout} {u : Nat → Bool} {t : Nat → MrtEntry} {d : Nat → BlockData} {n free : Nat} {v : Volume}

theorem Layout.WF.data_not_inJournal (hl : L.WF) {b : Nat} (hb : L.dataStart ≤ b) : ¬L.InJournal b := by
  have := hl.journal
  have := hl.journalStart
  have := hl.bitmap
  have := hl.mrt
  rintro (h | h) <;> omega

theorem Layout.WF.data_not_inBitmap (hl : L.WF) {b : Nat} (hb : L.dataStart ≤ b) : ¬L.InBitmap b := by
  have := hl.bitmap
  have := hl.mrt
  rintro ⟨_, h⟩
  omega

theorem Layout.WF.mrt_not_inBitmap (hl : L.WF) {b : Nat} (hb : L.InMrt b) : ¬L.InBitmap b := by
  have := hl.bitmap
  rintro ⟨_, h⟩
  have := hb.1
  omega

namespace Formatting

theorem wf (h : Formatting L u t d n free v) (hl : L.WF) : v.sb.toLayout.WF := by
  rw [h.layout]
  exact hl

theorem sectorOk (h : Formatting L u t d n free v) (hl : L.WF) : v.sectorOk := sectorOk_of_wf (h.wf hl)

theorem accepts (h : Formatting L u t d n free v) (hn : n + 1 < L.journalLength) {len : Nat}
    (hlen : len ≤ journalDataMax) : journalAccepts v.toMem len = true := by
  have hfull : journalIsFull v.sb = false := by
    unfold journalIsFull journalNextPos
    rw [h.layout, h.head, h.tail, if_neg (by omega)]
    simp
  simp [journalAccepts, h.inTransaction, hfull, hlen]

theorem logEntry (h : Formatting L u t d n free v) (hl : L.WF) (hn : n + 1 < L.journalLength) (op : JournalOp)
    (target len rid : Nat) (payload : BlockData) :
    Formatting L u t d (n + 1) free (v.logEntry op target len rid payload) := by
  have hring : v.RingOk := by
    unfold Volume.RingOk
    rw [h.layout, h.head]
    omega
  have hs := journalSteps_logEntry v op target len rid payload hring
  have hlv := h.wf hl
  refine ⟨hs.layout.trans h.layout, fun i hi => ?_, fun id hid => ?_, fun b hb => ?_, ?_, h.tail, ?_, h.regions,
    h.inTransaction⟩
  · rw [sameUsed_of_view hlv hs.layout hs.view i (by rw [h.layout]; exact hi), h.used i hi]
  · rw [sameMrt_of_view hlv hs.layout hs.view id (by rw [h.layout]; exact hid), h.slots id hid]
  · rw [hs.view b (by rw [h.layout]; exact hl.data_not_inJournal hb), h.data b hb]
  · have : (v.logEntry op target len rid payload).sb.journalHead = journalNextPos v.sb v.sb.journalHead := rfl
    rw [this, journalNextPos, h.layout, h.head, if_neg (by omega)]
  · rw [logEntry_counters]
    exact h.free

theorem mapMem (h : Formatting L u t d n free v) {f : Mem → Mem} (hlay : (f v.toMem).sb.toLayout = v.sb.toLayout)
    (hring : (f v.toMem).sb.toRing = v.sb.toRing) (hfree : (f v.toMem).sb.freeBlocks = v.sb.freeBlocks)
    (hreg : (f v.toMem).regions = v.regions)
    (htxn : (f v.toMem).journalInTransaction = v.journalInTransaction) :
    Formatting L u t d n free (v.mapMem f) := by
  refine ⟨hlay.trans h.layout, fun i hi => ?_, fun id hid => ?_, fun b hb => h.data b hb, ?_, ?_, hfree.trans h.free,
    hreg.trans h.regions, htxn.trans h.inTransaction⟩
  · rw [used_mapMem hlay, h.used i hi]
  · rw [← h.slots id hid]
    unfold Volume.mrtEntry Volume.mrtBlock
    rw [mapMem_view, mapMem_toMem, hlay]
  · rw [mapMem_toMem, hring, h.head]
  · rw [mapMem_toMem, hring, h.tail]

theorem mapMrtFree (h : Formatting L u t d n free v) (f : Nat → Nat) :
    Formatting L u t d n free (v.mapMem (Mem.mapMrtFree f)) := h.mapMem rfl rfl rfl rfl rfl

theorem mapRecordCount (h : Formatting L u t d n free v) (f : Nat → Nat) :
    Formatting L u t d n free (v.mapMem (Mem.mapRecordCount f)) := h.mapMem rfl rfl rfl rfl rfl

theorem writeData (h : Formatting L u t d n free v) (hl : L.WF) {b : Nat} (hb : L.dataStart ≤ b) (x : BlockData) :
    Formatting L u t (Function.update d b x) n free (v.write b x) := by
  refine ⟨h.layout, fun i hi => ?_, fun id hid => ?_, fun c hc => ?_, h.head, h.tail, h.free, h.regions,
    h.inTransaction⟩
  · rw [← h.used i hi]
    unfold Volume.used
    rw [write_view, write_toMem, Function.update_of_ne]
    rintro rfl
    rw [h.layout] at hb
    exact hl.data_not_inBitmap hb (hl.inBitmap hi)
  · rw [← h.slots id hid]
    unfold Volume.mrtEntry
    have hin := (h.wf hl).inMrt (by rw [h.layout]; exact hid : id < v.sb.mrtCapacity)
    have hne : v.mrtBlock id ≠ b := by
      rintro rfl
      have := hin.2
      have := hl.mrt
      rw [h.layout] at *
      omega
    exact congrArg (fun x : BlockData => x.mrtEntries (id % entriesPerBlock)) (Function.update_of_ne hne _ _)
  · rw [write_view]
    by_cases hcb : c = b
    · rw [hcb, Function.update_self, Function.update_self]
    · rw [Function.update_of_ne hcb, Function.update_of_ne hcb, h.data c hc]

theorem setUsed (h : Formatting L u t d n free v) (hl : L.WF) {s : Nat} (hs : s < L.dataBlocks) :
    Formatting L (Function.update u s true) t d n free (v.setUsed s true) := by
  have hs' : s < v.sb.dataBlocks := by
    rw [h.layout]
    exact hs
  have hfr := allocFrame_setUsed (h.wf hl) hs' true
  refine ⟨h.layout, fun i hi => ?_, fun id hid => ?_, fun b hb => ?_, h.head, h.tail, h.free, h.regions,
    h.inTransaction⟩
  · rw [used_setUsed]
    by_cases his : i = s
    · rw [his, Function.update_self, Function.update_self]
    · rw [Function.update_of_ne his, Function.update_of_ne his, h.used i hi]
  · have hin := (h.wf hl).inMrt (by rw [h.layout]; exact hid : id < v.sb.mrtCapacity)
    rw [← h.slots id hid]
    unfold Volume.mrtEntry
    exact congrArg (fun x => x.mrtEntries (id % entriesPerBlock))
      (hfr.view _ ((h.wf hl).mrt_not_inJournal hin) ((h.wf hl).mrt_not_inBitmap hin))
  · rw [hfr.view b (by rw [h.layout]; exact hl.data_not_inJournal hb)
      (by rw [h.layout]; exact hl.data_not_inBitmap hb), h.data b hb]

theorem mapFreeBlocks (h : Formatting L u t d n free v) (f : Nat → Nat) :
    Formatting L u t d n (f free) (v.mapMem (Mem.mapFreeBlocks f)) := by
  have hlay := mapFreeBlocks_layout f v.toMem
  refine ⟨hlay.trans h.layout, fun i hi => ?_, fun id hid => ?_, h.data, ?_, ?_, ?_, ?_, ?_⟩
  · rw [used_mapFreeBlocks, h.used i hi]
  · rw [← h.slots id hid]
    unfold Volume.mrtEntry Volume.mrtBlock
    rw [mapMem_view, mapMem_toMem, hlay]
  · rw [mapMem_toMem, mapFreeBlocks_ring, h.head]
  · rw [mapMem_toMem, mapFreeBlocks_ring, h.tail]
  · rw [mapMem_toMem, mapFreeBlocks_freeBlocks, h.free]
  · rw [mapMem_toMem, mapFreeBlocks_regions, h.regions]
  · exact h.inTransaction

theorem takeBlock (h : Formatting L u t d n free v) (hl : L.WF) (hn : n + 1 < L.journalLength) {s : Nat}
    (hs : s < L.dataBlocks) :
    Formatting L (Function.update u s true) t d (n + 1) (sub64 free 1) (v.takeBlock s) := by
  have h1 := (h.setUsed hl hs).mapFreeBlocks (fun n => sub64 n 1)
  unfold Volume.takeBlock
  exact h1.logEntry hl hn _ _ _ _ _

theorem setMrtEntry (h : Formatting L u t d n free v) (hl : L.WF) {id : Nat} (hid : id < L.mrtCapacity)
    (e : MrtEntry) : Formatting L u (Function.update t id e) d n free (v.setMrtEntry id e) := by
  have hin := (h.wf hl).inMrt (by rw [h.layout]; exact hid : id < v.sb.mrtCapacity)
  rw [h.layout] at hin
  refine ⟨h.layout, fun i hi => ?_, fun id' hid' => ?_, fun b hb => ?_, h.head, h.tail, h.free, h.regions,
    h.inTransaction⟩
  · rw [← h.used i hi]
    unfold Volume.used
    have hb := (h.wf hl).inBitmap (by rw [h.layout]; exact hi : i < v.sb.dataBlocks)
    have hne : v.sb.bitmapBlock i ≠ v.mrtBlock id := by
      intro he
      rw [he, h.layout] at hb
      exact hl.mrt_not_inBitmap hin hb
    exact congrArg (fun x : BlockData => x.bits (i % bitsPerBlock)) (Function.update_of_ne hne _ _)
  · rw [mrtEntry_setMrtEntry]
    by_cases hi : id' = id
    · rw [hi, Function.update_self, Function.update_self]
    · rw [Function.update_of_ne hi, Function.update_of_ne hi, h.slots id' hid']
  · rw [← h.data b hb]
    refine Function.update_of_ne (fun he => ?_) _ _
    have := hin.2
    have := hl.mrt
    omega

theorem putMrt (h : Formatting L u t d n free v) (hl : L.WF) (hn : n + 1 < L.journalLength) {id : Nat}
    (hid : id < L.mrtCapacity) (e : MrtEntry) :
    Formatting L u (Function.update t id e) d (n + 1) free (v.putMrt id e) :=
  (h.setMrtEntry hl hid e).logEntry hl hn _ _ _ _ _

theorem putRecord (h : Formatting L u t d n free v) (hl : L.WF) (hn : n + 1 < L.journalLength) {b : Nat}
    (hb : L.dataStart ≤ b) (rec : Record) (attrs : List Attr) :
    Formatting L u t (Function.update d b (.record rec attrs)) (n + 1) free (v.putRecord b rec attrs) :=
  (h.logEntry hl hn _ _ _ _ _).writeData hl hb _

end Formatting

end

/-! ## Writing the areas -/

/-- The volume with `x` written to the `n` blocks from `start` on. -/
def Volume.writeRange (start : Nat) (x : BlockData) (n : Nat) (v : Volume) : Volume :=
  ⟨v.toMem, fun b => if start ≤ b ∧ b < start + n then x else v.view b⟩

theorem runs_writeRange {v : Volume} (hs : v.sectorOk) (start : Nat) (x : BlockData) (n : Nat) :
    Runs (forRange (fun i => writeBlock (start + i) x) 0 n) v () (v.writeRange start x n) := by
  have h0 : v.writeRange start x 0 = v := by
    unfold Volume.writeRange
    congr 1
    funext b
    rw [if_neg (by omega)]
  have hstep : ∀ j, (v.writeRange start x j).write (start + j) x = v.writeRange start x (j + 1) := by
    intro j
    unfold Volume.writeRange Volume.write
    congr 1
    funext b
    by_cases hb : b = start + j
    · rw [hb, Function.update_self, if_pos (by omega)]
    · rw [Function.update_of_ne hb]
      dsimp only
      by_cases h : start ≤ b ∧ b < start + j
      · rw [if_pos h, if_pos (by omega)]
      · rw [if_neg h, if_neg (by omega)]
  have h := @runs_forRange (fun i => writeBlock (start + i) x) (fun j => v.writeRange start x j) n 0 (fun j _ _ => by
    have := runs_writeBlock (show (v.writeRange start x j).sectorOk from hs) (start + j) x
    rwa [hstep] at this)
  rwa [h0, Nat.zero_add] at h

def Volume.writeAreas (L : Layout) (v : Volume) : Volume :=
  ((v.writeRange L.journalStart .zero L.journalLength).writeRange L.bitmapStart .zero L.bitmapLength).writeRange
    L.mrtStart (.mrt fun _ => mrtEmpty) L.mrtLength

theorem runs_mkfsAreas {v : Volume} (hs : v.sectorOk) (L : Layout) : Runs (mkfsAreas L) v () (v.writeAreas L) := by
  have h1 := runs_writeRange hs L.journalStart .zero L.journalLength
  have h2 := runs_writeRange (show (v.writeRange L.journalStart .zero L.journalLength).sectorOk from hs)
    L.bitmapStart .zero L.bitmapLength
  have h3 := runs_writeRange (show ((v.writeRange L.journalStart .zero L.journalLength).writeRange L.bitmapStart .zero
    L.bitmapLength).sectorOk from hs) L.mrtStart (.mrt fun _ => mrtEmpty) L.mrtLength
  unfold mkfsAreas mrtFormat
  exact h1.orThrow.bind (h2.orThrow.bind h3.orThrow)

theorem formatting_writeAreas {L : Layout} (hl : L.WF) {v : Volume} (hlay : v.sb.toLayout = L)
    (hhead : v.sb.journalHead = 0) (htail : v.sb.journalTail = 0) (hreg : v.regions = none) :
    Formatting L (fun _ => false) (fun _ => mrtEmpty) v.view 0 v.sb.freeBlocks (v.writeAreas L).startTransaction := by
  have hj := hl.journal
  have hj0 := hl.journalStart
  have hb := hl.bitmap
  have hm := hl.mrt
  refine ⟨hlay, fun i hi => ?_, fun id hid => ?_, fun b hbd => ?_, hhead, htail, rfl, hreg, rfl⟩
  · have hin := hl.inBitmap hi
    have h1 := hin.1
    have h2 := hin.2
    change ((v.writeAreas L).view (v.sb.bitmapBlock i)).bits (i % bitsPerBlock) = false
    rw [hlay]
    unfold Volume.writeAreas Volume.writeRange
    dsimp only
    rw [if_neg (by omega), if_pos ⟨h1, h2⟩, BlockData.bits_zero]
  · have hin := @Layout.WF.inMrt v (by rw [hlay]; exact hl) id (by rw [hlay]; exact hid)
    rw [hlay] at hin
    change ((v.writeAreas L).view (v.mrtBlock id)).mrtEntries (id % entriesPerBlock) = mrtEmpty
    unfold Volume.writeAreas Volume.writeRange
    dsimp only
    rw [if_pos ⟨hin.1, hin.2⟩, BlockData.mrtEntries_mrt]
  · change (v.writeAreas L).view b = v.view b
    unfold Volume.writeAreas Volume.writeRange
    dsimp only
    rw [if_neg (by omega), if_neg (by omega), if_neg (by omega)]

/-! ## The root directory -/

section

variable {L : Layout} {d : Nat → BlockData} {n free : Nat} {v : Volume}

theorem linearRun_first {f : Nat → Bool} {N : Nat} (hN : 0 < N) (h : f 0 = false) :
    scanRun f 1 N 0 (0, 0) = .inl 0 := by
  obtain ⟨n, rfl⟩ : ∃ n, N = n + 1 := ⟨N - 1, by omega⟩
  simp [scanRun, h]

theorem linearRun_second {f : Nat → Bool} {N : Nat} (hN : 1 < N) (h0 : f 0 = true) (h1 : f 1 = false) :
    scanRun f 1 N 0 (0, 0) = .inl 1 := by
  obtain ⟨n, rfl⟩ : ∃ n, N = n + 2 := ⟨N - 2, by omega⟩
  simp [scanRun, h0, h1]

theorem mrtFindFree_first {f : Nat → MrtEntry} (h : (f 1).allocated = false) :
    mrtFindFree f 0 0 entriesPerBlock = some 1 := by
  unfold entriesPerBlock
  simp [mrtFindFree, h]

def rootSlot (block : Nat) : MrtEntry := (mrtEmpty.taken).updated block mrtfAllocated

def rootRecord : Record := ⟨1, .dir, 0, 1, 1, false⟩

theorem rootSlot_bound {block : Nat} (h0 : 0 < block) (hmax : block < uint64Max) :
    (rootSlot block).allocated = true ∧ (rootSlot block).physicalBlock ≠ 0 ∧
      (rootSlot block).physicalBlock ≠ uint64Max ∧ (rootSlot block).generation = 1 :=
  ⟨by simp [rootSlot, mrtEmpty, MrtEntry.taken, MrtEntry.updated, MrtEntry.allocated, mrtfAllocated], Nat.ne_of_gt h0,
    Nat.ne_of_lt hmax, by unfold rootSlot mrtEmpty MrtEntry.taken MrtEntry.updated add32; rfl⟩

variable (hl : L.WF) (hcap : entriesPerBlock ≤ L.mrtCapacity) (hdata : 2 < L.dataBlocks)

include hl in
theorem dataStart_succ_lt (hdata : 2 < L.dataBlocks) : 0 < L.dataStart ∧ L.dataStart + 1 < uint64Max := by
  have h1 := hl.dataBlocks_eq
  have h2 := hl.total
  have h3 := hl.journalStart
  have h4 := hl.journal
  have h5 := hl.bitmap
  have h6 := hl.mrt
  unfold uint64Max
  omega

theorem one_lt_capacity (hcap : entriesPerBlock ≤ L.mrtCapacity) : 1 < L.mrtCapacity :=
  lt_of_lt_of_le (by unfold entriesPerBlock; decide) hcap

include hl hcap in
theorem runs_mrtAllocEntry_root {u : Nat → Bool} (h : Formatting L u (fun _ => mrtEmpty) d n free v)
    (hn : n + 1 < L.journalLength) :
    ∃ v', Runs mrtAllocEntry v (1, 1) v' ∧
      Formatting L u (Function.update (fun _ => mrtEmpty) 1 mrtEmpty.taken) d (n + 1) free v' := by
  have hcap1 := one_lt_capacity hcap
  have hlen : 0 < v.sb.mrtLength := by
    have := hl.capacity
    rw [h.layout]
    exact Nat.pos_of_ne_zero (fun h0 => by rw [h0, Nat.zero_mul] at this; omega)
  have hslot1 : v.mrtEntry 1 = mrtEmpty := h.slots 1 hcap1
  have hfind : mrtFindFree (v.view v.sb.mrtStart).mrtEntries 0 0 entriesPerBlock = some 1 := by
    refine mrtFindFree_first ?_
    have hb : v.mrtBlock 1 = v.sb.mrtStart := by
      rw [Volume.mrtBlock, Nat.div_eq_of_lt (by unfold entriesPerBlock; decide), Nat.add_zero]
    have hm : (1 : Nat) % entriesPerBlock = 1 := Nat.mod_eq_of_lt (by unfold entriesPerBlock; decide)
    have h1 := hslot1
    rw [Volume.mrtEntry, hb, hm] at h1
    rw [h1]
    rfl
  have r1 := runs_mrtAllocEntry (h.sectorOk hl) (h.accepts hn (by decide)) hlen
    (by unfold entriesPerBlock; decide) hfind
  have hgen : mrtEmpty.taken.generation = 1 := by
    unfold mrtEmpty MrtEntry.taken add32
    rfl
  rw [hslot1, hgen] at r1
  exact ⟨_, r1, (h.putMrt hl hn hcap1 mrtEmpty.taken).mapMrtFree (fun n => sub64 n 1)⟩

include hl hcap hdata in
theorem runs_recordBind_root {u : Nat → Bool}
    (h : Formatting L u (Function.update (fun _ => mrtEmpty) 1 mrtEmpty.taken) d n free v)
    (hn : n + 2 < L.journalLength) :
    ∃ v', Runs (recordBind .dir 1 1 (L.dataStart + 1)) v 1 v' ∧
      Formatting L u (Function.update (fun _ => mrtEmpty) 1 (rootSlot (L.dataStart + 1)))
        (Function.update d (L.dataStart + 1) (.record rootRecord [])) (n + 2) free v' := by
  have hcap1 := one_lt_capacity hcap
  have hd := dataStart_succ_lt hl hdata
  have hslot : v.mrtEntry 1 = mrtEmpty.taken := by rw [h.slots 1 hcap1, Function.update_self]
  have hupd : mrtEmpty.taken.updated (L.dataStart + 1) mrtfAllocated = rootSlot (L.dataStart + 1) := rfl
  have r3 := runs_mrtUpdateEntry (h.sectorOk hl) (h.accepts (by omega) (by decide))
    (by rw [h.layout]; exact hcap1 : 1 < v.sb.mrtCapacity) (L.dataStart + 1) mrtfAllocated
  rw [hslot, hupd] at r3
  have f3 := h.putMrt hl (by omega) hcap1 (rootSlot (L.dataStart + 1))
  rw [Function.update_idem] at f3
  generalize v.putMrt 1 (rootSlot (L.dataStart + 1)) = v3 at r3 f3
  have hslot3 : v3.mrtEntry 1 = rootSlot (L.dataStart + 1) := by rw [f3.slots 1 hcap1, Function.update_self]
  have hbound := rootSlot_bound (Nat.succ_pos L.dataStart) hd.2
  have hb3 : v3.Bound 1 := by
    unfold Volume.Bound
    rw [hslot3, f3.layout]
    exact ⟨hcap1, hbound.1, hbound.2.1, hbound.2.2.1⟩
  have r4 := @runs_recordWrite v3 1 (f3.sectorOk hl) hb3 rootRecord [] (by decide) (f3.accepts (by omega) (by decide))
  have hphys : (v3.mrtEntry 1).physicalBlock = L.dataStart + 1 := by rw [hslot3]; rfl
  rw [hphys] at r4
  have f4 := (f3.putRecord hl (by omega) (Nat.le_succ L.dataStart) rootRecord []).mapRecordCount (fun n => add64 n 1)
  refine ⟨_, ?_, f4⟩
  unfold recordBind
  exact r3.elseDo (r4.elseDo ((runs_modifyMem _).bind (runs_pure _ _)))

include hl hcap hdata in
theorem runs_recordAlloc_root {u : Nat → Bool} (h : Formatting L u (fun _ => mrtEmpty) d n free v) (hu0 : u 0 = true)
    (hu1 : u 1 = false) (hn : n + 4 < L.journalLength) :
    ∃ v', Runs (recordAlloc .dir) v 1 v' ∧
      Formatting L (Function.update u 1 true) (Function.update (fun _ => mrtEmpty) 1 (rootSlot (L.dataStart + 1)))
        (Function.update d (L.dataStart + 1) (.record rootRecord [])) (n + 4) (sub64 free 1) v' := by
  obtain ⟨v1, r1, f1⟩ := runs_mrtAllocEntry_root hl hcap h (by omega)
  have hfree : linearRun v1.sb.toLayout v1.used 1 = .inl 1 := by
    rw [f1.layout]
    exact linearRun_second (by omega) ((f1.used 0 (by omega)).trans hu0) ((f1.used 1 (by omega)).trans hu1)
  have r2 := runs_bitmapAlloc (f1.wf hl) f1.regions (f1.accepts (by omega) (by decide)) hfree
  have f2 := f1.takeBlock hl (by omega) (by omega : 1 < L.dataBlocks)
  rw [f1.layout] at r2
  obtain ⟨v4, r4, f4⟩ := runs_recordBind_root hl hcap hdata f2 (by omega)
  refine ⟨v4, ?_, f4⟩
  unfold recordAlloc
  exact r1.elseDo (r2.bind (Runs.ite_neg (by omega) r4))

/-- The attributes of the root directory, whose tree is in `block`. -/
def rootAttrs (block : Nat) : List Attr := [⟨.data, 0, .u64 block⟩]

theorem recordAddAttr_root (block : Nat) :
    recordAddAttr attrBufSize .data (.u64 block) [] = (.ok (), rootAttrs block) := rfl

theorem rootAttrs_length (block : Nat) : attrBufTotalLen (rootAttrs block) = 32 := rfl

def formatUsed (i : Nat) : Bool := decide (i < 2)

def formatSlots (L : Layout) : Nat → MrtEntry := Function.update (fun _ => mrtEmpty) 1 (rootSlot (L.dataStart + 1))

def rootDirectory : Record := { rootRecord with attrCount := 1 }

/-- The root directory on a volume: its record, and an empty leaf for its tree. -/
structure RootOk (L : Layout) (v : Volume) : Prop where
  record : v.view (L.dataStart + 1) = .record rootDirectory (rootAttrs L.dataStart)
  tree : v.view L.dataStart = .node emptyRoot

theorem RootOk.of_data {u u' : Nat → Bool} {t t' : Nat → MrtEntry} {n' free' : Nat} {v' : Volume} (h : RootOk L v)
    (hv : Formatting L u t d n free v) (hv' : Formatting L u' t' d n' free' v') : RootOk L v' := by
  refine ⟨?_, ?_⟩
  · rw [hv'.data _ (by omega), ← hv.data _ (by omega), h.record]
  · rw [hv'.data _ (Nat.le_refl _), ← hv.data _ (Nat.le_refl _), h.tree]

include hl hcap hdata in
theorem runs_mkfsRoot (h : Formatting L (fun _ => false) (fun _ => mrtEmpty) d 0 free v) (hn : 7 < L.journalLength) :
    ∃ v' d', Runs mkfsRoot v 1 v' ∧ Formatting L formatUsed (formatSlots L) d' 6 (sub64 (sub64 free 1) 1) v' ∧
      RootOk L v' := by
  have hcap1 := one_lt_capacity hcap
  have hd := dataStart_succ_lt hl hdata
  have hfree : linearRun v.sb.toLayout v.used 1 = .inl 0 := by
    rw [h.layout]
    exact linearRun_first (by omega) (h.used 0 (by omega))
  have r1 := runs_bitmapAlloc (h.wf hl) h.regions (h.accepts (by omega) (by decide)) hfree
  have f1 := h.takeBlock hl (by omega) (by omega : 0 < L.dataBlocks)
  rw [h.layout, Nat.add_zero] at r1
  generalize v.takeBlock 0 = v1 at r1 f1
  have r2 := runs_writeBlock (f1.sectorOk hl) L.dataStart (.node emptyRoot)
  have f2 := f1.writeData hl (Nat.le_refl L.dataStart) (.node emptyRoot)
  generalize v1.write L.dataStart (.node emptyRoot) = v2 at r2 f2
  obtain ⟨v3, r3, f3⟩ := runs_recordAlloc_root hl hcap hdata f2 (by simp) (by simp) (by omega)
  have hslot3 : v3.mrtEntry 1 = rootSlot (L.dataStart + 1) := by rw [f3.slots 1 hcap1, Function.update_self]
  have hbound := rootSlot_bound (Nat.succ_pos L.dataStart) hd.2
  have hb3 : v3.Bound 1 := by
    unfold Volume.Bound
    rw [hslot3, f3.layout]
    exact ⟨hcap1, hbound.1, hbound.2.1, hbound.2.2.1⟩
  have hphys : (v3.mrtEntry 1).physicalBlock = L.dataStart + 1 := by rw [hslot3]; rfl
  have hrec : v3.view (L.dataStart + 1) = .record rootRecord [] := by
    rw [f3.data _ (by omega), Function.update_self]
  have r4 := @runs_recordRead v3 1 (f3.sectorOk hl) hb3 rootRecord [] (by rw [hphys]; exact hrec)
    (by rw [hslot3, hbound.2.2.2]; rfl)
  have r5 := @runs_recordWrite v3 1 (f3.sectorOk hl) hb3 rootDirectory (rootAttrs L.dataStart)
    (by rw [rootAttrs_length]; decide) (f3.accepts (by omega) (by rw [rootAttrs_length]; decide))
  rw [hphys] at r5
  have f5 := f3.putRecord hl (by omega) (Nat.le_succ L.dataStart) rootDirectory (rootAttrs L.dataStart)
  generalize v3.putRecord (L.dataStart + 1) rootDirectory (rootAttrs L.dataStart) = v5 at r5 f5
  have hused : Function.update (Function.update (fun _ => false) 0 true) 1 true = formatUsed := by
    funext i
    unfold formatUsed
    by_cases h1 : i = 1
    · simp [h1]
    · by_cases h0 : i = 0
      · simp [h0]
      · rw [Function.update_of_ne h1, Function.update_of_ne h0]
        simp only [false_eq_decide_iff]
        omega
  rw [hused] at f5
  have r6 : Runs (mkfsRootRecord 1 L.dataStart) v3 () v5 := by
    unfold mkfsRootRecord
    refine r4.orAbort.bind ?_
    dsimp only
    rw [recordAddAttr_root]
    exact r5.orAbort
  refine ⟨v5, _, ?_, f5, ?_, ?_⟩
  · unfold mkfsRoot
    refine r1.bind ((runs_when_neg (by omega)).bind (r2.orAbort.bind (r3.bind ((runs_when_neg (by omega)).bind ?_))))
    exact r6.bind (runs_pure _ _)
  · rw [f5.data _ (by omega), Function.update_self]
  · rw [f5.data _ (Nat.le_refl _), Function.update_of_ne (by omega), Function.update_of_ne (by omega),
      Function.update_self]

end

/-! ## The formatted volume -/

/-- **A formatted volume**, its superblock written: two blocks and one slot are taken, the ring holds nothing to redo,
and slot 1 is an empty directory. -/
structure Formatted (L : Layout) (v : Volume) : Prop where
  superblock : v.view 0 = .super v.sb
  layout : v.sb.toLayout = L
  used : ∀ i < L.dataBlocks, v.used i = formatUsed i
  slots : ∀ id < L.mrtCapacity, v.mrtEntry id = formatSlots L id
  root : RootOk L v
  rootId : v.sb.rootRecordId = 1
  head : v.sb.journalHead = 7
  tail : v.sb.journalTail = 7
  free : v.sb.freeBlocks = L.dataBlocks - 2

theorem formatted_congr {L : Layout} {v v' : Volume} (hl : L.WF) (h : Formatting L formatUsed (formatSlots L) v.view 7
    (L.dataBlocks - 2) v) (hroot : RootOk L v) (hview : ∀ b ≠ 0, v'.view b = v.view b)
    (hsuper : v'.view 0 = .super v'.sb) (hlay : v'.sb.toLayout = v.sb.toLayout)
    (hcount : v'.sb.toCounters = v.sb.toCounters) (hid : v.sb.rootRecordId = 1) (hhead : v'.sb.journalHead = 7)
    (htail : v'.sb.journalTail = 7) : Formatted L v' := by
  have hj := hl.journalStart
  have hj' := hl.journal
  have hb := hl.bitmap
  have hm := hl.mrt
  refine ⟨hsuper, hlay.trans h.layout, fun i hi => ?_, fun id hid => ?_, ⟨?_, ?_⟩, ?_, hhead, htail, ?_⟩
  · have hin := hl.inBitmap hi
    have h1 := hin.1
    rw [← h.used i hi]
    unfold Volume.used
    rw [hlay, h.layout, hview _ (by omega)]
  · have hin := @Layout.WF.inMrt v (h.wf hl) id (by rw [h.layout]; exact hid)
    rw [h.layout] at hin
    have h1 := hin.1
    rw [← h.slots id hid]
    unfold Volume.mrtEntry Volume.mrtBlock at *
    rw [hlay, hview _ (by omega)]
  · rw [hview _ (by omega), hroot.record]
  · rw [hview _ (by omega), hroot.tree]
  · rw [hcount, hid]
  · rw [hcount, h.free]

section

variable {total : Nat} (h16 : 16 ≤ total) (hmax : 8 * total < 2 ^ 32)

include h16 hmax in
theorem mkfsLayout_dataBlocks : (mkfsLayout total 512).dataBlocks = (mkfsSuperblock total 512).freeBlocks ∧
    2 < (mkfsLayout total 512).dataBlocks := by
  have h1 := (mkfsLayout_wf h16 hmax).dataBlocks_eq
  have h2 := two_lt_dataBlocks h16
  have h3 : (mkfsLayout total 512).totalBlocks = total := rfl
  rw [h3] at h1
  refine ⟨?_, by omega⟩
  rw [h1]
  simp only [mkfsLayout, mkfsSuperblock]
  omega

include h16 hmax in
theorem runs_mkfsVolume {v : Volume} (hreg : v.regions = none) (htxn : v.journalInTransaction = false) :
    ∃ v', Runs (mkfsVolume total 512) v () v' ∧ Formatted (mkfsLayout total 512) v' := by
  have hl := mkfsLayout_wf h16 hmax
  obtain ⟨hfree, hdata⟩ := mkfsLayout_dataBlocks h16 hmax
  obtain ⟨_, hj, hm⟩ := mkfsLayout_eq h16
  have hcap : entriesPerBlock ≤ (mkfsLayout total 512).mrtCapacity := by
    rw [hl.capacity]
    exact Nat.le_mul_of_pos_left _ (lt_of_lt_of_le Nat.one_pos (Nat.le_max_right _ _))
  have hlen : 7 < (mkfsLayout total 512).journalLength := by
    change 7 < mkfsJournalBlocks total
    omega
  -- the areas
  have r0 := @runs_modifySb v (fun _ => mkfsSuperblock total 512)
  have hlay0 : (v.mapMem (fun m => { m with sb := mkfsSuperblock total 512 })).sb.toLayout = mkfsLayout total 512 := rfl
  have hfree0 : (v.mapMem (fun m => { m with sb := mkfsSuperblock total 512 })).sb.freeBlocks =
      (mkfsLayout total 512).dataBlocks := hfree.symm
  have hreg0 : (v.mapMem (fun m => { m with sb := mkfsSuperblock total 512 })).regions = none := hreg
  have htxn0 : (v.mapMem (fun m => { m with sb := mkfsSuperblock total 512 })).journalInTransaction = false := htxn
  have hring0 : (v.mapMem (fun m => { m with sb := mkfsSuperblock total 512 })).sb.toRing = ⟨0, 0, 1⟩ := rfl
  generalize v.mapMem (fun m => { m with sb := mkfsSuperblock total 512 }) = v0 at *
  have hs0 : v0.sectorOk := sectorOk_of_wf (by rw [hlay0]; exact hl)
  have r1 := runs_mkfsAreas hs0 (mkfsLayout total 512)
  have hhead0 : v0.sb.journalHead = 0 := by rw [hring0]
  have htail0 : v0.sb.journalTail = 0 := by rw [hring0]
  have f1 := formatting_writeAreas hl hlay0 hhead0 htail0 hreg0
  rw [hfree0] at f1
  have r2 := @runs_journalStartTransaction (v0.writeAreas (mkfsLayout total 512)) htxn0
    (hhead0.trans htail0.symm) (by
      change journalIsFull v0.sb = false
      unfold journalIsFull journalNextPos
      rw [hlay0, hhead0, htail0, if_neg (by omega)]
      rfl)
  -- the root directory
  obtain ⟨v3, d', r3, f3, hroot⟩ := runs_mkfsRoot hl hcap hdata f1 hlen
  have hsub : sub64 (sub64 (mkfsLayout total 512).dataBlocks 1) 1 = (mkfsLayout total 512).dataBlocks - 2 := by
    have := dataBlocks_lt (mkfsLayout total 512)
    rw [sub64_of_le (by omega) this, sub64_of_le (by omega) (by omega)]
    omega
  rw [hsub] at f3
  -- the commit, and the superblock once more
  have r4 := @runs_modifySb v3 (fun sb => { sb with rootRecordId := 1 })
  have f4 := f3.mapMem (f := fun m => { m with sb.rootRecordId := 1 }) rfl rfl rfl rfl rfl
  have hid4 : (v3.mapMem (fun m => { m with sb.rootRecordId := 1 })).sb.rootRecordId = 1 := rfl
  change Runs _ v3 () (v3.mapMem (fun m => { m with sb.rootRecordId := 1 })) at r4
  generalize v3.mapMem (fun m => { m with sb.rootRecordId := 1 }) = v4 at r4 f4 hid4
  have r5 := runs_journalCommit (f4.sectorOk hl) (f4.accepts hlen (by decide))
  have f5 := f4.logEntry hl hlen .commit 0 0 0 .zero
  have hroot5 := hroot.of_data f3 f5
  have hid5 : (v4.logEntry .commit 0 0 0 .zero).sb.rootRecordId = 1 := by rw [logEntry_counters, hid4]
  unfold Volume.endTransaction at r5
  generalize v4.logEntry .commit 0 0 0 .zero = v5 at r5 f5 hroot5 hid5
  refine ⟨v5.leaveTransaction.publish.reclaim.publish.publish, ?_, ?_⟩
  · have hs5 : v5.leaveTransaction.publish.reclaim.publish.sectorOk := f5.sectorOk hl
    have r6 : Runs (writeBlock 0 (.super v5.leaveTransaction.publish.reclaim.publish.sb))
        v5.leaveTransaction.publish.reclaim.publish () v5.leaveTransaction.publish.reclaim.publish.publish :=
      runs_writeBlock hs5 0 _
    unfold mkfsVolume
    refine (runs_failIf (by omega)).bind (r0.bind (r1.bind (r2.orThrow.bind (r3.bind (r4.bind ?_)))))
    exact r5.orThrow.bind (runs_getSb.bind r6.orThrow)
  · refine formatted_congr hl ?_ hroot5 (fun b hb => ?_) ?_ ?_ ?_ hid5 ?_ ?_
    · exact ⟨f5.layout, f5.used, f5.slots, fun _ _ => rfl, f5.head, f5.tail, f5.free, f5.regions, f5.inTransaction⟩
    · rw [publish_view hb, publish_view hb, reclaim_view, publish_view hb, leaveTransaction_view]
    · simp only [publish_zero, publish_toMem]
    · rw [publish_toMem, publish_toMem, reclaim_layout, publish_toMem, leaveTransaction_layout]
    · rw [publish_toMem, publish_toMem, reclaim_counters, publish_toMem, leaveTransaction_counters]
    · rw [publish_toMem, publish_toMem, reclaim_head, publish_toMem, leaveTransaction_head, f5.head]
    · rw [publish_toMem, publish_toMem, reclaim_tail, publish_toMem, leaveTransaction_head, f5.head]

end

end SmkFs
end AmitX
