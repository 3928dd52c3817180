import AmitX.SmkFs.Super
/-!
# Exact — runs in which nothing fails

`Runs m v a v'`: where no transfer and no `malloc` fails, `m` run from the volume `v` returns `a` and leaves exactly
`v'`.  One rule for each combinator and each primitive, and one exact result for each operation that logs.
-/
namespace AmitX
namespace SmkFs

open Prog Volume

/-- From `v`, where nothing fails, `m` returns `a` and leaves `v'`. -/
abbrev Runs {α : Type} (m : FsM α) (v : Volume) (a : α) (v' : Volume) : Prop :=
  fwp False False m (fun x w => x = a ∧ w = v') (fun _ _ => False) v

section Rules

variable {α β : Type} {m : FsM α} {v v' v'' : Volume} {a : α} {b : β}

theorem runs_of_fwp {Q : α → Volume → Prop} {E : Err → Volume → Prop} (h : fwp False False m Q E v)
    (hQ : ∀ x w, Q x w → x = a ∧ w = v') (hE : ∀ e w, ¬E e w) : Runs m v a v' :=
  wpAbs_mono h hQ (fun e w h => hE e w h)

theorem runs_pure (a : α) (v : Volume) : Runs (pure a) v a v := wpAbs_pure ⟨rfl, rfl⟩

theorem Runs.bind {f : α → FsM β} (h : Runs m v a v') (h' : Runs (f a) v' b v'') : Runs (m >>= f) v b v'' :=
  wpAbs_seq h (fun x w hx => by rw [hx.1, hx.2]; exact h') (fun _ _ h => h)

theorem Runs.elseDo {h : FsM β} {k : α → FsM β} (hm : Runs m v a v') (hk : Runs (k a) v' b v'') :
    Runs (m.elseDo h k) v b v'' :=
  wpAbs_elseDo (wpAbs_mono hm (fun x w hx => by rw [hx.1, hx.2]; exact hk) (fun _ _ h => h.elim))

theorem Runs.catchWith {h : Err → FsM α} (hm : Runs m v a v') : Runs (m.catchWith h) v a v' :=
  wpAbs_catchWith (wpAbs_mono hm (fun _ _ h => h) (fun _ _ h => h.elim))

theorem Runs.orThrow {e : Err} (hm : Runs m v a v') : Runs (m.orThrow e) v a v' := Runs.catchWith hm

theorem Runs.orAbort {e : Err} (hm : Runs m v a v') : Runs (orAbort m e) v a v' := Runs.catchWith hm

theorem Runs.ignore (hm : Runs m v a v') : Runs m.ignore v () v' :=
  wpAbs_ignore (wpAbs_mono hm (fun _ _ h => ⟨rfl, h.2⟩) (fun _ _ h => h.elim))

theorem Runs.attempt (hm : Runs m v a v') : Runs m.attempt v (.ok a) v' :=
  wpAbs_attempt (wpAbs_mono hm (fun _ _ h => ⟨congrArg Except.ok h.1, h.2⟩) (fun _ _ h => h.elim))

theorem runs_failIf {c : Prop} [Decidable c] {e : Err} (h : ¬c) : Runs (failIf c e) v () v :=
  wpAbs_failIf (fun hc => h hc) (fun _ => ⟨rfl, rfl⟩)

theorem runs_when_pos {c : Prop} [Decidable c] {m : FsM Unit} (h : c) (hm : Runs m v () v') : Runs (when c m) v () v' :=
  wpAbs_when (fun _ => hm) (fun hc => absurd h hc)

theorem runs_when_neg {c : Prop} [Decidable c] {m : FsM Unit} (h : ¬c) : Runs (when c m) v () v :=
  wpAbs_when (fun hc => absurd hc h) (fun _ => ⟨rfl, rfl⟩)

theorem Runs.ite_pos {c : Prop} [Decidable c] {m m' : FsM α} (h : c) (hm : Runs m v a v') :
    Runs (if c then m else m') v a v' := by
  rwa [if_pos h]

theorem Runs.ite_neg {c : Prop} [Decidable c] {m m' : FsM α} (h : ¬c) (hm : Runs m' v a v') :
    Runs (if c then m else m') v a v' := by
  rwa [if_neg h]

theorem runs_getMem : Runs getMem v v.toMem v := vwp_getMem ⟨rfl, rfl⟩

theorem runs_getSb : Runs getSb v v.sb v := vwp_getSb ⟨rfl, rfl⟩

theorem runs_modifyMem (f : Mem → Mem) : Runs (modifyMem f) v () (v.mapMem f) := vwp_modifyMem ⟨rfl, rfl⟩

theorem runs_modifySb (f : Superblock → Superblock) :
    Runs (modifySb f) v () (v.mapMem (fun m => { m with sb := f m.sb })) := vwp_modifyMem ⟨rfl, rfl⟩

theorem runs_malloc : Runs malloc v true v := vwp_malloc ⟨rfl, rfl⟩ False.elim

theorem runs_readBlock (hs : v.sectorOk) (b : Nat) : Runs (readBlock b) v (v.view b) v :=
  vwp_readBlock ⟨rfl, rfl⟩ (fun h => h.elim id (fun h => h hs))

theorem runs_writeBlock (hs : v.sectorOk) (b : Nat) (x : BlockData) : Runs (writeBlock b x) v () (v.write b x) :=
  vwp_writeBlock ⟨rfl, rfl⟩ (fun h => h.elim id (fun h => h hs))

theorem runs_blockCacheFlush (hs : v.sectorOk) : Runs blockCacheFlush v () v :=
  vwp_blockCacheFlush ⟨rfl, rfl⟩ (fun h => h.elim id (fun h => h hs))

theorem runs_forRange {body : Nat → FsM Unit} {w : Nat → Volume} : ∀ (n i : Nat),
    (∀ j, i ≤ j → j < i + n → Runs (body j) (w j) () (w (j + 1))) → Runs (forRange body i n) (w i) () (w (i + n))
  | 0, i, _ => runs_pure () (w i)
  | n + 1, i, h => by
    rw [forRange, show i + (n + 1) = i + 1 + n by omega]
    exact (h i (Nat.le_refl i) (by omega)).bind
      (runs_forRange n (i + 1) (fun j hj hj' => h j (by omega) (by omega)))

theorem Runs.apply {s : Mount} (h : Runs m s.vol a v') (hd : ¬s.DiskFaulty) (hh : ¬s.HeapFaulty) :
    ∃ s', m s = (.ok a, s') ∧ s'.vol = v' ∧ ¬s'.DiskFaulty ∧ ¬s'.HeapFaulty := by
  have hw := h s ⟨hd, hh⟩ rfl
  rcases hm : m s with ⟨e | x, s'⟩
  · exact (wp_error hw hm).2.elim
  · obtain ⟨hi, rfl, hv⟩ := wp_ok hw hm
    exact ⟨s', rfl, hv, hi⟩

end Rules

/-! ## Logging -/

section

variable {v : Volume}

theorem runs_journalWriteEntry (hs : v.sectorOk) {len : Nat} (hacc : journalAccepts v.toMem len = true) (op : JournalOp)
    (target rid : Nat) (payload : BlockData) :
    Runs (journalWriteEntry op target len rid payload) v () (v.logEntry op target len rid payload) :=
  runs_of_fwp (fwp_journalWriteEntry False False v op target len rid payload) (fun _ _ h => ⟨rfl, h.2⟩) (fun _ _ h => by
    rcases h with ⟨h, _⟩ | ⟨h, _⟩ | ⟨h | h, _⟩
    · rw [hacc] at h
      simp at h
    · exact h
    · exact h
    · exact h hs)

def Volume.startTransaction (v : Volume) : Volume := v.mapMem (fun m => { m with journalInTransaction := true })

theorem runs_journalStartTransaction (htxn : v.journalInTransaction = false)
    (hempty : v.sb.journalHead = v.sb.journalTail) (hfull : journalIsFull v.sb = false) :
    Runs journalStartTransaction v () v.startTransaction := by
  unfold journalStartTransaction
  refine runs_getMem.bind ((runs_failIf (by simp [htxn])).bind ((runs_when_neg (by simp [hempty])).bind ?_))
  exact runs_getSb.bind ((runs_when_neg (by simp [hfull])).bind (runs_modifyMem _))

/-- The volume out of its transaction, with its sequence number for the superblock. -/
def Volume.leaveTransaction (v : Volume) : Volume :=
  v.mapMem (fun m => { m with sb.journalSequence := m.journalNextSequence, journalInTransaction := false })

/-- The volume when a commit has logged its `COMMIT` and ended the transaction. -/
def Volume.endTransaction (v : Volume) : Volume := (v.logEntry .commit 0 0 0 .zero).leaveTransaction

def Volume.publish (v : Volume) : Volume := v.write 0 (.super v.sb)

def Volume.reclaim (v : Volume) : Volume := v.mapMem (fun m => { m with sb.journalTail := m.sb.journalHead })

@[simp] theorem publish_toMem : v.publish.toMem = v.toMem := rfl
@[simp] theorem publish_zero : v.publish.view 0 = .super v.sb := by
  rw [Volume.publish, write_view, Function.update_self]
theorem publish_view {b : Nat} (h : b ≠ 0) : v.publish.view b = v.view b := by
  rw [Volume.publish, write_view, Function.update_of_ne h]
@[simp] theorem reclaim_view : v.reclaim.view = v.view := rfl
@[simp] theorem reclaim_layout : v.reclaim.sb.toLayout = v.sb.toLayout := rfl
@[simp] theorem reclaim_counters : v.reclaim.sb.toCounters = v.sb.toCounters := rfl
@[simp] theorem reclaim_head : v.reclaim.sb.journalHead = v.sb.journalHead := rfl
@[simp] theorem reclaim_tail : v.reclaim.sb.journalTail = v.sb.journalHead := rfl
@[simp] theorem leaveTransaction_view : v.leaveTransaction.view = v.view := rfl
@[simp] theorem leaveTransaction_layout : v.leaveTransaction.sb.toLayout = v.sb.toLayout := rfl
@[simp] theorem leaveTransaction_counters : v.leaveTransaction.sb.toCounters = v.sb.toCounters := rfl
@[simp] theorem leaveTransaction_head : v.leaveTransaction.sb.journalHead = v.sb.journalHead := rfl

theorem runs_journalPersistSuperblock (hs : v.sectorOk) : Runs journalPersistSuperblock v () v.publish :=
  runs_getSb.bind ((runs_writeBlock hs 0 _).bind (runs_blockCacheFlush hs))

theorem runs_journalCommit (hs : v.sectorOk) (hacc : journalAccepts v.toMem 0 = true) :
    Runs journalCommit v () v.endTransaction.publish.reclaim.publish := by
  have htxn : ¬v.journalInTransaction = false := by
    simp only [journalAccepts, Bool.and_eq_true] at hacc
    simp [hacc.1.1]
  unfold journalCommit
  refine runs_getMem.bind ((runs_failIf htxn).bind ((runs_journalWriteEntry hs hacc _ _ _ _).bind ?_))
  have hs1 : v.endTransaction.sectorOk := hs
  have h1 : Runs (do blockCacheFlush; journalPersistSuperblock; reclaimJournal; journalPersistSuperblock)
      v.endTransaction () v.endTransaction.publish.reclaim.publish :=
    (runs_blockCacheFlush hs1).bind ((runs_journalPersistSuperblock hs1).bind ((runs_modifyMem _).bind
      (runs_journalPersistSuperblock hs)))
  exact (runs_modifyMem _).bind h1

end

/-! ## Allocating one block -/

section

variable {v : Volume}

/-- The volume after data block `s` was allocated outside a mount, which has no regions. -/
def Volume.takeBlock (s : Nat) (v : Volume) : Volume :=
  ((v.setUsed s true).mapMem (Mem.mapFreeBlocks (fun n => sub64 n 1))).logEntry .alloc (v.sb.dataStart + s) 1 0 .zero

theorem mapRegion_none {m : Mem} (h : m.regions = none) (r : Nat) (f : Nat → Nat) : m.mapRegion r f = m := by
  cases m with
  | mk sb seq txn regions count hint mounted =>
    subst h
    rfl

theorem scanRunLinear_succeeds (hs : v.sectorOk) {sb : Superblock} {count : Nat} : ∀ (n bb : Nat) (run : Nat × Nat),
    fwp False False (scanRunLinear sb count bb n run) (fun _ _ => True) (fun _ _ => False) v
  | 0, _, _ => wpAbs_pure trivial
  | n + 1, bb, run => by
    rw [scanRunLinear]
    refine wpAbs_bind (vwp_readBlock ?_ (fun h => h.elim id (fun h => h hs)))
    cases scanRun (fun bit => (v.view (sb.bitmapStart + bb)).bits (bit % bitsPerBlock)) count
        (min bitsPerBlock (sb.dataBlocks - bb * bitsPerBlock)) (bb * bitsPerBlock) run with
    | inl s => exact wpAbs_pure trivial
    | inr run' => exact scanRunLinear_succeeds hs n (bb + 1) run'

theorem runs_scanRunLinear (hl : v.sb.toLayout.WF) (n : Nat) :
    Runs (scanRunLinear v.sb n 0 v.sb.bitmapLength (0, 0)) v
      ((linearRun v.sb.toLayout v.used n).elim some (fun _ => none)) v := by
  have hcov : min (v.sb.bitmapLength * bitsPerBlock) (v.sb.dataBlocks - 0 * bitsPerBlock) = v.sb.dataBlocks := by
    have := hl.covers
    rw [Nat.zero_mul, Nat.sub_zero, hl.dataBlocks_eq]
    omega
  have h := wpAbs_and (@vwp_scanRunLinear False v n v.sb.bitmapLength 0 (0, 0))
    (scanRunLinear_succeeds (sectorOk_of_wf hl) v.sb.bitmapLength 0 (0, 0))
  rw [hcov, Nat.zero_mul] at h
  exact runs_of_fwp h (fun _ _ h => ⟨h.1.2, h.1.1⟩) (fun _ _ h => h.2)

section

variable {s : Nat} (hl : v.sb.toLayout.WF) (hreg : v.regions = none) (hacc : journalAccepts v.toMem 1 = true)

include hl hacc in
theorem runs_bitmapLogAlloc (block : Nat) :
    Runs (bitmapLogAlloc block 1) v block
      ((v.mapMem (Mem.mapFreeBlocks (fun n => sub64 n 1))).logEntry .alloc block 1 0 .zero) := by
  have hs : (v.mapMem (Mem.mapFreeBlocks (fun n => sub64 n 1))).sectorOk :=
    sectorOk_of_wf (by rw [layout_mapFreeBlocks]; exact hl)
  have hacc' : journalAccepts (v.mapMem (Mem.mapFreeBlocks (fun n => sub64 n 1))).toMem 1 = true := by
    rw [mapMem_toMem, accepts_mapFreeBlocks]
    exact hacc
  unfold bitmapLogAlloc journalLogAlloc
  exact (runs_modifyMem _).bind (Runs.elseDo (runs_journalWriteEntry hs hacc' _ _ _ _) (runs_pure _ _))

include hl in
theorem runs_bitmapMark : Runs (forRange (fun j => bitmapMark v.sb (s + j)) 0 1) v () (v.setUsed s true) := by
  have h : Runs (bitmapMark v.sb s) v () (v.setUsed s true) :=
    (runs_readBlock (sectorOk_of_wf hl) _).bind (runs_writeBlock (sectorOk_of_wf hl) _ _)
  rw [forRange, Nat.add_zero]
  exact h.bind (runs_pure () _)

theorem takeBlock_regions : (v.takeBlock s).regions = v.regions := by
  unfold Volume.takeBlock
  rw [logEntry_regions, mapMem_toMem, mapFreeBlocks_regions, setUsed_toMem]

include hreg in
theorem runs_countRegion (r : Nat) (f : Nat → Nat) :
    Runs (modifyMem (Mem.mapRegion r f)) (v.takeBlock s) () (v.takeBlock s) := by
  have h : (v.takeBlock s).mapMem (Mem.mapRegion r f) = v.takeBlock s := by
    unfold Volume.mapMem
    rw [mapRegion_none (takeBlock_regions.trans hreg)]
  have := @runs_modifyMem (v.takeBlock s) (Mem.mapRegion r f)
  rwa [h] at this

include hl hreg hacc in
theorem runs_bitmapTakeLinear :
    Runs (bitmapTakeLinear v.sb 1 (some s)) v (v.sb.dataStart + s) (v.takeBlock s) := by
  unfold bitmapTakeLinear
  have hlog := @runs_bitmapLogAlloc (v.setUsed s true) hl hacc (v.sb.dataStart + s)
  refine Runs.elseDo (runs_bitmapMark hl) (hlog.bind ?_)
  exact Runs.bind (Runs.bind (runs_countRegion hreg _ _) (runs_pure () _)) (runs_pure _ _)

include hl hreg hacc in
theorem runs_bitmapAlloc (hfree : linearRun v.sb.toLayout v.used 1 = .inl s) :
    Runs bitmapAlloc v (v.sb.dataStart + s) (v.takeBlock s) := by
  have hscan := runs_scanRunLinear hl 1
  rw [hfree, Sum.elim_inl] at hscan
  have hlinear : Runs (bitmapAllocRangeLinear 1) v (v.sb.dataStart + s) (v.takeBlock s) := by
    unfold bitmapAllocRangeLinear
    refine Runs.ite_neg (by simp) (runs_malloc.bind (runs_malloc.bind (Runs.ite_neg (by simp) ?_)))
    exact runs_getSb.bind (hscan.elseDo (runs_bitmapTakeLinear hl hreg hacc))
  unfold bitmapAlloc
  refine runs_getMem.bind ?_
  rw [hreg]
  exact hlinear

end

end

attribute [irreducible] Volume.takeBlock

/-! ## The table and the records -/

def Volume.putMrt (id : Nat) (e : MrtEntry) (v : Volume) : Volume :=
  (v.setMrtEntry id e).logEntry (.mrtUpdate e) 0 mrtEntrySize id .zero

def Volume.putRecord (block : Nat) (rec : Record) (attrs : List Attr) (v : Volume) : Volume :=
  (v.logEntry .write block (recordSize + attrBufTotalLen attrs) 0 (.record rec attrs)).write block (.record rec attrs)

section

variable {v : Volume} {id : Nat} {e : MrtEntry}

theorem inTransaction_of_accepts {m : Mem} {len : Nat} (h : journalAccepts m len = true) :
    m.journalInTransaction = true := by
  simp only [journalAccepts, Bool.and_eq_true] at h
  exact h.1.1

theorem runs_mrtStoreEntry (hs : v.sectorOk) (hacc : journalAccepts v.toMem mrtEntrySize = true) :
    Runs (mrtStoreEntry (v.mrtBlock id) (id % entriesPerBlock) id (v.view (v.mrtBlock id)) e) v () (v.putMrt id e) := by
  have hacc' : journalAccepts (v.setMrtEntry id e).toMem mrtEntrySize = true := hacc
  have hs' : (v.setMrtEntry id e).sectorOk := hs
  have hw : Runs (writeBlock (v.mrtBlock id) ((v.view (v.mrtBlock id)).setMrtEntry (id % entriesPerBlock) e)) v ()
      (v.setMrtEntry id e) := runs_writeBlock hs _ _
  have hlog : Runs (journalLogMrtUpdate id e) (v.setMrtEntry id e) () (v.putMrt id e) :=
    runs_journalWriteEntry hs' hacc' _ _ _ _
  unfold mrtStoreEntry
  exact hw.bind (runs_getMem.bind (runs_when_pos (inTransaction_of_accepts hacc') (hlog.elseDo (runs_pure _ _))))

theorem runs_mrtAllocEntry (hs : v.sectorOk) (hacc : journalAccepts v.toMem mrtEntrySize = true)
    (hlen : 0 < v.sb.mrtLength) (hid : id < entriesPerBlock)
    (hfind : mrtFindFree (v.view v.sb.mrtStart).mrtEntries 0 0 entriesPerBlock = some id) :
    Runs mrtAllocEntry v (id, (v.mrtEntry id).taken.generation)
      ((v.putMrt id (v.mrtEntry id).taken).mapMem (Mem.mapMrtFree (fun n => sub64 n 1))) := by
  have hd : v.mrtBlock id = v.sb.mrtStart := by rw [Volume.mrtBlock, Nat.div_eq_of_lt hid, Nat.add_zero]
  have hm : id % entriesPerBlock = id := Nat.mod_eq_of_lt hid
  have he : (v.view v.sb.mrtStart).mrtEntries id = v.mrtEntry id := by rw [Volume.mrtEntry, hd, hm]
  have htake : Runs (mrtTakeEntry v.sb 0 id (v.view v.sb.mrtStart)) v (id, (v.mrtEntry id).taken.generation)
      ((v.putMrt id (v.mrtEntry id).taken).mapMem (Mem.mapMrtFree (fun n => sub64 n 1))) := by
    have hstore := @runs_mrtStoreEntry v id (v.mrtEntry id).taken hs hacc
    rw [hd, hm] at hstore
    unfold mrtTakeEntry
    rw [he, Nat.zero_mul, Nat.zero_add, Nat.add_zero]
    exact hstore.bind ((runs_modifyMem _).bind (runs_pure _ _))
  unfold mrtAllocEntry
  refine runs_getSb.bind ?_
  obtain ⟨n, hn⟩ : ∃ n, v.sb.mrtLength = n + 1 := ⟨v.sb.mrtLength - 1, by omega⟩
  rw [hn, mrtScanBlocks, Nat.add_zero]
  refine (runs_readBlock hs _).bind ?_
  rw [hfind]
  exact htake

theorem runs_mrtUpdateEntry (hs : v.sectorOk) (hacc : journalAccepts v.toMem mrtEntrySize = true)
    (hid : id < v.sb.mrtCapacity) (block flags : Nat) :
    Runs (mrtUpdateEntry id block flags) v () (v.putMrt id ((v.mrtEntry id).updated block flags)) := by
  unfold mrtUpdateEntry
  exact runs_getSb.bind ((runs_failIf (by omega)).bind ((runs_readBlock hs _).bind (runs_mrtStoreEntry hs hacc)))

/-- The slot of record `id` is allocated and bound to a block. -/
def Volume.Bound (v : Volume) (id : Nat) : Prop :=
  id < v.sb.mrtCapacity ∧ (v.mrtEntry id).allocated = true ∧ (v.mrtEntry id).physicalBlock ≠ 0 ∧
    (v.mrtEntry id).physicalBlock ≠ uint64Max

theorem runs_mrtResolve (hs : v.sectorOk) (hb : v.Bound id) : Runs (mrtResolve id) v (v.mrtEntry id) v := by
  obtain ⟨hid, ha, h0, hmax⟩ := hb
  unfold mrtResolve
  refine runs_getSb.bind ((runs_failIf (by omega)).bind ((runs_readBlock hs _).bind ?_))
  refine (runs_failIf ?_).bind ((runs_failIf ?_).bind (runs_pure _ _))
  · change ¬(v.mrtEntry id).allocated = false
    simp [ha]
  · change ¬((v.mrtEntry id).physicalBlock = 0 ∨ (v.mrtEntry id).physicalBlock = uint64Max)
    exact fun h => h.elim h0 hmax

theorem runs_recordRead (hs : v.sectorOk) (hb : v.Bound id) {rec : Record} {attrs : List Attr}
    (hview : v.view (v.mrtEntry id).physicalBlock = .record rec attrs)
    (hgen : rec.generation = (v.mrtEntry id).generation) : Runs (recordRead id) v (rec, attrs) v := by
  unfold recordRead
  refine runs_malloc.bind ((runs_failIf (by simp)).bind ((runs_mrtResolve hs hb).bind ?_))
  refine (runs_readBlock hs _).orThrow.bind ?_
  rw [hview]
  exact (runs_failIf (by simp [hgen])).bind (runs_pure _ _)

theorem runs_recordWrite (hs : v.sectorOk) (hb : v.Bound id) {rec : Record} {attrs : List Attr}
    (hfit : attrBufTotalLen attrs ≤ attrBufSize)
    (hacc : journalAccepts v.toMem (recordSize + attrBufTotalLen attrs) = true) :
    Runs (recordWrite id rec attrs) v () (v.putRecord (v.mrtEntry id).physicalBlock rec attrs) := by
  have hlog : Runs (journalLogWrite (v.mrtEntry id).physicalBlock (.record rec attrs)
      (recordSize + attrBufTotalLen attrs)) v ()
      (v.logEntry .write (v.mrtEntry id).physicalBlock (recordSize + attrBufTotalLen attrs) 0 (.record rec attrs)) :=
    runs_journalWriteEntry hs hacc _ _ _ _
  unfold recordWrite
  refine (runs_failIf (by omega)).bind (runs_malloc.bind (runs_malloc.bind ((runs_failIf (by simp)).bind ?_)))
  refine (runs_mrtResolve hs hb).bind ((runs_readBlock hs _).ignore.bind (hlog.bind ?_))
  have hs' : (v.logEntry .write (v.mrtEntry id).physicalBlock (recordSize + attrBufTotalLen attrs) 0
    (.record rec attrs)).sectorOk := hs
  exact (runs_writeBlock hs' _ _).orThrow

end

end SmkFs
end AmitX
