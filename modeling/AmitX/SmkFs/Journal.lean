import AmitX.SmkFs.Bitmap
/-!
# Journal — the redo journal (`journal.c`)

A ring of `journal_length` blocks.  Between `journal_start_transaction` and `journal_commit` every change of the
metadata is logged, one entry a block, and also made in place through the cache.  A commit appends a `COMMIT` entry,
flushes the cache and publishes the new head in the superblock; replay redoes the published entries up to the last
`COMMIT`.
-/
namespace AmitX
namespace SmkFs

open Prog

def journalNextPos (sb : Superblock) (pos : Nat) : Nat := if sb.journalLength ≤ pos + 1 then 0 else pos + 1

def journalIsFull (sb : Superblock) : Bool := journalNextPos sb sb.journalHead == sb.journalTail

def journalDataMax : Nat := blockSize - journalEntrySize

def journalAccepts (m : Mem) (dataLength : Nat) : Bool :=
  m.journalInTransaction && !journalIsFull m.sb && decide (dataLength ≤ journalDataMax)

def journalWriteEntry (operation : JournalOp) (targetBlock dataLength recordId : Nat) (payload : BlockData) :
    FsM Unit := do
  let m ← getMem
  failIf (m.journalInTransaction = false) .journal
  failIf (journalIsFull m.sb = true) .nospc
  failIf (journalDataMax < dataLength) .tooBig
  let buf ← malloc
  failIf (buf = false) .nomem
  modifyMem (fun m => { m with journalNextSequence := add64 m.journalNextSequence 1 })
  writeBlock (m.sb.journalStart + m.sb.journalHead)
    (.journal ⟨m.journalNextSequence, targetBlock, operation, dataLength, recordId⟩ payload)
  modifyMem (fun m => { m with sb.journalHead := journalNextPos m.sb m.sb.journalHead })

def journalPersistSuperblock : FsM Unit := do
  let sb ← getSb
  writeBlock 0 (.super sb)
  blockCacheFlush

def setInTransaction (b : Bool) : FsM Unit := modifyMem (fun m => { m with journalInTransaction := b })

def reclaimJournal : FsM Unit := modifyMem (fun m => { m with sb.journalTail := m.sb.journalHead })

def journalCheckpoint : FsM Unit := do
  let m ← getMem
  failIf (m.journalInTransaction = true) .journal
  blockCacheFlush
  reclaimJournal
  setInTransaction true
  let marker ← (journalWriteEntry .checkpoint 0 0 0 .zero).attempt
  setInTransaction false
  when (marker.isOk = true) (modifyMem (fun m => { m with
    sb.journalTail := m.sb.journalHead, sb.journalSequence := m.journalNextSequence }))
  journalPersistSuperblock

def journalStartTransaction : FsM Unit := do
  let m ← getMem
  failIf (m.journalInTransaction = true) .journal
  when (m.sb.journalHead ≠ m.sb.journalTail) (journalCheckpoint.orThrow .journal)
  let sb ← getSb
  when (journalIsFull sb = true) (do
    journalCheckpoint.orThrow .nospc
    let sb ← getSb
    failIf (journalIsFull sb = true) .nospc)
  setInTransaction true

/-- Log the new image of a block; `old_data` is ignored. -/
def journalLogWrite (block : Nat) (newData : BlockData) (len : Nat) : FsM Unit :=
  journalWriteEntry .write block len 0 newData

def journalLogAlloc (block count : Nat) : FsM Unit := journalWriteEntry .alloc block count 0 .zero

def journalLogFree (block count : Nat) : FsM Unit := journalWriteEntry .free block count 0 .zero

def journalLogMrtUpdate (recordId : Nat) (entry : MrtEntry) : FsM Unit :=
  journalWriteEntry (.mrtUpdate entry) 0 mrtEntrySize recordId .zero

def journalCommit : FsM Unit := do
  let m ← getMem
  failIf (m.journalInTransaction = false) .journal
  journalWriteEntry .commit 0 0 0 .zero
  modifyMem (fun m => { m with sb.journalSequence := m.journalNextSequence, journalInTransaction := false })
  blockCacheFlush
  journalPersistSuperblock
  reclaimJournal
  journalPersistSuperblock

def journalAbort : FsM Unit := do
  let m ← getMem
  when (m.journalInTransaction = true) (setInTransaction false)

/-! ## Replay -/

def journalRedoEntry (ent : JournalEntry) (payload : BlockData) : FsM Unit := do
  match ent.operation with
  | .write => if ent.dataLength = 0 then pure () else writeBlock ent.targetBlock payload
  | .alloc => forRange (fun i => (bitmapSet (add64 ent.targetBlock i)).ignore) 0 ent.dataLength
  | .free => forRange (fun i => (bitmapClear (add64 ent.targetBlock i)).ignore) 0 ent.dataLength
  | .commit => pure ()
  | .checkpoint => pure ()
  | .mrtUpdate entry => do
    let sb ← getSb
    failIf (ent.dataLength ≠ mrtEntrySize) .corrupt
    failIf (sb.mrtCapacity ≤ ent.recordId) .corrupt
    let x ← readBlock (sb.mrtStart + ent.recordId / entriesPerBlock)
    writeBlock (sb.mrtStart + ent.recordId / entriesPerBlock) (x.setMrtEntry (ent.recordId % entriesPerBlock) entry)
  | .unknown _ => throw .corrupt

def journalReadEntry (pos : Nat) : FsM (JournalEntry × BlockData) := do
  let sb ← getSb
  let x ← readBlock (add64 sb.journalStart pos)
  match x with
  | .journal ent payload => pure (ent, payload)
  | _ => throw .corrupt

/-- Pass 1, from `pos` to the head: the highest sequence of a `COMMIT`, if there is one. -/
def journalFindCommit : Nat → Nat → Option Nat → FsM (Option Nat)
  | 0, _, _ => throw .diverge
  | n + 1, pos, last => do
    let sb ← getSb
    if pos = sb.journalHead then pure last
    else do
      let (ent, _) ← journalReadEntry pos
      journalFindCommit n (journalNextPos sb pos)
        (if ent.operation = .commit ∧ last.getD 0 ≤ ent.sequence then some ent.sequence else last)

/-- Pass 2, from `pos` to the head: redo every entry up to the sequence `last`. -/
def journalRedo (last : Nat) : Nat → Nat → FsM Unit
  | 0, _ => throw .diverge
  | n + 1, pos => do
    let sb ← getSb
    if pos = sb.journalHead then pure ()
    else do
      let (ent, payload) ← journalReadEntry pos
      when (ent.sequence ≤ last) (journalRedoEntry ent payload)
      journalRedo last n (journalNextPos sb pos)

/-- Recovery, with at most `n` turns of each pass. -/
def journalReplayWithin (n : Nat) : FsM Unit := do
  let sb ← getSb
  if sb.journalHead = sb.journalTail then
    modifyMem (fun m => { m with journalNextSequence := m.sb.journalSequence })
  else do
    let last ← journalFindCommit n sb.journalTail none
    (match last with
      | none => pure ()
      | some last => journalRedo last n sb.journalTail)
    modifyMem (fun m => { m with
      sb.journalTail := m.sb.journalHead, journalNextSequence := m.sb.journalSequence })
    blockCacheFlush.ignore

/-- Recovery.  A pass that meets the head visits each position of the ring at most once before. -/
def journalReplay : FsM Unit := do
  let sb ← getSb
  journalReplayWithin (sb.journalLength + 1)

/-! ## What logging does to a volume -/

namespace Volume

def bumpSequence (v : Volume) : Volume :=
  v.mapMem (fun m => { m with journalNextSequence := add64 m.journalNextSequence 1 })

def advanceHead (v : Volume) : Volume :=
  v.mapMem (fun m => { m with sb.journalHead := journalNextPos m.sb m.sb.journalHead })

def logEntry (operation : JournalOp) (targetBlock dataLength recordId : Nat) (payload : BlockData) (v : Volume) :
    Volume :=
  (v.bumpSequence.write (v.sb.journalStart + v.sb.journalHead)
    (.journal ⟨v.journalNextSequence, targetBlock, operation, dataLength, recordId⟩ payload)).advanceHead

end Volume

section

variable (v : Volume) (op : JournalOp) (target len rid : Nat) (payload : BlockData)

@[simp] theorem logEntry_layout : (v.logEntry op target len rid payload).sb.toLayout = v.sb.toLayout := rfl
@[simp] theorem logEntry_counters : (v.logEntry op target len rid payload).sb.toCounters = v.sb.toCounters := rfl
@[simp] theorem logEntry_regions : (v.logEntry op target len rid payload).regions = v.regions := rfl
@[simp] theorem logEntry_regionCount : (v.logEntry op target len rid payload).regionCount = v.regionCount := rfl

end

/-- **An entry is logged, or refused.**  It is refused by the checks, or because `malloc` or the write failed; then at
most the next sequence number has moved. -/
theorem fwp_journalWriteEntry (D H : Prop) (v : Volume) (op : JournalOp) (target len rid : Nat) (payload : BlockData) :
    fwp D H (journalWriteEntry op target len rid payload)
      (fun _ v' => journalAccepts v.toMem len = true ∧ v' = v.logEntry op target len rid payload)
      (fun _ v' => (journalAccepts v.toMem len = false ∧ v' = v) ∨ (H ∧ v' = v) ∨
        (D ∨ ¬v.sectorOk) ∧ v' = v.bumpSequence) v := by
  unfold journalWriteEntry
  refine wpAbs_bind (vwp_getMem (wpAbs_bind (wpAbs_failIf (fun h => ?_) (fun htxn => ?_))))
  · exact Or.inl ⟨by simp [journalAccepts, h], rfl⟩
  refine wpAbs_bind (wpAbs_failIf (fun h => ?_) (fun hfull => ?_))
  · exact Or.inl ⟨by simp [journalAccepts, h], rfl⟩
  refine wpAbs_bind (wpAbs_failIf (fun h => ?_) (fun hlen => ?_))
  · exact Or.inl ⟨by simp [journalAccepts, Nat.not_le.2 h], rfl⟩
  refine wpAbs_bind (vwp_malloc ?_ (fun hF => ?_))
  · refine wpAbs_bind (wpAbs_failIf (fun h => by simp at h) (fun _ => ?_))
    refine wpAbs_bind (vwp_modifyMem (wpAbs_bind (vwp_writeBlock (vwp_modifyMem ⟨?_, rfl⟩) (fun hf => ?_))))
    · simp only [journalAccepts, Bool.not_eq_false, Bool.not_eq_true, Nat.not_lt] at htxn hfull hlen ⊢
      simp [htxn, hfull, hlen]
    · exact Or.inr (Or.inr ⟨hf, rfl⟩)
  · exact wpAbs_bind (wpAbs_failIf (fun _ => Or.inr (Or.inl ⟨hF, rfl⟩)) (fun h => absurd rfl h))

theorem vwp_journalWriteEntry (F : Prop) (v : Volume) (op : JournalOp) (target len rid : Nat) (payload : BlockData) :
    vwp F (journalWriteEntry op target len rid payload)
      (fun _ v' => journalAccepts v.toMem len = true ∧ v' = v.logEntry op target len rid payload)
      (fun _ v' => (journalAccepts v.toMem len = false ∧ v' = v) ∨
        (F ∨ ¬v.sectorOk) ∧ (v' = v ∨ v' = v.bumpSequence)) v :=
  wpAbs_mono (fwp_journalWriteEntry F F v op target len rid payload) (fun _ _ h => h) (fun _ _ h => by
    rcases h with h | ⟨hF, h⟩ | ⟨hF, h⟩
    · exact Or.inl h
    · exact Or.inr ⟨Or.inl hF, Or.inl h⟩
    · exact Or.inr ⟨hF, Or.inr h⟩)

/-! ## The journal's own blocks and fields -/

/-- Block `b` belongs to the journal: the superblock, or a block of the ring. -/
def Layout.InJournal (l : Layout) (b : Nat) : Prop := b = 0 ∨ l.journalStart ≤ b ∧ b < l.journalStart + l.journalLength

/-- Only what the journal owns has changed: its blocks, its window in the superblock and its fields of the memory. -/
structure JournalStep (v v' : Volume) : Prop where
  view : ∀ b, ¬v.sb.InJournal b → v'.view b = v.view b
  layout : v'.sb.toLayout = v.sb.toLayout
  counters : v'.sb.toCounters = v.sb.toCounters
  regions : v'.regions = v.regions
  regionCount : v'.regionCount = v.regionCount
  allocHintRegion : v'.allocHintRegion = v.allocHintRegion
  mounted : v'.mounted = v.mounted
  head : v'.sb.journalHead < v'.sb.journalLength

def Volume.RingOk (v : Volume) : Prop := v.sb.journalHead < v.sb.journalLength

def JournalSteps (v v' : Volume) : Prop := v.RingOk → JournalStep v v'

theorem JournalSteps.refl (v : Volume) : JournalSteps v v := fun h =>
  ⟨fun _ _ => rfl, rfl, rfl, rfl, rfl, rfl, rfl, h⟩

theorem JournalSteps.trans (v v' v'' : Volume) (h : JournalSteps v v') (h' : JournalSteps v' v'') :
    JournalSteps v v'' := by
  intro hr
  have h1 := h hr
  have h2 := h' h1.head
  refine ⟨fun b hb => ?_, h2.layout.trans h1.layout, h2.counters.trans h1.counters, h2.regions.trans h1.regions,
    h2.regionCount.trans h1.regionCount, h2.allocHintRegion.trans h1.allocHintRegion, h2.mounted.trans h1.mounted,
    h2.head⟩
  rw [h2.view b (by rw [h1.layout]; exact hb), h1.view b hb]

theorem journalSteps_mapMem {v : Volume} {f : Mem → Mem} (hl : (f v.toMem).sb.toLayout = v.sb.toLayout)
    (hc : (f v.toMem).sb.toCounters = v.sb.toCounters) (hr : (f v.toMem).regions = v.regions)
    (hn : (f v.toMem).regionCount = v.regionCount) (ha : (f v.toMem).allocHintRegion = v.allocHintRegion)
    (hm : (f v.toMem).mounted = v.mounted)
    (hh : v.sb.journalHead < v.sb.journalLength → (f v.toMem).sb.journalHead < v.sb.journalLength) :
    JournalSteps v (v.mapMem f) := fun h =>
  ⟨fun _ _ => rfl, hl, hc, hr, hn, ha, hm, by
    rw [Volume.mapMem_toMem, hl]
    exact hh h⟩

theorem journalNextPos_lt {sb : Superblock} {pos : Nat} (h : pos < sb.journalLength) :
    journalNextPos sb pos < sb.journalLength := by
  unfold journalNextPos
  split <;> omega

theorem journalSteps_logEntry (v : Volume) (op : JournalOp) (target len rid : Nat) (payload : BlockData) :
    JournalSteps v (v.logEntry op target len rid payload) := by
  intro h
  refine ⟨fun b hb => ?_, rfl, rfl, rfl, rfl, rfl, rfl, journalNextPos_lt h⟩
  refine Function.update_of_ne (fun hbe => hb (Or.inr ?_)) _ _
  have : v.sb.journalHead < v.sb.journalLength := h
  omega

section

variable {D H : Prop}

theorem journalWriteEntry_steps (op : JournalOp) (target len rid : Nat) (payload : BlockData) :
    AbsKeeps (faultView D H) JournalSteps (journalWriteEntry op target len rid payload) := fun v =>
  wpAbs_mono (fwp_journalWriteEntry D H v op target len rid payload)
    (fun _ v' h => h.2 ▸ journalSteps_logEntry v op target len rid payload) (fun _ v' h => by
      rcases h with ⟨_, rfl⟩ | ⟨_, rfl⟩ | ⟨_, rfl⟩
      · exact JournalSteps.refl _
      · exact JournalSteps.refl _
      · exact journalSteps_mapMem rfl rfl rfl rfl rfl rfl id)

theorem blockCacheFlush_steps : AbsKeeps (faultView D H) JournalSteps blockCacheFlush := fun v =>
  vwp_blockCacheFlush (JournalSteps.refl v) (fun _ => JournalSteps.refl v)

theorem journalPersistSuperblock_steps : AbsKeeps (faultView D H) JournalSteps journalPersistSuperblock := fun v => by
  unfold journalPersistSuperblock
  refine wpAbs_bind (vwp_getSb (wpAbs_bind (vwp_writeBlock ?_ (fun _ => JournalSteps.refl v))))
  have : JournalSteps v (v.write 0 (.super v.sb)) := fun h =>
    ⟨fun b hb => Function.update_of_ne (fun h0 => hb (Or.inl h0)) _ _, rfl, rfl, rfl, rfl, rfl, rfl, h⟩
  exact vwp_blockCacheFlush this (fun _ => this)

theorem setInTransaction_steps (b : Bool) : AbsKeeps (faultView D H) JournalSteps (setInTransaction b) := fun _ =>
  vwp_modifyMem (journalSteps_mapMem rfl rfl rfl rfl rfl rfl id)

theorem reclaimJournal_steps : AbsKeeps (faultView D H) JournalSteps reclaimJournal := fun _ =>
  vwp_modifyMem (journalSteps_mapMem rfl rfl rfl rfl rfl rfl id)

theorem getMem_bind_steps {α : Type} {f : Mem → FsM α} (h : ∀ m, AbsKeeps (faultView D H) JournalSteps (f m)) :
    AbsKeeps (faultView D H) JournalSteps (getMem >>= f) := fun v => wpAbs_bind (vwp_getMem (h _ v))

theorem getSb_bind_steps {α : Type} {f : Superblock → FsM α} (h : ∀ sb, AbsKeeps (faultView D H) JournalSteps (f sb)) :
    AbsKeeps (faultView D H) JournalSteps (getSb >>= f) := fun v => wpAbs_bind (vwp_getSb (h _ v))

theorem journalCheckpoint_steps : AbsKeeps (faultView D H) JournalSteps journalCheckpoint := by
  unfold journalCheckpoint
  exact getMem_bind_steps (fun m => AbsKeeps.bind JournalSteps.trans (AbsKeeps.failIf JournalSteps.refl _ _)
    (fun _ => AbsKeeps.bind JournalSteps.trans blockCacheFlush_steps
    (fun _ => AbsKeeps.bind JournalSteps.trans reclaimJournal_steps
    (fun _ => AbsKeeps.bind JournalSteps.trans (setInTransaction_steps true)
    (fun _ => AbsKeeps.bind JournalSteps.trans (AbsKeeps.attempt (journalWriteEntry_steps _ _ _ _ _))
    (fun marker => AbsKeeps.bind JournalSteps.trans (setInTransaction_steps false)
    (fun _ => AbsKeeps.bind JournalSteps.trans (AbsKeeps.when JournalSteps.refl
      (fun v => vwp_modifyMem (journalSteps_mapMem rfl rfl rfl rfl rfl rfl id)))
    (fun _ => journalPersistSuperblock_steps))))))))

theorem journalStartTransaction_steps : AbsKeeps (faultView D H) JournalSteps journalStartTransaction := by
  unfold journalStartTransaction
  refine getMem_bind_steps (fun m => AbsKeeps.bind JournalSteps.trans (AbsKeeps.failIf JournalSteps.refl _ _)
    (fun _ => AbsKeeps.bind JournalSteps.trans
      (AbsKeeps.when JournalSteps.refl (AbsKeeps.orThrow journalCheckpoint_steps _))
    (fun _ => getSb_bind_steps (fun sb => AbsKeeps.bind JournalSteps.trans
      (AbsKeeps.when JournalSteps.refl ?_) (fun _ => setInTransaction_steps true)))))
  exact AbsKeeps.bind JournalSteps.trans (AbsKeeps.orThrow journalCheckpoint_steps _)
    (fun _ => getSb_bind_steps (fun sb => AbsKeeps.failIf JournalSteps.refl _ _))

theorem journalCommit_steps : AbsKeeps (faultView D H) JournalSteps journalCommit := by
  unfold journalCommit
  exact getMem_bind_steps (fun m => AbsKeeps.bind JournalSteps.trans (AbsKeeps.failIf JournalSteps.refl _ _)
    (fun _ => AbsKeeps.bind JournalSteps.trans (journalWriteEntry_steps _ _ _ _ _)
    (fun _ => AbsKeeps.bind JournalSteps.trans
      (fun v => vwp_modifyMem (journalSteps_mapMem rfl rfl rfl rfl rfl rfl id))
    (fun _ => AbsKeeps.bind JournalSteps.trans blockCacheFlush_steps
    (fun _ => AbsKeeps.bind JournalSteps.trans journalPersistSuperblock_steps
    (fun _ => AbsKeeps.bind JournalSteps.trans reclaimJournal_steps (fun _ => journalPersistSuperblock_steps)))))))

theorem journalAbort_steps : AbsKeeps (faultView D H) JournalSteps journalAbort := by
  unfold journalAbort
  exact getMem_bind_steps (fun m => AbsKeeps.when JournalSteps.refl (setInTransaction_steps false))

end

end SmkFs
end AmitX
