import AmitX.SmkFs.AllocSpec
/-!
# Mrt — the master record table (`mrt.c`)

A table of `mrt_capacity` slots over the blocks of the MRT; a record id is a slot, and slot 0 is never used.  A slot's
generation counts its occupants.  Every change of a slot is written in place and, in a transaction, logged; an entry
the journal refuses is written back.
-/
namespace AmitX
namespace SmkFs

open Prog Volume

def mrtEmpty : MrtEntry := ⟨uint64Max, 0, 0⟩

def MrtEntry.taken (e : MrtEntry) : MrtEntry := ⟨uint64Max, e.flags ||| mrtfAllocated, add32 e.generation 1⟩

def MrtEntry.updated (e : MrtEntry) (physicalBlock flags : Nat) : MrtEntry :=
  ⟨physicalBlock, e.flags ||| flags, e.generation⟩

def MrtEntry.freed (e : MrtEntry) : MrtEntry := ⟨uint64Max, 0, e.generation⟩

def Mem.mapMrtFree (f : Nat → Nat) (m : Mem) : Mem := { m with sb.mrtFreeCount := f m.sb.mrtFreeCount }

def mrtFormat (start length : Nat) : FsM Unit :=
  forRange (fun i => writeBlock (start + i) (.mrt fun _ => mrtEmpty)) 0 length

def Mem.initMrt (start length : Nat) (m : Mem) : Mem :=
  { m with sb.mrtStart := start, sb.mrtLength := length, sb.mrtCapacity := mul64 length entriesPerBlock }

def mrtInit (start length : Nat) : FsM Unit := modifyMem (Mem.initMrt start length)

/-- Put `entry` into slot `entryId` of the block read as `x`, and log it for the record; on a refusal put the old slot
back. -/
def mrtStoreEntry (block entryId recordId : Nat) (x : BlockData) (entry : MrtEntry) : FsM Unit := do
  writeBlock block (x.setMrtEntry entryId entry)
  let m ← getMem
  when (m.journalInTransaction = true) ((journalLogMrtUpdate recordId entry).elseDo
    (do
      (writeBlock block ((x.setMrtEntry entryId entry).setMrtEntry entryId (x.mrtEntries entryId))).ignore
      throw .journal)
    (fun _ => pure ()))

/-- The first slot of block `i` of the table, from `j` on among `n`, that is neither slot 0 nor allocated. -/
def mrtFindFree (entries : Nat → MrtEntry) (i : Nat) : Nat → Nat → Option Nat
  | _, 0 => none
  | j, n + 1 =>
    if i * entriesPerBlock + j = 0 then mrtFindFree entries i (j + 1) n
    else if (entries j).allocated then mrtFindFree entries i (j + 1) n
    else some j

/-- Allocate slot `j` of block `i`, read as `x`. -/
def mrtTakeEntry (sb : Superblock) (i j : Nat) (x : BlockData) : FsM (Nat × Nat) := do
  mrtStoreEntry (sb.mrtStart + i) j (i * entriesPerBlock + j) x (x.mrtEntries j).taken
  modifyMem (Mem.mapMrtFree (fun n => sub64 n 1))
  pure (i * entriesPerBlock + j, (x.mrtEntries j).taken.generation)

def mrtScanBlocks (sb : Superblock) : Nat → Nat → FsM (Nat × Nat)
  | _, 0 => throw .nospc
  | i, n + 1 => do
    let x ← readBlock (sb.mrtStart + i)
    match mrtFindFree x.mrtEntries i 0 entriesPerBlock with
    | some j => mrtTakeEntry sb i j x
    | none => mrtScanBlocks sb (i + 1) n

def mrtAllocEntry : FsM (Nat × Nat) := do
  let sb ← getSb
  mrtScanBlocks sb 0 sb.mrtLength

def mrtUpdateEntry (recordId newPhysicalBlock flags : Nat) : FsM Unit := do
  let sb ← getSb
  failIf (sb.mrtCapacity ≤ recordId) .inval
  let x ← readBlock (sb.mrtStart + recordId / entriesPerBlock)
  mrtStoreEntry (sb.mrtStart + recordId / entriesPerBlock) (recordId % entriesPerBlock) recordId x
    ((x.mrtEntries (recordId % entriesPerBlock)).updated newPhysicalBlock flags)

def mrtFreeEntry (recordId : Nat) : FsM Unit := do
  let sb ← getSb
  failIf (sb.mrtCapacity ≤ recordId) .inval
  let x ← readBlock (sb.mrtStart + recordId / entriesPerBlock)
  mrtStoreEntry (sb.mrtStart + recordId / entriesPerBlock) (recordId % entriesPerBlock) recordId x
    (x.mrtEntries (recordId % entriesPerBlock)).freed
  modifyMem (Mem.mapMrtFree (fun n => add64 n 1))

def mrtResolve (recordId : Nat) : FsM MrtEntry := do
  let sb ← getSb
  failIf (sb.mrtCapacity ≤ recordId) .inval
  let x ← readBlock (sb.mrtStart + recordId / entriesPerBlock)
  let entry := x.mrtEntries (recordId % entriesPerBlock)
  failIf (entry.allocated = false) .notfound
  failIf (entry.physicalBlock = 0 ∨ entry.physicalBlock = uint64Max) .notYetBound
  pure entry

/-! ## The table of a volume -/

namespace Volume

def mrtBlock (v : Volume) (id : Nat) : Nat := v.sb.mrtStart + id / entriesPerBlock

/-- The slot of record `id`. -/
def mrtEntry (v : Volume) (id : Nat) : MrtEntry := (v.view (v.mrtBlock id)).mrtEntries (id % entriesPerBlock)

def setMrtEntry (id : Nat) (e : MrtEntry) (v : Volume) : Volume :=
  v.write (v.mrtBlock id) ((v.view (v.mrtBlock id)).setMrtEntry (id % entriesPerBlock) e)

/-- The volume after a change of a slot is logged, which happens in a transaction only. -/
def logMrtUpdate (id : Nat) (e : MrtEntry) (v : Volume) : Volume :=
  if v.journalInTransaction then v.logEntry (.mrtUpdate e) 0 mrtEntrySize id .zero else v

theorem mrtSlot_injective {i j : Nat} (hd : i / entriesPerBlock = j / entriesPerBlock)
    (hm : i % entriesPerBlock = j % entriesPerBlock) : i = j := by
  rw [← Nat.div_add_mod i entriesPerBlock, ← Nat.div_add_mod j entriesPerBlock, hd, hm]

theorem mrtEntry_setMrtEntry (id : Nat) (e : MrtEntry) (v : Volume) :
    (v.setMrtEntry id e).mrtEntry = Function.update v.mrtEntry id e := by
  funext i
  unfold mrtEntry setMrtEntry mrtBlock
  simp only [write_view, write_toMem]
  by_cases hi : i = id
  · subst hi
    rw [Function.update_self, Function.update_self, BlockData.mrtEntries_setMrtEntry, Function.update_self]
  · rw [Function.update_of_ne hi]
    by_cases hb : v.sb.mrtStart + i / entriesPerBlock = v.sb.mrtStart + id / entriesPerBlock
    · rw [hb, Function.update_self, BlockData.mrtEntries_setMrtEntry, Function.update_of_ne]
      exact fun hm => hi (mrtSlot_injective (by omega) hm)
    · rw [Function.update_of_ne hb]

end Volume

/-- Block `b` belongs to the MRT. -/
def Layout.InMrt (l : Layout) (b : Nat) : Prop := l.mrtStart ≤ b ∧ b < l.mrtStart + l.mrtLength

theorem Layout.WF.inMrt {v : Volume} (h : v.sb.toLayout.WF) {id : Nat} (hid : id < v.sb.mrtCapacity) :
    v.sb.InMrt (v.mrtBlock id) := by
  rw [h.capacity] at hid
  exact ⟨Nat.le_add_right _ _, Nat.add_lt_add_left (Nat.div_lt_of_lt_mul (by rwa [Nat.mul_comm] at hid)) _⟩

theorem Layout.WF.mrt_not_inJournal {l : Layout} (h : l.WF) {b : Nat} (hb : l.InMrt b) : ¬l.InJournal b := by
  have := h.journal
  have := h.journalStart
  have := h.bitmap
  rintro (h0 | h0) <;> have := hb.1 <;> omega

def SameMrt (v v' : Volume) : Prop := ∀ id < v.sb.mrtCapacity, v'.mrtEntry id = v.mrtEntry id

theorem sameMrt_of_view {v v' : Volume} (hl : v.sb.toLayout.WF) (hlay : v'.sb.toLayout = v.sb.toLayout)
    (hview : ∀ b, ¬v.sb.InJournal b → v'.view b = v.view b) : SameMrt v v' := by
  intro id hid
  unfold mrtEntry mrtBlock
  rw [hlay]
  exact congrArg (fun x => x.mrtEntries (id % entriesPerBlock)) (hview _ (hl.mrt_not_inJournal (hl.inMrt hid)))

/-! ## What the operations do -/

section

variable {v : Volume} {id : Nat} {e : MrtEntry}

theorem logMrtUpdate_steps : JournalSteps v (v.logMrtUpdate id e) := by
  unfold Volume.logMrtUpdate
  split
  · exact journalSteps_logEntry v _ _ _ _ _
  · exact JournalSteps.refl v

theorem write_write (b : Nat) (x y : BlockData) : (v.write b x).write b y = v.write b y := by
  unfold Volume.write
  simp only [Function.update_idem]

theorem setMrtEntry_setMrtEntry (e' : MrtEntry) :
    (v.setMrtEntry id e).write (v.mrtBlock id)
      (((v.view (v.mrtBlock id)).setMrtEntry (id % entriesPerBlock) e).setMrtEntry (id % entriesPerBlock) e') =
        v.setMrtEntry id e' := by
  unfold Volume.setMrtEntry
  rw [write_write]
  congr 1
  unfold BlockData.setMrtEntry
  rw [BlockData.mrtEntries_mrt, Function.update_idem]

theorem not_faulty {m : Mem} (hl : m.sb.toLayout.WF) : ¬(False ∨ ¬m.sectorOk) := fun h =>
  h.elim (fun h => h) (fun h => h (sectorOk_of_wf hl))

/-- **Storing a slot**, on a disk without errors: it is stored and logged, or the journal refuses and the slot is as
before. -/
theorem fwp_mrtStoreEntry (H : Prop) (hl : v.sb.toLayout.WF) :
    fwp False H (mrtStoreEntry (v.mrtBlock id) (id % entriesPerBlock) id (v.view (v.mrtBlock id)) e)
      (fun _ v' => v' = (v.setMrtEntry id e).logMrtUpdate id e)
      (fun err v' => err = .journal ∧ v' = v.setMrtEntry id (v.mrtEntry id)) v := by
  have hset : v.write (v.mrtBlock id) ((v.view (v.mrtBlock id)).setMrtEntry (id % entriesPerBlock) e) =
      v.setMrtEntry id e := rfl
  unfold mrtStoreEntry
  refine wpAbs_bind (vwp_writeBlock (wpAbs_bind (vwp_getMem ?_)) (fun h => absurd h (not_faulty hl)))
  rw [hset]
  refine wpAbs_when (fun htxn => wpAbs_elseDo ?_) (fun htxn => ?_)
  · refine wpAbs_mono (fwp_journalWriteEntry False H _ (.mrtUpdate e) 0 mrtEntrySize id .zero) (fun _ v' h => ?_)
      (fun _ v' h => ?_)
    · refine wpAbs_pure ?_
      rw [h.2, Volume.logMrtUpdate, if_pos htxn]
    · have hv' : v' = v.setMrtEntry id e := by
        rcases h with ⟨_, h⟩ | ⟨_, h⟩ | ⟨h, _⟩
        · exact h
        · exact h
        · exact absurd h (not_faulty (m := (v.setMrtEntry id e).toMem) hl)
      subst hv'
      refine wpAbs_bind (wpAbs_ignore (vwp_writeBlock (wpAbs_throw ⟨rfl, ?_⟩)
        (fun h => absurd h (not_faulty (m := (v.setMrtEntry id e).toMem) hl))))
      exact setMrtEntry_setMrtEntry (v.mrtEntry id)
  · rw [Volume.logMrtUpdate, if_neg htxn]

theorem vwp_mrtStoreEntry (F : Prop) (v : Volume) (block entryId recordId : Nat) (x : BlockData) (e : MrtEntry) :
    vwp F (mrtStoreEntry block entryId recordId x e)
      (fun _ w => JournalSteps (v.write block (x.setMrtEntry entryId e)) w) (fun _ _ => True) v := by
  refine wpAbs_bind (vwp_writeBlock ?_ (fun _ => trivial))
  refine wpAbs_bind (vwp_getMem (wpAbs_ite (fun _ => ?_) (fun _ => wpAbs_pure (JournalSteps.refl _))))
  refine wpAbs_elseDo (wpAbs_mono (journalWriteEntry_steps _ _ _ _ _ _) (fun _ _ h => wpAbs_pure h) (fun _ _ _ => ?_))
  exact wpAbs_bind (wpAbs_ignore (vwp_writeBlock (wpAbs_throw trivial) (fun _ => wpAbs_throw trivial)))

theorem mrtFindFree_some {f : Nat → MrtEntry} {i : Nat} : ∀ {n j k : Nat}, mrtFindFree f i j n = some k →
    j ≤ k ∧ k < j + n ∧ i * entriesPerBlock + k ≠ 0 ∧ (f k).allocated = false ∧
      ∀ l, j ≤ l → l < k → i * entriesPerBlock + l = 0 ∨ (f l).allocated = true
  | 0, _, _, h => by simp [mrtFindFree] at h
  | n + 1, j, k, h => by
    rw [mrtFindFree] at h
    have hrest : (i * entriesPerBlock + j = 0 ∨ (f j).allocated = true) → mrtFindFree f i (j + 1) n = some k →
        j ≤ k ∧ k < j + (n + 1) ∧ i * entriesPerBlock + k ≠ 0 ∧ (f k).allocated = false ∧
          ∀ l, j ≤ l → l < k → i * entriesPerBlock + l = 0 ∨ (f l).allocated = true := by
      intro hj hk
      obtain ⟨h1, h2, h3, h4, h5⟩ := mrtFindFree_some hk
      refine ⟨by omega, by omega, h3, h4, fun l hl hlk => ?_⟩
      by_cases hlj : l = j
      · rwa [hlj]
      · exact h5 l (by omega) hlk
    split at h
    · rename_i h0
      exact hrest (Or.inl h0) h
    · rename_i h0
      split at h
      · rename_i ha
        exact hrest (Or.inr ha) h
      · rename_i ha
        simp only [Option.some.injEq] at h
        subst h
        exact ⟨Nat.le_refl _, by omega, h0, by simpa using ha, fun l hl hlj => by omega⟩

theorem mrtFindFree_none {f : Nat → MrtEntry} {i : Nat} : ∀ {n j : Nat}, mrtFindFree f i j n = none →
    ∀ l, j ≤ l → l < j + n → i * entriesPerBlock + l = 0 ∨ (f l).allocated = true
  | 0, _, _ => fun l hl hlj => by omega
  | n + 1, j, h => by
    rw [mrtFindFree] at h
    intro l hl hlj
    split at h
    · rename_i h0
      by_cases hlj' : l = j
      · exact Or.inl (hlj' ▸ h0)
      · exact mrtFindFree_none h l (by omega) (by omega)
    · split at h
      · rename_i ha
        by_cases hlj' : l = j
        · exact Or.inr (hlj' ▸ ha)
        · exact mrtFindFree_none h l (by omega) (by omega)
      · simp at h

def Volume.MrtTaken (v : Volume) (id : Nat) : Prop := id = 0 ∨ (v.mrtEntry id).allocated = true

/-- The volume after slot `id` was allocated. -/
def Volume.takeMrt (id : Nat) (v : Volume) : Volume :=
  ((v.setMrtEntry id (v.mrtEntry id).taken).logMrtUpdate id (v.mrtEntry id).taken).mapMem
    (Mem.mapMrtFree (fun n => sub64 n 1))

theorem slot_div (i : Nat) {j : Nat} (hj : j < entriesPerBlock) : (i * entriesPerBlock + j) / entriesPerBlock = i := by
  rw [Nat.add_comm, Nat.add_mul_div_right _ _ entriesPerBlock_pos, Nat.div_eq_of_lt hj, Nat.zero_add]

theorem slot_mod (i : Nat) {j : Nat} (hj : j < entriesPerBlock) : (i * entriesPerBlock + j) % entriesPerBlock = j := by
  rw [Nat.add_comm, Nat.add_mul_mod_self_right, Nat.mod_eq_of_lt hj]

theorem fwp_mrtTakeEntry (H : Prop) (hl : v.sb.toLayout.WF) {i j : Nat} (hj : j < entriesPerBlock)
    (hid : id = i * entriesPerBlock + j) :
    fwp False H (mrtTakeEntry v.sb i j (v.view (v.sb.mrtStart + i)))
      (fun r v' => r = (id, (v.mrtEntry id).taken.generation) ∧ v' = v.takeMrt id)
      (fun err v' => err = .journal ∧ ∃ id', v' = v.setMrtEntry id' (v.mrtEntry id')) v := by
  have hd : id / entriesPerBlock = i := by rw [hid, slot_div i hj]
  have hm : id % entriesPerBlock = j := by rw [hid, slot_mod i hj]
  have hb : v.sb.mrtStart + i = v.mrtBlock id := by rw [Volume.mrtBlock, hd]
  have he : (v.view (v.mrtBlock id)).mrtEntries j = v.mrtEntry id := by rw [Volume.mrtEntry, hm]
  unfold mrtTakeEntry
  rw [← hid, hb, he]
  have hs := @fwp_mrtStoreEntry v id (v.mrtEntry id).taken H hl
  rw [hm] at hs
  refine wpAbs_seq hs (fun _ v' h => ?_) (fun _ v' h => ⟨h.1, id, h.2⟩)
  subst h
  exact wpAbs_bind (vwp_modifyMem (wpAbs_pure ⟨rfl, rfl⟩))

theorem fwp_mrtScanBlocks (H : Prop) (hl : v.sb.toLayout.WF) : ∀ (n i : Nat),
    (∀ id < i * entriesPerBlock, v.MrtTaken id) →
    fwp False H (mrtScanBlocks v.sb i n)
      (fun r v' => ∃ id, id ≠ 0 ∧ id < (i + n) * entriesPerBlock ∧ (v.mrtEntry id).allocated = false ∧
        (∀ id' < id, v.MrtTaken id') ∧ r = (id, (v.mrtEntry id).taken.generation) ∧ v' = v.takeMrt id)
      (fun err v' => (err = .journal ∧ ∃ id', v' = v.setMrtEntry id' (v.mrtEntry id')) ∨
        (err = .nospc ∧ v' = v ∧ ∀ id < (i + n) * entriesPerBlock, v.MrtTaken id)) v
  | 0, i, hi => wpAbs_throw (Or.inr ⟨rfl, rfl, fun id h => hi id (by simpa using h)⟩)
  | n + 1, i, hi => by
    rw [mrtScanBlocks]
    refine wpAbs_bind (vwp_readBlock ?_ (fun h => absurd h (not_faulty hl)))
    have hslot : ∀ j < entriesPerBlock, (v.view (v.sb.mrtStart + i)).mrtEntries j =
        v.mrtEntry (i * entriesPerBlock + j) := fun j hj => by
      rw [Volume.mrtEntry, Volume.mrtBlock, slot_div i hj, slot_mod i hj]
    cases hfind : mrtFindFree (v.view (v.sb.mrtStart + i)).mrtEntries i 0 entriesPerBlock with
    | some j =>
      obtain ⟨_, hj, hne, hfree, hbefore⟩ := mrtFindFree_some hfind
      rw [Nat.zero_add] at hj
      refine wpAbs_mono (fwp_mrtTakeEntry H hl hj rfl) (fun r v' h => ?_) (fun _ _ h => Or.inl h)
      refine ⟨i * entriesPerBlock + j, hne, ?_, ?_, fun id' hid' => ?_, h⟩
      · rw [Nat.add_mul, Nat.add_mul]
        omega
      · rw [← hslot j hj]
        exact hfree
      · by_cases hlt : id' < i * entriesPerBlock
        · exact hi id' hlt
        · have hk : i * entriesPerBlock + (id' - i * entriesPerBlock) = id' := by omega
          have := hbefore (id' - i * entriesPerBlock) (Nat.zero_le _) (by omega)
          rw [hslot _ (by omega), hk] at this
          exact this
    | none =>
      have hnone := mrtFindFree_none hfind
      have ih := fwp_mrtScanBlocks H hl n (i + 1) (fun id' hid' => ?_)
      · rwa [show i + 1 + n = i + (n + 1) by omega] at ih
      by_cases hlt : id' < i * entriesPerBlock
      · exact hi id' hlt
      · have hk : i * entriesPerBlock + (id' - i * entriesPerBlock) = id' := by omega
        rw [Nat.add_mul, Nat.one_mul] at hid'
        have := hnone (id' - i * entriesPerBlock) (Nat.zero_le _) (by omega)
        rw [hslot _ (by omega), hk] at this
        exact this

/-- **`mrt_alloc_entry`**, on a disk without errors: it takes the first free slot, or the table is full, or the journal
refuses. -/
theorem fwp_mrtAllocEntry (H : Prop) (hl : v.sb.toLayout.WF) :
    fwp False H mrtAllocEntry
      (fun r v' => ∃ id, id ≠ 0 ∧ id < v.sb.mrtCapacity ∧ (v.mrtEntry id).allocated = false ∧
        (∀ id' < id, v.MrtTaken id') ∧ r = (id, (v.mrtEntry id).taken.generation) ∧ v' = v.takeMrt id)
      (fun err v' => (err = .journal ∧ ∃ id', v' = v.setMrtEntry id' (v.mrtEntry id')) ∨
        (err = .nospc ∧ v' = v ∧ ∀ id < v.sb.mrtCapacity, v.MrtTaken id)) v := by
  unfold mrtAllocEntry
  refine wpAbs_bind (vwp_getSb ?_)
  have h := fwp_mrtScanBlocks H hl v.sb.mrtLength 0 (by simp)
  rwa [Nat.zero_add, ← hl.capacity] at h

theorem fwp_mrtUpdateEntry (H : Prop) (hl : v.sb.toLayout.WF) (block flags : Nat) :
    fwp False H (mrtUpdateEntry id block flags)
      (fun _ v' => id < v.sb.mrtCapacity ∧
        v' = (v.setMrtEntry id ((v.mrtEntry id).updated block flags)).logMrtUpdate id
          ((v.mrtEntry id).updated block flags))
      (fun err v' => (err = .journal ∧ v' = v.setMrtEntry id (v.mrtEntry id)) ∨
        (err = .inval ∧ v' = v ∧ v.sb.mrtCapacity ≤ id)) v := by
  unfold mrtUpdateEntry
  refine wpAbs_bind (vwp_getSb (wpAbs_bind (wpAbs_failIf (fun h => Or.inr ⟨rfl, rfl, h⟩) (fun hlt => ?_))))
  refine wpAbs_bind (vwp_readBlock ?_ (fun h => absurd h (not_faulty hl)))
  exact wpAbs_mono (fwp_mrtStoreEntry H hl) (fun _ _ h => ⟨by omega, h⟩) (fun _ _ h => Or.inl h)

/-- The volume after slot `id` was freed. -/
def Volume.freeMrt (id : Nat) (v : Volume) : Volume :=
  ((v.setMrtEntry id (v.mrtEntry id).freed).logMrtUpdate id (v.mrtEntry id).freed).mapMem
    (Mem.mapMrtFree (fun n => add64 n 1))

theorem fwp_mrtFreeEntry (H : Prop) (hl : v.sb.toLayout.WF) :
    fwp False H (mrtFreeEntry id)
      (fun _ v' => id < v.sb.mrtCapacity ∧ v' = v.freeMrt id)
      (fun err v' => (err = .journal ∧ v' = v.setMrtEntry id (v.mrtEntry id)) ∨
        (err = .inval ∧ v' = v ∧ v.sb.mrtCapacity ≤ id)) v := by
  unfold mrtFreeEntry
  refine wpAbs_bind (vwp_getSb (wpAbs_bind (wpAbs_failIf (fun h => Or.inr ⟨rfl, rfl, h⟩) (fun hlt => ?_))))
  refine wpAbs_bind (vwp_readBlock ?_ (fun h => absurd h (not_faulty hl)))
  refine wpAbs_seq (fwp_mrtStoreEntry H hl) (fun _ v' h => ?_) (fun _ _ h => Or.inl h)
  subst h
  exact vwp_modifyMem ⟨by omega, rfl⟩

end

end SmkFs
end AmitX
