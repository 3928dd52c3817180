import AmitX.SmkFs.Record
import AmitX.SmkFs.TreeKeep
/-!
# BlockInv — invariants of what the blocks hold

An invariant that speaks of each block alone: block `b` holds something that satisfies `φ b`.  The journal, the bitmap and
the table write blocks of their own kinds, so that an invariant which allows those is kept by them whatever fails and
wherever the blocks lie; what is left to look at are the records, the nodes and the data that a call writes.
-/
namespace AmitX
namespace SmkFs

open Prog

/-- Each block holds what `φ` allows, on a volume of a layout. -/
def Volume.Meets (L : Layout) (φ : Nat → BlockData → Prop) (v : Volume) : Prop :=
  v.sb.toLayout = L ∧ ∀ b, φ b (v.view b)

/-- However the program ends, whatever fails in it, the blocks hold what `φ` allows; what it returns satisfies `Q`. -/
abbrev KeepsBlocks {α : Type} (L : Layout) (φ : Nat → BlockData → Prop) (m : FsM α) (Q : α → Prop) : Prop :=
  Preserves (faultView True True) (Volume.Meets L φ) m Q

/-- A block of the journal, the superblock, a bitmap block and a node are allowed everywhere. -/
structure AllowsSystem (φ : Nat → BlockData → Prop) : Prop where
  journal : ∀ b ent payload, φ b (.journal ent payload)
  super : ∀ b sb, φ b (.super sb)
  bitmap : ∀ b f, φ b (.bitmap f)
  node : ∀ b node, φ b (.node node)

/-- The slot of a record as some allowed block of the table has it, bound to a block. -/
def SlotAllowed (L : Layout) (φ : Nat → BlockData → Prop) (id : Nat) (e : MrtEntry) : Prop :=
  ∃ x, φ (L.mrtStart + id / entriesPerBlock) x ∧ e = x.mrtEntries (id % entriesPerBlock) ∧ e.allocated = true ∧
    e.physicalBlock ≠ 0 ∧ e.physicalBlock ≠ uint64Max ∧ id < L.mrtCapacity

/-- A slot that is allowed may become `f` of what it is, and go back to it. -/
def SlotMay (L : Layout) (φ : Nat → BlockData → Prop) (id : Nat) (f : MrtEntry → MrtEntry) : Prop :=
  ∀ x, φ (L.mrtStart + id / entriesPerBlock) x →
    φ (L.mrtStart + id / entriesPerBlock)
      (x.setMrtEntry (id % entriesPerBlock) (f (x.mrtEntries (id % entriesPerBlock)))) ∧
    φ (L.mrtStart + id / entriesPerBlock)
      ((x.setMrtEntry (id % entriesPerBlock) (f (x.mrtEntries (id % entriesPerBlock)))).setMrtEntry
        (id % entriesPerBlock) (x.mrtEntries (id % entriesPerBlock)))

section

variable {α : Type} {L : Layout} {φ : Nat → BlockData → Prop}

/-! ## The primitives -/

theorem keeps_malloc : KeepsBlocks L φ malloc (fun _ => True) := fun _ hv =>
  vwp_malloc ⟨trivial, hv⟩ (fun _ => ⟨trivial, hv⟩)

theorem keeps_getMem : KeepsBlocks L φ getMem (fun m => m.sb.toLayout = L) := fun _ hv => vwp_getMem ⟨hv.1, hv⟩

theorem keeps_getSb : KeepsBlocks L φ getSb (fun sb => sb.toLayout = L) := fun _ hv => vwp_getSb ⟨hv.1, hv⟩

theorem keeps_modifyMem {f : Mem → Mem} (h : ∀ m, (f m).sb.toLayout = m.sb.toLayout) :
    KeepsBlocks L φ (modifyMem f) (fun _ => True) := fun v hv =>
  vwp_modifyMem ⟨trivial, (h v.toMem).trans hv.1, hv.2⟩

theorem keeps_readBlock (b : Nat) : KeepsBlocks L φ (readBlock b) (φ b) := fun _ hv =>
  vwp_readBlock ⟨hv.2 b, hv⟩ (fun _ => hv)

theorem keeps_writeBlock {b : Nat} {x : BlockData} (h : φ b x) : KeepsBlocks L φ (writeBlock b x) (fun _ => True) :=
  fun v hv => vwp_writeBlock ⟨trivial, hv.1, fun c => by
    by_cases hc : c = b
    · subst hc
      rw [Volume.write_view, Function.update_self]
      exact h
    · rw [Volume.write_view, Function.update_of_ne hc]
      exact hv.2 c⟩ (fun _ => hv)

theorem keeps_blockCacheFlush : KeepsBlocks L φ blockCacheFlush (fun _ => True) := fun _ hv =>
  vwp_blockCacheFlush ⟨trivial, hv⟩ (fun _ => hv)

/-! ## The journal -/

section System

variable (hφ : AllowsSystem φ)

include hφ

theorem keeps_journalWriteEntry (op : JournalOp) (target len rid : Nat) (payload : BlockData) :
    KeepsBlocks L φ (journalWriteEntry op target len rid payload) (fun _ => True) :=
  keeps_getMem.bind (fun _ _ => (preserves_failIf _ _).bind (fun _ _ => (preserves_failIf _ _).bind (fun _ _ =>
    (preserves_failIf _ _).bind (fun _ _ => keeps_malloc.bind (fun _ _ => (preserves_failIf _ _).bind (fun _ _ =>
    (keeps_modifyMem (fun _ => by rfl)).bind (fun _ _ => (keeps_writeBlock (hφ.journal _ _ _)).bind (fun _ _ =>
    keeps_modifyMem (fun _ => by rfl)))))))))

theorem keeps_journalPersistSuperblock : KeepsBlocks L φ journalPersistSuperblock (fun _ => True) :=
  keeps_getSb.bind (fun _ _ => (keeps_writeBlock (hφ.super _ _)).bind (fun _ _ => keeps_blockCacheFlush))

theorem keeps_journalCheckpoint : KeepsBlocks L φ journalCheckpoint (fun _ => True) :=
  keeps_getMem.bind (fun _ _ => (preserves_failIf _ _).bind (fun _ _ => keeps_blockCacheFlush.bind (fun _ _ =>
    (keeps_modifyMem (fun _ => by rfl)).bind (fun _ _ => (keeps_modifyMem (fun _ => by rfl)).bind (fun _ _ =>
    (keeps_journalWriteEntry hφ _ _ _ _ _).attempt.bind (fun _ _ => (keeps_modifyMem (fun _ => by rfl)).bind (fun _ _ =>
    (Preserves.when (keeps_modifyMem (fun _ => by rfl))).bind (fun _ _ => keeps_journalPersistSuperblock hφ))))))))

theorem keeps_journalStartTransaction : KeepsBlocks L φ journalStartTransaction (fun _ => True) :=
  keeps_getMem.bind (fun _ _ => (preserves_failIf _ _).bind (fun _ _ =>
    (Preserves.when ((keeps_journalCheckpoint hφ).orThrow _)).bind (fun _ _ => keeps_getSb.bind (fun _ _ =>
    (Preserves.when (((keeps_journalCheckpoint hφ).orThrow _).bind (fun _ _ => keeps_getSb.bind (fun _ _ =>
      (preserves_failIf _ _).any)))).bind (fun _ _ => keeps_modifyMem (fun _ => by rfl))))))

theorem keeps_journalCommit : KeepsBlocks L φ journalCommit (fun _ => True) :=
  keeps_getMem.bind (fun _ _ => (preserves_failIf _ _).bind (fun _ _ =>
    (keeps_journalWriteEntry hφ _ _ _ _ _).bind (fun _ _ => (keeps_modifyMem (fun _ => by rfl)).bind (fun _ _ =>
    keeps_blockCacheFlush.bind (fun _ _ => (keeps_journalPersistSuperblock hφ).bind (fun _ _ =>
    (keeps_modifyMem (fun _ => by rfl)).bind (fun _ _ => keeps_journalPersistSuperblock hφ)))))))

omit hφ in
theorem keeps_journalAbort : KeepsBlocks L φ journalAbort (fun _ => True) :=
  keeps_getMem.bind (fun _ _ => Preserves.when (keeps_modifyMem (fun _ => by rfl)))

/-! ## The bitmap -/

theorem keeps_bitmapSet (block : Nat) : KeepsBlocks L φ (bitmapSet block) (fun _ => True) := by
  refine keeps_getSb.bind (fun sb _ => (preserves_failIf _ _).bind (fun _ _ => keeps_malloc.bind (fun _ _ =>
    (preserves_failIf _ _).bind (fun _ _ => (keeps_readBlock _).bind (fun x _ => ?_)))))
  refine (keeps_modifyMem (fun m => ?_)).bind (fun _ _ => keeps_writeBlock (hφ.bitmap _ _))
  split
  · rfl
  · exact countTaken_layout _ m

theorem keeps_bitmapClear (block : Nat) : KeepsBlocks L φ (bitmapClear block) (fun _ => True) := by
  refine keeps_getSb.bind (fun sb _ => (preserves_failIf _ _).bind (fun _ _ => keeps_malloc.bind (fun _ _ =>
    (preserves_failIf _ _).bind (fun _ _ => (keeps_readBlock _).bind (fun x _ => ?_)))))
  refine (keeps_modifyMem (fun m => ?_)).bind (fun _ _ => keeps_writeBlock (hφ.bitmap _ _))
  split
  · exact countFreed_layout _ m
  · rfl

omit hφ in
theorem keeps_mapFreeBlocks (f : Nat → Nat) : KeepsBlocks L φ (modifyMem (Mem.mapFreeBlocks f)) (fun _ => True) :=
  keeps_modifyMem (mapFreeBlocks_layout f)

omit hφ in
theorem keeps_mapRegion (r : Nat) (f : Nat → Nat) : KeepsBlocks L φ (modifyMem (Mem.mapRegion r f)) (fun _ => True) :=
  keeps_modifyMem (fun _ => by rw [mapRegion_sb])

theorem keeps_bitmapLogAlloc (block count : Nat) : KeepsBlocks L φ (bitmapLogAlloc block count) (fun b => b = 0 ∨ b = block) :=
  (keeps_mapFreeBlocks _).bind (fun _ _ => (keeps_journalWriteEntry hφ _ _ _ _ _).elseDo
    ((Preserves.forRange (fun _ => (keeps_bitmapClear hφ _).ignore) _ _).bind (fun _ _ => preserves_pure (Or.inl rfl)))
    (fun _ _ => preserves_pure (Or.inr rfl)))

omit hφ in
theorem setRun_cases (x : BlockData) (bit n : Nat) : x.setRun bit n = x ∨ ∃ f, x.setRun bit n = .bitmap f := by
  cases n with
  | zero => exact Or.inl rfl
  | succ n => exact Or.inr ⟨_, rfl⟩

theorem keeps_bitmapTakeRun {sb : Superblock} (hsb : sb.toLayout = L) (region count : Nat) {x : BlockData}
    (hx : φ (sb.bitmapBlock (region * regionBlocks)) x) : ∀ found : Nat ⊕ (Nat × Nat),
    KeepsBlocks L φ (bitmapTakeRun sb region count x found) (fun b => b = 0 ∨ L.dataStart ≤ b)
  | .inr _ => preserves_pure (Or.inl rfl)
  | .inl runStart => by
    have hrun : φ (sb.bitmapBlock (region * regionBlocks)) (x.setRun runStart count) := by
      rcases setRun_cases x runStart count with h | ⟨f, h⟩
      · rw [h]
        exact hx
      · rw [h]
        exact hφ.bitmap _ f
    exact (keeps_writeBlock hrun).elseDo (preserves_pure (Or.inl rfl)) (fun _ _ =>
      (keeps_bitmapLogAlloc hφ _ _).bind (fun b hb => (keeps_mapRegion _ _).bind (fun _ _ =>
        preserves_pure (hb.imp_right (fun h => by rw [h, ← hsb]; exact Nat.le_add_right _ _)))))

theorem keeps_bitmapAllocInRegion (region count : Nat) :
    KeepsBlocks L φ (bitmapAllocInRegion region count) (fun b => b = 0 ∨ L.dataStart ≤ b) :=
  keeps_getMem.bind (fun _ hm => Preserves.ite (fun _ => preserves_pure (Or.inl rfl)) (fun _ =>
    Preserves.ite (fun _ => preserves_pure (Or.inl rfl)) (fun _ => keeps_malloc.bind (fun _ _ =>
    Preserves.ite (fun _ => preserves_pure (Or.inl rfl)) (fun _ => (keeps_readBlock _).elseDo (preserves_pure (Or.inl rfl))
      (fun _ hx => keeps_bitmapTakeRun hφ hm region count hx _))))))

omit hφ in
theorem keeps_scanRunLinear (sb : Superblock) (count : Nat) : ∀ (n bb : Nat) (run : Nat × Nat),
    KeepsBlocks L φ (scanRunLinear sb count bb n run) (fun _ => True)
  | 0, _, _ => preserves_pure trivial
  | n + 1, bb, run => by
    rw [scanRunLinear]
    refine (keeps_readBlock _).bind (fun x _ => ?_)
    cases scanRun (fun bit => x.bits (bit % bitsPerBlock)) count (min bitsPerBlock (sb.dataBlocks - bb * bitsPerBlock))
      (bb * bitsPerBlock) run with
    | inl runStart => exact preserves_pure trivial
    | inr run => exact keeps_scanRunLinear sb count n (bb + 1) run

theorem keeps_bitmapMark (sb : Superblock) (idx : Nat) : KeepsBlocks L φ (bitmapMark sb idx) (fun _ => True) :=
  (keeps_readBlock _).bind (fun _ _ => keeps_writeBlock (hφ.bitmap _ _))

theorem keeps_bitmapTakeLinear {sb : Superblock} (hsb : sb.toLayout = L) (count : Nat) : ∀ found : Option Nat,
    KeepsBlocks L φ (bitmapTakeLinear sb count found) (fun b => b = 0 ∨ L.dataStart ≤ b)
  | none => preserves_pure (Or.inl rfl)
  | some _ => (Preserves.forRange (fun _ => keeps_bitmapMark hφ sb _) _ _).elseDo (preserves_pure (Or.inl rfl))
      (fun _ _ => (keeps_bitmapLogAlloc hφ _ _).bind (fun _ hb =>
        (Preserves.forRange (fun _ => keeps_mapRegion _ _) _ _).bind (fun _ _ =>
          preserves_pure (hb.imp_right (fun h => by rw [h, ← hsb]; exact Nat.le_add_right _ _)))))

theorem keeps_bitmapAllocRangeLinear (count : Nat) :
    KeepsBlocks L φ (bitmapAllocRangeLinear count) (fun b => b = 0 ∨ L.dataStart ≤ b) :=
  Preserves.ite (fun _ => preserves_pure (Or.inl rfl)) (fun _ => keeps_malloc.bind (fun _ _ => keeps_malloc.bind (fun _ _ =>
    Preserves.ite (fun _ => preserves_pure (Or.inl rfl)) (fun _ => keeps_getSb.bind (fun sb hsb =>
      (keeps_scanRunLinear sb count _ _ _).elseDo (preserves_pure (Or.inl rfl))
        (fun found _ => keeps_bitmapTakeLinear hφ hsb count found))))))

theorem keeps_bitmapTryRegions (count start : Nat) (next : Nat → Nat) : ∀ n k,
    KeepsBlocks L φ (bitmapTryRegions count start next k n) (fun b => b = 0 ∨ L.dataStart ≤ b)
  | 0, _ => preserves_pure (Or.inl rfl)
  | n + 1, k => keeps_getMem.bind (fun _ _ => Preserves.ite
      (fun _ => (keeps_bitmapAllocInRegion hφ _ count).bind (fun _ hb => Preserves.ite
        (fun _ => (keeps_modifyMem (fun _ => by rfl)).bind (fun _ _ => preserves_pure hb))
        (fun _ => keeps_bitmapTryRegions count start next n (k + 1))))
      (fun _ => keeps_bitmapTryRegions count start next n (k + 1)))

theorem keeps_bitmapAlloc : KeepsBlocks L φ bitmapAlloc (fun b => b = 0 ∨ L.dataStart ≤ b) := by
  refine keeps_getMem.bind (fun m _ => ?_)
  cases m.regions with
  | none => exact keeps_bitmapAllocRangeLinear hφ 1
  | some _ => exact (keeps_bitmapTryRegions hφ 1 _ _ _ _).bind (fun _ hb => Preserves.ite (fun _ => preserves_pure hb)
      (fun _ => keeps_bitmapAllocRangeLinear hφ 1))

theorem keeps_bitmapFreeLoop (start : Nat) : ∀ n i freed,
    KeepsBlocks L φ (bitmapFreeLoop start i n freed) (fun _ => True)
  | 0, _, _ => preserves_pure trivial
  | n + 1, i, freed => by
    refine keeps_getSb.bind (fun sb _ => Preserves.ite (fun _ => keeps_bitmapFreeLoop start n (i + 1) freed)
      (fun _ => (keeps_readBlock _).bind (fun x hx => Preserves.ite (fun _ => ?_)
        (fun _ => (keeps_writeBlock hx).bind (fun _ _ => keeps_bitmapFreeLoop start n (i + 1) freed)))))
    refine (keeps_modifyMem (fun _ => ?_)).bind (fun _ _ => (keeps_writeBlock (hφ.bitmap _ _)).bind (fun _ _ =>
      keeps_bitmapFreeLoop start n (i + 1) (freed + 1)))
    rw [mapRegion_sb]

theorem keeps_bitmapFreeRange (start count : Nat) : KeepsBlocks L φ (bitmapFreeRange start count) (fun _ => True) :=
  (preserves_failIf _ _).bind (fun _ _ => keeps_malloc.bind (fun _ _ => (preserves_failIf _ _).bind (fun _ _ =>
    (keeps_bitmapFreeLoop hφ _ _ _ _).bind (fun _ _ => Preserves.when ((keeps_journalWriteEntry hφ _ _ _ _ _).elseDo
      ((Preserves.forRange (fun _ => (keeps_bitmapSet hφ _).ignore) _ _).bind (fun _ _ => preserves_throw _))
      (fun _ _ => keeps_mapFreeBlocks _))))))

/-! ## The table -/

omit hφ in
theorem keeps_mapMrtFree (f : Nat → Nat) : KeepsBlocks L φ (modifyMem (Mem.mapMrtFree f)) (fun _ => True) :=
  keeps_modifyMem (fun _ => rfl)

omit hφ in
theorem keeps_mrtResolve (id : Nat) : KeepsBlocks L φ (mrtResolve id) (SlotAllowed L φ id) := by
  refine keeps_getSb.bind (fun sb hsb => (preserves_failIf _ _).bind (fun _ hlt => ?_))
  subst hsb
  exact (keeps_readBlock _).bind (fun x hx => (preserves_failIf _ _).bind (fun _ halloc =>
    (preserves_failIf _ _).bind (fun _ hbound => preserves_pure
      ⟨x, hx, rfl, by simpa using halloc, fun h => hbound (Or.inl h),
        fun h => hbound (Or.inr h), by omega⟩)))

theorem keeps_mrtStoreEntry {block entryId : Nat} (recordId : Nat) {x : BlockData} {entry : MrtEntry}
    (hput : φ block (x.setMrtEntry entryId entry))
    (hback : φ block ((x.setMrtEntry entryId entry).setMrtEntry entryId (x.mrtEntries entryId))) :
    KeepsBlocks L φ (mrtStoreEntry block entryId recordId x entry) (fun _ => True) :=
  (keeps_writeBlock hput).bind (fun _ _ => keeps_getMem.bind (fun _ _ => Preserves.when
    ((keeps_journalWriteEntry hφ _ _ _ _ _).elseDo
      ((keeps_writeBlock hback).ignore.bind (fun _ _ => preserves_throw _)) (fun _ _ => preserves_pure trivial))))

theorem keeps_mrtScanBlocks (hmay : ∀ id, SlotMay L φ id MrtEntry.taken) {sb : Superblock} (hsb : sb.toLayout = L) :
    ∀ n i, KeepsBlocks L φ (mrtScanBlocks sb i n) (fun _ => True)
  | 0, _ => preserves_throw _
  | n + 1, i => by
    rw [mrtScanBlocks]
    refine (keeps_readBlock _).bind (fun x hx => ?_)
    cases hfind : mrtFindFree x.mrtEntries i 0 entriesPerBlock with
    | none => exact keeps_mrtScanBlocks hmay hsb n (i + 1)
    | some j =>
      have hj : j < entriesPerBlock := by
        have := (mrtFindFree_some hfind).2.1
        omega
      have h := hmay (i * entriesPerBlock + j) x (by rw [slot_div i hj, ← hsb]; exact hx)
      rw [slot_div i hj, slot_mod i hj, ← hsb] at h
      exact (keeps_mrtStoreEntry hφ _ h.1 h.2).bind (fun _ _ => (keeps_mapMrtFree _).bind
        (fun _ _ => preserves_pure trivial))

theorem keeps_mrtAllocEntry (hmay : ∀ id, SlotMay L φ id MrtEntry.taken) :
    KeepsBlocks L φ mrtAllocEntry (fun _ => True) :=
  keeps_getSb.bind (fun _ hsb => keeps_mrtScanBlocks hφ hmay hsb _ _)

theorem keeps_mrtUpdateEntry {id block flags : Nat} (hmay : SlotMay L φ id (fun e => e.updated block flags)) :
    KeepsBlocks L φ (mrtUpdateEntry id block flags) (fun _ => True) := by
  refine keeps_getSb.bind (fun sb hsb => (preserves_failIf _ _).bind (fun _ _ => (keeps_readBlock _).bind (fun x hx => ?_)))
  subst hsb
  exact keeps_mrtStoreEntry hφ _ (hmay x hx).1 (hmay x hx).2

theorem keeps_mrtFreeEntry {id : Nat} (hmay : SlotMay L φ id MrtEntry.freed) :
    KeepsBlocks L φ (mrtFreeEntry id) (fun _ => True) := by
  refine keeps_getSb.bind (fun sb hsb => (preserves_failIf _ _).bind (fun _ _ => (keeps_readBlock _).bind (fun x hx => ?_)))
  subst hsb
  exact (keeps_mrtStoreEntry hφ _ (hmay x hx).1 (hmay x hx).2).bind (fun _ _ => keeps_mapMrtFree _)

/-! ## Records -/

omit hφ in
theorem keeps_recordRead (id : Nat) : KeepsBlocks L φ (recordRead id) (fun x => ∃ e, SlotAllowed L φ id e ∧
    φ e.physicalBlock (.record x.1 x.2)) := by
  refine keeps_malloc.bind (fun _ _ => (preserves_failIf _ _).bind (fun _ _ => (keeps_mrtResolve id).bind (fun e he =>
    ((keeps_readBlock _).orThrow _).bind (fun x hx => ?_))))
  cases x with
  | record rec attrs => exact (preserves_failIf _ _).bind (fun _ _ => preserves_pure ⟨e, he, hx⟩)
  | raw _ | super _ | node _ | mrt _ | bitmap _ | journal _ _ => exact preserves_throw _

theorem keeps_recordWrite {id : Nat} {rec : Record} {attrs : List Attr}
    (h : ∀ e, SlotAllowed L φ id e → φ e.physicalBlock (.record rec attrs)) :
    KeepsBlocks L φ (recordWrite id rec attrs) (fun _ => True) :=
  (preserves_failIf _ _).bind (fun _ _ => keeps_malloc.bind (fun _ _ => keeps_malloc.bind (fun _ _ =>
    (preserves_failIf _ _).bind (fun _ _ => (keeps_mrtResolve id).bind (fun e he => (keeps_readBlock _).ignore.bind
      (fun _ _ => (keeps_journalWriteEntry hφ _ _ _ _ _).bind (fun _ _ => (keeps_writeBlock (h e he)).orThrow _)))))))

/-! ## The tree -/

omit hφ in
theorem keeps_btreeLoad (block : Nat) : KeepsBlocks L φ (btreeLoad block) (fun _ => True) := by
  refine (preserves_failIf _ _).bind (fun _ _ => ((keeps_readBlock _).orThrow _).bind (fun x _ => ?_))
  cases x with
  | node node => exact (preserves_failIf _ _).bind (fun _ _ => preserves_pure trivial)
  | raw _ | super _ | record _ _ | mrt _ | bitmap _ | journal _ _ => exact preserves_throw _

theorem keeps_btreeStore (block : Nat) (node : BtreeNode) : KeepsBlocks L φ (btreeStore block node) (fun _ => True) :=
  (preserves_failIf _ _).bind (fun _ _ => keeps_malloc.bind (fun _ _ => (preserves_failIf _ _).bind (fun _ _ =>
    (keeps_readBlock _).ignore.bind (fun _ _ => (keeps_journalWriteEntry hφ _ _ _ _ _).bind (fun _ _ =>
      (keeps_writeBlock (hφ.node _ _)).orThrow _)))))

theorem keeps_btreeSetParent (block parent : Nat) : KeepsBlocks L φ (btreeSetParent block parent) (fun _ => True) :=
  keeps_malloc.bind (fun _ _ => (preserves_failIf _ _).bind (fun _ _ => (keeps_btreeLoad _).bind (fun _ _ =>
    keeps_btreeStore hφ _ _)))

theorem keeps_btreeLeafSplitInsert (block : Nat) (node : BtreeNode) (pos : Nat) (key : CStr) (value : Nat) :
    KeepsBlocks L φ (btreeLeafSplitInsert block node pos key value) (fun _ => True) :=
  keeps_malloc.bind (fun _ _ => keeps_malloc.bind (fun _ _ => (preserves_failIf _ _).bind (fun _ _ =>
    (keeps_bitmapAlloc hφ).bind (fun _ _ => Preserves.ite (fun _ => preserves_pure trivial) (fun _ =>
      (keeps_btreeStore hφ _ _).bind (fun _ _ => (keeps_btreeStore hφ _ _).bind (fun _ _ => preserves_pure trivial)))))))

theorem keeps_storeDone (block : Nat) (node : BtreeNode) : KeepsBlocks L φ (do
    btreeStore block node
    pure InsertEnd.done) (fun _ => True) :=
  (keeps_btreeStore hφ _ _).bind (fun _ _ => preserves_pure trivial)

theorem keeps_btreeLeafInsert (block : Nat) (node : BtreeNode) (key : CStr) (value : Nat) :
    KeepsBlocks L φ (btreeLeafInsert block node key value) (fun _ => True) := by
  unfold btreeLeafInsert
  dsimp only
  split
  · exact keeps_storeDone hφ _ _
  · exact Preserves.ite (fun _ => keeps_btreeLeafSplitInsert hφ _ _ _ _ _) (fun _ => keeps_storeDone hφ _ _)

theorem keeps_btreeIndexSplitInsert (block : Nat) (node : BtreeNode) (pos : Nat) (sep : CStr) (rightBlock : Nat) :
    KeepsBlocks L φ (btreeIndexSplitInsert block node pos sep rightBlock) (fun _ => True) :=
  keeps_malloc.bind (fun _ _ => keeps_malloc.bind (fun _ _ => (preserves_failIf _ _).bind (fun _ _ =>
    (keeps_bitmapAlloc hφ).bind (fun _ _ => Preserves.ite (fun _ => preserves_pure trivial) (fun _ =>
      (Preserves.forEach (fun _ _ => keeps_btreeSetParent hφ _ _)).bind (fun _ _ => (keeps_btreeStore hφ _ _).bind
        (fun _ _ => (keeps_btreeStore hφ _ _).bind (fun _ _ => preserves_pure trivial))))))))

theorem keeps_btreeTakeSplit (block : Nat) (node : BtreeNode) (rightBlock : Nat) (sep : CStr) :
    KeepsBlocks L φ (btreeTakeSplit block node rightBlock sep) (fun _ => True) :=
  Preserves.ite (fun _ => keeps_btreeIndexSplitInsert hφ _ _ _ _ _) (fun _ => keeps_storeDone hφ _ _)

theorem keeps_btreeIndexInsert {insertRec : Nat → FsM InsertEnd}
    (h : ∀ block, KeepsBlocks L φ (insertRec block) (fun _ => True)) (block : Nat) (node : BtreeNode) (key : CStr) :
    KeepsBlocks L φ (btreeIndexInsert insertRec block node key) (fun _ => True) := by
  refine (h _).bind (fun r _ => ?_)
  cases r with
  | noBlock => exact preserves_pure trivial
  | done => exact Preserves.ite (fun _ => keeps_storeDone hφ _ _) (fun _ => preserves_pure trivial)
  | split rightBlock sep => exact keeps_btreeTakeSplit hφ _ _ _ _

theorem keeps_btreeInsertRec (key : CStr) (value : Nat) : ∀ n block,
    KeepsBlocks L φ (btreeInsertRec key value n block) (fun _ => True)
  | 0, _ => preserves_throw _
  | n + 1, _ => keeps_malloc.bind (fun _ _ => (preserves_failIf _ _).bind (fun _ _ => (keeps_btreeLoad _).bind
      (fun _ _ => Preserves.ite (fun _ => keeps_btreeLeafInsert hφ _ _ _ _)
        (fun _ => keeps_btreeIndexInsert hφ (keeps_btreeInsertRec key value n) _ _ _))))

theorem keeps_btreeGrowRoot (rootBlock rightBlock : Nat) (sep : CStr) :
    KeepsBlocks L φ (btreeGrowRoot rootBlock rightBlock sep) (fun _ => True) :=
  (keeps_bitmapAlloc hφ).bind (fun _ _ => Preserves.ite (fun _ => preserves_pure trivial) (fun _ =>
    keeps_malloc.bind (fun _ _ => (preserves_failIf _ _).bind (fun _ _ => (keeps_btreeLoad _).bind (fun _ _ =>
      (keeps_btreeStore hφ _ _).bind (fun _ _ => (keeps_btreeSetParent hφ _ _).bind (fun _ _ =>
        (keeps_btreeStore hφ _ _).bind (fun _ _ => preserves_pure trivial))))))))

theorem keeps_btreeFirstNode (key : CStr) (value : Nat) :
    KeepsBlocks L φ (btreeFirstNode key value) (fun _ => True) :=
  (keeps_bitmapAlloc hφ).bind (fun _ _ => Preserves.ite (fun _ => preserves_pure trivial) (fun _ =>
    keeps_malloc.bind (fun _ _ => (preserves_failIf _ _).bind (fun _ _ => (keeps_btreeStore hφ _ _).bind
      (fun _ _ => preserves_pure trivial)))))

theorem keeps_btreeInsert (n rootBlock : Nat) (key : CStr) (value : Nat) :
    KeepsBlocks L φ (btreeInsertWithin n rootBlock key value) (fun _ => True) := by
  have htry : KeepsBlocks L φ (btreeTryInsertWithin n rootBlock key value) (fun _ => True) := by
    refine (preserves_failIf _ _).bind (fun _ _ => (preserves_failIf _ _).bind (fun _ _ => Preserves.ite
      (fun _ => keeps_btreeFirstNode hφ _ _) (fun _ => (keeps_btreeInsertRec hφ key value n _).bind (fun r _ => ?_))))
    cases r with
    | noBlock => exact preserves_pure trivial
    | done => exact preserves_pure trivial
    | split rightBlock sep => exact keeps_btreeGrowRoot hφ _ _ _
  refine htry.bind (fun r _ => ?_)
  cases r with
  | none => exact preserves_throw _
  | some root => exact preserves_pure trivial

theorem treeInv_meets : TreeInv True (Volume.Meets L φ) (fun _ => True) ⟨fun _ _ => True, fun _ _ => True⟩ where
  malloc := keeps_malloc
  load b _ := (keeps_btreeLoad b).mono (fun _ _ => ⟨trivial, fun _ _ => trivial⟩)
  store b node _ _ := keeps_btreeStore hφ b node
  free b _ := keeps_bitmapFreeRange hφ b 1
  child _ _ _ _ _ := trivial
  fence _ _ _ _ _ := trivial
  sibling _ _ _ _ _ _ _ _ := trivial

theorem keeps_btreeDelete (n rootBlock : Nat) (key : CStr) :
    KeepsBlocks L φ (btreeDeleteWithin n rootBlock key) (fun _ => True) :=
  (treeInv_meets hφ).delete trivial n key

end System

end

end SmkFs
end AmitX
