import AmitX.SmkFs.Btree
/-!
# Super — formatting, mounting and unmounting (`super.c`)

`smkfs_mkfs` and `smkfs_fsck` work in a mount context of their own over the same disk.  A mount reads the superblock,
replays the journal and counts the free blocks of the regions; it does not write the superblock.  An unmount writes it
after a last checkpoint.
-/
namespace AmitX
namespace SmkFs

open Prog

/-- A mount context after `memset(0)`. -/
def zeroMem : Mem where
  sb := ⟨⟨0, 0, 0, 0, 0, 0, 0, 0, 0, 0⟩, ⟨0, 0, 0, 0, false, 0⟩, ⟨0, 0, 0⟩⟩
  journalNextSequence := 0
  journalInTransaction := false
  regions := none
  regionCount := 0
  allocHintRegion := 0
  mounted := false

/-- The slots that hold what the disk does not: all that a cache does for its owner once it reads no more. -/
def dirtySlots (slots : Fin cacheSlots → CacheSlot) (i : Fin cacheSlots) : CacheSlot :=
  if (slots i).dirty then slots i else { slots i with valid := false }

/-- The drive after a program with a cache of its own has run beside the cache of `outer`. -/
def besideCache (outer inner : Device) : Device :=
  ⟨{ inner.1 with slots := dirtySlots outer.1.slots }, by
    have hv : ∀ i, (dirtySlots outer.1.slots i).valid = true →
        dirtySlots outer.1.slots i = outer.1.slots i ∧ (outer.1.slots i).dirty = true := by
      intro i hi
      unfold dirtySlots at hi ⊢
      split at hi
      · rename_i hd
        exact ⟨if_pos hd, hd⟩
      · simp at hi
    refine ⟨fun i j hi hj hij => ?_, fun i hi hd => ?_⟩
    · have h1 := hv i hi
      have h2 := hv j hj
      simp only [h1.1] at hi hij
      simp only [h2.1] at hj hij
      exact outer.2.unique i j hi hj hij
    · have h1 := hv i hi
      simp only [h1.1, h1.2] at hd
      cases hd⟩

/-- Run a program in a mount context of its own, with the memory zeroed and a fresh cache. -/
def ownContext {α : Type} (m : FsM α) : FsM α := fun s =>
  let r := m (blockCacheInit ⟨zeroMem, s.dev, s.heap⟩)
  (r.1, ⟨s.toMem, besideCache s.dev r.2.dev, r.2.heap⟩)

def blockCacheShutdown : FsM Unit := do
  blockCacheFlush.ignore
  modify blockCacheInit

/-- On an error abort the transaction and return `e`. -/
def orAbort {α : Type} (m : FsM α) (e : Err) : FsM α := m.catchWith (fun _ => do
  journalAbort
  throw e)

/-! ## Mounting -/

def Mem.setMounted (b : Bool) (m : Mem) : Mem := { m with mounted := b }

def Superblock.openVolume (sb : Superblock) : Superblock :=
  { sb with mountCount := add32 sb.mountCount 1, clean := false }

def Mem.opened (m : Mem) : Mem := { m with sb := m.sb.openVolume, mounted := true }

def Superblock.closeVolume (sb : Superblock) : Superblock :=
  { sb with mountCount := sub32 sb.mountCount 1, clean := true }

def abandonMount {α : Type} (e : Err) : FsM α := do
  bitmapShutdown
  blockCacheShutdown
  throw e

def dumpRoot (sb : Superblock) : FsM Unit := do
  let rootAttr ← malloc
  if rootAttr = false then pure ()
  else (recordRead sb.rootRecordId).elseDo (pure ()) (fun (_, attrs) =>
    match recordFindAttr .data attrs with
    | some root => btreeDumpRecursive (sb.totalBlocks + 1) root.asU64
    | none => pure ())

def mountVolume (sb : Superblock) : FsM Unit := do
  modifySb (fun _ => sb)
  journalReplay
  bitmapInitRegions.catchWith (fun _ => abandonMount .nomem)
  modifyMem Mem.opened
  let sb ← getSb
  dumpRoot sb

def smkfsMount : FsM Unit := do
  let m ← getMem
  failIf (m.mounted = true) .inval
  modifySb (fun sb => { sb with sectorSize := 512 })
  modify blockCacheInit
  let x ← (readBlock 0).catchWith (fun _ => abandonMount .io)
  match x with
  | .super sb => mountVolume sb
  | _ => abandonMount .corrupt

def smkfsUnmount : FsM Unit := do
  let m ← getMem
  failIf (m.mounted = false) .inval
  journalCheckpoint.ignore
  modifySb Superblock.closeVolume
  let sb ← getSb
  (writeBlock 0 (.super sb)).catchWith (fun _ => do
    modifyMem (Mem.setMounted false)
    abandonMount .io)
  blockCacheFlush.ignore
  bitmapShutdown
  blockCacheShutdown
  modifyMem (Mem.setMounted false)

def smkfsSync : FsM Unit := do
  let m ← getMem
  failIf (m.mounted = false) .inval
  journalCheckpoint.orThrow .io

/-! ## Checking -/

def fsckVolume : FsM Unit := do
  modifySb (fun sb => { sb with sectorSize := 512 })
  let x ← (readBlock 0).orThrow .io
  match x with
  | .super sb => do
    modifySb (fun _ => sb)
    failIf (sb.totalBlocks = 0 ∨ sb.totalBlocks ≤ sb.dataStart) .corrupt
    let wrongCount := decide (sb.totalBlocks - sb.dataStart < sb.freeBlocks)
    let checkSb := if wrongCount then { sb with freeBlocks := sb.totalBlocks - sb.dataStart } else sb
    let entry ← mrtResolve checkSb.rootRecordId
    let bit ← (bitmapTest entry.physicalBlock).attempt
    when (wrongCount = true ∨ bit.toOption ≠ some true) (do
      (writeBlock 0 (.super checkSb)).ignore
      throw .corrupt)
  | _ => throw .corrupt

def thenShutdown (m : FsM Unit) : FsM Unit := do
  m.catchWith (fun e => do
    blockCacheShutdown
    throw e)
  blockCacheShutdown

def smkfsFsck : FsM Unit := do
  let ctx ← malloc
  failIf (ctx = false) .nomem
  ownContext (thenShutdown fsckVolume)

/-! ## Formatting -/

def mkfsBitmapBlocks (totalBlocks : Nat) : Nat := max ((totalBlocks + bitsPerBlock - 1) / bitsPerBlock) 1

def mkfsJournalBlocks (totalBlocks : Nat) : Nat :=
  let room := totalBlocks - 1 - mkfsBitmapBlocks totalBlocks
  max (if room ≤ totalBlocks / 64 + 8 then room - 1 else totalBlocks / 64 + 8) 8

def mkfsMrtBlocks (totalBlocks : Nat) : Nat := max ((totalBlocks + entriesPerBlock - 1) / entriesPerBlock) 1

def mkfsLayout (totalBlocks sectorSize : Nat) : Layout where
  totalBlocks := totalBlocks
  sectorSize := sectorSize
  journalStart := 1
  journalLength := mkfsJournalBlocks totalBlocks
  bitmapStart := 1 + mkfsJournalBlocks totalBlocks
  bitmapLength := mkfsBitmapBlocks totalBlocks
  mrtStart := 1 + mkfsJournalBlocks totalBlocks + mkfsBitmapBlocks totalBlocks
  mrtLength := mkfsMrtBlocks totalBlocks
  mrtCapacity := mul64 (mkfsMrtBlocks totalBlocks) entriesPerBlock
  dataStart := 1 + mkfsBitmapBlocks totalBlocks + mkfsJournalBlocks totalBlocks + mkfsMrtBlocks totalBlocks

/-- The superblock before anything is allocated; `mrt_init` has filled in the MRT. -/
def mkfsSuperblock (totalBlocks sectorSize : Nat) : Superblock where
  toLayout := mkfsLayout totalBlocks sectorSize
  freeBlocks := totalBlocks - 1 - mkfsBitmapBlocks totalBlocks - mkfsJournalBlocks totalBlocks - mkfsMrtBlocks totalBlocks
  recordCount := 0
  mrtFreeCount := sub64 (mul64 (mkfsMrtBlocks totalBlocks) entriesPerBlock) 1
  rootRecordId := 0
  clean := true
  mountCount := 0
  journalHead := 0
  journalTail := 0
  journalSequence := 1

def emptyRoot : BtreeNode := ⟨true, true, 0, 0, []⟩

def mkfsAreas (l : Layout) : FsM Unit := do
  (forRange (fun i => writeBlock (l.journalStart + i) .zero) 0 l.journalLength).orThrow .io
  (forRange (fun i => writeBlock (l.bitmapStart + i) .zero) 0 l.bitmapLength).orThrow .io
  (mrtFormat l.mrtStart l.mrtLength).orThrow .io

def mkfsRootRecord (rootId btreeRoot : Nat) : FsM Unit := do
  let (rec, attrs) ← orAbort (recordRead rootId) .io
  match recordAddAttr attrBufSize .data (.u64 btreeRoot) attrs with
  | (.error _, _) => do
    journalAbort
    throw .nospc
  | (.ok _, attrs) => orAbort (recordWrite rootId { rec with attrCount := rec.attrCount + 1 } attrs) .io

def mkfsRoot : FsM Nat := do
  let btreeRoot ← bitmapAlloc
  when (btreeRoot = 0) (do
    journalAbort
    throw .nospc)
  orAbort (writeBlock btreeRoot (.node emptyRoot)) .io
  let rootId ← recordAlloc .dir
  when (rootId = 0) (do
    journalAbort
    throw .nospc)
  mkfsRootRecord rootId btreeRoot
  pure rootId

def mkfsVolume (totalBlocks sectorSize : Nat) : FsM Unit := do
  failIf (totalBlocks < 16) .inval
  modifySb (fun _ => mkfsSuperblock totalBlocks sectorSize)
  mkfsAreas (mkfsLayout totalBlocks sectorSize)
  journalStartTransaction.orThrow .journal
  let rootId ← mkfsRoot
  modifySb (fun sb => { sb with rootRecordId := rootId })
  journalCommit.orThrow .journal
  let sb ← getSb
  (writeBlock 0 (.super sb)).orThrow .io

def smkfsMkfs (totalBlocks sectorSize : Nat) : FsM Unit := do
  let ctx ← malloc
  failIf (ctx = false) .nomem
  ownContext (do
    (mkfsVolume totalBlocks sectorSize).catchWith (fun e => do
      blockCacheShutdown
      throw e)
    blockCacheFlush.ignore
    smkfsFsck.ignore
    blockCacheShutdown)

end SmkFs
end AmitX
