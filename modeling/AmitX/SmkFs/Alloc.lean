import AmitX.SmkFs.Journal
/-!
# Alloc — allocating and freeing blocks (`bitmap.c`, second half)

`bitmap_alloc` and `bitmap_alloc_range` look for a run of free blocks in one region after another and then in the
whole bitmap, mark it and log it; block 0 is their failure.  An entry the journal refuses is undone bit by bit.
-/
namespace AmitX
namespace SmkFs

open Prog

/-- The first run of `count` clear bits among `n` bits from `bit` on, or the run at the end: its start and length. -/
def scanRun (bits : Nat → Bool) (count : Nat) : Nat → Nat → Nat × Nat → Nat ⊕ (Nat × Nat)
  | 0, _, run => .inr run
  | n + 1, bit, (runStart, runLen) =>
    if bits bit then scanRun bits count n (bit + 1) (runStart, 0)
    else
      let runStart := if runLen = 0 then bit else runStart
      if count ≤ runLen + 1 then .inl runStart else scanRun bits count n (bit + 1) (runStart, runLen + 1)

/-- `count` bits from `bit` on set in the buffer of their bitmap block. -/
def BlockData.setRun (x : BlockData) (bit : Nat) : Nat → BlockData
  | 0 => x
  | n + 1 => (x.setRun bit n).setBit ((bit + n) % bitsPerBlock) true

/-- `free_count` of a region. -/
def Mem.freeCount (m : Mem) (region : Nat) : Nat := (m.regions.getD (fun _ => 0)) region

def bitmapLogAlloc (block count : Nat) : FsM Nat := do
  modifyMem (Mem.mapFreeBlocks (fun n => sub64 n count))
  (journalLogAlloc block count).elseDo
    (do
      forRange (fun j => (bitmapClear (block + j)).ignore) 0 count
      pure 0)
    (fun _ => pure block)

/-- Mark the run that a scan of a region found in the buffer `x` of its bitmap block. -/
def bitmapTakeRun (sb : Superblock) (region count : Nat) (x : BlockData) : Nat ⊕ (Nat × Nat) → FsM Nat
  | .inr _ => pure 0
  | .inl runStart =>
    (writeBlock (sb.bitmapBlock (region * regionBlocks)) (x.setRun runStart count)).elseDo (pure 0) (fun _ => do
      let result ← bitmapLogAlloc (sb.dataStart + runStart) count
      modifyMem (Mem.mapRegion region (fun n => sub32 n count))
      pure result)

def bitmapAllocInRegion (region count : Nat) : FsM Nat := do
  let m ← getMem
  let start := region * regionBlocks
  let stop := min (start + regionBlocks) m.sb.dataBlocks
  if stop ≤ start then pure 0
  else if m.freeCount region < count then pure 0
  else do
    let buf ← malloc
    if buf = false then pure 0
    else (readBlock (m.sb.bitmapBlock start)).elseDo (pure 0) (fun x =>
      bitmapTakeRun m.sb region count x
        (scanRun (fun bit => x.bits (bit % bitsPerBlock)) count (stop - start) start (0, 0)))

/-- Scan the bitmap blocks from `bb` on, `n` of them, for a run that may cross them. -/
def scanRunLinear (sb : Superblock) (count : Nat) : Nat → Nat → Nat × Nat → FsM (Option Nat)
  | _, 0, _ => pure none
  | bb, n + 1, run => do
    let x ← readBlock (sb.bitmapStart + bb)
    (scanRun (fun bit => x.bits (bit % bitsPerBlock)) count
      (min bitsPerBlock (sb.dataBlocks - bb * bitsPerBlock)) (bb * bitsPerBlock) run).elim
      (fun runStart => pure (some runStart)) (scanRunLinear sb count (bb + 1) n)

def bitmapMark (sb : Superblock) (idx : Nat) : FsM Unit := do
  let x ← readBlock (sb.bitmapBlock idx)
  writeBlock (sb.bitmapBlock idx) (x.setBit (idx % bitsPerBlock) true)

/-- Mark the run that a scan of the whole bitmap found, one bit after another. -/
def bitmapTakeLinear (sb : Superblock) (count : Nat) : Option Nat → FsM Nat
  | none => pure 0
  | some runStart =>
    (forRange (fun j => bitmapMark sb (runStart + j)) 0 count).elseDo (pure 0) (fun _ => do
      let firstBlock ← bitmapLogAlloc (sb.dataStart + runStart) count
      forRange (fun j => modifyMem (Mem.mapRegion ((runStart + j) / regionBlocks)
        (fun n => if 0 < n then n - 1 else n))) 0 count
      pure firstBlock)

def bitmapAllocRangeLinear (count : Nat) : FsM Nat := do
  if count = 0 then pure 0
  else do
    let buf ← malloc
    let jBuf ← malloc
    if buf = false ∨ jBuf = false then pure 0
    else do
      let sb ← getSb
      (scanRunLinear sb count 0 sb.bitmapLength (0, 0)).elseDo (pure 0) (bitmapTakeLinear sb count)

/-- Try the regions in a circle from `start` on, `n` of them; `next` is the hint after a success. -/
def bitmapTryRegions (count start : Nat) (next : Nat → Nat) : Nat → Nat → FsM Nat
  | _, 0 => pure 0
  | k, n + 1 => do
    let m ← getMem
    let region := (start + k) % m.regionCount
    if count ≤ m.freeCount region then do
      let block ← bitmapAllocInRegion region count
      if block ≠ 0 then do
        modifyMem (fun m => { m with allocHintRegion := next region })
        pure block
      else bitmapTryRegions count start next (k + 1) n
    else bitmapTryRegions count start next (k + 1) n

def bitmapAlloc : FsM Nat := do
  let m ← getMem
  match m.regions with
  | none => bitmapAllocRangeLinear 1
  | some _ => do
    let block ← bitmapTryRegions 1 m.allocHintRegion id 0 m.regionCount
    if block ≠ 0 then pure block else bitmapAllocRangeLinear 1

def bitmapAllocRange (count : Nat) : FsM Nat := do
  let m ← getMem
  if count = 0 then pure 0
  else if count = 1 then bitmapAlloc
  else if m.regions.isSome ∧ count ≤ regionBlocks then do
    let block ← bitmapTryRegions count m.allocHintRegion (fun region => (region + 1) % m.regionCount) 0 m.regionCount
    if block ≠ 0 then pure block else bitmapAllocRangeLinear count
  else bitmapAllocRangeLinear count

/-- Clear the bits of the blocks `start + i` on, `n` of them, and return how many were set. -/
def bitmapFreeLoop (start : Nat) : Nat → Nat → Nat → FsM Nat
  | _, 0, freed => pure freed
  | i, n + 1, freed => do
    let sb ← getSb
    if start + i < sb.dataStart then bitmapFreeLoop start (i + 1) n freed
    else do
      let idx := start + i - sb.dataStart
      let x ← readBlock (sb.bitmapBlock idx)
      if x.bits (idx % bitsPerBlock) then do
        modifyMem (fun m => m.mapRegion (idx / regionBlocks)
          (fun n => if n < bitmapRegionSize m.sb.toLayout (idx / regionBlocks) then n + 1 else n))
        writeBlock (sb.bitmapBlock idx) (x.setBit (idx % bitsPerBlock) false)
        bitmapFreeLoop start (i + 1) n (freed + 1)
      else do
        writeBlock (sb.bitmapBlock idx) x
        bitmapFreeLoop start (i + 1) n freed

/-- Free the blocks of a range; on a refusal by the journal set as many bits again, from the start of the range. -/
def bitmapFreeRange (start count : Nat) : FsM Unit := do
  failIf (count = 0) .inval
  let buf ← malloc
  failIf (buf = false) .nomem
  let freed ← bitmapFreeLoop start 0 count 0
  when (0 < freed) ((journalLogFree start freed).elseDo
    (do
      forRange (fun j => (bitmapSet (start + j)).ignore) 0 freed
      throw .journal)
    (fun _ => modifyMem (Mem.mapFreeBlocks (fun n => add64 n freed))))

end SmkFs
end AmitX
