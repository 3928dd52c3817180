import AmitX.SmkFs.Extent
import AmitX.SmkFs.Super
/-!
# File — the data of a file (`file.c`)

The bytes of a file lie in the blocks that the extents of its record take its logical blocks to; a block without an extent
reads as zeros.  The size is in the `FSIZE` attribute.  A write allocates the blocks it finds missing; truncating and
punching strip all the extents of the record and put back those that stay, from a table of 32.  `other` is the bytes of
a block that holds no file data.
-/
namespace AmitX
namespace SmkFs

open Prog

def imageBytes (other : BlockData → Nat → UInt8) : BlockData → Nat → UInt8
  | .raw f => f
  | x => other x

/-- The size in the `FSIZE` attribute; a file without one is empty. -/
def fileSize (attrs : List Attr) : Nat := ((recordFindAttr .fsize attrs).map AttrData.asU64).getD 0

def abortOnError {α : Type} (m : FsM α) : FsM α := m.catchWith (fun e => do
  journalAbort
  throw e)

/-! ## Blocks -/

/-- Where logical block `logicalBlock` of the extent lies. -/
def Extent.place (e : Extent) (logicalBlock : Nat) : Nat := e.physicalBlock + (logicalBlock - e.logicalOffset)

/-- Read a part of a logical block; whatever keeps the extent from being found, the block is a hole. -/
def blockReadByte (other : BlockData → Nat → UInt8) (recordId logicalBlock offset len : Nat) : FsM (List UInt8) := do
  let buf ← malloc
  failIf (buf = false) .nomem
  failIf (blockSize < offset + len) .inval
  if len = 0 then pure []
  else (extentResolve recordId logicalBlock).elseDo (pure (List.replicate len 0)) (fun ext => do
    let x ← (readBlock (ext.place logicalBlock)).orThrow .io
    pure ((List.range len).map (fun i => imageBytes other x (offset + i))))

def fillHole (recordId logicalBlock : Nat) : FsM (Nat × (Nat → UInt8)) := do
  let phys ← bitmapAlloc
  failIf (phys = 0) .nospc
  (extentAdd recordId logicalBlock phys 1).elseDo
    (do
      (bitmapClear phys).ignore
      throw .nospc)
    (fun _ => pure (phys, fun _ => 0))

/-- The block to write to, with its bytes; whatever keeps the extent from being found, the block is a hole. -/
def blockForWrite (other : BlockData → Nat → UInt8) (recordId logicalBlock : Nat) : FsM (Nat × (Nat → UInt8)) :=
  (extentResolve recordId logicalBlock).elseDo (fillHole recordId logicalBlock) (fun ext => do
    let x ← (readBlock (ext.place logicalBlock)).orThrow .io
    pure (ext.place logicalBlock, imageBytes other x))

/-- The bytes with `src` at `offset`. -/
def patchBytes (block : Nat → UInt8) (offset : Nat) (src : List UInt8) (i : Nat) : UInt8 :=
  if offset ≤ i ∧ i < offset + src.length then src.getD (i - offset) 0 else block i

def blockWriteByte (other : BlockData → Nat → UInt8) (recordId logicalBlock offset : Nat) (src : List UInt8) :
    FsM Nat := do
  let buf ← malloc
  failIf (buf = false) .nomem
  failIf (blockSize < offset + src.length) .inval
  if src.length = 0 then pure 0
  else do
    let (phys, block) ← blockForWrite other recordId logicalBlock
    (writeBlock phys (.raw (patchBytes block offset src))).orThrow .io
    pure src.length

/-! ## Reading and writing -/

/-- How many of the bytes from position `pos` on, of `left` that are left, lie in one block. -/
def chunkLen (pos left : Nat) : Nat := min left (blockSize - pos % blockSize)

/-- Read from byte `done` on, with at most `n` turns. -/
def readChunks (other : BlockData → Nat → UInt8) (recordId offset toRead : Nat) : Nat → Nat → FsM (List UInt8)
  | 0, _ => throw .diverge
  | n + 1, done =>
    if done < toRead then do
      let pos := add64 offset done
      let bytes ← blockReadByte other recordId (pos / blockSize) (pos % blockSize) (chunkLen pos (toRead - done))
      let rest ← readChunks other recordId offset toRead n (done + bytes.length)
      pure (bytes ++ rest)
    else pure []

def smkfsRead (other : BlockData → Nat → UInt8) (recordId offset len : Nat) : FsM (List UInt8) := do
  let m ← getMem
  failIf (m.mounted = false ∨ recordId = 0) .inval
  let (rec, attrs) ← (recordRead recordId).orThrow .io
  failIf (rec.objectType ≠ .file) .inval
  if fileSize attrs ≤ offset then pure []
  else do
    let toRead := if fileSize attrs < add64 offset len then fileSize attrs - offset else len
    readChunks other recordId offset toRead (toRead + 1) 0

/-- Write from byte `done` on, with at most `n` turns. -/
def writeChunks (other : BlockData → Nat → UInt8) (recordId offset : Nat) (buf : List UInt8) : Nat → Nat → FsM Unit
  | 0, _ => throw .diverge
  | n + 1, done =>
    if done < buf.length then do
      let pos := add64 offset done
      let r ← blockWriteByte other recordId (pos / blockSize) (pos % blockSize)
        ((buf.drop done).take (chunkLen pos (buf.length - done)))
      writeChunks other recordId offset buf n (done + r)
    else pure ()

def writeSize (recordId newSize : Nat) : FsM Unit := do
  let (rec, attrs) ← orAbort (recordRead recordId) .io
  match recordAddAttr attrBufSize .fsize (.u64 newSize) attrs with
  | (.ok _, attrs) => orAbort (recordWrite recordId { rec with attrCount := rec.attrCount + 1 } attrs) .io
  | (.error _, _) => pure ()

/-- What a write does before its first block: the attributes of the file, in a transaction. -/
def writeBegin (recordId : Nat) : FsM (List Attr) := do
  let m ← getMem
  failIf (m.mounted = false ∨ recordId = 0) .inval
  let (rec, attrs) ← (recordRead recordId).orThrow .io
  failIf (rec.objectType ≠ .file) .inval
  journalStartTransaction.orThrow .journal
  pure attrs

def smkfsWrite (other : BlockData → Nat → UInt8) (recordId offset : Nat) (buf : List UInt8) : FsM Nat := do
  let attrs ← writeBegin recordId
  let newSize := max (add64 offset buf.length) (fileSize attrs)
  abortOnError (writeChunks other recordId offset buf (buf.length + 1) 0)
  when (newSize ≠ fileSize attrs) (writeSize recordId newSize)
  journalCommit.orThrow .journal
  pure buf.length

/-! ## Truncating and punching -/

def collectCb (_attrId : Nat) (data : AttrData) (extents : List Extent) : Int × List Extent :=
  match data.asExtent with
  | none => (0, extents)
  | some e => if extentTableSize ≤ extents.length then (0, extents) else (0, extents ++ [e])

def truncateCollectCb : Nat → AttrData → List Extent → Int × List Extent := collectCb

def puncCollectCb : Nat → AttrData → List Extent → Int × List Extent := collectCb

/-- Remove the attributes of a type as long as there is one, in at most `n` turns. -/
def stripAttr (type : AttrType) : Nat → List Attr → List Attr
  | 0, attrs => attrs
  | n + 1, attrs =>
    match recordFindAttr type attrs with
    | some _ => stripAttr type n (recordRemoveAttr type attrs)
    | none => attrs

def putExtent (e : Extent) (attrs : List Attr) : FsM (List Attr) :=
  orAbort (onAttrs (recordAddAttr attrBufSize .extents (.extent e)) attrs) .nospc

/-- Put the extents of a table back one by one, each as `body` has it. -/
def rebuild (body : Extent → List Attr → FsM (List Attr)) : List Extent → List Attr → FsM (List Attr)
  | [], attrs => pure attrs
  | e :: es, attrs => do
    let attrs ← body e attrs
    rebuild body es attrs

/-- The number of blocks of `size` bytes, where `size + 4095` does not wrap. -/
def blocksOf (size : Nat) : Nat := add64 size (blockSize - 1) / blockSize

/-- What stays of an extent below logical block `newBlocks`; the rest is freed. -/
def truncateExtent (newBlocks : Nat) (e : Extent) (attrs : List Attr) : FsM (List Attr) :=
  if newBlocks ≤ e.logicalOffset then do
    (bitmapFreeRange e.physicalBlock e.blockCount).ignore
    pure attrs
  else if newBlocks < e.logicalOffset + e.blockCount then do
    let keep := newBlocks - e.logicalOffset
    (bitmapFreeRange (e.physicalBlock + keep) (e.blockCount - keep)).ignore
    putExtent { e with blockCount := keep } attrs
  else putExtent e attrs

/-- Free the blocks from `newBlocks` on. -/
def truncateBlocks (newBlocks : Nat) (attrs : List Attr) : FsM (List Attr) :=
  rebuild (truncateExtent newBlocks) (recordIterateAttr .extents truncateCollectCb attrs []).2
    (stripAttr .extents attrs.length attrs)

def smkfsTruncate (recordId newSize : Nat) : FsM Unit := do
  let m ← getMem
  failIf (m.mounted = false ∨ recordId = 0) .inval
  let (rec, attrs) ← (recordRead recordId).orThrow .io
  failIf (rec.objectType ≠ .file) .inval
  if newSize = fileSize attrs then pure ()
  else do
    journalStartTransaction.orThrow .journal
    let attrs ← if newSize < fileSize attrs ∧ blocksOf newSize < blocksOf (fileSize attrs)
      then truncateBlocks (blocksOf newSize) attrs else pure attrs
    let attrs ← orAbort (onAttrs (recordAddAttr attrBufSize .fsize (.u64 newSize)) (recordRemoveAttr .fsize attrs)) .nospc
    abortOnError (recordWrite recordId rec attrs)
    journalCommit.orThrow .journal

/-- What stays of an extent outside the logical blocks `[holeStart, holeEnd)`; the rest is freed. -/
def puncExtent (holeStart holeEnd : Nat) (e : Extent) (attrs : List Attr) : FsM (List Attr) :=
  let extStart := e.logicalOffset
  let extEnd := e.logicalOffset + e.blockCount
  if extEnd ≤ holeStart ∨ holeEnd ≤ extStart then putExtent e attrs
  else if holeStart ≤ extStart ∧ extEnd ≤ holeEnd then do
    (bitmapFreeRange e.physicalBlock e.blockCount).ignore
    pure attrs
  else if extStart < holeStart ∧ holeEnd < extEnd then do
    let leftCount := holeStart - extStart
    -- the end of the hole lies before its start where `offset + len` wraps
    let holeCount := sub64 holeEnd holeStart
    let attrs ← putExtent { e with blockCount := leftCount } attrs
    (bitmapFreeRange (e.physicalBlock + leftCount) (holeCount % 2 ^ 32)).ignore
    putExtent ⟨holeEnd, add64 (e.physicalBlock + leftCount) holeCount, extEnd - holeEnd⟩ attrs
  else if extStart < holeStart ∧ extEnd ≤ holeEnd then do
    let attrs ← putExtent { e with blockCount := holeStart - extStart } attrs
    (bitmapFreeRange (e.physicalBlock + (holeStart - extStart)) (extEnd - holeStart)).ignore
    pure attrs
  else if holeStart ≤ extStart ∧ holeEnd < extEnd then do
    let freeCount := holeEnd - extStart
    (bitmapFreeRange e.physicalBlock freeCount).ignore
    putExtent ⟨holeEnd, e.physicalBlock + freeCount, extEnd - holeEnd⟩ attrs
  else pure attrs

def smkfsPuncHole (recordId offset len : Nat) : FsM Unit := do
  let m ← getMem
  failIf (m.mounted = false ∨ recordId = 0 ∨ len = 0) .inval
  let (rec, attrs) ← (recordRead recordId).orThrow .io
  failIf (rec.objectType ≠ .file) .inval
  if fileSize attrs ≤ offset then pure ()
  else do
    let len := if fileSize attrs < add64 offset len then fileSize attrs - offset else len
    journalStartTransaction.orThrow .journal
    let attrs ← rebuild (puncExtent (offset / blockSize) (blocksOf (add64 offset len)))
      (recordIterateAttr .extents puncCollectCb attrs []).2 (stripAttr .extents attrs.length attrs)
    abortOnError (recordWrite recordId rec attrs)
    journalCommit.orThrow .journal

end SmkFs
end AmitX
