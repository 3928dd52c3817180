import AmitX.SmkFs.Journal
import AmitX.Lib.Bytes
/-!
# Redo — recovery on the bytes of the disk (`journal.c`)

A journal entry fills a block: a header of 64 bytes, then the logged bytes, then zeros.  Recovery reads the block into a
buffer of one block on the stack and writes a `WRITE` entry back as a whole block that begins behind the header, so that
its last 64 bytes are what lies behind the buffer.  Here a block is its bytes, and no transfer and no `malloc` fails.
-/
namespace AmitX
namespace SmkFs
namespace Redo

open Bytes Prog

/-! ## Checksums and headers -/

def crcShift (c : BitVec 32) : BitVec 32 := if c.getLsbD 0 then c >>> 1 ^^^ 0x82F63B78#32 else c >>> 1

/-- `crc32c_table`, generated from the reversed polynomial. -/
def crc32cTable (i : BitVec 8) : BitVec 32 := crcShift^[8] (i.setWidth 32)

def crcBytes (data : Bytes.Mem) : Nat → Nat → BitVec 32 → BitVec 32
  | _, 0, crc => crc
  | a, n + 1, crc => crcBytes data (a + 1) n (crc >>> 8 ^^^ crc32cTable (crc.setWidth 8 ^^^ data a))

def checksumCompute (data : Bytes.Mem) (len : Nat) : Nat := (~~~crcBytes data 0 len 0xFFFFFFFF#32).toNat

/-- `SMKFS_MAGIC`, read as a number. -/
def smkfsMagic : Nat := 0x464B6D53
def smkfsVersion : Nat := 2
def stJournalEnt : Nat := 5

def headerInit (type length : Nat) (x : Bytes.Mem) : Bytes.Mem :=
  store (store (store (store (store (store x 0 4 smkfsMagic) 4 2 smkfsVersion) 6 2 type) 8 4 length) 12 4 0) 16 4 0

def headerValidate (x : Bytes.Mem) (type : Nat) : Bool :=
  load x 0 4 == smkfsMagic && load x 4 2 == smkfsVersion && load x 6 2 == type

def headerLength (x : Bytes.Mem) : Nat := load x 8 4

def headerChecksumUpdate (x : Bytes.Mem) (len : Nat) : Bytes.Mem :=
  store (store x 16 4 0) 16 4 (checksumCompute (store x 16 4 0) len)

def headerChecksumVerify (x : Bytes.Mem) (len : Nat) : Bool :=
  decide (len ≤ blockSize) && checksumCompute (store x 16 4 0) len == load x 16 4

/-! ## Journal entries -/

structure Entry where
  sequence : Nat
  targetBlock : Nat
  operation : Nat
  dataLength : Nat
  recordId : Nat
  deriving DecidableEq

def jopWrite : Nat := 1
def jopAlloc : Nat := 2
def jopFree : Nat := 3
def jopCommit : Nat := 4
def jopMrtUpdate : Nat := 5
def jopCheckpoint : Nat := 6

def readEntry (x : Bytes.Mem) : Entry := ⟨load x 32 8, load x 40 8, load x 48 4, load x 52 4, load x 56 8⟩

def entryValid (x : Bytes.Mem) : Bool :=
  headerValidate x stJournalEnt && headerChecksumVerify x (headerLength x)

/-- The block that `journal_write_entry` writes for an entry; `payload` is what it logs, or `NULL`. -/
def entryBlock (e : Entry) (payload : Option Bytes.Mem) : Bytes.Mem :=
  let x := headerInit stJournalEnt (journalEntrySize + e.dataLength) (fun _ => 0)
  let x := store (store (store (store (store x 32 8 e.sequence) 40 8 e.targetBlock) 48 4 e.operation) 52 4 e.dataLength)
    56 8 e.recordId
  let x := match payload with
    | some p => if 0 < e.dataLength then copy x journalEntrySize p 0 e.dataLength else x
    | none => x
  headerChecksumUpdate x (journalEntrySize + e.dataLength)

/-! ## The disk -/

/-- A block that recovery writes for a `WRITE` entry: its number, and where its bytes begin in the buffer. -/
structure BlockWrite where
  target : Nat
  source : Nat
  deriving DecidableEq

/-- The memory of the mount context, the bytes of the disk, and the blocks written for `WRITE` entries so far. -/
structure State extends SmkFs.Mem where
  disk : Nat → Bytes.Mem
  writes : List BlockWrite

abbrev RedoM := Prog State Err

/-- The buffer that a block was read into, at address 0, and what lies behind it. -/
def frame (x behind : Bytes.Mem) : Bytes.Mem := fun a => if a < blockSize then x a else behind (a - blockSize)

def State.writeBlock (target : Nat) (x : Bytes.Mem) (s : State) : State :=
  { s with disk := Function.update s.disk target x }

def State.note (w : BlockWrite) (s : State) : State := { s with writes := s.writes ++ [w] }

def byteBit (x : Byte) (k : Nat) (b : Bool) : Byte := if b then x ||| 1#8 <<< k else x &&& ~~~(1#8 <<< k)

/-- The bitmap bit of a block set or cleared, and counted by `count` where it changes. -/
def State.putBit (b : Bool) (count : Nat → SmkFs.Mem → SmkFs.Mem) (block : Nat) (s : State) : State :=
  if block < s.sb.dataStart then s
  else
    let idx := block - s.sb.dataStart
    let target := s.sb.bitmapStart + idx / 8 / blockSize
    let offset := idx / 8 % blockSize
    let x := s.disk target
    let m := if (x offset).getLsbD (idx % 8) = b then s.toMem else count idx s.toMem
    State.writeBlock target (Function.update x offset (byteBit (x offset) (idx % 8) b)) { s with toMem := m }

def State.bitmapSet (block : Nat) (s : State) : State := s.putBit true countTaken block

def State.bitmapClear (block : Nat) (s : State) : State := s.putBit false countFreed block

/-! ## Redo -/

/-- Apply an entry that is in the buffer `mem`; its payload is behind the header. -/
def journalRedoEntry (ent : Entry) (mem : Bytes.Mem) : RedoM Unit :=
  if ent.operation = jopWrite then
    when (0 < ent.dataLength) (do
      modify (State.writeBlock ent.targetBlock (fun j => mem (journalEntrySize + j)))
      modify (State.note ⟨ent.targetBlock, journalEntrySize⟩))
  else if ent.operation = jopAlloc then
    forRange (fun i => modify (State.bitmapSet (add64 ent.targetBlock i))) 0 ent.dataLength
  else if ent.operation = jopFree then
    forRange (fun i => modify (State.bitmapClear (add64 ent.targetBlock i))) 0 ent.dataLength
  else if ent.operation = jopCommit ∨ ent.operation = jopCheckpoint then pure ()
  else if ent.operation = jopMrtUpdate then do
    let s ← get
    failIf (ent.dataLength ≠ mrtEntrySize) .corrupt
    failIf (s.sb.mrtCapacity ≤ ent.recordId) .corrupt
    let block := s.sb.mrtStart + ent.recordId / entriesPerBlock
    modify (State.writeBlock block (copy (s.disk block) (mrtEntrySize * (ent.recordId % entriesPerBlock)) mem
      journalEntrySize mrtEntrySize))
  else throw .corrupt

/-! ## Replay -/

/-- Pass 1, from `pos` to the head: the highest sequence of a `COMMIT`, if there is one. -/
def findCommit : Nat → Nat → Option Nat → RedoM (Option Nat)
  | 0, _, _ => throw .diverge
  | n + 1, pos, last => do
    let s ← get
    if pos = s.sb.journalHead then pure last
    else do
      let x := s.disk (add64 s.sb.journalStart pos)
      failIf (entryValid x = false) .corrupt
      let ent := readEntry x
      findCommit n (journalNextPos s.sb pos)
        (if ent.operation = jopCommit ∧ last.getD 0 ≤ ent.sequence then some ent.sequence else last)

/-- Pass 2, from `pos` to the head: redo every entry up to the sequence `last`.  `behind` is what lies behind the buffer
at each turn. -/
def redoPass (behind : Nat → Bytes.Mem) (last : Nat) : Nat → Nat → RedoM Unit
  | 0, _ => throw .diverge
  | n + 1, pos => do
    let s ← get
    if pos = s.sb.journalHead then pure ()
    else do
      let x := s.disk (add64 s.sb.journalStart pos)
      failIf (entryValid x = false) .corrupt
      when ((readEntry x).sequence ≤ last) (journalRedoEntry (readEntry x) (frame x (behind n)))
      redoPass behind last n (journalNextPos s.sb pos)

def State.cleanRing (s : State) : State :=
  { s with sb := { s.sb with journalTail := s.sb.journalHead }, journalNextSequence := s.sb.journalSequence }

/-- Recovery, with at most `n` turns of each pass. -/
def journalReplayWithin (behind : Nat → Bytes.Mem) (n : Nat) : RedoM Unit := do
  let s ← get
  if s.sb.journalHead = s.sb.journalTail then
    modify (fun s => { s with journalNextSequence := s.sb.journalSequence })
  else do
    let last ← findCommit n s.sb.journalTail none
    (match last with
      | none => pure ()
      | some last => redoPass behind last n s.sb.journalTail)
    modify State.cleanRing

def journalReplay (behind : Nat → Bytes.Mem) : RedoM Unit := do
  let s ← get
  journalReplayWithin behind (s.sb.journalLength + 1)

/-! ## What the log functions write -/

inductive Logged
  | write (block len : Nat) (newData : Bytes.Mem)
  | alloc (block count : Nat)
  | free (block count : Nat)
  | mrtUpdate (recordId : Nat) (entry : Bytes.Mem)
  | commit | checkpoint

/-- The fields that `journal_write_entry` is called with. -/
def Logged.entry (sequence : Nat) : Logged → Entry
  | .write block len _ => ⟨sequence, block, jopWrite, len, 0⟩
  | .alloc block count => ⟨sequence, block, jopAlloc, count, 0⟩
  | .free block count => ⟨sequence, block, jopFree, count, 0⟩
  | .mrtUpdate recordId _ => ⟨sequence, 0, jopMrtUpdate, mrtEntrySize, recordId⟩
  | .commit => ⟨sequence, 0, jopCommit, 0, 0⟩
  | .checkpoint => ⟨sequence, 0, jopCheckpoint, 0, 0⟩

def Logged.payload : Logged → Option Bytes.Mem
  | .write _ _ newData => some newData
  | .mrtUpdate _ entry => some entry
  | _ => none

def Logged.block (sequence : Nat) (e : Logged) : Bytes.Mem := entryBlock (e.entry sequence) e.payload

/-- The numbers fit the fields of an entry, and the journal accepts the length. -/
structure Logged.Fits (seq : Nat) (e : Logged) : Prop where
  sequence : seq < 2 ^ 64
  target : (e.entry seq).targetBlock < 2 ^ 64
  length : (e.entry seq).dataLength ≤ blockSize - journalEntrySize
  record : (e.entry seq).recordId < 2 ^ 64

section

variable {x y : Bytes.Mem} {e : Entry} {p : Option Bytes.Mem} {behind : Bytes.Mem} {a : Nat}

theorem frame_of_lt (h : a < blockSize) : frame x behind a = x a := if_pos h

theorem load_frame {n : Nat} (h : a + n ≤ blockSize) : load (frame x behind) a n = load x a n :=
  load_congr (fun i _ hi => frame_of_lt (by omega))

theorem readEntry_frame : readEntry (frame x behind) = readEntry x := by
  have hsize : blockSize = 4096 := rfl
  unfold readEntry
  rw [load_frame (by omega), load_frame (by omega), load_frame (by omega), load_frame (by omega), load_frame (by omega)]

theorem checksumCompute_lt (x : Bytes.Mem) (n : Nat) : checksumCompute x n < 256 ^ 4 := BitVec.isLt _

/-- The fields of the header and of the entry, before the payload and the checksum. -/
def entryFields (e : Entry) : Bytes.Mem :=
  store (store (store (store (store (headerInit stJournalEnt (journalEntrySize + e.dataLength) (fun _ => 0))
    32 8 e.sequence) 40 8 e.targetBlock) 48 4 e.operation) 52 4 e.dataLength) 56 8 e.recordId

def entryImage (e : Entry) : Option Bytes.Mem → Bytes.Mem
  | some p => if 0 < e.dataLength then copy (entryFields e) journalEntrySize p 0 e.dataLength else entryFields e
  | none => entryFields e

theorem entryBlock_eq (e : Entry) (p : Option Bytes.Mem) :
    entryBlock e p = headerChecksumUpdate (entryImage e p) (journalEntrySize + e.dataLength) := by
  cases p <;> rfl

theorem load_entryImage {n : Nat} (h : a + n ≤ journalEntrySize) : load (entryImage e p) a n = load (entryFields e) a n := by
  cases p with
  | none => rfl
  | some p =>
    rw [entryImage]
    split
    · exact load_copy_ne (Or.inl h)
    · rfl

theorem load_entryBlock {n : Nat} (h : a + n ≤ 16 ∨ 20 ≤ a) (hn : a + n ≤ journalEntrySize) :
    load (entryBlock e p) a n = load (entryFields e) a n := by
  rw [entryBlock_eq, headerChecksumUpdate, load_store_ne (by omega), load_store_ne (by omega), load_entryImage hn]

theorem readEntry_entryBlock (hseq : e.sequence < 2 ^ 64) (htarget : e.targetBlock < 2 ^ 64) (hop : e.operation < 2 ^ 32)
    (hlen : e.dataLength < 2 ^ 32) (hrec : e.recordId < 2 ^ 64) : readEntry (entryBlock e p) = e := by
  have hsize : journalEntrySize = 64 := rfl
  unfold readEntry
  rw [load_entryBlock (by omega) (by omega), load_entryBlock (by omega) (by omega), load_entryBlock (by omega) (by omega),
    load_entryBlock (by omega) (by omega), load_entryBlock (by omega) (by omega)]
  unfold entryFields
  simp (disch := omega) only [load_store_ne, load_store_of_lt]

theorem entryValid_entryBlock (hlen : e.dataLength ≤ blockSize - journalEntrySize) : entryValid (entryBlock e p) = true := by
  have hsize : journalEntrySize = 64 := rfl
  have hblock : blockSize = 4096 := rfl
  have hlength : headerLength (entryBlock e p) = journalEntrySize + e.dataLength := by
    unfold headerLength
    rw [load_entryBlock (by omega) (by omega)]
    unfold entryFields headerInit
    simp (disch := omega) only [load_store_ne, load_store_of_lt]
  have hheader : headerValidate (entryBlock e p) stJournalEnt = true := by
    unfold headerValidate
    rw [load_entryBlock (by omega) (by omega), load_entryBlock (by omega) (by omega),
      load_entryBlock (by omega) (by omega)]
    unfold entryFields headerInit
    simp (disch := (first | omega | decide)) only [load_store_ne, load_store_of_lt]
    decide
  have hsum : headerChecksumVerify (entryBlock e p) (journalEntrySize + e.dataLength) = true := by
    have hle : journalEntrySize + e.dataLength ≤ blockSize := by omega
    simp only [headerChecksumVerify, hle, decide_true, Bool.true_and, beq_iff_eq]
    rw [entryBlock_eq, headerChecksumUpdate, store_store, store_store, load_store_of_lt (checksumCompute_lt _ _)]
  rw [entryValid, hheader, hlength, hsum]
  rfl

end

end Redo
end SmkFs
end AmitX
