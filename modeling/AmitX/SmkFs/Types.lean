import Mathlib.Tactic.Common
import Mathlib.Order.Lattice
import Mathlib.Data.List.Lex
import Mathlib.Logic.Function.Basic
import Mathlib.Algebra.Ring.Nat
import Mathlib.Algebra.Ring.Int.Defs
/-!
# Types — what SmKFS keeps on disk and in memory

A block is modelled by the structure last serialised into it: `header_validate` and `header_checksum_verify` accept a
block read as a structure exactly when that structure is the one in it.  Fields the file system never reads (the uuid,
the volume name, the time stamps, the reserved words) are left out.  Block numbers, record ids and byte offsets are
naturals; counters that the code lets wrap around are kept modulo their width.
-/
namespace AmitX
namespace SmkFs

/-- The `SMKFS_ERR_*` codes; `diverge` marks a loop of the source that has not returned within its bound. -/
inductive Err
  | io | nomem | notfound | exists_ | nospc | inval | corrupt | notempty | rofs | journal | tooBig | notYetBound
  | diverge
  deriving DecidableEq, Repr

/-! ## Sizes -/

def blockSize : Nat := 4096
abbrev cacheSlots : Nat := 16
@[irreducible] def regionBlocks : Nat := 256
@[irreducible] def bitsPerBlock : Nat := 32768
@[irreducible] def entriesPerBlock : Nat := 256
def mrtEntrySize : Nat := 16
def recordSize : Nat := 56
def attrHeaderSize : Nat := 12
def journalEntrySize : Nat := 64
def btreeNodeSize : Nat := 56
def btreeEntrySize : Nat := 264
/-- `SMKFS_BTR_LEAF_MAX` and `SMKFS_BTR_INDEX_MAX`: both kinds of entry have one size. -/
def btreeMax : Nat := (blockSize - btreeNodeSize) / btreeEntrySize
/-- `SMKFS_BTR_LEAF_MIN` and `SMKFS_BTR_INDEX_MIN`. -/
def btreeMin : Nat := btreeMax / 2
def nameLen : Nat := 256
def btreeMaxKey : Nat := 255
def uint64Max : Nat := 2 ^ 64 - 1
def extentTableSize : Nat := 32

theorem regionBlocks_pos : 0 < regionBlocks := by
  unfold regionBlocks
  decide

theorem bitsPerBlock_pos : 0 < bitsPerBlock := by
  unfold bitsPerBlock
  decide

theorem entriesPerBlock_pos : 0 < entriesPerBlock := by
  unfold entriesPerBlock
  decide

@[irreducible] def add64 (a b : Nat) : Nat := (a + b) % 2 ^ 64
@[irreducible] def sub64 (a b : Nat) : Nat := (a + 2 ^ 64 - b % 2 ^ 64) % 2 ^ 64

@[irreducible] def mul64 (a b : Nat) : Nat := a * b % 2 ^ 64

@[irreducible] def add32 (a b : Nat) : Nat := (a + b) % 2 ^ 32
@[irreducible] def sub32 (a b : Nat) : Nat := (a + 2 ^ 32 - b % 2 ^ 32) % 2 ^ 32

theorem sub64_of_le {a b : Nat} (h : b ≤ a) (ha : a < 2 ^ 64) : sub64 a b = a - b := by
  unfold sub64; rw [Nat.mod_eq_of_lt (by omega : b < 2 ^ 64)]; omega

theorem add64_of_lt {a b : Nat} (h : a + b < 2 ^ 64) : add64 a b = a + b := by
  unfold add64; omega

theorem mul64_of_lt {a b : Nat} (h : a * b < 2 ^ 64) : mul64 a b = a * b := by
  unfold mul64
  exact Nat.mod_eq_of_lt h

theorem sub32_of_le {a b : Nat} (h : b ≤ a) (ha : a < 2 ^ 32) : sub32 a b = a - b := by
  unfold sub32; rw [Nat.mod_eq_of_lt (by omega : b < 2 ^ 32)]; omega

/-! ## Strings -/

structure CStr where
  bytes : List UInt8
  nonzero : ∀ c ∈ bytes, c ≠ 0
  deriving DecidableEq

namespace CStr

theorem nil_nonzero : ∀ c ∈ ([] : List UInt8), c ≠ 0 := by simp

@[ext] theorem ext {a b : CStr} (h : a.bytes = b.bytes) : a = b := by
  cases a; cases b; simpa using h

def strlen (s : CStr) : Nat := s.bytes.length

/-- The first `n` bytes, as `strncpy` with a terminator after them leaves them. -/
def take (s : CStr) (n : Nat) : CStr := ⟨s.bytes.take n, fun c h => s.nonzero c (List.mem_of_mem_take h)⟩

def drop (s : CStr) (n : Nat) : CStr := ⟨s.bytes.drop n, fun c h => s.nonzero c (List.mem_of_mem_drop h)⟩

theorem take_of_strlen_le {s : CStr} {n : Nat} (h : s.strlen ≤ n) : s.take n = s :=
  CStr.ext (List.take_of_length_le h)

def code (s : CStr) : List Nat := s.bytes.map UInt8.toNat

theorem code_injective : Function.Injective code := fun _ _ h =>
  CStr.ext (List.map_injective_iff.2 (fun _ _ => UInt8.toNat_inj.1) h)

instance : LinearOrder CStr := LinearOrder.lift' code code_injective

end CStr

/-- `strcmp` on the bytes before the NULs: the difference of the first two bytes that differ. -/
def strcmpBytes : List UInt8 → List UInt8 → Int
  | [], [] => 0
  | [], b :: _ => 0 - b.toNat
  | a :: _, [] => a.toNat - 0
  | a :: as, b :: bs => if a = b then strcmpBytes as bs else a.toNat - b.toNat

def strcmp (a b : CStr) : Int := strcmpBytes a.bytes b.bytes

theorem toNat_pos_of_ne_zero {a : UInt8} (h : a ≠ 0) : 0 < a.toNat :=
  Nat.pos_of_ne_zero (fun h0 => h (UInt8.toNat_inj.1 (by simpa using h0)))

theorem strcmpBytes_neg_iff : ∀ (as bs : List UInt8), (∀ c ∈ as, c ≠ 0) → (∀ c ∈ bs, c ≠ 0) →
    (strcmpBytes as bs < 0 ↔ as.map UInt8.toNat < bs.map UInt8.toNat)
  | [], [], _, _ => by simp [strcmpBytes]
  | [], b :: bs, _, hb => by
    have := toNat_pos_of_ne_zero (hb b (by simp))
    simp only [strcmpBytes, List.map_nil, List.map_cons, List.nil_lt_cons, iff_true]
    omega
  | a :: as, [], _, _ => by
    simp only [strcmpBytes, List.map_nil, List.map_cons]
    constructor
    · intro h; omega
    · intro h; exact absurd h (by simp)
  | a :: as, b :: bs, ha, hb => by
    simp only [strcmpBytes, List.map_cons, List.cons_lt_cons_iff]
    split
    · rename_i hab
      subst hab
      rw [strcmpBytes_neg_iff as bs (fun c h => ha c (by simp [h])) (fun c h => hb c (by simp [h]))]
      simp
    · rename_i hab
      have hne : a.toNat ≠ b.toNat := fun h => hab (UInt8.toNat_inj.1 h)
      constructor
      · intro h; left; omega
      · rintro (h | h)
        · omega
        · exact absurd h.1 hne

theorem strcmpBytes_eq_zero_iff : ∀ (as bs : List UInt8), (∀ c ∈ as, c ≠ 0) → (∀ c ∈ bs, c ≠ 0) →
    (strcmpBytes as bs = 0 ↔ as = bs)
  | [], [], _, _ => by simp [strcmpBytes]
  | [], b :: bs, _, hb => by
    have := toNat_pos_of_ne_zero (hb b (by simp))
    simp only [strcmpBytes, reduceCtorEq, iff_false]
    omega
  | a :: as, [], ha, _ => by
    have := toNat_pos_of_ne_zero (ha a (by simp))
    simp only [strcmpBytes, reduceCtorEq, iff_false]
    omega
  | a :: as, b :: bs, ha, hb => by
    simp only [strcmpBytes, List.cons.injEq]
    split
    · rename_i hab
      rw [strcmpBytes_eq_zero_iff as bs (fun c h => ha c (by simp [h])) (fun c h => hb c (by simp [h]))]
      simp [hab]
    · rename_i hab
      have hne : a.toNat ≠ b.toNat := fun h => hab (UInt8.toNat_inj.1 h)
      simp only [hab, false_and, iff_false]
      omega

theorem strcmp_neg_iff (a b : CStr) : strcmp a b < 0 ↔ a < b :=
  strcmpBytes_neg_iff a.bytes b.bytes a.nonzero b.nonzero

theorem strcmp_eq_zero_iff (a b : CStr) : strcmp a b = 0 ↔ a = b := by
  unfold strcmp
  rw [strcmpBytes_eq_zero_iff a.bytes b.bytes a.nonzero b.nonzero]
  exact ⟨CStr.ext, fun h => by rw [h]⟩

/-! ## Structures on disk -/

/-- The placement of the areas of a volume, fixed when it is formatted. -/
structure Layout where
  totalBlocks : Nat
  sectorSize : Nat
  journalStart : Nat
  journalLength : Nat
  bitmapStart : Nat
  bitmapLength : Nat
  mrtStart : Nat
  mrtLength : Nat
  mrtCapacity : Nat
  dataStart : Nat
  deriving DecidableEq

/-- The counters of the superblock that the journal does not own. -/
structure Counters where
  freeBlocks : Nat
  recordCount : Nat
  mrtFreeCount : Nat
  rootRecordId : Nat
  clean : Bool
  mountCount : Nat
  deriving DecidableEq

/-- The journal's window and sequence number in the superblock. -/
structure Ring where
  journalHead : Nat
  journalTail : Nat
  journalSequence : Nat
  deriving DecidableEq

structure Superblock extends Layout, Counters, Ring
  deriving DecidableEq

/-- An entry of a B+ tree node: a leaf pairs a name with a record id, an index node a fence key with a child block. -/
structure BtreeEntry where
  key : CStr
  value : Nat
  deriving DecidableEq

/-- A B+ tree node; its key count is the number of its entries. -/
structure BtreeNode where
  leaf : Bool
  root : Bool
  parentBlock : Nat
  rightSibling : Nat
  entries : List BtreeEntry
  deriving DecidableEq

/-- A slot of the master record table; `physicalBlock` is `UINT64_MAX` while no block is bound to it. -/
structure MrtEntry where
  physicalBlock : Nat
  flags : Nat
  generation : Nat
  deriving DecidableEq

def mrtfAllocated : Nat := 1

def MrtEntry.allocated (e : MrtEntry) : Bool := e.flags.testBit 0

structure Extent where
  logicalOffset : Nat
  physicalBlock : Nat
  blockCount : Nat
  deriving DecidableEq

inductive AttrType
  | end_ | name | data | fsize | permissions | owner | timestamps | parent | extents | symlink | device
  | unknown (code : Nat)
  deriving DecidableEq

/-- The payload of an attribute, by the type its readers give it. -/
inductive AttrData
  | u16 (v : Nat)
  | u64 (v : Nat)
  | extent (e : Extent)
  | bytes (l : List UInt8)
  deriving DecidableEq

def AttrData.length : AttrData → Nat
  | .u16 _ => 2
  | .u64 _ => 8
  | .extent _ => 20
  | .bytes l => l.length

/-- The payload read through a `ULONGLONG *`, little-endian. -/
def AttrData.asU64 : AttrData → Nat
  | .u16 v => v
  | .u64 v => v
  | .extent e => e.logicalOffset
  | .bytes l => (l.take 8).foldr (fun b n => b.toNat + 256 * n) 0

structure Attr where
  type : AttrType
  id : Nat
  data : AttrData
  deriving DecidableEq

inductive ObjectType
  | file | dir | symlink | device
  | unknown (code : Nat)
  deriving DecidableEq

structure Record where
  recordId : Nat
  objectType : ObjectType
  attrCount : Nat
  linkCount : Nat
  generation : Nat
  /-- `SMKFS_FLA_DELETED` of the header. -/
  deleted : Bool
  deriving DecidableEq

/-- The operation of a journal entry, with the MRT entry an update carries. -/
inductive JournalOp
  | write | alloc | free | commit | mrtUpdate (entry : MrtEntry) | checkpoint
  | unknown (code : Nat)
  deriving DecidableEq

structure JournalEntry where
  sequence : Nat
  targetBlock : Nat
  operation : JournalOp
  dataLength : Nat
  recordId : Nat
  deriving DecidableEq

inductive BlockData
  | raw (bytes : Nat → UInt8)
  | super (sb : Superblock)
  | node (n : BtreeNode)
  | record (rec : Record) (attrs : List Attr)
  | mrt (entries : Nat → MrtEntry)
  | bitmap (bits : Nat → Bool)
  /-- A journal entry and the block image after it, for a `WRITE`. -/
  | journal (ent : JournalEntry) (payload : BlockData)

/-- A block after `memset(0)`. -/
def BlockData.zero : BlockData := .raw (fun _ => 0)

/-- The little-endian number in `n` bytes from `i` on. -/
def littleEndian (f : Nat → UInt8) (i : Nat) : Nat → Nat
  | 0 => 0
  | n + 1 => littleEndian f i n + (f (i + n)).toNat * 256 ^ n

/-- The block as the bitmap code reads it: bit `i` is bit `i % 8` of byte `i / 8`. -/
def BlockData.bits : BlockData → Nat → Bool
  | .bitmap f, i => f i
  | .raw f, i => (f (i / 8)).toNat.testBit (i % 8)
  | _, _ => false

/-- Bit `i` set or cleared in the buffer. -/
def BlockData.setBit (x : BlockData) (i : Nat) (v : Bool) : BlockData := .bitmap (Function.update x.bits i v)

def BlockData.mrtEntries : BlockData → Nat → MrtEntry
  | .mrt f, i => f i
  | .raw f, i => ⟨littleEndian f (16 * i) 8, littleEndian f (16 * i + 8) 2, littleEndian f (16 * i + 12) 4⟩
  | _, _ => ⟨0, 0, 0⟩

/-- MRT entry `i` replaced in the buffer. -/
def BlockData.setMrtEntry (x : BlockData) (i : Nat) (e : MrtEntry) : BlockData :=
  .mrt (Function.update x.mrtEntries i e)

@[simp] theorem BlockData.bits_bitmap (f : Nat → Bool) : (BlockData.bitmap f).bits = f := rfl

@[simp] theorem BlockData.bits_setBit (x : BlockData) (i : Nat) (v : Bool) :
    (x.setBit i v).bits = Function.update x.bits i v := rfl

@[simp] theorem BlockData.bits_zero (i : Nat) : BlockData.zero.bits i = false := by
  simp [BlockData.zero, BlockData.bits]

@[simp] theorem BlockData.mrtEntries_setMrtEntry (x : BlockData) (i : Nat) (e : MrtEntry) :
    (x.setMrtEntry i e).mrtEntries = Function.update x.mrtEntries i e := rfl

@[simp] theorem BlockData.mrtEntries_mrt (f : Nat → MrtEntry) : (BlockData.mrt f).mrtEntries = f := rfl

end SmkFs
end AmitX
