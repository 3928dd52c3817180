import AmitX.Lib.Bytes
/-!
# Volume — the functions of `amfs.c` on a disk of sectors

Sector 0 holds the superblock, sector 1 the bitmap of the data blocks, 64 inodes of 64 bytes follow from `inode_start`
on, and the data area starts at `data_start`.  No transfer fails.  Only the first 512 bytes of a sector count: a buffer
that is read goes on with `behind`, what memory holds there.  `faults` is a ghost: it notes a call that drops an
allocated block, that writes through an inode number the table does not have, or that writes behind a buffer.
-/
namespace AmitX
namespace Amfs

open Bytes

inductive Fault
  /-- A block is allocated and no inode or table refers to it. -/
  | leak
  /-- An inode of a number that the table does not have is written, or a sector it refers to. -/
  | number
  /-- A byte behind a buffer is written. -/
  | outside
deriving DecidableEq

/-- `amfs_superblock_t`. -/
structure Superblock where
  magic : Nat
  version : Nat
  totalSectors : Nat
  inodeCount : Nat
  dataBlockCount : Nat
  inodeStart : Nat
  dataStart : Nat
  blockSize : Nat
  rootInode : Nat

/-- `"AMFS"` as a little-endian number. -/
def amfsMagic : Nat := 0x53464D41

def amfsVersion : Nat := 2

def typeFree : Nat := 0
def typeFile : Nat := 1
def typeDir : Nat := 2

def Superblock.encode (sb : Superblock) : Mem :=
  let m : Mem := store (fun _ => 0) 0 4 sb.magic
  let m := store (store m 4 4 sb.version) 8 4 sb.totalSectors
  let m := store (store m 12 4 sb.inodeCount) 16 4 sb.dataBlockCount
  let m := store (store m 20 4 sb.inodeStart) 24 4 sb.dataStart
  store (store m 28 4 sb.blockSize) 32 4 sb.rootInode

def Superblock.decode (m : Mem) : Superblock where
  magic := load m 0 4
  version := load m 4 4
  totalSectors := load m 8 4
  inodeCount := load m 12 4
  dataBlockCount := load m 16 4
  inodeStart := load m 20 4
  dataStart := load m 24 4
  blockSize := load m 28 4
  rootInode := load m 32 4

/-- The disk, what `amfs.c` keeps in memory, and the ghost. -/
structure Volume where
  disk : Nat → Mem
  sb : Superblock
  mounted : Bool
  faults : List Fault

def Volume.fault (v : Volume) (f : Fault) : Volume := { v with faults := f :: v.faults }

/-- Note a write through inode number `n`. -/
def Volume.touch (v : Volume) (n : Nat) : Volume := if n < v.sb.inodeCount then v else v.fault .number

def readSector (behind : Mem) (v : Volume) (s : Nat) : Mem := fun i => if i < 512 then v.disk s i else behind i

def writeSector (v : Volume) (s : Nat) (buf : Mem) : Volume := { v with disk := Function.update v.disk s buf }

/-- Subtraction of `uint32_t`. -/
def sub32 (a b : Nat) : Nat := (a + 2 ^ 32 - b) % 2 ^ 32

/-! ## Bitmap -/

def testBit (m : Mem) (b : Nat) : Bool := (m (b / 8)).getLsbD (b % 8)

def bitmapClear (v : Volume) (block : Nat) : Volume :=
  if v.sb.dataBlockCount ≤ block then v
  else
    let bitmap := v.disk 1
    writeSector v 1 (Function.update bitmap (block / 8) (bitmap (block / 8) &&& ~~~(1#8 <<< (block % 8))))

def bitmapAlloc (v : Volume) : Nat × Volume :=
  let bitmap := v.disk 1
  match (List.range v.sb.dataBlockCount).find? (fun i => !testBit bitmap i) with
  | none => (0, v)
  | some i => (i + 1, writeSector v 1 (Function.update bitmap (i / 8) (bitmap (i / 8) ||| (1#8 <<< (i % 8)))))

/-! ## Inodes -/

/-- The 64 bytes of an `amfs_inode_t`. -/
abbrev Inode := Mem

namespace Inode

def type (ino : Inode) : Nat := load ino 0 4
def size (ino : Inode) : Nat := load ino 4 4
def block (ino : Inode) (i : Nat) : Nat := load ino (8 + 4 * i) 4
def indirect (ino : Inode) : Nat := load ino 48 4

def setType (ino : Inode) (x : Nat) : Inode := store ino 0 4 x
def setSize (ino : Inode) (x : Nat) : Inode := store ino 4 4 x
def setBlock (ino : Inode) (i x : Nat) : Inode := store ino (8 + 4 * i) 4 x
def setIndirect (ino : Inode) (x : Nat) : Inode := store ino 48 4 x
def setParent (ino : Inode) (x : Nat) : Inode := store ino 52 4 x

def fresh (type : Nat) : Inode := setType (fun _ => 0) type

end Inode

def inodeSector (v : Volume) (n : Nat) : Nat := v.sb.inodeStart + n / 8

def inodeOffset (n : Nat) : Nat := n % 8 * 64

def inodeRead (v : Volume) (n : Nat) : Inode := fun i => v.disk (inodeSector v n) (inodeOffset n + i)

def inodeWrite (v : Volume) (n : Nat) (ino : Inode) : Volume :=
  writeSector (v.touch n) (inodeSector v n) (copy (v.disk (inodeSector v n)) (inodeOffset n) ino 0 64)

/-- The first free inode, taken for `type`. -/
def inodeAlloc (v : Volume) (type : Nat) : Option (Nat × Volume) :=
  match (List.range v.sb.inodeCount).find? (fun i => (inodeRead v i).type == typeFree) with
  | none => none
  | some i => some (i, inodeWrite v i (Inode.fresh type))

/-- `if (sector) bitmap_clear(sector - sb.data_start)`. -/
def releaseSector (v : Volume) (sector : Nat) : Volume :=
  if sector = 0 then v else bitmapClear v (sub32 sector v.sb.dataStart)

def releaseBlock (s : Volume × Inode) (i : Nat) : Volume × Inode :=
  (releaseSector s.1 (s.2.block i), if s.2.block i = 0 then s.2 else s.2.setBlock i 0)

def releaseTable (v : Volume) (ino : Inode) : Volume × Inode :=
  if ino.indirect = 0 then (v, ino)
  else
    let ind := v.disk ino.indirect
    let v := (List.range 128).foldl (fun v i => releaseSector v (load ind (4 * i) 4)) v
    (releaseSector v ino.indirect, ino.setIndirect 0)

/-- The loops over an inode's blocks, which `inode_free` and `amfs_write` have in the same words. -/
def truncate (v : Volume) (ino : Inode) : Volume × Inode :=
  let s := (List.range 10).foldl releaseBlock (v, ino)
  releaseTable s.1 s.2

def inodeFree (v : Volume) (n : Nat) : Volume :=
  let s := truncate v (inodeRead v n)
  inodeWrite s.1 n (s.2.setType typeFree)

/-! ## Block mapping -/

/-- `block_for_offset` for one of the direct blocks. -/
def directBlock (v : Volume) (n i : Nat) (alloc : Bool) : Nat × Volume :=
  let ino := inodeRead v n
  if alloc && ino.block i == 0 then
    match bitmapAlloc v with
    | (0, v) => (0, v)
    | (b + 1, v) => (v.sb.dataStart + b, inodeWrite v n (ino.setBlock i (v.sb.dataStart + b)))
  else (ino.block i, v)

/-- `block_for_offset` for entry `k` of the indirect table: the inode, which is written if `modified`, has a table. -/
def tableBlock (v : Volume) (n : Nat) (ino : Inode) (modified : Bool) (k : Nat) (alloc : Bool) : Nat × Volume :=
  let ind := v.disk ino.indirect
  if alloc && load ind (4 * k) 4 == 0 then
    match bitmapAlloc v with
    -- the return is before `inode_write`
    | (0, v) => (0, if modified then v.fault .leak else v)
    | (b + 1, v) =>
      let v' := writeSector (v.touch n) ino.indirect (store ind (4 * k) 4 (v.sb.dataStart + b))
      (v.sb.dataStart + b, if modified then inodeWrite v' n ino else v')
  else (load ind (4 * k) 4, if modified then inodeWrite v n ino else v)

/-- `block_for_offset` behind the direct blocks. -/
def indirectBlock (v : Volume) (n k : Nat) (alloc : Bool) : Nat × Volume :=
  let ino := inodeRead v n
  if 128 ≤ k then (0, v)
  else if ino.indirect = 0 then
    if alloc then
      match bitmapAlloc v with
      | (0, v) => (0, v)
      | (b + 1, v) =>
        let t := v.sb.dataStart + b
        tableBlock (writeSector v t (fun _ => 0)) n (ino.setIndirect t) true k alloc
    else (0, v)
  else tableBlock v n ino false k alloc

def blockForOffset (v : Volume) (n offset : Nat) (alloc : Bool) : Nat × Volume :=
  if offset / 512 < 10 then directBlock v n (offset / 512) alloc
  else indirectBlock v n (offset / 512 - 10) alloc

/-! ## Directories -/

/-- Whether the C string at `a` is `name`. -/
def strcmp (m : Mem) (a : Nat) : List Byte → Bool
  | [] => m a == 0
  | c :: cs => m a == c && strcmp m (a + 1) cs

def entries (v : Volume) (d : Nat) : Nat := (inodeRead v d).size / 32

/-- The sector of slot `i`, 0 if it has none. -/
def slotSector (v : Volume) (d i : Nat) : Nat := (blockForOffset v d (32 * i) false).1

/-- Where slot `i` is in its sector. -/
def slotOffset (i : Nat) : Nat := 32 * i % 512

/-- The inode number of the entry at `o`. -/
def entryInode (buf : Mem) (o : Nat) : Nat := load buf o 4

/-- The inode number in slot `i`, if its entry is named `name`. -/
def matchAt (behind : Mem) (v : Volume) (d : Nat) (name : List Byte) (i : Nat) : Option (Nat × Nat) :=
  let sector := slotSector v d i
  if sector = 0 then none
  else
    let buf := readSector behind v sector
    let o := slotOffset i
    if entryInode buf o ≠ 0 ∧ strcmp buf (o + 4) name = true then some (entryInode buf o, i) else none

/-- The inode number that `name` resolves to and the slot of its entry. -/
def dirFindEntry (behind : Mem) (v : Volume) (d : Nat) (name : List Byte) : Option (Nat × Nat) :=
  if (inodeRead v d).type ≠ typeDir then none
  else (List.range (entries v d)).findSome? (matchAt behind v d name)

/-- Whether slot `i` has a sector and its entry is free. -/
def freeAt (behind : Mem) (v : Volume) (d i : Nat) : Bool :=
  slotSector v d i != 0 && entryInode (readSector behind v (slotSector v d i)) (slotOffset i) == 0

/-- The slot for a new entry: the first free one, else the one behind the last. -/
def addSlot (behind : Mem) (v : Volume) (d : Nat) : Nat :=
  ((List.range (entries v d)).find? (freeAt behind v d)).getD (entries v d)

/-- `e->inode = inum`, and `strncpy` of 29 bytes and a zero to `e->name`. -/
def putEntry (buf : Mem) (o : Nat) (name : List Byte) (inum : Nat) : Mem :=
  copy (store buf o 4 inum) (o + 4) (ofList name) 0 30

def Volume.noteEntry (v : Volume) (o : Nat) : Volume := if o + 34 ≤ 512 then v else v.fault .outside

def growDir (v : Volume) (d : Nat) : Volume :=
  inodeWrite v d ((inodeRead v d).setSize ((inodeRead v d).size + 32))

def dirAddEntry (behind : Mem) (v : Volume) (d : Nat) (name : List Byte) (inum : Nat) : Bool × Volume :=
  if 30 ≤ name.length then (false, v)
  else if (inodeRead v d).type ≠ typeDir then (false, v)
  else if (dirFindEntry behind v d name).isSome then (false, v)
  else
    let slot := addSlot behind v d
    let r := blockForOffset v d (32 * slot) true
    if r.1 = 0 then (false, r.2)
    else
      let o := slotOffset slot
      let buf := putEntry (readSector behind r.2 r.1) o name inum
      let v' := writeSector ((r.2.touch d).noteEntry o) r.1 buf
      (true, if slot = entries v d then growDir v' d else v')

def dirRemoveEntry (behind : Mem) (v : Volume) (d : Nat) (name : List Byte) : Bool × Volume :=
  match dirFindEntry behind v d name with
  | none => (false, v)
  | some (_, i) =>
    let sector := slotSector v d i
    if sector = 0 then (false, v)
    else
      let o := slotOffset i
      let buf := readSector behind v sector
      (true, writeSector (v.touch d) sector (store (store buf o 4 0) (o + 4) 1 0))

/-! ## Paths -/

def slash : Byte := 47

/-- The names of a path: what is between slashes, cut every 29 characters.  `cur` is the name so far, backwards. -/
def components : List Byte → List Byte → List (List Byte)
  | [], [] => []
  | cur, [] => [cur.reverse]
  | cur, c :: cs =>
    if c = slash then (if cur = [] then components [] cs else cur.reverse :: components [] cs)
    else if cur.length = 28 then (c :: cur).reverse :: components [] cs
    else components (c :: cur) cs

def lookupFrom (behind : Mem) (v : Volume) : Nat → List (List Byte) → Option Nat
  | current, [] => some current
  | current, name :: names =>
    if (inodeRead v current).type ≠ typeDir then none
    else
      match dirFindEntry behind v current name with
      | none => none
      | some (n, _) => lookupFrom behind v n names

def pathLookup (behind : Mem) (v : Volume) (path : List Byte) : Option Nat :=
  match path with
  | [] => none
  | c :: rest => if c = slash then lookupFrom behind v v.sb.rootInode (components [] rest) else none

def lastName (path : List Byte) : List Byte := (path.reverse.takeWhile (· ≠ slash)).reverse

def parentLength (path : List Byte) : Nat := path.length - (lastName path).length - 1

def pathLookupParent (behind : Mem) (v : Volume) (path : List Byte) : Option (Nat × List Byte) :=
  if path.head? ≠ some slash ∨ path = [slash] ∨ lastName path = [] then none
  else if parentLength path = 0 then some (v.sb.rootInode, (lastName path).take 29)
  else if 128 < parentLength path then none
  else
    match pathLookup behind v (path.take (parentLength path)) with
    | none => none
    | some n => some (n, (lastName path).take 29)

/-- `parent_path` has 128 bytes, and the zero behind the path is written to the one after them. -/
def Volume.notePath (v : Volume) (path : List Byte) : Volume :=
  if path.head? = some slash ∧ lastName path ≠ [] ∧ parentLength path = 128 then v.fault .outside else v

/-! ## Calls -/

def formatted (total : Nat) : Superblock where
  magic := amfsMagic
  version := amfsVersion
  totalSectors := total
  inodeCount := 64
  dataBlockCount := total - 10
  inodeStart := 2
  dataStart := 10
  blockSize := 512
  rootInode := 0

/-- `amfs_mkfs` on a disk with any content: superblock, bitmap, inode table and the root directory. -/
def amfsMkfs (behind : Mem) (v : Volume) (total : Nat) : Int × Volume :=
  if total < 12 then (-1, v)
  else
    let sb := formatted total
    let v := { v with sb := sb }
    let v := writeSector v 0 (fun i => if i < 36 then sb.encode i else behind i)
    let v := writeSector v 1 (fun _ => 0)
    let v := (List.range 8).foldl (fun v i => writeSector v (sb.inodeStart + i) (fun _ => 0)) v
    (0, inodeWrite v 0 (Inode.fresh typeDir))

def amfsMount (v : Volume) : Int × Volume :=
  let v := { v with sb := Superblock.decode (v.disk 0) }
  if v.sb.magic ≠ amfsMagic ∨ v.sb.version ≠ amfsVersion then (-1, v) else (0, { v with mounted := true })

/-- `amfs_create` and `amfs_mkdir`, which differ in the type. -/
def makeNode (type : Nat) (behind : Mem) (v : Volume) (path : List Byte) : Int × Volume :=
  if v.mounted = false ∨ path.head? ≠ some slash ∨ path = [slash] then (-1, v)
  else if (pathLookup behind v path).isSome then (-1, v)
  else
    let v := v.notePath path
    match pathLookupParent behind v path with
    | none => (-1, v)
    | some (parent, name) =>
      match inodeAlloc v type with
      | none => (-1, v)
      | some (n, v) =>
        let r := dirAddEntry behind (inodeWrite v n ((Inode.fresh type).setParent parent)) parent name n
        if r.1 then (0, r.2) else (-1, inodeFree r.2 n)

def amfsCreate : Mem → Volume → List Byte → Int × Volume := makeNode typeFile

def amfsMkdir : Mem → Volume → List Byte → Int × Volume := makeNode typeDir

/-- The sectors of `data`, one after another. -/
def writeBlocks (n : Nat) (data : List Byte) : Volume → List Nat → Bool × Volume
  | v, [] => (true, v)
  | v, i :: is =>
    let r := blockForOffset v n (512 * i) true
    if r.1 = 0 then (false, r.2)
    else writeBlocks n data (writeSector r.2 r.1 (ofList ((data.drop (512 * i)).take 512))) is

/-- `amfs_write` to inode `n`. -/
def writeInode (v : Volume) (n : Nat) (data : List Byte) : Int × Volume :=
  if (inodeRead v n).type ≠ typeFile then (-1, v)
  else
    let s := truncate v (inodeRead v n)
    let v := inodeWrite s.1 n (s.2.setSize 0)
    let r := writeBlocks n data v (List.range ((data.length + 511) / 512))
    if r.1 then (0, inodeWrite r.2 n ((inodeRead r.2 n).setSize data.length)) else (-1, r.2)

def amfsWrite (behind : Mem) (v : Volume) (path data : List Byte) : Int × Volume :=
  if v.mounted = false ∨ data = [] then (-1, v)
  else
    match pathLookup behind v path with
    | some n => writeInode v n data
    | none =>
      let r := amfsCreate behind v path
      if r.1 ≠ 0 then (-1, r.2)
      else
        match pathLookup behind r.2 path with
        | none => (-1, r.2)
        | some n => writeInode r.2 n data

/-- Whether slot `i` of a directory holds an entry. -/
def liveAt (behind : Mem) (v : Volume) (d i : Nat) : Bool :=
  slotSector v d i != 0 && entryInode (readSector behind v (slotSector v d i)) (slotOffset i) != 0

def amfsDelete (behind : Mem) (v : Volume) (path : List Byte) : Int × Volume :=
  if v.mounted = false then (0, v)
  else if path.head? ≠ some slash ∨ path = [slash] then (-1, v)
  else
    let v := v.notePath path
    match pathLookupParent behind v path, pathLookup behind v path with
    | some (parent, name), some n =>
      if (inodeRead v n).type = typeDir ∧ (List.range (entries v n)).any (liveAt behind v n) = true then (-1, v)
      else (0, (dirRemoveEntry behind (inodeFree v n) parent name).2)
    | _, _ => (-1, v)

end Amfs
end AmitX
