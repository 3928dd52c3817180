import AmitX.Amfs.Volume
import AmitX.Lib.Slots
/-!
# Refs — the sectors that inodes refer to (`amfs.c`)

A slot is a place that refers to a sector: a direct block of an inode, its indirect table, or an entry of the table.
`Sound` says that the references go to the data area, with the bitmap's bit set and each sector referred to once, and that
a free inode refers to nothing.  What each write to the disk does to types, references and bits is said here once.
-/
namespace AmitX
namespace Amfs

open Bytes

inductive Pos
  | direct (i : Fin 10)
  | table
  | entry (k : Fin 128)
deriving DecidableEq

structure Slot where
  inode : Fin 64
  pos : Pos
deriving DecidableEq

def posRef (disk : Nat → Mem) (ino : Inode) : Pos → Nat
  | .direct i => ino.block i
  | .table => ino.indirect
  | .entry k => if ino.indirect = 0 then 0 else load (disk ino.indirect) (4 * k) 4

def ref (v : Volume) (s : Slot) : Nat := posRef v.disk (inodeRead v s.inode) s.pos

def typeOf (v : Volume) (n : Fin 64) : Nat := (inodeRead v n).type

def bit (v : Volume) (b : Nat) : Bool := decide (b < 4096) && testBit (v.disk 1) b

/-- The superblock is one that `amfs_mkfs` makes for 4096 data blocks at most. -/
structure Geometry (v : Volume) : Prop where
  inodeCount : v.sb.inodeCount = 64
  inodeStart : v.sb.inodeStart = 2
  dataStart : v.sb.dataStart = 10
  rootInode : v.sb.rootInode = 0
  count : v.sb.dataBlockCount ≤ 4096

structure Sound (v : Volume) : Prop where
  geometry : Geometry v
  slots : Slots.Sound (ref v) (bit v) 10 v.sb.dataBlockCount
  free : ∀ n, typeOf v n = typeFree → ∀ p, ref v ⟨n, p⟩ = 0

def NoLeak (v : Volume) : Prop := Slots.NoLeak (ref v) (bit v) 10

variable {v v' : Volume} {n m : Fin 64} {t s b c : Nat} {buf : Mem} {ino : Inode}

theorem Geometry.of_sb (g : Geometry v) (h : v'.sb = v.sb) : Geometry v' :=
  ⟨h ▸ g.inodeCount, h ▸ g.inodeStart, h ▸ g.dataStart, h ▸ g.rootInode, h ▸ g.count⟩

theorem Geometry.sector (g : Geometry v) (n : Fin 64) : inodeSector v n = 2 + n / 8 := by
  unfold inodeSector
  rw [g.inodeStart]

theorem Geometry.sector_lt (g : Geometry v) (n : Fin 64) : 2 ≤ inodeSector v n ∧ inodeSector v n < 10 := by
  have := g.sector n
  omega

theorem Geometry.touch (g : Geometry v) (n : Fin 64) : v.touch n = v :=
  if_pos (by rw [g.inodeCount]; exact n.isLt)

/-! ## Fields of an inode -/

namespace Inode

variable {i j x : Nat}

theorem block_setBlock (hx : x < 2 ^ 32) : (setBlock ino i x).block i = x := load_store_of_lt hx

theorem block_setBlock_ne (h : j ≠ i) : (setBlock ino i x).block j = ino.block j := load_store_ne (by omega)

theorem indirect_setBlock (hi : i < 10) : (setBlock ino i x).indirect = ino.indirect := load_store_ne (by omega)

theorem type_setBlock : (setBlock ino i x).type = ino.type := load_store_ne (by omega)

theorem size_setBlock : (setBlock ino i x).size = ino.size := load_store_ne (by omega)

theorem indirect_setIndirect (hx : x < 2 ^ 32) : (setIndirect ino x).indirect = x := load_store_of_lt hx

theorem block_setIndirect (hi : i < 10) : (setIndirect ino x).block i = ino.block i := load_store_ne (by omega)

theorem type_setIndirect : (setIndirect ino x).type = ino.type := load_store_ne (by omega)

theorem size_setIndirect : (setIndirect ino x).size = ino.size := load_store_ne (by omega)

theorem type_setType (hx : x < 2 ^ 32) : (setType ino x).type = x := load_store_of_lt hx

theorem block_setType : (setType ino x).block i = ino.block i := load_store_ne (by omega)

theorem indirect_setType : (setType ino x).indirect = ino.indirect := load_store_ne (by omega)

theorem type_setSize : (setSize ino x).type = ino.type := load_store_ne (by omega)

theorem size_setSize (hx : x < 2 ^ 32) : (setSize ino x).size = x := load_store_of_lt hx

theorem block_setSize : (setSize ino x).block i = ino.block i := load_store_ne (by omega)

theorem indirect_setSize : (setSize ino x).indirect = ino.indirect := load_store_ne (by omega)

theorem type_setParent : (setParent ino x).type = ino.type := load_store_ne (by omega)

theorem block_setParent (hi : i < 10) : (setParent ino x).block i = ino.block i := load_store_ne (by omega)

theorem indirect_setParent : (setParent ino x).indirect = ino.indirect := load_store_ne (by omega)

theorem load_zero (a : Nat) : ∀ k, load (fun _ => 0) a k = 0
  | 0 => rfl
  | k + 1 => by
    rw [load, load_zero (a + 1) k]
    rfl

theorem block_fresh (ty : Nat) : (fresh ty).block i = 0 := block_setType.trans (load_zero _ _)

theorem indirect_fresh (ty : Nat) : (fresh ty).indirect = 0 := indirect_setType.trans (load_zero _ _)

end Inode

/-! ## Bits of the bitmap -/

theorem getLsbD_mask (h : c / 8 = b / 8) : (1#8 <<< (b % 8)).getLsbD (c % 8) = decide (c = b) := by
  have h1 : c % 8 < 8 := Nat.mod_lt _ (by decide)
  by_cases hcb : c = b
  · subst hcb
    simp [h1]
  · have hne : c % 8 ≠ b % 8 := by omega
    by_cases hlt : c % 8 < b % 8
    · simp [hcb, hlt]
    · have : c % 8 - b % 8 ≠ 0 := by omega
      simp [hcb, BitVec.getLsbD_one, this]

theorem testBit_set (m : Mem) (b c : Nat) :
    testBit (Function.update m (b / 8) (m (b / 8) ||| (1#8 <<< (b % 8)))) c = (decide (c = b) || testBit m c) := by
  unfold testBit
  by_cases h : c / 8 = b / 8
  · rw [h, Function.update_self, BitVec.getLsbD_or, getLsbD_mask h, Bool.or_comm]
  · have hcb : c ≠ b := by
      rintro rfl
      exact h rfl
    rw [Function.update_of_ne h]
    simp [hcb]

theorem testBit_clear (m : Mem) (b c : Nat) :
    testBit (Function.update m (b / 8) (m (b / 8) &&& ~~~(1#8 <<< (b % 8)))) c = (!decide (c = b) && testBit m c) := by
  unfold testBit
  by_cases h : c / 8 = b / 8
  · have h1 : c % 8 < 8 := Nat.mod_lt _ (by decide)
    rw [h, Function.update_self, BitVec.getLsbD_and, BitVec.getLsbD_not, getLsbD_mask h, Bool.and_comm]
    simp [h1]
  · have hcb : c ≠ b := by
      rintro rfl
      exact h rfl
    rw [Function.update_of_ne h]
    simp [hcb]

/-! ## What a write changes -/

section

theorem disk_writeSector (v : Volume) (t : Nat) (buf : Mem) : (writeSector v t buf).disk t = buf :=
  Function.update_self ..

theorem disk_writeSector_ne (h : s ≠ t) : (writeSector v t buf).disk s = v.disk s := Function.update_of_ne h ..

@[simp] theorem faults_writeSector : (writeSector v t buf).faults = v.faults := rfl

@[simp] theorem disk_touch (v : Volume) (n : Nat) : (v.touch n).disk = v.disk := by
  unfold Volume.touch
  split <;> rfl

@[simp] theorem sb_touch (v : Volume) (n : Nat) : (v.touch n).sb = v.sb := by
  unfold Volume.touch
  split <;> rfl

@[simp] theorem sb_inodeWrite (v : Volume) (n : Nat) (ino : Inode) : (inodeWrite v n ino).sb = v.sb := sb_touch v n

theorem inodeRead_writeSector (h : t ≠ inodeSector v n) : inodeRead (writeSector v t buf) n = inodeRead v n := by
  funext i
  exact congrFun (disk_writeSector_ne (Ne.symm h)) _

theorem bit_writeSector_ne (h : t ≠ 1) (b : Nat) : bit (writeSector v t buf) b = bit v b := by
  unfold bit
  rw [disk_writeSector_ne (Ne.symm h)]

theorem ref_writeSector (hn : ∀ n : Fin 64, t ≠ inodeSector v n) (ht : ∀ n, ref v ⟨n, .table⟩ = 0 ∨ ref v ⟨n, .table⟩ ≠ t)
    (s : Slot) : ref (writeSector v t buf) s = ref v s := by
  obtain ⟨n, p⟩ := s
  unfold ref
  rw [inodeRead_writeSector (hn n)]
  cases p with
  | direct i => rfl
  | table => rfl
  | entry k =>
    rcases ht n with h0 | hne
    · have h0 : (inodeRead v n).indirect = 0 := h0
      simp only [posRef, if_pos h0]
    · have hne : (inodeRead v n).indirect ≠ t := hne
      simp only [posRef, disk_writeSector_ne hne]

theorem typeOf_writeSector (h : t ≠ inodeSector v n) : typeOf (writeSector v t buf) n = typeOf v n := by
  unfold typeOf
  rw [inodeRead_writeSector h]

variable {a k : Nat}

theorem load_inodeRead (v : Volume) (n a k : Nat) :
    load (inodeRead v n) a k = load (v.disk (inodeSector v n)) (inodeOffset n + a) k := by
  induction k generalizing a with
  | zero => rfl
  | succ k ih =>
    rw [load, load, ih, ← Nat.add_assoc]
    rfl

theorem disk_inodeWrite (v : Volume) (n : Nat) (ino : Inode) : (inodeWrite v n ino).disk =
    Function.update v.disk (inodeSector v n) (copy (v.disk (inodeSector v n)) (inodeOffset n) ino 0 64) := by
  unfold inodeWrite writeSector
  rw [disk_touch]

theorem load_inodeWrite (n : Nat) (h : a + k ≤ 64) : load (inodeRead (inodeWrite v n ino) n) a k = load ino a k := by
  have hsector : inodeSector (inodeWrite v n ino) n = inodeSector v n := by
    unfold inodeSector
    rw [sb_inodeWrite]
  rw [load_inodeRead, hsector, disk_inodeWrite, Function.update_self, load_copy h, Nat.zero_add]

theorem load_inodeWrite_ne {n m : Nat} (hm : m ≠ n) (h : a + k ≤ 64) :
    load (inodeRead (inodeWrite v n ino) m) a k = load (inodeRead v m) a k := by
  have hsector : inodeSector (inodeWrite v n ino) m = inodeSector v m := by
    unfold inodeSector
    rw [sb_inodeWrite]
  rw [load_inodeRead, hsector, disk_inodeWrite, load_inodeRead]
  by_cases hs : inodeSector v m = inodeSector v n
  · have hmod : m / 8 = n / 8 := by
      unfold inodeSector at hs
      omega
    rw [hs, Function.update_self]
    refine load_copy_ne ?_
    unfold inodeOffset
    omega
  · rw [Function.update_of_ne hs]

theorem typeOf_inodeWrite (v : Volume) (n : Fin 64) (ino : Inode) : typeOf (inodeWrite v n ino) n = ino.type :=
  load_inodeWrite n (by omega)

theorem typeOf_inodeWrite_ne (h : m ≠ n) : typeOf (inodeWrite v n ino) m = typeOf v m :=
  load_inodeWrite_ne (fun he => h (Fin.ext he)) (by omega)

theorem bit_inodeWrite (g : Geometry v) (n : Fin 64) (b : Nat) : bit (inodeWrite v n ino) b = bit v b := by
  have := g.sector_lt n
  unfold bit
  rw [disk_inodeWrite, Function.update_of_ne (by omega)]

theorem posRef_inodeWrite {ino' : Inode} (g : Geometry v) (h : ino'.indirect = 0 ∨ 10 ≤ ino'.indirect) (p : Pos) :
    posRef (inodeWrite v n ino).disk ino' p = posRef v.disk ino' p := by
  cases p with
  | direct i => rfl
  | table => rfl
  | entry k =>
    have := g.sector_lt n
    rcases h with h | h
    · simp only [posRef, if_pos h]
    · rw [posRef, posRef, disk_inodeWrite, Function.update_of_ne (by omega)]

theorem posRef_congr {disk : Nat → Mem} {ino ino' : Inode} (hb : ∀ i < 10, ino.block i = ino'.block i)
    (ht : ino.indirect = ino'.indirect) (p : Pos) : posRef disk ino p = posRef disk ino' p := by
  cases p with
  | direct i => exact hb i i.isLt
  | table => exact ht
  | entry k => simp only [posRef, ht]

theorem ref_inodeWrite (g : Geometry v) (h : ino.indirect = 0 ∨ 10 ≤ ino.indirect) (p : Pos) :
    ref (inodeWrite v n ino) ⟨n, p⟩ = posRef v.disk ino p := by
  rw [ref, posRef_congr (fun i _ => load_inodeWrite n (by omega)) (load_inodeWrite n (by omega)) p,
    posRef_inodeWrite g h]

theorem ref_inodeWrite_of_ne (g : Geometry v) (ht : ref v ⟨m, .table⟩ = 0 ∨ 10 ≤ ref v ⟨m, .table⟩) (hm : m ≠ n)
    (p : Pos) : ref (inodeWrite v n ino) ⟨m, p⟩ = ref v ⟨m, p⟩ := by
  have hne : (m : Nat) ≠ n := fun he => hm (Fin.ext he)
  rw [ref, posRef_congr (fun i _ => load_inodeWrite_ne hne (by omega)) (load_inodeWrite_ne hne (by omega)) p,
    posRef_inodeWrite g ht]
  rfl

end

/-! ## Sound volumes -/

theorem Sound.table (h : Sound v) (n : Fin 64) : ref v ⟨n, .table⟩ = 0 ∨ 10 ≤ ref v ⟨n, .table⟩ := by
  by_cases h0 : ref v ⟨n, .table⟩ = 0
  · exact .inl h0
  · exact .inr (h.slots.area _ h0).1

theorem ref_inodeWrite_ne (h : Sound v) (hm : m ≠ n) (p : Pos) : ref (inodeWrite v n ino) ⟨m, p⟩ = ref v ⟨m, p⟩ :=
  ref_inodeWrite_of_ne h.geometry (h.table m) hm p

end Amfs
end AmitX
