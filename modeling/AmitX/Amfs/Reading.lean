import AmitX.Amfs.Memory
import AmitX.Amfs.Dirs
/-!
# Reading — `amfs_read`, and what a path and a read of a file depend on

A lookup goes through the directories of its path, and a read through the blocks of the file.  Two volumes on which the
directories are the same nodes (`SameNode`) resolve a path of the table alike, and a node that is the same is read alike.
-/
namespace AmitX
namespace Amfs

open Bytes

variable {v v' w : Volume} {m n i q size : Nat} {behind : Mem} {name path : List Byte} {names : List (List Byte)}

/-! ## `amfs_read` -/

/-- The loop of `amfs_read`: a block that is missing ends it with -1. -/
def readBlocks (v : Volume) (n toRead : Nat) : List Nat → Option (List Byte)
  | [] => some []
  | i :: is =>
    let sector := (blockForOffset v n (512 * i) false).1
    if sector = 0 then none
    else (readBlocks v n toRead is).map (slice (v.disk sector) 0 (min 512 (toRead - 512 * i)) ++ ·)

/-- `amfs_read` of inode `n`. -/
def readInode (v : Volume) (n bufSize : Nat) : Option (List Byte) :=
  if (inodeRead v n).type ≠ typeFile then none
  else
    let toRead := min (inodeRead v n).size bufSize
    readBlocks v n toRead (List.range ((toRead + 511) / 512))

/-- `amfs_read`: the bytes in `buf`, as many as it returns, and `none` for -1. -/
def amfsRead (behind : Mem) (v : Volume) (path : List Byte) (bufSize : Nat) : Option (List Byte) :=
  if v.mounted = false ∨ bufSize = 0 then none
  else
    match pathLookup behind v path with
    | none => none
    | some n => readInode v n bufSize

/-! ## Paths of files -/

structure IsFile (behind : Mem) (v : Volume) (path : List Byte) (n : Nat) : Prop where
  lookup : pathLookup behind v path = some n
  file : (inodeRead v n).type = typeFile

/-- The inode numbers on the way from `d` are of the table. -/
def Passes (behind : Mem) (v : Volume) : Nat → List (List Byte) → Prop
  | d, [] => d < 64
  | d, name :: names => d < 64 ∧ ∀ m i, dirFindEntry behind v d name = some (m, i) → Passes behind v m names

/-- A path to a file, on which the inode numbers are of the table. -/
structure FilePath (behind : Mem) (v : Volume) (path : List Byte) (n : Nat) : Prop where
  isFile : IsFile behind v path n
  table : Passes behind v v.sb.rootInode (components [] path.tail)

theorem Passes.lookup_lt : ∀ {names : List (List Byte)} {d : Nat}, Passes behind v d names →
    lookupFrom behind v d names = some n → n < 64
  | [], d, h, hl => by
    cases hl
    exact h
  | name :: names, d, h, hl => by
    rw [lookupFrom] at hl
    split at hl
    case isTrue => cases hl
    case isFalse =>
      split at hl
      case h_1 => cases hl
      case h_2 m i hf => exact (h.2 m i hf).lookup_lt hl

theorem pathLookup_some (h : pathLookup behind v path = some n) :
    lookupFrom behind v v.sb.rootInode (components [] path.tail) = some n := by
  cases path with
  | nil => cases h
  | cons c rest =>
    rw [pathLookup] at h
    split at h
    case isTrue => exact h
    case isFalse => cases h

theorem FilePath.lt (h : FilePath behind v path n) : n < 64 := h.table.lookup_lt (pathLookup_some h.isFile.lookup)

theorem amfsRead_eq (h : IsFile behind v path n) (size : Nat) :
    amfsRead behind v path size = if v.mounted = false ∨ size = 0 then none else readInode v n size := by
  unfold amfsRead
  rw [h.lookup]

/-! ## Nodes that stay -/

/-- Inode `m` and its blocks are what they were. -/
structure SameNode (v w : Volume) (m : Nat) : Prop where
  type : (inodeRead w m).type = (inodeRead v m).type
  size : (inodeRead w m).size = (inodeRead v m).size
  block : ∀ q, SameBlock v w m q

theorem SameNode.trans (h : SameNode v v' m) (h' : SameNode v' w m) : SameNode v w m :=
  ⟨h'.type.trans h.type, h'.size.trans h.size, fun q => (h.block q).trans (h'.block q)⟩

theorem SameNode.symm {m : Nat} (h : SameNode v w m) : SameNode w v m := by
  refine ⟨h.type.symm, h.size.symm, fun q => ?_⟩
  obtain ⟨href, hdisk⟩ := h.block q
  refine ⟨href.symm, fun h0 => ?_⟩
  rw [href] at h0 ⊢
  exact (hdisk h0).symm

theorem readBlocks_cons (v : Volume) (n toRead i : Nat) (is : List Nat) : readBlocks v n toRead (i :: is) =
    if refAt v n i = 0 then none
    else (readBlocks v n toRead is).map (slice (v.disk (refAt v n i)) 0 (min 512 (toRead - 512 * i)) ++ ·) := by
  have hq : 512 * i / 512 = i := Nat.mul_div_cancel_left i (by decide)
  rw [readBlocks, blockForOffset_look, hq]

theorem SameNode.readBlocks (h : SameNode v w m) (toRead : Nat) :
    ∀ is : List Nat, readBlocks w m toRead is = readBlocks v m toRead is
  | [] => rfl
  | i :: is => by
    obtain ⟨href, hdisk⟩ := h.block i
    rw [readBlocks_cons, readBlocks_cons, href, h.readBlocks toRead is]
    by_cases h0 : refAt v m i = 0
    · rw [if_pos h0, if_pos h0]
    · rw [if_neg h0, if_neg h0, hdisk h0]

theorem SameNode.readInode (h : SameNode v w m) (size : Nat) : readInode w m size = readInode v m size := by
  unfold Amfs.readInode
  rw [h.type, h.size]
  dsimp only
  rw [h.readBlocks]

theorem SameNode.dirFindEntry (h : SameNode v w m) (behind : Mem) (name : List Byte) :
    dirFindEntry behind w m name = dirFindEntry behind v m name := by
  have hmatch : matchAt behind w m name = matchAt behind v m name := by
    funext i
    obtain ⟨href, hdisk⟩ := h.block (i / 16)
    unfold matchAt readSector
    rw [slotSector_eq, slotSector_eq, href]
    by_cases h0 : refAt v m (i / 16) = 0
    · rw [if_pos h0, if_pos h0]
    · rw [if_neg h0, if_neg h0, hdisk h0]
  unfold Amfs.dirFindEntry entries
  rw [h.type, h.size, hmatch]

theorem Passes.kept (hd : ∀ m < 64, (inodeRead v m).type = typeDir → SameNode v w m) :
    ∀ {names : List (List Byte)} {d : Nat}, Passes behind v d names → lookupFrom behind v d names = some n →
      Passes behind w d names ∧ lookupFrom behind w d names = some n
  | [], d, h, hl => ⟨h, hl⟩
  | name :: names, d, h, hl => by
    rw [lookupFrom] at hl
    by_cases htype : (inodeRead v d).type ≠ typeDir
    · rw [if_pos htype] at hl
      cases hl
    · rw [if_neg htype] at hl
      have hsame := hd d h.1 (not_not.1 htype)
      have hfind := hsame.dirFindEntry behind name
      cases hf : dirFindEntry behind v d name with
      | none =>
        rw [hf] at hl
        cases hl
      | some r =>
        obtain ⟨m, i⟩ := r
        rw [hf] at hl hfind
        obtain ⟨hp, hlook⟩ := (h.2 m i hf).kept hd hl
        constructor
        · refine ⟨h.1, fun m' i' hf' => ?_⟩
          rw [hfind] at hf'
          cases hf'
          exact hp
        · rw [lookupFrom, hsame.type, if_neg htype, hfind]
          exact hlook

theorem FilePath.kept (h : FilePath behind v path n) (hsb : w.sb = v.sb)
    (hd : ∀ m < 64, (inodeRead v m).type = typeDir → SameNode v w m) (hf : (inodeRead w n).type = typeFile) :
    FilePath behind w path n := by
  have hlook := h.isFile.lookup
  obtain ⟨hp, hl⟩ := h.table.kept hd (pathLookup_some hlook)
  refine ⟨⟨?_, hf⟩, ?_⟩
  · cases path with
    | nil => cases hlook
    | cons c rest =>
      rw [pathLookup] at hlook ⊢
      split at hlook
      case isTrue hc =>
        rw [if_pos hc, hsb]
        exact hl
      case isFalse => cases hlook
  · rw [hsb]
    exact hp

end Amfs
end AmitX
