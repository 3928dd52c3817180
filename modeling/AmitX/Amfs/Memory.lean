import AmitX.Amfs.Owned
/-!
# Memory — what `amfs.c` keeps in memory

No call changes the superblock in memory or unmounts the volume.
-/
namespace AmitX
namespace Amfs

open Run Bytes

def Volume.memory (v : Volume) : Superblock × Bool := (v.sb, v.mounted)

theorem sb_of_memory {v w : Volume} (h : w.memory = v.memory) : w.sb = v.sb := congrArg Prod.fst h

theorem mounted_of_memory {v w : Volume} (h : w.memory = v.memory) : w.mounted = v.mounted := congrArg Prod.snd h

theorem memory_writeSector (v : Volume) (t : Nat) (buf : Mem) : (writeSector v t buf).memory = v.memory := rfl

theorem memory_touch (v : Volume) (n : Nat) : (v.touch n).memory = v.memory := by
  unfold Volume.touch
  split
  all_goals rfl

theorem memory_inodeWrite (v : Volume) (n : Nat) (ino : Inode) : (inodeWrite v n ino).memory = v.memory :=
  memory_touch v n

theorem memory_releaseSector (v : Volume) (x : Nat) : (releaseSector v x).memory = v.memory := by
  unfold releaseSector bitmapClear
  dsimp only
  split
  case isTrue => rfl
  case isFalse =>
    split
    all_goals rfl

theorem memory_bitmapAlloc (v : Volume) : (bitmapAlloc v).2.memory = v.memory := by
  unfold bitmapAlloc
  dsimp only
  split
  all_goals rfl

theorem memory_directBlock (v : Volume) (n i : Nat) (alloc : Bool) : (directBlock v n i alloc).2.memory = v.memory := by
  have halloc := memory_bitmapAlloc v
  unfold directBlock
  dsimp only
  split
  case isTrue =>
    split
    case h_1 h => exact h ▸ halloc
    case h_2 h =>
      rw [h] at halloc
      exact (memory_inodeWrite _ _ _).trans halloc
  case isFalse => rfl

theorem memory_tableBlock (v : Volume) (n : Nat) (ino : Inode) (modified : Bool) (k : Nat) (alloc : Bool) :
    (tableBlock v n ino modified k alloc).2.memory = v.memory := by
  have halloc := memory_bitmapAlloc v
  unfold tableBlock
  dsimp only
  split
  case isTrue =>
    split
    case h_1 h =>
      rw [h] at halloc
      dsimp only
      split
      all_goals exact halloc
    case h_2 h =>
      rw [h] at halloc
      dsimp only
      split
      case isTrue =>
        rw [memory_inodeWrite, memory_writeSector, memory_touch]
        exact halloc
      case isFalse =>
        rw [memory_writeSector, memory_touch]
        exact halloc
  case isFalse =>
    dsimp only
    split
    case isTrue => exact memory_inodeWrite v n ino
    case isFalse => rfl

theorem memory_indirectBlock (v : Volume) (n k : Nat) (alloc : Bool) : (indirectBlock v n k alloc).2.memory = v.memory := by
  have halloc := memory_bitmapAlloc v
  unfold indirectBlock
  dsimp only
  split
  case isTrue => rfl
  case isFalse =>
    split
    case isTrue =>
      split
      case isTrue =>
        split
        case h_1 h => exact h ▸ halloc
        case h_2 h =>
          rw [h] at halloc
          rw [memory_tableBlock]
          exact halloc
      case isFalse => rfl
    case isFalse => exact memory_tableBlock v n _ false k alloc

theorem memory_blockForOffset (v : Volume) (n offset : Nat) (alloc : Bool) : (blockForOffset v n offset alloc).2.memory = v.memory := by
  unfold blockForOffset
  split
  case isTrue => exact memory_directBlock v n _ alloc
  case isFalse => exact memory_indirectBlock v n _ alloc

theorem memory_writeBlocks (n : Nat) (data : List Byte) : ∀ (is : List Nat) (v : Volume), (writeBlocks n data v is).2.memory = v.memory
  | [], v => rfl
  | i :: is, v => by
    rw [writeBlocks]
    split
    case isTrue => exact memory_blockForOffset v n (512 * i) true
    case isFalse => exact (memory_writeBlocks n data is _).trans (memory_blockForOffset v n (512 * i) true)

theorem memory_releaseBlocks : ∀ (is : List Nat) (s : Volume × Inode), (is.foldl releaseBlock s).1.memory = s.1.memory
  | [], _ => rfl
  | i :: is, s => (memory_releaseBlocks is (releaseBlock s i)).trans (memory_releaseSector s.1 (s.2.block i))

theorem memory_releaseRefs (ind : Mem) :
    ∀ (is : List Nat) (v : Volume), (is.foldl (fun v i => releaseSector v (load ind (4 * i) 4)) v).memory = v.memory
  | [], _ => rfl
  | _ :: is, v => (memory_releaseRefs ind is _).trans (memory_releaseSector v _)

theorem memory_releaseTable (v : Volume) (ino : Inode) : (releaseTable v ino).1.memory = v.memory := by
  unfold releaseTable
  split
  case isTrue => rfl
  case isFalse => exact (memory_releaseSector _ _).trans (memory_releaseRefs _ (List.range 128) v)

theorem memory_truncate (v : Volume) (ino : Inode) : (truncate v ino).1.memory = v.memory :=
  (memory_releaseTable _ _).trans (memory_releaseBlocks (List.range 10) (v, ino))

theorem memory_inodeFree (v : Volume) (n : Nat) : (inodeFree v n).memory = v.memory := by
  unfold inodeFree
  dsimp only
  rw [memory_inodeWrite]
  exact memory_truncate v _

theorem memory_writeInode (v : Volume) (n : Nat) (data : List Byte) : (writeInode v n data).2.memory = v.memory := by
  unfold writeInode
  dsimp only
  split
  case isTrue => rfl
  case isFalse =>
    split
    case isTrue => rw [memory_inodeWrite, memory_writeBlocks, memory_inodeWrite, memory_truncate]
    case isFalse => rw [memory_writeBlocks, memory_inodeWrite, memory_truncate]

theorem memory_noteEntry (v : Volume) (o : Nat) : (v.noteEntry o).memory = v.memory := by
  unfold Volume.noteEntry
  split
  all_goals rfl

theorem memory_notePath (v : Volume) (path : List Byte) : (v.notePath path).memory = v.memory := by
  unfold Volume.notePath
  split
  all_goals rfl

theorem memory_dirAddEntry (behind : Mem) (v : Volume) (d : Nat) (name : List Byte) (inum : Nat) :
    (dirAddEntry behind v d name inum).2.memory = v.memory := by
  have hblock := memory_blockForOffset v d (32 * addSlot behind v d) true
  unfold dirAddEntry
  dsimp only
  split
  case isTrue => rfl
  case isFalse =>
    split
    case isTrue => rfl
    case isFalse =>
      split
      case isTrue => rfl
      case isFalse =>
        split
        case isTrue => exact hblock
        case isFalse =>
          have hwrite : ∀ (o : Nat) (buf : Mem), (writeSector (((blockForOffset v d (32 * addSlot behind v d) true).2.touch
              d).noteEntry o) (blockForOffset v d (32 * addSlot behind v d) true).1 buf).memory = v.memory := fun o buf => by
            rw [memory_writeSector, memory_noteEntry, memory_touch]
            exact hblock
          dsimp only
          split
          case isTrue =>
            unfold growDir
            rw [memory_inodeWrite]
            exact hwrite _ _
          case isFalse => exact hwrite _ _

theorem memory_dirRemoveEntry (behind : Mem) (v : Volume) (d : Nat) (name : List Byte) :
    (dirRemoveEntry behind v d name).2.memory = v.memory := by
  unfold dirRemoveEntry
  split
  case h_1 => rfl
  case h_2 =>
    dsimp only
    split
    case isTrue => rfl
    case isFalse => rw [memory_writeSector, memory_touch]

theorem memory_makeNode (type : Nat) (behind : Mem) (v : Volume) (path : List Byte) :
    (makeNode type behind v path).2.memory = v.memory := by
  unfold makeNode
  dsimp only
  split
  case isTrue => rfl
  case isFalse =>
    split
    case isTrue => rfl
    case isFalse =>
      split
      case h_1 => exact memory_notePath v path
      case h_2 parent name _ =>
        split
        case h_1 => exact memory_notePath v path
        case h_2 n w halloc =>
          have hw : w.memory = v.memory := by
            unfold inodeAlloc at halloc
            split at halloc
            case h_1 => cases halloc
            case h_2 =>
              injection halloc with halloc
              injection halloc with _ halloc
              rw [← halloc, memory_inodeWrite]
              exact memory_notePath v path
          have hadd := (memory_dirAddEntry behind (inodeWrite w n ((Inode.fresh type).setParent parent)) parent name n).trans
            ((memory_inodeWrite w n _).trans hw)
          split
          case isTrue => exact hadd
          case isFalse => exact (memory_inodeFree _ n).trans hadd

theorem memory_amfsWrite (behind : Mem) (v : Volume) (path data : List Byte) : (amfsWrite behind v path data).2.memory = v.memory := by
  have hmake := memory_makeNode typeFile behind v path
  unfold amfsWrite amfsCreate
  dsimp only
  split
  case isTrue => rfl
  case isFalse =>
    split
    case h_1 => exact memory_writeInode v _ data
    case h_2 =>
      split
      case isTrue => exact hmake
      case isFalse =>
        split
        case h_1 => exact hmake
        case h_2 => exact (memory_writeInode _ _ data).trans hmake

theorem memory_amfsDelete (behind : Mem) (v : Volume) (path : List Byte) : (amfsDelete behind v path).2.memory = v.memory := by
  have hnote := memory_notePath v path
  unfold amfsDelete
  dsimp only
  split
  case isTrue => rfl
  case isFalse =>
    split
    case isTrue => rfl
    case isFalse =>
      split
      case h_1 =>
        split
        case isTrue => exact hnote
        case isFalse => exact (memory_dirRemoveEntry _ _ _ _).trans ((memory_inodeFree _ _).trans hnote)
      case h_2 => exact hnote

theorem memory_run (v : Volume) (calls : List Call) : (run Call.run v calls).2.memory = v.memory := by
  refine Run.run_keeps (A := fun _ _ _ => True) (I := fun _ (w : Volume) => w.memory = v.memory) (fun _ w c hw _ => ?_) rfl calls
    (fun _ _ _ _ => trivial)
  cases c with
  | create behind path => exact (memory_makeNode typeFile behind w path).trans hw
  | mkdir behind path => exact (memory_makeNode typeDir behind w path).trans hw
  | write behind path data => exact (memory_amfsWrite behind w path data).trans hw
  | delete behind path => exact (memory_amfsDelete behind w path).trans hw

end Amfs
end AmitX
