import AmitX.Amfs.Files
import AmitX.Lib.Run
/-!
# Owned — block ownership over runs of calls (`amfs_create`, `amfs_mkdir`, `amfs_write`, `amfs_delete`)

Every call keeps references sound and loses no block, if the inode numbers that it finds are of the table and no table
takes the last free block (`Call.Fits`); from `amfs_mkfs` on that holds after every run of such calls.
-/
namespace AmitX
namespace Amfs

open Bytes
open Run (run Allowed)

variable {v v' w : Volume} {n m d : Fin 64} {t b c i k : Nat} {s : Slot} {ino : Inode} {behind buf : Mem}
  {name path : List Byte}

/-! ## What does not depend on the ghost -/

structure Alike (v w : Volume) : Prop where
  sb : w.sb = v.sb
  disk : w.disk = v.disk

theorem Alike.fault (v : Volume) (f : Fault) : Alike v (v.fault f) := ⟨rfl, rfl⟩

theorem Alike.touch (v : Volume) (n : Nat) : Alike v (v.touch n) := ⟨sb_touch v n, disk_touch v n⟩

theorem Alike.noteEntry (v : Volume) (o : Nat) : Alike v (v.noteEntry o) := by
  unfold Volume.noteEntry
  split
  · exact ⟨rfl, rfl⟩
  · exact .fault v _

theorem Alike.notePath (v : Volume) (path : List Byte) : Alike v (v.notePath path) := by
  unfold Volume.notePath
  split
  · exact .fault v _
  · exact ⟨rfl, rfl⟩

theorem Alike.writeSector (h : Alike v w) (t : Nat) (buf : Mem) : Alike (writeSector v t buf) (writeSector w t buf) := by
  constructor
  · exact h.sb
  · unfold Amfs.writeSector
    rw [h.disk]

theorem Alike.trans (h : Alike v v') (h' : Alike v' w) : Alike v w := ⟨h'.sb.trans h.sb, h'.disk.trans h.disk⟩

theorem Alike.inodeRead (h : Alike v w) (n : Nat) : inodeRead w n = inodeRead v n := by
  unfold Amfs.inodeRead inodeSector
  rw [h.sb, h.disk]

theorem Alike.same (h : Alike v w) : Same v w := by
  constructor
  · exact h.sb
  · intro m
    rw [typeOf, h.inodeRead]
    rfl
  · intro s
    rw [ref, h.inodeRead, h.disk]
    rfl
  · intro b
    rw [bit, h.disk]
    rfl

theorem slotSector_eq (v : Volume) (d i : Nat) : slotSector v d i = refAt v d (i / 16) := by
  have hq : 32 * i / 512 = i / 16 := by omega
  rw [slotSector, blockForOffset_look, hq]

theorem Alike.slotSector (h : Alike v w) (d i : Nat) : slotSector w d i = slotSector v d i := by
  rw [slotSector_eq, slotSector_eq, refAt, h.inodeRead, h.disk]
  rfl

theorem Alike.dirFindEntry (h : Alike v w) (d : Nat) (name : List Byte) :
    dirFindEntry behind w d name = dirFindEntry behind v d name := by
  have hmatch : matchAt behind w d name = matchAt behind v d name := by
    funext i
    unfold matchAt readSector
    rw [h.slotSector, h.disk]
  unfold Amfs.dirFindEntry entries
  rw [h.inodeRead, hmatch]

theorem Alike.lookupFrom (h : Alike v w) : ∀ (names : List (List Byte)) (n : Nat),
    lookupFrom behind w n names = lookupFrom behind v n names
  | [], _ => rfl
  | name :: names, n => by
    unfold Amfs.lookupFrom
    rw [h.inodeRead, h.dirFindEntry]
    split
    · rfl
    · split
      · rfl
      · exact h.lookupFrom names _

theorem Alike.pathLookup (h : Alike v w) (path : List Byte) : pathLookup behind w path = pathLookup behind v path := by
  unfold Amfs.pathLookup
  cases path with
  | nil => rfl
  | cons c rest =>
    dsimp only
    rw [h.sb, h.lookupFrom]

theorem Alike.pathLookupParent (h : Alike v w) (path : List Byte) :
    pathLookupParent behind w path = pathLookupParent behind v path := by
  unfold Amfs.pathLookupParent
  rw [h.sb, h.pathLookup]

/-! ## Directories -/

theorem exists_ref_of_refAt {q : Nat} (h : refAt v d q ≠ 0) :
    ∃ s : Slot, s.inode = d ∧ s.pos ≠ .table ∧ ref v s = refAt v d q := by
  by_cases hq : q < 10
  · exact ⟨⟨d, .direct ⟨q, hq⟩⟩, rfl, by simp, (refAt_direct hq).symm⟩
  · by_cases hk : q - 10 < 128
    · exact ⟨⟨d, .entry ⟨q - 10, hk⟩⟩, rfl, by simp, (refAt_entry (by omega) hk).symm⟩
    · have : posOf q = none := by
        unfold posOf
        rw [dif_neg hq, dif_neg hk]
      rw [refAt, this] at h
      exact absurd rfl h

theorem Sound.same_slot {q : Nat} (h : Sound v) (h0 : refAt v d q ≠ 0) (buf : Mem) :
    Same v (writeSector v (refAt v d q) buf) := by
  obtain ⟨s, -, hp, hs⟩ := exists_ref_of_refAt h0
  rw [← hs] at h0 ⊢
  exact h.same_data hp h0 buf

/-- The table of inode `n` would take the last free block, and it is needed for block `q`. -/
def TableTight (v : Volume) (n q : Nat) : Prop := 10 ≤ q ∧ (inodeRead v n).indirect = 0 ∧ freeBlocks v = 1

instance (v : Volume) (n q : Nat) : Decidable (TableTight v n q) := inferInstanceAs (Decidable (_ ∧ _ ∧ _))

theorem Given.keeps {r : Nat × Volume} (h : Sound v) (hl : NoLeak v) (hn : typeOf v s.inode ≠ typeFree)
    (hg : Given v s r) : Sound r.2 ∧ NoLeak r.2 := by
  cases hg with
  | there h0 => exact ⟨h, hl⟩
  | full h0 hfull => exact ⟨h, hl⟩
  | fresh ha => exact ⟨ha.sound h hn, ha.noLeak hl⟩

theorem Taken.keeps {r : Nat × Volume} {q : Nat} (h : Sound v) (hl : NoLeak v) (hn : typeOf v n ≠ typeFree)
    (hf : ¬TableTight v n q) (ht : Taken v n q r) : Sound r.2 ∧ NoLeak r.2 := by
  cases ht with
  | direct hq hg => exact hg.keeps h hl hn
  | none hq => exact ⟨h, hl⟩
  | entry hq hk hg =>
    cases hg with
    | given hg => exact hg.keeps h hl hn
    | leak h0 hleak => exact absurd ⟨hq, h0, hleak.freeBlocks⟩ hf
    | both h1 h2 =>
      have hu := h1.sound h hn
      exact ⟨h2.sound hu (by rw [h1.types]; exact hn), h2.noLeak (h1.noLeak hl)⟩

theorem putEntry_keeps {q : Nat} (h : Sound v) (hl : NoLeak v) (h0 : refAt v d q ≠ 0) (o : Nat) (buf : Mem) :
    Sound (writeSector ((v.touch d).noteEntry o) (refAt v d q) buf) ∧
      NoLeak (writeSector ((v.touch d).noteEntry o) (refAt v d q) buf) := by
  have ha : Alike v ((v.touch d).noteEntry o) := (Alike.touch v d).trans (.noteEntry _ o)
  have hs := (h.same_slot h0 buf).trans (ha.writeSector _ buf).same
  exact ⟨hs.sound h, hs.noLeak hl⟩

theorem growDir_keeps (h : Sound v) (hl : NoLeak v) (d : Fin 64) : Sound (growDir v d) ∧ NoLeak (growDir v d) := by
  have hs := h.same_setSize d ((inodeRead v d).size + 32)
  exact ⟨hs.sound h, hs.noLeak hl⟩

/-- The directory can take an entry without a table that takes the last free block. -/
def DirFits (behind : Mem) (v : Volume) (d : Nat) : Prop :=
  (inodeRead v d).type = typeDir → ¬TableTight v d (addSlot behind v d / 16)

theorem dirAddEntry_keeps (name : List Byte) (h : Sound v) (hl : NoLeak v) (inum : Nat) (hf : DirFits behind v d) :
    Sound (dirAddEntry behind v d name inum).2 ∧ NoLeak (dirAddEntry behind v d name inum).2 := by
  unfold dirAddEntry
  by_cases hlen : 30 ≤ name.length
  · rw [if_pos hlen]
    exact ⟨h, hl⟩
  rw [if_neg hlen]
  by_cases htype : (inodeRead v d).type ≠ typeDir
  · rw [if_pos htype]
    exact ⟨h, hl⟩
  rw [if_neg htype]
  by_cases hfound : (dirFindEntry behind v d name).isSome = true
  · rw [if_pos hfound]
    exact ⟨h, hl⟩
  rw [if_neg hfound]
  have hd : typeOf v d ≠ typeFree := by
    have : typeOf v d = typeDir := not_not.1 htype
    rw [this]
    decide
  have hq : 32 * addSlot behind v d / 512 = addSlot behind v d / 16 := by omega
  have ht := blockForOffset_taken h hd (32 * addSlot behind v d)
  rw [hq] at ht
  dsimp only
  generalize blockForOffset v d (32 * addSlot behind v d) true = r at ht ⊢
  obtain ⟨hr, hrl⟩ := ht.keeps h hl hd (hf (not_not.1 htype))
  by_cases h0 : r.1 = 0
  · rw [if_pos h0]
    exact ⟨hr, hrl⟩
  · rw [if_neg h0]
    have href := ht.ref h0
    have hput := putEntry_keeps hr hrl (href ▸ h0) (slotOffset (addSlot behind v d))
      (putEntry (readSector behind r.2 r.1) (slotOffset (addSlot behind v d)) name inum)
    rw [href] at hput
    dsimp only
    split
    · exact growDir_keeps hput.1 hput.2 d
    · exact hput

theorem dirRemoveEntry_keeps (h : Sound v) (hl : NoLeak v) :
    Sound (dirRemoveEntry behind v d name).2 ∧ NoLeak (dirRemoveEntry behind v d name).2 := by
  unfold dirRemoveEntry
  split
  · exact ⟨h, hl⟩
  · rename_i x i _
    dsimp only
    split
    · exact ⟨h, hl⟩
    · rename_i h0
      rw [slotSector_eq] at h0 ⊢
      have hs := (h.same_slot h0
        (store (store (readSector behind v (refAt v d (i / 16))) (slotOffset i) 4 0) (slotOffset i + 4) 1 0)).trans
        ((Alike.touch v d).writeSector _ _).same
      exact ⟨hs.sound h, hs.noLeak hl⟩

/-! ## New nodes -/

/-- A free inode is written that refers to nothing, of type `ty`. -/
structure Fresh (v w : Volume) (n : Fin 64) (ty : Nat) : Prop where
  sb : w.sb = v.sb
  types : ∀ m, typeOf w m = if m = n then ty else typeOf v m
  refs : ∀ s, ref w s = ref v s
  bits : ∀ b, bit w b = bit v b

theorem Sound.fresh (h : Sound v) (hn : typeOf v n = typeFree) (hb : ∀ i < 10, ino.block i = 0)
    (hi : ino.indirect = 0) : Fresh v (inodeWrite v n ino) n ino.type := by
  constructor
  · exact sb_inodeWrite ..
  · intro m
    by_cases hm : m = n
    · rw [hm, typeOf_inodeWrite, if_pos rfl]
    · rw [typeOf_inodeWrite_ne hm, if_neg hm]
  · rintro ⟨m, p⟩
    by_cases hm : m = n
    · subst hm
      rw [ref_inodeWrite h.geometry (.inl hi), h.free m hn p]
      cases p with
      | direct i => exact hb i i.isLt
      | table => exact hi
      | entry k => exact if_pos hi
    · exact ref_inodeWrite_ne h hm p
  · exact bit_inodeWrite h.geometry n

theorem Fresh.sound {ty : Nat} (hf : Fresh v w n ty) (h : Sound v) (hn : typeOf v n = typeFree) : Sound w := by
  refine ⟨h.geometry.of_sb hf.sb, ?_, fun m hm p => ?_⟩
  · rw [funext hf.refs, funext hf.bits, hf.sb]
    exact h.slots
  · rw [hf.refs]
    by_cases hmn : m = n
    · subst hmn
      exact h.free m hn p
    · rw [hf.types, if_neg hmn] at hm
      exact h.free m hm p

theorem Fresh.noLeak {ty : Nat} (hf : Fresh v w n ty) (h : NoLeak v) : NoLeak w := by
  unfold NoLeak
  rw [funext hf.refs, funext hf.bits]
  exact h

theorem inodeAlloc_some {ty : Nat} {r : Nat × Volume} (g : Geometry v) (h : inodeAlloc v ty = some r) :
    ∃ n : Fin 64, r = (n.val, inodeWrite v n (Inode.fresh ty)) ∧ typeOf v n = typeFree := by
  unfold inodeAlloc at h
  split at h
  · cases h
  · rename_i i hi
    have hlt := List.mem_range.1 (List.mem_of_find?_eq_some hi)
    rw [g.inodeCount] at hlt
    have htype : (inodeRead v i).type = typeFree := by simpa using List.find?_some hi
    injection h with h
    exact ⟨⟨i, hlt⟩, h.symm, htype⟩

def noded (v : Volume) (n ty parent : Nat) : Volume :=
  inodeWrite (inodeWrite v n (Inode.fresh ty)) n ((Inode.fresh ty).setParent parent)

theorem fresh_noded (h : Sound v) (hn : typeOf v n = typeFree) {ty : Nat} (ht : ty < 2 ^ 32) (parent : Nat) :
    Fresh v (noded v n ty parent) n ty := by
  have hf := h.fresh hn (fun i _ => Inode.block_fresh ty) (Inode.indirect_fresh ty)
  have hw := hf.sound h hn
  have hty : (Inode.fresh ty).type = ty := Inode.type_setType ht
  rw [hty] at hf
  have hs : Same _ (noded v n ty parent) := hw.same_inode (n := n)
    (by rw [Inode.type_setParent, hty, hf.types, if_pos rfl])
    (fun i hi => by rw [Inode.block_setParent hi]; exact (load_inodeWrite n (by omega)).symm)
    (by rw [Inode.indirect_setParent]; exact (load_inodeWrite n (by omega)).symm)
  exact ⟨hs.sb.trans hf.sb, fun m => (hs.types m).trans (hf.types m), fun s => (hs.refs s).trans (hf.refs s),
    fun b => (hs.bits b).trans (hf.bits b)⟩

theorem refAt_congr (h : ∀ p, ref w ⟨d, p⟩ = ref v ⟨d, p⟩) (q : Nat) : refAt w d q = refAt v d q := by
  unfold refAt
  cases posOf q with
  | none => rfl
  | some p => exact h p

theorem addSlot_congr (hsize : (inodeRead w d).size = (inodeRead v d).size)
    (href : ∀ p, ref w ⟨d, p⟩ = ref v ⟨d, p⟩)
    (hdata : ∀ q, refAt v d q ≠ 0 → w.disk (refAt v d q) = v.disk (refAt v d q)) :
    addSlot behind w d = addSlot behind v d := by
  have hfree : freeAt behind w d = freeAt behind v d := by
    funext i
    unfold freeAt readSector
    rw [slotSector_eq, slotSector_eq, refAt_congr href]
    by_cases h0 : refAt v d (i / 16) = 0
    · simp [h0]
    · rw [hdata _ h0]
  unfold addSlot entries
  rw [hsize, hfree]

theorem Sound.refAt_area {q : Nat} (h : Sound v) (h0 : refAt v d q ≠ 0) : 10 ≤ refAt v d q := by
  obtain ⟨s, -, -, hs⟩ := exists_ref_of_refAt h0
  rw [← hs] at h0 ⊢
  exact (h.slots.area s h0).1

theorem size_noded_ne (hm : m ≠ n) (ty parent : Nat) :
    (inodeRead (noded v n ty parent) m).size = (inodeRead v m).size := by
  have hne : (m : Nat) ≠ n := fun he => hm (Fin.ext he)
  unfold noded
  exact (load_inodeWrite_ne hne (by omega)).trans (load_inodeWrite_ne hne (by omega))

theorem size_noded (v : Volume) (n : Fin 64) (ty parent : Nat) : (inodeRead (noded v n ty parent) n).size = 0 := by
  have hparent : (Inode.setParent (Inode.fresh ty) parent).size = (Inode.fresh ty).size := load_store_ne (by omega)
  have htype : (Inode.fresh ty).size = Inode.size (fun _ => 0) := load_store_ne (by omega)
  unfold noded
  exact (load_inodeWrite n (by omega)).trans (hparent.trans (htype.trans (Inode.load_zero _ _)))

/-- **The new node's inode does not change where a directory takes the next entry**, unless the directory is the node
itself, which is empty. -/
theorem dirFits_noded (h : Sound v) (hn : typeOf v n = typeFree) {ty : Nat} (ht : ty < 2 ^ 32) (parent : Nat)
    (hf : DirFits behind v d) : DirFits behind (noded v n ty parent) d := by
  have hfresh := fresh_noded h hn ht parent
  intro htype
  by_cases hd : d = n
  · subst hd
    have hslot : addSlot behind (noded v d ty parent) d = 0 := by
      unfold addSlot entries
      rw [size_noded]
      rfl
    rw [hslot]
    rintro ⟨hq, -, -⟩
    omega
  · have g' : Geometry (inodeWrite v n (Inode.fresh ty)) := h.geometry.of_sb (sb_inodeWrite ..)
    have hslot : addSlot behind (noded v n ty parent) d = addSlot behind v d := by
      refine addSlot_congr (size_noded_ne hd ty parent) (fun p => hfresh.refs ⟨d, p⟩) (fun q h0 => ?_)
      have harea := h.refAt_area h0
      rw [noded, g'.disk_inodeWrite n _ harea, h.geometry.disk_inodeWrite n _ harea]
    have hfree : freeBlocks (noded v n ty parent) = freeBlocks v := by
      unfold freeBlocks
      rw [funext hfresh.bits, hfresh.sb]
    have htable : (inodeRead (noded v n ty parent) d).indirect = (inodeRead v d).indirect := hfresh.refs ⟨d, .table⟩
    have hsame : typeOf (noded v n ty parent) d = typeOf v d := by rw [hfresh.types, if_neg hd]
    have hno := hf (hsame.symm.trans htype)
    unfold TableTight at hno ⊢
    rwa [hslot, hfree, htable]

theorem inodeFree_keeps (h : Sound v) (hl : NoLeak v) (n : Fin 64) :
    Sound (inodeFree v n) ∧ NoLeak (inodeFree v n) :=
  ⟨(inodeFree_released h n).sound h, (inodeFree_released h n).noLeak hl⟩

theorem Alike.dirFits (h : Alike v w) (hf : DirFits behind v d) : DirFits behind w d := by
  have hslot : addSlot behind w d = addSlot behind v d :=
    addSlot_congr (by rw [h.inodeRead]) (fun p => h.same.refs ⟨d, p⟩) (fun q _ => by rw [h.disk])
  unfold DirFits TableTight at hf ⊢
  rwa [hslot, h.inodeRead, h.same.freeBlocks]

/-- The parent that a path has is of the inode table, and its directory can take an entry. -/
def NodeFits (behind : Mem) (v : Volume) (path : List Byte) : Prop :=
  ∀ r, pathLookupParent behind v path = some r → r.1 < 64 ∧ DirFits behind v r.1

theorem makeNode_keeps (h : Sound v) (hl : NoLeak v) {ty : Nat} (ht : ty < 2 ^ 32) (hf : NodeFits behind v path) :
    Sound (makeNode ty behind v path).2 ∧ NoLeak (makeNode ty behind v path).2 := by
  unfold makeNode
  split
  · exact ⟨h, hl⟩
  split
  · exact ⟨h, hl⟩
  have ha := Alike.notePath v path
  have hu : Sound (v.notePath path) := ha.same.sound h
  have hul : NoLeak (v.notePath path) := ha.same.noLeak hl
  dsimp only
  rw [ha.pathLookupParent]
  cases hp : pathLookupParent behind v path with
  | none => exact ⟨hu, hul⟩
  | some r =>
    obtain ⟨parent, name⟩ := r
    obtain ⟨hlt, hfit⟩ := hf _ hp
    cases hi : inodeAlloc (v.notePath path) ty with
    | none => exact ⟨hu, hul⟩
    | some r =>
      obtain ⟨n, rfl, hn⟩ := inodeAlloc_some hu.geometry hi
      obtain ⟨d, rfl⟩ : ∃ d : Fin 64, parent = d := ⟨⟨parent, hlt⟩, rfl⟩
      have hfresh := fresh_noded hu hn ht d
      have hadd := dirAddEntry_keeps name (hfresh.sound hu hn) (hfresh.noLeak hul) n
        (dirFits_noded hu hn ht d (ha.dirFits hfit))
      unfold noded at hadd
      dsimp only
      generalize dirAddEntry behind _ d name n = r at hadd ⊢
      split
      · exact hadd
      · exact inodeFree_keeps hadd.1 hadd.2 n

/-! ## Calls -/

/-- The inode is of the table, and a file of more than ten blocks finds room that is not eleven blocks. -/
def DataFits (v : Volume) (n : Nat) (data : List Byte) : Prop :=
  n < 64 ∧ ((inodeRead v n).type = typeFile → 5120 < data.length → roomFor v n ≠ 11)

/-- `amfs_write` to a file there is, or to one that it creates and looks up again. -/
def WriteFits (behind : Mem) (v : Volume) (path data : List Byte) : Prop :=
  match pathLookup behind v path with
  | some n => DataFits v n data
  | none => NodeFits behind v path ∧ ∀ n, pathLookup behind (amfsCreate behind v path).2 path = some n →
      DataFits (amfsCreate behind v path).2 n data

def DeleteFits (behind : Mem) (v : Volume) (path : List Byte) : Prop :=
  ∀ r n, pathLookupParent behind v path = some r → pathLookup behind v path = some n → r.1 < 64 ∧ n < 64

theorem dataFits_keeps {x : Nat} {data : List Byte} (h : Sound v) (hl : NoLeak v) (hf : DataFits v x data) :
    Sound (writeInode v x data).2 ∧ NoLeak (writeInode v x data).2 := by
  obtain ⟨hlt, hroom⟩ := hf
  obtain ⟨n, rfl⟩ : ∃ n : Fin 64, x = n := ⟨⟨x, hlt⟩, rfl⟩
  exact writeInode_keeps h hl hroom

theorem amfsWrite_keeps {data : List Byte} (h : Sound v) (hl : NoLeak v) (hf : WriteFits behind v path data) :
    Sound (amfsWrite behind v path data).2 ∧ NoLeak (amfsWrite behind v path data).2 := by
  unfold amfsWrite WriteFits at *
  split
  · exact ⟨h, hl⟩
  cases hp : pathLookup behind v path with
  | some n =>
    rw [hp] at hf
    exact dataFits_keeps h hl hf
  | none =>
    rw [hp] at hf
    obtain ⟨hnode, hdata⟩ := hf
    obtain ⟨hw, hwl⟩ := makeNode_keeps h hl (show typeFile < 2 ^ 32 by decide) hnode
    dsimp only
    split
    · exact ⟨hw, hwl⟩
    cases hq : pathLookup behind (amfsCreate behind v path).2 path with
    | none => exact ⟨hw, hwl⟩
    | some n => exact dataFits_keeps hw hwl (hdata n hq)

theorem amfsDelete_keeps (h : Sound v) (hl : NoLeak v) (hf : DeleteFits behind v path) :
    Sound (amfsDelete behind v path).2 ∧ NoLeak (amfsDelete behind v path).2 := by
  unfold amfsDelete
  split
  · exact ⟨h, hl⟩
  split
  · exact ⟨h, hl⟩
  have ha := Alike.notePath v path
  have hu : Sound (v.notePath path) := ha.same.sound h
  have hul : NoLeak (v.notePath path) := ha.same.noLeak hl
  dsimp only
  rw [ha.pathLookupParent, ha.pathLookup]
  cases hp : pathLookupParent behind v path with
  | none => exact ⟨hu, hul⟩
  | some r =>
    cases hq : pathLookup behind v path with
    | none => exact ⟨hu, hul⟩
    | some x =>
      obtain ⟨hlt, hlt'⟩ := hf r x hp hq
      obtain ⟨parent, name⟩ := r
      obtain ⟨n, rfl⟩ : ∃ n : Fin 64, x = n := ⟨⟨x, hlt'⟩, rfl⟩
      obtain ⟨d, rfl⟩ : ∃ d : Fin 64, parent = d := ⟨⟨parent, hlt⟩, rfl⟩
      dsimp only
      split
      · exact ⟨hu, hul⟩
      · obtain ⟨hw, hwl⟩ := inodeFree_keeps hu hul n
        exact dirRemoveEntry_keeps hw hwl

/-! ## Format -/

theorem sb_zeroSectors (base : Nat) : ∀ (k : Nat) (v : Volume),
    ((List.range k).foldl (fun v i => writeSector v (base + i) (fun _ => 0)) v).sb = v.sb
  | 0, _ => rfl
  | k + 1, v => by
    rw [List.range_succ, List.foldl_append]
    exact sb_zeroSectors base k v

theorem disk_zeroSectors (base : Nat) : ∀ (k : Nat) (v : Volume) (t : Nat),
    ((List.range k).foldl (fun v i => writeSector v (base + i) (fun _ => 0)) v).disk t =
      if base ≤ t ∧ t < base + k then fun _ => 0 else v.disk t
  | 0, _, _ => by rw [if_neg (by omega)]; rfl
  | k + 1, v, t => by
    have ih := disk_zeroSectors base k v t
    rw [List.range_succ, List.foldl_append]
    by_cases ht : t = base + k
    · subst ht
      rw [if_pos (by omega)]
      exact disk_writeSector ..
    · refine (disk_writeSector_ne ht).trans (ih.trans ?_)
      by_cases hin : base ≤ t ∧ t < base + k
      · rw [if_pos hin, if_pos (by omega)]
      · rw [if_neg hin, if_neg (by omega)]

structure Blank (v : Volume) : Prop where
  geometry : Geometry v
  disk : ∀ t, 1 ≤ t → t < 10 → v.disk t = fun _ => 0

theorem Blank.inodeRead (h : Blank v) (m : Fin 64) : inodeRead v m = fun _ => 0 := by
  have := h.geometry.sector_lt m
  funext i
  unfold Amfs.inodeRead
  rw [h.disk _ (by omega) (by omega)]

theorem Blank.ref (h : Blank v) (s : Slot) : ref v s = 0 := by
  obtain ⟨m, p⟩ := s
  unfold Amfs.ref
  simp only [h.inodeRead]
  cases p with
  | direct i => exact Inode.load_zero ..
  | table => exact Inode.load_zero ..
  | entry k =>
    have h0 : Inode.indirect (fun _ => 0) = 0 := Inode.load_zero ..
    rw [posRef, if_pos h0]

theorem Blank.bit (h : Blank v) (b : Nat) : bit v b = false := by
  unfold Amfs.bit testBit
  rw [h.disk 1 (by omega) (by omega)]
  simp

theorem Blank.sound (h : Blank v) : Sound v := by
  refine ⟨h.geometry, ⟨?_, ?_, ?_⟩, fun n _ p => h.ref ⟨n, p⟩⟩
  · intro s hs
    exact absurd (h.ref s) hs
  · intro s hs
    exact absurd (h.ref s) hs
  · intro s t hs
    exact absurd (h.ref s) hs

theorem Blank.noLeak (h : Blank v) : NoLeak v := by
  intro b hb
  rw [h.bit] at hb
  cases hb

theorem amfsMkfs_keeps {total : Nat} (behind : Mem) (v : Volume) (h : 12 ≤ total) (hmax : total ≤ 4106) :
    Sound (amfsMkfs behind v total).2 ∧ NoLeak (amfsMkfs behind v total).2 := by
  unfold amfsMkfs
  rw [if_neg (by omega)]
  dsimp only
  generalize hw : (List.range 8).foldl _ _ = w
  have hsb : w.sb = formatted total := by
    rw [← hw]
    exact sb_zeroSectors ..
  have hblank : Blank w := by
    constructor
    · have hcount : w.sb.dataBlockCount ≤ 4096 := by
        rw [hsb]
        change total - 10 ≤ 4096
        omega
      exact ⟨by rw [hsb]; rfl, by rw [hsb]; rfl, by rw [hsb]; rfl, by rw [hsb]; rfl, hcount⟩
    · intro t h1 h10
      rw [← hw, disk_zeroSectors]
      change (if 2 ≤ t ∧ t < 2 + 8 then fun _ => 0 else _) = _
      by_cases ht : t = 1
      · rw [if_neg (by omega), ht]
        exact disk_writeSector ..
      · exact if_pos (by omega)
  have hfree : typeOf w 0 = typeFree := by
    rw [typeOf, hblank.inodeRead]
    exact Inode.load_zero ..
  have hf := hblank.sound.fresh (n := 0) hfree (fun i _ => Inode.block_fresh typeDir) (Inode.indirect_fresh typeDir)
  exact ⟨hf.sound hblank.sound hfree, hf.noLeak hblank.noLeak⟩

/-! ## Runs -/

inductive Call
  | create (behind : Mem) (path : List Byte)
  | mkdir (behind : Mem) (path : List Byte)
  | write (behind : Mem) (path data : List Byte)
  | delete (behind : Mem) (path : List Byte)

def Call.run (v : Volume) : Call → Int × Volume
  | create behind path => amfsCreate behind v path
  | mkdir behind path => amfsMkdir behind v path
  | write behind path data => amfsWrite behind v path data
  | delete behind path => amfsDelete behind v path

def Call.Fits (v : Volume) : Call → Prop
  | create behind path => NodeFits behind v path
  | mkdir behind path => NodeFits behind v path
  | write behind path data => WriteFits behind v path data
  | delete behind path => DeleteFits behind v path

theorem Call.keeps (h : Sound v) (hl : NoLeak v) (c : Call) (hf : c.Fits v) :
    Sound (c.run v).2 ∧ NoLeak (c.run v).2 := by
  cases c with
  | create behind path => exact makeNode_keeps h hl (by decide) hf
  | mkdir behind path => exact makeNode_keeps h hl (by decide) hf
  | write behind path data => exact amfsWrite_keeps h hl hf
  | delete behind path => exact amfsDelete_keeps h hl hf

/-- Each sector that an inode in use refers to is of the data area, marked, and referred to once, and each marked block
is referred to. -/
structure Owned (v : Volume) : Prop where
  area : ∀ s, typeOf v s.inode ≠ typeFree → ref v s ≠ 0 →
    v.sb.dataStart ≤ ref v s ∧ ref v s < v.sb.dataStart + v.sb.dataBlockCount
  marked : ∀ s, typeOf v s.inode ≠ typeFree → ref v s ≠ 0 → bit v (ref v s - v.sb.dataStart) = true
  once : ∀ s t, typeOf v s.inode ≠ typeFree → typeOf v t.inode ≠ typeFree → ref v s ≠ 0 → ref v s = ref v t → s = t
  noLeak : ∀ b, bit v b = true → ∃ s, typeOf v s.inode ≠ typeFree ∧ ref v s = v.sb.dataStart + b

theorem Sound.owned (h : Sound v) (hl : NoLeak v) : Owned v := by
  have hd := h.geometry.dataStart
  constructor
  · intro s _ hs
    rw [hd]
    exact h.slots.area s hs
  · intro s _ hs
    rw [hd]
    exact h.slots.used s hs
  · intro s t _ _ hs hst
    exact h.slots.once s t hs hst
  · intro b hb
    obtain ⟨s, hs⟩ := hl b hb
    refine ⟨s, fun hfree => ?_, by rw [hd, hs]⟩
    have h0 : ref v s = 0 := h.free s.inode hfree s.pos
    omega

theorem run_keeps {total : Nat} {calls : List Call} (behind : Mem) (v : Volume) (h : 12 ≤ total) (hmax : total ≤ 4106)
    (hA : Allowed Call.run (fun _ v c => c.Fits v) (amfsMkfs behind v total).2 calls) :
    Sound (run Call.run (amfsMkfs behind v total).2 calls).2 ∧
      NoLeak (run Call.run (amfsMkfs behind v total).2 calls).2 :=
  Run.run_keeps (I := fun _ v => Sound v ∧ NoLeak v) (fun _ _ c hv hf => c.keeps hv.1 hv.2 hf)
    (amfsMkfs_keeps behind v h hmax) calls hA

/-- **Block ownership.**  In every run from `amfs_mkfs` on at most 4096 data blocks whose calls fit, the blocks that the
inodes refer to are the marked ones, each referred to once. -/
theorem owned_of_fits {total : Nat} {calls : List Call} (behind : Mem) (v : Volume) (h : 12 ≤ total)
    (hmax : total ≤ 4106)
    (hA : Allowed Call.run (fun _ v c => c.Fits v) (amfsMkfs behind v total).2 calls) :
    Owned (run Call.run (amfsMkfs behind v total).2 calls).2 :=
  (run_keeps behind v h hmax hA).1.owned (run_keeps behind v h hmax hA).2

def blankVolume : Volume := ⟨fun _ _ => 0, formatted 0, true, []⟩

/-- `"/f"`. -/
def pathF : List Byte := [47, 102]

def smallVolume : Volume := (amfsMkfs (fun _ => 0) blankVolume 22).2

theorem nodeFits_root (hp : pathLookupParent behind v path = some (0, name)) (hslot : addSlot behind v 0 < 160) :
    NodeFits behind v path := by
  intro r hr
  rw [hp] at hr
  injection hr with hr
  subst hr
  refine ⟨Nat.zero_lt_succ 63, fun _ => ?_⟩
  rintro ⟨hq, -, -⟩
  dsimp only at hq
  omega

theorem create_fits_small : (Call.create (fun _ => 0) pathF).Fits smallVolume :=
  by
  have hp : pathLookupParent (fun _ => 0) smallVolume pathF = some (0, [102]) := by decide
  have hslot : addSlot (fun _ => 0) smallVolume 0 < 160 := by decide
  exact nodeFits_root hp hslot

theorem create_allowed_small :
    Allowed Call.run (fun _ v c => c.Fits v) smallVolume [.create (fun _ => 0) pathF] :=
  Run.allowed_cons.2 ⟨create_fits_small, Run.allowed_nil _⟩

theorem owned_of_fits_create : Owned (run Call.run smallVolume [.create (fun _ => 0) pathF]).2 :=
  owned_of_fits (fun _ => 0) blankVolume (by decide) (by decide) create_allowed_small

theorem not_owned_of_tight {data : List Byte} (h : Sound v) (hl : NoLeak v) (hm : v.mounted = true)
    (hp : pathLookup behind v path = some n.val) (ht : typeOf v n = typeFile) (hroom : roomFor v n = 11)
    (hlen : 5120 < data.length) : ¬Owned (amfsWrite behind v path data).2 := by
  have hne : data ≠ [] := by
    rintro rfl
    simp at hlen
  have hwrite : amfsWrite behind v path data = writeInode v n data := by
    unfold amfsWrite
    rw [if_neg (by simp [hm, hne]), hp]
  obtain ⟨-, hw, hleak⟩ := writeInode_leaks h hl ht hroom hlen
  rw [hwrite]
  intro ho
  refine hleak (fun b hb => ?_)
  obtain ⟨s, -, hs⟩ := ho.noLeak b hb
  rw [hw.geometry.dataStart] at hs
  exact ⟨s, hs⟩

/-- The volume once `"/f"` is created. -/
def createdVolume : Volume := (amfsCreate (fun _ => 0) smallVolume pathF).2

theorem createdVolume_tight : createdVolume.mounted = true ∧
    pathLookup (fun _ => 0) createdVolume pathF = some (1 : Fin 64).val ∧
    typeOf createdVolume 1 = typeFile ∧ roomFor createdVolume (1 : Fin 64) = 11 := by
  decide +kernel

theorem createdVolume_eq : createdVolume = (run Call.run smallVolume [.create (fun _ => 0) pathF]).2 := by
  simp only [createdVolume, run, Call.run]

theorem createdVolume_keeps : Sound createdVolume ∧ NoLeak createdVolume := by
  rw [createdVolume_eq]
  exact run_keeps (fun _ => 0) blankVolume (by decide) (by decide) create_allowed_small

/-- **A file that is created, and 5121 bytes written to it:** ten blocks and the table take all that is left. -/
theorem not_owned_of_calls : ¬∀ (behind : Mem) (v : Volume) (total : Nat) (calls : List Call),
    12 ≤ total → total ≤ 4106 → Owned (run Call.run (amfsMkfs behind v total).2 calls).2 := by
  intro h
  have howned := h (fun _ => 0) blankVolume 22
    [.create (fun _ => 0) pathF, .write (fun _ => 0) pathF (List.replicate 5121 1)] (by decide) (by decide)
  obtain ⟨hm, hp, ht, hroom⟩ := createdVolume_tight
  have hlen : 5120 < (List.replicate 5121 (1 : Byte)).length := by
    rw [List.length_replicate]
    decide
  have hwrite := not_owned_of_tight createdVolume_keeps.1 createdVolume_keeps.2 hm hp ht hroom hlen
  simp only [run, Call.run] at howned
  exact hwrite howned

end Amfs
end AmitX
