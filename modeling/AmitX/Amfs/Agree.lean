import AmitX.Amfs.Reading
/-!
# Agree — volumes that differ in free inodes (`block_for_offset`, `amfs_write`)

A free inode may still hold the numbers of blocks that have other owners.  Nothing reads them: with such numbers zeroed
(`Volume.mask`) an owned volume is sound, and the functions that write a file do the same on both volumes, step by step.
-/
namespace AmitX
namespace Amfs

open Bytes

variable {v u w : Volume} {n m : Fin 64} {ino ino' : Inode} {t k i x : Nat} {alloc modified : Bool} {behind : Mem}

/-! ## Inodes with the same bytes -/

def SameBytes (ino ino' : Inode) : Prop := ∀ i < 64, ino' i = ino i

theorem SameBytes.load {a : Nat} (h : SameBytes ino ino') (ha : a + k ≤ 64) : load ino' a k = load ino a k :=
  load_congr (fun i _ hi => h i (by omega))

theorem SameBytes.type (h : SameBytes ino ino') : ino'.type = ino.type := h.load (by omega)

theorem SameBytes.size (h : SameBytes ino ino') : ino'.size = ino.size := h.load (by omega)

theorem SameBytes.block (h : SameBytes ino ino') (hi : i < 10) : ino'.block i = ino.block i := h.load (by omega)

theorem SameBytes.indirect (h : SameBytes ino ino') : ino'.indirect = ino.indirect := h.load (by omega)

theorem SameBytes.store (h : SameBytes ino ino') (a k x : Nat) : SameBytes (store ino a k x) (store ino' a k x) := by
  intro i hi
  unfold Bytes.store
  rw [h i hi]

theorem SameBytes.setBlock (h : SameBytes ino ino') (i x : Nat) : SameBytes (ino.setBlock i x) (ino'.setBlock i x) :=
  h.store _ _ _

theorem SameBytes.setIndirect (h : SameBytes ino ino') (x : Nat) : SameBytes (ino.setIndirect x) (ino'.setIndirect x) :=
  h.store _ _ _

theorem SameBytes.setSize (h : SameBytes ino ino') (x : Nat) : SameBytes (ino.setSize x) (ino'.setSize x) :=
  h.store _ _ _

/-! ## What agrees -/

structure Agree (v u : Volume) : Prop where
  memory : u.memory = v.memory
  disk : ∀ t, t < 2 ∨ 10 ≤ t → u.disk t = v.disk t
  type : ∀ m, typeOf u m = typeOf v m
  inode : ∀ m, typeOf v m ≠ typeFree → SameBytes (inodeRead v m) (inodeRead u m)

theorem Agree.sb (h : Agree v u) : u.sb = v.sb := sb_of_memory h.memory

theorem Agree.geometry (h : Agree v u) (g : Geometry v) : Geometry u := g.of_sb h.sb

theorem Agree.symm (h : Agree v u) : Agree u v := by
  constructor
  · exact h.memory.symm
  · exact fun t ht => (h.disk t ht).symm
  · exact fun m => (h.type m).symm
  · intro m hm i hi
    rw [h.type] at hm
    exact (h.inode m hm i hi).symm

def TableInArea (v : Volume) (n : Fin 64) : Prop := (inodeRead v n).indirect = 0 ∨ 10 ≤ (inodeRead v n).indirect

theorem Sound.tableInArea (h : Sound v) (n : Fin 64) : TableInArea v n := h.table n

theorem Agree.tableInArea (h : Agree v u) (hn : typeOf v n ≠ typeFree) (ht : TableInArea v n) : TableInArea u n := by
  unfold TableInArea
  rw [(h.inode n hn).indirect]
  exact ht

theorem Agree.sameNode (h : Agree v u) (hs : Sound u) (hn : typeOf u n ≠ typeFree) : SameNode v u n := by
  have hn' : typeOf v n ≠ typeFree := h.type n ▸ hn
  have hbytes := h.inode n hn'
  have hpos : ∀ p, posRef u.disk (inodeRead u n) p = posRef v.disk (inodeRead v n) p := by
    intro p
    rw [posRef_congr (fun i hi => hbytes.block hi) hbytes.indirect]
    cases p with
    | direct i => rfl
    | table => rfl
    | entry k =>
      have ht := hs.tableInArea n
      unfold TableInArea at ht
      rw [hbytes.indirect] at ht
      rcases ht with h0 | h10
      · rw [posRef, posRef, if_pos h0, if_pos h0]
      · rw [posRef, posRef, h.disk _ (.inr h10)]
  have href : ∀ q, refAt u n q = refAt v n q := by
    intro q
    unfold refAt
    rw [funext hpos]
  refine ⟨h.type n, hbytes.size, fun q => ⟨href q, fun h0 => ?_⟩⟩
  rw [← href] at h0 ⊢
  exact h.disk _ (.inr (hs.refAt_area h0))

/-! ## Writes -/

theorem inodeRead_inodeWrite (v : Volume) (n : Fin 64) (ino : Inode) :
    SameBytes ino (inodeRead (inodeWrite v n ino) n) := by
  intro i hi
  have hsector : inodeSector (inodeWrite v n ino) n = inodeSector v n := by
    unfold inodeSector
    rw [sb_inodeWrite]
  rw [inodeRead, hsector, disk_inodeWrite, Function.update_self, copy_of_mem (by omega) (by omega), Nat.zero_add,
    Nat.add_sub_cancel_left]

theorem inodeRead_inodeWrite_ne (v : Volume) (hm : m ≠ n) (ino : Inode) :
    SameBytes (inodeRead v m) (inodeRead (inodeWrite v n ino) m) := by
  intro i hi
  have hne : (m : Nat) ≠ n := fun he => hm (Fin.ext he)
  have hsector : inodeSector (inodeWrite v n ino) m = inodeSector v m := by
    unfold inodeSector
    rw [sb_inodeWrite]
  rw [inodeRead, hsector, disk_inodeWrite, inodeRead]
  by_cases hs : inodeSector v m = inodeSector v n
  · have hmod : (m : Nat) / 8 = n / 8 := by
      unfold inodeSector at hs
      omega
    rw [hs, Function.update_self]
    apply copy_of_not
    unfold inodeOffset
    omega
  · rw [Function.update_of_ne hs]

theorem Agree.writeSector (h : Agree v u) (g : Geometry v) (ht : t < 2 ∨ 10 ≤ t) (buf : Mem) :
    Agree (writeSector v t buf) (writeSector u t buf) := by
  have hne : ∀ m : Fin 64, t ≠ inodeSector v m ∧ t ≠ inodeSector u m := by
    intro m
    have := g.sector_lt m
    have := (h.geometry g).sector_lt m
    omega
  constructor
  · exact h.memory
  · intro s hs
    by_cases hst : s = t
    · rw [hst, disk_writeSector, disk_writeSector]
    · rw [disk_writeSector_ne hst, disk_writeSector_ne hst, h.disk s hs]
  · intro m
    rw [typeOf_writeSector (hne m).2, typeOf_writeSector (hne m).1, h.type]
  · intro m hm
    rw [typeOf_writeSector (hne m).1] at hm
    rw [inodeRead_writeSector (hne m).2, inodeRead_writeSector (hne m).1]
    exact h.inode m hm

theorem Geometry.writeSector (g : Geometry v) (t : Nat) (buf : Mem) : Geometry (writeSector v t buf) := g.of_sb rfl

theorem Agree.inodeWrite (h : Agree v u) (g : Geometry v) (hb : SameBytes ino ino') :
    Agree (inodeWrite v n ino) (inodeWrite u n ino') := by
  have hlt := g.sector_lt n
  have hsector : inodeSector u n = inodeSector v n := by
    unfold inodeSector
    rw [h.sb]
  constructor
  · rw [memory_inodeWrite, memory_inodeWrite, h.memory]
  · intro s hs
    rw [disk_inodeWrite, disk_inodeWrite, hsector, Function.update_of_ne (by omega), Function.update_of_ne (by omega),
      h.disk s hs]
  · intro m
    by_cases hm : m = n
    · rw [hm, typeOf_inodeWrite, typeOf_inodeWrite, hb.type]
    · rw [typeOf_inodeWrite_ne hm, typeOf_inodeWrite_ne hm, h.type]
  · intro m hm i hi
    by_cases hmn : m = n
    · rw [hmn, inodeRead_inodeWrite u n ino' i hi, inodeRead_inodeWrite v n ino i hi, hb i hi]
    · rw [typeOf_inodeWrite_ne hmn] at hm
      rw [inodeRead_inodeWrite_ne u hmn ino' i hi, inodeRead_inodeWrite_ne v hmn ino i hi, h.inode m hm i hi]

theorem Agree.fault (h : Agree v u) (f : Fault) : Agree (v.fault f) (u.fault f) :=
  ⟨h.memory, h.disk, h.type, h.inode⟩

theorem Agree.touch (h : Agree v u) (n : Nat) : Agree (v.touch n) (u.touch n) := by
  unfold Volume.touch
  rw [h.sb]
  split
  case isTrue => exact h
  case isFalse => exact h.fault _

/-! ## Taking a block -/

def Alike₂ {α : Type} (r r' : α × Volume) : Prop := r'.1 = r.1 ∧ Agree r.2 r'.2

theorem geometry_bitmapAlloc (g : Geometry v) : Geometry (bitmapAlloc v).2 :=
  g.of_sb (sb_of_memory (memory_bitmapAlloc v))

theorem bitmapAlloc_lt (g : Geometry v) (b : Nat) (h : (bitmapAlloc v).1 = b + 1) : b < 4096 := by
  have hcount := g.count
  rcases bitmapAlloc_cases g with ⟨ha, -⟩ | ⟨c, hc, -, ha⟩
  · rw [ha] at h
    cases h
  · rw [ha] at h
    cases h
    omega

theorem Agree.bitmapAlloc (h : Agree v u) (g : Geometry v) : Alike₂ (bitmapAlloc v) (bitmapAlloc u) := by
  unfold Alike₂ Amfs.bitmapAlloc
  rw [h.sb, h.disk 1 (.inl (by decide))]
  dsimp only
  split
  case h_1 => exact ⟨rfl, h⟩
  case h_2 => exact ⟨rfl, h.writeSector g (.inl (by decide)) _⟩

theorem Agree.directBlock (h : Agree v u) (g : Geometry v) (hn : typeOf v n ≠ typeFree) (hi : i < 10) (alloc : Bool) :
    Alike₂ (directBlock v n i alloc) (directBlock u n i alloc) := by
  have hbytes := h.inode n hn
  have hw := h.bitmapAlloc g
  have gw := geometry_bitmapAlloc g
  unfold Amfs.directBlock
  dsimp only
  rw [hbytes.block hi]
  generalize Amfs.bitmapAlloc v = r at hw gw ⊢
  generalize Amfs.bitmapAlloc u = r' at hw ⊢
  obtain ⟨b, v₁⟩ := r
  obtain ⟨b', u₁⟩ := r'
  obtain ⟨rfl, hw⟩ := hw
  dsimp only at hw gw ⊢
  split
  case isTrue =>
    cases b' with
    | zero => exact ⟨rfl, hw⟩
    | succ b =>
      dsimp only
      rw [hw.sb]
      refine ⟨rfl, ?_⟩
      exact hw.inodeWrite gw (hbytes.setBlock _ _)
  case isFalse => exact ⟨rfl, h⟩

theorem Agree.tableBlock (h : Agree v u) (g : Geometry v) (hb : SameBytes ino ino') (ht : 10 ≤ ino.indirect)
    (modified : Bool) (k : Nat) (alloc : Bool) :
    Alike₂ (tableBlock v n ino modified k alloc) (tableBlock u n ino' modified k alloc) := by
  have hw := h.bitmapAlloc g
  have gw := geometry_bitmapAlloc g
  unfold Amfs.tableBlock
  dsimp only
  rw [hb.indirect, h.disk _ (.inr ht)]
  generalize Amfs.bitmapAlloc v = r at hw gw ⊢
  generalize Amfs.bitmapAlloc u = r' at hw ⊢
  obtain ⟨b, v₁⟩ := r
  obtain ⟨b', u₁⟩ := r'
  obtain ⟨rfl, hw⟩ := hw
  dsimp only at hw gw ⊢
  split
  case isTrue =>
    cases b' with
    | zero =>
      cases modified with
      | true => exact ⟨rfl, hw.fault _⟩
      | false => exact ⟨rfl, hw⟩
    | succ b =>
      have gt : Geometry (v₁.touch n) := gw.of_sb (sb_touch _ _)
      have hstore := (hw.touch n).writeSector gt (.inr ht)
        (store (v.disk ino.indirect) (4 * k) 4 (v₁.sb.dataStart + b))
      dsimp only
      rw [hw.sb]
      refine ⟨rfl, ?_⟩
      cases modified with
      | true => exact hstore.inodeWrite (gt.writeSector _ _) hb
      | false => exact hstore
  case isFalse =>
    cases modified with
    | true => exact ⟨rfl, h.inodeWrite g hb⟩
    | false => exact ⟨rfl, h⟩

theorem Agree.indirectBlock (h : Agree v u) (g : Geometry v) (hn : typeOf v n ≠ typeFree) (ht : TableInArea v n)
    (k : Nat) (alloc : Bool) : Alike₂ (indirectBlock v n k alloc) (indirectBlock u n k alloc) := by
  have hbytes := h.inode n hn
  have hw := h.bitmapAlloc g
  have gw := geometry_bitmapAlloc g
  unfold Amfs.indirectBlock
  dsimp only
  rw [hbytes.indirect]
  have hlt := bitmapAlloc_lt g
  generalize Amfs.bitmapAlloc v = r at hw gw hlt ⊢
  generalize Amfs.bitmapAlloc u = r' at hw ⊢
  obtain ⟨b, v₁⟩ := r
  obtain ⟨b', u₁⟩ := r'
  obtain ⟨rfl, hw⟩ := hw
  dsimp only at hw gw ⊢
  split
  case isTrue => exact ⟨rfl, h⟩
  case isFalse =>
    split
    case isTrue =>
      split
      case isTrue =>
        cases b' with
        | zero => exact ⟨rfl, hw⟩
        | succ b =>
          dsimp only
          rw [hw.sb]
          have hb := hlt b rfl
          have hd := gw.dataStart
          have hstore := hw.writeSector gw (t := v₁.sb.dataStart + b) (.inr (by omega)) (fun _ => 0)
          have hind : (Inode.setIndirect (inodeRead v n) (v₁.sb.dataStart + b)).indirect = v₁.sb.dataStart + b :=
            Inode.indirect_setIndirect (by omega)
          exact hstore.tableBlock (gw.writeSector _ _) (hbytes.setIndirect _) (by omega) true k alloc
      case isFalse => exact ⟨rfl, h⟩
    case isFalse h0 =>
      exact h.tableBlock g hbytes (ht.resolve_left h0) false k alloc

theorem Agree.blockForOffset (h : Agree v u) (g : Geometry v) (hn : typeOf v n ≠ typeFree) (ht : TableInArea v n)
    (offset : Nat) (alloc : Bool) : Alike₂ (blockForOffset v n offset alloc) (blockForOffset u n offset alloc) := by
  unfold Amfs.blockForOffset
  split
  case isTrue hi => exact h.directBlock g hn hi alloc
  case isFalse => exact h.indirectBlock g hn ht _ alloc

/-! ## Writing a file -/

theorem Agree.releaseSector (h : Agree v u) (g : Geometry v) (x : Nat) :
    Agree (releaseSector v x) (releaseSector u x) := by
  unfold Amfs.releaseSector bitmapClear
  dsimp only
  rw [h.sb, h.disk 1 (.inl (by decide))]
  split
  case isTrue => exact h
  case isFalse =>
    split
    case isTrue => exact h
    case isFalse => exact h.writeSector g (.inl (by decide)) _

theorem Agree.cleared {v u : Volume} (h : Agree v u) : ∀ l : List Nat, Geometry v → Agree (cleared v l) (cleared u l)
  | [], _ => h
  | x :: l, g => (h.releaseSector g x).cleared l (g.of_sb (sb_releaseSector v x))

theorem SameBytes.releaseBlock (h : SameBytes ino ino') (hi : i < 10) (v u : Volume) :
    SameBytes (releaseBlock (v, ino) i).2 (releaseBlock (u, ino') i).2 := by
  unfold Amfs.releaseBlock
  dsimp only
  rw [h.block hi]
  split
  case isTrue => exact h
  case isFalse => exact h.setBlock _ _

theorem SameBytes.releaseBlocks : ∀ (is : List Nat), (∀ i ∈ is, i < 10) → ∀ {v u : Volume} {ino ino' : Inode},
    SameBytes ino ino' → SameBytes (is.foldl Amfs.releaseBlock (v, ino)).2 (is.foldl Amfs.releaseBlock (u, ino')).2
  | [], _, _, _, _, _, h => h
  | i :: is, hi, v, u, _, _, h =>
    SameBytes.releaseBlocks is (fun j hj => hi j (List.mem_cons_of_mem _ hj))
      (h.releaseBlock (hi i List.mem_cons_self) v u)

theorem SameBytes.releaseTable (h : SameBytes ino ino') (v u : Volume) :
    SameBytes (releaseTable v ino).2 (releaseTable u ino').2 := by
  unfold Amfs.releaseTable
  rw [h.indirect]
  split
  case isTrue => exact h
  case isFalse => exact h.setIndirect _

theorem SameBytes.truncate (h : SameBytes ino ino') (v u : Volume) :
    SameBytes (truncate v ino).2 (truncate u ino').2 :=
  (SameBytes.releaseBlocks (List.range 10) (fun _ hi => List.mem_range.1 hi) (v := v) (u := u) h).releaseTable _ _

theorem SameBytes.directs (h : SameBytes ino ino') : directs ino' 10 = directs ino 10 :=
  List.map_congr_left (fun _ hi => h.block (List.mem_range.1 hi))

theorem Agree.tableSectors (h : Agree v u) (hb : SameBytes ino ino') (ht : ino.indirect = 0 ∨ 10 ≤ ino.indirect) :
    tableSectors u.disk ino' = tableSectors v.disk ino := by
  unfold Amfs.tableSectors
  rw [hb.indirect]
  rcases ht with h0 | h10
  · rw [if_pos h0, if_pos h0]
  · rw [h.disk _ (.inr h10)]

theorem Agree.truncate (h : Agree v u) (g : Geometry v) (hb : SameBytes ino ino')
    (ht : ino.indirect = 0 ∨ 10 ≤ ino.indirect) : Agree (truncate v ino).1 (truncate u ino').1 := by
  obtain ⟨_, he, -⟩ := @truncate_eq ino v (by omega)
  obtain ⟨_, he', -⟩ := @truncate_eq ino' u (by rw [hb.indirect]; omega)
  have hv : (Amfs.truncate v ino).1 = Amfs.cleared v (directs ino 10 ++ Amfs.tableSectors v.disk ino) := by
    rw [he]
  have hu : (Amfs.truncate u ino').1 = Amfs.cleared u (directs ino' 10 ++ Amfs.tableSectors u.disk ino') := by
    rw [he']
  rw [hv, hu, hb.directs, h.tableSectors hb ht]
  exact h.cleared (directs ino 10 ++ Amfs.tableSectors v.disk ino) g

theorem Agree.emptied (h : Agree v u) (g : Geometry v) (hn : typeOf v n ≠ typeFree) (ht : TableInArea v n) :
    Agree (emptied v n) (emptied u n) := by
  have hbytes := h.inode n hn
  have hw := h.truncate g hbytes ht
  have gw : Geometry (Amfs.truncate v (inodeRead v n)).1 :=
    g.of_sb (sb_of_memory (memory_truncate v (inodeRead v n)))
  unfold Amfs.emptied
  exact hw.inodeWrite gw ((hbytes.truncate v u).setSize 0)

theorem Agree.writeBlocks (data : List Byte) : ∀ (is : List Nat) {v u : Volume}, Agree v u → Sound u →
    typeOf u n ≠ typeFree → Alike₂ (writeBlocks n data v is) (writeBlocks n data u is)
  | [], _, _, h, _, _ => ⟨rfl, h⟩
  | i :: is, v, u, h, hs, hn => by
    have hq : 512 * i / 512 = i := Nat.mul_div_cancel_left i (by decide)
    have g : Geometry v := h.symm.geometry hs.geometry
    have hnv : typeOf v n ≠ typeFree := h.type n ▸ hn
    have hr := h.blockForOffset g hnv (h.symm.tableInArea hn (hs.tableInArea n)) (512 * i) true
    have gr : Geometry (Amfs.blockForOffset v n (512 * i) true).2 :=
      g.of_sb (sb_of_memory (memory_blockForOffset v n (512 * i) true))
    have ht := blockForOffset_taken hs hn (512 * i)
    rw [hq] at ht
    unfold Amfs.writeBlocks
    generalize Amfs.blockForOffset v n (512 * i) true = r at hr gr ⊢
    generalize Amfs.blockForOffset u n (512 * i) true = r' at hr ht ⊢
    obtain ⟨hk, hs'⟩ := ht.kept hs hn
    dsimp only
    rw [hr.1]
    by_cases h0 : r.1 = 0
    · rw [if_pos h0, if_pos h0]
      exact ⟨rfl, hr.2⟩
    · rw [if_neg h0, if_neg h0]
      have href := ht.ref (hr.1 ▸ h0)
      rw [hr.1] at href
      have h0' : refAt r'.2 n i ≠ 0 := href ▸ h0
      have harea := hs'.refAt_area h0'
      have hsame := hs'.same_slot h0' (ofList ((data.drop (512 * i)).take 512))
      rw [href] at hsame harea
      refine Agree.writeBlocks data is (hr.2.writeSector gr (.inr harea) _) (hsame.sound hs') ?_
      rw [hsame.types, hk.types]
      exact hn

/-! ## Free inodes zeroed -/

def Volume.mask (v : Volume) : Volume :=
  { v with disk := fun t k =>
      if (2 ≤ t ∧ t < 10) ∧ k < 512 ∧ load (v.disk t) (k / 64 * 64) 4 = typeFree then 0 else v.disk t k }

theorem inodeRead_mask (g : Geometry v) (m : Fin 64) {i : Nat} (hi : i < 64) :
    inodeRead v.mask m i = if typeOf v m = typeFree then 0 else inodeRead v m i := by
  have hlt := g.sector_lt m
  have hoff : (inodeOffset m + i) / 64 * 64 = inodeOffset m := by
    unfold inodeOffset
    omega
  have h512 : inodeOffset m + i < 512 := by
    unfold inodeOffset
    omega
  have htype : typeOf v m = load (v.disk (inodeSector v m)) (inodeOffset m) 4 := load_inodeRead v m 0 4
  have hread : inodeRead v.mask m i = if (2 ≤ inodeSector v m ∧ inodeSector v m < 10) ∧ inodeOffset m + i < 512 ∧
      load (v.disk (inodeSector v m)) ((inodeOffset m + i) / 64 * 64) 4 = typeFree then 0 else inodeRead v m i := rfl
  rw [hread, hoff, ← htype]
  by_cases hf : typeOf v m = typeFree
  · rw [if_pos hf, if_pos ⟨hlt, h512, hf⟩]
  · rw [if_neg hf, if_neg (fun h => hf h.2.2)]

theorem load_mask_free (g : Geometry v) (hm : typeOf v m = typeFree) {a : Nat} (ha : a + k ≤ 64) :
    load (inodeRead v.mask m) a k = 0 := by
  have hzero : load (inodeRead v.mask m) a k = load (fun _ => 0) a k := by
    refine load_congr fun i _ hi => ?_
    rw [inodeRead_mask g m (by omega), if_pos hm]
  rw [hzero, Inode.load_zero]

theorem sameBytes_mask (g : Geometry v) (hm : typeOf v m ≠ typeFree) :
    SameBytes (inodeRead v m) (inodeRead v.mask m) := by
  intro i hi
  rw [inodeRead_mask g m hi, if_neg hm]

theorem disk_mask (v : Volume) (ht : t < 2 ∨ 10 ≤ t) : v.mask.disk t = v.disk t := by
  funext k
  exact if_neg (by omega)

theorem agree_mask (g : Geometry v) : Agree v v.mask := by
  constructor
  · rfl
  · exact fun t ht => disk_mask v ht
  · intro m
    by_cases hm : typeOf v m = typeFree
    · rw [hm]
      exact load_mask_free g hm (by decide)
    · exact (sameBytes_mask g hm).type
  · exact fun m hm => sameBytes_mask g hm

theorem ref_mask (g : Geometry v) (ht : ∀ m, typeOf v m ≠ typeFree → TableInArea v m) (s : Slot) :
    ref v.mask s = if typeOf v s.inode = typeFree then 0 else ref v s := by
  obtain ⟨m, p⟩ := s
  by_cases hm : typeOf v m = typeFree
  · rw [if_pos hm]
    cases p with
    | direct i => exact load_mask_free g hm (by omega)
    | table => exact load_mask_free g hm (by decide)
    | entry k =>
      have h0 : (inodeRead v.mask m).indirect = 0 := load_mask_free g hm (by decide)
      exact if_pos h0
  · have hbytes := sameBytes_mask g hm
    rw [if_neg hm, ref, posRef_congr (fun i hi => hbytes.block hi) hbytes.indirect]
    cases p with
    | direct i => rfl
    | table => rfl
    | entry k =>
      rcases ht m hm with h0 | h10
      · exact (if_pos h0).trans (if_pos h0).symm
      · rw [posRef, disk_mask v (.inr h10)]
        rfl

theorem sound_mask (g : Geometry v) (ho : Owned v) : Sound v.mask := by
  have hd := g.dataStart
  have ht : ∀ m, typeOf v m ≠ typeFree → TableInArea v m := by
    intro m hm
    by_cases h0 : ref v ⟨m, .table⟩ = 0
    · exact .inl h0
    · exact .inr (hd ▸ (ho.area ⟨m, .table⟩ hm h0).1)
  have hagree := agree_mask g
  have href := ref_mask g ht
  have huse : ∀ s, ref v.mask s ≠ 0 → typeOf v s.inode ≠ typeFree ∧ ref v.mask s = ref v s := by
    intro s hs
    rw [href] at hs ⊢
    by_cases hm : typeOf v s.inode = typeFree
    · exact absurd (if_pos hm) hs
    · exact ⟨hm, if_neg hm⟩
  refine ⟨hagree.geometry g, ⟨?_, ?_, ?_⟩, fun m hm p => ?_⟩
  · intro s hs
    obtain ⟨hm, he⟩ := huse s hs
    rw [he] at hs ⊢
    have := ho.area s hm hs
    rw [hd] at this
    exact this
  · intro s hs
    obtain ⟨hm, he⟩ := huse s hs
    rw [he] at hs ⊢
    have := ho.marked s hm hs
    rw [hd] at this
    rw [bit, hagree.disk 1 (.inl (by decide))]
    exact this
  · intro s s' hs hss
    obtain ⟨hm, he⟩ := huse s hs
    obtain ⟨hm', he'⟩ := huse s' (hss ▸ hs)
    rw [he] at hs hss
    rw [he'] at hss
    exact ho.once s s' hm hm' hs hss
  · rw [hagree.type] at hm
    rw [href, if_pos hm]

end Amfs
end AmitX
