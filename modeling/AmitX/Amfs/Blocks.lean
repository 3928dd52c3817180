import AmitX.Amfs.Refs
/-!
# Blocks — taking and releasing data blocks (`bitmap_alloc`, `block_for_offset`, `inode_free`)

`bitmap_alloc` and the write of a reference together give a slot a block of its own (`Assigned`).  `block_for_offset`
does so at most twice, for the indirect table and for its entry, and there is one way in which it leaves an allocated
block behind (`blockForOffset_cases`).
-/
namespace AmitX
namespace Amfs

open Bytes

variable {v v' w : Volume} {n m : Fin 64} {t b c i k offset : Nat} {s : Slot} {ino : Inode}

/-! ## Taking a block -/

/-- The volume with bit `b` set. -/
def taken (v : Volume) (b : Nat) : Volume :=
  writeSector v 1 (Function.update (v.disk 1) (b / 8) (v.disk 1 (b / 8) ||| (1#8 <<< (b % 8))))

theorem bitmapAlloc_cases (g : Geometry v) :
    (bitmapAlloc v = (0, v) ∧ ∀ b < v.sb.dataBlockCount, bit v b = true) ∨
      ∃ b < v.sb.dataBlockCount, bit v b = false ∧ bitmapAlloc v = (b + 1, taken v b) := by
  have hcount := g.count
  cases hf : (List.range v.sb.dataBlockCount).find? (fun i => !testBit (v.disk 1) i) with
  | none =>
    refine .inl ⟨by simp only [bitmapAlloc, hf], fun b hb => ?_⟩
    have := List.find?_eq_none.1 hf b (List.mem_range.2 hb)
    have htest : testBit (v.disk 1) b = true := by simpa using this
    rw [bit, htest, decide_eq_true (by omega)]
    rfl
  | some b =>
    have hb := List.mem_range.1 (List.mem_of_find?_eq_some hf)
    have htest : testBit (v.disk 1) b = false := by simpa using List.find?_some hf
    refine .inr ⟨b, hb, ?_, by simp only [bitmapAlloc, hf, taken]⟩
    rw [bit, htest, Bool.and_false]

@[simp] theorem sb_taken : (taken v b).sb = v.sb := rfl

theorem disk_taken (h : t ≠ 1) : (taken v b).disk t = v.disk t := disk_writeSector_ne h

theorem bit_taken (hb : b < 4096) (c : Nat) : bit (taken v b) c = Function.update (bit v) b true c := by
  unfold bit taken
  rw [disk_writeSector, testBit_set]
  by_cases hcb : c = b
  · subst hcb
    simp [hb]
  · rw [Function.update_of_ne hcb]
    simp [hcb]

theorem Geometry.ne_one (g : Geometry v) (n : Fin 64) : 1 ≠ inodeSector v n := by
  have := g.sector_lt n
  omega

theorem typeOf_taken (g : Geometry v) (n : Fin 64) : typeOf (taken v b) n = typeOf v n :=
  typeOf_writeSector (g.ne_one n)

theorem ref_taken (h : Sound v) (s : Slot) : ref (taken v b) s = ref v s := by
  refine ref_writeSector h.geometry.ne_one (fun n => ?_) s
  have := h.table n
  omega

/-- A slot has a block that was free, and nothing else is new. -/
structure Assigned (v v' : Volume) (s : Slot) (b : Nat) : Prop where
  sb : v'.sb = v.sb
  faults : v'.faults = v.faults
  types : ∀ m, typeOf v' m = typeOf v m
  sizes : ∀ m : Fin 64, (inodeRead v' m).size = (inodeRead v m).size
  count : b < v.sb.dataBlockCount
  unused : bit v b = false
  empty : ref v s = 0
  bits : ∀ c, bit v' c = Function.update (bit v) b true c
  refs : ∀ s', ref v' s' = Function.update (ref v) s (10 + b) s'
  data : ∀ t, 10 ≤ t → t ≠ 10 + b → (∀ m, ref v ⟨m, .table⟩ ≠ t) → v'.disk t = v.disk t

theorem Assigned.sound (h : Sound v) (hn : typeOf v s.inode ≠ typeFree) (ha : Assigned v v' s b) : Sound v' := by
  refine ⟨h.geometry.of_sb ha.sb, ?_, ?_⟩
  · rw [funext ha.refs, funext ha.bits, ha.sb]
    exact h.slots.assign (by decide) ha.count ha.unused s
  · intro m hm p
    rw [ha.types] at hm
    rw [ha.refs, Function.update_of_ne, h.free m hm]
    rintro rfl
    exact hn hm

theorem Assigned.noLeak (h : NoLeak v) (ha : Assigned v v' s b) : NoLeak v' := by
  unfold NoLeak
  rw [funext ha.refs, funext ha.bits]
  exact Slots.NoLeak.assign h (by decide) ha.empty

theorem Assigned.ref_self (ha : Assigned v v' s b) : ref v' s = 10 + b := by rw [ha.refs, Function.update_self]

/-! ## One direct block -/

theorem ref_setBlock (h : Sound v) (hw : Sound w) (hi : i < 10) (href : ∀ s, ref w s = ref v s)
    (hino : inodeRead w n = inodeRead v n) (hb : b < 4096) (s' : Slot) :
    ref (inodeWrite w n ((inodeRead v n).setBlock i (10 + b))) s' =
      Function.update (ref v) ⟨n, .direct ⟨i, hi⟩⟩ (10 + b) s' := by
  obtain ⟨m, p⟩ := s'
  by_cases hm : m = n
  · subst hm
    have hind : (Inode.setBlock (inodeRead v m) i (10 + b)).indirect = (inodeRead v m).indirect :=
      Inode.indirect_setBlock hi
    rw [ref_inodeWrite hw.geometry (by rw [hind]; exact h.table m)]
    cases p with
    | direct j =>
      by_cases hj : j = ⟨i, hi⟩
      · subst hj
        rw [Function.update_self, posRef, Inode.block_setBlock (by omega)]
      · have hne : (j : Nat) ≠ i := fun he => hj (Fin.ext he)
        rw [Function.update_of_ne (by simpa using hj), posRef, Inode.block_setBlock_ne hne]
        rfl
    | table =>
      rw [Function.update_of_ne (by simp), posRef, hind]
      rfl
    | entry k =>
      rw [Function.update_of_ne (by simp), ← href, posRef, hind, ← hino]
      rfl
  · rw [ref_inodeWrite_ne hw hm, Function.update_of_ne (by simp [hm]), href]

/-! ## Where a block is referred to -/

theorem Geometry.faults_inodeWrite (g : Geometry v) (n : Fin 64) (ino : Inode) :
    (inodeWrite v n ino).faults = v.faults := by
  unfold inodeWrite
  rw [faults_writeSector, g.touch]

theorem inodeRead_taken (g : Geometry v) (n : Fin 64) : inodeRead (taken v b) n = inodeRead v n :=
  inodeRead_writeSector (g.ne_one n)

theorem Geometry.disk_inodeWrite (g : Geometry v) (n : Fin 64) (ino : Inode) (ht : 10 ≤ t) :
    (inodeWrite v n ino).disk t = v.disk t := by
  have := g.sector_lt n
  rw [Amfs.disk_inodeWrite, Function.update_of_ne (by omega)]

theorem Sound.of_refs (h : Sound v) (hsb : v'.sb = v.sb) (href : ∀ s, ref v' s = ref v s)
    (htype : ∀ m, typeOf v' m = typeOf v m) (hbit : ∀ c, bit v c = true → bit v' c = true) : Sound v' := by
  constructor
  · exact h.geometry.of_sb hsb
  · constructor
    · intro s hs
      rw [href] at hs ⊢
      rw [hsb]
      exact h.slots.area s hs
    · intro s hs
      rw [href] at hs ⊢
      exact hbit _ (h.slots.used s hs)
    · intro s s' hs hss
      rw [href] at hs hss
      rw [href] at hss
      exact h.slots.once s s' hs hss
  · intro n hn p
    rw [htype] at hn
    rw [href]
    exact h.free n hn p

theorem bit_taken_of_bit (hb : b < 4096) (hc : bit v c = true) : bit (taken v b) c = true := by
  rw [bit_taken hb]
  by_cases hcb : c = b
  · rw [hcb, Function.update_self]
  · rw [Function.update_of_ne hcb, hc]

theorem Sound.taken (h : Sound v) (hb : b < 4096) : Sound (taken v b) :=
  h.of_refs rfl (ref_taken h) (typeOf_taken h.geometry) (fun _ => bit_taken_of_bit hb)

/-- What a call for the block of slot `s` gives: the block it has, none if all are taken, or a new one. -/
inductive Given (v : Volume) (s : Slot) : Nat × Volume → Prop
  | there (h : ref v s ≠ 0) : Given v s (ref v s, v)
  | full (h0 : ref v s = 0) (h : ∀ b < v.sb.dataBlockCount, bit v b = true) : Given v s (0, v)
  | fresh {w : Volume} {b : Nat} (h : Assigned v w s b) : Given v s (10 + b, w)

theorem assigned_direct (h : Sound v) (hi : i < 10) (hb : b < v.sb.dataBlockCount) (hu : bit v b = false)
    (h0 : ref v ⟨n, .direct ⟨i, hi⟩⟩ = 0) :
    Assigned v (inodeWrite (taken v b) n ((inodeRead v n).setBlock i (10 + b))) ⟨n, .direct ⟨i, hi⟩⟩ b := by
  have hcount := h.geometry.count
  have hw : Sound (taken v b) := h.taken (by omega)
  constructor
  · exact sb_inodeWrite ..
  · exact hw.geometry.faults_inodeWrite n _
  · intro m
    by_cases hm : m = n
    · subst hm
      rw [typeOf_inodeWrite, Inode.type_setBlock]
      rfl
    · rw [typeOf_inodeWrite_ne hm, typeOf_taken h.geometry]
  · intro m
    by_cases hm : m = n
    · subst hm
      exact (load_inodeWrite m (by omega)).trans Inode.size_setBlock
    · have hne : (m : Nat) ≠ n := fun he => hm (Fin.ext he)
      rw [Inode.size, load_inodeWrite_ne hne (by omega), inodeRead_taken h.geometry]
      rfl
  · exact hb
  · exact hu
  · exact h0
  · intro c
    rw [bit_inodeWrite hw.geometry, bit_taken (by omega)]
  · exact ref_setBlock h hw hi (ref_taken h) (inodeRead_taken h.geometry n) (by omega)
  · intro t ht _ _
    rw [hw.geometry.disk_inodeWrite n _ ht, disk_taken (by omega)]

theorem directBlock_given (h : Sound v) (n : Fin 64) (hi : i < 10) :
    Given v ⟨n, .direct ⟨i, hi⟩⟩ (directBlock v n i true) := by
  have href : ref v ⟨n, .direct ⟨i, hi⟩⟩ = (inodeRead v n).block i := rfl
  by_cases h0 : (inodeRead v n).block i = 0
  · rw [← href] at h0
    rcases bitmapAlloc_cases h.geometry with ⟨ha, hfull⟩ | ⟨b, hb, hu, ha⟩
    · have hr : directBlock v n i true = (0, v) := by
        simp [directBlock, ← href, h0, ha]
      rw [hr]
      exact .full h0 hfull
    · have hr : directBlock v n i true =
          (10 + b, inodeWrite (taken v b) n ((inodeRead v n).setBlock i (10 + b))) := by
        simp [directBlock, ← href, h0, ha, h.geometry.dataStart]
      rw [hr]
      exact .fresh (assigned_direct h hi hb hu h0)
  · have hr : directBlock v n i true = (ref v ⟨n, .direct ⟨i, hi⟩⟩, v) := by
      simp [directBlock, h0, href]
    rw [hr]
    exact .there (href ▸ h0)

/-! ## An entry of the indirect table -/

theorem Sound.table_ne (h : Sound v) (ht : ref v ⟨n, .table⟩ = t) (h0 : t ≠ 0) (hm : m ≠ n) :
    ref v ⟨m, .table⟩ ≠ t := by
  intro hmt
  have := h.slots.once ⟨m, .table⟩ ⟨n, .table⟩ (by omega) (by omega)
  simp only [Slot.mk.injEq, and_true] at this
  exact hm this

theorem ref_writeTable_ne {buf : Mem} (h : Sound v) (ht : ref v ⟨n, .table⟩ = t) (h0 : t ≠ 0) (hm : m ≠ n) (p : Pos) :
    ref (writeSector v t buf) ⟨m, p⟩ = ref v ⟨m, p⟩ := by
  have harea := h.slots.area ⟨n, .table⟩ (by omega)
  have hsector := h.geometry.sector_lt m
  have hread : inodeRead (writeSector v t buf) m = inodeRead v m := inodeRead_writeSector (by omega)
  unfold ref
  rw [hread]
  cases p with
  | direct i => rfl
  | table => rfl
  | entry k =>
    have hne : (inodeRead v m).indirect ≠ t := h.table_ne ht h0 hm
    simp only [posRef, disk_writeSector_ne hne]

theorem ref_writeTable {x : Nat} (h : Sound v) (ht : ref v ⟨n, .table⟩ = t) (h0 : t ≠ 0) (hk : k < 128)
    (hx : x < 2 ^ 32) (s : Slot) : ref (writeSector v t (store (v.disk t) (4 * k) 4 x)) s =
      Function.update (ref v) ⟨n, .entry ⟨k, hk⟩⟩ x s := by
  obtain ⟨m, p⟩ := s
  by_cases hm : m = n
  · subst hm
    have harea := h.slots.area ⟨m, .table⟩ (by omega)
    have hsector := h.geometry.sector_lt m
    have hind : (inodeRead v m).indirect = t := ht
    have hread : inodeRead (writeSector v t (store (v.disk t) (4 * k) 4 x)) m = inodeRead v m :=
      inodeRead_writeSector (by omega)
    rw [ref]
    simp only [hread]
    cases p with
    | direct i =>
      rw [Function.update_of_ne (by simp)]
      rfl
    | table =>
      rw [Function.update_of_ne (by simp)]
      rfl
    | entry j =>
      rw [posRef, hind, if_neg h0, disk_writeSector]
      by_cases hj : j = ⟨k, hk⟩
      · subst hj
        rw [Function.update_self, load_store_of_lt hx]
      · have hne : (j : Nat) ≠ k := fun he => hj (Fin.ext he)
        rw [Function.update_of_ne (by simpa using hj), load_store_ne (by omega), ref, posRef, hind, if_neg h0]
  · rw [Function.update_of_ne (by simp [hm]), ref_writeTable_ne h ht h0 hm]

theorem assigned_entry (h : Sound v) (ht : ref v ⟨n, .table⟩ = t) (h0 : t ≠ 0) (hk : k < 128)
    (hb : b < v.sb.dataBlockCount) (hu : bit v b = false) (he : ref v ⟨n, .entry ⟨k, hk⟩⟩ = 0) :
    Assigned v (writeSector (taken v b) t (store (v.disk t) (4 * k) 4 (10 + b))) ⟨n, .entry ⟨k, hk⟩⟩ b := by
  have hcount := h.geometry.count
  have hw : Sound (taken v b) := h.taken (by omega)
  have harea := h.slots.area ⟨n, .table⟩ (by omega)
  have hsector := h.geometry.sector_lt
  have hwt : ref (taken v b) ⟨n, .table⟩ = t := (ref_taken h _).trans ht
  constructor
  · rfl
  · rfl
  · intro m
    have := hsector m
    rw [typeOf_writeSector (by rw [inodeSector, sb_taken, ← inodeSector]; omega), typeOf_taken h.geometry]
  · intro m
    have := hsector m
    rw [inodeRead_writeSector (by rw [inodeSector, sb_taken, ← inodeSector]; omega), inodeRead_taken h.geometry]
  · exact hb
  · exact hu
  · exact he
  · intro c
    rw [bit_writeSector_ne (by omega), bit_taken (by omega)]
  · intro s
    have hdisk : (taken v b).disk t = v.disk t := disk_taken (by omega)
    rw [← hdisk, ref_writeTable hw hwt h0 hk (by omega), funext (ref_taken h)]
  · intro t' ht' _ hne
    have : t ≠ t' := ht ▸ hne n
    rw [disk_writeSector_ne this.symm, disk_taken (by omega)]

theorem tableBlock_given (h : Sound v) (ht : ref v ⟨n, .table⟩ ≠ 0) (hk : k < 128) :
    Given v ⟨n, .entry ⟨k, hk⟩⟩ (tableBlock v n (inodeRead v n) false k true) := by
  have ht0 : (inodeRead v n).indirect ≠ 0 := ht
  have href : ref v ⟨n, .entry ⟨k, hk⟩⟩ = load (v.disk (inodeRead v n).indirect) (4 * k) 4 := by
    rw [ref, posRef, if_neg ht0]
  by_cases h0 : load (v.disk (inodeRead v n).indirect) (4 * k) 4 = 0
  · rcases bitmapAlloc_cases h.geometry with ⟨ha, hfull⟩ | ⟨b, hb, hu, ha⟩
    · have hr : tableBlock v n (inodeRead v n) false k true = (0, v) := by
        simp [tableBlock, h0, ha]
      rw [hr]
      exact .full (href.trans h0) hfull
    · have g' : Geometry (taken v b) := h.geometry.of_sb rfl
      have hr : tableBlock v n (inodeRead v n) false k true = (10 + b, writeSector (taken v b)
          (inodeRead v n).indirect (store (v.disk (inodeRead v n).indirect) (4 * k) 4 (10 + b))) := by
        simp [tableBlock, h0, ha, h.geometry.dataStart, g'.touch]
      rw [hr]
      exact .fresh (assigned_entry h rfl ht0 hk hb hu (href.trans h0))
  · have hr : tableBlock v n (inodeRead v n) false k true = (ref v ⟨n, .entry ⟨k, hk⟩⟩, v) := by
      simp [tableBlock, h0, href]
    rw [hr]
    exact .there (href ▸ h0)

/-! ## A new indirect table -/

/-- The volume with bit `b` set and the block's sector zeroed. -/
def zeroed (v : Volume) (b : Nat) : Volume := writeSector (taken v b) (10 + b) (fun _ => 0)

theorem typeOf_zeroed (g : Geometry v) (m : Fin 64) : typeOf (zeroed v b) m = typeOf v m := by
  have hsector : inodeSector (taken v b) m = inodeSector v m := rfl
  have := g.sector_lt m
  unfold zeroed
  rw [typeOf_writeSector (by omega), typeOf_taken g]

theorem inodeRead_zeroed (g : Geometry v) (m : Fin 64) : inodeRead (zeroed v b) m = inodeRead v m := by
  have hsector : inodeSector (taken v b) m = inodeSector v m := rfl
  have := g.sector_lt m
  unfold zeroed
  rw [inodeRead_writeSector (by omega), inodeRead_taken g]

theorem bit_zeroed (hb : b < 4096) (c : Nat) : bit (zeroed v b) c = Function.update (bit v) b true c := by
  unfold zeroed
  rw [bit_writeSector_ne (by omega), bit_taken hb]

theorem ref_zeroed (h : Sound v) (hu : bit v b = false) (s : Slot) : ref (zeroed v b) s = ref v s := by
  unfold zeroed
  rw [ref_writeSector ?_ ?_ s, ref_taken h]
  · intro m
    have hsector : inodeSector (taken v b) m = inodeSector v m := rfl
    have := h.geometry.sector_lt m
    omega
  · intro m
    rw [ref_taken h]
    exact .inr (h.slots.ne (by decide) hu _)

theorem disk_zeroed (h1 : t ≠ 1) (h : t ≠ 10 + b) : (zeroed v b).disk t = v.disk t := by
  unfold zeroed
  rw [disk_writeSector_ne h, disk_taken h1]

theorem Sound.zeroed (h : Sound v) (hb : b < 4096) (hu : bit v b = false) : Sound (zeroed v b) := by
  refine h.of_refs rfl (ref_zeroed h hu) (typeOf_zeroed h.geometry) (fun c hc => ?_)
  unfold Amfs.zeroed
  rw [bit_writeSector_ne (by omega)]
  exact bit_taken_of_bit hb hc

def tabled (v : Volume) (n b : Nat) : Volume := inodeWrite (zeroed v b) n ((inodeRead v n).setIndirect (10 + b))

theorem ref_tabled (h : Sound v) (hb : b < 4096) (hu : bit v b = false) (h0 : ref v ⟨n, .table⟩ = 0) (s : Slot) :
    ref (tabled v n b) s = Function.update (ref v) ⟨n, .table⟩ (10 + b) s := by
  have hw : Sound (zeroed v b) := h.zeroed hb hu
  obtain ⟨m, p⟩ := s
  unfold tabled
  by_cases hm : m = n
  · subst hm
    have hind : (Inode.setIndirect (inodeRead v m) (10 + b)).indirect = 10 + b :=
      Inode.indirect_setIndirect (by omega)
    rw [ref_inodeWrite hw.geometry (by omega)]
    cases p with
    | direct i =>
      rw [Function.update_of_ne (by simp), posRef, Inode.block_setIndirect i.isLt]
      rfl
    | table => rw [Function.update_self, posRef, hind]
    | entry k =>
      have h0' : (inodeRead v m).indirect = 0 := h0
      have hdisk : (zeroed v b).disk (10 + b) = fun _ => 0 := disk_writeSector ..
      rw [Function.update_of_ne (by simp), posRef, hind, if_neg (by omega), hdisk, Inode.load_zero, ref, posRef,
        if_pos h0']
  · rw [ref_inodeWrite_ne hw hm, Function.update_of_ne (by simp [hm]), ref_zeroed h hu]

theorem assigned_table (h : Sound v) (hb : b < v.sb.dataBlockCount) (hu : bit v b = false)
    (h0 : ref v ⟨n, .table⟩ = 0) : Assigned v (tabled v n b) ⟨n, .table⟩ b := by
  have hcount := h.geometry.count
  have hw : Sound (zeroed v b) := h.zeroed (by omega) hu
  constructor
  · exact sb_inodeWrite ..
  · exact hw.geometry.faults_inodeWrite n _
  · intro m
    unfold tabled
    by_cases hm : m = n
    · subst hm
      rw [typeOf_inodeWrite, Inode.type_setIndirect]
      rfl
    · rw [typeOf_inodeWrite_ne hm, typeOf_zeroed h.geometry]
  · intro m
    unfold tabled
    by_cases hm : m = n
    · subst hm
      exact (load_inodeWrite m (by omega)).trans Inode.size_setIndirect
    · have hne : (m : Nat) ≠ n := fun he => hm (Fin.ext he)
      rw [Inode.size, load_inodeWrite_ne hne (by omega), inodeRead_zeroed h.geometry]
      rfl
  · exact hb
  · exact hu
  · exact h0
  · intro c
    rw [tabled, bit_inodeWrite hw.geometry, bit_zeroed (by omega)]
  · exact ref_tabled h (by omega) hu h0
  · intro t ht hne _
    rw [tabled, hw.geometry.disk_inodeWrite n _ ht, disk_zeroed (by omega) hne]

/-- The last free block is taken for the table, and `block_for_offset` returns before it writes the inode. -/
structure Leaked (v w : Volume) (b : Nat) : Prop where
  sb : w.sb = v.sb
  faults : w.faults = .leak :: v.faults
  types : ∀ m, typeOf w m = typeOf v m
  inodes : ∀ m : Fin 64, inodeRead w m = inodeRead v m
  count : b < v.sb.dataBlockCount
  unused : bit v b = false
  last : ∀ c < v.sb.dataBlockCount, c ≠ b → bit v c = true
  bits : ∀ c, bit w c = Function.update (bit v) b true c
  refs : ∀ s, ref w s = ref v s
  data : ∀ t, 10 ≤ t → t ≠ 10 + b → w.disk t = v.disk t

theorem leaked_zeroed (h : Sound v) (hb : b < v.sb.dataBlockCount) (hu : bit v b = false)
    (hfull : ∀ c < v.sb.dataBlockCount, bit (zeroed v b) c = true) : Leaked v ((zeroed v b).fault .leak) b := by
  have hcount := h.geometry.count
  constructor
  · rfl
  · rfl
  · exact typeOf_zeroed h.geometry
  · exact inodeRead_zeroed h.geometry
  · exact hb
  · exact hu
  · intro c hc hcb
    have := hfull c hc
    rwa [bit_zeroed (by omega), Function.update_of_ne hcb] at this
  · exact bit_zeroed (by omega)
  · exact ref_zeroed h hu
  · intro t ht hne
    exact disk_zeroed (by omega) hne

theorem write_tabled (h : Sound v) (n : Fin 64) (b c : Nat) (buf : Mem) :
    inodeWrite (writeSector (taken (zeroed v b) c) (10 + b) buf) n ((inodeRead v n).setIndirect (10 + b)) =
      writeSector (taken (tabled v n b) c) (10 + b) buf := by
  have hsector : inodeSector (zeroed v b) n = inodeSector v n := rfl
  have hlt := h.geometry.sector_lt n
  have g1 : Geometry (zeroed v b) := h.geometry.of_sb rfl
  have g2 : Geometry (writeSector (taken (zeroed v b) c) (10 + b) buf) := h.geometry.of_sb rfl
  have hsec2 : inodeSector (writeSector (taken (zeroed v b) c) (10 + b) buf) n = inodeSector v n := rfl
  have h1 : (tabled v n b).disk 1 = (zeroed v b).disk 1 := by
    rw [tabled, disk_inodeWrite, hsector, Function.update_of_ne (by omega)]
  have hin : (writeSector (taken (zeroed v b) c) (10 + b) buf).disk (inodeSector v n) =
      (zeroed v b).disk (inodeSector v n) := by
    rw [disk_writeSector_ne (by omega), disk_taken (by omega)]
  unfold inodeWrite
  rw [g2.touch, hsec2, hin]
  unfold taken tabled inodeWrite
  rw [g1.touch, hsector]
  unfold tabled inodeWrite at h1
  rw [g1.touch, hsector] at h1
  rw [h1]
  unfold writeSector
  simp only [Volume.mk.injEq, and_true]
  rw [Function.update_comm (show (10 + b) ≠ inodeSector v n by omega),
    Function.update_comm (show 1 ≠ inodeSector v n by omega)]

theorem ref_entry_of_table (h0 : ref v ⟨n, .table⟩ = 0) (k : Fin 128) : ref v ⟨n, .entry k⟩ = 0 := by
  have h0' : (inodeRead v n).indirect = 0 := h0
  rw [ref, posRef, if_pos h0']

/-- What a call for the block of slot `s` of inode `n` gives, if the table may have to be made first. -/
inductive Got (v : Volume) (n : Fin 64) (k : Fin 128) : Nat × Volume → Prop
  | given {r : Nat × Volume} (h : Given v ⟨n, .entry k⟩ r) : Got v n k r
  | leak {w : Volume} {b : Nat} (h0 : ref v ⟨n, .table⟩ = 0) (h : Leaked v w b) : Got v n k (0, w)
  | both {u w : Volume} {b c : Nat} (h : Assigned v u ⟨n, .table⟩ b) (h' : Assigned u w ⟨n, .entry k⟩ c) :
    Got v n k (10 + c, w)

theorem newTable_got (h : Sound v) (hn : typeOf v n ≠ typeFree) (hb : b < v.sb.dataBlockCount) (hu : bit v b = false)
    (h0 : ref v ⟨n, .table⟩ = 0) (k : Fin 128) :
    Got v n k (tableBlock (zeroed v b) n ((inodeRead v n).setIndirect (10 + b)) true k true) := by
  have hcount := h.geometry.count
  have g' : Geometry (zeroed v b) := h.geometry.of_sb rfl
  have hind : (Inode.setIndirect (inodeRead v n) (10 + b)).indirect = 10 + b :=
    Inode.indirect_setIndirect (by omega)
  have hpage : (zeroed v b).disk (10 + b) = fun _ => 0 := disk_writeSector ..
  have hzero : load (fun _ => 0#8) (4 * k) 4 = 0 := Inode.load_zero ..
  rcases bitmapAlloc_cases g' with ⟨ha, hfull⟩ | ⟨c, hc, hcu, ha⟩
  · have hr : tableBlock (zeroed v b) n ((inodeRead v n).setIndirect (10 + b)) true k true =
        (0, (zeroed v b).fault .leak) := by
      simp [tableBlock, hind, hpage, hzero, ha]
    rw [hr]
    exact .leak h0 (leaked_zeroed h hb hu hfull)
  · have ht : Assigned v (tabled v n b) ⟨n, .table⟩ b := assigned_table h hb hu h0
    have hs : Sound (tabled v n b) := ht.sound h hn
    have g2 : Geometry (taken (zeroed v b) c) := h.geometry.of_sb rfl
    have hr : tableBlock (zeroed v b) n ((inodeRead v n).setIndirect (10 + b)) true k true =
        (10 + c, writeSector (taken (tabled v n b) c) (10 + b) (store (fun _ => 0) (4 * k) 4 (10 + c))) := by
      rw [← write_tabled h]
      simp [tableBlock, hind, hpage, hzero, ha, g'.dataStart, g2.touch]
    have hdisk : (tabled v n b).disk (10 + b) = fun _ => 0 := by
      rw [tabled, g'.disk_inodeWrite n _ (by omega), hpage]
    have hbit : ∀ c, bit (tabled v n b) c = bit (zeroed v b) c := bit_inodeWrite g' n
    have hentry : ref (tabled v n b) ⟨n, .entry k⟩ = 0 := by
      rw [ht.refs, Function.update_of_ne (by simp), ref_entry_of_table h0]
    rw [hr, ← hdisk]
    exact .both ht (assigned_entry hs ht.ref_self (by omega) k.isLt (ht.sb ▸ hc) (by rw [hbit, hcu]) hentry)

theorem indirectBlock_got (h : Sound v) (hn : typeOf v n ≠ typeFree) (hk : k < 128) :
    Got v n ⟨k, hk⟩ (indirectBlock v n k true) := by
  by_cases h0 : (inodeRead v n).indirect = 0
  · have href : ref v ⟨n, .table⟩ = 0 := h0
    rcases bitmapAlloc_cases h.geometry with ⟨ha, hfull⟩ | ⟨b, hb, hu, ha⟩
    · have hr : indirectBlock v n k true = (0, v) := by
        simp [indirectBlock, Nat.not_le.2 hk, h0, ha]
      rw [hr]
      exact .given (.full (ref_entry_of_table href ⟨k, hk⟩) hfull)
    · have hr : indirectBlock v n k true =
          tableBlock (zeroed v b) n ((inodeRead v n).setIndirect (10 + b)) true k true := by
        simp [indirectBlock, Nat.not_le.2 hk, h0, ha, h.geometry.dataStart, zeroed]
      rw [hr]
      exact newTable_got h hn hb hu href ⟨k, hk⟩
  · have hr : indirectBlock v n k true = tableBlock v n (inodeRead v n) false k true := by
      simp [indirectBlock, Nat.not_le.2 hk, h0]
    rw [hr]
    exact .given (tableBlock_given h h0 hk)

/-! ## `block_for_offset` -/

/-- The place that refers to block `q` of a file or directory. -/
def posOf (q : Nat) : Option Pos :=
  if h : q < 10 then some (.direct ⟨q, h⟩)
  else if h : q - 10 < 128 then some (.entry ⟨q - 10, h⟩)
  else none

/-- The sector of block `q`, 0 if there is none. -/
def refAt (v : Volume) (n q : Nat) : Nat := ((posOf q).map (posRef v.disk (inodeRead v n))).getD 0

theorem blockForOffset_look (v : Volume) (n offset : Nat) :
    blockForOffset v n offset false = (refAt v n (offset / 512), v) := by
  unfold blockForOffset refAt posOf
  by_cases h1 : offset / 512 < 10
  · rw [if_pos h1, dif_pos h1]
    simp [directBlock, posRef]
  · rw [if_neg h1, dif_neg h1]
    by_cases h2 : offset / 512 - 10 < 128
    · rw [dif_pos h2]
      by_cases h0 : (inodeRead v n).indirect = 0
      · simp [indirectBlock, Nat.not_le.2 h2, h0, posRef]
      · simp [indirectBlock, tableBlock, Nat.not_le.2 h2, h0, posRef]
    · rw [dif_neg h2]
      simp [indirectBlock, Nat.not_lt.1 h2]

/-- What a call that allocates gives for block `q`. -/
inductive Taken (v : Volume) (n : Fin 64) : Nat → Nat × Volume → Prop
  | direct {q : Nat} {r : Nat × Volume} (hq : q < 10) (h : Given v ⟨n, .direct ⟨q, hq⟩⟩ r) : Taken v n q r
  | entry {q : Nat} {r : Nat × Volume} (hq : 10 ≤ q) (hk : q - 10 < 128) (h : Got v n ⟨q - 10, hk⟩ r) : Taken v n q r
  | none {q : Nat} (hq : 138 ≤ q) : Taken v n q (0, v)

theorem blockForOffset_taken (h : Sound v) (hn : typeOf v n ≠ typeFree) (offset : Nat) :
    Taken v n (offset / 512) (blockForOffset v n offset true) := by
  unfold blockForOffset
  by_cases h1 : offset / 512 < 10
  · rw [if_pos h1]
    exact .direct h1 (directBlock_given h n h1)
  · rw [if_neg h1]
    by_cases h2 : offset / 512 - 10 < 128
    · exact .entry (by omega) h2 (indirectBlock_got h hn h2)
    · have hr : indirectBlock v n (offset / 512 - 10) true = (0, v) := by
        simp [indirectBlock, Nat.not_lt.1 h2]
      rw [hr]
      exact .none (by omega)

/-! ## What every call keeps -/

/-- References stay, and so do the sectors referred to but for indirect tables. -/
structure Kept (v w : Volume) : Prop where
  sb : w.sb = v.sb
  types : ∀ m, typeOf w m = typeOf v m
  sizes : ∀ m : Fin 64, (inodeRead w m).size = (inodeRead v m).size
  refs : ∀ s, ref v s ≠ 0 → ref w s = ref v s
  data : ∀ s, ref v s ≠ 0 → s.pos ≠ .table → w.disk (ref v s) = v.disk (ref v s)
  outside : w.faults.count .outside = v.faults.count .outside

theorem Kept.refl (v : Volume) : Kept v v :=
  ⟨rfl, fun _ => rfl, fun _ => rfl, fun _ _ => rfl, fun _ _ _ => rfl, rfl⟩

theorem Kept.trans (h : Kept v v') (h' : Kept v' w) : Kept v w := by
  constructor
  · rw [h'.sb, h.sb]
  · intro m
    rw [h'.types, h.types]
  · intro m
    rw [h'.sizes, h.sizes]
  · intro s hs
    have he := h.refs s hs
    rw [← he]
    exact h'.refs s (he ▸ hs)
  · intro s hs hp
    have he := h.refs s hs
    rw [← h.data s hs hp, ← he]
    exact h'.data s (he ▸ hs) hp
  · rw [h'.outside, h.outside]

theorem Assigned.kept (h : Sound v) (ha : Assigned v w s b) : Kept v w := by
  constructor
  · exact ha.sb
  · exact ha.types
  · exact ha.sizes
  · intro s' hs'
    rw [ha.refs, Function.update_of_ne]
    rintro rfl
    exact hs' ha.empty
  · intro s' hs' hp
    have harea := h.slots.area s' hs'
    refine ha.data _ harea.1 (h.slots.ne (by decide) ha.unused _) (fun m hm => ?_)
    have := h.slots.once s' ⟨m, .table⟩ hs' hm.symm
    rw [this] at hp
    exact hp rfl
  · rw [ha.faults]

theorem Leaked.kept (h : Sound v) (hl : Leaked v w b) : Kept v w := by
  constructor
  · exact hl.sb
  · exact hl.types
  · intro m
    rw [hl.inodes]
  · intro s' _
    exact hl.refs s'
  · intro s' hs' _
    exact hl.data _ (h.slots.area s' hs').1 (h.slots.ne (by decide) hl.unused _)
  · rw [hl.faults]
    exact List.count_cons_of_ne (by decide)

theorem Leaked.sound (h : Sound v) (hl : Leaked v w b) : Sound w := by
  refine h.of_refs hl.sb hl.refs hl.types (fun c hc => ?_)
  rw [hl.bits]
  by_cases hcb : c = b
  · rw [hcb, Function.update_self]
  · rw [Function.update_of_ne hcb, hc]

theorem Given.kept {r : Nat × Volume} (h : Sound v) (hn : typeOf v s.inode ≠ typeFree) (hg : Given v s r) :
    Kept v r.2 ∧ Sound r.2 := by
  cases hg with
  | there h0 => exact ⟨.refl v, h⟩
  | full h0 hfull => exact ⟨.refl v, h⟩
  | fresh ha => exact ⟨ha.kept h, ha.sound h hn⟩

theorem Got.kept {r : Nat × Volume} {k : Fin 128} (h : Sound v) (hn : typeOf v n ≠ typeFree) (hg : Got v n k r) :
    Kept v r.2 ∧ Sound r.2 := by
  cases hg with
  | given hg => exact hg.kept h hn
  | leak h0 hl => exact ⟨hl.kept h, hl.sound h⟩
  | both h1 h2 =>
    have hu := h1.sound h hn
    exact ⟨(h1.kept h).trans (h2.kept hu), h2.sound hu (by rw [h1.types]; exact hn)⟩

theorem Taken.kept {r : Nat × Volume} {q : Nat} (h : Sound v) (hn : typeOf v n ≠ typeFree) (ht : Taken v n q r) :
    Kept v r.2 ∧ Sound r.2 := by
  cases ht with
  | direct hq hg => exact hg.kept h hn
  | entry hq hk hg => exact hg.kept h hn
  | none hq => exact ⟨.refl v, h⟩

theorem Given.ref {r : Nat × Volume} (hg : Given v s r) (h0 : r.1 ≠ 0) : ref r.2 s = r.1 := by
  cases hg with
  | there h => rfl
  | full h h' => exact absurd rfl h0
  | fresh ha => exact ha.ref_self

theorem Got.ref {r : Nat × Volume} {k : Fin 128} (hg : Got v n k r) (h0 : r.1 ≠ 0) : ref r.2 ⟨n, .entry k⟩ = r.1 := by
  cases hg with
  | given hg => exact hg.ref h0
  | leak h hl => exact absurd rfl h0
  | both h1 h2 => exact h2.ref_self

theorem refAt_direct {q : Nat} (hq : q < 10) : refAt v n q = ref v ⟨n, .direct ⟨q, hq⟩⟩ := by
  simp [refAt, posOf, hq, Amfs.ref]

theorem refAt_entry {q : Nat} (hq : 10 ≤ q) (hk : q - 10 < 128) :
    refAt v n q = ref v ⟨n, .entry ⟨q - 10, hk⟩⟩ := by
  simp [refAt, posOf, Nat.not_lt.2 hq, hk, Amfs.ref]

theorem Taken.ref {r : Nat × Volume} {q : Nat} (ht : Taken v n q r) (h0 : r.1 ≠ 0) : refAt r.2 n q = r.1 := by
  cases ht with
  | direct hq hg => rw [refAt_direct hq, hg.ref h0]
  | entry hq hk hg => rw [refAt_entry hq hk, hg.ref h0]
  | none hq => exact absurd rfl h0

end Amfs
end AmitX
