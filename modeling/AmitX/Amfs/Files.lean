import AmitX.Amfs.Blocks
/-!
# Files — taking the blocks of an inode back, and writing a file (`inode_free`, `amfs_write`)

The loops over the blocks of an inode clear the bits of all that it refers to (`truncate_released`).  After that a file
is written block by block; it loses a block when the table takes the last free one, which is so exactly when eleven
blocks are free before the first and the file needs more than ten (`writeBlocks_keeps`, `writeBlocks_leaks`).
-/
namespace AmitX
namespace Amfs

open Bytes

variable {v v' w : Volume} {n m : Fin 64} {t b c i k : Nat} {s : Slot} {ino : Inode} {buf : Mem}

/-! ## Writes that keep references -/

structure Same (v w : Volume) : Prop where
  sb : w.sb = v.sb
  types : ∀ m, typeOf w m = typeOf v m
  refs : ∀ s, ref w s = ref v s
  bits : ∀ b, bit w b = bit v b

theorem Same.trans (h : Same v v') (h' : Same v' w) : Same v w :=
  ⟨h'.sb.trans h.sb, fun m => (h'.types m).trans (h.types m), fun s => (h'.refs s).trans (h.refs s),
    fun b => (h'.bits b).trans (h.bits b)⟩

theorem Same.sound (hs : Same v w) (h : Sound v) : Sound w :=
  h.of_refs hs.sb hs.refs hs.types (fun c hc => (hs.bits c).trans hc)

theorem Same.noLeak (hs : Same v w) (h : NoLeak v) : NoLeak w := by
  unfold NoLeak
  rw [funext hs.refs, funext hs.bits]
  exact h

def freeBlocks (v : Volume) : Nat := Slots.free (bit v) v.sb.dataBlockCount

theorem Same.freeBlocks (hs : Same v w) : freeBlocks w = freeBlocks v := by
  unfold Amfs.freeBlocks
  rw [funext hs.bits, hs.sb]

theorem Sound.same_data (h : Sound v) (hp : s.pos ≠ .table) (h0 : ref v s ≠ 0) (buf : Mem) :
    Same v (writeSector v (ref v s) buf) := by
  have harea := h.slots.area s h0
  have hsector := h.geometry.sector_lt
  constructor
  · rfl
  · intro m
    have := hsector m
    exact typeOf_writeSector (by omega)
  · intro s'
    refine ref_writeSector (fun m => ?_) (fun m => .inr (fun hm => ?_)) s'
    · have := hsector m
      omega
    · have := h.slots.once s ⟨m, .table⟩ h0 hm.symm
      rw [this] at hp
      exact hp rfl
  · intro b
    exact bit_writeSector_ne (by omega) b

theorem Sound.same_inode (h : Sound v) (ht : ino.type = typeOf v n)
    (hb : ∀ i < 10, ino.block i = (inodeRead v n).block i) (hi : ino.indirect = (inodeRead v n).indirect) :
    Same v (inodeWrite v n ino) := by
  constructor
  · exact sb_inodeWrite ..
  · intro m
    by_cases hm : m = n
    · rw [hm, typeOf_inodeWrite, ht]
    · exact typeOf_inodeWrite_ne hm
  · rintro ⟨m, p⟩
    by_cases hm : m = n
    · subst hm
      rw [ref_inodeWrite h.geometry (hi ▸ h.table m), posRef_congr hb hi]
      rfl
    · exact ref_inodeWrite_ne h hm p
  · exact bit_inodeWrite h.geometry n

theorem Sound.same_setSize (h : Sound v) (n : Fin 64) (x : Nat) :
    Same v (inodeWrite v n ((inodeRead v n).setSize x)) :=
  h.same_inode Inode.type_setSize (fun _ _ => Inode.block_setSize) Inode.indirect_setSize

/-! ## Taking blocks back -/

theorem sb_bitmapClear (v : Volume) (b : Nat) : (bitmapClear v b).sb = v.sb := by
  unfold bitmapClear
  split <;> rfl

theorem disk_bitmapClear (h : t ≠ 1) : (bitmapClear v b).disk t = v.disk t := by
  unfold bitmapClear
  split
  · rfl
  · exact disk_writeSector_ne h

theorem bit_bitmapClear (hb : b < v.sb.dataBlockCount) (c : Nat) :
    bit (bitmapClear v b) c = (!decide (c = b) && bit v c) := by
  unfold bit bitmapClear
  rw [if_neg (by omega), disk_writeSector, testBit_clear]
  cases decide (c < 4096) <;> simp

theorem sb_releaseSector (v : Volume) (x : Nat) : (releaseSector v x).sb = v.sb := by
  unfold releaseSector
  split
  · rfl
  · exact sb_bitmapClear ..

theorem disk_releaseSector (h : t ≠ 1) (x : Nat) : (releaseSector v x).disk t = v.disk t := by
  unfold releaseSector
  split
  · rfl
  · exact disk_bitmapClear h

theorem bit_releaseSector (g : Geometry v) {x : Nat} (hx : x = 0 ∨ 10 ≤ x ∧ x < 10 + v.sb.dataBlockCount) (c : Nat) :
    bit (releaseSector v x) c = (!decide (x = 10 + c) && bit v c) := by
  have hcount := g.count
  unfold releaseSector
  rcases hx with rfl | hx
  · have hne : ¬ 0 = 10 + c := by omega
    rw [if_pos rfl, decide_eq_false hne]
    rfl
  · have hsub : sub32 x v.sb.dataStart = x - 10 := by
      rw [g.dataStart]
      unfold sub32
      omega
    have hiff : decide (c = x - 10) = decide (x = 10 + c) := by
      rw [decide_eq_decide]
      omega
    rw [if_neg (by omega), hsub, bit_bitmapClear (by omega), hiff]

def cleared (v : Volume) (l : List Nat) : Volume := l.foldl releaseSector v

theorem sb_cleared : ∀ (l : List Nat) (v : Volume), (cleared v l).sb = v.sb
  | [], _ => rfl
  | x :: l, v => (sb_cleared l (releaseSector v x)).trans (sb_releaseSector v x)

theorem disk_cleared (h : t ≠ 1) : ∀ (l : List Nat) (v : Volume), (cleared v l).disk t = v.disk t
  | [], _ => rfl
  | x :: l, v => (disk_cleared h l (releaseSector v x)).trans (disk_releaseSector h x)

theorem bit_cleared : ∀ {l : List Nat} {v : Volume}, Geometry v →
    (∀ x ∈ l, x = 0 ∨ 10 ≤ x ∧ x < 10 + v.sb.dataBlockCount) → ∀ c,
      (bit (cleared v l) c = true ↔ bit v c = true ∧ ∀ x ∈ l, x ≠ 10 + c)
  | [], v, _, _, c => by simp [cleared]
  | x :: l, v, g, hl, c => by
    have hsb := sb_releaseSector v x
    have ih := bit_cleared (g.of_sb hsb) (fun y hy => by rw [hsb]; exact hl y (List.mem_cons_of_mem _ hy)) c
    have hstep : cleared v (x :: l) = cleared (releaseSector v x) l := rfl
    rw [hstep, ih, bit_releaseSector g (hl x List.mem_cons_self), Bool.and_eq_true, Bool.not_eq_true',
      decide_eq_false_iff_not, List.forall_mem_cons]
    exact ⟨fun h => ⟨h.1.2, h.1.1, h.2⟩, fun h => ⟨⟨h.2.1, h.1⟩, h.2.2⟩⟩

/-! ## All that an inode refers to -/

def directs (ino : Inode) (k : Nat) : List Nat := (List.range k).map ino.block

def tableSectors (disk : Nat → Mem) (ino : Inode) : List Nat :=
  if ino.indirect = 0 then [] else (List.range 128).map (fun i => load (disk ino.indirect) (4 * i) 4) ++ [ino.indirect]

/-- An inode after the loop over its first `k` direct blocks. -/
structure Emptied (ino ino' : Inode) (k : Nat) : Prop where
  gone : ∀ i < k, ino'.block i = 0
  rest : ∀ i, k ≤ i → i < 10 → ino'.block i = ino.block i
  indirect : ino'.indirect = ino.indirect
  type : ino'.type = ino.type

theorem Emptied.step {ino' : Inode} (h : Emptied ino ino' k) (hk : k < 10) :
    Emptied ino (if ino'.block k = 0 then ino' else ino'.setBlock k 0) (k + 1) := by
  by_cases h0 : ino'.block k = 0
  · rw [if_pos h0]
    refine ⟨fun i hi => ?_, fun i hi => h.rest i (by omega), h.indirect, h.type⟩
    by_cases hik : i = k
    · rw [hik, h0]
    · exact h.gone i (by omega)
  · rw [if_neg h0]
    constructor
    · intro i hi
      by_cases hik : i = k
      · rw [hik, Inode.block_setBlock (by decide)]
      · rw [Inode.block_setBlock_ne hik]
        exact h.gone i (by omega)
    · intro i hi hi'
      rw [Inode.block_setBlock_ne (by omega)]
      exact h.rest i (by omega) hi'
    · rw [Inode.indirect_setBlock hk, h.indirect]
    · rw [Inode.type_setBlock, h.type]

theorem foldl_releaseBlock (v : Volume) (ino : Inode) : ∀ k ≤ 10,
    ∃ ino', (List.range k).foldl releaseBlock (v, ino) = (cleared v (directs ino k), ino') ∧ Emptied ino ino' k
  | 0, _ => ⟨ino, rfl, fun i hi => absurd hi (Nat.not_lt_zero i), fun _ _ _ => rfl, rfl, rfl⟩
  | k + 1, hk => by
    obtain ⟨ino', he, h⟩ := foldl_releaseBlock v ino k (by omega)
    refine ⟨_, ?_, h.step (by omega)⟩
    rw [List.range_succ, List.foldl_append, he]
    simp only [List.foldl_cons, List.foldl_nil, releaseBlock, h.rest k (Nat.le_refl k) (by omega), directs,
      List.range_succ, List.map_append, List.map_cons, List.map_nil, cleared, List.foldl_append]

theorem truncate_eq (v : Volume) (h1 : ino.indirect ≠ 1) : ∃ ino',
    truncate v ino = (cleared v (directs ino 10 ++ tableSectors v.disk ino), ino') ∧
      (∀ i < 10, ino'.block i = 0) ∧ ino'.indirect = 0 ∧ ino'.type = ino.type := by
  obtain ⟨ino', he, h⟩ := foldl_releaseBlock v ino 10 (Nat.le_refl 10)
  unfold truncate
  rw [he]
  by_cases h0 : ino.indirect = 0
  · refine ⟨ino', ?_, h.gone, h.indirect.trans h0, h.type⟩
    have h0' : ino'.indirect = 0 := h.indirect.trans h0
    simp only [releaseTable, if_pos h0', tableSectors, if_pos h0, List.append_nil]
  · refine ⟨ino'.setIndirect 0, ?_, fun i hi => ?_, Inode.indirect_setIndirect (by decide), ?_⟩
    · have hdisk : (cleared v (directs ino 10)).disk ino.indirect = v.disk ino.indirect := disk_cleared h1 _ v
      simp only [releaseTable, h.indirect, if_neg h0, hdisk, tableSectors]
      simp only [cleared, List.foldl_append, List.foldl_map, List.foldl_cons, List.foldl_nil]
    · rw [Inode.block_setIndirect hi, h.gone i hi]
    · rw [Inode.type_setIndirect, h.type]

theorem posRef_of_mem {disk : Nat → Mem} {x : Nat} (hx : x ∈ directs ino 10 ++ tableSectors disk ino) :
    ∃ p, posRef disk ino p = x := by
  rcases List.mem_append.1 hx with hx | hx
  · obtain ⟨i, hi, rfl⟩ := List.mem_map.1 hx
    exact ⟨.direct ⟨i, List.mem_range.1 hi⟩, rfl⟩
  · unfold tableSectors at hx
    split at hx
    · cases hx
    · rename_i h0
      rcases List.mem_append.1 hx with hx | hx
      · obtain ⟨k, hk, rfl⟩ := List.mem_map.1 hx
        exact ⟨.entry ⟨k, List.mem_range.1 hk⟩, if_neg h0⟩
      · exact ⟨.table, (List.mem_singleton.1 hx).symm⟩

theorem mem_of_posRef {disk : Nat → Mem} {p : Pos} (h : posRef disk ino p ≠ 0) :
    posRef disk ino p ∈ directs ino 10 ++ tableSectors disk ino := by
  cases p with
  | direct i => exact List.mem_append_left _ (List.mem_map.2 ⟨i, List.mem_range.2 i.isLt, rfl⟩)
  | table =>
    have h0 : ino.indirect ≠ 0 := h
    exact List.mem_append_right _ (by simp [tableSectors, h0, posRef])
  | entry k =>
    have h0 : ino.indirect ≠ 0 := by
      intro h0
      exact h (if_pos h0)
    refine List.mem_append_right _ ?_
    simp only [tableSectors, if_neg h0, posRef, List.mem_append]
    exact .inl (List.mem_map.2 ⟨k, List.mem_range.2 k.isLt, rfl⟩)

/-- The blocks of inode `n` are taken back, and its type is `ty`. -/
structure Released (v w : Volume) (n : Fin 64) (ty : Nat) : Prop where
  sb : w.sb = v.sb
  types : ∀ m, typeOf w m = if m = n then ty else typeOf v m
  slots : Slots.Released (fun s : Slot => s.inode = n) (ref v) (ref w) (bit v) (bit w) 10

theorem bit_sectors (h : Sound v) (n : Fin 64) (c : Nat) :
    bit (cleared v (directs (inodeRead v n) 10 ++ tableSectors v.disk (inodeRead v n))) c = true ↔
      bit v c = true ∧ ∀ s : Slot, s.inode = n → ref v s ≠ 10 + c := by
  rw [bit_cleared h.geometry]
  · refine and_congr_right (fun _ => ⟨fun hl s hs he => ?_, fun hs x hx he => ?_⟩)
    · obtain ⟨m, p⟩ := s
      obtain rfl : m = n := hs
      have he : posRef v.disk (inodeRead v m) p = 10 + c := he
      exact hl _ (mem_of_posRef (by omega)) he
    · obtain ⟨p, rfl⟩ := posRef_of_mem hx
      exact hs ⟨n, p⟩ rfl he
  · intro x hx
    obtain ⟨p, rfl⟩ := posRef_of_mem hx
    by_cases h0 : ref v ⟨n, p⟩ = 0
    · exact .inl h0
    · exact .inr (h.slots.area ⟨n, p⟩ h0)

theorem inodeRead_cleared (g : Geometry v) (l : List Nat) (m : Fin 64) : inodeRead (cleared v l) m = inodeRead v m := by
  have := g.sector_lt m
  funext i
  rw [inodeRead, inodeSector, sb_cleared, ← inodeSector, disk_cleared (by omega)]
  rfl

theorem ref_cleared (h : Sound v) (l : List Nat) (s : Slot) : ref (cleared v l) s = ref v s := by
  obtain ⟨m, p⟩ := s
  have ht := h.table m
  unfold ref
  simp only [inodeRead_cleared h.geometry]
  cases p with
  | direct i => rfl
  | table => rfl
  | entry k =>
    by_cases h0 : (inodeRead v m).indirect = 0
    · simp only [posRef, if_pos h0]
    · have href : ref v ⟨m, .table⟩ = (inodeRead v m).indirect := rfl
      simp only [posRef, if_neg h0]
      rw [disk_cleared (by omega)]

theorem truncate_released (h : Sound v) (n : Fin 64) (ino' : Inode)
    (hb : ∀ i < 10, ino'.block i = 0) (hi : ino'.indirect = 0) :
    Released v (inodeWrite (truncate v (inodeRead v n)).1 n ino') n ino'.type := by
  have ht := h.table n
  have h1 : (inodeRead v n).indirect ≠ 1 := by
    have href : ref v ⟨n, .table⟩ = (inodeRead v n).indirect := rfl
    omega
  obtain ⟨ino1, he, -⟩ := truncate_eq v h1
  rw [he]
  dsimp only
  set l := directs (inodeRead v n) 10 ++ tableSectors v.disk (inodeRead v n) with hl
  have g : Geometry (cleared v l) := h.geometry.of_sb (sb_cleared l v)
  have hrefs : ∀ s : Slot, s.inode ≠ n → ref (inodeWrite (cleared v l) n ino') s = ref v s := by
    rintro ⟨m, p⟩ hm
    rw [ref_inodeWrite_of_ne g (by rw [ref_cleared h]; exact h.table m) hm, ref_cleared h]
  constructor
  · rw [sb_inodeWrite, sb_cleared]
  · intro m
    by_cases hm : m = n
    · rw [hm, typeOf_inodeWrite, if_pos rfl]
    · rw [typeOf_inodeWrite_ne hm, if_neg hm, typeOf, inodeRead_cleared h.geometry]
      rfl
  · constructor
    · rintro ⟨m, p⟩ hm
      obtain rfl : m = n := hm
      rw [ref_inodeWrite g (.inl hi)]
      cases p with
      | direct i => exact hb i i.isLt
      | table => exact hi
      | entry k => exact if_pos hi
    · exact hrefs
    · intro c
      rw [bit_inodeWrite g, hl]
      exact bit_sectors h n c

theorem Released.sound {ty : Nat} (h : Sound v) (hr : Released v w n ty) : Sound w := by
  refine ⟨h.geometry.of_sb hr.sb, ?_, fun m hm p => ?_⟩
  · rw [hr.sb]
    exact h.slots.release hr.slots
  · by_cases hmn : m = n
    · exact hr.slots.empty _ hmn
    · rw [hr.slots.same _ hmn]
      rw [hr.types, if_neg hmn] at hm
      exact h.free m hm p

theorem Released.noLeak {ty : Nat} (h : NoLeak v) (hr : Released v w n ty) : NoLeak w :=
  Slots.NoLeak.release h hr.slots

theorem Sound.table_ne_one (h : Sound v) (n : Fin 64) : (inodeRead v n).indirect ≠ 1 := by
  have ht := h.table n
  have href : ref v ⟨n, .table⟩ = (inodeRead v n).indirect := rfl
  omega

theorem inodeFree_released (h : Sound v) (n : Fin 64) : Released v (inodeFree v n) n typeFree := by
  obtain ⟨ino', he, hb, hi, -⟩ := truncate_eq v (h.table_ne_one n)
  have hr := truncate_released h n (ino'.setType typeFree) (fun i hi => by rw [Inode.block_setType, hb i hi])
    (by rw [Inode.indirect_setType, hi])
  unfold inodeFree
  rw [he] at hr ⊢
  rwa [Inode.type_setType (by decide)] at hr

/-- The volume once `amfs_write` has truncated the file. -/
def emptied (v : Volume) (n : Nat) : Volume :=
  inodeWrite (truncate v (inodeRead v n)).1 n ((truncate v (inodeRead v n)).2.setSize 0)

theorem emptied_released (h : Sound v) (n : Fin 64) : Released v (emptied v n) n (typeOf v n) := by
  obtain ⟨ino', he, hb, hi, ht⟩ := truncate_eq v (h.table_ne_one n)
  have hr := truncate_released h n (ino'.setSize 0) (fun i hi => by rw [Inode.block_setSize, hb i hi])
    (by rw [Inode.indirect_setSize, hi])
  unfold emptied
  rw [he] at hr ⊢
  rwa [Inode.type_setSize, ht] at hr

/-! ## Free blocks -/

def positions : List Pos := .table :: ((List.finRange 10).map .direct ++ (List.finRange 128).map .entry)

theorem mem_positions (p : Pos) : p ∈ positions := by
  unfold positions
  cases p with
  | direct i => simp
  | table => simp
  | entry k => simp

/-- How many data blocks are free or belong to inode `n`. -/
def roomFor (v : Volume) (n : Nat) : Nat :=
  Slots.free (fun b => bit v b && positions.all (fun p => posRef v.disk (inodeRead v n) p != 10 + b))
    v.sb.dataBlockCount

theorem Released.freeBlocks {ty : Nat} (hr : Released v w n ty) : freeBlocks w = roomFor v n := by
  unfold Amfs.freeBlocks roomFor
  rw [hr.sb]
  refine Slots.free_congr (fun b _ => ?_)
  have hclear := hr.slots.clear b
  rw [Bool.eq_iff_iff, hclear, Bool.and_eq_true, List.all_eq_true]
  refine and_congr_right (fun _ => ⟨fun h p _ => ?_, fun h s hs => ?_⟩)
  · have := h ⟨n, p⟩ rfl
    simpa [ref] using this
  · obtain ⟨m, p⟩ := s
    obtain rfl : m = n := hs
    have := h p (mem_positions p)
    simpa [ref] using this

theorem Assigned.freeBlocks (ha : Assigned v w s b) : freeBlocks w + 1 = freeBlocks v := by
  unfold Amfs.freeBlocks
  rw [ha.sb, funext ha.bits]
  exact Slots.free_take ha.count ha.unused

theorem Leaked.freeBlocks (hl : Leaked v w b) : freeBlocks v = 1 := Slots.free_eq_one hl.count hl.unused hl.last

theorem freeBlocks_of_full (h : ∀ b < v.sb.dataBlockCount, bit v b = true) : freeBlocks v = 0 := Slots.free_eq_zero h

theorem Leaked.not_noLeak (h : Sound v) (hl : Leaked v w b) : ¬NoLeak w := by
  intro hw
  obtain ⟨s, hs⟩ := hw b (by rw [hl.bits, Function.update_self])
  rw [hl.refs] at hs
  exact h.slots.ne (by decide) hl.unused s hs

/-! ## Writing a file block by block -/

/-- The first `i` blocks of the file are written, and `f` blocks were free before. -/
structure Filling (v : Volume) (n : Fin 64) (f i : Nat) : Prop where
  sound : Sound v
  noLeak : NoLeak v
  type : typeOf v n ≠ typeFree
  direct : ∀ j (hj : j < 10), i ≤ j → ref v ⟨n, .direct ⟨j, hj⟩⟩ = 0
  noTable : i ≤ 10 → ref v ⟨n, .table⟩ = 0 ∧ freeBlocks v + i = f
  table : 10 < i → ref v ⟨n, .table⟩ ≠ 0

/-- What one turn gives: no block, the leak of a table's block, or a block to which the data go. -/
inductive Turn (v : Volume) (n : Fin 64) (f i : Nat) : Nat × Volume → Prop
  | none (h : i ≤ 10 → freeBlocks v = 0) : Turn v n f i (0, v)
  | leak {w : Volume} {b : Nat} (h : i = 10) (hl : Leaked v w b) : Turn v n f i (0, w)
  | next {r : Nat × Volume} (h0 : r.1 ≠ 0) (hf : i = 10 → freeBlocks v ≠ 1)
    (h : ∀ buf, Filling (writeSector r.2 r.1 buf) n f (i + 1)) : Turn v n f i r

variable {f : Nat}

theorem Filling.next_direct (h : Filling v n f i) (hi : i < 10) (ha : Assigned v w ⟨n, .direct ⟨i, hi⟩⟩ b) (buf : Mem) :
    Filling (writeSector w (10 + b) buf) n f (i + 1) := by
  have hw := ha.sound h.sound h.type
  have hs : Same w (writeSector w (10 + b) buf) := by
    have := hw.same_data (s := ⟨n, .direct ⟨i, hi⟩⟩) (by simp) (by rw [ha.ref_self]; omega) buf
    rwa [ha.ref_self] at this
  obtain ⟨h0, hf⟩ := h.noTable (by omega)
  constructor
  · exact hs.sound hw
  · exact hs.noLeak (ha.noLeak h.noLeak)
  · rw [hs.types, ha.types]
    exact h.type
  · intro j hj hij
    rw [hs.refs, ha.refs, Function.update_of_ne, h.direct j hj (by omega)]
    simp
    omega
  · intro _
    have := ha.freeBlocks
    rw [hs.refs, ha.refs, Function.update_of_ne (by simp), hs.freeBlocks]
    exact ⟨h0, by omega⟩
  · intro hlt
    omega

theorem Filling.next_entry {k : Fin 128} (h : Filling v n f i) (hi : 10 ≤ i) (hw : Sound w) (hl : NoLeak w)
    (htype : typeOf w n = typeOf v n) (hr : ref w ⟨n, .entry k⟩ = t) (h0 : t ≠ 0) (buf : Mem) :
    Filling (writeSector w t buf) n f (i + 1) := by
  have hs : Same w (writeSector w t buf) := by
    have := hw.same_data (s := ⟨n, .entry k⟩) (by simp) (by rw [hr]; exact h0) buf
    rwa [hr] at this
  constructor
  · exact hs.sound hw
  · exact hs.noLeak hl
  · rw [hs.types, htype]
    exact h.type
  · intro j hj hij
    omega
  · intro hle
    omega
  · intro _ htab
    rw [hs.refs] at htab
    rw [ref_entry_of_table htab] at hr
    exact h0 hr.symm

theorem Filling.turn_direct {r : Nat × Volume} (h : Filling v n f i) (hi : i < 10)
    (hg : Given v ⟨n, .direct ⟨i, hi⟩⟩ r) : Turn v n f i r := by
  cases hg with
  | there h0 => exact absurd (h.direct i hi (Nat.le_refl i)) h0
  | full h0 hfull => exact .none (fun _ => freeBlocks_of_full hfull)
  | fresh ha => exact .next (by omega) (by omega) (h.next_direct hi ha)

theorem Filling.turn_given {r : Nat × Volume} {k : Fin 128} (h : Filling v n f i) (hi : 10 ≤ i)
    (hg : Given v ⟨n, .entry k⟩ r) : Turn v n f i r := by
  have hno : i = 10 → ∀ {w : Volume}, ref w ⟨n, .table⟩ = ref v ⟨n, .table⟩ → ref w ⟨n, .entry k⟩ = 0 := by
    intro h10 w ht
    exact ref_entry_of_table (ht.trans (h.noTable (by omega)).1) k
  cases hg with
  | there h0 =>
    refine .next h0 (fun h10 => absurd (hno h10 rfl) h0) ?_
    exact h.next_entry hi h.sound h.noLeak rfl rfl h0
  | full h0 hfull => exact .none (fun _ => freeBlocks_of_full hfull)
  | fresh ha =>
    refine .next (by omega) (fun h10 => ?_) ?_
    · have htab := (ha.refs ⟨n, .table⟩).trans (Function.update_of_ne (by simp) ..)
      have := hno h10 htab
      rw [ha.ref_self] at this
      omega
    · exact h.next_entry hi (ha.sound h.sound h.type) (ha.noLeak h.noLeak) (ha.types n) ha.ref_self (by omega)

theorem Filling.turn_entry {r : Nat × Volume} {k : Fin 128} (h : Filling v n f i) (hi : 10 ≤ i)
    (hg : Got v n k r) : Turn v n f i r := by
  cases hg with
  | given hg => exact h.turn_given hi hg
  | leak h0 hl =>
    refine .leak ?_ hl
    by_contra hne
    exact h.table (by omega) h0
  | @both u w b c h1 h2 =>
    have hu : typeOf u n ≠ typeFree := by
      rw [h1.types]
      exact h.type
    have hsu := h1.sound h.sound h.type
    have hf1 := h1.freeBlocks
    have hf2 := h2.freeBlocks
    refine .next (by omega) (fun _ => by omega) ?_
    exact h.next_entry hi (h2.sound hsu hu) (h2.noLeak (h1.noLeak h.noLeak)) ((h2.types n).trans (h1.types n))
      h2.ref_self (by omega)

theorem Filling.turn (h : Filling v n f i) : Turn v n f i (blockForOffset v n (512 * i) true) := by
  have hq : 512 * i / 512 = i := Nat.mul_div_cancel_left i (by decide)
  have ht := blockForOffset_taken h.sound h.type (512 * i)
  rw [hq] at ht
  generalize blockForOffset v n (512 * i) true = r at ht
  cases ht with
  | direct hi hg => exact h.turn_direct hi hg
  | entry hi hk hg => exact h.turn_entry hi hg
  | none hi => exact .none (by omega)

theorem writeBlocks_keeps (data : List Byte) : ∀ (k : Nat) {v : Volume} {i : Nat}, Filling v n f i →
    (10 < i + k → f ≠ 11) →
      Sound (writeBlocks n data v (List.range' i k)).2 ∧ NoLeak (writeBlocks n data v (List.range' i k)).2
  | 0, v, i, h, _ => ⟨h.sound, h.noLeak⟩
  | k + 1, v, i, h, hf => by
    rw [List.range'_succ]
    unfold writeBlocks
    have ht := h.turn
    generalize blockForOffset v n (512 * i) true = r at ht
    cases ht with
    | none _ => exact ⟨h.sound, h.noLeak⟩
    | leak h10 hl =>
      have := hl.freeBlocks
      have := (h.noTable (by omega)).2
      exact absurd (show f = 11 by omega) (hf (by omega))
    | next h0 _ hnext =>
      rw [if_neg h0]
      exact writeBlocks_keeps data k (hnext _) (fun hlt => hf (by omega))

theorem writeBlocks_leaks (data : List Byte) : ∀ (k : Nat) {v : Volume} {i : Nat}, Filling v n 11 i → i ≤ 10 →
    10 < i + k → (writeBlocks n data v (List.range' i k)).1 = false ∧
      Sound (writeBlocks n data v (List.range' i k)).2 ∧ ¬NoLeak (writeBlocks n data v (List.range' i k)).2
  | 0, _, _, _, hi, hk => absurd hk (by omega)
  | k + 1, v, i, h, hi, hk => by
    rw [List.range'_succ]
    unfold writeBlocks
    have ht := h.turn
    have hfree := (h.noTable hi).2
    generalize blockForOffset v n (512 * i) true = r at ht
    cases ht with
    | none h0 =>
      have := h0 hi
      omega
    | leak h10 hl => exact ⟨rfl, hl.sound h.sound, hl.not_noLeak h.sound⟩
    | next h0 h1 hnext =>
      rw [if_neg h0]
      by_cases h10 : i = 10
      · have := h1 h10
        omega
      · exact writeBlocks_leaks data k (hnext _) (by omega) (by omega)

/-! ## `amfs_write` to an inode -/

theorem Filling.start (h : Sound v) (hl : NoLeak v) (ht : typeOf v n ≠ typeFree) :
    Filling (emptied v n) n (roomFor v n) 0 := by
  have hr := emptied_released h n
  constructor
  · exact hr.sound h
  · exact hr.noLeak hl
  · rw [hr.types, if_pos rfl]
    exact ht
  · intro j hj _
    exact hr.slots.empty _ rfl
  · intro _
    exact ⟨hr.slots.empty _ rfl, (Nat.add_zero _).trans hr.freeBlocks⟩
  · intro hlt
    omega

theorem writeInode_eq (v : Volume) (n : Nat) (data : List Byte) (ht : (inodeRead v n).type = typeFile) :
    writeInode v n data =
      let r := writeBlocks n data (emptied v n) (List.range' 0 ((data.length + 511) / 512))
      if r.1 then (0, inodeWrite r.2 n ((inodeRead r.2 n).setSize data.length)) else (-1, r.2) := by
  have hne : ¬ (inodeRead v n).type ≠ typeFile := not_not_intro ht
  unfold writeInode
  rw [if_neg hne, List.range_eq_range']
  rfl

theorem ne_free_of_file (ht : typeOf v n = typeFile) : typeOf v n ≠ typeFree := by
  rw [ht]
  decide

theorem writeInode_keeps {data : List Byte} (h : Sound v) (hl : NoLeak v)
    (hf : typeOf v n = typeFile → 5120 < data.length → roomFor v n ≠ 11) :
    Sound (writeInode v n data).2 ∧ NoLeak (writeInode v n data).2 := by
  by_cases ht : typeOf v n = typeFile
  · have hkeep := writeBlocks_keeps data ((data.length + 511) / 512)
      (Filling.start h hl (ne_free_of_file ht)) (fun hlt => hf ht (by omega))
    rw [writeInode_eq v n data ht]
    dsimp only
    generalize writeBlocks n data (emptied v n) (List.range' 0 ((data.length + 511) / 512)) = r at hkeep ⊢
    split
    · have hs := hkeep.1.same_setSize n data.length
      exact ⟨hs.sound hkeep.1, hs.noLeak hkeep.2⟩
    · exact hkeep
  · have hne : (inodeRead v n).type ≠ typeFile := ht
    unfold writeInode
    rw [if_pos hne]
    exact ⟨h, hl⟩

theorem writeInode_leaks {data : List Byte} (h : Sound v) (hl : NoLeak v) (ht : typeOf v n = typeFile)
    (hroom : roomFor v n = 11) (hlen : 5120 < data.length) :
    (writeInode v n data).1 = -1 ∧ Sound (writeInode v n data).2 ∧ ¬NoLeak (writeInode v n data).2 := by
  have hstart := Filling.start h hl (ne_free_of_file ht)
  rw [hroom] at hstart
  obtain ⟨hfail, hleak⟩ := writeBlocks_leaks data ((data.length + 511) / 512) hstart (by decide) (by omega)
  rw [writeInode_eq v n data ht]
  dsimp only
  rw [hfail]
  exact ⟨rfl, hleak⟩

end Amfs
end AmitX
