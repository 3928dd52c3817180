import AmitX.SmkFs.Mount
import Mathlib.Data.Nat.Count
/-!
# Bitmap — the allocation bitmap and its counters (`bitmap.c`, first half)

One bit for each data block, in the blocks of the bitmap area.  `sb.free_blocks` counts the clear bits of the volume
and each region's `free_count` those of 256 blocks.  `bitmap_set` and `bitmap_clear` keep the counts exact whatever
fails: a failed call changes nothing.
-/
namespace AmitX
namespace SmkFs

open Prog

/-- The number of blocks of the data area, `total_blocks - data_start`. -/
def Layout.dataBlocks (l : Layout) : Nat := sub64 l.totalBlocks l.dataStart

/-- The bitmap block of data block `idx`. -/
def Layout.bitmapBlock (l : Layout) (idx : Nat) : Nat := l.bitmapStart + idx / bitsPerBlock

def bitmapRegionSize (l : Layout) (region : Nat) : Nat :=
  let start := region * regionBlocks
  let stop := min (start + regionBlocks) l.dataBlocks
  if start < stop then stop - start else 0

/-- `free_count` of one region through `f`, where the region cache exists and covers the region. -/
def Mem.mapRegion (region : Nat) (f : Nat → Nat) (m : Mem) : Mem :=
  { m with regions := m.regions.map (fun r =>
      if region < m.regionCount then Function.update r region (f (r region)) else r) }

def Mem.mapFreeBlocks (f : Nat → Nat) (m : Mem) : Mem := { m with sb.freeBlocks := f m.sb.freeBlocks }

def countTaken (idx : Nat) (m : Mem) : Mem :=
  (m.mapFreeBlocks (fun n => sub64 n 1)).mapRegion (idx / regionBlocks) (fun n => if 0 < n then n - 1 else n)

def countFreed (idx : Nat) (m : Mem) : Mem :=
  (m.mapFreeBlocks (fun n => add64 n 1)).mapRegion (idx / regionBlocks)
    (fun n => if n < bitmapRegionSize m.sb.toLayout (idx / regionBlocks) then n + 1 else n)

def bitmapSet (block : Nat) : FsM Unit := do
  let sb ← getSb
  failIf (block < sb.dataStart) .corrupt
  let idx := block - sb.dataStart
  let buf ← malloc
  failIf (buf = false) .nomem
  let x ← readBlock (sb.bitmapBlock idx)
  modifyMem (fun m => if x.bits (idx % bitsPerBlock) then m else countTaken idx m)
  writeBlock (sb.bitmapBlock idx) (x.setBit (idx % bitsPerBlock) true)

def bitmapClear (block : Nat) : FsM Unit := do
  let sb ← getSb
  failIf (block < sb.dataStart) .corrupt
  let idx := block - sb.dataStart
  let buf ← malloc
  failIf (buf = false) .nomem
  let x ← readBlock (sb.bitmapBlock idx)
  modifyMem (fun m => if x.bits (idx % bitsPerBlock) then countFreed idx m else m)
  writeBlock (sb.bitmapBlock idx) (x.setBit (idx % bitsPerBlock) false)

def bitmapTest (block : Nat) : FsM Bool := do
  let sb ← getSb
  failIf (block < sb.dataStart) .corrupt
  let idx := block - sb.dataStart
  let buf ← malloc
  failIf (buf = false) .nomem
  let x ← readBlock (sb.bitmapBlock idx)
  pure (x.bits (idx % bitsPerBlock))

/-- Take the set bits among the first `n` of a bitmap block, whose first bit is `base`, off the region counts. -/
def scanBits (x : BlockData) (base : Nat) : Nat → (Nat → Nat) → Nat → Nat
  | 0, r => r
  | n + 1, r =>
    let r' := scanBits x base n r
    let region := (base + n) / regionBlocks
    if x.bits n && decide (0 < r' region) then Function.update r' region (r' region - 1) else r'

/-- Scan the bitmap blocks from `bb` on, `n` of them. -/
def scanBitmap (sb : Superblock) : Nat → Nat → (Nat → Nat) → FsM (Nat → Nat)
  | _, 0, r => pure r
  | bb, n + 1, r => do
    let x ← readBlock (sb.bitmapStart + bb)
    scanBitmap sb (bb + 1) n (scanBits x (bb * bitsPerBlock) (min bitsPerBlock (sb.dataBlocks - bb * bitsPerBlock)) r)

def bitmapInitRegions : FsM Unit := do
  let m ← getMem
  failIf (m.regions.isSome = true) .inval
  if m.sb.dataBlocks = 0 then
    modifyMem (fun m => { m with regionCount := 0, regions := none, allocHintRegion := 0 })
  else do
    modifyMem (fun m => { m with regionCount := (m.sb.dataBlocks + regionBlocks - 1) / regionBlocks })
    let regions ← malloc
    failIf (regions = false) .nomem
    let buf ← malloc
    failIf (buf = false) .nomem
    let r ← scanBitmap m.sb 0 m.sb.bitmapLength (bitmapRegionSize m.sb.toLayout)
    modifyMem (fun m => { m with regions := some r, allocHintRegion := 0 })

def bitmapShutdown : FsM Unit :=
  modifyMem (fun m => { m with regions := none, regionCount := 0, allocHintRegion := 0 })

/-! ## The bitmap of a volume -/

namespace Volume

/-- Data block `idx` is marked allocated. -/
def used (v : Volume) (idx : Nat) : Bool := (v.view (v.sb.bitmapBlock idx)).bits (idx % bitsPerBlock)

def setUsed (idx : Nat) (b : Bool) (v : Volume) : Volume :=
  v.write (v.sb.bitmapBlock idx) ((v.view (v.sb.bitmapBlock idx)).setBit (idx % bitsPerBlock) b)

theorem setUsed_toMem (idx : Nat) (b : Bool) (v : Volume) : (v.setUsed idx b).toMem = v.toMem := rfl

theorem bitmapBit_injective {l : Layout} {i j : Nat} (hb : l.bitmapBlock i = l.bitmapBlock j)
    (hm : i % bitsPerBlock = j % bitsPerBlock) : i = j := by
  unfold Layout.bitmapBlock at hb
  have hi := Nat.div_add_mod i bitsPerBlock
  have hj := Nat.div_add_mod j bitsPerBlock
  rw [show i / bitsPerBlock = j / bitsPerBlock by omega, hm] at hi
  omega

theorem used_setUsed (idx : Nat) (b : Bool) (v : Volume) : (v.setUsed idx b).used = Function.update v.used idx b := by
  funext i
  unfold used setUsed
  simp only [write_view, write_toMem]
  by_cases hi : i = idx
  · subst hi
    simp
  · rw [Function.update_of_ne hi]
    by_cases hb : v.sb.bitmapBlock i = v.sb.bitmapBlock idx
    · rw [hb, Function.update_self, BlockData.bits_setBit, Function.update_of_ne]
      exact fun hm => hi (bitmapBit_injective hb hm)
    · rw [Function.update_of_ne hb]

/-- What `bitmap_set` does to a volume. -/
def bitmapSet (idx : Nat) (v : Volume) : Volume :=
  (v.setUsed idx true).mapMem (fun m => if v.used idx then m else countTaken idx m)

/-- What `bitmap_clear` does to a volume. -/
def bitmapClear (idx : Nat) (v : Volume) : Volume :=
  (v.setUsed idx false).mapMem (fun m => if v.used idx then countFreed idx m else m)

end Volume

structure Volume.InUse (v : Volume) (q : Nat) : Prop where
  low : v.sb.dataStart ≤ q
  high : q - v.sb.dataStart < v.sb.dataBlocks
  used : v.used (q - v.sb.dataStart) = true

theorem vwp_bitmapSet (F : Prop) (v : Volume) (block : Nat) : vwp F (bitmapSet block)
    (fun _ v' => v.sb.dataStart ≤ block ∧ v' = v.bitmapSet (block - v.sb.dataStart))
    (fun _ v' => v' = v ∧ (v.sb.dataStart ≤ block → F ∨ ¬v.sectorOk)) v := by
  unfold bitmapSet
  refine wpAbs_bind (vwp_getSb (wpAbs_bind (wpAbs_failIf (fun h => ⟨rfl, fun _ => by omega⟩) (fun hge => ?_))))
  refine wpAbs_bind (vwp_malloc ?_ ?_)
  · refine wpAbs_bind (wpAbs_failIf (fun h => by simp at h) (fun _ => ?_))
    exact vwp_readModifyWrite ⟨by omega, rfl⟩ (fun hf => ⟨rfl, fun _ => hf⟩)
  · exact fun hF => wpAbs_bind (wpAbs_failIf (fun _ => ⟨rfl, fun _ => Or.inl hF⟩) (fun h => absurd rfl h))

theorem vwp_bitmapClear (F : Prop) (v : Volume) (block : Nat) : vwp F (bitmapClear block)
    (fun _ v' => v.sb.dataStart ≤ block ∧ v' = v.bitmapClear (block - v.sb.dataStart))
    (fun _ v' => v' = v ∧ (v.sb.dataStart ≤ block → F ∨ ¬v.sectorOk)) v := by
  unfold bitmapClear
  refine wpAbs_bind (vwp_getSb (wpAbs_bind (wpAbs_failIf (fun h => ⟨rfl, fun _ => by omega⟩) (fun hge => ?_))))
  refine wpAbs_bind (vwp_malloc ?_ ?_)
  · refine wpAbs_bind (wpAbs_failIf (fun h => by simp at h) (fun _ => ?_))
    exact vwp_readModifyWrite ⟨by omega, rfl⟩ (fun hf => ⟨rfl, fun _ => hf⟩)
  · exact fun hF => wpAbs_bind (wpAbs_failIf (fun _ => ⟨rfl, fun _ => Or.inl hF⟩) (fun h => absurd rfl h))

/-! ## Exact counts -/

/-- The number of clear bits among the first `n`. -/
def clears (f : Nat → Bool) (n : Nat) : Nat := Nat.count (fun i => f i = false) n

theorem clears_succ (f : Nat → Bool) (n : Nat) : clears f (n + 1) = clears f n + if f n = false then 1 else 0 :=
  Nat.count_succ (fun i => f i = false) n

theorem clears_le (f : Nat → Bool) (n : Nat) : clears f n ≤ n := Nat.count_le _

theorem clears_congr {f g : Nat → Bool} : ∀ {n : Nat}, (∀ i < n, f i = g i) → clears f n = clears g n
  | 0, _ => rfl
  | n + 1, h => by
    rw [clears_succ, clears_succ, clears_congr (fun i hi => h i (by omega)), h n (by omega)]

theorem clears_set {f : Nat → Bool} {i : Nat} (h : f i = false) : ∀ n,
    clears (Function.update f i true) n + (if i < n then 1 else 0) = clears f n
  | 0 => rfl
  | n + 1 => by
    have ih := clears_set h n
    rw [clears_succ, clears_succ]
    by_cases hi : i = n
    · subst hi
      simp only [Function.update_self, h, Nat.lt_irrefl, Nat.lt_succ_self, if_true, if_false] at ih ⊢
      simp only [reduceCtorEq, if_false]
      omega
    · rw [Function.update_of_ne (Ne.symm hi)]
      split at ih <;> split <;> split <;> omega

theorem clears_clear {f : Nat → Bool} {i : Nat} (h : f i = true) (n : Nat) :
    clears (Function.update f i false) n = clears f n + if i < n then 1 else 0 := by
  have := clears_set (f := Function.update f i false) (i := i) (by simp) n
  rw [Function.update_idem, Function.update_eq_self_iff.2 h.symm] at this
  exact this.symm

def regionClears (l : Layout) (f : Nat → Bool) (r : Nat) : Nat :=
  clears (fun j => f (r * regionBlocks + j)) (bitmapRegionSize l r)

namespace Volume

/-- `sb.free_blocks` is the number of clear bits of the data area. -/
def FreeExact (v : Volume) : Prop := v.sb.freeBlocks = clears v.used v.sb.dataBlocks

/-- Each region's `free_count` is the number of clear bits of the region. -/
def RegionsExact (v : Volume) : Prop :=
  ∀ c, v.regions = some c → ∀ i < v.regionCount, c i = regionClears v.sb.toLayout v.used i

end Volume

theorem update_shift_of_mem (f : Nat → Bool) (i : Nat) (b : Bool) :
    (fun j => Function.update f i b (i / regionBlocks * regionBlocks + j)) =
      Function.update (fun j => f (i / regionBlocks * regionBlocks + j)) (i % regionBlocks) b := by
  have hi := Nat.div_add_mod' i regionBlocks
  funext j
  by_cases hj : j = i % regionBlocks
  · rw [hj, hi, Function.update_self, Function.update_self]
  · rw [Function.update_of_ne hj, Function.update_of_ne (by omega)]

theorem update_shift_of_not_mem (f : Nat → Bool) {i r j : Nat} (b : Bool) (hr : r ≠ i / regionBlocks)
    (hj : j < regionBlocks) : Function.update f i b (r * regionBlocks + j) = f (r * regionBlocks + j) := by
  refine Function.update_of_ne (fun h => hr ?_) _ _
  rw [← h, Nat.add_comm, Nat.add_mul_div_right _ _ regionBlocks_pos, Nat.div_eq_of_lt hj, Nat.zero_add]

theorem bitmapRegionSize_le (l : Layout) (r : Nat) : bitmapRegionSize l r ≤ regionBlocks := by
  simp only [bitmapRegionSize]
  split <;> omega

theorem mod_lt_bitmapRegionSize {l : Layout} {idx : Nat} (h : idx < l.dataBlocks) :
    idx % regionBlocks < bitmapRegionSize l (idx / regionBlocks) := by
  have hi := Nat.div_add_mod' idx regionBlocks
  have hm : idx % regionBlocks < regionBlocks := Nat.mod_lt _ regionBlocks_pos
  simp only [bitmapRegionSize]
  rw [if_pos] <;> omega

theorem dataBlocks_lt (l : Layout) : l.dataBlocks < 2 ^ 64 := by
  unfold Layout.dataBlocks sub64
  omega

theorem regionStart_add_lt {l : Layout} {r j : Nat} (h : j < bitmapRegionSize l r) :
    r * regionBlocks + j < l.dataBlocks := by
  simp only [bitmapRegionSize] at h
  split at h <;> omega

theorem regionClears_le (l : Layout) (f : Nat → Bool) (r : Nat) : regionClears l f r ≤ bitmapRegionSize l r :=
  clears_le _ _

theorem regionClears_congr {l : Layout} {f g : Nat → Bool} (h : ∀ i < l.dataBlocks, f i = g i) (r : Nat) :
    regionClears l f r = regionClears l g r :=
  clears_congr (fun _ hj => h _ (regionStart_add_lt hj))

theorem regionClears_update (l : Layout) (f : Nat → Bool) (idx : Nat) (b : Bool) (r : Nat) :
    regionClears l (Function.update f idx b) r =
      if r = idx / regionBlocks then
        clears (Function.update (fun j => f (r * regionBlocks + j)) (idx % regionBlocks) b) (bitmapRegionSize l r)
      else regionClears l f r := by
  unfold regionClears
  split
  · rename_i hr
    rw [hr, update_shift_of_mem f idx b]
  · rename_i hr
    exact clears_congr (fun j hj => update_shift_of_not_mem _ _ hr (lt_of_lt_of_le hj (bitmapRegionSize_le _ _)))

theorem regionClears_set {l : Layout} {f : Nat → Bool} {idx : Nat} (hi : idx < l.dataBlocks) (h : f idx = false)
    (r : Nat) : regionClears l (Function.update f idx true) r + (if r = idx / regionBlocks then 1 else 0) =
      regionClears l f r := by
  rw [regionClears_update]
  by_cases hr : r = idx / regionBlocks
  · have hb : f (r * regionBlocks + idx % regionBlocks) = false := by rw [hr, Nat.div_add_mod', h]
    have := clears_set (f := fun j => f (r * regionBlocks + j)) (i := idx % regionBlocks) hb (bitmapRegionSize l r)
    rw [if_pos (hr ▸ mod_lt_bitmapRegionSize hi)] at this
    rwa [if_pos hr, if_pos hr]
  · rw [if_neg hr, if_neg hr, Nat.add_zero]

theorem regionClears_clear {l : Layout} {f : Nat → Bool} {idx : Nat} (hi : idx < l.dataBlocks) (h : f idx = true)
    (r : Nat) : regionClears l (Function.update f idx false) r =
      regionClears l f r + if r = idx / regionBlocks then 1 else 0 := by
  rw [regionClears_update]
  by_cases hr : r = idx / regionBlocks
  · have hb : f (r * regionBlocks + idx % regionBlocks) = true := by rw [hr, Nat.div_add_mod', h]
    have := clears_clear (f := fun j => f (r * regionBlocks + j)) (i := idx % regionBlocks) hb (bitmapRegionSize l r)
    rw [if_pos (hr ▸ mod_lt_bitmapRegionSize hi)] at this
    rwa [if_pos hr, if_pos hr]
  · rw [if_neg hr, if_neg hr, Nat.add_zero]

/-! ## What the counters do -/

@[simp] theorem mapFreeBlocks_layout (f : Nat → Nat) (m : Mem) : (m.mapFreeBlocks f).sb.toLayout = m.sb.toLayout := rfl
@[simp] theorem mapFreeBlocks_freeBlocks (f : Nat → Nat) (m : Mem) :
    (m.mapFreeBlocks f).sb.freeBlocks = f m.sb.freeBlocks := rfl
@[simp] theorem mapFreeBlocks_regions (f : Nat → Nat) (m : Mem) : (m.mapFreeBlocks f).regions = m.regions := rfl
@[simp] theorem mapFreeBlocks_regionCount (f : Nat → Nat) (m : Mem) :
    (m.mapFreeBlocks f).regionCount = m.regionCount := rfl
@[simp] theorem mapRegion_sb (r : Nat) (f : Nat → Nat) (m : Mem) : (m.mapRegion r f).sb = m.sb := rfl
@[simp] theorem mapRegion_regionCount (r : Nat) (f : Nat → Nat) (m : Mem) :
    (m.mapRegion r f).regionCount = m.regionCount := rfl

@[simp] theorem countTaken_layout (idx : Nat) (m : Mem) : (countTaken idx m).sb.toLayout = m.sb.toLayout := by
  rw [countTaken, mapRegion_sb, mapFreeBlocks_layout]

@[simp] theorem countFreed_layout (idx : Nat) (m : Mem) : (countFreed idx m).sb.toLayout = m.sb.toLayout := by
  rw [countFreed, mapRegion_sb, mapFreeBlocks_layout]

@[simp] theorem mapFreeBlocks_ring (f : Nat → Nat) (m : Mem) : (m.mapFreeBlocks f).sb.toRing = m.sb.toRing := rfl

@[simp] theorem countFreed_ring (idx : Nat) (m : Mem) : (countFreed idx m).sb.toRing = m.sb.toRing := by
  rw [countFreed, mapRegion_sb, mapFreeBlocks_ring]

@[simp] theorem countTaken_ring (idx : Nat) (m : Mem) : (countTaken idx m).sb.toRing = m.sb.toRing := by
  rw [countTaken, mapRegion_sb, mapFreeBlocks_ring]

@[simp] theorem countTaken_freeBlocks (idx : Nat) (m : Mem) :
    (countTaken idx m).sb.freeBlocks = sub64 m.sb.freeBlocks 1 := by
  rw [countTaken, mapRegion_sb, mapFreeBlocks_freeBlocks]

@[simp] theorem countFreed_freeBlocks (idx : Nat) (m : Mem) :
    (countFreed idx m).sb.freeBlocks = add64 m.sb.freeBlocks 1 := by
  rw [countFreed, mapRegion_sb, mapFreeBlocks_freeBlocks]

theorem mapRegion_regions {r : Nat} {f : Nat → Nat} {m : Mem} {c : Nat → Nat}
    (h : (m.mapRegion r f).regions = some c) : ∃ c', m.regions = some c' ∧ ∀ i < m.regionCount,
      c i = if i = r then f (c' i) else c' i := by
  cases hm : m.regions with
  | none => simp [Mem.mapRegion, hm] at h
  | some c' =>
    refine ⟨c', rfl, fun i hi => ?_⟩
    simp only [Mem.mapRegion, hm, Option.map_some, Option.some.injEq] at h
    rw [← h]
    by_cases hr : i = r
    · subst hr
      rw [if_pos hi, if_pos rfl, Function.update_self]
    · rw [if_neg hr]
      split
      · rw [Function.update_of_ne hr]
      · rfl

namespace Volume

theorem used_mapMem {f : Mem → Mem} {v : Volume} (h : (f v.toMem).sb.toLayout = v.sb.toLayout) :
    (v.mapMem f).used = v.used := by
  funext i
  simp only [used, mapMem_view, mapMem_toMem, h]

theorem bitmapSet_of_used {v : Volume} {idx : Nat} (h : v.used idx = true) : v.bitmapSet idx = v.setUsed idx true := by
  unfold bitmapSet
  rw [h]
  rfl

theorem bitmapSet_of_clear {v : Volume} {idx : Nat} (h : v.used idx = false) :
    v.bitmapSet idx = (v.setUsed idx true).mapMem (countTaken idx) := by
  unfold bitmapSet
  rw [h]
  rfl

theorem bitmapClear_of_clear {v : Volume} {idx : Nat} (h : v.used idx = false) :
    v.bitmapClear idx = v.setUsed idx false := by
  unfold bitmapClear
  rw [h]
  rfl

theorem bitmapClear_of_used {v : Volume} {idx : Nat} (h : v.used idx = true) :
    v.bitmapClear idx = (v.setUsed idx false).mapMem (countFreed idx) := by
  unfold bitmapClear
  rw [h]
  rfl

theorem used_bitmapSet (v : Volume) (idx : Nat) : (v.bitmapSet idx).used = Function.update v.used idx true := by
  unfold bitmapSet
  rw [used_mapMem (by split <;> simp [setUsed_toMem]), used_setUsed]

theorem used_bitmapClear (v : Volume) (idx : Nat) : (v.bitmapClear idx).used = Function.update v.used idx false := by
  unfold bitmapClear
  rw [used_mapMem (by split <;> simp [setUsed_toMem]), used_setUsed]

end Volume

attribute [irreducible] Layout.dataBlocks bitmapRegionSize clears regionClears

end SmkFs
end AmitX
