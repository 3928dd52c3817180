import AmitX.SmkFs.Exact
/-!
# Mounting — caches that come and go, and the region counts a mount rebuilds (`super.c`, `bitmap.c`)

What outlives a cache is the disk: a shutdown that does not fail leaves on it what every block reads as, and a mount
starts from it.  `bitmap_init_regions` scans the bitmap and finds each region's number of clear bits.
-/
namespace AmitX
namespace SmkFs

open Prog Volume Drive

/-! ## Shutting a cache down -/

def Mount.Synced (s : Mount) : Prop := s.dev.1.content = s.dev.1.disk

theorem synced_blockCacheInit (s : Mount) : (blockCacheInit s).Synced := content_cacheInit s.dev.1

theorem vol_blockCacheInit (s : Mount) : (blockCacheInit s).vol = ⟨s.toMem, s.dev.1.disk⟩ := by
  unfold Mount.vol blockCacheInit
  rw [content_cacheInit]

def Mount.Reliable (s : Mount) : Prop := ¬s.DiskFaulty ∧ ¬s.HeapFaulty

theorem Runs.apply' {α : Type} {m : FsM α} {s : Mount} {a : α} {v' : Volume} (h : Runs m s.vol a v')
    (hs : s.Reliable) : ∃ s', m s = (.ok a, s') ∧ s'.vol = v' ∧ s'.Reliable := h.apply hs.1 hs.2

theorem Quiet.reliable {s s' : Mount} (h : Quiet s s') (hs : s.Reliable) : s'.Reliable :=
  ⟨fun hd => hs.1 (h.fewerFaults.disk hd), fun hh => hs.2 (h.fewerFaults.heap hh)⟩

theorem blockCacheFlush_reliable {s : Mount} (hs : s.Reliable) (hsec : s.sectorOk) :
    ∃ s', blockCacheFlush s = (.ok (), s') ∧ Quiet s s' ∧ s'.dev.1.Flushed := by
  have hw := wp_blockCacheFlush s
  rcases hm : blockCacheFlush s with ⟨e | a, s'⟩
  · exact absurd (wp_error hw hm).1.2 (fun h => h.elim (fun h => h hsec) hs.1)
  · have h := wp_ok hw hm
    exact ⟨s', rfl, h.1, h.2⟩

theorem Quiet.synced {s s' : Mount} (h : Quiet s s') (hf : s'.dev.1.Flushed) : s'.Synced :=
  content_of_flushed h.dev.wf hf

theorem blockCacheShutdown_reliable {s : Mount} (hs : s.Reliable) (hsec : s.sectorOk) :
    ∃ s', blockCacheShutdown s = (.ok (), s') ∧ s'.vol = s.vol ∧ s'.Synced ∧ s'.Reliable := by
  obtain ⟨s1, h1, hq, hf⟩ := blockCacheFlush_reliable hs hsec
  have hsync := hq.synced hf
  refine ⟨blockCacheInit s1, ?_, ?_, synced_blockCacheInit s1, hq.reliable hs⟩
  · exact bind_of_ok (ignore_of_run h1) _
  · rw [vol_blockCacheInit, ← hsync, ← hq.vol]
    rfl

theorem malloc_reliable {s : Mount} (hs : s.Reliable) :
    ∃ s', malloc s = (.ok true, s') ∧ s'.toMem = s.toMem ∧ s'.dev = s.dev ∧ s'.Reliable := by
  have hw := wp_malloc s
  rcases hm : malloc s with ⟨e | a, s'⟩
  · exact (wp_error hw hm).elim
  · have h := wp_ok hw hm
    cases a with
    | false => exact absurd (h.2.2 rfl) hs.2
    | true => exact ⟨s', rfl, h.1.mem, h.2.1, h.1.reliable hs⟩

/-! ## A context of its own -/

theorem disk_besideCache (outer inner : Device) : (besideCache outer inner).1.disk = inner.1.disk := rfl

theorem content_besideCache {outer inner : Device} (hf : outer.1.Flushed) :
    (besideCache outer inner).1.content = inner.1.disk := by
  rw [content_of_flushed (besideCache outer inner).2, disk_besideCache]
  intro i hi
  change (dirtySlots outer.1.slots i).dirty = false
  change (dirtySlots outer.1.slots i).valid = true at hi
  unfold dirtySlots at hi ⊢
  split
  · rename_i hd
    rw [if_pos hd] at hi
    exact hf i hi
  · rename_i hd
    simpa using hd

theorem ownContext_eq {α : Type} {m : FsM α} {s s' : Mount} {r : Except Err α}
    (h : m (blockCacheInit ⟨zeroMem, s.dev, s.heap⟩) = (r, s')) :
    ownContext m s = (r, ⟨s.toMem, besideCache s.dev s'.dev, s'.heap⟩) := by
  unfold ownContext
  rw [h]

/-! ## Counting the regions -/

/-- The first `n` bits of a bitmap. -/
def firstBits (f : Nat → Bool) (n i : Nat) : Bool := decide (i < n) && f i

theorem firstBits_succ (f : Nat → Bool) (n : Nat) :
    firstBits f (n + 1) = if f n then Function.update (firstBits f n) n true else firstBits f n := by
  funext i
  unfold firstBits
  by_cases hi : i = n
  · subst hi
    cases f i <;> simp
  · have h1 : (i < n + 1) ↔ (i < n) := by omega
    split
    · rw [Function.update_of_ne hi]
      simp only [h1]
    · simp only [h1]

theorem firstBits_self (f : Nat → Bool) (n : Nat) : firstBits f n n = false := by simp [firstBits]

theorem clears_all {f : Nat → Bool} (h : ∀ i, f i = false) : ∀ n, clears f n = n
  | 0 => Nat.le_zero.1 (clears_le f 0)
  | n + 1 => by
    rw [clears_succ, clears_all h n, if_pos (h n)]

theorem regionClears_zero (l : Layout) (f : Nat → Bool) (r : Nat) :
    regionClears l (firstBits f 0) r = bitmapRegionSize l r := by
  unfold regionClears
  exact clears_all (fun i => by simp [firstBits]) _

theorem scanBits_firstBits {l : Layout} {f : Nat → Bool} {x : BlockData} {base : Nat} : ∀ {n : Nat},
    base + n ≤ l.dataBlocks → (∀ j < n, x.bits j = f (base + j)) →
    scanBits x base n (regionClears l (firstBits f base)) = regionClears l (firstBits f (base + n))
  | 0, _, _ => rfl
  | n + 1, hn, hx => by
    have ih := @scanBits_firstBits l f x base n (by omega) (fun j hj => hx j (by omega))
    rw [scanBits, ih, hx n (by omega), ← Nat.add_assoc base n 1, firstBits_succ]
    cases hf : f (base + n) with
    | false => simp
    | true =>
      have hset := regionClears_set (by omega : base + n < l.dataBlocks) (firstBits_self f (base + n))
      have hr := hset ((base + n) / regionBlocks)
      rw [if_pos rfl] at hr
      simp only [Bool.true_and, if_true]
      rw [if_pos (by simpa using (by omega : 0 < regionClears l (firstBits f (base + n)) ((base + n) / regionBlocks)))]
      funext r
      have hr' := hset r
      by_cases h : r = (base + n) / regionBlocks
      · rw [if_pos h] at hr'
        rw [h, Function.update_self, ← h]
        omega
      · rw [if_neg h] at hr'
        rw [Function.update_of_ne h]
        omega

variable {D H : Prop}

theorem fwp_scanBitmap {v : Volume} : ∀ (k bb : Nat), bb + k = v.sb.bitmapLength →
    fwp D H (scanBitmap v.sb bb k (regionClears v.sb.toLayout (firstBits v.used (min (bb * bitsPerBlock) v.sb.dataBlocks))))
      (fun r v' => v' = v ∧ r = regionClears v.sb.toLayout
        (firstBits v.used (min (v.sb.bitmapLength * bitsPerBlock) v.sb.dataBlocks)))
      (fun e v' => v' = v ∧ e = .io ∧ (D ∨ ¬v.sectorOk)) v
  | 0, bb, hk => by
    rw [scanBitmap]
    refine wpAbs_pure ⟨rfl, ?_⟩
    rw [← hk, Nat.add_zero]
  | k + 1, bb, hk => by
    have ih := fwp_scanBitmap (v := v) k (bb + 1) (by omega)
    rw [scanBitmap]
    refine wpAbs_bind (vwp_readBlock ?_ (fun h => ⟨rfl, rfl, h⟩))
    by_cases hle : bb * bitsPerBlock ≤ v.sb.dataBlocks
    · rw [Nat.min_eq_left hle]
      have hscan := @scanBits_firstBits v.sb.toLayout v.used (v.view (v.sb.bitmapStart + bb)) (bb * bitsPerBlock)
        (min bitsPerBlock (v.sb.dataBlocks - bb * bitsPerBlock)) (by omega) (fun j hj => by
          have hb : bitsPerBlock * bb + j = bb * bitsPerBlock + j := by rw [Nat.mul_comm]
          have hpos := bitsPerBlock_pos
          have hdiv : (bb * bitsPerBlock + j) / bitsPerBlock = bb := by
            rw [← hb, Nat.mul_add_div hpos, Nat.div_eq_of_lt (by omega), Nat.add_zero]
          have hmod : (bb * bitsPerBlock + j) % bitsPerBlock = j := by
            rw [← hb, Nat.mul_add_mod, Nat.mod_eq_of_lt (by omega)]
          rw [used, Layout.bitmapBlock, hdiv, hmod])
      rw [hscan]
      have hend : bb * bitsPerBlock + min bitsPerBlock (v.sb.dataBlocks - bb * bitsPerBlock) =
          min ((bb + 1) * bitsPerBlock) v.sb.dataBlocks := by
        rw [Nat.add_mul, Nat.one_mul]
        omega
      rw [hend]
      exact ih
    · have h0 : min bitsPerBlock (v.sb.dataBlocks - bb * bitsPerBlock) = 0 := by omega
      have hm : min (bb * bitsPerBlock) v.sb.dataBlocks = min ((bb + 1) * bitsPerBlock) v.sb.dataBlocks := by
        rw [Nat.add_mul, Nat.one_mul]
        omega
      rw [h0, scanBits, hm]
      exact ih

def Volume.rebuilt (v : Volume) : Volume :=
  if v.sb.dataBlocks = 0 then
    v.mapMem (fun m => { m with regionCount := 0, regions := none, allocHintRegion := 0 })
  else
    (v.mapMem (fun m => { m with regionCount := (m.sb.dataBlocks + regionBlocks - 1) / regionBlocks })).mapMem
      (fun m => { m with regions := some (regionClears v.sb.toLayout v.used), allocHintRegion := 0 })

theorem firstBits_of_lt {f : Nat → Bool} {n i : Nat} (h : i < n) : firstBits f n i = f i := by simp [firstBits, h]

theorem fwp_scanBitmap_all {v : Volume} (hl : v.sb.toLayout.WF) :
    fwp D H (scanBitmap v.sb 0 v.sb.bitmapLength (bitmapRegionSize v.sb.toLayout))
      (fun r v' => v' = v ∧ r = regionClears v.sb.toLayout v.used) (fun e v' => v' = v ∧ e = .io ∧ D) v := by
  have h := @fwp_scanBitmap D H v v.sb.bitmapLength 0 (Nat.zero_add _)
  have h0 : regionClears v.sb.toLayout (firstBits v.used (min (0 * bitsPerBlock) v.sb.dataBlocks)) =
      bitmapRegionSize v.sb.toLayout := by
    rw [Nat.zero_mul, Nat.zero_min]
    funext r
    exact regionClears_zero _ _ r
  have hall : regionClears v.sb.toLayout (firstBits v.used (min (v.sb.bitmapLength * bitsPerBlock) v.sb.dataBlocks)) =
      regionClears v.sb.toLayout v.used := by
    have hcov := hl.covers
    rw [← hl.dataBlocks_eq] at hcov
    rw [Nat.min_eq_right hcov]
    funext r
    exact regionClears_congr (fun i hi => firstBits_of_lt hi) r
  rw [h0, hall] at h
  exact wpAbs_mono h (fun _ _ h => h) (fun _ _ h => ⟨h.1, h.2.1, h.2.2.resolve_right (fun h => h (sectorOk_of_wf hl))⟩)

theorem fwp_bitmapInitRegions {v : Volume} (hl : v.sb.toLayout.WF) (hreg : v.regions = none) :
    fwp D H bitmapInitRegions (fun _ v' => v' = v.rebuilt)
      (fun _ v' => v'.view = v.view ∧ v'.sb = v.sb ∧ (H ∨ D)) v := by
  unfold bitmapInitRegions
  refine wpAbs_bind (vwp_getMem (wpAbs_bind (wpAbs_failIf (fun h => by simp [hreg] at h) (fun _ => ?_))))
  refine wpAbs_ite (fun h0 => vwp_modifyMem ?_) (fun h0 => wpAbs_bind (vwp_modifyMem ?_))
  · rw [Volume.rebuilt, if_pos h0]
  have hsb : (v.mapMem (fun m => { m with
      regionCount := (m.sb.dataBlocks + regionBlocks - 1) / regionBlocks })).sb = v.sb := by
    rw [mapMem_toMem]
  have hview : (v.mapMem (fun m => { m with
      regionCount := (m.sb.dataBlocks + regionBlocks - 1) / regionBlocks })).view = v.view := by
    rw [mapMem_view]
  have hend : v.rebuilt = (v.mapMem (fun m => { m with
      regionCount := (m.sb.dataBlocks + regionBlocks - 1) / regionBlocks })).mapMem
        (fun m => { m with regions := some (regionClears v.sb.toLayout v.used), allocHintRegion := 0 }) := by
    rw [Volume.rebuilt, if_neg h0]
  generalize v.mapMem (fun m => { m with
    regionCount := (m.sb.dataBlocks + regionBlocks - 1) / regionBlocks }) = v1 at hsb hview hend
  have hfail : ∀ c : Bool, H → (c = false → v1.view = v.view ∧ v1.sb = v.sb ∧ (H ∨ D)) :=
    fun _ hH _ => ⟨hview, hsb, Or.inl hH⟩
  have hscan := @fwp_scanBitmap_all D H v1 (by rw [hsb]; exact hl)
  have hused : v1.used = v.used := by
    funext i
    unfold Volume.used
    rw [hview, hsb]
  rw [hsb, hused] at hscan
  refine wpAbs_bind (vwp_malloc ?_ (fun hH => wpAbs_bind (wpAbs_failIf (hfail _ hH) (fun h => absurd rfl h))))
  refine wpAbs_bind (wpAbs_failIf (fun h => by simp at h) (fun _ => ?_))
  refine wpAbs_bind (vwp_malloc ?_ (fun hH => wpAbs_bind (wpAbs_failIf (hfail _ hH) (fun h => absurd rfl h))))
  refine wpAbs_bind (wpAbs_failIf (fun h => by simp at h) (fun _ => ?_))
  refine wpAbs_seq hscan (fun r w h => ?_) (fun _ w h => ?_)
  · obtain ⟨rfl, rfl⟩ := h
    exact vwp_modifyMem hend.symm
  · obtain ⟨rfl, _, hD⟩ := h
    exact ⟨hview, hsb, Or.inr hD⟩

section

variable {v : Volume}

@[simp] theorem rebuilt_sb : v.rebuilt.sb = v.sb := by
  unfold Volume.rebuilt
  by_cases h : v.sb.dataBlocks = 0
  · rw [if_pos h, mapMem_toMem]
  · rw [if_neg h, mapMem_toMem, mapMem_toMem]

@[simp] theorem rebuilt_view : v.rebuilt.view = v.view := by
  unfold Volume.rebuilt
  by_cases h : v.sb.dataBlocks = 0
  · rw [if_pos h, mapMem_view]
  · rw [if_neg h, mapMem_view, mapMem_view]

theorem rebuilt_regions {c : Nat → Nat} (h : v.rebuilt.regions = some c) :
    c = regionClears v.sb.toLayout v.used := by
  unfold Volume.rebuilt at h
  by_cases h0 : v.sb.dataBlocks = 0
  · rw [if_pos h0, mapMem_toMem] at h
    simp at h
  · rw [if_neg h0, mapMem_toMem] at h
    exact (Option.some.inj h).symm

theorem used_congr {v' : Volume} (hview : v'.view = v.view) (hlay : v'.sb.toLayout = v.sb.toLayout) :
    v'.used = v.used := by
  funext i
  unfold Volume.used
  rw [hview, hlay]

theorem regionsExact_rebuilt : v.rebuilt.RegionsExact := by
  intro c hc i _
  rw [used_congr rebuilt_view (by rw [rebuilt_sb]), rebuilt_sb, rebuilt_regions hc]

theorem runs_bitmapInitRegions (hl : v.sb.toLayout.WF) (hreg : v.regions = none) :
    Runs bitmapInitRegions v () v.rebuilt :=
  runs_of_fwp (fwp_bitmapInitRegions hl hreg) (fun _ _ h => ⟨rfl, h⟩) (fun _ _ h => h.2.2.elim id id)

theorem runs_journalReplay_empty (h : v.sb.journalHead = v.sb.journalTail) :
    Runs journalReplay v () (v.mapMem (fun m => { m with journalNextSequence := m.sb.journalSequence })) :=
  runs_getSb.bind (runs_getSb.bind (Runs.ite_pos h (runs_modifyMem _)))

theorem runs_btreeLoad (hs : v.sectorOk) {b : Nat} (hb : b ≠ 0) {node : BtreeNode} (hview : v.view b = .node node)
    (hfit : node.entries.length ≤ btreeMax) : Runs (btreeLoad b) v node v := by
  unfold btreeLoad
  refine (runs_failIf hb).bind ((runs_readBlock hs b).orThrow.bind ?_)
  rw [hview]
  exact (runs_failIf (by omega)).bind (runs_pure _ _)

end

end SmkFs
end AmitX
