import AmitX.SmkFs.FormatMount
import AmitX.Lib.Run
/-!
# FreeSpace — the counters of free blocks in every run

A run is a sequence of calls on the bitmap and of transactions, each with the transfers and the `malloc` calls that fail
in it.  A freed range counts its blocks only once the journal has the entry, and its undo sets bits from the start of
the range through `bitmap_set`, which takes blocks off a count that was never raised.
-/
namespace AmitX
namespace SmkFs

open Prog Volume Run

/-! ## Freeing a range -/

/-- The blocks `s`, …, `s + i - 1` of the bitmap of `v` are clear in `v'`, and only the regions have counted them. -/
structure Cleared (v : Volume) (s i : Nat) (v' : Volume) : Prop where
  frame : AllocFrame v v'
  used : ∀ j < v.sb.dataBlocks, v'.used j = fill v.used s i false j
  sb : v'.sb = v.sb
  regions : v.RegionsExact → v'.RegionsExact

theorem Cleared.refl (v : Volume) (s : Nat) : Cleared v s 0 v :=
  ⟨AllocFrame.refl v, fun j _ => by rw [fill_zero], rfl, id⟩

section

variable {v v' : Volume} {s i n : Nat}

theorem usedIn_zero (f : Nat → Bool) (s : Nat) : usedIn f s 0 = 0 := Nat.count_zero _

theorem usedIn_succ (f : Nat → Bool) (s n : Nat) :
    usedIn f s (n + 1) = usedIn f s n + if f (s + n) = true then 1 else 0 :=
  Nat.count_succ (fun j => f (s + j) = true) n

/-- `free_count` of the region of a block that was allocated. -/
def countRegion (idx : Nat) (m : Mem) : Mem :=
  m.mapRegion (idx / regionBlocks) (fun n => if n < bitmapRegionSize m.sb.toLayout (idx / regionBlocks) then n + 1 else n)

theorem countRegion_sb (idx : Nat) (m : Mem) : (countRegion idx m).sb = m.sb := mapRegion_sb _ _ m

theorem allocFrame_countRegion (v : Volume) (idx : Nat) : AllocFrame v (v.mapMem (countRegion idx)) := by
  have := allocFrame_mapRegion v (idx / regionBlocks)
    (fun n => if n < bitmapRegionSize v.sb.toLayout (idx / regionBlocks) then n + 1 else n)
  unfold Volume.mapMem countRegion at *
  exact this

theorem regionsExact_countRegion {idx : Nat} (h : v.RegionsExact) (hi : idx < v.sb.dataBlocks)
    (hu : v.used idx = true) : ((v.setUsed idx false).mapMem (countRegion idx)).RegionsExact := by
  have := regionsExact_bitmapClear h hi
  rw [bitmapClear_of_used hu] at this
  exact this

theorem fill_clear_of_lt {f : Nat → Bool} {i : Nat} : fill f s i false (s + i) = f (s + i) := by
  unfold fill
  rw [if_neg (by omega)]

theorem Cleared.skip (h : Cleared v s i v') (hu : v.used (s + i) = false) : Cleared v s (i + 1) v' := by
  refine ⟨h.frame, fun j hj => ?_, h.sb, h.regions⟩
  rw [h.used j hj, fill_succ]
  by_cases hj' : j = s + i
  · rw [hj', Function.update_self, fill_clear_of_lt, hu]
  · rw [Function.update_of_ne hj']

theorem Cleared.step (h : Cleared v s i v') (hl : v.sb.toLayout.WF) (hi : s + i < v.sb.dataBlocks)
    (hu : v.used (s + i) = true) :
    Cleared v s (i + 1) ((v'.setUsed (s + i) false).mapMem (countRegion (s + i))) := by
  have hi' : s + i < v'.sb.dataBlocks := by rw [h.sb]; exact hi
  have hu' : v'.used (s + i) = true := by rw [h.used _ hi, fill_clear_of_lt, hu]
  have hfr : AllocFrame v' ((v'.setUsed (s + i) false).mapMem (countRegion (s + i))) :=
    (allocFrame_setUsed (h.frame.wf hl) hi' false).trans (allocFrame_countRegion _ _)
  have hsb : ((v'.setUsed (s + i) false).mapMem (countRegion (s + i))).sb = v.sb := by
    rw [mapMem_toMem, countRegion_sb, setUsed_toMem, h.sb]
  refine ⟨h.frame.trans hfr, fun j hj => ?_, hsb, fun hr => regionsExact_countRegion (h.regions hr) hi' hu'⟩
  rw [used_mapMem (by rw [countRegion_sb]), used_setUsed, fill_succ]
  by_cases hj' : j = s + i
  · rw [hj', Function.update_self, Function.update_self]
  · rw [Function.update_of_ne hj', Function.update_of_ne hj', h.used j hj]

end

theorem countRegion_sequence (idx : Nat) (m : Mem) :
    (countRegion idx m).journalNextSequence = m.journalNextSequence := by
  unfold countRegion Mem.mapRegion
  split <;> rfl

/-- **The loop of `bitmap_free_range`** clears the blocks of the range and returns how many of them were used; only a
transfer that fails stops it, with a part of them cleared. -/
theorem fwp_bitmapFreeLoop {D H : Prop} {v : Volume} {s : Nat} (hl : v.sb.toLayout.WF) : ∀ (n i : Nat) {v' : Volume},
    s + i + n ≤ v.sb.dataBlocks → Cleared v s i v' →
    fwp D H (bitmapFreeLoop (v.sb.dataStart + s) i n (usedIn v.used s i))
      (fun freed v'' => freed = usedIn v.used s (i + n) ∧ Cleared v s (i + n) v'' ∧
        v''.journalNextSequence = v'.journalNextSequence)
      (fun e v'' => e = .io ∧ D ∧ AllocFrame v v'' ∧
        ∃ k ≤ i + n, ∀ j < v.sb.dataBlocks, v''.used j = fill v.used s k false j) v'
  | 0, i, v', _, h => wpAbs_pure ⟨rfl, h, rfl⟩
  | n + 1, i, v', hn, h => by
    have hi : s + i < v.sb.dataBlocks := by omega
    have hs : v'.sectorOk := sectorOk_of_wf (by rw [h.sb]; exact hl)
    have hfail : ∀ {w}, AllocFrame v w → (∀ j < v.sb.dataBlocks, w.used j = fill v.used s i false j) →
        D ∨ ¬v'.sectorOk → Err.io = Err.io ∧ D ∧ AllocFrame v w ∧
          ∃ k ≤ i + (n + 1), ∀ j < v.sb.dataBlocks, w.used j = fill v.used s k false j := fun hw hu hf =>
      ⟨rfl, hf.resolve_right (fun hf => hf hs), hw, i, Nat.le_add_right _ _, hu⟩
    have hidx : v.sb.dataStart + s + i - v'.sb.dataStart = s + i := by rw [h.sb]; omega
    have ih := fun {w : Volume} => @fwp_bitmapFreeLoop D H v s hl n (i + 1) w (by omega)
    have hnext : usedIn v.used s (i + 1) = usedIn v.used s i + if v.used (s + i) = true then 1 else 0 := usedIn_succ _ _ _
    rw [show i + (n + 1) = i + 1 + n by omega] at hfail ⊢
    rw [bitmapFreeLoop]
    refine wpAbs_bind (vwp_getSb (wpAbs_ite (fun hlt => ?_) (fun _ => ?_)))
    · rw [h.sb] at hlt
      omega
    rw [hidx]
    refine wpAbs_bind (vwp_readBlock ?_ (hfail h.frame h.used))
    have hbit : (v'.view (v'.sb.bitmapBlock (s + i))).bits ((s + i) % bitsPerBlock) = v.used (s + i) :=
      (h.used _ hi).trans fill_clear_of_lt
    rw [hbit]
    refine wpAbs_ite (fun hu => ?_) (fun hu => ?_)
    · rw [if_pos hu] at hnext
      have hseq : ((v'.setUsed (s + i) false).mapMem (countRegion (s + i))).journalNextSequence =
          v'.journalNextSequence := countRegion_sequence _ _
      refine wpAbs_bind (vwp_modifyMem (wpAbs_bind (vwp_writeBlock ?_
        (hfail (h.frame.trans (allocFrame_countRegion v' (s + i))) (fun j hj => ?_)))))
      · rw [← hnext]
        exact wpAbs_mono (ih (h.step hl hi hu)) (fun _ _ h => ⟨h.1, h.2.1, h.2.2.trans hseq⟩) (fun _ _ h => h)
      · rw [used_mapMem (by rw [mapRegion_sb])]
        exact h.used j hj
    · rw [Bool.not_eq_true] at hu
      have hnext := hnext.trans (by rw [if_neg (by simp [hu]), Nat.add_zero])
      refine wpAbs_bind (vwp_writeBlock ?_ (hfail h.frame h.used))
      have hsame : v'.write (v'.sb.bitmapBlock (s + i)) (v'.view (v'.sb.bitmapBlock (s + i))) = v' := by
        rw [Volume.write, Function.update_eq_self]
      rw [hsame, ← hnext]
      exact ih (h.skip hu)

theorem clears_fill_clear {f : Nat → Bool} {s N : Nat} : ∀ {n : Nat}, s + n ≤ N →
    clears (fill f s n false) N = clears f N + usedIn f s n
  | 0, _ => by rw [fill_zero, usedIn_zero, Nat.add_zero]
  | n + 1, hN => by
    have ih := clears_fill_clear (f := f) (s := s) (N := N) (n := n) (by omega)
    rw [fill_succ, usedIn_succ]
    cases hu : f (s + n) with
    | true =>
      have := clears_clear (f := fill f s n false) (i := s + n) (fill_clear_of_lt.trans hu) N
      rw [if_pos (by omega)] at this
      rw [if_pos rfl]
      omega
    | false =>
      rw [Function.update_eq_self_iff.2 (fill_clear_of_lt.trans hu).symm, if_neg (by simp)]
      exact ih

/-- The journal takes the entry of a free of `n` blocks, or none of them is used and nothing is logged. -/
def FreeSafe (v : Volume) (s n : Nat) : Prop :=
  journalAccepts v.toMem (usedIn v.used s n) = true ∨ usedIn v.used s n = 0

structure KeepsCounts (v v' : Volume) : Prop where
  layout : v'.sb.toLayout = v.sb.toLayout
  ring : v.RingOk → v'.RingOk
  counts : v.Counted → v'.Counted

theorem KeepsCounts.refl (v : Volume) : KeepsCounts v v := ⟨rfl, id, id⟩

section

variable {v v' : Volume}

theorem regionsExact_journal (hl : v.sb.toLayout.WF) (h : JournalStep v v') (hv : v.RegionsExact) : v'.RegionsExact := by
  intro c hcr i hi
  rw [h.regions] at hcr
  rw [h.regionCount] at hi
  rw [hv c hcr i hi, h.layout]
  exact (regionClears_congr (sameUsed_of_view hl h.layout h.view) i).symm

theorem freeExact_journal (hl : v.sb.toLayout.WF) (h : JournalStep v v') (hv : v.FreeExact) : v'.FreeExact := by
  unfold FreeExact at *
  rw [h.layout, clears_of_sameUsed (sameUsed_of_view hl h.layout h.view), ← hv, h.counters]

theorem keepsCounts_journal (hl : v.sb.toLayout.WF) (h : JournalStep v v') : KeepsCounts v v' :=
  ⟨h.layout, fun _ => h.head, fun hc => ⟨freeExact_journal hl h hc.free, regionsExact_journal hl h hc.regions⟩⟩

theorem regionsExact_mapFreeBlocks (f : Nat → Nat) (h : v.RegionsExact) :
    (v.mapMem (Mem.mapFreeBlocks f)).RegionsExact := by
  intro c hc i hi
  rw [mapMem_toMem, mapFreeBlocks_regions] at hc
  rw [mapMem_toMem, mapFreeBlocks_regionCount] at hi
  rw [used_mapFreeBlocks, layout_mapFreeBlocks, h c hc i hi]

end

theorem fwp_bitmapFreeRange {v : Volume} {s n : Nat} (hl : v.sb.toLayout.WF) (hring : v.RingOk)
    (hn : s + n ≤ v.sb.dataBlocks) (hsafe : FreeSafe v s n) :
    fwp False False (bitmapFreeRange (v.sb.dataStart + s) n) (fun _ v' => KeepsCounts v v')
      (fun _ v' => KeepsCounts v v') v := by
  unfold bitmapFreeRange
  refine wpAbs_bind (wpAbs_failIf (fun _ => KeepsCounts.refl v) (fun _ => wpAbs_bind (vwp_malloc ?_ False.elim)))
  refine wpAbs_bind (wpAbs_failIf (fun h => by simp at h) (fun _ => ?_))
  have hloop := @fwp_bitmapFreeLoop False False v s hl n 0 v (by omega) (Cleared.refl v s)
  rw [Nat.zero_add, usedIn_zero] at hloop
  refine wpAbs_seq hloop (fun freed v1 h => ?_) (fun _ _ h => h.2.1.elim)
  obtain ⟨rfl, h, -⟩ := h
  have hclears := clears_fill_clear (f := v.used) hn
  have hc1 : clears v1.used v1.sb.dataBlocks = clears v.used v.sb.dataBlocks + usedIn v.used s n := by
    rw [h.sb, clears_congr h.used, hclears]
  have hmax := clears_le v1.used v1.sb.dataBlocks
  have hlt := dataBlocks_lt v1.sb.toLayout
  refine wpAbs_when (fun hpos => ?_) (fun hz => ?_)
  · have hacc : journalAccepts v1.toMem (usedIn v.used s n) = true := by
      rw [accepts_congr (by rw [h.sb]) (by rw [h.sb]) h.frame.inTransaction]
      exact hsafe.resolve_right (by omega)
    have hl1 : v1.sb.toLayout.WF := h.frame.wf hl
    have hstep := journalSteps_logEntry v1 .free (v.sb.dataStart + s) (usedIn v.used s n) 0 .zero (h.frame.ring hring)
    refine wpAbs_elseDo (wpAbs_mono (fwp_journalWriteEntry False False v1 .free _ _ 0 .zero) (fun _ v2 h2 => ?_)
      (fun _ v2 h2 => ?_))
    · obtain ⟨_, rfl⟩ := h2
      refine vwp_modifyMem ⟨?_, fun _ => ?_, fun hc => ⟨?_, ?_⟩⟩
      · rw [layout_mapFreeBlocks, hstep.layout, h.sb]
      · exact ringOk_mapFreeBlocks _ hstep.head
      · unfold FreeExact
        rw [used_mapFreeBlocks, mapMem_toMem, mapFreeBlocks_freeBlocks, mapFreeBlocks_layout, hstep.layout,
          clears_of_sameUsed (sameUsed_of_view hl1 hstep.layout hstep.view), hc1, logEntry_counters, h.sb, hc.free]
        exact add64_of_lt (by rw [← hc1]; omega)
      · exact regionsExact_mapFreeBlocks _ (regionsExact_journal hl1 hstep (h.regions hc.regions))
    · rcases h2 with ⟨h2, _⟩ | ⟨h2, _⟩ | ⟨h2 | h2, _⟩
      · rw [hacc] at h2
        simp at h2
      · exact h2.elim
      · exact h2.elim
      · exact absurd (sectorOk_of_wf hl1) h2
  · rw [Nat.pos_iff_ne_zero, Decidable.not_not] at hz
    refine ⟨h.frame.layout, h.frame.ring, fun hc => ⟨?_, h.regions hc.regions⟩⟩
    unfold FreeExact
    rw [hc1, hz, h.sb, Nat.add_zero]
    exact hc.free

/-! ## Runs -/

/-- A call on the bitmap, or of the transactions between such calls. -/
inductive SpaceCall
  | set (block : Nat)
  | clear (block : Nat)
  | alloc
  | allocRange (count : Nat)
  | freeRange (start count : Nat)
  | startTransaction | commit | abort | checkpoint

/-- A call, with the outcomes of the transfers and of the `malloc` calls that it meets; past their ends they succeed. -/
structure SpaceStep where
  call : SpaceCall
  outcomes : List Outcome
  heap : List Bool

def SpaceCall.exec : SpaceCall → FsM Unit
  | .set block => bitmapSet block
  | .clear block => bitmapClear block
  | .alloc => do let _ ← bitmapAlloc
  | .allocRange count => do let _ ← bitmapAllocRange count
  | .freeRange start count => bitmapFreeRange start count
  | .startTransaction => journalStartTransaction
  | .commit => journalCommit
  | .abort => journalAbort
  | .checkpoint => journalCheckpoint

def Mount.meet (outcomes : List Outcome) (heap : List Bool) (s : Mount) : Mount :=
  { s with dev := ⟨{ s.dev.1 with outcomes := outcomes }, ⟨s.dev.2.unique, s.dev.2.clean⟩⟩, heap := heap }

def SpaceStep.run (s : Mount) (c : SpaceStep) : Except Err Unit × Mount := c.call.exec (s.meet c.outcomes c.heap)

def SpaceCall.InDataArea (l : Layout) : SpaceCall → Prop
  | .set block | .clear block => l.dataStart ≤ block ∧ block < l.totalBlocks
  | .freeRange start count => l.dataStart ≤ start ∧ start + count ≤ l.totalBlocks
  | _ => True

/-- No transfer and no `malloc` fails in the call. -/
def SpaceStep.Calm (c : SpaceStep) : Prop := (∀ o ∈ c.outcomes, o = .done) ∧ ∀ r ∈ c.heap, r = true

/-- Nothing fails in an allocation or a free but the journal, which takes the entry or refuses one whose undo counts
right. -/
def SpaceStep.Balanced (v : Volume) (c : SpaceStep) : Prop :=
  match c.call with
  | .alloc => c.Calm ∧ AllocSafe v 1
  | .allocRange count => c.Calm ∧ AllocSafe v count
  | .freeRange start count => c.Calm ∧ FreeSafe v (start - v.sb.dataStart) count
  | _ => True

def CountedThroughout (s : Mount) (calls : List SpaceStep) : Prop :=
  ∀ before after, calls = before ++ after → (run SpaceStep.run s before).2.vol.Counted

section

variable {s : Mount} {c : SpaceStep}

theorem calm_meet (h : c.Calm) (s : Mount) : (faultView False False).inv (s.meet c.outcomes c.heap) := by
  refine ⟨?_, fun hf => ?_⟩
  · rintro ⟨o, ho, hne⟩
    exact hne (h.1 o ho)
  · exact absurd (h.2 false hf) (by simp)

theorem keepsCounts_calm {α : Type} {m : FsM α} (h : c.Calm)
    (hm : fwp False False m (fun _ v' => KeepsCounts s.vol v') (fun _ v' => KeepsCounts s.vol v') s.vol) :
    KeepsCounts s.vol (m (s.meet c.outcomes c.heap)).2.vol :=
  (fwp_apply (s := s.meet c.outcomes c.heap) (P := fun _ v' => KeepsCounts s.vol v') hm (calm_meet h s)).2

theorem keepsCounts_any {α : Type} {m : FsM α}
    (hm : vwp True m (fun _ v' => KeepsCounts s.vol v') (fun _ v' => KeepsCounts s.vol v') s.vol) :
    KeepsCounts s.vol (m (s.meet c.outcomes c.heap)).2.vol :=
  (fwp_apply (s := s.meet c.outcomes c.heap) (P := fun _ v' => KeepsCounts s.vol v') hm
    ⟨fun _ => trivial, fun _ => trivial⟩).2

end

theorem AllocPost.keepsCounts {v v' : Volume} {n r : Nat} (h : AllocPost False v n r v') (hs : AllocSafe v n) :
    KeepsCounts v v' :=
  ⟨h.frame.layout, h.frame.ring, fun hc => (h.counts.resolve_left id) hc hs⟩

theorem fwp_keepsCounts_alloc {v : Volume} {n : Nat} {m : FsM Nat} (hs : AllocSafe v n)
    (hm : vwp False m (fun b v' => AllocPost False v n b v') (fun _ _ => False) v) :
    fwp False False (do let _ ← m) (fun _ v' => KeepsCounts v v') (fun _ v' => KeepsCounts v v') v :=
  wpAbs_seq hm (fun _ _ h => wpAbs_pure (h.keepsCounts hs)) (fun _ _ h => h.elim)

theorem keepsCounts_bitmapSet {v : Volume} {idx : Nat} (hl : v.sb.toLayout.WF) (hi : idx < v.sb.dataBlocks) :
    KeepsCounts v (v.bitmapSet idx) :=
  ⟨layout_bitmapSet, (allocFrame_bitmapSet hl hi).ring,
    fun h => ⟨freeExact_bitmapSet h.free hi, regionsExact_bitmapSet h.regions hi⟩⟩

theorem keepsCounts_bitmapClear {v : Volume} {idx : Nat} (hl : v.sb.toLayout.WF) (hi : idx < v.sb.dataBlocks) :
    KeepsCounts v (v.bitmapClear idx) :=
  ⟨layout_bitmapClear, (allocFrame_bitmapClear hl hi).ring,
    fun h => ⟨freeExact_bitmapClear h.free hi, regionsExact_bitmapClear h.regions hi⟩⟩

theorem vwp_keepsCounts_journal {v : Volume} {m : FsM Unit} (hl : v.sb.toLayout.WF) (hr : v.RingOk)
    (hm : AbsKeeps (faultView True True) JournalSteps m) :
    vwp True m (fun _ v' => KeepsCounts v v') (fun _ v' => KeepsCounts v v') v :=
  wpAbs_mono (hm v) (fun _ _ h => keepsCounts_journal hl (h hr)) (fun _ _ h => keepsCounts_journal hl (h hr))

theorem keepsCounts_step {s : Mount} {c : SpaceStep} (hl : s.vol.sb.toLayout.WF) (hr : s.vol.RingOk)
    (hb : c.Balanced s.vol) (hd : c.call.InDataArea s.vol.sb.toLayout) :
    KeepsCounts s.vol (SpaceStep.run s c).2.vol := by
  obtain ⟨call, outcomes, heap⟩ := c
  have hdata := hl.dataBlocks_eq
  cases call with
  | set block =>
    obtain ⟨h1, h2⟩ := hd
    refine keepsCounts_any (m := bitmapSet block) (wpAbs_mono (vwp_bitmapSet True s.vol block) (fun _ v' h => ?_)
      (fun _ v' h => h.1 ▸ KeepsCounts.refl _))
    rw [h.2]
    exact keepsCounts_bitmapSet hl (by omega)
  | clear block =>
    obtain ⟨h1, h2⟩ := hd
    refine keepsCounts_any (m := bitmapClear block) (wpAbs_mono (vwp_bitmapClear True s.vol block) (fun _ v' h => ?_)
      (fun _ v' h => h.1 ▸ KeepsCounts.refl _))
    rw [h.2]
    exact keepsCounts_bitmapClear hl (by omega)
  | alloc => exact keepsCounts_calm hb.1 (fwp_keepsCounts_alloc hb.2 (vwp_bitmapAlloc False hl hr))
  | allocRange count => exact keepsCounts_calm hb.1 (fwp_keepsCounts_alloc hb.2 (vwp_bitmapAllocRange False hl hr))
  | freeRange start count =>
    obtain ⟨h1, h2⟩ := hd
    have h := fwp_bitmapFreeRange (s := start - s.vol.sb.dataStart) (n := count) hl hr (by omega) hb.2
    rw [show s.vol.sb.dataStart + (start - s.vol.sb.dataStart) = start by omega] at h
    exact keepsCounts_calm hb.1 h
  | startTransaction => exact keepsCounts_any (vwp_keepsCounts_journal hl hr journalStartTransaction_steps)
  | commit => exact keepsCounts_any (vwp_keepsCounts_journal hl hr journalCommit_steps)
  | abort => exact keepsCounts_any (vwp_keepsCounts_journal hl hr journalAbort_steps)
  | checkpoint => exact keepsCounts_any (vwp_keepsCounts_journal hl hr journalCheckpoint_steps)

structure SpaceInv (s : Mount) : Prop where
  layout : s.vol.sb.toLayout.WF
  ring : s.vol.RingOk
  counted : s.vol.Counted

def SpaceStep.Allowed (s : Mount) (c : SpaceStep) : Prop :=
  c.call.InDataArea s.sb.toLayout ∧ c.Balanced s.vol

theorem spaceInv_run {s : Mount} {calls : List SpaceStep} (h : SpaceInv s)
    (ha : Run.Allowed SpaceStep.run (fun _ => SpaceStep.Allowed) s calls) : SpaceInv (run SpaceStep.run s calls).2 :=
  run_keeps (I := fun _ s => SpaceInv s) (fun _ s c hi hc => by
    have hk := keepsCounts_step hi.layout hi.ring hc.2 hc.1
    exact ⟨by rw [hk.layout]; exact hi.layout, hk.ring hi.ring, hk.counts hi.counted⟩) h calls ha

theorem mkfs_then_counted {total : Nat} (h16 : 16 ≤ total) (hmax : 8 * total < 2 ^ 32) (s : Mount) (hs : s.Reliable)
    (hm : s.mounted = false) (hr : s.regions = none) :
    ∃ s1 s2, smkfsMkfs total 512 s = (.ok (), s1) ∧ smkfsMount s1 = (.ok (), s2) ∧ SpaceInv s2 := by
  obtain ⟨hl, hcap, hdata, hring⟩ := mkfsLayout_facts h16 hmax
  obtain ⟨v, h, s1, h1, hmem, hs1, hdisk, -⟩ := leavesDisk_smkfsMkfs h16 hmax hs
  obtain ⟨s2, h2, hs2, hw⟩ := smkfsMount_formatted hl hcap hdata h hs1 (by rw [hmem]; exact hm) (by rw [hmem]; exact hr)
    hdisk
  have hlay : s2.vol.sb.toLayout = mkfsLayout total 512 := by rw [hw.superblock, openVolume_layout, h.layout]
  refine ⟨s1, s2, h1, h2, by rw [hlay]; exact hl, ?_, (hw.fresh hl hcap hdata h hs2).free, hw.regions⟩
  unfold RingOk
  rw [hlay, hw.superblock]
  exact lt_of_eq_of_lt h.head hring

/-- **Free-space accounting after mkfs and mount.** In every run whose allocations and frees are logged, or refused
where the undo balances, both counters are exact in every state. -/
theorem free_space_exact {total : Nat} (h16 : 16 ≤ total) (hmax : 8 * total < 2 ^ 32) (s : Mount) (hs : s.Reliable)
    (hm : s.mounted = false) (hr : s.regions = none) :
    ∃ s1 s2, smkfsMkfs total 512 s = (.ok (), s1) ∧ smkfsMount s1 = (.ok (), s2) ∧ ∀ calls,
      Run.Allowed SpaceStep.run (fun _ => SpaceStep.Allowed) s2 calls → CountedThroughout s2 calls := by
  obtain ⟨s1, s2, h1, h2, hinv⟩ := mkfs_then_counted h16 hmax s hs hm hr
  refine ⟨s1, s2, h1, h2, fun calls ha before after he => ?_⟩
  rw [he] at ha
  exact (spaceInv_run hinv ha.left).counted

def smallMount : Mount := (smkfsMount (smkfsMkfs 16 512 (blankMount zeroMem.sb)).2).2

def calmly (call : SpaceCall) : SpaceStep := ⟨call, [], []⟩

/-- A transaction that allocates a block and frees it again. -/
theorem free_space_exact_small : ∃ s1 s2, smkfsMkfs 16 512 (blankMount zeroMem.sb) = (.ok (), s1) ∧
    smkfsMount s1 = (.ok (), s2) ∧
    CountedThroughout s2 [calmly .startTransaction, calmly .alloc, calmly (.freeRange 13 1), calmly .commit] := by
  have hs : (blankMount zeroMem.sb).Reliable := by
    refine ⟨?_, by simp [Mount.HeapFaulty, blankMount]⟩
    rintro ⟨o, ho, -⟩
    simp [blankMount, cacheInit, blankDrive] at ho
  obtain ⟨s1, s2, h1, h2, h⟩ := @free_space_exact 16 (by decide) (by decide) (blankMount zeroMem.sb) hs rfl rfl
  refine ⟨s1, s2, h1, h2, h _ ?_⟩
  have hs2 : s2 = smallMount := by rw [smallMount, h1, h2]
  rw [hs2]
  have hcalm : ∀ call, (calmly call).Calm := fun call => ⟨by simp [calmly], by simp [calmly]⟩
  refine allowed_cons.2 ⟨⟨trivial, trivial⟩, allowed_cons.2 ⟨⟨trivial, hcalm _, Or.inl (by decide +kernel)⟩, ?_⟩⟩
  refine allowed_cons.2 ⟨⟨(by decide +kernel : _ ∧ _), hcalm _, Or.inl (by decide +kernel)⟩, ?_⟩
  exact allowed_cons.2 ⟨⟨trivial, trivial⟩, allowed_nil _⟩

/-- **A refused free.** Outside a transaction the journal refuses to log the free of a block that was just marked; the
undo marks it again and takes it off `free_blocks` a second time. -/
theorem not_free_space_exact : ¬∀ total, 16 ≤ total → 8 * total < 2 ^ 32 → ∀ s : Mount, s.Reliable → s.mounted = false →
    s.regions = none → ∀ s1 s2, smkfsMkfs total 512 s = (.ok (), s1) → smkfsMount s1 = (.ok (), s2) → ∀ calls,
      Run.Allowed SpaceStep.run (fun _ s c => SpaceCall.InDataArea s.sb.toLayout c.call) s2 calls →
        CountedThroughout s2 calls := by
  intro hall
  have hs : (blankMount zeroMem.sb).Reliable := by
    refine ⟨?_, by simp [Mount.HeapFaulty, blankMount]⟩
    rintro ⟨o, ho, -⟩
    simp [blankMount, cacheInit, blankDrive] at ho
  obtain ⟨s1, s2, h1, h2, -⟩ := mkfs_then_counted (by decide : 16 ≤ 16) (by decide) (blankMount zeroMem.sb) hs rfl rfl
  have h := hall 16 (by decide) (by decide) (blankMount zeroMem.sb) hs rfl rfl s1 s2 h1 h2
    [calmly (.set 13), calmly (.freeRange 13 1)]
  have hs2 : s2 = smallMount := by rw [smallMount, h1, h2]
  rw [hs2] at h
  have hcounted := (h (allowed_cons.2 ⟨(by decide +kernel : _ ∧ _), allowed_cons.2 ⟨(by decide +kernel : _ ∧ _),
    allowed_nil _⟩⟩) _ [] (List.append_nil _).symm).free
  exact absurd hcounted (by decide +kernel :
    ¬((run SpaceStep.run smallMount [calmly (.set 13), calmly (.freeRange 13 1)]).2.vol.sb.freeBlocks =
      clears (run SpaceStep.run smallMount [calmly (.set 13), calmly (.freeRange 13 1)]).2.vol.used
        (run SpaceStep.run smallMount [calmly (.set 13), calmly (.freeRange 13 1)]).2.vol.sb.dataBlocks))

end SmkFs
end AmitX
