import AmitX.Lib.Prog
import AmitX.SmkFs.Types
import Mathlib.Data.List.FinRange
/-!
# Drive — the disk and the 16-slot write-back cache over it (`block.c`, `bcache.c`)

The drive is addressed by block (`lba = block * sectors` is exact below 2^29 blocks) and remembers the writes made to
it, so that the disk at a crash is the disk of an older history.  Every transfer takes its outcome from a list: a
failed write leaves the old block or the new one.  `Drive.content` is what a block reads as through the cache;
transfers between cache and disk never change it.
-/
namespace AmitX
namespace SmkFs

open Prog

/-- How a transfer ends: it is done, it fails, or it fails after the block was written. -/
inductive Outcome
  | done | failed | late
  deriving DecidableEq

structure CacheSlot where
  block : Nat
  data : BlockData
  dirty : Bool
  valid : Bool

structure Drive where
  base : Nat → BlockData
  /-- The writes made to the disk, the latest first. -/
  history : List (Nat × BlockData)
  slots : Fin cacheSlots → CacheSlot
  outcomes : List Outcome

namespace Drive

def diskOf (base : Nat → BlockData) (history : List (Nat × BlockData)) (b : Nat) : BlockData :=
  match history.find? (fun w => w.1 == b) with
  | some w => w.2
  | none => base b

def disk (d : Drive) (b : Nat) : BlockData := diskOf d.base d.history b

def setSlot (i : Fin cacheSlots) (c : CacheSlot) (d : Drive) : Drive := { d with slots := Function.update d.slots i c }

def push (b : Nat) (x : BlockData) (d : Drive) : Drive := { d with history := (b, x) :: d.history }

/-- The first slot that satisfies `p`. -/
def findSlot (d : Drive) (p : CacheSlot → Bool) : Option (Fin cacheSlots) :=
  (List.finRange cacheSlots).find? (fun i => p (d.slots i))

def content (d : Drive) (b : Nat) : BlockData :=
  match d.findSlot (fun c => c.valid && c.block == b) with
  | some i => (d.slots i).data
  | none => d.disk b

/-- The cache agrees with itself and, where it is clean, with the disk. -/
structure WF (d : Drive) : Prop where
  unique : ∀ i j, (d.slots i).valid = true → (d.slots j).valid = true → (d.slots i).block = (d.slots j).block → i = j
  clean : ∀ i, (d.slots i).valid = true → (d.slots i).dirty = false → (d.slots i).data = d.disk (d.slots i).block

def Flushed (d : Drive) : Prop := ∀ i, (d.slots i).valid = true → (d.slots i).dirty = false

end Drive

open Drive

abbrev DriveM := Prog Drive Err

def takeOutcome : DriveM Outcome := fun d =>
  match d.outcomes with
  | [] => (.ok .done, d)
  | o :: os => (.ok o, { d with outcomes := os })

def diskReadBlock (address : Nat → Nat) (sectorSize block : Nat) : DriveM BlockData := do
  failIf (blockSize % sectorSize ≠ 0) .io
  let o ← takeOutcome
  failIf (o ≠ .done) .io
  gets (fun d => d.disk (address block))

def diskWriteBlock (address : Nat → Nat) (sectorSize block : Nat) (x : BlockData) : DriveM Unit := do
  failIf (blockSize % sectorSize ≠ 0) .io
  let o ← takeOutcome
  failIf (o = .failed) .io
  modify (push (address block) x)
  failIf (o = .late) .io

def invalidateSlot (i : Fin cacheSlots) (d : Drive) : Drive := d.setSlot i { d.slots i with valid := false }

/-- Read `block` into slot `i`; a failed read leaves the slot invalid. -/
def fillSlot (address : Nat → Nat) (sectorSize block : Nat) (i : Fin cacheSlots) : DriveM (Fin cacheSlots) := do
  let x ← (diskReadBlock address sectorSize block).catchWith (fun _ => do modify (invalidateSlot i); throw .io)
  modify (setSlot i ⟨block, x, false, true⟩)
  pure i

def markClean (i : Fin cacheSlots) (d : Drive) : Drive := d.setSlot i { d.slots i with dirty := false }

/-- Write slot `i` back to the disk and mark it clean. -/
def writeBackSlot (address : Nat → Nat) (sectorSize : Nat) (i : Fin cacheSlots) : DriveM Unit := do
  let c ← gets (fun d => d.slots i)
  (diskWriteBlock address sectorSize c.block c.data).orThrow .io
  modify (markClean i)

/-- The slot to reuse when `block` is not cached: an invalid one, else a clean one, else slot 0 after a write-back. -/
def evictSlot (address : Nat → Nat) (sectorSize : Nat) : DriveM (Fin cacheSlots) := do
  let free ← gets (fun d => (d.findSlot (fun c => !c.valid)).or (d.findSlot (fun c => !c.dirty)))
  match free with
  | some i => pure i
  | none => do
    writeBackSlot address sectorSize 0
    pure 0

def blockCacheRead (address : Nat → Nat) (sectorSize block : Nat) : DriveM (Fin cacheSlots) := do
  let hit ← gets (fun d => d.findSlot (fun c => c.valid && c.block == block))
  match hit with
  | some i => pure i
  | none => do
    let i ← evictSlot address sectorSize
    fillSlot address sectorSize block i

def blockCacheWrite (i : Fin cacheSlots) : DriveM Unit := do
  let c ← gets (fun d => d.slots i)
  failIf (c.valid = false) .inval
  modify (setSlot i { c with dirty := true })

def flushSlots (address : Nat → Nat) (sectorSize : Nat) : List (Fin cacheSlots) → DriveM Bool
  | [] => pure true
  | i :: is => do
    let c ← gets (fun d => d.slots i)
    if c.valid && c.dirty then do
      let r ← (writeBackSlot address sectorSize i).attempt
      let ok ← flushSlots address sectorSize is
      pure (r.isOk && ok)
    else flushSlots address sectorSize is

def cacheFlush (address : Nat → Nat) (sectorSize : Nat) : DriveM Unit := do
  let ok ← flushSlots address sectorSize (List.finRange cacheSlots)
  failIf (ok = false) .io

def cacheReadBlock (address : Nat → Nat) (sectorSize block : Nat) : DriveM BlockData := do
  let i ← blockCacheRead address sectorSize block
  gets (fun d => (d.slots i).data)

def cacheWriteBlock (address : Nat → Nat) (sectorSize block : Nat) (x : BlockData) : DriveM Unit := do
  let i ← blockCacheRead address sectorSize block
  modify (fun d => d.setSlot i { d.slots i with data := x })
  blockCacheWrite i

/-- `block_cache_init`: every slot invalid and clean. -/
def cacheInit (d : Drive) : Drive :=
  { d with slots := fun i => { d.slots i with block := 0, dirty := false, valid := false } }

/-! ## The content of a block -/

namespace Drive

theorem findSlot_some {d : Drive} {p : CacheSlot → Bool} {i : Fin cacheSlots} (h : d.findSlot p = some i) :
    p (d.slots i) = true :=
  List.find?_some (p := fun i => p (d.slots i)) h

theorem findSlot_none {d : Drive} {p : CacheSlot → Bool} (h : d.findSlot p = none) (i : Fin cacheSlots) :
    p (d.slots i) = false := by
  simpa using List.find?_eq_none.1 h i (List.mem_finRange i)

@[simp] theorem diskOf_cons (base : Nat → BlockData) (w : Nat × BlockData) (hist : List (Nat × BlockData)) :
    diskOf base (w :: hist) = Function.update (diskOf base hist) w.1 w.2 := by
  funext b
  unfold diskOf
  rw [List.find?_cons]
  by_cases h : w.1 = b
  · subst h
    simp
  · rw [show (w.1 == b) = false from by simpa using h, Function.update_of_ne (Ne.symm h)]

@[simp] theorem disk_push (b : Nat) (x : BlockData) (d : Drive) :
    (d.push b x).disk = Function.update d.disk b x := by
  funext c
  unfold disk push
  rw [diskOf_cons]

@[simp] theorem slots_push (b : Nat) (x : BlockData) (d : Drive) : (d.push b x).slots = d.slots := rfl
@[simp] theorem disk_setSlot (i : Fin cacheSlots) (c : CacheSlot) (d : Drive) : (d.setSlot i c).disk = d.disk := rfl
@[simp] theorem slots_setSlot (i : Fin cacheSlots) (c : CacheSlot) (d : Drive) :
    (d.setSlot i c).slots = Function.update d.slots i c := rfl
@[simp] theorem history_setSlot (i : Fin cacheSlots) (c : CacheSlot) (d : Drive) :
    (d.setSlot i c).history = d.history := rfl

def Cached (d : Drive) (b : Nat) : Prop := ∃ i, (d.slots i).valid = true ∧ (d.slots i).block = b

theorem content_of_slot {d : Drive} (hd : d.WF) {i : Fin cacheSlots} (hv : (d.slots i).valid = true) :
    d.content (d.slots i).block = (d.slots i).data := by
  unfold content
  split
  · rename_i j hj
    have := findSlot_some hj
    simp only [Bool.and_eq_true, beq_iff_eq] at this
    rw [hd.unique j i this.1 hv this.2]
  · rename_i hn
    have := findSlot_none hn i
    simp [hv] at this

theorem content_of_uncached {d : Drive} {b : Nat} (h : ¬d.Cached b) : d.content b = d.disk b := by
  unfold content
  split
  · rename_i j hj
    have := findSlot_some hj
    simp only [Bool.and_eq_true, beq_iff_eq] at this
    exact absurd ⟨j, this.1, this.2⟩ h
  · rfl

theorem content_of_flushed {d : Drive} (hd : d.WF) (hf : d.Flushed) : d.content = d.disk := by
  funext b
  by_cases h : d.Cached b
  · obtain ⟨i, hv, hb⟩ := h
    subst hb
    rw [content_of_slot hd hv, hd.clean i hv (hf i hv)]
  · exact content_of_uncached h

theorem content_setSlot {d : Drive} {i : Fin cacheSlots} {c : CacheSlot} (hd : d.WF) (hd' : (d.setSlot i c).WF)
    (b : Nat) (hb : ((d.slots i).valid = true → (d.slots i).block ≠ b) ∨ d.disk b = d.content b) :
    (d.setSlot i c).content b = if c.valid = true ∧ c.block = b then c.data else d.content b := by
  by_cases hc : c.valid = true ∧ c.block = b
  · rw [if_pos hc]
    have := content_of_slot hd' (i := i) (by simpa using hc.1)
    simpa [hc.2] using this
  · rw [if_neg hc]
    by_cases h : (d.setSlot i c).Cached b
    · obtain ⟨j, hv, hj⟩ := h
      have hji : j ≠ i := by
        rintro rfl
        simp only [slots_setSlot, Function.update_self] at hv hj
        exact hc ⟨hv, hj⟩
      have hs : (d.setSlot i c).slots j = d.slots j := by simp [Function.update_of_ne hji]
      rw [← hj, content_of_slot hd' hv, hs, content_of_slot hd (hs ▸ hv)]
    · rw [content_of_uncached h, disk_setSlot]
      rcases hb with hb | hb
      · refine (content_of_uncached (fun ⟨j, hv, hj⟩ => h ⟨j, ?_⟩)).symm
        have hji : j ≠ i := by
          rintro rfl
          exact hb hv hj
        simpa [Function.update_of_ne hji] using ⟨hv, hj⟩
      · exact hb

end Drive

/-! ## Transfers do not change what a block reads as -/

/-- **A transfer moves blocks between cache and disk.**  It keeps the cache coherent and every content, and what it
writes to the disk is the content of the block. -/
structure Settles (d d' : Drive) : Prop where
  wf : d'.WF
  content : d'.content = d.content
  base : d'.base = d.base
  history : ∃ ws, d'.history = ws ++ d.history ∧ ∀ w ∈ ws, w.2 = d.content w.1
  outcomes : d'.outcomes <:+ d.outcomes

theorem Settles.refl {d : Drive} (hd : d.WF) : Settles d d :=
  ⟨hd, rfl, rfl, ⟨[], rfl, by simp⟩, List.suffix_refl _⟩

theorem Settles.trans {d d' d'' : Drive} (h : Settles d d') (h' : Settles d' d'') : Settles d d'' := by
  obtain ⟨ws, hws, hc⟩ := h.history
  obtain ⟨ws', hws', hc'⟩ := h'.history
  refine ⟨h'.wf, h'.content.trans h.content, h'.base.trans h.base, ⟨ws' ++ ws, ?_, ?_⟩, h'.outcomes.trans h.outcomes⟩
  · rw [hws', hws, List.append_assoc]
  · intro w hw
    rcases List.mem_append.1 hw with hw | hw
    · rw [hc' w hw, h.content]
    · exact hc w hw

/-- A transfer can fail: the sector size does not divide the block size, or an outcome to come is a failure. -/
def Drive.Faulty (sectorSize : Nat) (d : Drive) : Prop :=
  blockSize % sectorSize ≠ 0 ∨ ∃ o ∈ d.outcomes, o ≠ Outcome.done

theorem Settles.faulty {d d' : Drive} {ss : Nat} (h : Settles d d') (hf : d'.Faulty ss) : d.Faulty ss := by
  rcases hf with hf | ⟨o, ho, hne⟩
  · exact Or.inl hf
  · exact Or.inr ⟨o, h.outcomes.subset ho, hne⟩

section Steps

variable {d : Drive}

theorem settles_setSlot (hd : d.WF) {i : Fin cacheSlots} {c : CacheSlot}
    (hold : (d.slots i).valid = true → (d.slots i).data = d.disk (d.slots i).block)
    (hnew : c.valid = true → c.data = d.disk c.block ∧ c.dirty = false ∧
      ∀ j, j ≠ i → (d.slots j).valid = true → (d.slots j).block ≠ c.block) : Settles d (d.setSlot i c) := by
  have hwf : (d.setSlot i c).WF := by
    refine ⟨fun j k hj hk hjk => ?_, fun j hj hdirty => ?_⟩
    · by_cases hji : j = i <;> by_cases hki : k = i
      · rw [hji, hki]
      · subst hji
        simp only [slots_setSlot, Function.update_self, Function.update_of_ne hki] at hj hk hjk
        exact absurd hjk.symm ((hnew hj).2.2 k hki hk)
      · subst hki
        simp only [slots_setSlot, Function.update_self, Function.update_of_ne hji] at hj hk hjk
        exact absurd hjk ((hnew hk).2.2 j hji hj)
      · simp only [slots_setSlot, Function.update_of_ne hji, Function.update_of_ne hki] at hj hk hjk
        exact hd.unique j k hj hk hjk
    · by_cases hji : j = i
      · subst hji
        simp only [slots_setSlot, Function.update_self] at hj ⊢
        exact (hnew hj).1
      · simp only [slots_setSlot, Function.update_of_ne hji] at hj hdirty ⊢
        exact hd.clean j hj hdirty
  have hdisk : ∀ b, ((d.slots i).valid = true → (d.slots i).block ≠ b) ∨ d.disk b = d.content b := by
    intro b
    by_cases hb : (d.slots i).valid = true ∧ (d.slots i).block = b
    · obtain ⟨hv, rfl⟩ := hb
      exact Or.inr (by rw [content_of_slot hd hv, hold hv])
    · exact Or.inl (fun hv hb' => hb ⟨hv, hb'⟩)
  refine ⟨hwf, ?_, rfl, ⟨[], rfl, by simp⟩, List.suffix_refl _⟩
  funext b
  rw [content_setSlot hd hwf b (hdisk b)]
  split
  · rename_i hc
    obtain ⟨hv, rfl⟩ := hc
    rw [(hnew hv).1]
    rcases hdisk c.block with hi | he
    · refine (content_of_uncached (fun ⟨j, hj, hjb⟩ => ?_)).symm
      by_cases hji : j = i
      · subst hji
        exact hi hj hjb
      · exact (hnew hv).2.2 j hji hj hjb
    · exact he
  · rfl

theorem settles_push (hd : d.WF) {i : Fin cacheSlots} (hv : (d.slots i).valid = true) :
    Settles d (d.push (d.slots i).block (d.slots i).data) := by
  have hwf : (d.push (d.slots i).block (d.slots i).data).WF := by
    refine ⟨hd.unique, fun j hj hdirty => ?_⟩
    rw [disk_push]
    simp only [slots_push] at hj hdirty ⊢
    by_cases hji : (d.slots j).block = (d.slots i).block
    · rw [hd.unique j i hj hv hji, Function.update_self]
    · rw [Function.update_of_ne hji, hd.clean j hj hdirty]
  refine ⟨hwf, ?_, rfl, ⟨[((d.slots i).block, (d.slots i).data)], rfl, ?_⟩, List.suffix_refl _⟩
  · funext b
    by_cases h : d.Cached b
    · obtain ⟨j, hj, rfl⟩ := h
      have := content_of_slot hwf (i := j) hj
      simp only [slots_push] at this
      rw [this, content_of_slot hd hj]
    · have h' : ¬(d.push (d.slots i).block (d.slots i).data).Cached b := h
      rw [content_of_uncached h, content_of_uncached h', disk_push, Function.update_of_ne]
      rintro rfl
      exact h ⟨i, hv, rfl⟩
  · intro w hw
    simp only [List.mem_singleton] at hw
    subst hw
    exact (content_of_slot hd hv).symm

theorem settles_markClean (hd : d.WF) {i : Fin cacheSlots} (hv : (d.slots i).valid = true)
    (hdisk : d.disk (d.slots i).block = (d.slots i).data) : Settles d (markClean i d) :=
  settles_setSlot hd (fun _ => hdisk.symm)
    (fun _ => ⟨hdisk.symm, rfl, fun j hji hj hb => hji (hd.unique j i hj hv hb)⟩)

end Steps

theorem wp_takeOutcome {d : Drive} (hd : d.WF) (ss : Nat) : wp takeOutcome
    (fun o d' => Settles d d' ∧ d'.slots = d.slots ∧ d'.history = d.history ∧ (o ≠ .done → d.Faulty ss))
    (fun _ _ => False) d := by
  unfold wp takeOutcome
  cases h : d.outcomes with
  | nil => exact ⟨Settles.refl hd, rfl, rfl, fun hne => absurd rfl hne⟩
  | cons o os =>
    exact ⟨⟨⟨hd.unique, hd.clean⟩, rfl, rfl, ⟨[], rfl, by simp⟩, by rw [h]; exact List.suffix_cons o os⟩, rfl, rfl,
      fun hne => Or.inr ⟨o, by simp [h], hne⟩⟩

theorem wp_diskReadBlock {d : Drive} (hd : d.WF) (ss b : Nat) : wp (diskReadBlock id ss b)
    (fun x d' => x = d.disk b ∧ Settles d d' ∧ d'.slots = d.slots ∧ d'.history = d.history)
    (fun e d' => (e = .io ∧ d.Faulty ss) ∧ Settles d d' ∧ d'.slots = d.slots ∧ d'.history = d.history) d := by
  unfold diskReadBlock
  simp only [wp_bind, wp_failIf, id_eq]
  refine ⟨fun h => ⟨⟨trivial, Or.inl h⟩, Settles.refl hd, trivial, trivial⟩, fun _ => ?_⟩
  refine wp_mono (wp_takeOutcome hd ss) (fun o d' h => ?_) (fun _ _ h => h.elim)
  obtain ⟨hs, hsl, hh, hf⟩ := h
  refine ⟨fun hne => ⟨⟨trivial, hf hne⟩, hs, hsl, hh⟩, fun _ => ?_⟩
  rw [wp_gets]
  refine ⟨?_, hs, hsl, hh⟩
  unfold disk
  rw [hh, hs.base]

theorem wp_diskWriteBlock {d : Drive} (hd : d.WF) (ss : Nat) {i : Fin cacheSlots} (hv : (d.slots i).valid = true) :
    wp (diskWriteBlock id ss (d.slots i).block (d.slots i).data)
      (fun _ d' => Settles d d' ∧ d'.slots = d.slots ∧ d'.disk (d.slots i).block = (d.slots i).data)
      (fun e d' => (e = .io ∧ d.Faulty ss) ∧ Settles d d' ∧ d'.slots = d.slots) d := by
  unfold diskWriteBlock
  simp only [wp_bind, wp_failIf, id_eq]
  refine ⟨fun h => ⟨⟨trivial, Or.inl h⟩, Settles.refl hd, trivial⟩, fun _ => ?_⟩
  refine wp_mono (wp_takeOutcome hd ss) (fun o d' h => ?_) (fun _ _ h => h.elim)
  obtain ⟨hs, hsl, _, hf⟩ := h
  refine ⟨fun he => ⟨⟨trivial, hf (by simp [he])⟩, hs, hsl⟩, fun _ => ?_⟩
  have hp : Settles d' (d'.push (d.slots i).block (d.slots i).data) := by
    rw [← hsl]
    exact settles_push hs.wf (by rw [hsl]; exact hv)
  rw [wp_modify]
  refine ⟨fun he => ⟨⟨trivial, hf (by simp [he])⟩, hs.trans hp, hsl⟩, fun _ => ?_⟩
  exact ⟨hs.trans hp, hsl, by rw [disk_push, Function.update_self]⟩

theorem wp_writeBackSlot {d : Drive} (hd : d.WF) (ss : Nat) {i : Fin cacheSlots} (hv : (d.slots i).valid = true) :
    wp (writeBackSlot id ss i)
      (fun _ d' => Settles d d' ∧ d'.slots = Function.update d.slots i { d.slots i with dirty := false })
      (fun e d' => (e = .io ∧ d.Faulty ss) ∧ Settles d d' ∧ d'.slots = d.slots) d := by
  unfold writeBackSlot
  simp only [wp_bind, wp_gets, wp_orThrow]
  refine wp_mono (wp_diskWriteBlock hd ss hv) (fun _ d' h => ?_) (fun _ _ h => ⟨⟨trivial, h.1.2⟩, h.2⟩)
  obtain ⟨hs, hsl, hdisk⟩ := h
  rw [wp_modify]
  refine ⟨hs.trans (settles_markClean hs.wf (by rw [hsl]; exact hv) (by rw [hsl]; exact hdisk)), ?_⟩
  rw [markClean, slots_setSlot, hsl]

theorem wp_evictSlot {d : Drive} (hd : d.WF) (ss : Nat) : wp (evictSlot id ss)
    (fun i d' => Settles d d' ∧ ((d'.slots i).valid = true → (d'.slots i).dirty = false) ∧
      ∀ b, ¬d.Cached b → ¬d'.Cached b)
    (fun e d' => (e = .io ∧ d.Faulty ss) ∧ Settles d d') d := by
  unfold evictSlot
  simp only [wp_bind, wp_gets]
  cases h : (d.findSlot (fun c => !c.valid)).or (d.findSlot (fun c => !c.dirty)) with
  | some i =>
    refine ⟨Settles.refl hd, fun hv => ?_, fun b h => h⟩
    rw [Option.or_eq_some_iff] at h
    rcases h with h | ⟨_, h⟩
    · have := findSlot_some h
      simp [hv] at this
    · simpa using findSlot_some h
  | none =>
    rw [Option.or_eq_none_iff] at h
    have hv : (d.slots 0).valid = true := by simpa using findSlot_none h.1 0
    simp only [wp_bind]
    refine wp_mono (wp_writeBackSlot hd ss hv) (fun _ d' h' => ?_) (fun _ _ h' => ⟨h'.1, h'.2.1⟩)
    refine ⟨h'.1, fun _ => by rw [h'.2, Function.update_self], fun b hb hb' => ?_⟩
    obtain ⟨j, hj, hjb⟩ := hb'
    rw [h'.2] at hj hjb
    by_cases hj0 : j = 0
    · subst hj0
      exact hb ⟨0, by simpa using hj, by simpa using hjb⟩
    · rw [Function.update_of_ne hj0] at hj hjb
      exact hb ⟨j, hj, hjb⟩

theorem wp_fillSlot {d : Drive} (hd : d.WF) (ss b : Nat) {i : Fin cacheSlots}
    (hi : (d.slots i).valid = true → (d.slots i).dirty = false) (hb : ¬d.Cached b) : wp (fillSlot id ss b i)
    (fun i d' => Settles d d' ∧ (d'.slots i).valid = true ∧ (d'.slots i).block = b)
    (fun e d' => (e = .io ∧ d.Faulty ss) ∧ Settles d d') d := by
  unfold fillSlot
  simp only [wp_bind, wp_catchWith, wp_modify, wp_throw]
  refine wp_mono (wp_diskReadBlock hd ss b) (fun x d' h => ?_) (fun _ d' h => ?_)
  · obtain ⟨rfl, hs, hsl, hh⟩ := h
    have hdisk : d'.disk = d.disk := by unfold disk; rw [hh, hs.base]
    refine ⟨hs.trans (settles_setSlot hs.wf (fun hv => hs.wf.clean i hv (hsl ▸ hi (hsl ▸ hv))) (fun _ => ?_)), by simp,
      by simp⟩
    exact ⟨by rw [hdisk], rfl, fun j _ hj hjb => hb ⟨j, hsl ▸ hj, hsl ▸ hjb⟩⟩
  · obtain ⟨hf, hs, hsl, hh⟩ := h
    exact ⟨⟨trivial, hf.2⟩, hs.trans (settles_setSlot hs.wf
      (fun hv => hs.wf.clean i hv (hsl ▸ hi (hsl ▸ hv))) (fun h => by simp at h))⟩

theorem wp_blockCacheRead {d : Drive} (hd : d.WF) (ss b : Nat) : wp (blockCacheRead id ss b)
    (fun i d' => Settles d d' ∧ (d'.slots i).valid = true ∧ (d'.slots i).block = b ∧ (d.Cached b → d' = d))
    (fun e d' => (e = .io ∧ d.Faulty ss ∧ ¬d.Cached b) ∧ Settles d d') d := by
  unfold blockCacheRead
  simp only [wp_bind, wp_gets]
  cases h : d.findSlot (fun c => c.valid && c.block == b) with
  | some i =>
    have := findSlot_some h
    simp only [Bool.and_eq_true, beq_iff_eq] at this
    exact ⟨Settles.refl hd, this.1, this.2, fun _ => rfl⟩
  | none =>
    have hb : ¬d.Cached b := by
      rintro ⟨i, hv, hi⟩
      have := findSlot_none h i
      simp [hv, hi] at this
    simp only [wp_bind]
    refine wp_mono (wp_evictSlot hd ss) (fun i d' h' => ?_) (fun _ _ h' => ⟨⟨h'.1.1, h'.1.2, hb⟩, h'.2⟩)
    obtain ⟨hs, hclean, hcached⟩ := h'
    refine wp_mono (wp_fillSlot hs.wf ss b hclean (hcached b hb)) (fun j d'' h'' => ?_) (fun _ d'' h'' => ?_)
    · exact ⟨hs.trans h''.1, h''.2.1, h''.2.2, fun hc => absurd hc hb⟩
    · exact ⟨⟨h''.1.1, hs.faulty h''.1.2, hb⟩, hs.trans h''.2⟩

theorem wp_cacheReadBlock {d : Drive} (hd : d.WF) (ss b : Nat) : wp (cacheReadBlock id ss b)
    (fun x d' => x = d.content b ∧ Settles d d' ∧ d'.Cached b ∧ (d.Cached b → d' = d))
    (fun e d' => (e = .io ∧ d.Faulty ss ∧ ¬d.Cached b) ∧ Settles d d') d := by
  unfold cacheReadBlock
  simp only [wp_bind]
  refine wp_mono (wp_blockCacheRead hd ss b) (fun i d' h => ?_) (fun _ _ h => h)
  obtain ⟨hs, hv, hb, hsame⟩ := h
  refine ⟨?_, hs, ⟨i, hv, hb⟩, hsame⟩
  rw [← hs.content, ← hb, content_of_slot hs.wf hv]

/-- What `write_block` does to a cached block: the slot is dirty with the new data. -/
structure Stores (b : Nat) (x : BlockData) (d d' : Drive) : Prop where
  wf : d'.WF
  content : d'.content = Function.update d.content b x
  base : d'.base = d.base
  history : ∃ ws, d'.history = ws ++ d.history ∧ ∀ w ∈ ws, w.2 = d.content w.1
  outcomes : d'.outcomes <:+ d.outcomes
  cached : d'.Cached b

theorem stores_of_slot {d : Drive} (hd : d.WF) (x : BlockData) {i : Fin cacheSlots} {b : Nat}
    (hv : (d.slots i).valid = true) (hb : (d.slots i).block = b) :
    Stores b x d (d.setSlot i { d.slots i with data := x, dirty := true }) := by
  have hs : ∀ j, (Function.update d.slots i { d.slots i with data := x, dirty := true } j).valid = (d.slots j).valid ∧
      (Function.update d.slots i { d.slots i with data := x, dirty := true } j).block = (d.slots j).block := by
    intro j
    by_cases hji : j = i
    · subst hji; simp
    · simp [Function.update_of_ne hji]
  have hwf : (d.setSlot i { d.slots i with data := x, dirty := true }).WF := by
    refine ⟨fun j k hj hk hjk => ?_, fun j hj hdirty => ?_⟩
    · simp only [slots_setSlot, (hs j).1, (hs k).1, (hs j).2, (hs k).2] at hj hk hjk
      exact hd.unique j k hj hk hjk
    · by_cases hji : j = i
      · subst hji; simp at hdirty
      · simp only [slots_setSlot, Function.update_of_ne hji] at hj hdirty ⊢
        exact hd.clean j hj hdirty
  refine ⟨hwf, ?_, rfl, ⟨[], rfl, by simp⟩, List.suffix_refl _, ⟨i, by simpa using hv, by simpa using hb⟩⟩
  funext c
  by_cases hc : c = b
  · subst hc
    rw [Function.update_self]
    have := content_of_slot hwf (i := i) (by simpa using hv)
    simpa [hb] using this
  · rw [Function.update_of_ne hc, content_setSlot hd hwf c (Or.inl (fun _ h => hc (by rw [← h, hb])))]
    rw [if_neg]
    rintro ⟨_, h⟩
    exact hc (by rw [← h]; exact hb)

theorem Settles.stores {d d' d'' : Drive} {b : Nat} {x : BlockData} (h : Settles d d') (h' : Stores b x d' d'') :
    Stores b x d d'' := by
  obtain ⟨ws, hws, hc⟩ := h.history
  obtain ⟨ws', hws', hc'⟩ := h'.history
  refine ⟨h'.wf, by rw [h'.content, h.content], h'.base.trans h.base, ⟨ws' ++ ws, by rw [hws', hws, List.append_assoc],
    fun w hw => ?_⟩, h'.outcomes.trans h.outcomes, h'.cached⟩
  rcases List.mem_append.1 hw with hw | hw
  · rw [hc' w hw, h.content]
  · exact hc w hw

theorem wp_cacheWriteBlock {d : Drive} (hd : d.WF) (ss b : Nat) (x : BlockData) : wp (cacheWriteBlock id ss b x)
    (fun _ d' => Stores b x d d') (fun e d' => (e = .io ∧ d.Faulty ss ∧ ¬d.Cached b) ∧ Settles d d') d := by
  unfold cacheWriteBlock blockCacheWrite
  simp only [wp_bind, wp_modify, wp_gets, wp_failIf]
  refine wp_mono (wp_blockCacheRead hd ss b) (fun i d' h => ?_) (fun _ _ h => h)
  obtain ⟨hs, hv, hb, _⟩ := h
  refine ⟨fun h => ?_, fun _ => ?_⟩
  · simp [hv] at h
  · have := hs.stores (stores_of_slot hs.wf x hv hb)
    convert this using 1
    unfold setSlot
    simp only [Function.update_self, Function.update_idem]

theorem wp_flushSlots {ss : Nat} : ∀ (l : List (Fin cacheSlots)) {d : Drive}, d.WF →
    wp (flushSlots id ss l)
      (fun ok d' => Settles d d' ∧ (∀ i, (d'.slots i).valid = (d.slots i).valid ∧
        ((d'.slots i).dirty = true → (d.slots i).dirty = true)) ∧
        (ok = true → ∀ i ∈ l, (d'.slots i).valid = true → (d'.slots i).dirty = false) ∧ (ok = false → d.Faulty ss))
      (fun _ _ => False) d
  | [], d, hd => by
    simp only [flushSlots, wp_pure]
    exact ⟨Settles.refl hd, fun i => ⟨trivial, fun h => h⟩, by simp, by simp⟩
  | i :: is, d, hd => by
    simp only [flushSlots, wp_bind, wp_gets]
    rw [wp_ite]
    refine ⟨fun hc => ?_, fun hc => ?_⟩
    · simp only [Bool.and_eq_true] at hc
      simp only [wp_bind, wp_attempt, wp_pure]
      refine wp_mono (wp_writeBackSlot hd ss hc.1) (fun _ d' h => ?_) (fun _ d' h => ?_)
      · obtain ⟨hs, hsl⟩ := h
        refine wp_mono (wp_flushSlots is hs.wf) (fun ok d'' h' => ?_) (fun _ _ h' => h')
        obtain ⟨hs', hkeep, hclean, hfault⟩ := h'
        have hsi : ∀ j, (d'.slots j).valid = (d.slots j).valid ∧
            ((d'.slots j).dirty = true → (d.slots j).dirty = true) := by
          intro j
          rw [hsl]
          by_cases hji : j = i
          · subst hji; simp
          · rw [Function.update_of_ne hji]; exact ⟨rfl, fun h => h⟩
        refine ⟨hs.trans hs', fun j => ⟨(hkeep j).1.trans (hsi j).1, fun h => (hsi j).2 ((hkeep j).2 h)⟩, ?_, ?_⟩
        · intro hok j hj hjv
          rcases List.mem_cons.1 hj with rfl | hj
          · refine Bool.eq_false_iff.2 (fun h => ?_)
            have := (hkeep j).2 h
            rw [hsl, Function.update_self] at this
            simp at this
          · exact hclean (by simpa [Except.isOk, Except.toBool] using hok) j hj hjv
        · intro hok
          exact hs.faulty (hfault (by simpa [Except.isOk, Except.toBool] using hok))
      · obtain ⟨hf, hs, hsl⟩ := h
        refine wp_mono (wp_flushSlots is hs.wf) (fun ok d'' h' => ?_) (fun _ _ h' => h')
        obtain ⟨hs', hkeep, _, _⟩ := h'
        refine ⟨hs.trans hs', fun j => by rw [← hsl]; exact hkeep j, ?_, fun _ => hf.2⟩
        intro hok
        simp [Except.isOk, Except.toBool] at hok
    · refine wp_mono (wp_flushSlots is hd) (fun ok d' h => ?_) (fun _ _ h => h)
      obtain ⟨hs, hkeep, hclean, hfault⟩ := h
      refine ⟨hs, hkeep, fun hok j hj hjv => ?_, hfault⟩
      rcases List.mem_cons.1 hj with rfl | hj
      · refine Bool.eq_false_iff.2 (fun h => hc ?_)
        rw [← (hkeep j).1, hjv, (hkeep j).2 h]
        rfl
      · exact hclean hok j hj hjv

theorem wp_cacheFlush {d : Drive} (hd : d.WF) (ss : Nat) : wp (cacheFlush id ss)
    (fun _ d' => Settles d d' ∧ d'.Flushed) (fun e d' => (e = .io ∧ d.Faulty ss) ∧ Settles d d') d := by
  unfold cacheFlush
  simp only [wp_bind, wp_failIf]
  refine wp_mono (wp_flushSlots (List.finRange cacheSlots) hd) (fun ok d' h => ?_) (fun _ _ h => h.elim)
  obtain ⟨hs, _, hclean, hfault⟩ := h
  refine ⟨fun h => ⟨⟨trivial, hfault h⟩, hs⟩, fun h => ⟨hs, fun i hv => ?_⟩⟩
  exact hclean (by simpa using h) i (List.mem_finRange i) hv

theorem cacheInit_wf (d : Drive) : (cacheInit d).WF :=
  ⟨fun i j h => by simp [cacheInit] at h, fun i h => by simp [cacheInit] at h⟩

theorem content_cacheInit (d : Drive) : (cacheInit d).content = d.disk := by
  rw [content_of_flushed (cacheInit_wf d) (fun i h => by simp [cacheInit] at h)]
  rfl

def blankDrive : Drive := ⟨fun _ => .zero, [], fun _ => ⟨0, .zero, false, false⟩, []⟩

end SmkFs
end AmitX
