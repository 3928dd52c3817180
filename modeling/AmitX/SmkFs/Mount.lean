import AmitX.SmkFs.Drive
/-!
# Mount — the mount context and its memory

The state of a program of the file system is the device, the memory of the mount context and the outcomes of the
`malloc` calls to come.  A proof sees of it a `Volume`: the content of the blocks and the memory.  `fwp D H` is the
weakest precondition on volumes, where `D` says whether transfers may fail and `H` whether `malloc` may; `vwp F` is
`fwp F F`.
-/
namespace AmitX
namespace SmkFs

open Prog

abbrev Device := {d : Drive // d.WF}

/-- The memory of the mount context.  `regions` is the `free_count` of each region. -/
structure Mem where
  sb : Superblock
  journalNextSequence : Nat
  journalInTransaction : Bool
  regions : Option (Nat → Nat)
  regionCount : Nat
  allocHintRegion : Nat
  mounted : Bool

structure Mount extends Mem where
  dev : Device
  /-- The outcomes of the calls of `malloc` to come; past its end they succeed. -/
  heap : List Bool

/-- The blocks as `read_block` returns them, and the memory. -/
structure Volume extends Mem where
  view : Nat → BlockData

namespace Volume

def write (b : Nat) (x : BlockData) (v : Volume) : Volume := ⟨v.toMem, Function.update v.view b x⟩

def mapMem (f : Mem → Mem) (v : Volume) : Volume := ⟨f v.toMem, v.view⟩

@[simp] theorem write_view (b : Nat) (x : BlockData) (v : Volume) :
    (v.write b x).view = Function.update v.view b x := rfl
@[simp] theorem write_toMem (b : Nat) (x : BlockData) (v : Volume) : (v.write b x).toMem = v.toMem := rfl
@[simp] theorem mapMem_view (f : Mem → Mem) (v : Volume) : (v.mapMem f).view = v.view := rfl
@[simp] theorem mapMem_toMem (f : Mem → Mem) (v : Volume) : (v.mapMem f).toMem = f v.toMem := rfl

end Volume

namespace Mount

def vol (s : Mount) : Volume := ⟨s.toMem, s.dev.1.content⟩

def mapMem (f : Mem → Mem) (s : Mount) : Mount := ⟨f s.toMem, s.dev, s.heap⟩

def DiskFaulty (s : Mount) : Prop := ∃ o ∈ s.dev.1.outcomes, o ≠ Outcome.done

/-- A `malloc` to come can fail. -/
def HeapFaulty (s : Mount) : Prop := false ∈ s.heap

end Mount

abbrev FsM := Prog Mount Err

/-- Only transfers and `malloc` calls have happened. -/
structure Quiet (s s' : Mount) : Prop where
  dev : Settles s.dev.1 s'.dev.1
  mem : s'.toMem = s.toMem
  heap : s'.heap <:+ s.heap

theorem Quiet.vol {s s' : Mount} (h : Quiet s s') : s'.vol = s.vol := by
  unfold Mount.vol
  rw [h.mem, h.dev.content]

structure FewerFaults (s s' : Mount) : Prop where
  disk : s'.DiskFaulty → s.DiskFaulty
  heap : s'.HeapFaulty → s.HeapFaulty

theorem fewerFaults_of_suffix {s s' : Mount} (hd : s'.dev.1.outcomes <:+ s.dev.1.outcomes) (hh : s'.heap <:+ s.heap) :
    FewerFaults s s' :=
  ⟨fun ⟨o, ho, hne⟩ => ⟨o, hd.subset ho, hne⟩, fun hf => hh.subset hf⟩

theorem Quiet.fewerFaults {s s' : Mount} (h : Quiet s s') : FewerFaults s s' :=
  fewerFaults_of_suffix h.dev.outcomes h.heap

/-! ## The primitives -/

theorem keepsWF_of_wp {α : Type} {m : DriveM α}
    (h : ∀ d : Drive, d.WF → wp m (fun _ d' => d'.WF) (fun _ d' => d'.WF) d) :
    Keeps (fun d d' => d.WF → d'.WF) m := by
  intro d hd
  have := h d hd
  unfold wp at this
  rcases hm : m d with ⟨a | e, d'⟩ <;> rw [hm] at this <;> exact this

theorem cacheReadBlock_wf (ss b : Nat) : Keeps (fun d d' => d.WF → d'.WF) (cacheReadBlock id ss b) :=
  keepsWF_of_wp (fun _ hd => wp_mono (wp_cacheReadBlock hd ss b) (fun _ _ h => h.2.1.wf) (fun _ _ h => h.2.wf))

theorem cacheWriteBlock_wf (ss b : Nat) (x : BlockData) : Keeps (fun d d' => d.WF → d'.WF) (cacheWriteBlock id ss b x) :=
  keepsWF_of_wp (fun _ hd => wp_mono (wp_cacheWriteBlock hd ss b x) (fun _ _ h => h.wf) (fun _ _ h => h.2.wf))

theorem cacheFlush_wf (ss : Nat) : Keeps (fun d d' => d.WF → d'.WF) (cacheFlush id ss) :=
  keepsWF_of_wp (fun _ hd => wp_mono (wp_cacheFlush hd ss) (fun _ _ h => h.1.wf) (fun _ _ h => h.2.wf))

def onDev {α : Type} (m : DriveM α) (h : Keeps (fun d d' => d.WF → d'.WF) m) : FsM α :=
  zoom Mount.dev (fun d s => { s with dev := d }) (m.restrict h)

def readBlock (block : Nat) : FsM BlockData := do
  let sectorSize ← gets (·.sb.sectorSize)
  onDev (cacheReadBlock id sectorSize block) (cacheReadBlock_wf sectorSize block)

def writeBlock (block : Nat) (x : BlockData) : FsM Unit := do
  let sectorSize ← gets (·.sb.sectorSize)
  onDev (cacheWriteBlock id sectorSize block x) (cacheWriteBlock_wf sectorSize block x)

def blockCacheFlush : FsM Unit := do
  let sectorSize ← gets (·.sb.sectorSize)
  onDev (cacheFlush id sectorSize) (cacheFlush_wf sectorSize)

def blockCacheInit (s : Mount) : Mount := { s with dev := ⟨cacheInit s.dev.1, cacheInit_wf s.dev.1⟩ }

/-- `malloc` of a block buffer; false for a NULL. -/
def malloc : FsM Bool := fun s =>
  match s.heap with
  | [] => (.ok true, s)
  | r :: rs => (.ok r, { s with heap := rs })

def getMem : FsM Mem := gets (·.toMem)

def getSb : FsM Superblock := gets (·.sb)

def modifyMem (f : Mem → Mem) : FsM Unit := modify (Mount.mapMem f)

def modifySb (f : Superblock → Superblock) : FsM Unit := modifyMem (fun m => { m with sb := f m.sb })

/-- The sector size divides the block size, so that blocks can be transferred at all. -/
def Mem.sectorOk (m : Mem) : Prop := blockSize % m.sb.sectorSize = 0

theorem diskFaulty_of_dev {s : Mount} (h : s.dev.1.Faulty s.sb.sectorSize) : ¬s.sectorOk ∨ s.DiskFaulty := h

theorem wp_onDev {α : Type} {m : DriveM α} {h : Keeps (fun d d' => d.WF → d'.WF) m} {s : Mount}
    {Q : α → Mount → Prop} {E : Err → Mount → Prop}
    (hw : wp m (fun a d' => ∀ hd', Q a { s with dev := ⟨d', hd'⟩ }) (fun e d' => ∀ hd', E e { s with dev := ⟨d', hd'⟩ })
      s.dev.1) : wp (onDev m h) Q E s :=
  (wp_zoom _ _ _).2 (wp_restrict hw)

theorem wp_readBlock (s : Mount) (b : Nat) : wp (readBlock b)
    (fun x s' => x = s.vol.view b ∧ Quiet s s' ∧ s'.dev.1.Cached b ∧ (s.dev.1.Cached b → s' = s))
    (fun e s' => (e = .io ∧ (¬s.sectorOk ∨ s.DiskFaulty) ∧ ¬s.dev.1.Cached b) ∧ Quiet s s') s := by
  unfold readBlock
  rw [wp_bind, wp_gets]
  refine wp_onDev (wp_mono (wp_cacheReadBlock s.dev.2 _ b) (fun x d' h hd' => ?_) (fun e d' h hd' => ?_))
  · exact ⟨h.1, ⟨h.2.1, rfl, List.suffix_refl _⟩, h.2.2.1, fun hc => by simp only [h.2.2.2 hc]⟩
  · exact ⟨⟨h.1.1, diskFaulty_of_dev h.1.2.1, h.1.2.2⟩, h.2, rfl, List.suffix_refl _⟩

theorem wp_writeBlock (s : Mount) (b : Nat) (x : BlockData) : wp (writeBlock b x)
    (fun _ s' => Stores b x s.dev.1 s'.dev.1 ∧ s'.toMem = s.toMem ∧ s'.heap = s.heap)
    (fun e s' => (e = .io ∧ (¬s.sectorOk ∨ s.DiskFaulty) ∧ ¬s.dev.1.Cached b) ∧ Quiet s s') s := by
  unfold writeBlock
  rw [wp_bind, wp_gets]
  refine wp_onDev (wp_mono (wp_cacheWriteBlock s.dev.2 _ b x) (fun _ d' h hd' => ?_) (fun e d' h hd' => ?_))
  · exact ⟨h, rfl, rfl⟩
  · exact ⟨⟨h.1.1, diskFaulty_of_dev h.1.2.1, h.1.2.2⟩, h.2, rfl, List.suffix_refl _⟩

theorem wp_blockCacheFlush (s : Mount) : wp blockCacheFlush
    (fun _ s' => Quiet s s' ∧ s'.dev.1.Flushed) (fun e s' => (e = .io ∧ (¬s.sectorOk ∨ s.DiskFaulty)) ∧ Quiet s s') s := by
  unfold blockCacheFlush
  rw [wp_bind, wp_gets]
  refine wp_onDev (wp_mono (wp_cacheFlush s.dev.2 _) (fun _ d' h hd' => ?_) (fun e d' h hd' => ?_))
  · exact ⟨⟨h.1, rfl, List.suffix_refl _⟩, h.2⟩
  · exact ⟨⟨h.1.1, diskFaulty_of_dev h.1.2⟩, h.2, rfl, List.suffix_refl _⟩

theorem wp_malloc (s : Mount) : wp malloc
    (fun r s' => Quiet s s' ∧ s'.dev = s.dev ∧ (r = false → s.HeapFaulty)) (fun _ _ => False) s := by
  unfold wp malloc
  cases h : s.heap with
  | nil => exact ⟨⟨Settles.refl s.dev.2, rfl, List.suffix_refl _⟩, rfl, by simp⟩
  | cons r rs =>
    refine ⟨⟨Settles.refl s.dev.2, rfl, by rw [h]; exact List.suffix_cons r rs⟩, rfl, ?_⟩
    rintro rfl
    simp [Mount.HeapFaulty, h]

/-! ## Reasoning on volumes -/

/-- A proof sees the volume; `D` is whether transfers may fail, `H` whether `malloc` may. -/
def faultView (D H : Prop) : View Mount Volume :=
  ⟨Mount.vol, fun s => (s.DiskFaulty → D) ∧ (s.HeapFaulty → H)⟩

abbrev volView (F : Prop) : View Mount Volume := faultView F F

abbrev fwp {α : Type} (D H : Prop) (m : FsM α) (Q : α → Volume → Prop) (E : Err → Volume → Prop) (v : Volume) : Prop :=
  wpAbs (faultView D H) m Q E v

/-- The weakest precondition on volumes where everything may fail, or nothing. -/
abbrev vwp {α : Type} (F : Prop) (m : FsM α) (Q : α → Volume → Prop) (E : Err → Volume → Prop) (v : Volume) : Prop :=
  fwp F F m Q E v

theorem faultView_post {D H : Prop} {P : Volume → Prop} {s s' : Mount} {v : Volume} (hv : s'.vol = v)
    (hi : (faultView D H).inv s) (hf : FewerFaults s s') (h : P v) :
    (faultView D H).inv s' ∧ P ((faultView D H).abs s') := by
  subst hv
  exact ⟨⟨fun hd => hi.1 (hf.disk hd), fun hh => hi.2 (hf.heap hh)⟩, h⟩

theorem fwp_apply {α : Type} {D H : Prop} {m : FsM α} {P : Except Err α → Volume → Prop} {s : Mount}
    (h : fwp D H m (fun a v => P (.ok a) v) (fun e v => P (.error e) v) s.vol) (hi : (faultView D H).inv s) :
    (faultView D H).inv (m s).2 ∧ P (m s).1 (m s).2.vol := by
  have hw := h s hi rfl
  rcases hm : m s with ⟨e | a, s'⟩
  · have := wp_error hw hm
    exact this
  · have := wp_ok hw hm
    exact this

section Rules

variable {D H : Prop} {v : Volume} {E : Err → Volume → Prop}

theorem vwp_readBlock {b : Nat} {Q : BlockData → Volume → Prop} (hok : Q (v.view b) v)
    (herr : D ∨ ¬v.sectorOk → E .io v) : fwp D H (readBlock b) Q E v := by
  rintro s hi rfl
  refine wp_mono (wp_readBlock s b) (fun x s' h => ?_) (fun e s' h => ?_)
  · obtain ⟨rfl, hq, _⟩ := h
    exact faultView_post (P := Q _) hq.vol hi hq.fewerFaults hok
  · obtain ⟨⟨rfl, hf, _⟩, hq⟩ := h
    exact faultView_post (P := E _) hq.vol hi hq.fewerFaults (herr (hf.symm.imp hi.1 id))

theorem vwp_writeBlock {b : Nat} {x : BlockData} {Q : Unit → Volume → Prop} (hok : Q () (v.write b x))
    (herr : D ∨ ¬v.sectorOk → E .io v) : fwp D H (writeBlock b x) Q E v := by
  rintro s hi rfl
  refine wp_mono (wp_writeBlock s b x) (fun _ s' h => ?_) (fun e s' h => ?_)
  · obtain ⟨hs, hm, hh⟩ := h
    refine faultView_post (P := Q _) ?_ hi (fewerFaults_of_suffix hs.outcomes (hh ▸ List.suffix_refl _)) hok
    unfold Mount.vol
    rw [hm, hs.content]
    rfl
  · obtain ⟨⟨rfl, hf, _⟩, hq⟩ := h
    exact faultView_post (P := E _) hq.vol hi hq.fewerFaults (herr (hf.symm.imp hi.1 id))

theorem vwp_blockCacheFlush {Q : Unit → Volume → Prop} (hok : Q () v) (herr : D ∨ ¬v.sectorOk → E .io v) :
    fwp D H blockCacheFlush Q E v := by
  rintro s hi rfl
  refine wp_mono (wp_blockCacheFlush s) (fun _ s' h => ?_) (fun e s' h => ?_)
  · exact faultView_post (P := Q _) h.1.vol hi h.1.fewerFaults hok
  · obtain ⟨⟨rfl, hf⟩, hq⟩ := h
    exact faultView_post (P := E _) hq.vol hi hq.fewerFaults (herr (hf.symm.imp hi.1 id))

theorem vwp_malloc {Q : Bool → Volume → Prop} (hok : Q true v) (herr : H → Q false v) : fwp D H malloc Q E v := by
  rintro s hi rfl
  refine wp_mono (wp_malloc s) (fun r s' h => ?_) (fun _ _ h => h.elim)
  refine faultView_post (P := Q _) h.1.vol hi h.1.fewerFaults ?_
  cases r with
  | true => exact hok
  | false => exact herr (hi.2 (h.2.2 rfl))

theorem vwp_getMem {Q : Mem → Volume → Prop} (h : Q v.toMem v) : fwp D H getMem Q E v := by
  rintro s hi rfl
  exact ⟨hi, h⟩

theorem vwp_getSb {Q : Superblock → Volume → Prop} (h : Q v.sb v) : fwp D H getSb Q E v := by
  rintro s hi rfl
  exact ⟨hi, h⟩

theorem vwp_modifyMem {f : Mem → Mem} {Q : Unit → Volume → Prop} (h : Q () (v.mapMem f)) :
    fwp D H (modifyMem f) Q E v := by
  rintro s hi rfl
  exact ⟨hi, h⟩

theorem vwp_readModifyWrite {b : Nat} {f : BlockData → Mem → Mem} {g : BlockData → BlockData}
    {Q : Unit → Volume → Prop} (hok : Q () ((v.mapMem (f (v.view b))).write b (g (v.view b))))
    (herr : D ∨ ¬v.sectorOk → E .io v) : fwp D H (do
      let x ← readBlock b
      modifyMem (f x)
      writeBlock b (g x)) Q E v := by
  rintro s hi rfl
  rw [wp_bind]
  refine wp_mono (wp_readBlock s b) (fun x s' h => ?_) (fun e s' h => ?_)
  · obtain ⟨rfl, hq, hc, _⟩ := h
    rw [modifyMem, wp_bind, wp_modify]
    refine wp_mono (wp_writeBlock (s'.mapMem _) b _) (fun _ s'' h => ?_) (fun _ _ h => absurd hc h.1.2.2)
    obtain ⟨hs, hm, hh⟩ := h
    have hq' : FewerFaults s' s'' := fewerFaults_of_suffix (s := s') hs.outcomes (hh ▸ List.suffix_refl _)
    refine faultView_post (P := Q _) ?_ hi ⟨fun hd => hq.fewerFaults.disk (hq'.disk hd),
      fun hh => hq.fewerFaults.heap (hq'.heap hh)⟩ hok
    unfold Mount.vol
    rw [hm, hs.content]
    simp only [Mount.mapMem, hq.mem, hq.dev.content]
    rfl
  · obtain ⟨⟨rfl, hf, _⟩, hq⟩ := h
    exact faultView_post (P := E _) hq.vol hi hq.fewerFaults (herr (hf.symm.imp hi.1 id))

end Rules

def blankMount (sb : Superblock) : Mount :=
  { sb := sb, journalNextSequence := 1, journalInTransaction := false, regions := none, regionCount := 0,
    allocHintRegion := 0, mounted := false, dev := ⟨cacheInit blankDrive, cacheInit_wf blankDrive⟩, heap := [] }

end SmkFs
end AmitX
