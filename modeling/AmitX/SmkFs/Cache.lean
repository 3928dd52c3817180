import AmitX.Lib.Run
import AmitX.SmkFs.Drive
/-!
# Cache — runs of the block cache

Calls of `read_block`, `write_block` and `block_cache_flush` in any order, over transfers that may fail.  The sector
address of a block is cut to 32 bits: the cache is transparent as long as no address that is used loses a bit.
-/
namespace AmitX
namespace SmkFs

open Prog Drive Run

/-- The logical sector size of a device, from 512 bytes to a block: a block's sectors are counted by a byte. -/
abbrev SectorSize := {n : Nat // 512 ≤ n ∧ n ≤ blockSize}

def sectors (ss : SectorSize) : Nat := blockSize / ss.1

/-- The block of the disk at the address `(ULONG)(block * sectors)`. -/
def lbaBlock (ss : SectorSize) (block : Nat) : Nat := block * sectors ss % 2 ^ 32 / sectors ss

def LbaFits (ss : SectorSize) (block : Nat) : Prop := block * sectors ss < 2 ^ 32

instance (ss : SectorSize) (block : Nat) : Decidable (LbaFits ss block) := Nat.decLt _ _

theorem sectors_pos (ss : SectorSize) : 0 < sectors ss := Nat.div_pos ss.2.2 (by have := ss.2.1; omega)

theorem lbaBlock_of_fits {ss : SectorSize} {b : Nat} (h : LbaFits ss b) : lbaBlock ss b = b := by
  unfold lbaBlock
  rw [Nat.mod_eq_of_lt h, Nat.mul_div_cancel _ (sectors_pos ss)]

/-! ## Addresses that fit -/

def SlotsFit (ss : SectorSize) (d : Drive) : Prop := ∀ i, LbaFits ss (d.slots i).block

section

variable {ss : SectorSize} {b : Nat}

theorem slotsFit_setSlot {d : Drive} (h : SlotsFit ss d) {i : Fin cacheSlots} {c : CacheSlot}
    (hc : LbaFits ss c.block) : SlotsFit ss (d.setSlot i c) := by
  intro j
  rw [slots_setSlot]
  by_cases hj : j = i
  · subst hj
    rwa [Function.update_self]
  · rw [Function.update_of_ne hj]
    exact h j

theorem slotsFit_takeOutcome : Keeps (fun d d' => SlotsFit ss d → SlotsFit ss d') takeOutcome := by
  intro d h
  unfold takeOutcome
  cases d.outcomes with
  | nil => exact h
  | cons o os => exact h

theorem agree_failIf (c : Prop) [Decidable c] (e : Err) :
    Agree (SlotsFit ss) (failIf c e : DriveM Unit) (failIf c e) :=
  agree_self (Keeps.failIf (fun _ h => h) c e)

theorem agree_modify {f : Drive → Drive} (h : ∀ d, SlotsFit ss d → SlotsFit ss (f d)) :
    Agree (SlotsFit ss) (Prog.modify f : DriveM Unit) (Prog.modify f) :=
  agree_self (Keeps.modify h)

theorem agree_setSlot (i : Fin cacheSlots) {c : CacheSlot} (hc : LbaFits ss c.block) :
    Agree (SlotsFit ss) (Prog.modify (setSlot i c) : DriveM Unit) (Prog.modify (setSlot i c)) :=
  agree_modify (fun _ hd => slotsFit_setSlot hd hc)

theorem agree_pure {α : Type} (a : α) : Agree (SlotsFit ss) (pure a : DriveM α) (pure a) :=
  agree_self (Keeps.pure (fun _ h => h) a)

theorem agree_throw {α : Type} (e : Err) : Agree (SlotsFit ss) (throw e : DriveM α) (throw e) :=
  agree_self (Keeps.throw (fun _ h => h) e)

theorem agree_diskReadBlock (h : LbaFits ss b) :
    Agree (SlotsFit ss) (diskReadBlock (lbaBlock ss) ss.1 b) (diskReadBlock id ss.1 b) := by
  unfold diskReadBlock
  rw [lbaBlock_of_fits h, id_eq]
  exact (agree_failIf _ _).bind (fun _ => (agree_self slotsFit_takeOutcome).bind (fun _ =>
    (agree_failIf _ _).bind (fun _ => agree_self (Keeps.gets (fun _ h => h) _))))

theorem agree_diskWriteBlock (h : LbaFits ss b) (x : BlockData) :
    Agree (SlotsFit ss) (diskWriteBlock (lbaBlock ss) ss.1 b x) (diskWriteBlock id ss.1 b x) := by
  unfold diskWriteBlock
  rw [lbaBlock_of_fits h, id_eq]
  exact (agree_failIf _ _).bind (fun _ => (agree_self slotsFit_takeOutcome).bind (fun _ =>
    (agree_failIf _ _).bind (fun _ => (agree_modify (f := push b x) (fun _ h => h)).bind (fun _ => agree_failIf _ _))))

theorem agree_fillSlot (h : LbaFits ss b) (i : Fin cacheSlots) :
    Agree (SlotsFit ss) (fillSlot (lbaBlock ss) ss.1 b i) (fillSlot id ss.1 b i) := by
  unfold fillSlot
  refine Agree.bind ((agree_diskReadBlock h).catchWith (fun _ => ?_)) (fun x => ?_)
  · exact (agree_modify (f := invalidateSlot i) (fun _ hd => slotsFit_setSlot hd (hd i))).bind
      (fun _ => agree_throw _)
  · exact (agree_setSlot i (c := ⟨b, x, false, true⟩) h).bind (fun _ => agree_pure i)

theorem agree_writeBackSlot (i : Fin cacheSlots) :
    Agree (SlotsFit ss) (writeBackSlot (lbaBlock ss) ss.1 i) (writeBackSlot id ss.1 i) := by
  unfold writeBackSlot
  refine Agree.gets_bind (fun d hd => ?_)
  exact Agree.bind ((agree_diskWriteBlock (hd i) (d.slots i).data).catchWith (fun _ => agree_throw .io))
    (fun _ => agree_modify (f := markClean i) (fun _ hd => slotsFit_setSlot hd (hd i))) d hd

theorem agree_evictSlot : Agree (SlotsFit ss) (evictSlot (lbaBlock ss) ss.1) (evictSlot id ss.1) := by
  unfold evictSlot
  refine Agree.gets_bind (fun d hd => ?_)
  cases (d.findSlot (fun c => !c.valid)).or (d.findSlot (fun c => !c.dirty)) with
  | some i => exact ⟨rfl, hd⟩
  | none => exact (agree_writeBackSlot 0).bind (fun _ => agree_pure _) d hd

theorem agree_blockCacheRead (h : LbaFits ss b) :
    Agree (SlotsFit ss) (blockCacheRead (lbaBlock ss) ss.1 b) (blockCacheRead id ss.1 b) := by
  unfold blockCacheRead
  refine Agree.gets_bind (fun d hd => ?_)
  cases d.findSlot (fun c => c.valid && c.block == b) with
  | some i => exact ⟨rfl, hd⟩
  | none => exact agree_evictSlot.bind (fun i => agree_fillSlot h i) d hd

theorem agree_cacheReadBlock (h : LbaFits ss b) :
    Agree (SlotsFit ss) (cacheReadBlock (lbaBlock ss) ss.1 b) (cacheReadBlock id ss.1 b) := by
  unfold cacheReadBlock
  exact (agree_blockCacheRead h).bind (fun i => agree_self (Keeps.gets (fun _ h => h) _))

theorem agree_blockCacheWrite (i : Fin cacheSlots) : Agree (SlotsFit ss) (blockCacheWrite i) (blockCacheWrite i) := by
  unfold blockCacheWrite
  exact Agree.gets_bind (fun d hd => (agree_failIf _ _).bind
    (fun _ => agree_setSlot i (c := { d.slots i with dirty := true }) (hd i)) d hd)

theorem agree_cacheWriteBlock (h : LbaFits ss b) (x : BlockData) :
    Agree (SlotsFit ss) (cacheWriteBlock (lbaBlock ss) ss.1 b x) (cacheWriteBlock id ss.1 b x) := by
  unfold cacheWriteBlock
  exact (agree_blockCacheRead h).bind (fun i => (agree_modify
    (f := fun d => d.setSlot i { d.slots i with data := x }) (fun d hd => slotsFit_setSlot hd (hd i))).bind
    (fun _ => agree_blockCacheWrite i))

theorem agree_flushSlots : ∀ l : List (Fin cacheSlots),
    Agree (SlotsFit ss) (flushSlots (lbaBlock ss) ss.1 l) (flushSlots id ss.1 l)
  | [] => agree_pure true
  | i :: is => by
    simp only [flushSlots]
    refine Agree.gets_bind (fun d hd => ?_)
    cases (d.slots i).valid && (d.slots i).dirty with
    | true => exact (agree_writeBackSlot i).attempt.bind (fun _ => (agree_flushSlots is).bind
        (fun _ => agree_pure _)) d hd
    | false => exact agree_flushSlots is d hd

theorem agree_cacheFlush : Agree (SlotsFit ss) (cacheFlush (lbaBlock ss) ss.1) (cacheFlush id ss.1) := by
  unfold cacheFlush
  exact (agree_flushSlots _).bind (fun _ => agree_failIf _ _)

end

/-! ## Runs -/

inductive CacheCall
  | read (block : Nat)
  | write (block : Nat) (data : BlockData)
  | flush

inductive CacheEvent
  | read (block : Nat) (result : Except Err BlockData)
  | write (block : Nat) (data : BlockData) (result : Except Err Unit)
  | flush (result : Except Err Unit)

def CacheCall.run (ss : SectorSize) (d : Drive) : CacheCall → CacheEvent × Drive
  | .read b => let r := cacheReadBlock (lbaBlock ss) ss.1 b d; (.read b r.1, r.2)
  | .write b x => let r := cacheWriteBlock (lbaBlock ss) ss.1 b x d; (.write b x r.1, r.2)
  | .flush => let r := cacheFlush (lbaBlock ss) ss.1 d; (.flush r.1, r.2)

/-- The data of the last write of each block that returned OK, or `init`. -/
def lastWrites (init : Nat → BlockData) : List CacheEvent → Nat → BlockData
  | [] => init
  | .write b x (.ok _) :: es => lastWrites (Function.update init b x) es
  | _ :: es => lastWrites init es

def diskContent (ss : SectorSize) (d : Drive) (b : Nat) : BlockData := d.disk (lbaBlock ss b)

/-- What a caller relies on after a call that follows the events `es` on a disk that held `init`. -/
structure CallTransparent (ss : SectorSize) (init : Nat → BlockData) (es : List CacheEvent) (e : CacheEvent)
    (d : Drive) : Prop where
  unique : ∀ i j, (d.slots i).valid = true → (d.slots j).valid = true → (d.slots i).block = (d.slots j).block → i = j
  read : ∀ b x, e = .read b (.ok x) → x = lastWrites init es b
  flush : e = .flush (.ok ()) → ∀ b, LbaFits ss b → diskContent ss d b = lastWrites init es b

def Transparent (ss : SectorSize) (d : Drive) (calls : List CacheCall) : Prop :=
  ∀ before c after, calls = before ++ c :: after →
    let r := run (CacheCall.run ss) (cacheInit d) before
    let e := CacheCall.run ss r.2 c
    CallTransparent ss (diskContent ss d) r.1 e.1 e.2

def CacheCall.Fits (ss : SectorSize) : CacheCall → Prop
  | .read b => LbaFits ss b
  | .write b _ => LbaFits ss b
  | .flush => True

instance (ss : SectorSize) : (c : CacheCall) → Decidable (c.Fits ss)
  | .read b => inferInstanceAs (Decidable (LbaFits ss b))
  | .write b _ => inferInstanceAs (Decidable (LbaFits ss b))
  | .flush => inferInstanceAs (Decidable True)

/-- The drive after a call, in terms of the content before it. -/
structure CallStep (ss : SectorSize) (d : Drive) (e : CacheEvent) (d' : Drive) : Prop where
  wf : d'.WF
  fit : SlotsFit ss d'
  content : d'.content = lastWrites d.content [e]
  read : ∀ b x, e = .read b (.ok x) → x = d.content b
  flush : e = .flush (.ok ()) → d'.Flushed

theorem callStep {ss : SectorSize} {d : Drive} (hd : d.WF) (hs : SlotsFit ss d) {c : CacheCall} (hc : c.Fits ss) :
    CallStep ss d (CacheCall.run ss d c).1 (CacheCall.run ss d c).2 := by
  cases c with
  | read b =>
    obtain ⟨he, hfit⟩ := agree_cacheReadBlock hc d hs
    have hw := wp_cacheReadBlock hd ss.1 b
    simp only [CacheCall.run, he]
    rcases h : cacheReadBlock id ss.1 b d with ⟨e | x, d'⟩
    · have := wp_error hw h
      exact ⟨this.2.wf, h ▸ hfit, this.2.content, fun _ _ h => by simp at h, fun h => by simp at h⟩
    · have := wp_ok hw h
      refine ⟨this.2.1.wf, h ▸ hfit, this.2.1.content, fun b' x' h' => ?_, fun h => by simp at h⟩
      simp only [CacheEvent.read.injEq, Except.ok.injEq] at h'
      rw [← h'.1, ← h'.2]
      exact this.1
  | write b x =>
    obtain ⟨he, hfit⟩ := agree_cacheWriteBlock hc x d hs
    have hw := wp_cacheWriteBlock hd ss.1 b x
    simp only [CacheCall.run, he]
    rcases h : cacheWriteBlock id ss.1 b x d with ⟨e | u, d'⟩
    · have := wp_error hw h
      exact ⟨this.2.wf, h ▸ hfit, this.2.content, fun _ _ h => by simp at h, fun h => by simp at h⟩
    · have := wp_ok hw h
      exact ⟨this.wf, h ▸ hfit, this.content, fun _ _ h => by simp at h, fun h => by simp at h⟩
  | flush =>
    obtain ⟨he, hfit⟩ := @agree_cacheFlush ss d hs
    have hw := wp_cacheFlush hd ss.1
    simp only [CacheCall.run, he]
    rcases h : cacheFlush id ss.1 d with ⟨e | u, d'⟩
    · have := wp_error hw h
      exact ⟨this.2.wf, h ▸ hfit, this.2.content, fun _ _ h => by simp at h, fun h => by simp at h⟩
    · have := wp_ok hw h
      exact ⟨this.1.wf, h ▸ hfit, this.1.content, fun _ _ h => by simp at h, fun _ => this.2⟩

theorem lastWrites_append (init : Nat → BlockData) : ∀ es es' : List CacheEvent,
    lastWrites init (es ++ es') = lastWrites (lastWrites init es) es'
  | [], _ => rfl
  | .write b x (.ok _) :: es, es' => lastWrites_append (Function.update init b x) es es'
  | .write _ _ (.error _) :: es, es' => lastWrites_append init es es'
  | .read _ _ :: es, es' => lastWrites_append init es es'
  | .flush _ :: es, es' => lastWrites_append init es es'

theorem update_congr_at {f g : Nat → BlockData} {b : Nat} (h : f b = g b) (c : Nat) (x : BlockData) :
    Function.update f c x b = Function.update g c x b := by
  by_cases hb : b = c
  · subst hb
    rw [Function.update_self, Function.update_self]
  · rw [Function.update_of_ne hb, Function.update_of_ne hb, h]

theorem lastWrites_congr {b : Nat} : ∀ (es : List CacheEvent) {f g : Nat → BlockData}, f b = g b →
    lastWrites f es b = lastWrites g es b
  | [], _, _, h => h
  | .write c x (.ok _) :: es, _, _, h => lastWrites_congr es (update_congr_at h c x)
  | .write _ _ (.error _) :: es, _, _, h => lastWrites_congr es h
  | .read _ _ :: es, _, _, h => lastWrites_congr es h
  | .flush _ :: es, _, _, h => lastWrites_congr es h

/-- What holds after the events `es` on a disk that held `init`: a block reads as its last write that returned OK. -/
structure CacheInv (ss : SectorSize) (init : Nat → BlockData) (es : List CacheEvent) (d : Drive) : Prop where
  wf : d.WF
  fit : SlotsFit ss d
  content : d.content = lastWrites init es

theorem cacheInv_step {ss : SectorSize} {init : Nat → BlockData} (es : List CacheEvent) (d : Drive) (c : CacheCall)
    (h : CacheInv ss init es d) (hc : c.Fits ss) :
    CacheInv ss init (es ++ [(CacheCall.run ss d c).1]) (CacheCall.run ss d c).2 := by
  have hs := callStep h.wf h.fit hc
  exact ⟨hs.wf, hs.fit, by rw [hs.content, h.content, lastWrites_append]⟩

theorem slotsFit_cacheInit (ss : SectorSize) (d : Drive) : SlotsFit ss (cacheInit d) := fun _ => by
  simp [LbaFits, cacheInit]

/-- **The cache is transparent** in every run whose calls name blocks with 32-bit sector addresses, whatever transfers
fail. -/
theorem transparent_of_fits (ss : SectorSize) (d : Drive) (calls : List CacheCall) (hc : ∀ c ∈ calls, c.Fits ss) :
    Transparent ss d calls := by
  rintro before c after rfl
  have hinit : CacheInv ss d.disk [] (cacheInit d) :=
    ⟨cacheInit_wf d, slotsFit_cacheInit ss d, content_cacheInit d⟩
  obtain ⟨hwf, hfit, hcontent⟩ := run_keeps (A := fun _ _ c => c.Fits ss) cacheInv_step hinit before
    (allowed_of_forall (fun c' h' => hc c' (List.mem_append_left _ h')) (fun _ _ _ h => h) _)
  have hcf : c.Fits ss := hc c (by simp)
  have h := callStep hwf hfit hcf
  have hlast : ∀ b, LbaFits ss b → (run (CacheCall.run ss) (cacheInit d) before).2.content b =
      lastWrites (diskContent ss d) (run (CacheCall.run ss) (cacheInit d) before).1 b := fun b hb => by
    rw [hcontent]
    exact lastWrites_congr _ (by rw [diskContent, lbaBlock_of_fits hb])
  refine ⟨h.wf.unique, fun b x he => ?_, fun he b hb => ?_⟩
  · rw [h.read b x he]
    refine hlast b ?_
    cases c with
    | read b' =>
      simp only [CacheCall.run, CacheEvent.read.injEq] at he
      exact he.1 ▸ hcf
    | write => simp [CacheCall.run] at he
    | flush => simp [CacheCall.run] at he
  · have hc1 := h.content
    rw [he, content_of_flushed h.wf (h.flush he)] at hc1
    rw [diskContent, lbaBlock_of_fits hb, hc1]
    exact hlast b hb

def sector512 : SectorSize := ⟨512, by decide⟩

theorem transparent_blankDrive : Transparent sector512 blankDrive [.write 7 .zero, .read 7, .flush] :=
  transparent_of_fits sector512 blankDrive _ (by
    simp only [List.mem_cons, List.not_mem_nil, or_false, forall_eq_or_imp, forall_eq]
    decide)

/-- Block `2 ^ 29` has the address of block 0 on a disk with sectors of 512 bytes. -/
theorem not_transparent : ¬∀ (ss : SectorSize) (d : Drive) (calls : List CacheCall), Transparent ss d calls := by
  intro h
  have hflush := (h sector512 blankDrive [.write 0 (.bitmap fun _ => true), .write (2 ^ 29) .zero, .flush]
    [.write 0 (.bitmap fun _ => true), .write (2 ^ 29) .zero] .flush [] rfl).flush rfl 0 (by decide)
  have hbit := congrArg (fun x => x.bits 0) hflush
  exact absurd hbit (by decide)

end SmkFs
end AmitX
