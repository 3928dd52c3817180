import AmitX.Lib.Run
import AmitX.SmkFs.Mrt
/-!
# MrtRun — runs of the master record table

Allocations, updates and frees in any order from a formatted table, with transactions begun, committed, aborted and
checkpointed in between, on a disk without errors.  `malloc` may fail at any time, so that the journal may refuse any
entry.  A slot is allocated when its last issue is not freed yet, and its generation counts its issues.
-/
namespace AmitX
namespace SmkFs

open Prog Volume Run

inductive MrtCall
  | alloc
  | update (recordId newPhysicalBlock flags : Nat)
  | free (recordId : Nat)
  | startTransaction | commit | abort | checkpoint

/-- A call and what it returned; the calls on transactions return nothing of interest here. -/
inductive MrtEvent
  | alloc (result : Except Err (Nat × Nat))
  | update (recordId : Nat) (result : Except Err Unit)
  | free (recordId : Nat) (result : Except Err Unit)
  | transaction

def MrtEvent.error : MrtEvent → Option Err
  | .alloc (.error e) => some e
  | .update _ (.error e) => some e
  | .free _ (.error e) => some e
  | _ => none

def MrtCall.run (s : Mount) : MrtCall → MrtEvent × Mount
  | .alloc => (.alloc (mrtAllocEntry s).1, (mrtAllocEntry s).2)
  | .update id block flags => (.update id (mrtUpdateEntry id block flags s).1, (mrtUpdateEntry id block flags s).2)
  | .free id => (.free id (mrtFreeEntry id s).1, (mrtFreeEntry id s).2)
  | .startTransaction => (.transaction, (journalStartTransaction s).2)
  | .commit => (.transaction, (journalCommit s).2)
  | .abort => (.transaction, (journalAbort s).2)
  | .checkpoint => (.transaction, (journalCheckpoint s).2)

def liveStep (id : Nat) (b : Bool) : MrtEvent → Bool
  | .alloc (.ok (k, _)) => if k = id then true else b
  | .free k (.ok _) => if k = id then false else b
  | _ => b

def live (es : List MrtEvent) (id : Nat) : Bool := es.foldl (liveStep id) false

def MrtEvent.issues (id : Nat) : MrtEvent → Bool
  | .alloc (.ok (k, _)) => k == id
  | _ => false

def issues (es : List MrtEvent) (id : Nat) : Nat := es.countP (MrtEvent.issues id)

/-- Updates and frees name ids that are issued; an update keeps the ALLOCATED flag. -/
def MrtCall.Legal (es : List MrtEvent) (_ : Mount) : MrtCall → Prop
  | .update id _ flags => live es id = true ∧ flags.testBit 0 = true
  | .free id => live es id = true
  | _ => True

/-- The steps of `smkfs_mkfs` that set the table up. -/
def mrtSetup (start length : Nat) : FsM Unit := do
  mrtInit start length
  modifyMem (fun m => m.mapMrtFree (fun _ => m.sb.mrtCapacity - 1))
  mrtFormat start length

def Volume.allocatedSlots (v : Volume) : Nat :=
  Nat.count (fun id => (v.mrtEntry id).allocated = true) v.sb.mrtCapacity

theorem live_concat (es : List MrtEvent) (e : MrtEvent) (id : Nat) : live (es ++ [e]) id = liveStep id (live es id) e := by
  unfold live
  rw [List.foldl_append]
  rfl

theorem issues_concat (es : List MrtEvent) (e : MrtEvent) (id : Nat) :
    issues (es ++ [e]) id = issues es id + if e.issues id then 1 else 0 := by
  unfold issues
  rw [List.countP_append, List.countP_singleton]

theorem issues_append (es es' : List MrtEvent) (id : Nat) : issues (es ++ es') id = issues es id + issues es' id :=
  List.countP_append

/-! ## One slot changes -/

/-- Slot `id` has become `e` and the free count has gone through `f`; nothing else of the table has changed. -/
structure MrtSets (id : Nat) (e : MrtEntry) (f : Nat → Nat) (v v' : Volume) : Prop where
  layout : v'.sb.toLayout = v.sb.toLayout
  ring : v'.RingOk
  entry : ∀ k < v.sb.mrtCapacity, v'.mrtEntry k = Function.update v.mrtEntry id e k
  count : v'.sb.mrtFreeCount = f v.sb.mrtFreeCount

section

variable {v v' : Volume} {rid : Nat} {e : MrtEntry}

theorem mrtSets_log (hl : v.sb.toLayout.WF) (hr : v.RingOk) :
    MrtSets rid e id v ((v.setMrtEntry rid e).logMrtUpdate rid e) := by
  have hs := (logMrtUpdate_steps : JournalSteps _ ((v.setMrtEntry rid e).logMrtUpdate rid e)) hr
  refine ⟨hs.layout, hs.head, fun k hk => ?_, ?_⟩
  · rw [sameMrt_of_view (v := v.setMrtEntry rid e) hl hs.layout hs.view k hk, mrtEntry_setMrtEntry]
  · rw [hs.counters]
    rfl

theorem mrtSets_mapMrtFree {f : Nat → Nat} (h : MrtSets rid e id v v') :
    MrtSets rid e f v (v'.mapMem (Mem.mapMrtFree f)) :=
  ⟨h.layout, h.ring, h.entry, congrArg f h.count⟩

theorem mrtSets_same (hr : v.RingOk) : MrtSets 0 (v.mrtEntry 0) id v (v.setMrtEntry rid (v.mrtEntry rid)) :=
  ⟨rfl, hr, fun k _ => by rw [mrtEntry_setMrtEntry, Function.update_eq_self, Function.update_eq_self], rfl⟩

theorem sameMrt_of_sets {f : Nat → Nat} (h : MrtSets rid (v.mrtEntry rid) f v v') : SameMrt v v' := fun k hk => by
  rw [h.entry k hk, Function.update_eq_self]

theorem mrtSets_of_steps (hl : v.sb.toLayout.WF) (hr : v.RingOk) (h : JournalSteps v v') :
    MrtSets 0 (v.mrtEntry 0) id v v' := by
  have hs := h hr
  refine ⟨hs.layout, hs.head, fun k hk => ?_, by rw [hs.counters]; rfl⟩
  rw [sameMrt_of_view hl hs.layout hs.view k hk, Function.update_eq_self]

theorem allocatedSlots_of_sets {f : Nat → Nat} (h : MrtSets rid e f v v') (hid : rid < v.sb.mrtCapacity) :
    v'.allocatedSlots + (if (v.mrtEntry rid).allocated then 1 else 0) =
      v.allocatedSlots + if e.allocated then 1 else 0 := by
  have hcount : ∀ n ≤ v.sb.mrtCapacity,
      Nat.count (fun k => (v'.mrtEntry k).allocated = true) n +
          (if rid < n ∧ (v.mrtEntry rid).allocated = true then 1 else 0) =
        Nat.count (fun k => (v.mrtEntry k).allocated = true) n +
          if rid < n ∧ e.allocated = true then 1 else 0 := by
    intro n
    induction n with
    | zero => intro _; simp
    | succ n ih =>
      intro hn
      have ih := ih (by omega)
      rw [Nat.count_succ, Nat.count_succ, h.entry n (by omega)]
      by_cases hr : n = rid
      · subst hr
        rw [Function.update_self]
        simp only [Nat.lt_irrefl, false_and, if_false, Nat.lt_succ_self, true_and] at ih ⊢
        omega
      · rw [Function.update_of_ne hr]
        have : rid < n + 1 ↔ rid < n := by omega
        simp only [this]
        omega
  have := hcount v.sb.mrtCapacity (Nat.le_refl _)
  simp only [hid, true_and] at this
  unfold Volume.allocatedSlots
  rw [h.layout]
  exact this

end

theorem allocatedSlots_le_of_zero {v : Volume} (hpos : 0 < v.sb.mrtCapacity) (h : (v.mrtEntry 0).allocated = false) :
    v.allocatedSlots ≤ v.sb.mrtCapacity - 1 := by
  unfold Volume.allocatedSlots
  obtain ⟨n, hn⟩ := Nat.exists_eq_succ_of_ne_zero (Nat.pos_iff_ne_zero.1 hpos)
  rw [hn, Nat.succ_eq_add_one, Nat.count_succ', h]
  exact Nat.count_le _

/-! ## The invariant -/

structure MrtInv (es : List MrtEvent) (v : Volume) : Prop where
  layout : v.sb.toLayout.WF
  capacity : v.sb.mrtCapacity < 2 ^ 64
  ring : v.RingOk
  inRange : ∀ id, live es id = true → id < v.sb.mrtCapacity
  live : ∀ id < v.sb.mrtCapacity, (v.mrtEntry id).allocated = live es id
  zero : SmkFs.live es 0 = false
  generation : ∀ id < v.sb.mrtCapacity, (v.mrtEntry id).generation = issues es id % 2 ^ 32
  count : v.sb.mrtFreeCount + 1 + v.allocatedSlots = v.sb.mrtCapacity

/-- What a call has done to the table and told its caller. -/
structure MrtStep (es : List MrtEvent) (v : Volume) (ev : MrtEvent) (v' : Volume) : Prop where
  inv : MrtInv (es ++ [ev]) v'
  issued : ∀ id g, ev = .alloc (.ok (id, g)) → id ≠ 0 ∧ live es id = false ∧ g = (issues es id + 1) % 2 ^ 32
  refused : ev.error = some .journal → SameMrt v v'

section

variable {es : List MrtEvent} {ev : MrtEvent} {v v' : Volume} {rid : Nat} {e : MrtEntry} {f : Nat → Nat}

theorem mrtInv_of_sets (h : MrtInv es v) (hs : MrtSets rid e f v v') (hid : rid < v.sb.mrtCapacity)
    (hlive : ∀ k, live (es ++ [ev]) k = Function.update (live es) rid e.allocated k)
    (hzero : rid = 0 → e.allocated = false) (hgen : e.generation = issues (es ++ [ev]) rid % 2 ^ 32)
    (hissues : ∀ k, k ≠ rid → issues (es ++ [ev]) k = issues es k)
    (hcount : f v.sb.mrtFreeCount + 1 + v'.allocatedSlots = v.sb.mrtCapacity) : MrtInv (es ++ [ev]) v' := by
  refine ⟨by rw [hs.layout]; exact h.layout, by rw [hs.layout]; exact h.capacity, hs.ring, fun k hk => ?_,
    fun k hk => ?_, ?_, fun k hk => ?_, by rw [hs.count, hs.layout]; exact hcount⟩
  · rw [hs.layout]
    rw [hlive k] at hk
    by_cases hkr : k = rid
    · rwa [hkr]
    · rw [Function.update_of_ne hkr] at hk
      exact h.inRange k hk
  · rw [hs.layout] at hk
    rw [hs.entry k hk, hlive k]
    by_cases hkr : k = rid
    · rw [hkr, Function.update_self, Function.update_self]
    · rw [Function.update_of_ne hkr, Function.update_of_ne hkr]
      exact h.live k hk
  · rw [hlive 0]
    by_cases h0 : 0 = rid
    · rw [← h0, Function.update_self]
      exact hzero h0.symm
    · rw [Function.update_of_ne h0]
      exact h.zero
  · rw [hs.layout] at hk
    rw [hs.entry k hk]
    by_cases hkr : k = rid
    · rw [hkr, Function.update_self]
      exact hgen
    · rw [Function.update_of_ne hkr, hissues k hkr]
      exact h.generation k hk

theorem mrtInv_of_same (h : MrtInv es v) (hid : rid < v.sb.mrtCapacity)
    (hs : MrtSets rid (v.mrtEntry rid) id v v') (hlive : ∀ k, live (es ++ [ev]) k = live es k)
    (hissues : ∀ k, issues (es ++ [ev]) k = issues es k) : MrtInv (es ++ [ev]) v' := by
  refine mrtInv_of_sets h hs hid (fun k => ?_) (fun h0 => ?_) ?_ (fun k _ => hissues k) ?_
  · rw [hlive k, h.live rid hid, Function.update_eq_self]
  · rw [h.live rid hid, h0, h.zero]
  · rw [h.generation rid hid, hissues rid]
  · have := allocatedSlots_of_sets hs hid
    have hc := h.count
    rw [id_eq]
    omega

theorem mrtStep_of_same (h : MrtInv es v) (hs : MrtSets 0 (v.mrtEntry 0) id v v')
    (hlive : ∀ k, liveStep k (live es k) ev = live es k) (hissues : ∀ k, ev.issues k = false) : MrtStep es v ev v' := by
  have hpos : 0 < v.sb.mrtCapacity := by
    have := h.count
    omega
  refine ⟨mrtInv_of_same h hpos hs (fun k => by rw [live_concat, hlive]) (fun k => by simp [issues_concat, hissues]),
    fun id g he => ?_, fun _ => sameMrt_of_sets hs⟩
  subst he
  simpa [MrtEvent.issues] using hissues id

theorem mrtSets_refl (h : MrtInv es v) : MrtSets 0 (v.mrtEntry 0) id v v :=
  mrtSets_of_steps h.layout h.ring (JournalSteps.refl v)

theorem add32_succ (n : Nat) : add32 (n % 2 ^ 32) 1 = (n + 1) % 2 ^ 32 := by
  unfold add32
  omega

theorem taken_allocated (e : MrtEntry) : e.taken.allocated = true := by
  simp [MrtEntry.taken, MrtEntry.allocated, mrtfAllocated]

theorem updated_allocated (e : MrtEntry) (b : Nat) {flags : Nat} (h : flags.testBit 0 = true) :
    (e.updated b flags).allocated = true := by
  unfold MrtEntry.updated MrtEntry.allocated
  rw [Nat.testBit_or, h, Bool.or_true]

theorem freed_allocated (e : MrtEntry) : e.freed.allocated = false := by
  simp [MrtEntry.freed, MrtEntry.allocated]

theorem mrtStep_alloc (h : MrtInv es v) (hne : rid ≠ 0) (hid : rid < v.sb.mrtCapacity)
    (hfree : (v.mrtEntry rid).allocated = false) :
    MrtStep es v (.alloc (.ok (rid, (v.mrtEntry rid).taken.generation))) (v.takeMrt rid) := by
  have hs : MrtSets rid (v.mrtEntry rid).taken (fun n => sub64 n 1) v (v.takeMrt rid) :=
    mrtSets_mapMrtFree (mrtSets_log h.layout h.ring)
  have hgen : (v.mrtEntry rid).taken.generation = (issues es rid + 1) % 2 ^ 32 := by
    rw [MrtEntry.taken, h.generation rid hid, add32_succ]
  have hissues : ∀ k, issues (es ++ [.alloc (.ok (rid, (v.mrtEntry rid).taken.generation))]) k =
      issues es k + if rid = k then 1 else 0 := fun k => by
    simp [issues_concat, MrtEvent.issues]
  refine ⟨mrtInv_of_sets h hs hid (fun k => ?_) (fun h0 => absurd h0 hne) ?_ (fun k hk => ?_) ?_, ?_, ?_⟩
  · rw [live_concat, liveStep, taken_allocated]
    by_cases hk : k = rid
    · rw [hk, Function.update_self, if_pos rfl]
    · rw [Function.update_of_ne hk, if_neg (Ne.symm hk)]
  · rw [hissues, if_pos rfl]
    exact hgen
  · rw [hissues, if_neg (Ne.symm hk), Nat.add_zero]
  · have hcount := allocatedSlots_of_sets hs hid
    rw [hfree, taken_allocated, if_neg (by decide), if_pos rfl, Nat.add_zero] at hcount
    have hzero : ((v.takeMrt rid).mrtEntry 0).allocated = false := by
      rw [hs.entry 0 (by omega), Function.update_of_ne (Ne.symm hne), h.live 0 (by omega), h.zero]
    have hle := allocatedSlots_le_of_zero (v := v.takeMrt rid) (by rw [hs.layout]; omega) hzero
    rw [hs.layout] at hle
    have := h.count
    have := h.capacity
    rw [sub64_of_le (by omega) (by omega)]
    omega
  · intro id g he
    simp only [MrtEvent.alloc.injEq, Except.ok.injEq, Prod.mk.injEq] at he
    obtain ⟨rfl, rfl⟩ := he
    exact ⟨hne, by rw [← h.live rid hid]; exact hfree, hgen⟩
  · intro he
    simp [MrtEvent.error] at he

theorem mrtStep_update (h : MrtInv es v) (hlive : live es rid = true) (block : Nat) {flags : Nat}
    (hflags : flags.testBit 0 = true) :
    MrtStep es v (.update rid (.ok ())) ((v.setMrtEntry rid ((v.mrtEntry rid).updated block flags)).logMrtUpdate rid
      ((v.mrtEntry rid).updated block flags)) := by
  have hs := @mrtSets_log v rid ((v.mrtEntry rid).updated block flags) h.layout h.ring
  have hid := h.inRange rid hlive
  refine ⟨mrtInv_of_sets h hs hid (fun k => ?_) (fun h0 => ?_) ?_ (fun k _ => ?_) ?_, fun _ _ he => by simp at he,
    fun he => by simp [MrtEvent.error] at he⟩
  · have hstep : liveStep k (live es k) (.update rid (.ok ())) = live es k := rfl
    rw [live_concat, hstep, updated_allocated _ _ hflags, ← hlive, Function.update_eq_self]
  · rw [h0, h.zero] at hlive
    exact absurd hlive (by decide)
  · rw [issues_concat]
    exact h.generation rid hid
  · rw [issues_concat]
    rfl
  · have hcount := allocatedSlots_of_sets hs hid
    rw [h.live rid hid, hlive, updated_allocated _ _ hflags] at hcount
    have := h.count
    rw [id_eq]
    omega

theorem mrtStep_free (h : MrtInv es v) (hlive : live es rid = true) :
    MrtStep es v (.free rid (.ok ())) (v.freeMrt rid) := by
  have hs : MrtSets rid (v.mrtEntry rid).freed (fun n => add64 n 1) v (v.freeMrt rid) :=
    mrtSets_mapMrtFree (mrtSets_log h.layout h.ring)
  have hid := h.inRange rid hlive
  refine ⟨mrtInv_of_sets h hs hid (fun k => ?_) (fun _ => freed_allocated _) ?_ (fun k _ => ?_) ?_,
    fun _ _ he => by simp at he, fun he => by simp [MrtEvent.error] at he⟩
  · rw [live_concat, liveStep, freed_allocated]
    by_cases hk : k = rid
    · rw [hk, Function.update_self, if_pos rfl]
    · rw [Function.update_of_ne hk, if_neg (Ne.symm hk)]
  · rw [issues_concat]
    exact h.generation rid hid
  · rw [issues_concat]
    rfl
  · have hcount := allocatedSlots_of_sets hs hid
    rw [h.live rid hid, hlive, freed_allocated, if_pos rfl, if_neg (by decide), Nat.add_zero] at hcount
    have := h.count
    have := h.capacity
    rw [add64_of_lt (by omega)]
    omega

theorem mrtStep_transaction (h : MrtInv es v) (hj : JournalSteps v v') : MrtStep es v .transaction v' :=
  mrtStep_of_same h (mrtSets_of_steps h.layout h.ring hj) (fun _ => rfl) (fun _ => rfl)

theorem mrtStep_refused (h : MrtInv es v) (hlive : ∀ k, liveStep k (live es k) ev = live es k)
    (hissues : ∀ k, ev.issues k = false) (hv : v' = v ∨ ∃ rid, v' = v.setMrtEntry rid (v.mrtEntry rid)) :
    MrtStep es v ev v' := by
  rcases hv with rfl | ⟨rid, rfl⟩
  · exact mrtStep_of_same h (mrtSets_refl h) hlive hissues
  · exact mrtStep_of_same h (mrtSets_same h.ring) hlive hissues

end

/-- No transfer of the mount can fail, and the invariant links the events to its table. -/
structure MrtRunInv (es : List MrtEvent) (s : Mount) : Prop where
  disk : ¬s.DiskFaulty
  table : MrtInv es s.vol

theorem heapOnly {s : Mount} (h : ¬s.DiskFaulty) : (faultView False True).inv s := ⟨h, fun _ => trivial⟩

theorem mrtStep_run {es : List MrtEvent} {s : Mount} {c : MrtCall} (h : MrtRunInv es s) (hc : c.Legal es s) :
    ¬(MrtCall.run s c).2.DiskFaulty ∧ MrtStep es s.vol (MrtCall.run s c).1 (MrtCall.run s c).2.vol := by
  have hinv := h.table
  have hkeep : ∀ {p : FsM Unit}, AbsKeeps (faultView False True) JournalSteps p →
      ¬(p s).2.DiskFaulty ∧ MrtStep es s.vol .transaction (p s).2.vol := fun {p} hp => by
    obtain ⟨hi, hj⟩ := fwp_apply (P := fun _ v' => JournalSteps s.vol v') (hp s.vol) (heapOnly h.disk)
    exact ⟨hi.1, mrtStep_transaction hinv hj⟩
  cases c with
  | alloc =>
    have hw : fwp False True mrtAllocEntry (fun r v' => MrtStep es s.vol (.alloc (.ok r)) v')
        (fun e v' => MrtStep es s.vol (.alloc (.error e)) v') s.vol := by
      refine wpAbs_mono (fwp_mrtAllocEntry True hinv.layout) (fun r v' hr => ?_) (fun e v' he => ?_)
      · obtain ⟨id, hne, hid, hfree, _, rfl, rfl⟩ := hr
        exact mrtStep_alloc hinv hne hid hfree
      · refine mrtStep_refused hinv (fun _ => rfl) (fun _ => rfl) ?_
        rcases he with ⟨_, hv⟩ | ⟨_, hv, _⟩
        · exact Or.inr hv
        · exact Or.inl hv
    obtain ⟨hi, hs⟩ := fwp_apply (P := fun r v' => MrtStep es s.vol (.alloc r) v') hw (heapOnly h.disk)
    exact ⟨hi.1, hs⟩
  | update id block flags =>
    have hw : fwp False True (mrtUpdateEntry id block flags) (fun r v' => MrtStep es s.vol (.update id (.ok r)) v')
        (fun e v' => MrtStep es s.vol (.update id (.error e)) v') s.vol := by
      refine wpAbs_mono (fwp_mrtUpdateEntry True hinv.layout block flags) (fun r v' hr => ?_) (fun e v' he => ?_)
      · obtain ⟨_, rfl⟩ := hr
        exact mrtStep_update hinv hc.1 block hc.2
      · refine mrtStep_refused hinv (fun _ => rfl) (fun _ => rfl) ?_
        rcases he with ⟨_, hv⟩ | ⟨_, hv, _⟩
        · exact Or.inr ⟨id, hv⟩
        · exact Or.inl hv
    obtain ⟨hi, hs⟩ := fwp_apply (P := fun r v' => MrtStep es s.vol (.update id r) v') hw (heapOnly h.disk)
    exact ⟨hi.1, hs⟩
  | free id =>
    have hw : fwp False True (mrtFreeEntry id) (fun r v' => MrtStep es s.vol (.free id (.ok r)) v')
        (fun e v' => MrtStep es s.vol (.free id (.error e)) v') s.vol := by
      refine wpAbs_mono (fwp_mrtFreeEntry True hinv.layout) (fun r v' hr => ?_) (fun e v' he => ?_)
      · obtain ⟨_, rfl⟩ := hr
        exact mrtStep_free hinv hc
      · refine mrtStep_refused hinv (fun _ => rfl) (fun _ => rfl) ?_
        rcases he with ⟨_, hv⟩ | ⟨_, hv, _⟩
        · exact Or.inr ⟨id, hv⟩
        · exact Or.inl hv
    obtain ⟨hi, hs⟩ := fwp_apply (P := fun r v' => MrtStep es s.vol (.free id r) v') hw (heapOnly h.disk)
    exact ⟨hi.1, hs⟩
  | startTransaction => exact hkeep journalStartTransaction_steps
  | commit => exact hkeep journalCommit_steps
  | abort => exact hkeep journalAbort_steps
  | checkpoint => exact hkeep journalCheckpoint_steps

theorem mrtRunInv_step (es : List MrtEvent) (s : Mount) (c : MrtCall) (h : MrtRunInv es s) (hc : c.Legal es s) :
    MrtRunInv (es ++ [(MrtCall.run s c).1]) (MrtCall.run s c).2 :=
  ⟨(mrtStep_run h hc).1, (mrtStep_run h hc).2.inv⟩

/-! ## The promises of the table -/

/-- Every issue so far was of a slot other than 0 that was not issued, with the slot's next generation. -/
def MrtTrace (es : List MrtEvent) : Prop :=
  ∀ before id g after, es = before ++ .alloc (.ok (id, g)) :: after →
    id ≠ 0 ∧ live before id = false ∧ g = (issues before id + 1) % 2 ^ 32

theorem mrtTrace_concat {es : List MrtEvent} {ev : MrtEvent} (h : MrtTrace es)
    (hev : ∀ id g, ev = .alloc (.ok (id, g)) → id ≠ 0 ∧ live es id = false ∧ g = (issues es id + 1) % 2 ^ 32) :
    MrtTrace (es ++ [ev]) := by
  intro before id g after he
  rcases List.eq_nil_or_concat after with rfl | ⟨after', x, rfl⟩
  · obtain ⟨rfl, hx⟩ := List.append_inj' he rfl
    exact hev id g (by simpa using hx)
  · have he' : es ++ [ev] = (before ++ .alloc (.ok (id, g)) :: after') ++ [x] := by simpa using he
    obtain ⟨rfl, _⟩ := List.append_inj' he' rfl
    exact h before id g after' rfl

theorem mrtTrace_unique {es : List MrtEvent} (h : MrtTrace es) {a b c : List MrtEvent} {id g : Nat}
    (he : es = (a ++ .alloc (.ok (id, g)) :: b) ++ .alloc (.ok (id, g)) :: c) : 2 ^ 32 < issues es id := by
  obtain ⟨_, _, h1⟩ := h a id g (b ++ .alloc (.ok (id, g)) :: c) (by simp [he])
  obtain ⟨_, _, h2⟩ := h _ id g c he
  have hone : ∀ l : List MrtEvent, issues (.alloc (.ok (id, g)) :: l) id = issues l id + 1 := fun l => by
    unfold issues
    rw [List.countP_cons_of_pos]
    simp [MrtEvent.issues]
  rw [issues_append, hone] at h2
  rw [he, issues_append, issues_append, hone, hone]
  omega

/-- What the table promises in a run of calls from `s`. -/
structure MrtPromises (s : Mount) (calls : List MrtCall) : Prop where
  nonzero : ∀ g, MrtEvent.alloc (.ok (0, g)) ∉ (run MrtCall.run s calls).1
  fresh : ∀ before id g after, (run MrtCall.run s calls).1 = before ++ .alloc (.ok (id, g)) :: after →
    live before id = false
  unique : ∀ a b c id g, (run MrtCall.run s calls).1 = (a ++ .alloc (.ok (id, g)) :: b) ++ .alloc (.ok (id, g)) :: c →
    2 ^ 32 < issues (run MrtCall.run s calls).1 id
  count : (run MrtCall.run s calls).2.vol.sb.mrtFreeCount =
    (run MrtCall.run s calls).2.vol.sb.mrtCapacity - 1 - (run MrtCall.run s calls).2.vol.allocatedSlots
  refused : ∀ before c after, calls = before ++ c :: after →
    (MrtCall.run (run MrtCall.run s before).2 c).1.error = some .journal →
      SameMrt (run MrtCall.run s before).2.vol (MrtCall.run (run MrtCall.run s before).2 c).2.vol

theorem mrtPromises_of_inv {s : Mount} {calls : List MrtCall} (h : MrtRunInv [] s)
    (hlegal : Allowed MrtCall.run MrtCall.Legal s calls) : MrtPromises s calls := by
  have hinv := run_keeps (I := fun es s => MrtRunInv es s ∧ MrtTrace es)
    (fun es s c hi hc => ⟨mrtRunInv_step es s c hi.1 hc, mrtTrace_concat hi.2 (mrtStep_run hi.1 hc).2.issued⟩)
    (s := s) ⟨h, fun before id g after he => by simp at he⟩
  obtain ⟨hrun, htrace⟩ := hinv calls hlegal
  refine ⟨fun g hmem => ?_, fun before id g after he => (htrace before id g after he).2.1,
    fun a b c id g he => mrtTrace_unique htrace he, ?_, ?_⟩
  · obtain ⟨before, after, he⟩ := List.append_of_mem hmem
    exact (htrace before 0 g after he).1 rfl
  · have := hrun.table.count
    omega
  · rintro before c after rfl he
    exact (mrtStep_run (hinv before hlegal.left).1 hlegal.last).2.refused he

theorem fwp_mrtSetup {v : Volume} {start length : Nat} (H : Prop)
    (hl : (v.toMem.initMrt start length).sb.toLayout.WF) (hr : v.RingOk) (hlen : 0 < length) :
    fwp False H (mrtSetup start length) (fun _ v' => MrtInv [] v') (fun _ _ => False) v := by
  unfold mrtSetup mrtInit mrtFormat
  refine wpAbs_bind (vwp_modifyMem (wpAbs_bind (vwp_modifyMem ?_)))
  generalize hv1 : (v.mapMem (Mem.initMrt start length)).mapMem
    (fun m => m.mapMrtFree (fun _ => m.sb.mrtCapacity - 1)) = v1
  have hlay : v1.sb.toLayout = (v.toMem.initMrt start length).sb.toLayout := by rw [← hv1]; rfl
  have hring : v1.RingOk := by rw [← hv1]; exact hr
  have hfree : v1.sb.mrtFreeCount = v1.sb.mrtCapacity - 1 := by rw [← hv1]; rfl
  have hcap : v1.sb.mrtCapacity = mul64 length entriesPerBlock := by rw [hlay]; rfl
  have hcap' : v1.sb.mrtCapacity = length * entriesPerBlock := by rw [hlay, hl.capacity]; rfl
  have hstart : v1.sb.mrtStart = start := by rw [hlay]; rfl
  clear hv1
  have hloop := wpAbs_forRange (π := faultView False H) (F := fun _ _ => False)
    (b := fun i => writeBlock (start + i) (.mrt fun _ => mrtEmpty))
    (I := fun j v' => v'.toMem = v1.toMem ∧ ∀ i < j, v'.view (start + i) = .mrt fun _ => mrtEmpty) length 0
    (a := v1) ⟨rfl, fun i hi => by omega⟩ (fun j v' _ hj hI => ?_)
  · refine wpAbs_mono hloop (fun _ v' h => ?_) (fun _ _ h => h)
    obtain ⟨hmem, hview⟩ := h
    rw [Nat.zero_add] at hview
    have hentry : ∀ id < v'.sb.mrtCapacity, v'.mrtEntry id = mrtEmpty := fun id hid => by
      rw [hmem, hcap'] at hid
      rw [Volume.mrtEntry, Volume.mrtBlock, hmem, hstart,
        hview _ (Nat.div_lt_of_lt_mul (by rwa [Nat.mul_comm] at hid)), BlockData.mrtEntries_mrt]
    have hnone : v'.allocatedSlots = 0 := by
      unfold Volume.allocatedSlots
      refine Nat.count_of_forall_not (fun id hid ha => ?_)
      rw [hentry id hid] at ha
      exact absurd ha (by decide)
    have hE := entriesPerBlock_pos
    have hposc : 0 < length * entriesPerBlock := Nat.mul_pos hlen hE
    refine ⟨by rw [hmem, hlay]; exact hl, by rw [hmem, hcap]; unfold mul64; omega, by unfold RingOk; rw [hmem]; exact hring,
      fun id h => by simp [live] at h, fun id hid => ?_, rfl, fun id hid => ?_, ?_⟩
    · rw [hentry id hid]
      rfl
    · rw [hentry id hid]
      rfl
    · rw [hnone, hmem, hfree, hcap']
      omega
  · refine vwp_writeBlock ⟨hI.1, fun i hi => ?_⟩ (fun h => not_faulty (by rw [hI.1, hlay]; exact hl) h)
    rw [write_view]
    by_cases hij : i = j
    · rw [hij, Function.update_self]
    · rw [Function.update_of_ne (by omega)]
      exact hI.2 i (by omega)

/-- **The master record table in every run** of allocations, updates and frees of issued ids and transactions, from a
table set up on a disk without errors. -/
theorem mrt_promises (s : Mount) (start length : Nat) (hlen : 0 < length)
    (hl : (s.toMem.initMrt start length).sb.toLayout.WF) (hr : s.vol.RingOk) (hdisk : ¬s.DiskFaulty)
    (calls : List MrtCall) (hlegal : Allowed MrtCall.run MrtCall.Legal (mrtSetup start length s).2 calls) :
    (mrtSetup start length s).1 = .ok () ∧ MrtPromises (mrtSetup start length s).2 calls := by
  obtain ⟨hi, hok, hinv⟩ := fwp_apply (P := fun r v' => r = .ok () ∧ MrtInv [] v')
    (wpAbs_mono (fwp_mrtSetup (v := s.vol) True hl hr hlen) (fun _ _ h => ⟨rfl, h⟩) (fun _ _ h => h.elim))
    (heapOnly hdisk)
  exact ⟨hok, mrtPromises_of_inv ⟨hi.1, hinv⟩ hlegal⟩

def smallSuperblock : Superblock :=
  { totalBlocks := 16, sectorSize := 512, journalStart := 1, journalLength := 8, bitmapStart := 9, bitmapLength := 1,
    mrtStart := 0, mrtLength := 0, mrtCapacity := 0, dataStart := 11, freeBlocks := 5, recordCount := 0,
    mrtFreeCount := 0, rootRecordId := 0, clean := true, mountCount := 0, journalHead := 0, journalTail := 0,
    journalSequence := 1 }

theorem mrt_promises_small : (mrtSetup 10 1 (blankMount smallSuperblock)).1 = .ok () ∧
    MrtPromises (mrtSetup 10 1 (blankMount smallSuperblock)).2 [.startTransaction, .alloc, .free 1] :=
  mrt_promises (blankMount smallSuperblock) 10 1 (by decide)
    ⟨by decide, by decide, by decide, by decide, by decide, by decide, by decide +kernel, by decide +kernel, by decide⟩
    (by unfold RingOk; decide) (by rintro ⟨o, ho, -⟩; simp [blankMount, cacheInit, blankDrive] at ho) _ (by
      intro before c after he
      rcases before with _ | ⟨b0, _ | ⟨b1, _ | ⟨b2, before⟩⟩⟩
      · injection he with hc
        subst hc
        trivial
      · injection he with h0 he
        injection he with hc
        subst hc
        trivial
      · injection he with h0 he
        injection he with h1 he
        injection he with hc
        subst h0 h1 hc
        exact (by decide +kernel : live (run MrtCall.run (mrtSetup 10 1 (blankMount smallSuperblock)).2
          [.startTransaction, .alloc]).1 1 = true)
      · simp at he)

end SmkFs
end AmitX
