import AmitX.Lib.Run
import AmitX.Sched.Ready
/-!
# ReadyRun — the ready queues over runs of calls

Every call keeps the queues and their order, except for the calls named by `TaskCall.Harmless`: a priority changed at
either end of a queue, a ready task removed and left ready, a task that sleeps, blocks or is woken while it is queued, a
running task that has been destroyed.
-/
namespace AmitX
namespace Sched

open Links Run

def TaskCall.Requeues (t : Ptr) : TaskCall → Prop
  | .boost u _ => u = t
  | .unboost u => u = t
  | _ => False

/-- The queues after a call: what is left of each queue, in its order, and behind it at most one task that the call has
queued. -/
def Fifo (c : TaskCall) (Q Q' : Nat → List Ptr) : Prop :=
  ∀ p < 32, ∃ kept new, Q' p = kept ++ new ∧ kept.Sublist (Q p) ∧ new.length ≤ 1 ∧ ∀ t ∈ new, t ∈ Q p → c.Requeues t

def Tasks.Queued (s : Tasks) (t : Ptr) : Prop := ∃ p < 32, Reach s.ready.next (s.readyQueue p) t

/-- The arguments are what callers pass: tasks that exist, memory that no task has, a task to add that is not queued.  The
kernel calls `task_init` before there are tasks. -/
def TaskCall.Valid (s : Tasks) : TaskCall → Prop
  | .init idle _ reaper _ => (∀ t, ¬s.Live t) ∧ (idle = none ∨ idle ≠ reaper)
  | .create memory _ _ => ∀ t, memory = some t → ¬s.Live t
  | .add t => s.Live t ∧ ¬s.Queued t
  | .remove t => s.Live t
  | .boost t _ => s.Live t
  | .unboost t => s.Live t
  | .destroy t => s.Live t
  | _ => True

/-- A ready task gets another priority while it is the first or the last of its queue. -/
def Tasks.MovesEnd (s : Tasks) (t : Ptr) (prio : Nat) : Prop :=
  s.state t = .ready ∧ prio ≠ s.curPrio t ∧ (s.ready.prev t = none ∨ s.ready.next t = none)

def Tasks.CurrentLive (s : Tasks) : Prop := ∀ t, s.currentTask = some t → s.state t = .running → s.Live t

def TaskCall.Harmless (s : Tasks) : TaskCall → Prop
  | .init idle idleStack _ _ => idle = none ∨ idleStack = false
  | .remove t => s.state t ≠ .ready
  | .schedule => s.CurrentLive
  | .boost t newPrio => s.basePrio t < taskPrioRealtime → s.basePrio t < min newPrio taskPrioCritical →
      ¬s.MovesEnd t (min newPrio taskPrioCritical)
  | .unboost t => ¬s.MovesEnd t (s.basePrio t)
  | .sleep _ => ∀ t, s.currentTask = some t → s.state t ≠ .ready
  | .blockOn _ _ => ∀ t, s.currentTask = some t → s.state t ≠ .ready
  | .wakeOne q => ∀ t, s.waitHead q = some t → s.Live t ∧ s.state t ≠ .ready
  | _ => True

section

variable {s s' : Tasks} {Q Q' : Nat → List Ptr} {t : Ptr} {p : Nat} {c : TaskCall}

theorem fifo_refl (c : TaskCall) (Q : Nat → List Ptr) : Fifo c Q Q := fun p _ =>
  ⟨Q p, [], (List.append_nil _).symm, List.Sublist.refl _, by simp, by simp⟩

theorem fifo_append {K : Nat → List Ptr} (hK : ∀ p < 32, (K p).Sublist (Q p)) (ht : ∀ p < 32, t ∈ Q p → c.Requeues t)
    (p : Nat) : Fifo c Q (Function.update K p (K p ++ [t])) := by
  intro q hq
  by_cases hqp : q = p
  · subst hqp
    exact ⟨K q, [t], by rw [Function.update_self], hK q hq, by simp, fun u hu hm => by
      rw [List.mem_singleton] at hu
      subst hu
      exact ht q hq hm⟩
  · exact ⟨K q, [], by rw [Function.update_of_ne hqp, List.append_nil], hK q hq, by simp, by simp⟩

theorem fifo_erase (h : Fifo c Q Q') (p : Nat) (t : Ptr) : Fifo c Q (Function.update Q' p ((Q' p).erase t)) := by
  intro q hq
  obtain ⟨kept, new, hQ, hsub, hlen, hnew⟩ := h q hq
  by_cases hqp : q = p
  · subst hqp
    rw [Function.update_self, hQ, List.erase_append]
    split
    · exact ⟨kept.erase t, new, rfl, List.erase_sublist.trans hsub, hlen, hnew⟩
    · exact ⟨kept, new.erase t, rfl, hsub, List.erase_sublist.length_le.trans hlen,
        fun u hu => hnew u (List.mem_of_mem_erase hu)⟩
  · exact ⟨kept, new, by rw [Function.update_of_ne hqp, hQ], hsub, hlen, hnew⟩

def CallOk (c : TaskCall) (Q : Nat → List Ptr) (s' : Tasks) : Prop :=
  ∃ Q', ReadyInv s' Q' ∧ TableInv s' ∧ Fifo c Q Q'

theorem callOk_same (h : ReadyInv s Q) (hT : TableInv s) (hs : SameReady s s') : CallOk c Q s' :=
  ⟨Q, h.congr hs, hT.congr hs.curPrio hs.basePrio hs.taskTable, fifo_refl c Q⟩

theorem callOk_add (h : ReadyInv s Q) (hT : TableInv s) (hlive : s.Live t) (hne : s.state t ≠ .ready) :
    CallOk c Q (schedulerAdd t s) :=
  ⟨_, readyInv_add h hT hlive hne, hT.congr rfl rfl rfl, fifo_append (fun _ _ => List.Sublist.refl _)
    (fun q hq hm => absurd hm (h.not_mem (fun hr => hne hr.2) q hq)) _⟩

theorem readyInv_state (h : ReadyInv s Q) (hne : s.state t ≠ .ready) {x : TaskState} (hx : x ≠ .ready)
    (hs : SameReady { s with state := Function.update s.state t x } s') : ReadyInv s' Q := by
  refine ⟨h.toQueues.congr ⟨hs.ready, hs.readyQueue, hs.readyTail, hs.readyBitmap, hs.curPrio, hs.basePrio⟩,
    fun q hq u => ?_⟩
  rw [h.mem q hq u, hs.state, hs.curPrio, live_congr hs.taskTable]
  change _ ↔ s.Live u ∧ Function.update s.state t x u = .ready ∧ s.curPrio u = q
  by_cases hut : u = t
  · subst hut
    rw [Function.update_self]
    simp [hne, hx]
  · rw [Function.update_of_ne hut]

/-! ## The scheduler picks a queued task -/

theorem schedulerNext_spec (h : Queues s Q) : (schedulerNext s).2 = s ∧
    ∀ t, (schedulerNext s).1 = some t → ∃ p < 32, t ∈ Q p := by
  have hloop : ∃ r, schedulerNextLoop s (taskNumPrios + 1) s.readyBitmap = (r, s.readyBitmap) ∧
      ∀ t, r = some t → ∃ p < 32, t ∈ Q p := by
    have hmem : ∀ p < 32, ∀ t, s.readyQueue p = some t → ∃ p < 32, t ∈ Q p := fun p hp t ht =>
      ⟨p, hp, List.mem_of_mem_head? (by rw [← h.head p hp, ht]; rfl)⟩
    rw [schedulerNextLoop]
    by_cases h0 : s.readyBitmap = 0
    · rw [if_pos h0]
      exact ⟨_, rfl, hmem taskPrioIdle (by decide)⟩
    · rw [if_neg h0]
      have hne : s.readyBitmap.toNat ≠ 0 := fun hz => h0 (BitVec.eq_of_toNat_eq (by simpa using hz))
      have hlt : s.readyBitmap.toNat.log2 < 32 := (Nat.log2_lt hne).2 s.readyBitmap.isLt
      have hbit : s.readyBitmap.getLsbD s.readyBitmap.toNat.log2 = true := Nat.testBit_log2 hne
      have hQ := (h.bit _ hlt).1 hbit
      cases hq : s.readyQueue s.readyBitmap.toNat.log2 with
      | none =>
        rw [h.head _ hlt, List.head?_eq_none_iff] at hq
        exact absurd hq hQ
      | some t => exact ⟨some t, rfl, fun u hu => hmem _ hlt u (by rw [hq, hu])⟩
  obtain ⟨r, hr, hmem⟩ := hloop
  unfold schedulerNext
  rw [hr]
  exact ⟨rfl, hmem⟩

theorem schedulerRemove_fields (t : Ptr) (s : Tasks) : (schedulerRemove t s).state = s.state ∧
    (schedulerRemove t s).taskTable = s.taskTable ∧ (schedulerRemove t s).currentTask = s.currentTask := by
  unfold schedulerRemove
  split <;> exact ⟨rfl, rfl, rfl⟩

theorem schedulerRemove_of_ne (h : s.state t ≠ .ready) : schedulerRemove t s = s := by
  unfold schedulerRemove
  rw [if_pos h]

theorem readyInv_switchTo (h : ReadyInv s Q) (hT : TableInv s) (ht : ∃ p < 32, t ∈ Q p) :
    ReadyInv (switchTo t (schedulerRemove t s)) (Function.update Q (s.curPrio t) ((Q (s.curPrio t)).erase t)) ∧
      TableInv (switchTo t (schedulerRemove t s)) := by
  obtain ⟨p, hp, hm⟩ := ht
  obtain ⟨hlive, hr, -⟩ := (h.mem p hp t).1 hm
  have hfields := schedulerRemove_fields t s
  have hq : SameQueues (schedulerRemove t s) (switchTo t (schedulerRemove t s)) := ⟨rfl, rfl, rfl, rfl, rfl, rfl⟩
  have htab : (switchTo t (schedulerRemove t s)).taskTable = s.taskTable := hfields.2.1
  refine ⟨readyInv_leave h hT hlive hr hq (fun u => ?_), hT.congr ?_ ?_ htab⟩
  · rw [live_congr htab]
    change s.Live u ∧ Function.update (schedulerRemove t s).state t .running u = .ready ↔ _
    rw [hfields.1]
    by_cases hut : u = t
    · subst hut
      simp
    · rw [Function.update_of_ne hut]
      simp [hut]
  · exact (schedulerRemove_prio t s).1
  · exact (schedulerRemove_prio t s).2

theorem callOk_schedule (h : ReadyInv s Q) (hT : TableInv s) (hcur : s.CurrentLive) : CallOk c Q (schedule s) := by
  obtain ⟨hsame, hnext⟩ := schedulerNext_spec h.toQueues
  unfold schedule
  rw [hsame]
  cases hn : (schedulerNext s).1 with
  | none => exact callOk_same h hT (SameReady.refl s)
  | some next =>
    obtain ⟨p, hp, hm⟩ := hnext next hn
    simp only
    split
    · exact callOk_same h hT (SameReady.refl s)
    · rename_i hne
      have hrunning : ∀ old, s.currentTask = some old → s.state old = .running →
          CallOk c Q (switchTo next (schedulerRemove next (schedulerAdd old s))) := by
        intro old hold hrun
        have hno : s.state old ≠ .ready := by rw [hrun]; decide
        have h1 := readyInv_add h hT (hcur old hold hrun) hno
        have hT1 : TableInv (schedulerAdd old s) := hT.congr rfl rfl rfl
        obtain ⟨h2, hT2⟩ := readyInv_switchTo (t := next) h1 hT1 ⟨p, hp, mem_append_update.2 (Or.inl hm)⟩
        exact ⟨_, h2, hT2, fifo_erase (fifo_append (fun _ _ => List.Sublist.refl _)
          (fun q hq hmq => absurd hmq (h.not_mem (fun hr => hno hr.2) q hq)) _) _ _⟩
      have hidle : CallOk c Q (switchTo next (schedulerRemove next s)) := by
        obtain ⟨h2, hT2⟩ := readyInv_switchTo h hT ⟨p, hp, hm⟩
        exact ⟨_, h2, hT2, fifo_erase (fifo_refl c Q) _ _⟩
      unfold requeue
      cases hc : s.currentTask with
      | none => exact hidle
      | some old =>
        simp only
        split
        · exact hrunning old hc ‹_›
        · exact hidle

/-! ## Priorities -/

theorem callOk_changePrio {prio : Nat} (h : ReadyInv s Q) (hT : TableInv s) (hlive : s.Live t) (hprio : prio < 32)
    (hends : ¬s.MovesEnd t prio) (hc : c.Requeues t) : CallOk c Q (changePrio t prio s) := by
  have hT' : ∀ u, s.Live u → Function.update s.curPrio t prio u < 32 ∧ s.basePrio u < 32 := fun u hu => by
    by_cases hut : u = t
    · subst hut
      rw [Function.update_self]
      exact ⟨hprio, (hT.prio u hu).2⟩
    · rw [Function.update_of_ne hut]
      exact hT.prio u hu
  have hqs : Queues { s with curPrio := Function.update s.curPrio t prio } Q :=
    ⟨h.seg, h.nodup, h.head, h.tail, h.bit, h.disjoint⟩
  unfold changePrio
  simp only
  by_cases hr : s.state t = .ready
  · rw [if_pos hr]
    have hp := (hT.prio t hlive).1
    have hm : t ∈ Q (s.curPrio t) := (h.mem _ hp t).2 ⟨hlive, hr, rfl⟩
    have hmid : readyIndex (Function.update s.curPrio t prio t) = s.curPrio t ∨
        s.ready.prev t ≠ none ∧ s.ready.next t ≠ none := by
      rw [Function.update_self, readyIndex_of_lt hprio]
      by_cases hpp : prio = s.curPrio t
      · exact Or.inl hpp
      · refine Or.inr ⟨fun hprev => hends ⟨hr, hpp, Or.inl hprev⟩, fun hnext => hends ⟨hr, hpp, Or.inr hnext⟩⟩
    have hrem := queues_remove hqs hp hm hr hmid
    have hgone : ∀ q < 32, t ∉ Function.update Q (s.curPrio t) ((Q (s.curPrio t)).erase t) q := fun q hq hmq =>
      ((mem_erase_update h.toQueues hp hm hq).1 hmq).1 rfl
    have hfields := schedulerRemove_fields t { s with curPrio := Function.update s.curPrio t prio }
    have hlv : ∀ u, (schedulerAdd t (schedulerRemove t { s with curPrio := Function.update s.curPrio t prio })).Live u ↔
        s.Live u := fun u => live_congr hfields.2.1
    have hpr : readyIndex
        ((schedulerRemove t { s with curPrio := Function.update s.curPrio t prio }).curPrio t) = prio := by
      rw [(schedulerRemove_prio _ _).1]
      change readyIndex (Function.update s.curPrio t prio t) = prio
      rw [Function.update_self, readyIndex_of_lt hprio]
    refine ⟨_, ⟨queues_add hrem hpr hgone, fun q hq u => ?_⟩, ⟨fun u hu => ?_, ?_⟩, ?_⟩
    · rw [mem_append_update, mem_erase_update h.toQueues hp hm hq, h.mem q hq u, hlv u]
      change _ ↔ s.Live u ∧ Function.update (schedulerRemove t _).state t .ready u = .ready ∧
        (schedulerRemove t _).curPrio u = q
      rw [hfields.1, (schedulerRemove_prio _ _).1]
      change _ ↔ s.Live u ∧ Function.update s.state t .ready u = .ready ∧ Function.update s.curPrio t prio u = q
      by_cases hut : u = t
      · subst hut
        rw [Function.update_self, Function.update_self]
        constructor
        · rintro (⟨hne, -⟩ | ⟨-, rfl⟩)
          · exact absurd rfl hne
          · exact ⟨hlive, rfl, rfl⟩
        · rintro ⟨-, -, rfl⟩
          exact Or.inr ⟨rfl, rfl⟩
      · rw [Function.update_of_ne hut, Function.update_of_ne hut]
        simp [hut]
    · rw [hlv u] at hu
      change (schedulerRemove t _).curPrio u < 32 ∧ (schedulerRemove t _).basePrio u < 32
      rw [(schedulerRemove_prio _ _).1, (schedulerRemove_prio _ _).2]
      exact hT' u hu
    · exact oneSlot_congr (s := s) hfields.2.1 hT.slot
    · refine fifo_append (fun q hq => ?_) (fun _ _ _ => hc) _
      by_cases hqp : q = s.curPrio t
      · rw [hqp, Function.update_self]
        exact List.erase_sublist
      · rw [Function.update_of_ne hqp]
  · rw [if_neg hr]
    refine ⟨Q, ⟨hqs, fun q hq u => ?_⟩, ⟨hT', hT.slot⟩, fifo_refl c Q⟩
    rw [h.mem q hq u]
    change _ ↔ s.Live u ∧ s.state u = .ready ∧ Function.update s.curPrio t prio u = q
    by_cases hut : u = t
    · subst hut
      simp [hr]
    · rw [Function.update_of_ne hut]

theorem callOk_boost {newPrio : Nat} (h : ReadyInv s Q) (hT : TableInv s) (hlive : s.Live t)
    (hends : s.basePrio t < taskPrioRealtime → s.basePrio t < min newPrio taskPrioCritical →
      ¬s.MovesEnd t (min newPrio taskPrioCritical)) :
    CallOk (.boost t newPrio) Q (taskBoostPriority t newPrio s) := by
  unfold taskBoostPriority
  simp only
  split
  · exact callOk_same h hT (SameReady.refl s)
  · split
    · exact callOk_same h hT (SameReady.refl s)
    · refine callOk_changePrio h hT hlive ?_ (hends (by omega) (by omega)) rfl
      unfold taskPrioCritical
      omega

theorem callOk_unboost (h : ReadyInv s Q) (hT : TableInv s) (hlive : s.Live t)
    (hends : ¬s.MovesEnd t (s.basePrio t)) : CallOk (.unboost t) Q (taskUnboostPriority t s) := by
  unfold taskUnboostPriority
  split
  · exact callOk_same h hT (SameReady.refl s)
  · exact callOk_changePrio h hT hlive (hT.prio t hlive).2 hends rfl

/-! ## Sleeping, blocking, waking -/

theorem callOk_stop (h : ReadyInv s Q) (hT : TableInv s) (hcur : s.currentTask = some t) (hne : s.state t ≠ .ready)
    {x : TaskState} (hx : x ≠ .ready) (hx' : x ≠ .running)
    (hs : SameReady { s with state := Function.update s.state t x } s') : CallOk c Q (schedule s') := by
  refine callOk_schedule (readyInv_state h hne hx hs) (hT.congr hs.curPrio hs.basePrio hs.taskTable) (fun u hu hr => ?_)
  rw [hs.currentTask] at hu
  change s.currentTask = some u at hu
  rw [hcur] at hu
  rw [hs.state, ← Option.some.inj hu] at hr
  change Function.update s.state t x t = .running at hr
  rw [Function.update_self] at hr
  exact absurd hr hx'

theorem callOk_sleep (h : ReadyInv s Q) (hT : TableInv s)
    (hne : ∀ t, s.currentTask = some t → s.state t ≠ .ready) (ms : Nat) : CallOk c Q (taskSleep ms s) := by
  unfold taskSleep
  cases hc : s.currentTask with
  | none => exact callOk_same h hT (SameReady.refl s)
  | some t =>
    refine callOk_stop h hT hc (hne t hc) (x := .sleeping) (by decide) (by decide) ?_
    refine SameReady.trans ?_ (same_timerWheelInsert t _ _)
    exact ⟨⟨rfl, rfl, rfl, rfl, rfl, rfl⟩, rfl, rfl, hc.symm⟩

theorem callOk_blockOn (h : ReadyInv s Q) (hT : TableInv s)
    (hne : ∀ t, s.currentTask = some t → s.state t ≠ .ready) (q : QueuePtr) (timeoutMs : Nat) :
    CallOk c Q (taskBlockOn q timeoutMs s) := by
  unfold taskBlockOn
  cases hc : s.currentTask with
  | none => exact callOk_same h hT (SameReady.refl s)
  | some t =>
    simp only
    refine callOk_stop h hT hc (hne t hc) (x := .blocked) (by decide) (by decide) ?_
    split
    · refine SameReady.trans ?_ (same_taskQueuePush q t _)
      exact ⟨⟨rfl, rfl, rfl, rfl, rfl, rfl⟩, rfl, rfl, hc.symm⟩
    · refine SameReady.trans ?_ ((same_taskQueuePush q t _).trans (same_timerWheelInsert t _ _))
      exact ⟨⟨rfl, rfl, rfl, rfl, rfl, rfl⟩, rfl, rfl, hc.symm⟩

theorem callOk_wakeTask (h : ReadyInv s Q) (hT : TableInv s) (hs : SameReady s s') (hlive : s.Live t)
    (hne : s.state t ≠ .ready) : CallOk c Q (wakeTask t s') := by
  have hs2 : SameReady s { s' with sleepUntil := Function.update s'.sleepUntil t 0 } :=
    hs.trans ⟨⟨rfl, rfl, rfl, rfl, rfl, rfl⟩, rfl, rfl, rfl⟩
  refine callOk_add (h.congr hs2) (hT.congr hs2.curPrio hs2.basePrio hs2.taskTable)
    ((live_congr hs2.taskTable).2 hlive) ?_
  rw [hs2.state]
  exact hne

theorem callOk_wake (h : ReadyInv s Q) (hT : TableInv s) (tid : Nat) : CallOk c Q (taskWake tid s) := by
  unfold taskWake
  cases hf : taskFind s tid with
  | none => exact callOk_same h hT (SameReady.refl s)
  | some t =>
    simp only
    split
    · rename_i hsl
      exact callOk_wakeTask h hT (same_timerWheelRemove t s) (live_taskFind hf) (by rw [hsl]; decide)
    · exact callOk_same h hT (SameReady.refl s)

theorem callOk_wakeOne {q : QueuePtr} (h : ReadyInv s Q) (hT : TableInv s)
    (hq : ∀ t, s.waitHead q = some t → s.Live t ∧ s.state t ≠ .ready) : CallOk c Q (taskWakeOne q s) := by
  unfold taskWakeOne
  cases hw : s.waitHead q with
  | none => exact callOk_same h hT (SameReady.refl s)
  | some t =>
    exact callOk_wakeTask h hT ((same_taskQueueRemove q t s).trans ((same_timerWheelRemove t _).trans
      (same_setWakeReason t _ _))) (hq t hw).1 (hq t hw).2

/-! ## Creating and destroying -/

theorem same_forgetTask (t : Ptr) (s : Tasks) : SameQueues s (forgetTask t s) ∧ (forgetTask t s).state = s.state := by
  unfold forgetTask
  split <;> exact ⟨⟨rfl, rfl, rfl, rfl, rfl, rfl⟩, rfl⟩

theorem callOk_destroy (h : ReadyInv s Q) (hT : TableInv s) (hlive : s.Live t) : CallOk c Q (taskDestroy t s) := by
  have hfields := schedulerRemove_fields t s
  have hprio := schedulerRemove_prio t s
  have hs : SameReady (schedulerRemove t s) (leaveQueue t (timerWheelRemove t (schedulerRemove t s))) :=
    (same_timerWheelRemove t _).trans (same_leaveQueue t _)
  have htab := hs.taskTable.trans hfields.2.1
  have hslot : (leaveQueue t (timerWheelRemove t (schedulerRemove t s))).OneSlot := oneSlot_congr htab hT.slot
  have hq : SameQueues (schedulerRemove t s) (taskDestroy t s) := hs.toSameQueues.trans (same_forgetTask t _).1
  have hstate : (taskDestroy t s).state = s.state :=
    ((same_forgetTask t _).2.trans hs.state).trans hfields.1
  have hlv : ∀ u, (taskDestroy t s).Live u ↔ u ≠ t ∧ s.Live u := fun u =>
    (forgetTask_live hslot t u).trans (and_congr_right fun _ => live_congr htab)
  have hT' : TableInv (taskDestroy t s) := by
    refine ⟨fun u hu => ?_, forgetTask_slot hslot t⟩
    rw [hq.curPrio, hq.basePrio, hprio.1, hprio.2]
    exact hT.prio u ((hlv u).1 hu).2
  by_cases hr : s.state t = .ready
  · refine ⟨_, readyInv_leave h hT hlive hr hq (fun u => ?_), hT', fifo_erase (fifo_refl c Q) _ _⟩
    rw [hlv u, hstate, and_assoc]
  · have hq' : SameQueues s (taskDestroy t s) := by
      rw [schedulerRemove_of_ne hr] at hq
      exact hq
    refine ⟨Q, ⟨h.toQueues.congr hq', fun p hp u => ?_⟩, hT', fifo_refl c Q⟩
    rw [h.mem p hp u, hlv u, hstate, hq.curPrio, hprio.1]
    refine ⟨fun hu => ⟨⟨?_, hu.1⟩, hu.2⟩, fun hu => ⟨hu.1.2, hu.2⟩⟩
    rintro rfl
    exact hr hu.2.1

theorem queues_initTask (h : ReadyInv s Q) (hnew : ¬s.Live t) (priority : Nat) : Queues (initTask t priority s) Q := by
  have ht := h.not_mem (t := t) (fun hl => hnew hl.1)
  exact ⟨fun q hq => ((h.seg q hq).setNext (ht q hq) none).setPrev (ht q hq) none, h.nodup, h.head, h.tail, h.bit,
    h.disjoint⟩

theorem callOk_create (memory : Option Ptr) (stack : Bool) (priority : Nat) (h : ReadyInv s Q) (hT : TableInv s)
    (hnew : ∀ t, memory = some t → ¬s.Live t) : CallOk c Q (taskCreateArgPrio memory stack priority s) := by
  unfold taskCreateArgPrio
  cases hf : findSlot s Option.isNone with
  | none => exact callOk_same h hT (SameReady.refl s)
  | some slot =>
    cases hm : memory with
    | none => exact callOk_same h hT (SameReady.refl s)
    | some t =>
      have hnl := hnew t hm
      obtain ⟨hslot, hfree⟩ := findSlot_some hf
      have hfree : s.taskTable slot = none := by simpa using hfree
      have hqs := queues_initTask h hnl priority
      have hother : ∀ u, s.Live u → u ≠ t := by
        rintro u hu rfl
        exact hnl hu
      have hprio : ∀ u, s.Live u → (initTask t priority s).curPrio u = s.curPrio u ∧
          (initTask t priority s).basePrio u = s.basePrio u ∧ (initTask t priority s).state u = s.state u :=
        fun u hu => ⟨Function.update_of_ne (hother u hu) _ _, Function.update_of_ne (hother u hu) _ _,
          Function.update_of_ne (hother u hu) _ _⟩
      have hmem : ∀ q < 32, ∀ u, u ∈ Q q ↔ s.Live u ∧ (initTask t priority s).state u = .ready ∧
          (initTask t priority s).curPrio u = q := fun q hq u => by
        rw [h.mem q hq u]
        refine and_congr_right fun hu => ?_
        rw [(hprio u hu).1, (hprio u hu).2.2]
      simp only
      split
      · have hnone : ∀ q < 32, t ∉ Q q := h.not_mem (fun hl => hnl hl.1)
        have hcp : (initTask t priority s).curPrio t = min priority taskPrioCritical := Function.update_self _ _ _
        have hbp : (initTask t priority s).basePrio t = min priority taskPrioCritical := Function.update_self _ _ _
        have hlt : min priority taskPrioCritical < 32 := by
          unfold taskPrioCritical
          omega
        have htab : (schedulerAdd t { initTask t priority s with
            taskTable := Function.update s.taskTable slot (some t) }).taskTable =
            Function.update s.taskTable slot (some t) := rfl
        have hlv := live_enter hslot hfree htab
        refine ⟨_, ⟨queues_add ⟨hqs.seg, hqs.nodup, hqs.head, hqs.tail, hqs.bit, hqs.disjoint⟩ rfl hnone,
          fun q hq u => ?_⟩, ⟨fun u hu => ?_, oneSlot_enter hnl hT.slot htab⟩, fifo_append (fun _ _ => List.Sublist.refl _)
          (fun q hq hmq => absurd hmq (hnone q hq)) _⟩
        · rw [hlv u]
          change _ ↔ _ ∧ Function.update (initTask t priority s).state t .ready u = .ready ∧
            (initTask t priority s).curPrio u = q
          rw [mem_append_update, hmem q hq u]
          change _ ∨ u = t ∧ q = readyIndex ((initTask t priority s).curPrio t) ↔ _
          rw [hcp, readyIndex_of_lt hlt]
          by_cases hut : u = t
          · subst hut
            rw [Function.update_self, hcp]
            simp [hnl, eq_comm]
          · rw [Function.update_of_ne hut]
            simp [hut]
        · change (initTask t priority s).curPrio u < 32 ∧ (initTask t priority s).basePrio u < 32
          rcases (hlv u).1 hu with hu | rfl
          · rw [(hprio u hu).1, (hprio u hu).2.1]
            exact hT.prio u hu
          · rw [hcp, hbp]
            exact ⟨hlt, hlt⟩
      · refine ⟨Q, ⟨hqs, fun q hq u => hmem q hq u⟩, ⟨fun u hu => ?_, hT.slot⟩, fifo_refl c Q⟩
        rw [(hprio u hu).1, (hprio u hu).2.1]
        exact hT.prio u hu

theorem queues_nil (h : ReadyInv s Q) (hno : ∀ t, ¬s.Live t) : ∀ p < 32, Q p = [] := fun p hp =>
  List.eq_nil_iff_forall_not_mem.2 (fun t ht => hno t ((h.mem p hp t).1 ht).1)

theorem callOk_init {idle reaper : Option Ptr} {idleStack reaperStack : Bool} (h : ReadyInv s Q)
    (hno : ∀ t, ¬s.Live t) (hidle : idle = none ∨ idleStack = false) :
    CallOk c Q (taskInit idle idleStack reaper reaperStack s) := by
  unfold taskInit
  have hno1 : ∀ t, ¬{ s with taskTable := fun _ => none, currentTask := none, nextTid := 1 }.Live t := by
    rintro t ⟨i, -, hi⟩
    cases hi
  generalize hs : { s with taskTable := fun _ => none, currentTask := none, nextTid := 1 } = s1 at hno1
  simp only
  have h1 : ReadyInv s1 Q := by
    refine ⟨h.toQueues.congr (by rw [← hs]; exact ⟨rfl, rfl, rfl, rfl, rfl, rfl⟩), fun p hp t => ?_⟩
    rw [queues_nil h hno p hp]
    simp [hno1 t]
  have hT1 : TableInv s1 := ⟨fun t ht => absurd ht (hno1 t), fun i hi j _ t ht _ => absurd ⟨i, hi, ht⟩ (hno1 t)⟩
  rw [createdTask_none hidle]
  obtain ⟨Q1, h2, hT2, -⟩ := callOk_create (c := c) idle idleStack taskPrioNormal h1 hT1 (fun t _ => hno1 t)
  have hno2 : ∀ t, ¬(taskCreateArgPrio idle idleStack taskPrioNormal s1).Live t := fun t ht =>
    hno1 t ((live_taskCreateArgPrio hidle _ t).1 ht)
  obtain ⟨Q2, h3, hT3, hf⟩ := callOk_create (c := c) reaper reaperStack taskPrioCritical h2 hT2 (fun t _ => hno2 t)
  refine ⟨Q2, h3, hT3, fun p hp => ?_⟩
  rw [queues_nil h hno p hp, ← queues_nil h2 hno2 p hp]
  exact hf p hp

/-! ## Runs -/

theorem queued_of_ready (h : ReadyInv s Q) (hT : TableInv s) (hlive : s.Live t) (hr : s.state t = .ready) :
    s.Queued t := by
  have hp := (hT.prio t hlive).1
  refine ⟨s.curPrio t, hp, ?_⟩
  rw [h.head _ hp, reach_iff (h.seg _ hp)]
  exact (h.mem _ hp t).2 ⟨hlive, hr, rfl⟩

theorem callOk_run (h : ReadyInv s Q) (hT : TableInv s) (hv : c.Valid s) (hh : c.Harmless s) :
    CallOk c Q (c.run s) := by
  cases c with
  | init idle idleStack reaper reaperStack => exact callOk_init h hv.1 hh
  | create memory stack priority => exact callOk_create memory stack priority h hT hv
  | add t => exact callOk_add h hT hv.1 (fun hr => hv.2 (queued_of_ready h hT hv.1 hr))
  | remove t =>
    change CallOk _ Q (schedulerRemove t s)
    rw [schedulerRemove_of_ne hh]
    exact callOk_same h hT (SameReady.refl s)
  | schedule => exact callOk_schedule h hT hh
  | boost t newPrio => exact callOk_boost h hT hv hh
  | unboost t => exact callOk_unboost h hT hv hh
  | sleep ms => exact callOk_sleep h hT hh ms
  | wake tid => exact callOk_wake h hT tid
  | blockOn q timeoutMs => exact callOk_blockOn h hT hh q timeoutMs
  | wakeOne q => exact callOk_wakeOne h hT hh
  | destroy t => exact callOk_destroy h hT hv

def callStep (s : Tasks) (c : TaskCall) : TaskCall × Tasks := (c, c.run s)

theorem readyInv_bootTasks (memory : Tasks) : ReadyInv (bootTasks memory) (fun _ => []) ∧
    TableInv (bootTasks memory) := by
  have hno : ∀ t, ¬(bootTasks memory).Live t := by
    rintro t ⟨i, -, hi⟩
    cases hi
  refine ⟨⟨⟨fun _ _ => trivial, fun _ _ => List.nodup_nil, fun _ _ => rfl, fun _ _ => rfl, fun p _ => ?_, by simp⟩,
    fun p _ t => by simp [hno t]⟩, ⟨fun t ht => absurd ht (hno t), fun i hi j _ t ht _ => absurd ⟨i, hi, ht⟩ (hno t)⟩⟩
  change (0 : BitVec 32).getLsbD p = true ↔ _
  simp

def ReadyKept (s : Tasks) : Prop := ∃ Q, ReadyInv s Q ∧ TableInv s

/-- **The ready queues.** In every run from the empty scheduler whose calls are valid and harmless, each ready queue is a
well-formed list of exactly the ready tasks of its priority after every call, and a call leaves what stays in a queue in
its order and appends at most one task. -/
theorem ready_queues (memory : Tasks) (cs : List TaskCall)
    (hA : Allowed callStep (fun _ s c => c.Valid s ∧ c.Harmless s) (bootTasks memory) cs) :
    (∃ Q, ReadyInv (run callStep (bootTasks memory) cs).2 Q) ∧
      ∀ before c after, cs = before ++ c :: after →
        ∃ Q Q', ReadyInv (run callStep (bootTasks memory) before).2 Q ∧
          ReadyInv (run callStep (bootTasks memory) (before ++ [c])).2 Q' ∧ Fifo c Q Q' := by
  have hkept : ∀ ds, Allowed callStep (fun _ s c => c.Valid s ∧ c.Harmless s) (bootTasks memory) ds →
      ReadyKept (run callStep (bootTasks memory) ds).2 := fun ds hds =>
    run_keeps (I := fun _ s => ReadyKept s)
      (fun _ s c ⟨Q, h, hT⟩ ⟨hv, hh⟩ => by
        obtain ⟨Q', h', hT', -⟩ := callOk_run h hT hv hh
        exact ⟨Q', h', hT'⟩)
      ⟨_, readyInv_bootTasks memory⟩ ds hds
  refine ⟨?_, ?_⟩
  · obtain ⟨Q, h, -⟩ := hkept cs hA
    exact ⟨Q, h⟩
  · rintro before c after rfl
    obtain ⟨Q, h, hT⟩ := hkept before hA.left
    obtain ⟨hv, hh⟩ := hA.last
    obtain ⟨Q', h', -, hf⟩ := callOk_run h hT hv hh
    refine ⟨Q, Q', h, ?_, hf⟩
    rw [run_concat]
    exact h'

instance (s : Tasks) (t : Ptr) (prio : Nat) : Decidable (s.MovesEnd t prio) :=
  inferInstanceAs (Decidable (_ ∧ _ ∧ (_ ∨ _)))

/-- Three tasks of one priority; the second of the queue is boosted while the first runs. -/
def boostedBetween : List TaskCall :=
  [.create (some 1) true 8, .create (some 2) true 8, .create (some 3) true 8, .boost 2 16, .destroy 3]

theorem ready_queues_boosted : (∃ Q, ReadyInv (run callStep (bootTasks zeroTasks) boostedBetween).2 Q) ∧
    ∀ before c after, boostedBetween = before ++ c :: after →
      ∃ Q Q', ReadyInv (run callStep (bootTasks zeroTasks) before).2 Q ∧
        ReadyInv (run callStep (bootTasks zeroTasks) (before ++ [c])).2 Q' ∧ Fifo c Q Q' :=
  ready_queues zeroTasks boostedBetween <| by
    refine allowed_cons.2 ⟨⟨fresh_some (by decide +kernel), trivial⟩, ?_⟩
    refine allowed_cons.2 ⟨⟨fresh_some (by decide +kernel), trivial⟩, ?_⟩
    refine allowed_cons.2 ⟨⟨fresh_some (by decide +kernel), trivial⟩, ?_⟩
    refine allowed_cons.2 ⟨⟨(by decide +kernel : Tasks.Live _ 2),
      fun _ _ => (by decide : ¬Tasks.MovesEnd _ 2 16)⟩, ?_⟩
    exact allowed_cons.2 ⟨⟨(by decide +kernel : Tasks.Live _ 3), trivial⟩, allowed_nil _⟩

def boostedFirst : List TaskCall := [.create (some 1) true 8, .create (some 2) true 8, .boost 1 16]

/-- **The boosted task is still the first of its old queue**, and the queue no longer reaches the other task. -/
theorem not_ready_queues : ¬∀ (memory : Tasks) (cs : List TaskCall),
    Allowed callStep (fun _ s c => c.Valid s) (bootTasks memory) cs →
    ∃ Q, ReadyInv (run callStep (bootTasks memory) cs).2 Q := by
  intro hall
  obtain ⟨Q, h⟩ := hall zeroTasks boostedFirst <|
    allowed_cons.2 ⟨fresh_some (by decide +kernel), allowed_cons.2 ⟨fresh_some (by decide +kernel),
      allowed_cons.2 ⟨(by decide +kernel : Tasks.Live _ 1), allowed_nil _⟩⟩⟩
  have hhead : (run callStep (bootTasks zeroTasks) boostedFirst).2.readyQueue 8 = some 1 := by decide
  rw [h.head 8 (by decide)] at hhead
  have hprio := ((h.mem 8 (by decide) 1).1 (List.mem_of_mem_head? hhead)).2.2
  exact absurd hprio (by decide)

/-- `task_init` leaves the idle task in the queue of another priority. -/
example : (taskInit (some 1) true (some 2) true (bootTasks zeroTasks)).curPrio 1 = taskPrioIdle ∧
    (taskInit (some 1) true (some 2) true (bootTasks zeroTasks)).readyQueue taskPrioIdle = none ∧
    (taskInit (some 1) true (some 2) true (bootTasks zeroTasks)).readyQueue taskPrioNormal = some 1 := by
  decide

end

end Sched
end AmitX
