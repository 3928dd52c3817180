import AmitX.Sync.MutexRun
/-!
# Inherit — the priority that the owner of a mutex inherits

A task that waits for a mutex raises the owner to its own priority.  That lasts until the owner unlocks any mutex, it is
not handed on when the owner waits itself, and a task that takes a mutex inherits nothing from those on its queue.
-/
namespace AmitX
namespace Sync

open Sched Links Run

def Objects.WaitsFor (s : Objects) (m : MutexPtr) (t : Ptr) : Prop :=
  Reach s.tasks.wait.next (s.tasks.waitHead (mutexQueue m)) t

/-- **Priority inheritance**: a task that is not of the realtime ones is not lower than the tasks that wait for its
mutexes. -/
def Inherited (s : Objects) : Prop :=
  ∀ m t, (s.mutex m).owner = some t → s.tasks.basePrio t < taskPrioRealtime →
    ∀ w, s.WaitsFor m w → s.tasks.curPrio w ≤ s.tasks.curPrio t

def Objects.FreeOk (s : Objects) (m : MutexPtr) (self : Ptr) : Prop :=
  (s.mutex m).locked = false → s.tasks.basePrio self < taskPrioRealtime →
    ∀ w, s.WaitsFor m w → s.tasks.curPrio w ≤ s.tasks.curPrio self

/-- When a task that waits for the mutex raises its owner, the owner does not wait for the mutex of a lower task. -/
def Objects.ChainOk (s : Objects) (m : MutexPtr) (self : Ptr) : Prop :=
  (s.mutex m).locked = true → ∀ o, (s.mutex m).owner = some o → s.tasks.curPrio o < s.tasks.curPrio self →
    s.tasks.basePrio o < taskPrioRealtime → ∀ m' o', s.WaitsFor m' o → (s.mutex m').owner = some o' → o' ≠ o →
    s.tasks.basePrio o' < taskPrioRealtime → s.tasks.curPrio self ≤ s.tasks.curPrio o'

/-- When the owner of the mutex loses what it was raised by, none of the tasks that wait for its other mutexes is above
its base priority. -/
def Objects.UnlockOk (s : Objects) (m : MutexPtr) : Prop :=
  ∀ o, (s.mutex m).owner = some o → s.tasks.curPrio o ≠ (s.mutex m).ownerOrigPrio →
    s.tasks.basePrio o < taskPrioRealtime → ∀ m', m' ≠ m → (s.mutex m').owner = some o →
    ∀ w, s.WaitsFor m' w → w ≠ o → s.tasks.curPrio w ≤ s.tasks.basePrio o

def ObjectCall.KeepsBoosts (self : Ptr) (s : Objects) : ObjectCall → Prop
  | .trylock m => s.FreeOk m self
  | .lock m _ => s.FreeOk m self ∧ s.ChainOk m self
  | .unlock m => s.UnlockOk m
  | .resume => s.tasks.wakeReason self ≠ .timeout →
      ∀ m timeoutMs, s.inside self = some (.mutexLock m timeoutMs) → s.FreeOk m self ∧ s.ChainOk m self
  | _ => True

def SyncCall.KeepsBoosts (s : Objects) : SyncCall → Prop
  | .call c => ∀ self, s.tasks.currentTask = some self → c.KeepsBoosts self s
  | _ => True

structure PrioOk (s : Objects) : Prop where
  tasks : TasksOk s.tasks s.inside
  owner : ∀ m t, (s.mutex m).owner = some t → s.tasks.Live t
  locked : ∀ m, (s.mutex m).locked = (s.mutex m).owner.isSome
  prio : ∀ t, s.tasks.Live t → s.tasks.basePrio t ≤ s.tasks.curPrio t ∧ s.tasks.curPrio t < 32

section

variable {s s' : Objects} {m : MutexPtr} {t u : Ptr} {q : QueuePtr} {V : QueuePtr → List Ptr}

theorem waitsFor_iff (h : Waits s.tasks V) : s.WaitsFor m t ↔ t ∈ V (mutexQueue m) := reach_waitHead h

theorem PrioOk.waiter (h : PrioOk s) (hw : s.WaitsFor m t) : s.tasks.Live t := by
  obtain ⟨V, hV⟩ := h.tasks.waits
  exact ((hV.mem _ t).1 ((waitsFor_iff hV).1 hw)).1

theorem waitsFor_same (h : SameWaits s.tasks s'.tasks) : s'.WaitsFor m t ↔ s.WaitsFor m t := by
  unfold Objects.WaitsFor
  rw [h.wait, h.waitHead]

structure SamePrio (s s' : Objects) : Prop where
  mutex : s'.mutex = s.mutex
  live : ∀ t, s.tasks.Live t → s'.tasks.Live t
  prio : ∀ t, s.tasks.Live t → s'.tasks.curPrio t = s.tasks.curPrio t ∧ s'.tasks.basePrio t = s.tasks.basePrio t
  waits : ∀ m t, s'.WaitsFor m t → s.WaitsFor m t

theorem Inherited.same (h : Inherited s) (hp : PrioOk s) (hs : SamePrio s s') : Inherited s' := by
  intro m t ht hb w hw
  rw [hs.mutex] at ht
  have hl := hp.owner m t ht
  have hw' := hs.waits m w hw
  rw [(hs.prio t hl).2] at hb
  rw [(hs.prio t hl).1, (hs.prio w (hp.waiter hw')).1]
  exact h m t ht hb w hw'

theorem PrioOk.same (h : PrioOk s) (hs : SamePrio s s') (ht : TasksOk s'.tasks s'.inside)
    (hnew : ∀ t, s'.tasks.Live t → s.tasks.Live t ∨
      s'.tasks.basePrio t ≤ s'.tasks.curPrio t ∧ s'.tasks.curPrio t < 32) : PrioOk s' := by
  refine ⟨ht, fun m t hm => ?_, fun m => ?_, fun t hl => ?_⟩
  · rw [hs.mutex] at hm
    exact hs.live t (h.owner m t hm)
  · rw [hs.mutex]
    exact h.locked m
  · rcases hnew t hl with hl' | hp
    · rw [(hs.prio t hl').1, (hs.prio t hl').2]
      exact h.prio t hl'
    · exact hp

theorem PrioOk.same_table (h : PrioOk s) (hs : SamePrio s s') (ht : TasksOk s'.tasks s'.inside)
    (htab : s'.tasks.taskTable = s.tasks.taskTable) : PrioOk s' :=
  h.same hs ht (fun _ hl => Or.inl ((live_congr htab).1 hl))

theorem samePrio_of_tasks (hm : s'.mutex = s.mutex) (hs : SameWaits s.tasks s'.tasks)
    (hp : s'.tasks.curPrio = s.tasks.curPrio) (hb : s'.tasks.basePrio = s.tasks.basePrio) : SamePrio s s' :=
  ⟨hm, fun _ hl => (live_congr hs.taskTable).2 hl, fun _ _ => ⟨by rw [hp], by rw [hb]⟩,
    fun _ _ hw => (waitsFor_same hs).1 hw⟩

theorem samePrio_woken {reason : WakeReason} (hV : Waits s.tasks V) (hw : Woken t q reason s.tasks V s'.tasks)
    (hm : s'.mutex = s.mutex) : SamePrio s s' := by
  refine ⟨hm, fun u hl => hw.only.live.2 hl, fun u _ => ⟨by rw [hw.only.curPrio], by rw [hw.only.basePrio]⟩,
    fun m u hu => ?_⟩
  rw [waitsFor_iff hw.waits] at hu
  rw [waitsFor_iff hV]
  by_cases hq : mutexQueue m = q
  · rw [hq, Function.update_self] at hu
    rw [hq]
    exact List.mem_of_mem_erase hu
  · rw [Function.update_of_ne hq] at hu
    exact hu

/-! ## The steps that change no priority -/

theorem PrioOk.wakeOne (h : PrioOk s) (q : QueuePtr) : SamePrio s { s with tasks := taskWakeOne q s.tasks } ∧
    PrioOk { s with tasks := taskWakeOne q s.tasks } := by
  obtain ⟨V, hV⟩ := h.tasks.waits
  have hs : SamePrio s { s with tasks := taskWakeOne q s.tasks } ∧
      (taskWakeOne q s.tasks).taskTable = s.tasks.taskTable := by
    cases hw : s.tasks.waitHead q with
    | none =>
      rw [taskWakeOne_of_none hw]
      exact ⟨samePrio_of_tasks rfl (SameWaits.refl _) rfl rfl, rfl⟩
    | some t =>
      have hwk := woken_taskWakeOne hV hw
      exact ⟨samePrio_woken hV hwk rfl, hwk.only.taskTable⟩
  exact ⟨hs.1, h.same_table hs.1 (h.tasks.wakeOne q) hs.2⟩

theorem SamePrio.trans {s'' : Objects} (h : SamePrio s s') (h' : SamePrio s' s'') : SamePrio s s'' :=
  ⟨h'.mutex.trans h.mutex, fun t hl => h'.live t (h.live t hl),
    fun t hl => ⟨(h'.prio t (h.live t hl)).1.trans (h.prio t hl).1, (h'.prio t (h.live t hl)).2.trans (h.prio t hl).2⟩,
    fun m t hw => h.waits m t (h'.waits m t hw)⟩

theorem PrioOk.signalLoop (q : QueuePtr) : ∀ (n : Nat) (s : Objects), PrioOk s →
    SamePrio s { s with tasks := signalLoop q n s.tasks } ∧ PrioOk { s with tasks := signalLoop q n s.tasks }
  | 0, s, h => ⟨samePrio_of_tasks rfl (SameWaits.refl _) rfl rfl, h⟩
  | n + 1, s, h => by
    rw [Sync.signalLoop]
    split
    · obtain ⟨h1, h2⟩ := h.wakeOne q
      obtain ⟨h3, h4⟩ := PrioOk.signalLoop q n { s with tasks := taskWakeOne q s.tasks } h2
      exact ⟨h1.trans h3, h4⟩
    · exact ⟨samePrio_of_tasks rfl (SameWaits.refl _) rfl rfl, h⟩

theorem PrioOk.idle (h : PrioOk s) (hm : s'.mutex = s.mutex) (ht : s'.tasks = s.tasks) (hi : TasksOk s.tasks s'.inside) :
    SamePrio s s' ∧ PrioOk s' := by
  have hs : SamePrio s s' := samePrio_of_tasks hm (by rw [ht]; exact SameWaits.refl _) (by rw [ht]) (by rw [ht])
  exact ⟨hs, h.same_table hs (by rw [ht]; exact hi) (by rw [ht])⟩

theorem PrioOk.acquire (h : PrioOk s) (q : QueuePtr) : SamePrio s (spinlockAcquire q s) ∧ PrioOk (spinlockAcquire q s) :=
  h.idle rfl rfl h.tasks

theorem PrioOk.release (h : PrioOk s) (q : QueuePtr) : SamePrio s (spinlockRelease q s) ∧ PrioOk (spinlockRelease q s) :=
  h.idle rfl rfl h.tasks

theorem PrioOk.create {memory : Option Ptr} {stack : Bool} (h : PrioOk s)
    (hnew : ∀ t, memory = some t → ¬s.tasks.Live t) (priority : Nat) :
    SamePrio s { s with tasks := taskCreateArgPrio memory stack priority s.tasks } ∧
      PrioOk { s with tasks := taskCreateArgPrio memory stack priority s.tasks } := by
  obtain ⟨V, hV⟩ := h.tasks.waits
  have hV' := waits_create hV hnew stack priority
  have hother : ∀ u, s.tasks.Live u → memory ≠ some u := fun u hl hm => hnew u hm hl
  have hs : SamePrio s { s with tasks := taskCreateArgPrio memory stack priority s.tasks } := by
    refine ⟨rfl, fun u hl => (create_others (hother u hl) stack priority s.tasks).2.2.2.2.2.2 hl, fun u hl => ?_, fun m u hu => ?_⟩
    · have ho := create_others (hother u hl) stack priority s.tasks
      exact ⟨ho.2.2.2.1, ho.2.2.2.2.1⟩
    · rw [waitsFor_iff hV'] at hu
      exact (waitsFor_iff hV).2 hu
  refine ⟨hs, h.same hs (h.tasks.create hnew priority) (fun u hl => ?_)⟩
  by_cases hm : memory = some u
  · obtain ⟨-, hb, hc⟩ := create_new (hnew u hm) hm hl
    refine Or.inr ⟨?_, ?_⟩
    · change (taskCreateArgPrio memory stack priority s.tasks).basePrio u ≤ _
      exact Nat.le_of_eq (hb.trans hc.symm)
    · change (taskCreateArgPrio memory stack priority s.tasks).curPrio u < 32
      rw [hc]
      exact Nat.lt_of_le_of_lt (Nat.min_le_right _ _) (by decide)
  · exact Or.inl ((create_others hm stack priority s.tasks).2.2.2.2.2.1 hl)

/-! ## Taking a mutex -/

theorem PrioOk.take (h : PrioOk s) (hl : s.tasks.Live t) (hmutex : s'.mutex = (takeMutex m t s).mutex)
    (htasks : s'.tasks = s.tasks) (hi : s'.inside = s.inside) : PrioOk s' := by
  have hself : s'.mutex m = { locked := true, owner := some t, ownerOrigPrio := s.tasks.basePrio t } := by
    rw [hmutex]
    exact Function.update_self _ _ _
  have hother : ∀ m', m' ≠ m → s'.mutex m' = s.mutex m' := fun m' hm' => by
    rw [hmutex]
    exact Function.update_of_ne hm' _ _
  refine ⟨by rw [htasks, hi]; exact h.tasks, fun m' u hu => ?_, fun m' => ?_, by rw [htasks]; exact h.prio⟩
  · rw [htasks]
    by_cases hm' : m' = m
    · rw [hm', hself] at hu
      exact Option.some.inj hu ▸ hl
    · rw [hother m' hm'] at hu
      exact h.owner m' u hu
  · by_cases hm' : m' = m
    · rw [hm', hself]
      rfl
    · rw [hother m' hm']
      exact h.locked m'

theorem inherited_take (h : Inherited s) (hf : (s.mutex m).locked = false) (hmutex : s'.mutex = (takeMutex m t s).mutex)
    (htasks : s'.tasks = s.tasks) : Inherited s' ↔ s.FreeOk m t := by
  have hself : s'.mutex m = { locked := true, owner := some t, ownerOrigPrio := s.tasks.basePrio t } := by
    rw [hmutex]
    exact Function.update_self _ _ _
  have hother : ∀ m', m' ≠ m → s'.mutex m' = s.mutex m' := fun m' hm' => by
    rw [hmutex]
    exact Function.update_of_ne hm' _ _
  have hw : ∀ m u, s'.WaitsFor m u ↔ s.WaitsFor m u := fun m u => waitsFor_same (by rw [htasks]; exact SameWaits.refl _)
  unfold Inherited Objects.FreeOk
  rw [htasks]
  constructor
  · intro hall _ hb w hwt
    exact hall m t (by rw [hself]) hb w ((hw m w).2 hwt)
  · intro hfree m' u hu hb w hwt
    by_cases hm' : m' = m
    · subst hm'
      rw [hself] at hu
      rw [← Option.some.inj hu] at hb ⊢
      exact hfree hf hb w ((hw m' w).1 hwt)
    · rw [hother m' hm'] at hu
      exact h m' u hu hb w ((hw m' w).1 hwt)

/-! ## Waiting for a mutex -/

theorem boostOwner_curPrio (h : PrioOk s) (hl : s.tasks.Live t) {o : Ptr} (ho : (s.mutex m).owner = some o) :
    (boostOwner m t s).tasks.curPrio = if s.tasks.curPrio o < s.tasks.curPrio t ∧ s.tasks.basePrio o < taskPrioRealtime
      then Function.update s.tasks.curPrio o (s.tasks.curPrio t) else s.tasks.curPrio := by
  unfold boostOwner
  simp only [ho]
  by_cases hlt : s.tasks.curPrio o < s.tasks.curPrio t
  · rw [if_pos hlt]
    have hlo := h.owner m o ho
    have hp := h.prio o hlo
    have hpt := h.prio t hl
    have hmin : min (s.tasks.curPrio t) taskPrioCritical = s.tasks.curPrio t := Nat.min_eq_left (Nat.le_of_lt_succ hpt.2)
    change (taskBoostPriority o (s.tasks.curPrio t) s.tasks).curPrio = _
    unfold taskBoostPriority
    simp only [hmin]
    by_cases hrt : s.tasks.basePrio o < taskPrioRealtime
    · rw [if_neg (Nat.not_le.2 hrt), if_neg (by omega), if_pos ⟨hlt, hrt⟩]
      exact (same_changePrio o _ s.tasks).2.2.2
    · rw [if_pos (Nat.not_lt.1 hrt), if_neg (fun hc => hrt hc.2)]
  · rw [if_neg hlt, if_neg (fun hc => hlt hc.1)]

theorem boost_same (o : Ptr) (prio : Nat) (s : Tasks) : SameTasks s (taskBoostPriority o prio s) := by
  unfold taskBoostPriority
  simp only
  split
  · exact ⟨SameWaits.refl s, rfl, rfl⟩
  · split
    · exact ⟨SameWaits.refl s, rfl, rfl⟩
    · exact (same_changePrio _ _ _).1

theorem boostOwner_same (m : MutexPtr) (t : Ptr) (s : Objects) : SameTasks s.tasks (boostOwner m t s).tasks := by
  unfold boostOwner
  split
  · exact ⟨SameWaits.refl _, rfl, rfl⟩
  · split
    · exact boost_same _ _ _
    · exact ⟨SameWaits.refl _, rfl, rfl⟩

theorem PrioOk.boostOwner (h : PrioOk s) (hl : s.tasks.Live t) {o : Ptr} (ho : (s.mutex m).owner = some o) :
    PrioOk (boostOwner m t s) := by
  have hs := boostOwner_same m t s
  have hlv : ∀ u, (Sync.boostOwner m t s).tasks.Live u ↔ s.tasks.Live u := fun u => live_congr hs.taskTable
  obtain ⟨e1, -⟩ := boostOwner_fields m t s
  refine ⟨boostOwner_tasksOk h.tasks m t, fun m' u hu => ?_, fun m' => by rw [e1]; exact h.locked m', fun u hu => ?_⟩
  · rw [e1] at hu
    exact (hlv u).2 (h.owner m' u hu)
  · rw [boostOwner_curPrio h hl ho, hs.basePrio]
    have hu := h.prio u ((hlv u).1 hu)
    split
    · rename_i hc
      by_cases huo : u = o
      · subst huo
        rw [Function.update_self]
        exact ⟨by omega, (h.prio t hl).2⟩
      · rw [Function.update_of_ne huo]
        exact hu
    · exact hu

theorem PrioOk.wait (h : PrioOk s) (hl : s.tasks.Live t) (hne : s.tasks.state t ≠ .blocked) (w : Waiting)
    (waitMs : Nat) : PrioOk (waitOn w t waitMs s) ∧ (waitOn w t waitMs s).tasks.curPrio = s.tasks.curPrio ∧
      (waitOn w t waitMs s).tasks.basePrio = s.tasks.basePrio ∧
      ∀ m u, (waitOn w t waitMs s).WaitsFor m u ↔ s.WaitsFor m u ∨ u = t ∧ mutexQueue m = w.queue := by
  obtain ⟨V, hV⟩ := h.tasks.waits
  have hb := blocks_blockTask hV hl hne w.queue waitMs
  have hlv : ∀ u, (waitOn w t waitMs s).tasks.Live u ↔ s.tasks.Live u := fun u => hb.only.live
  refine ⟨⟨h.tasks.block hl hb, fun m u hu => (hlv u).2 (h.owner m u hu), h.locked, fun u hu => ?_⟩, hb.only.curPrio,
    hb.only.basePrio, fun m u => ?_⟩
  · change (blockTask w.queue t waitMs s.tasks).basePrio u ≤ (blockTask w.queue t waitMs s.tasks).curPrio u ∧
      (blockTask w.queue t waitMs s.tasks).curPrio u < 32
    rw [hb.only.curPrio, hb.only.basePrio]
    exact h.prio u ((hlv u).1 hu)
  · rw [waitsFor_iff (s := waitOn w t waitMs s) hb.waits, waitsFor_iff hV, mem_push]

theorem inherited_wait (h : PrioOk s) (hi : Inherited s) (hl : s.tasks.Live t) (hne : s.tasks.state t ≠ .blocked)
    (hlocked : (s.mutex m).locked = true) (timeoutMs waitMs : Nat) :
    PrioOk (waitOn (.mutexLock m timeoutMs) t waitMs (boostOwner m t s)) ∧
      (Inherited (waitOn (.mutexLock m timeoutMs) t waitMs (boostOwner m t s)) ↔ s.ChainOk m t) := by
  obtain ⟨o, ho⟩ : ∃ o, (s.mutex m).owner = some o := by
    have := h.locked m
    rw [hlocked] at this
    exact Option.isSome_iff_exists.1 this.symm
  have h1 := h.boostOwner hl ho
  obtain ⟨e1, e2, e3, e4⟩ := boostOwner_fields m t s
  have hsame := boostOwner_same m t s
  obtain ⟨h2, hc, hb, hw⟩ := h1.wait ((live_congr e4).2 hl) (by rw [e3]; exact hne) (.mutexLock m timeoutMs) waitMs
  refine ⟨h2, ?_⟩
  have hw' : ∀ m' u, (waitOn (.mutexLock m timeoutMs) t waitMs (Sync.boostOwner m t s)).WaitsFor m' u ↔
      s.WaitsFor m' u ∨ u = t ∧ m' = m := fun m' u => by
    rw [hw m' u, waitsFor_same hsame.toSameWaits]
    refine or_congr_right (and_congr_right fun _ => ⟨mutexQueue_inj, fun he => by rw [he]; rfl⟩)
  unfold Inherited Objects.ChainOk
  rw [hc, hb, hsame.basePrio]
  change (∀ m' u, ((Sync.boostOwner m t s).mutex m').owner = some u → _ → ∀ w, _ → _) ↔ _
  rw [e1, boostOwner_curPrio h hl ho]
  by_cases hboost : s.tasks.curPrio o < s.tasks.curPrio t ∧ s.tasks.basePrio o < taskPrioRealtime
  · rw [if_pos hboost]
    have hto : t ≠ o := by
      rintro rfl
      exact absurd hboost.1 (Nat.lt_irrefl _)
    constructor
    · intro hall _ o₁ ho₁ _ _ m' o' hwt ho' hne' hrt'
      rw [ho] at ho₁
      rw [← Option.some.inj ho₁] at hwt hne'
      have := hall m' o' ho' hrt' o ((hw' m' o).2 (Or.inl hwt))
      rw [Function.update_self, Function.update_of_ne hne'] at this
      exact this
    · intro hchain m' a ha hrt w hwt
      rcases (hw' m' w).1 hwt with hwt | ⟨rfl, rfl⟩
      · by_cases hwo : w = o
        · subst hwo
          by_cases hao : a = w
          · rw [hao]
          · rw [Function.update_self, Function.update_of_ne hao]
            exact hchain hlocked w ho hboost.1 hboost.2 m' a hwt ha hao hrt
        · have hle := hi m' a ha hrt w hwt
          rw [Function.update_of_ne hwo]
          by_cases hao : a = o
          · rw [hao, Function.update_self]
            rw [hao] at hle
            omega
          · rw [Function.update_of_ne hao]
            exact hle
      · rw [ho] at ha
        rw [← Option.some.inj ha, Function.update_self, Function.update_of_ne hto]
  · rw [if_neg hboost]
    constructor
    · intro _ _ o₁ ho₁ hlt hrt
      rw [ho] at ho₁
      rw [← Option.some.inj ho₁] at hlt hrt
      exact absurd ⟨hlt, hrt⟩ hboost
    · intro _ m' a ha hrt w hwt
      rcases (hw' m' w).1 hwt with hwt | ⟨rfl, rfl⟩
      · exact hi m' a ha hrt w hwt
      · rw [ho] at ha
        rw [← Option.some.inj ha] at hrt ⊢
        exact Nat.not_lt.1 (fun hlt => hboost ⟨hlt, hrt⟩)

/-! ## Unlocking -/

theorem unboost_same (o : Ptr) (s : Tasks) : SameTasks s (taskUnboostPriority o s) ∧
    (taskUnboostPriority o s).curPrio = Function.update s.curPrio o (s.basePrio o) := by
  unfold taskUnboostPriority
  split
  · rename_i he
    exact ⟨⟨SameWaits.refl s, rfl, rfl⟩, by rw [← he, Function.update_eq_self]⟩
  · exact ⟨(same_changePrio _ _ _).1, (same_changePrio _ _ _).2.2.2⟩

theorem unboostOwner_same (m : MutexPtr) (s : Objects) : SameTasks s.tasks (unboostOwner m s).tasks := by
  unfold unboostOwner
  split
  · exact ⟨SameWaits.refl _, rfl, rfl⟩
  · split
    · exact (unboost_same _ _).1
    · exact ⟨SameWaits.refl _, rfl, rfl⟩

theorem unboostOwner_curPrio (m : MutexPtr) (s : Objects) (u : Ptr) :
    ((unboostOwner m s).tasks.curPrio u = s.tasks.curPrio u ∧
      ∀ o, (s.mutex m).owner = some o → s.tasks.curPrio o ≠ (s.mutex m).ownerOrigPrio → u ≠ o) ∨
    (s.mutex m).owner = some u ∧ s.tasks.curPrio u ≠ (s.mutex m).ownerOrigPrio ∧
      (unboostOwner m s).tasks.curPrio u = s.tasks.basePrio u := by
  unfold unboostOwner
  split
  · rename_i ho
    refine Or.inl ⟨rfl, fun o he => ?_⟩
    rw [ho] at he
    cases he
  · rename_i o ho
    split
    · rename_i hne
      change (taskUnboostPriority o s.tasks).curPrio u = _ ∧ _ ∨ _ ∧ _ ∧ (taskUnboostPriority o s.tasks).curPrio u = _
      rw [(unboost_same o s.tasks).2]
      by_cases huo : u = o
      · subst huo
        rw [Function.update_self]
        exact Or.inr ⟨ho, hne, rfl⟩
      · rw [Function.update_of_ne huo]
        refine Or.inl ⟨rfl, fun o' he _ => ?_⟩
        rw [ho] at he
        exact Option.some.inj he ▸ huo
    · rename_i hne
      refine Or.inl ⟨rfl, fun o' he hne' => ?_⟩
      rw [ho] at he
      rw [← Option.some.inj he] at hne'
      exact absurd hne' hne

theorem PrioOk.unboostOwner (h : PrioOk s) (m : MutexPtr) : PrioOk (unboostOwner m s) := by
  have hs := unboostOwner_same m s
  have hmutex := (unboostOwner_keeps m s).mutex
  have hlv : ∀ u, (Sync.unboostOwner m s).tasks.Live u ↔ s.tasks.Live u := fun u => live_congr hs.taskTable
  refine ⟨unboostOwner_tasksOk h.tasks m, fun m' u hu => ?_, fun m' => by rw [hmutex]; exact h.locked m', fun u hu => ?_⟩
  · rw [hmutex] at hu
    exact (hlv u).2 (h.owner m' u hu)
  · have hp := h.prio u ((hlv u).1 hu)
    rw [hs.basePrio]
    rcases unboostOwner_curPrio m s u with ⟨he, -⟩ | ⟨-, -, he⟩
    · rw [he]
      exact hp
    · rw [he]
      exact ⟨Nat.le_refl _, by omega⟩

theorem PrioOk.freeMutex (h : PrioOk s) (m : MutexPtr) : PrioOk (freeMutex m s) := by
  have hself : (Sync.freeMutex m s).mutex m = { locked := false, owner := none, ownerOrigPrio := 0 } :=
    Function.update_self _ _ _
  have hother : ∀ m', m' ≠ m → (Sync.freeMutex m s).mutex m' = s.mutex m' := fun m' hm' => Function.update_of_ne hm' _ _
  refine ⟨h.tasks, fun m' u hu => ?_, fun m' => ?_, h.prio⟩
  · by_cases hm' : m' = m
    · rw [hm', hself] at hu
      cases hu
    · rw [hother m' hm'] at hu
      exact h.owner m' u hu
  · by_cases hm' : m' = m
    · rw [hm', hself]
      rfl
    · rw [hother m' hm']
      exact h.locked m'

theorem waitsFor_wakeOne (h : TasksOk s.tasks s.inside) {m' : MutexPtr} (hm : m' ≠ m) :
    Objects.WaitsFor { s with tasks := taskWakeOne (mutexQueue m) s.tasks } m' u ↔ s.WaitsFor m' u := by
  obtain ⟨V, hV⟩ := h.waits
  cases hw : s.tasks.waitHead (mutexQueue m) with
  | none => rw [taskWakeOne_of_none hw]
  | some t =>
    have hwk := (woken_taskWakeOne hV hw).waits
    rw [waitsFor_iff (s := { s with tasks := taskWakeOne (mutexQueue m) s.tasks }) hwk, waitsFor_iff hV,
      Function.update_of_ne (fun he => hm (mutexQueue_inj he))]

theorem inherited_unlock (h : PrioOk s) (hi : Inherited s) (m : MutexPtr) :
    PrioOk (mutexUnlock m s).2 ∧ (Inherited (mutexUnlock m s).2 ↔ s.UnlockOk m) := by
  obtain ⟨-, h0⟩ := h.acquire (mutexQueue m)
  have h1 := h0.unboostOwner m
  have h2 := h1.freeMutex m
  obtain ⟨hsame, h3⟩ := h2.wakeOne (mutexQueue m)
  have hmutex := (unboostOwner_keeps m (spinlockAcquire (mutexQueue m) s)).mutex
  have hst := unboostOwner_same m (spinlockAcquire (mutexQueue m) s)
  have hcur := unboostOwner_curPrio m (spinlockAcquire (mutexQueue m) s)
  refine ⟨(h3.release (mutexQueue m)).2, ?_⟩
  have hself : (mutexUnlock m s).2.mutex m = { locked := false, owner := none, ownerOrigPrio := 0 } :=
    Function.update_self _ _ _
  have hother : ∀ m', m' ≠ m → (mutexUnlock m s).2.mutex m' = s.mutex m' := fun m' hm' =>
    (Function.update_of_ne hm' _ _).trans (congrFun hmutex m')
  have hwaits : ∀ m' u, m' ≠ m → ((mutexUnlock m s).2.WaitsFor m' u ↔ s.WaitsFor m' u) := fun m' u hm' => by
    refine (waitsFor_wakeOne h2.tasks hm').trans ?_
    exact waitsFor_same (s := s) hst.toSameWaits
  have hprio : ∀ u, s.tasks.Live u → (mutexUnlock m s).2.tasks.curPrio u =
      (unboostOwner m (spinlockAcquire (mutexQueue m) s)).tasks.curPrio u ∧
      (mutexUnlock m s).2.tasks.basePrio u = s.tasks.basePrio u := fun u hu => by
    have hl : (unboostOwner m (spinlockAcquire (mutexQueue m) s)).tasks.Live u := (live_congr hst.taskTable).2 hu
    have hp := hsame.prio u hl
    exact ⟨hp.1, hp.2.trans (congrFun hst.basePrio u)⟩
  generalize (mutexUnlock m s).2 = s' at hself hother hwaits hprio
  generalize (unboostOwner m (spinlockAcquire (mutexQueue m) s)).tasks.curPrio = c at hprio hcur
  change ∀ u, (c u = s.tasks.curPrio u ∧ ∀ o, (s.mutex m).owner = some o →
    s.tasks.curPrio o ≠ (s.mutex m).ownerOrigPrio → u ≠ o) ∨ (s.mutex m).owner = some u ∧
    s.tasks.curPrio u ≠ (s.mutex m).ownerOrigPrio ∧ c u = s.tasks.basePrio u at hcur
  constructor
  · intro hall o ho hne hrt m' hm' ho' w hw hwo
    have hlo := h.owner m o ho
    have hlw := h.waiter hw
    have hle := hall m' o (by rw [hother m' hm']; exact ho') (by rw [(hprio o hlo).2]; exact hrt) w
      ((hwaits m' w hm').2 hw)
    rw [(hprio o hlo).1, (hprio w hlw).1] at hle
    have hco : c o = s.tasks.basePrio o := by
      rcases hcur o with ⟨-, hno⟩ | ⟨-, -, he⟩
      · exact absurd rfl (hno o ho hne)
      · exact he
    have hcw : c w = s.tasks.curPrio w := by
      rcases hcur w with ⟨he, -⟩ | ⟨hw', -, -⟩
      · exact he
      · rw [ho] at hw'
        exact absurd (Option.some.inj hw').symm hwo
    rw [hco, hcw] at hle
    exact hle
  · intro hok m' a ha hrt w hw
    have hm' : m' ≠ m := by
      rintro rfl
      rw [hself] at ha
      cases ha
    rw [hother m' hm'] at ha
    rw [hwaits m' w hm'] at hw
    have hla := h.owner m' a ha
    have hlw := h.waiter hw
    rw [(hprio a hla).2] at hrt
    rw [(hprio a hla).1, (hprio w hlw).1]
    have hle := hi m' a ha hrt w hw
    have hbw := (h.prio w hlw).1
    rcases hcur a with ⟨hca, -⟩ | ⟨hoa, hnea, hca⟩
    · rcases hcur w with ⟨hcw, -⟩ | ⟨-, -, hcw⟩
      · rw [hca, hcw]
        exact hle
      · rw [hca, hcw]
        omega
    · by_cases hwa : w = a
      · rw [hwa]
      · have hcw : c w = s.tasks.curPrio w := by
          rcases hcur w with ⟨he, -⟩ | ⟨hw', -, -⟩
          · exact he
          · rw [hoa] at hw'
            exact absurd (Option.some.inj hw').symm hwa
        rw [hca, hcw]
        exact hok a hoa hnea hrt m' hm' ha w hw hwa

/-! ## Steps -/

theorem inherited_quiet (h : PrioOk s) (hi : Inherited s) (hs : SamePrio s s' ∧ PrioOk s') {P : Prop} (hP : P) :
    PrioOk s' ∧ (Inherited s' ↔ P) :=
  ⟨hs.2, iff_of_true (hi.same h hs.1) hP⟩

theorem inherited_trylock (h : PrioOk s) (hi : Inherited s) (hl : s.tasks.Live t) (m : MutexPtr) :
    PrioOk (mutexTrylock m t s).2 ∧ (Inherited (mutexTrylock m t s).2 ↔ s.FreeOk m t) := by
  unfold Sync.mutexTrylock
  simp only
  split
  · rename_i hlocked
    have hlk : (s.mutex m).locked = true := hlocked
    have hfree : s.FreeOk m t := fun hf => by
      rw [hlk] at hf
      cases hf
    obtain ⟨hs, h1⟩ := h.acquire (mutexQueue m)
    obtain ⟨hs', h2⟩ := h1.release (mutexQueue m)
    exact inherited_quiet h hi ⟨hs.trans hs', h2⟩ hfree
  · rename_i hlocked
    have hf : (s.mutex m).locked = false := Bool.not_eq_true _ ▸ hlocked
    exact ⟨h.take hl rfl rfl rfl, inherited_take hi hf rfl rfl⟩

theorem inherited_lock (h : PrioOk s) (hi : Inherited s) (hl : s.tasks.Live t) (hne : s.tasks.state t ≠ .blocked)
    (m : MutexPtr) (timeoutMs : Nat) : PrioOk (mutexLock m timeoutMs t s).2 ∧
      (Inherited (mutexLock m timeoutMs t s).2 ↔ s.FreeOk m t ∧ s.ChainOk m t) := by
  unfold Sync.mutexLock
  simp only
  split
  · rename_i hlocked
    have hlk : (s.mutex m).locked = true := hlocked
    have hfree : s.FreeOk m t := fun hf => by
      rw [hlk] at hf
      cases hf
    obtain ⟨hs, h1⟩ := h.acquire (mutexQueue m)
    obtain ⟨h2, hiff⟩ := inherited_wait h1 (hi.same h hs) hl hne hlk timeoutMs
      (if timeoutMs = mutexWaitForever then taskNoTimeout else timeoutMs)
    exact ⟨h2, hiff.trans (and_iff_right hfree).symm⟩
  · rename_i hlocked
    have hf : (s.mutex m).locked = false := Bool.not_eq_true _ ▸ hlocked
    have hchain : s.ChainOk m t := fun hlk => by
      rw [hf] at hlk
      cases hlk
    exact ⟨h.take hl rfl rfl rfl, (inherited_take hi hf rfl rfl).trans (and_iff_left hchain).symm⟩

theorem prio_semTrywait (h : PrioOk s) (sem : SemPtr) (units : Nat) : SamePrio s (semTrywait sem units s).2 ∧
    PrioOk (semTrywait sem units s).2 := by
  unfold Sync.semTrywait
  simp only
  split <;> exact h.idle rfl rfl h.tasks

theorem prio_semWait (h : PrioOk s) (hl : s.tasks.Live t) (hne : s.tasks.state t ≠ .blocked) (sem : SemPtr)
    (units timeoutMs : Nat) : SamePrio s (semWait sem units timeoutMs t s).2 ∧
      PrioOk (semWait sem units timeoutMs t s).2 := by
  unfold Sync.semWait
  simp only
  split
  · exact h.idle rfl rfl h.tasks
  · obtain ⟨hs, h1⟩ := h.acquire (semQueue sem)
    obtain ⟨h2, hc, hb, hw⟩ := h1.wait hl hne (.semWait sem units timeoutMs)
      (if timeoutMs = semWaitForever then taskNoTimeout else timeoutMs)
    refine ⟨hs.trans ⟨rfl, fun u hu => ?_, fun u _ => ⟨congrFun hc u, congrFun hb u⟩, fun m u hu => ?_⟩, h2⟩
    · obtain ⟨V, hV⟩ := h1.tasks.waits
      exact (blocks_blockTask hV hl hne (semQueue sem) _).only.live.2 hu
    · exact ((hw m u).1 hu).resolve_right (fun he => semQueue_ne sem m he.2.symm)

theorem prio_semSignal (h : PrioOk s) (sem : SemPtr) (units : Nat) : SamePrio s (semSignal sem units s).2 ∧
    PrioOk (semSignal sem units s).2 := by
  obtain ⟨hs, h1⟩ : SamePrio s (addUnits sem units (spinlockAcquire (semQueue sem) s)) ∧
      PrioOk (addUnits sem units (spinlockAcquire (semQueue sem) s)) := h.idle rfl rfl h.tasks
  unfold Sync.semSignal
  simp only
  split
  · obtain ⟨hs2, h2⟩ := PrioOk.signalLoop (semQueue sem) taskMaxTasks _ h1
    obtain ⟨hs3, h3⟩ := h2.release (semQueue sem)
    exact ⟨(hs.trans hs2).trans hs3, h3⟩
  · obtain ⟨hs2, h2⟩ := h1.release (semQueue sem)
    exact ⟨hs.trans hs2, h2⟩

theorem inherited_resume (h : PrioOk s) (hi : Inherited s) (hne : s.tasks.state t ≠ .blocked) :
    PrioOk (resume t s).2 ∧ (Inherited (resume t s).2 ↔ ObjectCall.KeepsBoosts t s .resume) := by
  unfold Sync.resume
  cases hw : s.inside t with
  | none =>
    have hk : ObjectCall.KeepsBoosts t s .resume := fun _ m ms he => by
      rw [hw] at he
      cases he
    exact ⟨h, iff_of_true hi hk⟩
  | some w =>
    simp only
    have hl := (h.tasks.woken t w hw).1
    obtain ⟨hs, h1⟩ : SamePrio s { spinlockRelease w.queue s with inside := Function.update s.inside t none } ∧
        PrioOk { spinlockRelease w.queue s with inside := Function.update s.inside t none } :=
      h.idle rfl rfl (h.tasks.goOn hne)
    split
    · rename_i hto
      exact inherited_quiet h hi ⟨hs, h1⟩ (fun hr => absurd hto hr)
    · rename_i hto
      cases w with
      | mutexLock m ms =>
        obtain ⟨h2, hiff⟩ := inherited_lock h1 (hi.same h hs) hl hne m ms
        refine ⟨h2, hiff.trans ⟨fun hk _ m' ms' he => ?_, fun hk => hk hto m ms hw⟩⟩
        rw [hw] at he
        cases he
        exact hk
      | semWait sem units ms =>
        obtain ⟨hs2, h2⟩ := prio_semWait h1 hl hne sem units ms
        refine inherited_quiet h hi ⟨hs.trans hs2, h2⟩ (fun _ m' ms' he => ?_)
        rw [hw] at he
        cases he

theorem inherited_call {c : ObjectCall} (h : PrioOk s) (hi : Inherited s) (hl : s.tasks.Live t)
    (hne : s.tasks.state t ≠ .blocked) : PrioOk (c.run t s).2 ∧ (Inherited (c.run t s).2 ↔ c.KeepsBoosts t s) := by
  cases c with
  | trylock m => exact inherited_trylock h hi hl m
  | lock m timeoutMs => exact inherited_lock h hi hl hne m timeoutMs
  | unlock m => exact inherited_unlock h hi m
  | trywait sem units => exact inherited_quiet h hi (prio_semTrywait h sem units) trivial
  | wait sem units timeoutMs => exact inherited_quiet h hi (prio_semWait h hl hne sem units timeoutMs) trivial
  | signal sem units => exact inherited_quiet h hi (prio_semSignal h sem units) trivial
  | resume => exact inherited_resume h hi hne

theorem inherited_step {c : SyncCall} (h : PrioOk s) (hi : Inherited s) (hv : c.Valid s) :
    PrioOk (c.run s).2 ∧ (Inherited (c.run s).2 ↔ c.KeepsBoosts s) := by
  cases c with
  | create memory stack priority => exact inherited_quiet h hi (h.create hv priority) trivial
  | dispatch next =>
    obtain ⟨hsame, hcur⟩ := giveTo_same next s.tasks
    have hs : SamePrio s { s with tasks := giveTo next s.tasks } :=
      samePrio_of_tasks rfl hsame.toSameWaits hcur hsame.basePrio
    exact inherited_quiet h hi ⟨hs, h.same_table hs (h.tasks.giveTo hv.1 hv.2) hsame.taskTable⟩ trivial
  | expire t =>
    obtain ⟨V, hV⟩ := h.tasks.waits
    obtain ⟨w, -, hq⟩ := h.tasks.blocked t hv.1 hv.2
    have hwk := woken_fireTimer hV hv.1 hv.2 hq
    have hs : SamePrio s { s with tasks := fireTimer t s.tasks } := samePrio_woken hV hwk rfl
    exact inherited_quiet h hi ⟨hs, h.same_table hs (h.tasks.fireTimer hv.1 hv.2) hwk.only.taskTable⟩ trivial
  | call c =>
    obtain ⟨t, hcur, hrun, -⟩ := hv
    have hc : (SyncCall.call c).run s = c.run t s := by
      unfold SyncCall.run
      simp only [hcur]
    have hk : (SyncCall.call c).KeepsBoosts s ↔ c.KeepsBoosts t s :=
      ⟨fun hk => hk t hcur, fun hk u hu => Option.some.inj (hcur.symm.trans hu) ▸ hk⟩
    have hne : s.tasks.state t ≠ .blocked := by
      rw [hrun]
      decide
    rw [hc, hk]
    exact inherited_call h hi (h.tasks.current t hcur) hne

/-! ## Runs -/

theorem prioOk_boot (memory : Tasks) (sem : SemPtr → Semaphore) : PrioOk (bootObjects memory sem) :=
  ⟨tasksOk_boot memory, fun _ _ ho => absurd ho (by simp [bootObjects]), fun _ => rfl,
    fun t hl => absurd hl (bootTasks_live memory t)⟩

theorem inherited_boot (memory : Tasks) (sem : SemPtr → Semaphore) : Inherited (bootObjects memory sem) := by
  intro m t ho
  cases ho

/-- **Priority inheritance.** In a run from the initial objects every owner of a mutex is at least as high as the tasks
that wait for it, in all states, if and only if every step keeps the boosts. -/
theorem priority_inheritance_iff (memory : Tasks) (sem : SemPtr → Semaphore) (cs : List SyncCall)
    (hA : Allowed syncStep (fun _ s c => c.Valid s) (bootObjects memory sem) cs) :
    (∀ before after, cs = before ++ after → Inherited (run syncStep (bootObjects memory sem) before).2) ↔
      Allowed syncStep (fun _ s c => c.KeepsBoosts s) (bootObjects memory sem) cs := by
  constructor
  · rintro hall before c after rfl
    have hI : PrioOk (run syncStep (bootObjects memory sem) before).2 :=
      run_keeps (I := fun _ s => PrioOk s) (A := fun _ s c => SyncCall.Valid s c ∧ Inherited s)
        (fun _ s c h hc => show PrioOk (syncStep s c).2 from (inherited_step h hc.2 hc.1).1) (prioOk_boot memory sem)
        before (fun b d a he => ⟨hA.left b d a he, hall b (d :: a ++ c :: after) (by rw [he]; simp)⟩)
    have hi := hall before (c :: after) rfl
    have hi' := hall (before ++ [c]) after (by simp)
    rw [run_concat] at hi'
    exact (inherited_step hI hi hA.last).2.1 hi'
  · rintro hK before after rfl
    exact (run_keeps (I := fun _ s => PrioOk s ∧ Inherited s)
      (A := fun _ s c => SyncCall.Valid s c ∧ SyncCall.KeepsBoosts s c)
      (fun _ s c h hc => show PrioOk (syncStep s c).2 ∧ Inherited (syncStep s c).2 from
        (inherited_step h.1 h.2 hc.1).imp_right (fun hiff => hiff.2 hc.2))
      ⟨prioOk_boot memory sem, inherited_boot memory sem⟩ before
      (fun b d a he => ⟨hA.left b d a he, hK.left b d a he⟩)).2

def nested : List SyncCall := [.create (some 1) true 4, .create (some 2) true 8, .dispatch 1, .call (.lock 0 0),
  .call (.lock 1 0), .dispatch 2, .call (.lock 0 50), .dispatch 1]

theorem allowed_nested (m : MutexPtr) : Allowed syncStep (fun _ s c => c.Valid s)
    (bootObjects zeroTasks fun _ => ⟨0, 0⟩) (nested ++ [.call (.unlock m)]) := by
  refine allowed_cons.2 ⟨fresh_some (by decide +kernel), ?_⟩
  refine allowed_cons.2 ⟨fresh_some (by decide +kernel), ?_⟩
  refine allowed_cons.2 ⟨⟨(by decide +kernel : Tasks.Live _ 1), by decide +kernel⟩, ?_⟩
  refine allowed_cons.2 ⟨⟨1, by decide, by decide, by decide⟩, ?_⟩
  refine allowed_cons.2 ⟨⟨1, by decide, by decide, by decide⟩, ?_⟩
  refine allowed_cons.2 ⟨⟨(by decide +kernel : Tasks.Live _ 2), by decide +kernel⟩, ?_⟩
  refine allowed_cons.2 ⟨⟨2, by decide, by decide, by decide⟩, ?_⟩
  refine allowed_cons.2 ⟨⟨(by decide +kernel : Tasks.Live _ 1), by decide +kernel⟩, ?_⟩
  exact allowed_cons.2 ⟨⟨1, by decide, by decide, (by decide : Option.isSome _ = false)⟩,
    allowed_nil _⟩

theorem not_waitsFor (h : s.tasks.waitHead (mutexQueue m) = none) : ¬s.WaitsFor m t := by
  unfold Objects.WaitsFor
  rw [h]
  rintro ⟨⟩

theorem keeps_lock {timeoutMs : Nat} (hh : s.tasks.waitHead (mutexQueue m) = none) (hl : (s.mutex m).locked = false) :
    SyncCall.KeepsBoosts s (.call (.lock m timeoutMs)) := by
  refine fun self _ => ⟨fun _ _ w hw => absurd hw (not_waitsFor hh), fun hlk => ?_⟩
  rw [hl] at hlk
  cases hlk

/-- The contended mutex is unlocked first. -/
theorem priority_inheritance_nested :
    Inherited (run syncStep (bootObjects zeroTasks fun _ => ⟨0, 0⟩) (nested ++ [.call (.unlock 0)])).2 := by
  refine (priority_inheritance_iff zeroTasks (fun _ => ⟨0, 0⟩) _ (allowed_nested 0)).2 ?_ _ [] (List.append_nil _).symm
  refine allowed_cons.2 ⟨trivial, allowed_cons.2 ⟨trivial, allowed_cons.2 ⟨trivial, ?_⟩⟩⟩
  refine allowed_cons.2 ⟨keeps_lock (by decide) (by decide), ?_⟩
  refine allowed_cons.2 ⟨keeps_lock (by decide) (by decide), allowed_cons.2 ⟨trivial, ?_⟩⟩
  refine allowed_cons.2 ⟨fun self hs => ⟨fun hf => ?_, fun _ o _ _ _ m' o' hw => ?_⟩, allowed_cons.2 ⟨trivial, ?_⟩⟩
  · exact absurd hf (by decide)
  · exact absurd hw (not_waitsFor rfl)
  · refine allowed_cons.2 ⟨fun self hs o _ _ _ m' hm' _ w hw => ?_, allowed_nil _⟩
    refine absurd hw (not_waitsFor ?_)
    have hne : mutexQueue m' ≠ mutexQueue 0 := fun he => hm' (mutexQueue_inj he)
    have hh : (run syncStep (bootObjects zeroTasks fun _ => ⟨0, 0⟩) nested).2.tasks.waitHead =
        Function.update (fun _ => none) (mutexQueue 0) (some 2) := rfl
    exact (congrFun hh _).trans (Function.update_of_ne hne _ _)

/-- **The other mutex is unlocked first**, and the owner loses what it owes to the task that still waits. -/
theorem not_priority_inheritance : ¬∀ (memory : Tasks) (sem : SemPtr → Semaphore) (cs : List SyncCall),
    Allowed syncStep (fun _ s c => c.Valid s) (bootObjects memory sem) cs →
      Inherited (run syncStep (bootObjects memory sem) cs).2 := by
  intro hall
  have h := hall zeroTasks _ _ (allowed_nested 1) 0 1 (by decide) (by decide) 2
  have hw : Objects.WaitsFor (run syncStep (bootObjects zeroTasks fun _ => ⟨0, 0⟩) (nested ++ [.call (.unlock 1)])).2 0
      2 := by
    unfold Objects.WaitsFor
    rw [show Tasks.waitHead _ (mutexQueue 0) = some 2 by decide]
    exact Reach.here 2
  exact absurd (h hw) (by decide)

end

end Sync
end AmitX
