import AmitX.Sched.Table
/-!
# Wheel — the buckets of the timer wheel

A bucket is a doubly linked list of tasks, and a task knows the bucket it is in by its field `timerBucket`.  That field
is 0 in a task that has never been in a bucket, so that `timerWheelRemove` takes such a task for the first of bucket 0
and clears the bucket; it is harmless when bucket 0 is empty.
-/
namespace AmitX
namespace Sched

open Links

/-- `timer_wheel_remove` would clear a bucket that the task is not in. -/
def Tasks.DropsBucket (s : Tasks) (t : Ptr) : Prop :=
  s.timerBucket t < timerWheelSize ∧ s.timer.prev t = none ∧ s.timerWheel (s.timerBucket t) ≠ some t ∧
    s.timerWheel (s.timerBucket t) ≠ none

instance (s : Tasks) (t : Ptr) : Decidable (s.DropsBucket t) := inferInstanceAs (Decidable (_ ∧ _ ∧ _ ∧ _))

/-- The lists `W b` are stored in the buckets; a task that claims a bucket without being in it has no neighbours. -/
structure Wheel (s : Tasks) (W : Nat → List Ptr) : Prop where
  seg : ∀ b < timerWheelSize, s.timer.Seg none (W b) none
  nodup : ∀ b < timerWheelSize, (W b).Nodup
  head : ∀ b < timerWheelSize, s.timerWheel b = (W b).head?
  bucket : ∀ b < timerWheelSize, ∀ t ∈ W b, s.Live t ∧ s.timerBucket t = b
  fresh : ∀ t, s.Live t → s.timerBucket t < timerWheelSize → t ∉ W (s.timerBucket t) →
    s.timer.prev t = none ∧ s.timer.next t = none

section

variable {s s' : Tasks} {W W' : Nat → List Ptr} {t u : Ptr} {b : Nat}

theorem Wheel.disjoint (h : Wheel s W) {c : Nat} (hb : b < timerWheelSize) (hc : c < timerWheelSize) (hbc : b ≠ c) :
    ∀ a ∈ W b, a ∉ W c := fun a ha hac =>
  hbc (((h.bucket b hb a ha).2).symm.trans (h.bucket c hc a hac).2)

theorem Wheel.congr_lists (h : Wheel s W) (hW : ∀ b < timerWheelSize, W' b = W b) : Wheel s W' :=
  ⟨fun b hb => by rw [hW b hb]; exact h.seg b hb, fun b hb => by rw [hW b hb]; exact h.nodup b hb,
    fun b hb => by rw [hW b hb]; exact h.head b hb, fun b hb => by rw [hW b hb]; exact h.bucket b hb,
    fun t hl hb => by rw [hW _ hb]; exact h.fresh t hl hb⟩

theorem not_dropsBucket (h : Wheel s W) (hb : b < timerWheelSize) (ht : t ∈ W b) : ¬s.DropsBucket t := by
  rintro ⟨-, hprev, hne, -⟩
  obtain ⟨pre, post, hW⟩ := List.append_of_mem ht
  have hseg := h.seg b hb
  rw [hW] at hseg
  rw [hseg.links.1, Option.or_none, List.getLast?_eq_none_iff] at hprev
  rw [(h.bucket b hb t ht).2, h.head b hb, hW, hprev] at hne
  exact hne rfl

theorem timerWheelRemove_bucket (t : Ptr) (s : Tasks) : timerWheelSize ≤ (timerWheelRemove t s).timerBucket t := by
  unfold timerWheelRemove
  split
  · assumption
  · change timerWheelSize ≤ Function.update s.timerBucket t 0xFFFFFFFF t
    rw [Function.update_self]
    decide

theorem timerWheelRemove_bucket_of_ne (h : u ≠ t) : (timerWheelRemove t s).timerBucket u = s.timerBucket u := by
  unfold timerWheelRemove
  split
  · rfl
  · exact Function.update_of_ne h _ _

theorem timerWheelRemove_taskTable (t : Ptr) (s : Tasks) : (timerWheelRemove t s).taskTable = s.taskTable := by
  unfold timerWheelRemove
  split <;> rfl

theorem timerWheelRemove_state (t : Ptr) (s : Tasks) : (timerWheelRemove t s).state = s.state := by
  unfold timerWheelRemove
  split <;> rfl

theorem timerWheelRemove_sleepUntil (t : Ptr) (s : Tasks) : (timerWheelRemove t s).sleepUntil = s.sleepUntil := by
  unfold timerWheelRemove
  split <;> rfl

theorem timerWheelRemove_tickCount (t : Ptr) (s : Tasks) : (timerWheelRemove t s).tickCount = s.tickCount := by
  unfold timerWheelRemove
  split <;> rfl

theorem timerWheelRemove_timer (h : ¬timerWheelSize ≤ s.timerBucket t) :
    (timerWheelRemove t s).timer = s.timer.unlink t := by
  unfold timerWheelRemove
  rw [if_neg h]

theorem timerWheelRemove_timerWheel (h : ¬timerWheelSize ≤ s.timerBucket t) :
    (timerWheelRemove t s).timerWheel = if (s.timer.prev t).isSome then s.timerWheel
      else Function.update s.timerWheel (s.timerBucket t) (s.timer.next t) := by
  unfold timerWheelRemove
  rw [if_neg h]

theorem wheel_remove_rest (h : Wheel s W) (hfresh : ∀ u, u ≠ t → s.Live u → s.timerBucket u < timerWheelSize →
      u ∉ W (s.timerBucket u) → (timerWheelRemove t s).timer.prev u = none ∧ (timerWheelRemove t s).timer.next u = none)
    (hseg : ∀ b < timerWheelSize, (timerWheelRemove t s).timer.Seg none ((W b).erase t) none)
    (hhead : ∀ b < timerWheelSize, (timerWheelRemove t s).timerWheel b = ((W b).erase t).head?) :
    Wheel (timerWheelRemove t s) (fun b => (W b).erase t) := by
  have hlv : ∀ u, (timerWheelRemove t s).Live u ↔ s.Live u := fun u =>
    live_congr (timerWheelRemove_taskTable t s)
  refine ⟨hseg, fun b hb => (h.nodup b hb).erase t, hhead, fun b hb u hu => ?_, fun u hl hb hu => ?_⟩
  · obtain ⟨hut, hu⟩ := (h.nodup b hb).mem_erase_iff.1 hu
    rw [hlv u, timerWheelRemove_bucket_of_ne hut]
    exact h.bucket b hb u hu
  · have hut : u ≠ t := by
      rintro rfl
      exact absurd hb (Nat.not_lt.2 (timerWheelRemove_bucket u s))
    rw [hlv u] at hl
    rw [timerWheelRemove_bucket_of_ne hut] at hb hu
    exact hfresh u hut hl hb (fun hm => hu ((h.nodup _ hb).mem_erase_iff.2 ⟨hut, hm⟩))

theorem wheel_remove_linked (h : Wheel s W) (hb : b < timerWheelSize) (ht : t ∈ W b) :
    Wheel (timerWheelRemove t s) (fun b => (W b).erase t) := by
  obtain ⟨pre, post, hW⟩ := List.append_of_mem ht
  have hseg := h.seg b hb
  have hnd := h.nodup b hb
  have htb := (h.bucket b hb t ht).2
  rw [hW] at hseg hnd
  have hlt : ¬timerWheelSize ≤ s.timerBucket t := by
    rw [htb]
    exact Nat.not_le.2 hb
  have htpre : t ∉ pre := fun hm => by
    rw [List.nodup_append] at hnd
    exact hnd.2.2 t hm t (by simp) rfl
  have herase : (W b).erase t = pre ++ post := by
    rw [hW, List.erase_append_right _ htpre, List.erase_cons_head]
  have hother : ∀ c < timerWheelSize, c ≠ b → (W c).erase t = W c := fun c hc hcb =>
    List.erase_of_not_mem (fun hm => h.disjoint hc hb hcb t hm ht)
  obtain ⟨hprev, hnext⟩ := hseg.links
  rw [Option.or_none] at hprev hnext
  have hmem : ∀ v, s.timer.prev t = some v ∨ s.timer.next t = some v → v ∈ W b ∧ v ≠ t := by
    rintro v (hv | hv)
    · rw [hprev] at hv
      have hvp := List.mem_of_getLast? hv
      exact ⟨by rw [hW]; simp [hvp], by rintro rfl; exact htpre hvp⟩
    · rw [hnext] at hv
      have hvp := List.mem_of_mem_head? hv
      refine ⟨by rw [hW]; simp [hvp], ?_⟩
      rintro rfl
      rw [List.nodup_append, List.nodup_cons] at hnd
      exact hnd.2.1.1 hvp
  refine wheel_remove_rest h (fun u hut hl hub hu => ?_) (fun c hc => ?_) (fun c hc => ?_)
  · have hno : ∀ v, s.timer.prev t = some v ∨ s.timer.next t = some v → v ≠ u := by
      rintro v hv rfl
      have hvb := (hmem v hv).1
      rw [(h.bucket b hb v hvb).2] at hu
      exact hu hvb
    rw [timerWheelRemove_timer hlt, (unlink_of_ne hut (fun he => hno u (Or.inl he) rfl)
      (fun he => hno u (Or.inr he) rfl) (fun he => (hmem t (Or.inl he)).2 rfl)).1, (unlink_of_ne hut
      (fun he => hno u (Or.inl he) rfl) (fun he => hno u (Or.inr he) rfl) (fun he => (hmem t (Or.inl he)).2 rfl)).2]
    exact h.fresh u hl hub hu
  · rw [timerWheelRemove_timer hlt]
    by_cases hcb : c = b
    · rw [hcb, herase]
      exact hseg.unlink hnd
    · rw [hother c hc hcb]
      exact (h.seg c hc).unlink_other hseg hnd (fun a ha => hW ▸ h.disjoint hc hb hcb a ha)
  · rw [timerWheelRemove_timerWheel hlt, htb]
    by_cases hcb : c = b
    · subst hcb
      rw [herase, head?_unlink (t := t), ← hW, ← hprev]
      split
      · exact h.head c hc
      · rw [Function.update_self, hnext]
    · rw [hother c hc hcb]
      split
      · exact h.head c hc
      · rw [Function.update_of_ne hcb]
        exact h.head c hc

theorem wheel_remove (h : Wheel s W) (hlive : s.Live t) (hd : ¬s.DropsBucket t) :
    Wheel (timerWheelRemove t s) (fun b => (W b).erase t) := by
  by_cases hin : ∃ b < timerWheelSize, t ∈ W b
  · obtain ⟨b, hb, ht⟩ := hin
    exact wheel_remove_linked h hb ht
  · have hout : ∀ b < timerWheelSize, (W b).erase t = W b := fun b hb =>
      List.erase_of_not_mem (fun hm => hin ⟨b, hb, hm⟩)
    by_cases hlt : timerWheelSize ≤ s.timerBucket t
    · have hs : timerWheelRemove t s = s := by
        unfold timerWheelRemove
        rw [if_pos hlt]
      rw [hs]
      exact h.congr_lists hout
    · have hbt := Nat.not_le.1 hlt
      obtain ⟨hprev, hnext⟩ := h.fresh t hlive hbt (fun hm => hin ⟨_, hbt, hm⟩)
      have hempty : s.timerWheel (s.timerBucket t) = none := by
        by_contra hne
        refine hd ⟨hbt, hprev, fun he => ?_, hne⟩
        rw [h.head _ hbt] at he
        exact hin ⟨_, hbt, List.mem_of_mem_head? he⟩
      have hkeep : ∀ a, a ≠ t → (s.timer.unlink t).next a = s.timer.next a ∧
          (s.timer.unlink t).prev a = s.timer.prev a := fun a ha =>
        unlink_of_ne ha (by rw [hprev]; simp) (by rw [hnext]; simp) (by rw [hprev]; simp)
      refine wheel_remove_rest h (fun u hut hl hub hu => ?_) (fun c hc => ?_) (fun c hc => ?_)
      · rw [timerWheelRemove_timer hlt, (hkeep u hut).1, (hkeep u hut).2]
        exact h.fresh u hl hub hu
      · rw [timerWheelRemove_timer hlt, hout c hc]
        refine (h.seg c hc).congr (fun a ha => hkeep a ?_)
        rintro rfl
        exact hin ⟨c, hc, ha⟩
      · rw [timerWheelRemove_timerWheel hlt, hprev, hout c hc]
        change Function.update s.timerWheel (s.timerBucket t) (s.timer.next t) c = _
        rw [← h.head c hc, hnext]
        by_cases hcb : c = s.timerBucket t
        · rw [hcb, Function.update_self, hempty]
        · rw [Function.update_of_ne hcb]

theorem wheel_link (h : Wheel s W) (hlive : s.Live t) (ht : ∀ c < timerWheelSize, t ∉ W c) (hb : b < timerWheelSize) :
    Wheel (timerWheelLink t b s) (Function.update W b (t :: W b)) := by
  have hlv : ∀ u, (timerWheelLink t b s).Live u ↔ s.Live u := fun u => Iff.rfl
  have htimer : (timerWheelLink t b s).timer = s.timer.linkBefore (W b).head? t := by
    rw [← h.head b hb]
    rfl
  refine ⟨fun c hc => ?_, fun c hc => ?_, fun c hc => ?_, fun c hc u hu => ?_, fun u hl hub hu => ?_⟩
  · rw [htimer]
    by_cases hcb : c = b
    · rw [hcb, Function.update_self]
      exact (h.seg b hb).linkBefore (h.nodup b hb) (ht b hb)
    · rw [Function.update_of_ne hcb]
      exact (h.seg c hc).linkBefore_other (ht c hc) (h.disjoint hc hb hcb)
  · by_cases hcb : c = b
    · rw [hcb, Function.update_self]
      exact List.nodup_cons.2 ⟨ht b hb, h.nodup b hb⟩
    · rw [Function.update_of_ne hcb]
      exact h.nodup c hc
  · change Function.update s.timerWheel b (some t) c = _
    by_cases hcb : c = b
    · rw [hcb, Function.update_self, Function.update_self]
      rfl
    · rw [Function.update_of_ne hcb, Function.update_of_ne hcb]
      exact h.head c hc
  · rw [hlv u]
    change _ ∧ Function.update s.timerBucket t b u = c
    by_cases hut : u = t
    · subst hut
      rw [Function.update_self]
      refine ⟨hlive, ?_⟩
      by_contra hcb
      rw [Function.update_of_ne (fun he => hcb he.symm)] at hu
      exact ht c hc hu
    · rw [Function.update_of_ne hut]
      refine h.bucket c hc u ?_
      by_cases hcb : c = b
      · rw [hcb, Function.update_self, List.mem_cons] at hu
        rw [hcb]
        exact hu.resolve_left hut
      · rw [Function.update_of_ne hcb] at hu
        exact hu
  · change Function.update s.timerBucket t b u < _ at hub
    change u ∉ Function.update W b (t :: W b) (Function.update s.timerBucket t b u) at hu
    have hut : u ≠ t := by
      rintro rfl
      rw [Function.update_self, Function.update_self] at hu
      exact hu (by simp)
    rw [Function.update_of_ne hut] at hub hu
    have hout : u ∉ W (s.timerBucket u) := by
      by_cases hcb : s.timerBucket u = b
      · rw [hcb, Function.update_self] at hu
        rw [hcb]
        exact fun hm => hu (List.mem_cons_of_mem _ hm)
      · rw [Function.update_of_ne hcb] at hu
        exact hu
    obtain ⟨hprev, hnext⟩ := h.fresh u ((hlv u).1 hl) hub hout
    rw [htimer, Links.linkBefore, setPrev?_of_ne, setPrev?_next]
    · simp only [setPrev_prev, setPrev_next, setNext_prev, setNext_next, Function.update_of_ne hut]
      exact ⟨hprev, hnext⟩
    · intro he
      have hm := List.mem_of_mem_head? he
      rw [(h.bucket b hb u hm).2] at hout
      exact hout hm

/-! ## Tasks with a timer -/

def Tasks.Timed (s : Tasks) (t : Ptr) : Prop :=
  s.state t = .sleeping ∨ s.state t = .blocked ∧ s.sleepUntil t ≠ 0

/-- **The timers**: every task with a timer, but for the task `o` that a call is busy with, is in the bucket of its
deadline. -/
structure Timers (s : Tasks) (o : Option Ptr) (W : Nat → List Ptr) : Prop extends Wheel s W where
  timed : ∀ t, s.Live t → o ≠ some t → s.Timed t → t ∈ W (s.sleepUntil t % timerWheelSize)
  slot : s.OneSlot

/-- The wheel has not changed, and no task has got a timer. -/
structure WheelKept (s s' : Tasks) : Prop where
  timer : s'.timer = s.timer
  timerWheel : s'.timerWheel = s.timerWheel
  timerBucket : s'.timerBucket = s.timerBucket
  taskTable : s'.taskTable = s.taskTable
  tickCount : s'.tickCount = s.tickCount
  timed : ∀ t, s'.Timed t → s.Timed t ∧ s'.sleepUntil t = s.sleepUntil t

end

section

variable {s s' s'' : Tasks} {W W' : Nat → List Ptr} {o : Option Ptr} {t u : Ptr} {b : Nat}

theorem WheelKept.refl (s : Tasks) : WheelKept s s := ⟨rfl, rfl, rfl, rfl, rfl, fun _ h => ⟨h, rfl⟩⟩

theorem WheelKept.trans (h : WheelKept s s') (h' : WheelKept s' s'') : WheelKept s s'' :=
  ⟨h'.timer.trans h.timer, h'.timerWheel.trans h.timerWheel, h'.timerBucket.trans h.timerBucket,
    h'.taskTable.trans h.taskTable, h'.tickCount.trans h.tickCount, fun t ht => by
    obtain ⟨h1, e1⟩ := h'.timed t ht
    obtain ⟨h2, e2⟩ := h.timed t h1
    exact ⟨h2, e1.trans e2⟩⟩

theorem Wheel.congr (h : Wheel s W) (ht : s'.timer = s.timer) (hw : s'.timerWheel = s.timerWheel)
    (hb : s'.timerBucket = s.timerBucket) (htab : s'.taskTable = s.taskTable) : Wheel s' W :=
  ⟨by rw [ht]; exact h.seg, h.nodup, by rw [hw]; exact h.head,
    fun b hlt t htb => by rw [hb, live_congr htab]; exact h.bucket b hlt t htb,
    fun t hl hlt hout => by
      rw [hb] at hlt hout
      rw [ht]
      exact h.fresh t ((live_congr htab).1 hl) hlt hout⟩

theorem Timers.kept (h : Timers s o W) (hk : WheelKept s s') : Timers s' o W :=
  ⟨h.toWheel.congr hk.timer hk.timerWheel hk.timerBucket hk.taskTable, fun t hl ho ht => by
    obtain ⟨h1, e1⟩ := hk.timed t ht
    rw [e1]
    exact h.timed t ((live_congr hk.taskTable).1 hl) ho h1, oneSlot_congr hk.taskTable h.slot⟩

theorem Timers.done (h : Timers s (some t) W) (ht : ¬s.Timed t) : Timers s none W :=
  ⟨h.toWheel, fun u hl _ hu => h.timed u hl (fun he => ht (by rw [Option.some.inj he]; exact hu)) hu, h.slot⟩

/-! ## What keeps the wheel -/

theorem kept_of_state (hr : ¬s'.Timed t) (hother : ∀ u, u ≠ t → s'.state u = s.state u)
    (hsleep : ∀ u, u ≠ t → s'.sleepUntil u = s.sleepUntil u) :
    ∀ u, s'.Timed u → s.Timed u ∧ s'.sleepUntil u = s.sleepUntil u := fun u hu => by
  have hut : u ≠ t := by
    rintro rfl
    exact hr hu
  refine ⟨?_, hsleep u hut⟩
  unfold Tasks.Timed at hu ⊢
  rw [hother u hut, hsleep u hut] at hu
  exact hu

theorem not_timed_of_state (h : s.state t ≠ .sleeping) (h' : s.state t ≠ .blocked) : ¬s.Timed t := by
  rintro (ht | ⟨ht, -⟩)
  · exact h ht
  · exact h' ht

theorem kept_schedulerAdd (t : Ptr) (s : Tasks) : WheelKept s (schedulerAdd t s) := by
  have hstate : (schedulerAdd t s).state t = .ready := Function.update_self _ _ _
  exact ⟨rfl, rfl, rfl, rfl, rfl, kept_of_state (t := t) (not_timed_of_state (by rw [hstate]; decide)
    (by rw [hstate]; decide)) (fun u hu => Function.update_of_ne hu _ _) (fun _ _ => rfl)⟩

theorem kept_schedulerRemove (t : Ptr) (s : Tasks) : WheelKept s (schedulerRemove t s) := by
  unfold schedulerRemove
  split
  · exact WheelKept.refl s
  · exact ⟨rfl, rfl, rfl, rfl, rfl, fun _ h => ⟨h, rfl⟩⟩

theorem kept_switchTo (t : Ptr) (s : Tasks) : WheelKept s (switchTo t s) := by
  have hstate : (switchTo t s).state t = .running := Function.update_self _ _ _
  exact ⟨rfl, rfl, rfl, rfl, rfl, kept_of_state (t := t) (not_timed_of_state (by rw [hstate]; decide)
    (by rw [hstate]; decide)) (fun u hu => Function.update_of_ne hu _ _) (fun _ _ => rfl)⟩

theorem kept_requeue (old : Option Ptr) (s : Tasks) : WheelKept s (requeue old s) := by
  unfold requeue
  cases old with
  | none => exact WheelKept.refl s
  | some t =>
    simp only
    split
    · exact kept_schedulerAdd t s
    · exact WheelKept.refl s

theorem kept_schedule (s : Tasks) : WheelKept s (schedule s) := by
  have hnext : WheelKept s (schedulerNext s).2 := ⟨rfl, rfl, rfl, rfl, rfl, fun _ h => ⟨h, rfl⟩⟩
  unfold schedule
  cases (schedulerNext s).1 with
  | none => exact hnext
  | some next =>
    simp only
    split
    · exact hnext
    · exact ((hnext.trans (kept_requeue _ _)).trans (kept_schedulerRemove next _)).trans (kept_switchTo next _)

theorem kept_changePrio (t : Ptr) (prio : Nat) (s : Tasks) : WheelKept s (changePrio t prio s) := by
  have hprio : WheelKept s { s with curPrio := Function.update s.curPrio t prio } :=
    ⟨rfl, rfl, rfl, rfl, rfl, fun _ h => ⟨h, rfl⟩⟩
  unfold changePrio
  simp only
  split
  · exact (hprio.trans (kept_schedulerRemove t _)).trans (kept_schedulerAdd t _)
  · exact hprio

theorem kept_boost (t : Ptr) (newPrio : Nat) (s : Tasks) : WheelKept s (taskBoostPriority t newPrio s) := by
  unfold taskBoostPriority
  simp only
  split
  · exact WheelKept.refl s
  · split
    · exact WheelKept.refl s
    · exact kept_changePrio t _ s

theorem kept_unboost (t : Ptr) (s : Tasks) : WheelKept s (taskUnboostPriority t s) := by
  unfold taskUnboostPriority
  split
  · exact WheelKept.refl s
  · exact kept_changePrio t _ s

theorem kept_taskQueueRemove (q : QueuePtr) (t : Ptr) (s : Tasks) : WheelKept s (taskQueueRemove q t s) := by
  unfold taskQueueRemove
  split
  · exact WheelKept.refl s
  · exact ⟨rfl, rfl, rfl, rfl, rfl, fun _ h => ⟨h, rfl⟩⟩

theorem kept_leaveQueue (t : Ptr) (s : Tasks) : WheelKept s (leaveQueue t s) := by
  unfold leaveQueue
  cases s.waitQueue t with
  | none => exact WheelKept.refl s
  | some q => exact kept_taskQueueRemove q t s

theorem kept_setWakeReason (t : Ptr) (r : WakeReason) (s : Tasks) : WheelKept s (setWakeReason t r s) :=
  ⟨rfl, rfl, rfl, rfl, rfl, fun _ h => ⟨h, rfl⟩⟩

theorem Timers.wakeTask (h : Timers s (some t) W) : Timers (wakeTask t s) none W := by
  have hk : WheelKept { s with sleepUntil := Function.update s.sleepUntil t 0 }
      (Sched.wakeTask t s) := kept_schedulerAdd t _
  have h1 : Timers { s with sleepUntil := Function.update s.sleepUntil t 0 } (some t) W :=
    ⟨h.toWheel.congr rfl rfl rfl rfl, fun u hl ho hu => by
      have hut : u ≠ t := fun he => ho (by rw [he])
      have hsl : Function.update s.sleepUntil t 0 u = s.sleepUntil u := Function.update_of_ne hut _ _
      change u ∈ W (Function.update s.sleepUntil t 0 u % timerWheelSize)
      unfold Tasks.Timed at hu
      simp only [hsl] at hu ⊢
      exact h.timed u hl ho hu, h.slot⟩
  refine (h1.kept hk).done (not_timed_of_state ?_ ?_) <;>
    (change Function.update s.state t .ready t ≠ _; rw [Function.update_self]; decide)

theorem Timers.remove (h : Timers s o W) (ho : o = none ∨ o = some t) (hlive : s.Live t) (hd : ¬s.DropsBucket t) :
    Timers (timerWheelRemove t s) (some t) (fun b => (W b).erase t) := by
  refine ⟨wheel_remove h.toWheel hlive hd, fun u hl hne hu => ?_, oneSlot_congr (timerWheelRemove_taskTable t s) h.slot⟩
  have hut : u ≠ t := fun he => hne (by rw [he])
  unfold Tasks.Timed at hu
  rw [timerWheelRemove_state, timerWheelRemove_sleepUntil] at hu
  rw [timerWheelRemove_sleepUntil]
  refine (List.mem_erase_of_ne hut).2 (h.timed u ((live_congr (timerWheelRemove_taskTable t s)).1 hl) ?_ hu)
  rcases ho with rfl | rfl
  · simp
  · exact fun he => hut (Option.some.inj he).symm

theorem not_mem_remove (h : Wheel s W) (t : Ptr) : ∀ c < timerWheelSize, t ∉ (W c).erase t := fun c hc hm =>
  ((h.nodup c hc).mem_erase_iff.1 hm).1 rfl

theorem Timers.insert {n : Nat} (h : Timers s (some t) W) (hlive : s.Live t) (hd : ¬s.DropsBucket t)
    (hn : s.sleepUntil t = addU32 s.tickCount n) :
    Timers (timerWheelInsert t n s) none (Function.update (fun b => (W b).erase t)
      (addU32 s.tickCount n % timerWheelSize) (t :: (W (addU32 s.tickCount n % timerWheelSize)).erase t)) := by
  have h1 := h.remove (Or.inr rfl) hlive hd
  have htick := timerWheelRemove_tickCount t s
  have hlt : addU32 s.tickCount n % timerWheelSize < timerWheelSize := Nat.mod_lt _ (by decide)
  have h2 := wheel_link h1.toWheel ((live_congr (timerWheelRemove_taskTable t s)).2 hlive) (not_mem_remove h.toWheel t) hlt
  unfold timerWheelInsert
  rw [← htick] at h2 ⊢
  refine ⟨h2, fun u hl _ hu => ?_, h1.slot⟩
  have hsl : ∀ b s, (timerWheelLink t b s).sleepUntil = s.sleepUntil := fun _ _ => rfl
  rw [hsl]
  by_cases hut : u = t
  · subst hut
    rw [timerWheelRemove_sleepUntil, hn, ← htick, Function.update_self]
    simp
  · have hm := h1.timed u hl (fun he => hut (Option.some.inj he).symm) hu
    by_cases hb : (timerWheelRemove t s).sleepUntil u % timerWheelSize =
        addU32 (timerWheelRemove t s).tickCount n % timerWheelSize
    · rw [hb, Function.update_self]
      rw [hb] at hm
      exact List.mem_cons_of_mem _ hm
    · rw [Function.update_of_ne hb]
      exact hm

end

end Sched
end AmitX
