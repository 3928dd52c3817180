import AmitX.Sched.Table
/-!
# Ready — the ready queues of the scheduler

The queue of a priority is a doubly linked list of the ready tasks of that priority.  A task is taken out of the queue
that its current priority names: changing the priority first is harmless only for a task inside a queue, whose
neighbours are relinked and neither end of the list is touched.
-/
namespace AmitX
namespace Sched

open Links

theorem readyIndex_lt (p : Nat) : readyIndex p < 32 := by
  unfold readyIndex taskNumPrios
  split <;> omega

theorem readyIndex_of_lt {p : Nat} (h : p < 32) : readyIndex p = p := by
  unfold readyIndex taskNumPrios
  rw [if_neg (by omega)]

theorem getLsbD_setBit (b : BitVec 32) {i j : Nat} (hj : j < 32) :
    (setBit b i).getLsbD j = (b.getLsbD j || decide (j = i)) := by
  unfold setBit
  simp only [BitVec.getLsbD_or, BitVec.getLsbD_shiftLeft, hj, decide_true, Bool.true_and]
  by_cases h : j = i
  · subst h; simp
  · simp [h]; omega

theorem getLsbD_clearBit (b : BitVec 32) {i j : Nat} (hj : j < 32) :
    (clearBit b i).getLsbD j = (b.getLsbD j && decide (j ≠ i)) := by
  unfold clearBit
  simp only [BitVec.getLsbD_and, BitVec.getLsbD_not, BitVec.getLsbD_shiftLeft, hj, decide_true, Bool.true_and]
  by_cases h : j = i
  · subst h; simp
  · simp [h]; omega

section Fields

variable (t : Ptr) (s : Tasks)

theorem schedulerAdd_ready : (schedulerAdd t s).ready =
    s.ready.linkAfter (s.readyTail (readyIndex (s.curPrio t))) t := rfl
theorem schedulerAdd_readyQueue : (schedulerAdd t s).readyQueue =
    if (s.readyTail (readyIndex (s.curPrio t))).isSome then s.readyQueue
    else Function.update s.readyQueue (readyIndex (s.curPrio t)) (some t) := rfl
theorem schedulerAdd_readyTail : (schedulerAdd t s).readyTail =
    Function.update s.readyTail (readyIndex (s.curPrio t)) (some t) := rfl
theorem schedulerAdd_readyBitmap : (schedulerAdd t s).readyBitmap =
    if (s.readyTail (readyIndex (s.curPrio t))).isSome then s.readyBitmap
    else setBit s.readyBitmap (readyIndex (s.curPrio t)) := rfl

variable {t s} (h : s.state t = .ready)

include h

theorem schedulerRemove_ready : (schedulerRemove t s).ready = s.ready.unlink t := by
  unfold schedulerRemove
  rw [if_neg (not_not.2 h)]

theorem schedulerRemove_readyQueue : (schedulerRemove t s).readyQueue =
    if (s.ready.prev t).isSome then s.readyQueue
    else Function.update s.readyQueue (readyIndex (s.curPrio t)) (s.ready.next t) := by
  unfold schedulerRemove
  rw [if_neg (not_not.2 h)]

theorem schedulerRemove_readyTail : (schedulerRemove t s).readyTail =
    if (s.ready.next t).isSome then s.readyTail
    else Function.update s.readyTail (readyIndex (s.curPrio t)) (s.ready.prev t) := by
  unfold schedulerRemove
  rw [if_neg (not_not.2 h)]

theorem schedulerRemove_readyBitmap : (schedulerRemove t s).readyBitmap =
    if ((schedulerRemove t s).readyQueue (readyIndex (s.curPrio t))).isSome then s.readyBitmap
    else clearBit s.readyBitmap (readyIndex (s.curPrio t)) := by
  rw [schedulerRemove_readyQueue h]
  unfold schedulerRemove
  rw [if_neg (not_not.2 h)]

end Fields

structure SameQueues (s s' : Tasks) : Prop where
  ready : s'.ready = s.ready
  readyQueue : s'.readyQueue = s.readyQueue
  readyTail : s'.readyTail = s.readyTail
  readyBitmap : s'.readyBitmap = s.readyBitmap
  curPrio : s'.curPrio = s.curPrio
  basePrio : s'.basePrio = s.basePrio

/-- The lists `Q p` are stored in the ready queues. -/
structure Queues (s : Tasks) (Q : Nat → List Ptr) : Prop where
  seg : ∀ p < 32, s.ready.Seg none (Q p) none
  nodup : ∀ p < 32, (Q p).Nodup
  head : ∀ p < 32, s.readyQueue p = (Q p).head?
  tail : ∀ p < 32, s.readyTail p = (Q p).getLast?
  bit : ∀ p < 32, s.readyBitmap.getLsbD p = true ↔ Q p ≠ []
  disjoint : ∀ p < 32, ∀ q < 32, ∀ t, t ∈ Q p → t ∈ Q q → p = q

section

variable {s s' : Tasks} {Q : Nat → List Ptr} {t : Ptr} {p : Nat}

theorem Queues.congr (h : Queues s Q) (hs : SameQueues s s') : Queues s' Q :=
  ⟨by rw [hs.ready]; exact h.seg, h.nodup, by rw [hs.readyQueue]; exact h.head, by rw [hs.readyTail]; exact h.tail,
    by rw [hs.readyBitmap]; exact h.bit, h.disjoint⟩

theorem disjoint_update {l : List Ptr} (h : Queues s Q) (hl : ∀ u ∈ l, u ∈ Q p ∨ ∀ q < 32, u ∉ Q q) :
    ∀ q < 32, ∀ r < 32, ∀ u, u ∈ Function.update Q p l q → u ∈ Function.update Q p l r → q = r := by
  intro q hq r hr u huq hur
  by_cases hqp : q = p
  · by_cases hrp : r = p
    · rw [hqp, hrp]
    · subst hqp
      rw [Function.update_self] at huq
      rw [Function.update_of_ne hrp] at hur
      rcases hl u huq with hu | hu
      · exact h.disjoint q hq r hr u hu hur
      · exact absurd hur (hu r hr)
  · rw [Function.update_of_ne hqp] at huq
    by_cases hrp : r = p
    · subst hrp
      rw [Function.update_self] at hur
      rcases hl u hur with hu | hu
      · exact h.disjoint q hq r hr u huq hu
      · exact absurd huq (hu q hq)
    · rw [Function.update_of_ne hrp] at hur
      exact h.disjoint q hq r hr u huq hur

theorem queues_add (h : Queues s Q) (hp : readyIndex (s.curPrio t) = p) (ht : ∀ q < 32, t ∉ Q q) :
    Queues (schedulerAdd t s) (Function.update Q p (Q p ++ [t])) := by
  have hp32 : p < 32 := hp ▸ readyIndex_lt _
  have htail := h.tail p hp32
  have hlast : (s.readyTail p).isSome = true ↔ Q p ≠ [] := by
    rw [htail, List.getLast?_isSome]
  refine ⟨fun q hq => ?_, fun q hq => ?_, fun q hq => ?_, fun q hq => ?_, fun q hq => ?_, ?_⟩
  · rw [schedulerAdd_ready, hp, htail]
    by_cases hqp : q = p
    · rw [hqp, Function.update_self]
      exact (h.seg p hp32).linkAfter (h.nodup p hp32) (ht p hp32)
    · rw [Function.update_of_ne hqp]
      exact (h.seg q hq).linkAfter_other (ht q hq) (fun a ha hap => hqp (h.disjoint q hq p hp32 a ha hap))
  · by_cases hqp : q = p
    · rw [hqp, Function.update_self, List.nodup_append]
      exact ⟨h.nodup p hp32, by simp, fun a ha b hb => by
        rw [List.mem_singleton] at hb
        rintro rfl
        exact ht p hp32 (hb ▸ ha)⟩
    · rw [Function.update_of_ne hqp]
      exact h.nodup q hq
  · rw [schedulerAdd_readyQueue, hp]
    by_cases hqp : q = p
    · rw [hqp, Function.update_self]
      split
      · rename_i hs
        rw [h.head p hp32, List.head?_append_of_ne_nil _ (hlast.1 hs)]
      · rename_i hs
        have hnil : Q p = [] := by
          by_contra hne
          exact hs (hlast.2 hne)
        rw [Function.update_self, hnil]
        rfl
    · rw [Function.update_of_ne hqp]
      split
      · exact h.head q hq
      · rw [Function.update_of_ne hqp]
        exact h.head q hq
  · rw [schedulerAdd_readyTail, hp]
    by_cases hqp : q = p
    · rw [hqp, Function.update_self, Function.update_self, List.getLast?_concat]
    · rw [Function.update_of_ne hqp, Function.update_of_ne hqp]
      exact h.tail q hq
  · rw [schedulerAdd_readyBitmap, hp]
    by_cases hqp : q = p
    · rw [hqp, Function.update_self]
      split
      · rename_i hs
        rw [h.bit p hp32]
        simp [hlast.1 hs]
      · rw [getLsbD_setBit _ hp32]
        simp
    · rw [Function.update_of_ne hqp]
      split
      · exact h.bit q hq
      · rw [getLsbD_setBit _ hq, decide_eq_false hqp, Bool.or_false]
        exact h.bit q hq
  · refine disjoint_update h (fun u hu => ?_)
    rcases List.mem_append.1 hu with hu | hu
    · exact Or.inl hu
    · rw [List.mem_singleton] at hu
      exact Or.inr (hu ▸ ht)

theorem queues_remove (h : Queues s Q) (hp : p < 32) (ht : t ∈ Q p) (hstate : s.state t = .ready)
    (hmid : readyIndex (s.curPrio t) = p ∨ s.ready.prev t ≠ none ∧ s.ready.next t ≠ none) :
    Queues (schedulerRemove t s) (Function.update Q p ((Q p).erase t)) := by
  obtain ⟨pre, post, hQ⟩ := List.append_of_mem ht
  have hseg := h.seg p hp
  have hnd := h.nodup p hp
  rw [hQ] at hseg hnd
  have htpre : t ∉ pre := fun hm => by
    rw [List.nodup_append] at hnd
    exact hnd.2.2 t hm t (by simp) rfl
  have herase : (Q p).erase t = pre ++ post := by
    rw [hQ, List.erase_append_right _ htpre, List.erase_cons_head]
  obtain ⟨hprev, hnext⟩ := hseg.links
  rw [Option.or_none] at hprev hnext
  have hi32 := readyIndex_lt (s.curPrio t)
  have hhead : ∀ q < 32, (schedulerRemove t s).readyQueue q = (Function.update Q p (pre ++ post) q).head? := by
    intro q hq
    rw [schedulerRemove_readyQueue hstate]
    by_cases hqp : q = p
    · subst hqp
      rw [Function.update_self, head?_unlink (t := t), ← hQ, ← hprev]
      split
      · exact h.head q hq
      · rename_i hs
        have hi : readyIndex (s.curPrio t) = q := hmid.resolve_right (fun hm => hs (Option.isSome_iff_ne_none.2 hm.1))
        rw [hi, Function.update_self, hnext]
    · rw [Function.update_of_ne hqp]
      split
      · exact h.head q hq
      · rename_i hs
        have hi : readyIndex (s.curPrio t) = p := hmid.resolve_right (fun hm => hs (Option.isSome_iff_ne_none.2 hm.1))
        rw [hi, Function.update_of_ne hqp]
        exact h.head q hq
  have hne : ∀ q < 32, q ≠ readyIndex (s.curPrio t) → (Q q ≠ [] ↔ Function.update Q p (pre ++ post) q ≠ []) := by
    intro q _ hqi
    by_cases hqp : q = p
    · subst hqp
      have hm := hmid.resolve_left (fun hi => hqi hi.symm)
      rw [Function.update_self, hQ]
      have : pre ≠ [] := by
        rintro rfl
        exact hm.1 hprev
      simp [this]
    · rw [Function.update_of_ne hqp]
  rw [herase]
  refine ⟨fun q hq => ?_, fun q hq => ?_, hhead, fun q hq => ?_, fun q hq => ?_, ?_⟩
  · rw [schedulerRemove_ready hstate]
    by_cases hqp : q = p
    · rw [hqp, Function.update_self]
      exact hseg.unlink hnd
    · rw [Function.update_of_ne hqp]
      exact (h.seg q hq).unlink_other hseg hnd (fun a ha hap => hqp (h.disjoint q hq p hp a ha (hQ ▸ hap)))
  · by_cases hqp : q = p
    · rw [hqp, Function.update_self, ← herase]
      exact (h.nodup p hp).erase t
    · rw [Function.update_of_ne hqp]
      exact h.nodup q hq
  · rw [schedulerRemove_readyTail hstate]
    by_cases hqp : q = p
    · subst hqp
      rw [Function.update_self, getLast?_unlink (t := t), ← hQ, ← hnext]
      split
      · exact h.tail q hq
      · rename_i hs
        have hi : readyIndex (s.curPrio t) = q := hmid.resolve_right (fun hm => hs (Option.isSome_iff_ne_none.2 hm.2))
        rw [hi, Function.update_self, hprev]
    · rw [Function.update_of_ne hqp]
      split
      · exact h.tail q hq
      · rename_i hs
        have hi : readyIndex (s.curPrio t) = p := hmid.resolve_right (fun hm => hs (Option.isSome_iff_ne_none.2 hm.2))
        rw [hi, Function.update_of_ne hqp]
        exact h.tail q hq
  · rw [schedulerRemove_readyBitmap hstate, hhead _ hi32]
    by_cases hqi : q = readyIndex (s.curPrio t)
    · subst hqi
      split
      · rename_i hs
        rw [List.isSome_head?] at hs
        rw [h.bit _ hq]
        simp only [ne_eq, hs, not_false_eq_true, iff_true]
        intro hnil
        by_cases hqp : readyIndex (s.curPrio t) = p
        · rw [hqp] at hnil
          rw [hnil] at ht
          simp at ht
        · rw [Function.update_of_ne hqp] at hs
          exact hs hnil
      · rename_i hs
        rw [getLsbD_clearBit _ hq]
        simp only [ne_eq, not_true_eq_false, decide_false, Bool.and_false, Bool.false_eq_true, false_iff, not_not]
        rw [List.isSome_head?] at hs
        exact not_not.1 hs
    · rw [← hne q hq hqi, ← h.bit q hq]
      split
      · rfl
      · rw [getLsbD_clearBit _ hq, decide_eq_true hqi, Bool.and_true]
  · exact disjoint_update h (fun u hu => Or.inl (by
      rw [← herase] at hu
      exact List.mem_of_mem_erase hu))

end

/-! ## The invariant -/

/-- **The ready queues hold exactly the ready tasks of their priority**, as well-formed lists. -/
structure ReadyInv (s : Tasks) (Q : Nat → List Ptr) : Prop extends Queues s Q where
  mem : ∀ p < 32, ∀ t, t ∈ Q p ↔ s.Live t ∧ s.state t = .ready ∧ s.curPrio t = p

/-- Priorities are in range and a task is in one slot of the table. -/
structure TableInv (s : Tasks) : Prop where
  prio : ∀ t, s.Live t → s.curPrio t < 32 ∧ s.basePrio t < 32
  slot : s.OneSlot

structure SameReady (s s' : Tasks) : Prop extends SameQueues s s' where
  state : s'.state = s.state
  taskTable : s'.taskTable = s.taskTable
  currentTask : s'.currentTask = s.currentTask

section

variable {s s' s'' : Tasks} {Q Q' : Nat → List Ptr} {t : Ptr} {p : Nat}

theorem SameReady.refl (s : Tasks) : SameReady s s := ⟨⟨rfl, rfl, rfl, rfl, rfl, rfl⟩, rfl, rfl, rfl⟩

theorem SameQueues.trans (h : SameQueues s s') (h' : SameQueues s' s'') : SameQueues s s'' :=
  ⟨h'.ready.trans h.ready, h'.readyQueue.trans h.readyQueue, h'.readyTail.trans h.readyTail,
    h'.readyBitmap.trans h.readyBitmap, h'.curPrio.trans h.curPrio, h'.basePrio.trans h.basePrio⟩

theorem SameReady.trans (h : SameReady s s') (h' : SameReady s' s'') : SameReady s s'' :=
  ⟨h.toSameQueues.trans h'.toSameQueues, h'.state.trans h.state, h'.taskTable.trans h.taskTable,
    h'.currentTask.trans h.currentTask⟩

theorem ReadyInv.congr (h : ReadyInv s Q) (hs : SameReady s s') : ReadyInv s' Q :=
  ⟨h.toQueues.congr hs.toSameQueues, fun p hp t => by
    rw [h.mem p hp t, hs.state, hs.curPrio, live_congr hs.taskTable]⟩

theorem TableInv.congr (h : TableInv s) (hc : s'.curPrio = s.curPrio) (hb : s'.basePrio = s.basePrio)
    (ht : s'.taskTable = s.taskTable) : TableInv s' :=
  ⟨fun t hl => by
    rw [hc, hb]
    exact h.prio t ((live_congr ht).1 hl), oneSlot_congr ht h.slot⟩

theorem same_timerWheelRemove (t : Ptr) (s : Tasks) : SameReady s (timerWheelRemove t s) := by
  unfold timerWheelRemove
  split <;> exact ⟨⟨rfl, rfl, rfl, rfl, rfl, rfl⟩, rfl, rfl, rfl⟩

theorem same_timerWheelInsert (t : Ptr) (n : Nat) (s : Tasks) : SameReady s (timerWheelInsert t n s) :=
  (same_timerWheelRemove t s).trans ⟨⟨rfl, rfl, rfl, rfl, rfl, rfl⟩, rfl, rfl, rfl⟩

theorem same_taskQueuePush (q : QueuePtr) (t : Ptr) (s : Tasks) : SameReady s (taskQueuePush q t s) :=
  ⟨⟨rfl, rfl, rfl, rfl, rfl, rfl⟩, rfl, rfl, rfl⟩

theorem same_taskQueueRemove (q : QueuePtr) (t : Ptr) (s : Tasks) : SameReady s (taskQueueRemove q t s) := by
  unfold taskQueueRemove
  split <;> exact ⟨⟨rfl, rfl, rfl, rfl, rfl, rfl⟩, rfl, rfl, rfl⟩

theorem same_leaveQueue (t : Ptr) (s : Tasks) : SameReady s (leaveQueue t s) := by
  unfold leaveQueue
  cases s.waitQueue t with
  | none => exact SameReady.refl s
  | some q => exact same_taskQueueRemove q t s

theorem same_setWakeReason (t : Ptr) (r : WakeReason) (s : Tasks) : SameReady s (setWakeReason t r s) :=
  ⟨⟨rfl, rfl, rfl, rfl, rfl, rfl⟩, rfl, rfl, rfl⟩

/-! ## One task comes or goes -/

theorem mem_append_update {q : Nat} {u : Ptr} :
    u ∈ Function.update Q p (Q p ++ [t]) q ↔ u ∈ Q q ∨ u = t ∧ q = p := by
  by_cases hqp : q = p
  · subst hqp
    rw [Function.update_self, List.mem_append, List.mem_singleton]
    simp
  · rw [Function.update_of_ne hqp]
    simp [hqp]

theorem mem_erase_update (h : Queues s Q) (hp : p < 32) (ht : t ∈ Q p) {q : Nat} (hq : q < 32) {u : Ptr} :
    u ∈ Function.update Q p ((Q p).erase t) q ↔ u ≠ t ∧ u ∈ Q q := by
  by_cases hqp : q = p
  · subst hqp
    rw [Function.update_self, (h.nodup q hp).mem_erase_iff]
  · rw [Function.update_of_ne hqp]
    refine ⟨fun hu => ⟨?_, hu⟩, fun hu => hu.2⟩
    rintro rfl
    exact hqp (h.disjoint q hq p hp u hu ht)

theorem ReadyInv.not_mem (h : ReadyInv s Q) (hne : ¬(s.Live t ∧ s.state t = .ready)) : ∀ q < 32, t ∉ Q q :=
  fun q hq hm => hne ⟨((h.mem q hq t).1 hm).1, ((h.mem q hq t).1 hm).2.1⟩

theorem readyInv_add (h : ReadyInv s Q) (hT : TableInv s) (hlive : s.Live t) (hne : s.state t ≠ .ready) :
    ReadyInv (schedulerAdd t s) (Function.update Q (s.curPrio t) (Q (s.curPrio t) ++ [t])) := by
  have hp := (hT.prio t hlive).1
  refine ⟨queues_add h.toQueues (readyIndex_of_lt hp) (h.not_mem (fun hr => hne hr.2)), fun q hq u => ?_⟩
  change _ ↔ s.Live u ∧ Function.update s.state t .ready u = .ready ∧ s.curPrio u = q
  rw [mem_append_update, h.mem q hq u]
  by_cases hut : u = t
  · subst hut
    rw [Function.update_self]
    constructor
    · rintro (hu | ⟨-, rfl⟩)
      · exact absurd hu.2.1 hne
      · exact ⟨hlive, rfl, rfl⟩
    · rintro ⟨-, -, rfl⟩
      exact Or.inr ⟨rfl, rfl⟩
  · rw [Function.update_of_ne hut]
    simp [hut]

theorem schedulerRemove_prio (t : Ptr) (s : Tasks) : (schedulerRemove t s).curPrio = s.curPrio ∧
    (schedulerRemove t s).basePrio = s.basePrio := by
  unfold schedulerRemove
  split <;> exact ⟨rfl, rfl⟩

theorem readyInv_leave (h : ReadyInv s Q) (hT : TableInv s) (hlive : s.Live t) (hr : s.state t = .ready)
    (hq : SameQueues (schedulerRemove t s) s')
    (hgone : ∀ u, s'.Live u ∧ s'.state u = .ready ↔ u ≠ t ∧ s.Live u ∧ s.state u = .ready) :
    ReadyInv s' (Function.update Q (s.curPrio t) ((Q (s.curPrio t)).erase t)) := by
  have hp := (hT.prio t hlive).1
  have ht : t ∈ Q (s.curPrio t) := (h.mem _ hp t).2 ⟨hlive, hr, rfl⟩
  have hqs := queues_remove h.toQueues hp ht hr (Or.inl (readyIndex_of_lt hp))
  refine ⟨hqs.congr hq, fun q hq32 u => ?_⟩
  rw [mem_erase_update h.toQueues hp ht hq32, h.mem q hq32 u, hq.curPrio, (schedulerRemove_prio t s).1]
  have := hgone u
  tauto

end

end Sched
end AmitX
