import AmitX.Lib.Chains
import AmitX.Sched.Ready
/-!
# Waits — the wait queues

A wait queue holds the blocked tasks that name it, in the order in which they came.
-/
namespace AmitX
namespace Sched

open Links

/-- **The wait queues hold exactly the blocked tasks that name them**, as well-formed lists. -/
structure Waits (s : Tasks) (V : QueuePtr → List Ptr) : Prop where
  lists : Family s.wait s.waitHead s.waitTail V
  mem : ∀ q t, t ∈ V q ↔ s.Live t ∧ s.state t = .blocked ∧ s.waitQueue t = some q
  free : ∀ t, s.Live t → s.state t ≠ .blocked → s.waitQueue t = none

structure SameWaits (s s' : Tasks) : Prop where
  wait : s'.wait = s.wait
  waitHead : s'.waitHead = s.waitHead
  waitTail : s'.waitTail = s.waitTail
  waitQueue : s'.waitQueue = s.waitQueue
  taskTable : s'.taskTable = s.taskTable

section

variable {s s' s'' : Tasks} {V : QueuePtr → List Ptr} {t u : Ptr} {q : QueuePtr}

theorem SameWaits.refl (s : Tasks) : SameWaits s s := ⟨rfl, rfl, rfl, rfl, rfl⟩

theorem SameWaits.trans (h : SameWaits s s') (h' : SameWaits s' s'') : SameWaits s s'' :=
  ⟨h'.wait.trans h.wait, h'.waitHead.trans h.waitHead, h'.waitTail.trans h.waitTail, h'.waitQueue.trans h.waitQueue,
    h'.taskTable.trans h.taskTable⟩

theorem Waits.congr (h : Waits s V) (hs : SameWaits s s')
    (hb : ∀ t, s.Live t → (s'.state t = .blocked ↔ s.state t = .blocked)) : Waits s' V := by
  refine ⟨by rw [hs.wait, hs.waitHead, hs.waitTail]; exact h.lists, fun q t => ?_, fun t hl hne => ?_⟩
  · rw [h.mem q t, live_congr hs.taskTable, hs.waitQueue]
    refine and_congr_right fun hl => ?_
    rw [hb t hl]
  · rw [live_congr hs.taskTable] at hl
    rw [hs.waitQueue]
    exact h.free t hl (fun he => hne ((hb t hl).2 he))

theorem Waits.congr_state (h : Waits s V) (hs : SameWaits s s') (hb : s'.state = s.state) : Waits s' V :=
  h.congr hs (fun _ _ => by rw [hb])

theorem Waits.head_spec (h : Waits s V) (ht : s.waitHead q = some t) :
    t ∈ V q ∧ s.Live t ∧ s.state t = .blocked ∧ s.waitQueue t = some q := by
  rw [h.lists.head q] at ht
  have hm := List.mem_of_mem_head? ht
  exact ⟨hm, (h.mem q t).1 hm⟩

theorem same_waits_schedulerAdd (t : Ptr) (s : Tasks) : SameWaits s (schedulerAdd t s) := ⟨rfl, rfl, rfl, rfl, rfl⟩

theorem same_waits_schedulerRemove (t : Ptr) (s : Tasks) : SameWaits s (schedulerRemove t s) := by
  unfold schedulerRemove
  split <;> exact ⟨rfl, rfl, rfl, rfl, rfl⟩

theorem same_waits_switchTo (t : Ptr) (s : Tasks) : SameWaits s (switchTo t s) := ⟨rfl, rfl, rfl, rfl, rfl⟩

theorem same_waits_requeue (old : Option Ptr) (s : Tasks) : SameWaits s (requeue old s) := by
  unfold requeue
  cases old with
  | none => exact SameWaits.refl s
  | some t =>
    simp only
    split
    · exact same_waits_schedulerAdd t s
    · exact SameWaits.refl s

theorem same_waits_schedule (s : Tasks) : SameWaits s (schedule s) := by
  have hn : SameWaits s (schedulerNext s).2 := ⟨rfl, rfl, rfl, rfl, rfl⟩
  unfold schedule
  cases (schedulerNext s).1 with
  | none => exact hn
  | some next =>
    simp only
    split
    · exact hn
    · exact ((hn.trans (same_waits_requeue _ _)).trans (same_waits_schedulerRemove _ _)).trans (same_waits_switchTo _ _)

theorem same_waits_timerWheelRemove (t : Ptr) (s : Tasks) : SameWaits s (timerWheelRemove t s) := by
  unfold timerWheelRemove
  split <;> exact ⟨rfl, rfl, rfl, rfl, rfl⟩

theorem same_waits_timerWheelInsert (t : Ptr) (n : Nat) (s : Tasks) : SameWaits s (timerWheelInsert t n s) :=
  (same_waits_timerWheelRemove t s).trans ⟨rfl, rfl, rfl, rfl, rfl⟩

theorem same_waits_changePrio (t : Ptr) (prio : Nat) (s : Tasks) : SameWaits s (changePrio t prio s) := by
  have h1 : SameWaits s { s with curPrio := Function.update s.curPrio t prio } := ⟨rfl, rfl, rfl, rfl, rfl⟩
  unfold changePrio
  simp only
  split
  · exact (h1.trans (same_waits_schedulerRemove t _)).trans (same_waits_schedulerAdd t _)
  · exact h1

theorem taskQueueRemove_of_eq (h : s.waitQueue t = some q) : taskQueueRemove q t s =
    { s with
      wait := s.wait.unlink t
      waitHead := if (s.wait.prev t).isSome then s.waitHead else Function.update s.waitHead q (s.wait.next t)
      waitTail := if (s.wait.next t).isSome then s.waitTail else Function.update s.waitTail q (s.wait.prev t)
      waitQueue := Function.update s.waitQueue t none } := by
  unfold taskQueueRemove
  rw [if_neg (not_not.2 h)]

theorem Waits.enter (h : Waits s V) (hl : s.Live t) (hne : s.state t ≠ .blocked)
    (hs : SameWaits (taskQueuePush q t s) s') (ht : s'.state t = .blocked)
    (hother : ∀ u, u ≠ t → s'.state u = s.state u) : Waits s' (Function.update V q (V q ++ [t])) := by
  have hout : ∀ r, t ∉ V r := fun r hm => hne ((h.mem r t).1 hm).2.1
  have hlv : ∀ u, s'.Live u ↔ s.Live u := fun u => live_congr hs.taskTable
  have hwq : s'.waitQueue = Function.update s.waitQueue t (some q) := hs.waitQueue
  refine ⟨?_, fun r u => ?_, fun u hlu hnu => ?_⟩
  · rw [hs.wait, hs.waitHead, hs.waitTail]
    exact h.lists.push hout
  · rw [mem_push, h.mem r u, hlv u, hwq]
    by_cases hut : u = t
    · subst hut
      rw [Function.update_self, ht]
      simp [hne, hl, eq_comm]
    · rw [Function.update_of_ne hut, hother u hut]
      simp [hut]
  · have hut : u ≠ t := by
      rintro rfl
      exact hnu ht
    rw [hwq, Function.update_of_ne hut]
    rw [hother u hut] at hnu
    exact h.free u ((hlv u).1 hlu) hnu

theorem Waits.leave (h : Waits s V) (hm : t ∈ V q) (hw : s.waitQueue t = some q)
    (hlists : s'.wait = (taskQueueRemove q t s).wait ∧ s'.waitHead = (taskQueueRemove q t s).waitHead ∧
      s'.waitTail = (taskQueueRemove q t s).waitTail ∧ s'.waitQueue = (taskQueueRemove q t s).waitQueue)
    (hgone : s'.Live t → s'.state t ≠ .blocked) (hother : ∀ u, u ≠ t → s'.state u = s.state u ∧ (s'.Live u ↔ s.Live u)) :
    Waits s' (Function.update V q ((V q).erase t)) := by
  obtain ⟨h1, h2, h3, h4⟩ := hlists
  rw [taskQueueRemove_of_eq hw] at h1 h2 h3 h4
  have h4 : s'.waitQueue = Function.update s.waitQueue t none := h4
  refine ⟨?_, fun r u => ?_, fun u hlu hnu => ?_⟩
  · rw [h1, h2, h3]
    exact h.lists.remove hm
  · rw [h.lists.mem_erase hm, h.mem r u, h4]
    by_cases hut : u = t
    · subst hut
      simp
    · rw [Function.update_of_ne hut, (hother u hut).1, (hother u hut).2]
      simp [hut]
  · rw [h4]
    by_cases hut : u = t
    · rw [hut, Function.update_self]
    · rw [Function.update_of_ne hut]
      rw [(hother u hut).1] at hnu
      exact h.free u ((hother u hut).2.1 hlu) hnu

theorem Waits.congr_task (h : Waits s V) (hout : ∀ r, t ∉ V r)
    (hs : s'.waitHead = s.waitHead ∧ s'.waitTail = s.waitTail)
    (hwait : ∀ u, u ≠ t → s'.wait.next u = s.wait.next u ∧ s'.wait.prev u = s.wait.prev u)
    (hnew : s'.Live t → s'.state t ≠ .blocked ∧ s'.waitQueue t = none)
    (hother : ∀ u, u ≠ t → (s'.Live u ↔ s.Live u) ∧ (s.Live u → s'.state u = s.state u ∧ s'.waitQueue u = s.waitQueue u)) :
    Waits s' V := by
  refine ⟨?_, fun r u => ?_, fun u hlu hnu => ?_⟩
  · rw [hs.1, hs.2]
    refine h.lists.congr (fun r u hu => hwait u ?_)
    rintro rfl
    exact hout r hu
  · by_cases hut : u = t
    · subst hut
      refine ⟨fun hu => absurd hu (hout r), fun hu => absurd hu.2.1 (hnew hu.1).1⟩
    · rw [h.mem r u, (hother u hut).1]
      refine and_congr_right fun hl => ?_
      rw [((hother u hut).2 hl).1, ((hother u hut).2 hl).2]
  · by_cases hut : u = t
    · subst hut
      exact (hnew hlu).2
    · have hl := (hother u hut).1.1 hlu
      rw [((hother u hut).2 hl).1] at hnu
      rw [((hother u hut).2 hl).2]
      exact h.free u hl hnu

end

end Sched
end AmitX
