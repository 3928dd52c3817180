import AmitX.Sched.CallsRun
/-!
# Queues — wait queues as lists

The functions on wait queues alone, for any tasks and any queues: each queue holds what has been pushed and not been
popped, removed or woken since, in the order of the pushes.
-/
namespace AmitX
namespace Sched

open Links Run

/-- The calls; `task_wake_all_queue` takes as many turns of its loop as it needs. -/
inductive QueueCall
  | push (q : QueuePtr) (t : Ptr)
  | pop (q : QueuePtr)
  | remove (q : QueuePtr) (t : Ptr)
  | wakeAll (q : QueuePtr) (turns : Nat)

def QueueCall.run (s : Tasks) : QueueCall → Option Ptr × Tasks
  | .push q t => (none, taskQueuePush q t s)
  | .pop q => taskQueuePop q s
  | .remove q t => (none, taskQueueRemove q t s)
  | .wakeAll q turns => (none, wakeQueueLoop q turns s)

def queueStep (s : Tasks) (c : QueueCall) : QueueCall × Tasks := (c, (c.run s).2)

def QueueCall.queues (V : QueuePtr → List Ptr) : QueueCall → QueuePtr → List Ptr
  | .push q t => Function.update V q (V q ++ [t])
  | .pop q => Function.update V q (V q).tail
  | .remove q t => Function.update V q ((V q).erase t)
  | .wakeAll q _ => Function.update V q []

/-- The tasks on each queue after some calls, in the order in which they came. -/
def queuesOf (cs : List QueueCall) : QueuePtr → List Ptr := cs.foldl QueueCall.queues (fun _ => [])

/-- A task is pushed that is on no queue, and the loop over a queue has come to its end. -/
def QueueCall.Legal (before : List QueueCall) (s : Tasks) : QueueCall → Prop
  | .push _ t => ∀ r, t ∉ queuesOf before r
  | .wakeAll q turns => (wakeQueueLoop q turns s).waitHead q = none
  | _ => True

/-- **The queues are stored**: along `wait_next` from the head, backwards along `wait_prev` from the tail, and each task
names the queue that it is on, or none. -/
structure StoresQueues (s : Tasks) (V : QueuePtr → List Ptr) : Prop where
  next : ∀ q, Along s.wait.next (s.waitHead q) (V q)
  prev : ∀ q, Along s.wait.prev (s.waitTail q) (V q).reverse
  queue : ∀ t q, s.waitQueue t = some q ↔ t ∈ V q

/-- What the calls answer and do besides: a pop answers the first task, a task that is not on the queue is removed
without effect, and the tasks of a queue are woken, no others. -/
def QueueCall.Answers (V : QueuePtr → List Ptr) (s : Tasks) : QueueCall → Prop
  | .push _ _ => True
  | .pop q => (taskQueuePop q s).1 = (V q).head?
  | .remove q t => t ∉ V q → taskQueueRemove q t s = s
  | .wakeAll q turns => ∀ t, (wakeQueueLoop q turns s).state t = if t ∈ V q then .ready else s.state t

/-- After `task_queue_init` of all queues, before a task is on one of them. -/
def emptyQueues (memory : Tasks) : Tasks :=
  { memory with waitHead := fun _ => none, waitTail := fun _ => none, waitQueue := fun _ => none }

structure QueuesOk (s : Tasks) (V : QueuePtr → List Ptr) : Prop where
  lists : Family s.wait s.waitHead s.waitTail V
  queue : ∀ t q, s.waitQueue t = some q ↔ t ∈ V q

section

variable {s s' : Tasks} {V : QueuePtr → List Ptr} {t u : Ptr} {q : QueuePtr}

theorem queuesOf_concat (cs : List QueueCall) (c : QueueCall) : queuesOf (cs ++ [c]) = c.queues (queuesOf cs) := by
  unfold queuesOf
  rw [List.foldl_append]
  rfl

theorem QueuesOk.stores (h : QueuesOk s V) : StoresQueues s V := by
  refine ⟨fun q => ?_, fun q => ?_, h.queue⟩
  · rw [h.lists.head q]
    exact (h.lists.seg q).along_next
  · rw [h.lists.tail q]
    exact (h.lists.seg q).along_prev

theorem QueuesOk.congr (h : QueuesOk s V) (hs : SameWaits s s') : QueuesOk s' V := by
  refine ⟨?_, ?_⟩
  · rw [hs.wait, hs.waitHead, hs.waitTail]
    exact h.lists
  · rw [hs.waitQueue]
    exact h.queue

/-! ## One call -/

theorem QueuesOk.push (h : QueuesOk s V) (ht : ∀ r, t ∉ V r) (q : QueuePtr) :
    QueuesOk (taskQueuePush q t s) (Function.update V q (V q ++ [t])) := by
  refine ⟨h.lists.push ht, fun u r => ?_⟩
  change Function.update s.waitQueue t (some q) u = some r ↔ _
  rw [mem_push]
  by_cases hut : u = t
  · subst hut
    rw [Function.update_self]
    refine ⟨fun he => Or.inr ⟨rfl, (Option.some.inj he).symm⟩, ?_⟩
    rintro (hm | ⟨-, rfl⟩)
    · exact absurd hm (ht r)
    · rfl
  · rw [Function.update_of_ne hut, h.queue u r]
    exact ⟨Or.inl, fun ho => ho.resolve_right (fun hc => hut hc.1)⟩

theorem QueuesOk.remove (h : QueuesOk s V) (q : QueuePtr) (t : Ptr) :
    QueuesOk (taskQueueRemove q t s) (Function.update V q ((V q).erase t)) := by
  by_cases hm : t ∈ V q
  · rw [taskQueueRemove_of_eq ((h.queue t q).2 hm)]
    refine ⟨h.lists.remove hm, fun u r => ?_⟩
    change Function.update s.waitQueue t none u = some r ↔ _
    rw [h.lists.mem_erase hm]
    by_cases hut : u = t
    · subst hut
      rw [Function.update_self]
      exact iff_of_false (by simp) (fun hc => hc.1 rfl)
    · rw [Function.update_of_ne hut, h.queue u r]
      exact (and_iff_right hut).symm
  · have hne : s.waitQueue t ≠ some q := fun he => hm ((h.queue t q).1 he)
    unfold taskQueueRemove
    rw [if_pos hne, List.erase_of_not_mem hm, Function.update_eq_self]
    exact h

theorem remove_absent (h : QueuesOk s V) (hm : t ∉ V q) : taskQueueRemove q t s = s := by
  unfold taskQueueRemove
  exact if_pos (fun he => hm ((h.queue t q).1 he))

theorem erase_head {α : Type} [DecidableEq α] {l : List α} {a : α} (h : l.head? = some a) : l.erase a = l.tail := by
  cases l with
  | nil => cases h
  | cons b l =>
    cases h
    exact List.erase_cons_head ..

theorem QueuesOk.pop (h : QueuesOk s V) (q : QueuePtr) :
    QueuesOk (taskQueuePop q s).2 (Function.update V q (V q).tail) ∧ (taskQueuePop q s).1 = (V q).head? := by
  have hhead := h.lists.head q
  cases hw : s.waitHead q with
  | none =>
    rw [taskQueuePop_of_none hw]
    rw [hw] at hhead
    refine ⟨?_, hhead⟩
    rw [List.head?_eq_none_iff.1 hhead.symm, List.tail_nil, ← List.head?_eq_none_iff.1 hhead.symm, Function.update_eq_self]
    exact h
  | some t =>
    rw [taskQueuePop_of_some hw]
    rw [hw] at hhead
    refine ⟨?_, hhead⟩
    rw [← erase_head hhead.symm]
    exact h.remove q t

theorem QueuesOk.wakeLoop (q : QueuePtr) : ∀ (n : Nat) {s : Tasks} {V : QueuePtr → List Ptr}, QueuesOk s V →
    QueuesOk (wakeQueueLoop q n s) (Function.update V q ((V q).drop n)) ∧
      ∀ u, (wakeQueueLoop q n s).state u = if u ∈ (V q).take n then .ready else s.state u
  | 0, s, V, h => by
    rw [List.drop_zero, Function.update_eq_self]
    exact ⟨h, fun u => by simp [wakeQueueLoop]⟩
  | n + 1, s, V, h => by
    have hhead := h.lists.head q
    cases hw : s.waitHead q with
    | none =>
      rw [hw] at hhead
      have hnil := List.head?_eq_none_iff.1 hhead.symm
      rw [wakeQueueLoop_of_none hw, hnil, List.drop_nil, ← hnil, Function.update_eq_self]
      exact ⟨h, fun u => by simp [hnil]⟩
    | some t =>
      rw [hw] at hhead
      obtain ⟨l, hl⟩ : ∃ l, V q = t :: l := List.head?_eq_some_iff.1 hhead.symm
      have h1 : QueuesOk (wakeTask t (setWakeReason t .signaled (taskQueueRemove q t s)))
          (Function.update V q l) := by
        have hrem := h.remove q t
        rw [erase_head hhead.symm, hl, List.tail_cons] at hrem
        exact hrem.congr ⟨rfl, rfl, rfl, rfl, rfl⟩
      obtain ⟨h2, h3⟩ := h1.wakeLoop q n
      rw [wakeQueueLoop_of_some hw]
      refine ⟨?_, fun u => ?_⟩
      · rw [Function.update_self, Function.update_idem] at h2
        rw [hl, List.drop_succ_cons]
        exact h2
      · rw [h3 u, Function.update_self, hl, List.take_succ_cons]
        have hstate : (wakeTask t (setWakeReason t .signaled (taskQueueRemove q t s))).state =
            Function.update s.state t .ready := by
          change Function.update (taskQueueRemove q t s).state t _ = _
          rw [(same_taskQueueRemove q t s).state]
        rw [hstate]
        by_cases hu : u = t
        · rw [hu, Function.update_self]
          simp
        · rw [Function.update_of_ne hu]
          simp [hu]

theorem QueuesOk.wakeLoop_done (h : QueuesOk s V) {n : Nat} (hn : (V q).length ≤ n) :
    (wakeQueueLoop q n s).waitHead q = none := by
  rw [(h.wakeLoop q n).1.lists.head q, Function.update_self, List.drop_eq_nil_of_le hn]
  rfl

theorem QueuesOk.length_le (h : QueuesOk s V) {n : Nat} (hd : (wakeQueueLoop q n s).waitHead q = none) :
    (V q).length ≤ n := by
  rw [(h.wakeLoop q n).1.lists.head q, Function.update_self, List.head?_eq_none_iff] at hd
  exact List.drop_eq_nil_iff.1 hd

theorem QueuesOk.call {cs : List QueueCall} {c : QueueCall} (h : QueuesOk s (queuesOf cs)) (hc : c.Legal cs s) :
    QueuesOk (c.run s).2 (queuesOf (cs ++ [c])) ∧ c.Answers (queuesOf cs) s := by
  rw [queuesOf_concat]
  cases c with
  | push q t => exact ⟨h.push hc q, trivial⟩
  | pop q => exact h.pop q
  | remove q t => exact ⟨h.remove q t, remove_absent h⟩
  | wakeAll q turns =>
    have hlen := h.length_le hc
    obtain ⟨h1, h2⟩ := h.wakeLoop q turns
    rw [List.drop_eq_nil_of_le hlen] at h1
    rw [List.take_of_length_le hlen] at h2
    exact ⟨h1, h2⟩

/-! ## Runs -/

theorem queuesOk_empty (memory : Tasks) : QueuesOk (emptyQueues memory) (queuesOf []) :=
  ⟨⟨fun _ => trivial, fun _ => List.nodup_nil, fun _ => rfl, fun _ => rfl, fun _ _ _ ht => by cases ht⟩,
    fun _ _ => iff_of_false (by simp [emptyQueues]) (by simp [queuesOf])⟩

theorem run_queueStep (cs : List QueueCall) : ∀ s, (run queueStep s cs).1 = cs := by
  induction cs with
  | nil => exact fun _ => rfl
  | cons c cs ih => exact fun s => congrArg (c :: ·) (ih _)

theorem queuesOk_run (memory : Tasks) (cs : List QueueCall)
    (hA : Allowed queueStep (fun es s c => c.Legal es s) (emptyQueues memory) cs) :
    QueuesOk (run queueStep (emptyQueues memory) cs).2 (queuesOf cs) := by
  have h := run_keeps (I := fun es s => QueuesOk s (queuesOf es)) (A := fun es s c => QueueCall.Legal es s c)
    (fun es s c h hc => show QueuesOk (c.run s).2 (queuesOf (es ++ [c])) from (h.call hc).1) (queuesOk_empty memory) cs hA
  rwa [run_queueStep] at h

/-- **Wait queues are FIFO queues with deletion**: after every sequence of calls each queue holds the tasks that have
been pushed and not been popped, removed or woken, in the order of the pushes; every call answers accordingly, and the
loop over a queue always comes to its end. -/
theorem wait_queues_fifo (memory : Tasks) (cs : List QueueCall)
    (hA : Allowed queueStep (fun es s c => c.Legal es s) (emptyQueues memory) cs) :
    (∀ before after, cs = before ++ after →
      StoresQueues (run queueStep (emptyQueues memory) before).2 (queuesOf before) ∧
      ∀ q turns, (queuesOf before q).length ≤ turns →
        (wakeQueueLoop q turns (run queueStep (emptyQueues memory) before).2).waitHead q = none) ∧
    Allowed queueStep (fun es s c => c.Answers (queuesOf es) s) (emptyQueues memory) cs := by
  constructor
  · rintro before after rfl
    have h := queuesOk_run memory before hA.left
    exact ⟨h.stores, fun q turns hn => h.wakeLoop_done hn⟩
  · rintro before c after rfl
    have h := queuesOk_run memory before hA.left
    have hc := hA.last
    rw [run_queueStep] at hc ⊢
    exact (h.call hc).2

def twoPushes : List QueueCall := [.push 7 1, .push 7 2, .remove 7 1, .wakeAll 7 5]

theorem allowed_twoPushes : Allowed queueStep (fun es s c => c.Legal es s) (emptyQueues zeroTasks) twoPushes := by
  rintro before c after he
  rcases before with _ | ⟨b1, _ | ⟨b2, _ | ⟨b3, _ | ⟨b4, before⟩⟩⟩⟩ <;> simp only [twoPushes, List.nil_append,
    List.cons_append, List.cons.injEq] at he
  · obtain ⟨rfl, -⟩ := he
    exact fun r hr => by cases hr
  · obtain ⟨rfl, rfl, -⟩ := he
    intro r hr
    have hr : (2 : Ptr) ∈ Function.update (fun _ => ([] : List Ptr)) 7 [1] r := hr
    by_cases h7 : r = 7
    · rw [h7, Function.update_self] at hr
      simp at hr
    · rw [Function.update_of_ne h7] at hr
      cases hr
  · obtain ⟨rfl, rfl, rfl, -⟩ := he
    trivial
  · obtain ⟨rfl, rfl, rfl, rfl, -⟩ := he
    rfl
  · simp at he

theorem wait_queues_fifo_twoPushes :
    StoresQueues (run queueStep (emptyQueues zeroTasks) [.push 7 1, .push 7 2, .remove 7 1]).2
      (queuesOf [.push 7 1, .push 7 2, .remove 7 1]) :=
  ((wait_queues_fifo zeroTasks twoPushes allowed_twoPushes).1 _ [.wakeAll 7 5] rfl).1

end

end Sched
end AmitX
