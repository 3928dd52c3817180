import Mathlib.Algebra.Order.Group.Multiset
import Mathlib.Data.List.Nodup
import Mathlib.Logic.Function.Basic
import Mathlib.Logic.Relation
import Mathlib.Tactic.Abel
/-!
# Dfs — a depth-first walk with a table of what was visited

A node has steps, each of which adds items to a list and may go on to another node.  `visit` marks a node and takes its
steps in order, and returns at once from one that is marked.  Its fuel is the depth, for which the nodes not yet marked
are a bound.
-/

namespace Dfs

variable {N α : Type}

structure State (N α : Type) where
  visited : N → Bool
  out : List α

def State.mark [DecidableEq N] (b : N) (s : State N α) : State N α := { s with visited := Function.update s.visited b true }

def State.add (items : List α) (s : State N α) : State N α := { s with out := items ++ s.out }

variable (steps : N → List (List α × Option N))

def visit [DecidableEq N] : Nat → N → State N α → Option (State N α)
  | 0, _, _ => none
  | n + 1, b, s =>
    if s.visited b then some s
    else (steps b).foldlM (fun s step =>
      match step.2 with
      | none => some (s.add step.1)
      | some c => visit n c (s.add step.1)) (s.mark b)

def Edge (b c : N) : Prop := ∃ items, (items, some c) ∈ steps b

def items (b : N) : List α := (steps b).flatMap Prod.fst

/-- The steps `L` were taken and visited the nodes of `new`, each once, and all that these lead to. -/
structure Walked (L : List (List α × Option N)) (s s' : State N α) (new : List N) : Prop where
  visited : ∀ b, s'.visited b = true ↔ s.visited b = true ∨ b ∈ new
  nodup : new.Nodup
  fresh : ∀ b ∈ new, s.visited b = false
  reach : ∀ b ∈ new, ∃ items a, (items, some a) ∈ L ∧ Relation.ReflTransGen (Edge steps) a b
  closed : ∀ b ∈ new, ∀ c, Edge steps b c → s'.visited c = true
  taken : ∀ items c, (items, some c) ∈ L → s'.visited c = true
  out : s'.out.Perm (new.flatMap (items steps) ++ L.flatMap Prod.fst ++ s.out)

section

variable {steps} {L L' : List (List α × Option N)} {s s' s'' : State N α} {new new' : List N} {b : N} {n : Nat}

/-! ## Steps that were taken -/

theorem walked_nil (s : State N α) : Walked steps [] s s [] where
  visited b := by simp
  nodup := List.nodup_nil
  fresh b hb := absurd hb List.not_mem_nil
  reach b hb := absurd hb List.not_mem_nil
  closed b hb := absurd hb List.not_mem_nil
  taken items c h := absurd h List.not_mem_nil
  out := List.Perm.refl _

theorem Walked.append (h : Walked steps L s s' new) (h' : Walked steps L' s' s'' new') :
    Walked steps (L ++ L') s s'' (new ++ new') := by
  have hgrow : ∀ b, s'.visited b = true → s''.visited b = true := fun b hb => (h'.visited b).2 (.inl hb)
  have hold : ∀ b ∈ new', s.visited b = false ∧ b ∉ new := by
    intro b hb
    have hfresh := h'.fresh b hb
    refine ⟨Bool.eq_false_of_not_eq_true fun hv => ?_, fun hv => ?_⟩
    · rw [(h.visited b).2 (.inl hv)] at hfresh
      cases hfresh
    · rw [(h.visited b).2 (.inr hv)] at hfresh
      cases hfresh
  refine ⟨fun b => ?_, ?_, fun b hb => ?_, fun b hb => ?_, fun b hb c hc => ?_, fun items c hc => ?_, ?_⟩
  · rw [h'.visited, h.visited, List.mem_append, or_assoc]
  · exact List.nodup_append'.2 ⟨h.nodup, h'.nodup, fun b hb hb' => (hold b hb').2 hb⟩
  · rcases List.mem_append.1 hb with hb | hb
    · exact h.fresh b hb
    · exact (hold b hb).1
  · rcases List.mem_append.1 hb with hb | hb
    · obtain ⟨items, a, ha, hreach⟩ := h.reach b hb
      exact ⟨items, a, List.mem_append_left _ ha, hreach⟩
    · obtain ⟨items, a, ha, hreach⟩ := h'.reach b hb
      exact ⟨items, a, List.mem_append_right _ ha, hreach⟩
  · rcases List.mem_append.1 hb with hb | hb
    · exact hgrow c (h.closed b hb c hc)
    · exact h'.closed b hb c hc
  · rcases List.mem_append.1 hc with hc | hc
    · exact hgrow c (h.taken items c hc)
    · exact h'.taken items c hc
  · refine h'.out.trans ?_
    rw [List.flatMap_append, List.flatMap_append]
    have hperm := (List.Perm.refl (new'.flatMap (items steps) ++ L'.flatMap Prod.fst)).append h.out
    refine hperm.trans ?_
    rw [← Multiset.coe_eq_coe]
    simp only [← Multiset.coe_add]
    abel

theorem walked_add (items : List α) (s : State N α) : Walked steps [(items, none)] s (s.add items) [] where
  visited b := by simp [State.add]
  nodup := List.nodup_nil
  fresh b hb := absurd hb List.not_mem_nil
  reach b hb := absurd hb List.not_mem_nil
  closed b hb := absurd hb List.not_mem_nil
  taken items' c h := by simp at h
  out := by simp [State.add]

theorem Walked.add {items : List α} (h : Walked steps [([], some b)] (s.add items) s' new) :
    Walked steps [(items, some b)] s s' new where
  visited := h.visited
  nodup := h.nodup
  fresh := h.fresh
  reach c hc := by
    obtain ⟨_, a, ha, hreach⟩ := h.reach c hc
    simp only [List.mem_singleton, Prod.mk.injEq, Option.some.injEq] at ha
    exact ⟨items, a, by simp [ha.2], hreach⟩
  closed := h.closed
  taken items' c hc := by
    simp only [List.mem_singleton, Prod.mk.injEq, Option.some.injEq] at hc
    exact h.taken [] c (by simp [hc.2])
  out := by simpa [State.add] using h.out

theorem walked_visited (hb : s.visited b = true) : Walked steps [([], some b)] s s [] where
  visited b := by simp
  nodup := List.nodup_nil
  fresh b hb := absurd hb List.not_mem_nil
  reach b hb := absurd hb List.not_mem_nil
  closed b hb := absurd hb List.not_mem_nil
  taken items c hc := by
    simp only [List.mem_singleton, Prod.mk.injEq, Option.some.injEq] at hc
    rw [hc.2, hb]
  out := by simp

theorem Walked.node [DecidableEq N] (hb : s.visited b = false) (h : Walked steps (steps b) (s.mark b) s' new) :
    Walked steps [([], some b)] s s' (b :: new) := by
  have hmark : ∀ c, (s.mark b).visited c = true ↔ c = b ∨ s.visited c = true := by
    intro c
    by_cases hc : c = b
    · subst hc
      simp [State.mark]
    · simp [State.mark, hc]
  refine ⟨fun c => ?_, ?_, fun c hc => ?_, fun c hc => ?_, fun c hc d hd => ?_, fun items c hc => ?_, ?_⟩
  · rw [h.visited, hmark, List.mem_cons]
    tauto
  · refine List.nodup_cons.2 ⟨fun hin => ?_, h.nodup⟩
    have hf := h.fresh b hin
    rw [(hmark b).2 (.inl rfl)] at hf
    cases hf
  · rcases List.mem_cons.1 hc with rfl | hc
    · exact hb
    · refine Bool.eq_false_of_not_eq_true fun hv => ?_
      have hf := h.fresh c hc
      rw [(hmark c).2 (.inr hv)] at hf
      cases hf
  · refine ⟨[], b, List.mem_singleton.2 rfl, ?_⟩
    rcases List.mem_cons.1 hc with rfl | hc
    · exact .refl
    · obtain ⟨items, a, ha, hreach⟩ := h.reach c hc
      exact .head ⟨items, ha⟩ hreach
  · rcases List.mem_cons.1 hc with rfl | hc
    · obtain ⟨items, hd⟩ := hd
      exact h.taken items d hd
    · exact h.closed c hc d hd
  · simp only [List.mem_singleton, Prod.mk.injEq, Option.some.injEq] at hc
    rw [hc.2]
    exact (h.visited b).2 (.inl ((hmark b).2 (.inl rfl)))
  · refine h.out.trans ?_
    rw [List.flatMap_cons]
    change (new.flatMap (items steps) ++ items steps b ++ s.out).Perm _
    have hcomm : (new.flatMap (items steps) ++ items steps b).Perm (items steps b ++ new.flatMap (items steps)) :=
      List.perm_append_comm
    have hswap := hcomm.append_right s.out
    simpa using hswap

/-! ## The walk -/

theorem walked_foldlM {call : N → State N α → Option (State N α)}
    (hcall : ∀ c s s', call c s = some s' → ∃ new, Walked steps [([], some c)] s s' new)
    (h : L.foldlM (fun s step =>
      match step.2 with
      | none => some (s.add step.1)
      | some c => call c (s.add step.1)) s = some s') : ∃ new, Walked steps L s s' new := by
  induction L generalizing s with
  | nil =>
    cases h
    exact ⟨[], walked_nil _⟩
  | cons step L ih =>
    rw [List.foldlM_cons, Option.bind_eq_bind, Option.bind_eq_some_iff] at h
    obtain ⟨t, hstep, hrest⟩ := h
    obtain ⟨new', hwalk⟩ := ih hrest
    obtain ⟨items, child⟩ := step
    cases child with
    | none =>
      cases hstep
      exact ⟨new', (walked_add items s).append hwalk⟩
    | some c =>
      obtain ⟨new, hchild⟩ := hcall c _ _ hstep
      exact ⟨new ++ new', hchild.add.append hwalk⟩

theorem visit_walked [DecidableEq N] (h : visit steps n b s = some s') : ∃ new, Walked steps [([], some b)] s s' new := by
  induction n generalizing b s s' with
  | zero => cases h
  | succ n ih =>
    unfold visit at h
    by_cases hb : s.visited b = true
    · rw [if_pos hb] at h
      cases h
      exact ⟨[], walked_visited hb⟩
    · rw [if_neg hb] at h
      obtain ⟨new, hwalk⟩ := walked_foldlM (fun c s s' hc => ih hc) h
      exact ⟨b :: new, hwalk.node (Bool.eq_false_of_not_eq_true hb)⟩

def State.left (all : List N) (s : State N α) : Nat := all.countP (fun b => !s.visited b)

theorem Walked.left_le {all : List N} (h : Walked steps L s s' new) : s'.left all ≤ s.left all := by
  refine List.countP_mono_left fun b _ hb => ?_
  have hnot : s'.visited b = false := by simpa using hb
  cases hv : s.visited b with
  | false => rfl
  | true =>
    rw [(h.visited b).2 (.inl hv)] at hnot
    cases hnot

theorem left_mark_lt [DecidableEq N] {all : List N} (hall : b ∈ all) (hb : s.visited b = false) :
    (s.mark b).left all < s.left all := by
  obtain ⟨l, r, rfl⟩ := List.append_of_mem hall
  have hle : ∀ l : List N, l.countP (fun c => !(s.mark b).visited c) ≤ l.countP (fun c => !s.visited c) := by
    intro l
    refine List.countP_mono_left fun c _ hc => ?_
    by_cases hcb : c = b
    · subst hcb
      simp [State.mark] at hc
    · simpa [State.mark, hcb] using hc
  have hself : (s.mark b).visited b = true := by simp [State.mark]
  have hl := hle l
  have hr := hle r
  simp only [State.left, List.countP_append, List.countP_cons, hself, hb]
  simp only [Bool.not_true, Bool.false_eq_true, if_false, Bool.not_false, if_true]
  omega

theorem foldlM_total {call : N → State N α → Option (State N α)} {all : List N} {k : Nat}
    (hcall : ∀ c s, s.left all ≤ k → ∃ s', call c s = some s' ∧ s'.left all ≤ k) (hs : s.left all ≤ k) :
    ∃ s', L.foldlM (fun s step =>
      match step.2 with
      | none => some (s.add step.1)
      | some c => call c (s.add step.1)) s = some s' := by
  induction L generalizing s with
  | nil => exact ⟨s, rfl⟩
  | cons step L ih =>
    obtain ⟨items, child⟩ := step
    cases child with
    | none => exact ih hs
    | some c =>
      obtain ⟨t, ht, hle⟩ := hcall c (s.add items) hs
      obtain ⟨s', hs'⟩ := ih hle
      refine ⟨s', ?_⟩
      rw [List.foldlM_cons]
      dsimp only
      rw [ht]
      exact hs'

theorem visit_total [DecidableEq N] {all : List N} (hall : ∀ b, b ∈ all) (hn : s.left all < n) : ∃ s', visit steps n b s = some s' := by
  induction n generalizing b s with
  | zero => exact absurd hn (Nat.not_lt_zero _)
  | succ n ih =>
    unfold visit
    by_cases hb : s.visited b = true
    · exact ⟨s, if_pos hb⟩
    · rw [if_neg hb]
      have hlt := left_mark_lt (hall b) (Bool.eq_false_of_not_eq_true hb)
      refine foldlM_total (fun c t ht => ?_) (le_refl ((s.mark b).left all))
      obtain ⟨t', ht'⟩ := @ih t c (by omega)
      obtain ⟨new, hwalk⟩ := visit_walked ht'
      exact ⟨t', ht', hwalk.left_le.trans ht⟩

def start : State N α := ⟨fun _ => false, []⟩

theorem visit_start [DecidableEq N] (h : visit steps n b start = some s') : ∃ new : List N, new.Nodup ∧
    (∀ c, c ∈ new ↔ Relation.ReflTransGen (Edge steps) b c) ∧ s'.out.Perm (new.flatMap (items steps)) := by
  obtain ⟨new, hwalk⟩ := visit_walked h
  have hmem : ∀ c, s'.visited c = true ↔ c ∈ new := fun c => by simp [hwalk.visited, start]
  refine ⟨new, hwalk.nodup, fun c => ⟨fun hc => ?_, fun hc => ?_⟩, by simpa [start] using hwalk.out⟩
  · obtain ⟨_, a, ha, hreach⟩ := hwalk.reach c hc
    simp only [List.mem_singleton, Prod.mk.injEq, Option.some.injEq] at ha
    rw [← ha.2]
    exact hreach
  · induction hc with
    | refl => exact (hmem b).1 (hwalk.taken [] b (List.mem_singleton.2 rfl))
    | tail _ hedge ih => exact (hmem _).1 (hwalk.closed _ ih _ hedge)

end

end Dfs
