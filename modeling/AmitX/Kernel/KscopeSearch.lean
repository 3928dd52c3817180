import AmitX.Kernel.Kscope
import AmitX.Lib.DepOrder
import Mathlib.Data.List.GetD
import Mathlib.Data.List.Nodup
/-!
# KscopeSearch — what the search of the registry keeps

A search is doomed from the moment a node has been left with requirements on the stack: it meets that node again, and
ends with a cycle.  Until then every node visited is finished, and has been put out after the nodes it requires.
-/
namespace AmitX
namespace Kscope

open DepOrder (Ordered)

/-! ## States of the nodes -/

@[simp] theorem setState_node (k : Nodes) (p : Ptr) (st : NodeState) : (k.setState p st).node = k.node := rfl
@[simp] theorem setState_registry (k : Nodes) (p : Ptr) (st : NodeState) : (k.setState p st).registry = k.registry := rfl
@[simp] theorem setState_log (k : Nodes) (p : Ptr) (st : NodeState) : (k.setState p st).log = k.log := rfl
@[simp] theorem setState_state_self (k : Nodes) (p : Ptr) (st : NodeState) : (k.setState p st).state p = st :=
  Function.update_self ..
theorem setState_state_of_ne (k : Nodes) {p q : Ptr} (st : NodeState) (h : q ≠ p) :
    (k.setState p st).state q = k.state q :=
  Function.update_of_ne h ..

/-- The nodes are the same, and a state has changed to FAILED if at all. -/
structure Spoils (k k' : Nodes) : Prop where
  node : k'.node = k.node
  registry : k'.registry = k.registry
  log : k'.log = k.log
  state : ∀ q, k'.state q = k.state q ∨ k'.state q = .failed

theorem Spoils.refl (k : Nodes) : Spoils k k := ⟨rfl, rfl, rfl, fun _ => .inl rfl⟩

theorem Spoils.trans {k k' k'' : Nodes} (h : Spoils k k') (h' : Spoils k' k'') : Spoils k k'' where
  node := h'.node.trans h.node
  registry := h'.registry.trans h.registry
  log := h'.log.trans h.log
  state q := by
    rcases h'.state q with h1 | h1
    · rw [h1]
      exact h.state q
    · exact .inr h1

theorem spoils_setFailed (k : Nodes) (p : Ptr) : Spoils k (k.setState p .failed) where
  node := rfl
  registry := rfl
  log := rfl
  state q := by
    by_cases hq : q = p
    · subst hq
      exact .inr (setState_state_self ..)
    · exact .inl (setState_state_of_ne k _ hq)

theorem Spoils.failed {k k' : Nodes} (h : Spoils k k') {q : Ptr} (hq : k.state q = .failed) : k'.state q = .failed := by
  rcases h.state q with h1 | h1
  · rw [h1, hq]
  · exact h1

theorem Spoils.eq_of_ne {k k' : Nodes} (h : Spoils k k') {q : Ptr} (hq : k'.state q ≠ .failed) :
    k'.state q = k.state q :=
  (h.state q).resolve_right hq

/-! ## Registration -/

/-- The registry fits its array, and its nodes have distinct ids. -/
structure Registered (k : Nodes) : Prop where
  small : k.registry.length ≤ kscopeMaxNodes
  ids : (k.registry.map (fun p => (k.node p).id)).Nodup

theorem Registered.nodup {k : Nodes} (h : Registered k) : k.registry.Nodup := h.ids.of_map

theorem Registered.congr {k k' : Nodes} (h : Registered k) (hn : k'.node = k.node) (hr : k'.registry = k.registry) :
    Registered k' := by
  refine ⟨?_, ?_⟩
  · rw [hr]
    exact h.small
  · rw [hr, hn]
    exact h.ids

theorem registered_boot (node : Ptr → Node) (state : Ptr → NodeState) : Registered (boot node state) :=
  ⟨Nat.zero_le _, List.nodup_nil⟩

theorem kscopeRegister_cases (node : Option Ptr) (k : Nodes) : kscopeRegister node k = k ∨
    ∃ p, kscopeRegister node k = { k.setState p .registered with registry := k.registry ++ [p] } ∧
      k.registry.length < kscopeMaxNodes ∧ ∀ q ∈ k.registry, (k.node q).id ≠ (k.node p).id := by
  unfold kscopeRegister
  cases node with
  | none => exact .inl rfl
  | some p =>
    dsimp only
    split
    · exact .inl rfl
    · split
      · exact .inl rfl
      · split
        · exact .inl rfl
        · next hroom hid =>
          simp only [List.any_eq_true, beq_iff_eq, not_exists, not_and] at hid
          exact .inr ⟨p, rfl, Nat.lt_of_not_le hroom, hid⟩

theorem Registered.register {k : Nodes} (h : Registered k) (node : Option Ptr) : Registered (kscopeRegister node k) := by
  rcases kscopeRegister_cases node k with he | ⟨p, he, hroom, hid⟩ <;> rw [he]
  · exact h
  · refine ⟨?_, ?_⟩
    · change (k.registry ++ [p]).length ≤ kscopeMaxNodes
      rw [List.length_append, List.length_singleton]
      omega
    · change ((k.registry ++ [p]).map _).Nodup
      rw [List.map_append]
      refine List.nodup_append.2 ⟨h.ids, List.nodup_singleton _, ?_⟩
      rintro a ha b hb rfl
      obtain ⟨q, hq, he⟩ := List.mem_map.1 ha
      rw [List.map_singleton, List.mem_singleton] at hb
      exact hid q hq (he.trans hb)

/-! ## The spread of a failure -/

/-- The failure of `p` fails `p`, and else only nodes that have not run. -/
structure Fails (p : Ptr) (k k' : Nodes) : Prop extends Spoils k k' where
  self : k'.state p = .failed
  others : ∀ q, q ≠ p → k.state q ≠ .registered → k'.state q = k.state q

def registeredCount (k : Nodes) : Nat := k.registry.countP (fun p => decide (k.state p = .registered))

theorem Spoils.registeredCount_le {k k' : Nodes} (h : Spoils k k') : registeredCount k' ≤ registeredCount k := by
  unfold registeredCount
  rw [h.registry]
  refine List.countP_mono_left (fun p _ hp => ?_)
  have hp' : k'.state p = .registered := of_decide_eq_true hp
  rw [← h.eq_of_ne (by rw [hp']; decide), hp']
  rfl

theorem registeredCount_setFailed {k : Nodes} {p : Ptr} (hp : p ∈ k.registry) (hr : k.state p = .registered) :
    registeredCount (k.setState p .failed) < registeredCount k := by
  refine Loop.countP_lt (fun q _ hq => ?_) hp (by simp [hr]) (by simp)
  have hq' : (k.setState p .failed).state q = .registered := of_decide_eq_true hq
  rw [← (spoils_setFailed k p).eq_of_ne (by rw [hq']; decide), hq']
  rfl

theorem registeredCount_le (k : Nodes) : registeredCount k ≤ k.registry.length := List.countP_le_length

theorem fails_setFailed (k : Nodes) (p : Ptr) : Fails p k (k.setState p .failed) where
  toSpoils := spoils_setFailed k p
  self := setState_state_self ..
  others _ hq _ := setState_state_of_ne k _ hq

theorem Fails.spread {p dep : Ptr} {k k' k'' : Nodes} (h : Fails p k k') (hdep : k'.state dep = .registered)
    (h' : Fails dep k' k'') : Fails p k k'' where
  toSpoils := h.toSpoils.trans h'.toSpoils
  self := h'.toSpoils.failed h.self
  others q hq hr := by
    have hk := h.others q hq hr
    have hd : q ≠ dep := by
      rintro rfl
      exact hr (hk.symm.trans hdep)
    rw [h'.others q hd (by rw [hk]; exact hr), hk]

theorem kscopeMarkFailed_fails : ∀ (fuel : Nat) (p : Ptr) (k : Nodes),
    registeredCount (k.setState p .failed) < fuel → ∃ k', kscopeMarkFailed fuel p k = .ok k' ∧ Fails p k k'
  | 0, _, _, h => absurd h (Nat.not_lt_zero _)
  | fuel + 1, p, k, h => by
    rw [kscopeMarkFailed]
    refine Loop.foldlM_ok (I := fun k' => Fails p k k' ∧ registeredCount k' ≤ fuel)
      ⟨fails_setFailed k p, by omega⟩ ?_ |>.imp (fun k' h' => ⟨h'.1, h'.2.1⟩)
    rintro dep hdep k' ⟨hk', hcount⟩
    by_cases hc : k'.state dep = .registered ∧ requiresNode k' dep p
    · rw [if_pos hc]
      have hreg : dep ∈ k'.registry := by rw [hk'.registry]; exact hdep
      have hlt := registeredCount_setFailed hreg hc.1
      obtain ⟨k'', hok, hf⟩ := kscopeMarkFailed_fails fuel dep k' (by omega)
      exact ⟨k'', hok, hk'.spread hc.1 hf, Nat.le_trans hf.toSpoils.registeredCount_le hcount⟩
    · rw [if_neg hc]
      exact ⟨k', rfl, hk', hcount⟩

theorem markFailed_fails (p : Ptr) (k : Nodes) : ∃ k', markFailed p k = .ok k' ∧ Fails p k k' := by
  refine kscopeMarkFailed_fails _ p k ?_
  have := registeredCount_le (k.setState p .failed)
  rw [setState_registry] at this
  omega

/-! ## One turn of the search -/

/-- `b` is a requirement of `a`. -/
def Requires (k : Nodes) (a b : Ptr) : Prop := some b ∈ (k.node a).requires

/-- What the loop over the requirements of `node` does: it pushes unvisited nodes, and the flag is down at its end only
if there is nothing to push or a requirement is not registered. -/
structure Pushes (node : Ptr) (reqs : List (Option Ptr)) (f : Search) (hasUnvisited : Bool) (f' : Search) (b : Bool) :
    Prop where
  visited : f'.visited = f.visited
  outOrder : f'.outOrder = f.outOrder
  small : f'.stack.length ≤ kscopeMaxNodes
  pushed : ∃ l, f'.stack = l ++ f.stack ∧ ∀ i ∈ l, i < f.k.registry.length ∧ f.visited i = .unvisited
  outcome : (f'.k = f.k ∧ (b = false → hasUnvisited = false ∧ f'.stack = f.stack ∧
      ∀ q, some q ∈ reqs → q ∈ f.k.registry ∧ f.visited (f.k.registry.idxOf q) ≠ .unvisited)) ∨
    (b = false ∧ Fails node f.k f'.k ∧ ∃ q, some q ∈ reqs ∧ q ∉ f.k.registry)

theorem pushRequires_pushes (node : Ptr) : ∀ (reqs : List (Option Ptr)) (f : Search) (h : Bool),
    f.stack.length ≤ kscopeMaxNodes →
      pushRequires node reqs f h = .error .overrun ∨
        ∃ f' b, pushRequires node reqs f h = .ok (f', b) ∧ Pushes node reqs f h f' b
  | [], f, h, hs => .inr ⟨f, h, rfl, rfl, rfl, hs, ⟨[], rfl, by simp⟩, .inl ⟨rfl, fun hb => ⟨hb, rfl, by simp⟩⟩⟩
  | none :: reqs, f, h, hs => by
    rw [pushRequires]
    refine (pushRequires_pushes node reqs f h hs).imp_right ?_
    rintro ⟨f', b, hok, hp⟩
    refine ⟨f', b, hok, { hp with outcome := hp.outcome.imp ?_ ?_ }⟩
    · rintro ⟨hk, hb⟩
      exact ⟨hk, fun h' => ⟨(hb h').1, (hb h').2.1, fun q hq => (hb h').2.2 q (by simpa using hq)⟩⟩
    · rintro ⟨hb, hf, q, hq, hn⟩
      exact ⟨hb, hf, q, by simp [hq], hn⟩
  | some req :: reqs, f, h, hs => by
    rw [pushRequires]
    by_cases hreg : req ∈ f.k.registry
    · rw [if_pos hreg]
      dsimp only
      by_cases hv : f.visited (f.k.registry.idxOf req) = .unvisited
      · rw [if_pos hv]
        by_cases hfull : kscopeMaxNodes ≤ f.stack.length
        · exact .inl (by rw [if_pos hfull])
        · rw [if_neg hfull]
          have hlen : f.stack.length + 1 ≤ kscopeMaxNodes := by omega
          refine (pushRequires_pushes node reqs { f with stack := f.k.registry.idxOf req :: f.stack } true hlen).imp_right
            ?_
          rintro ⟨f', b, hok, hp⟩
          obtain ⟨l, hl, hlu⟩ := hp.pushed
          refine ⟨f', b, hok, hp.visited, hp.outOrder, hp.small, ⟨l ++ [f.k.registry.idxOf req], by simp [hl], ?_⟩,
            hp.outcome.imp ?_ ?_⟩
          · intro i hi
            rcases List.mem_append.1 hi with hi | hi
            · exact hlu i hi
            · rw [List.mem_singleton.1 hi]
              exact ⟨List.idxOf_lt_length_of_mem hreg, hv⟩
          · rintro ⟨hk, hb⟩
            exact ⟨hk, fun h' => by cases (hb h').1⟩
          · rintro ⟨hb, hf, q, hq, hn⟩
            exact ⟨hb, hf, q, by simp [hq], hn⟩
      · rw [if_neg hv]
        refine (pushRequires_pushes node reqs f h hs).imp_right ?_
        rintro ⟨f', b, hok, hp⟩
        refine ⟨f', b, hok, { hp with outcome := hp.outcome.imp ?_ ?_ }⟩
        · rintro ⟨hk, hb⟩
          refine ⟨hk, fun h' => ⟨(hb h').1, (hb h').2.1, fun q hq => ?_⟩⟩
          rcases List.mem_cons.1 hq with hq | hq
          · cases hq
            exact ⟨hreg, hv⟩
          · exact (hb h').2.2 q hq
        · rintro ⟨hb, hf, q, hq, hn⟩
          exact ⟨hb, hf, q, by simp [hq], hn⟩
    · rw [if_neg hreg]
      obtain ⟨k', hok, hf⟩ := markFailed_fails node f.k
      refine .inr ⟨{ f with k := k' }, false, by rw [hok]; rfl, rfl, rfl, hs, ⟨[], rfl, by simp⟩, .inr ⟨rfl, hf, req, ?_, hreg⟩⟩
      simp

theorem pushRequires_resolved (node : Ptr) : ∀ (reqs : List (Option Ptr)) (f : Search) (h : Bool),
    (∀ q, some q ∈ reqs → q ∈ f.k.registry ∧ f.visited (f.k.registry.idxOf q) ≠ .unvisited) →
      pushRequires node reqs f h = .ok (f, h)
  | [], _, _, _ => rfl
  | none :: reqs, f, h, hr => by
    rw [pushRequires]
    exact pushRequires_resolved node reqs f h (fun q hq => hr q (by simp [hq]))
  | some req :: reqs, f, h, hr => by
    obtain ⟨hreg, hv⟩ := hr req (by simp)
    rw [pushRequires, if_pos hreg, if_neg hv]
    exact pushRequires_resolved node reqs f h (fun q hq => hr q (by simp [hq]))

/-! ## Doomed searches -/

def Doomed (f : Search) : Prop := ∃ j ∈ f.stack, f.visited j = .visiting

/-- The loop over the requirements of the node that is visited. -/
abbrev Expands (f : Search) (idx : Nat) (f' : Search) (b : Bool) : Prop :=
  Pushes (nodeAt f idx) (f.k.node (nodeAt f idx)).requires (enter f idx) false f' b

theorem expand_cases {f : Search} (hlen : f.stack.length ≤ kscopeMaxNodes) (idx : Nat) :
    expand f idx = .error .overrun ∨
      ∃ f' b, expand f idx = .ok (if b then f' else finish f' idx) ∧ Expands f idx f' b := by
  unfold expand
  rcases pushRequires_pushes (nodeAt f idx) (f.k.node (nodeAt f idx)).requires (enter f idx) false hlen with
    he | ⟨f', b, hok, hp⟩
  · exact .inl (by rw [he]; rfl)
  · exact .inr ⟨f', b, by rw [hok]; rfl, hp⟩

theorem visit_cases {f : Search} (hlen : f.stack.length ≤ kscopeMaxNodes) :
    (f.stack = [] ∧ visit f = .inr (.ok (.sorted f))) ∨
      ∃ idx rest, f.stack = idx :: rest ∧
        ((f.visited idx = .done ∧ visit f = .inl { f with stack := rest }) ∨
          (f.visited idx = .visiting ∧ visit f = .inr (.ok (.cycle (failPath f)))) ∨
          (f.visited idx = .unvisited ∧ visit f = .inr (.error .overrun)) ∨
          ∃ f' b, f.visited idx = .unvisited ∧ Expands f idx f' b ∧
            visit f = .inl (if b then f' else finish f' idx)) := by
  unfold visit
  split
  · next hs => exact .inl ⟨hs, rfl⟩
  · next idx rest hs =>
    refine .inr ⟨idx, rest, hs, ?_⟩
    split
    · next hv => exact .inl ⟨hv, rfl⟩
    · next hv => exact .inr (.inl ⟨hv, rfl⟩)
    · next hv =>
      rcases expand_cases hlen idx with he | ⟨f', b, he, hp⟩
      · exact .inr (.inr (.inl ⟨hv, by rw [he]⟩))
      · exact .inr (.inr (.inr ⟨f', b, hv, hp, by rw [he]⟩))

/-! ## The invariant -/

/-- `a` requires another node `b` and has not failed. -/
def NeedsOther (k : Nodes) (a b : Ptr) : Prop := Requires k a b ∧ b ≠ a ∧ k.state a ≠ .failed

/-- What is visited is finished, and has been put out after its requirements. -/
structure Clean (f : Search) : Prop where
  visited : ∀ i, f.visited i ≠ .visiting
  done : ∀ i < f.k.registry.length, (f.visited i = .done ↔ nodeAt f i ∈ f.outOrder)
  nodup : f.outOrder.Nodup
  sub : ∀ p ∈ f.outOrder, p ∈ f.k.registry
  ordered : Ordered (NeedsOther f.k) f.outOrder

/-- A search that has started from `k`; the first `m` indices are finished or on the stack. -/
structure Searching (k : Nodes) (m : Nat) (f : Search) : Prop where
  spoils : Spoils k f.k
  small : f.stack.length ≤ kscopeMaxNodes
  bound : ∀ i ∈ f.stack, i < k.registry.length
  todo : ∀ i < m, f.visited i = .done ∨ i ∈ f.stack
  phase : Doomed f ∨ Clean f

theorem nodeAt_mem {f : Search} {i : Nat} (hi : i < f.k.registry.length) : nodeAt f i ∈ f.k.registry := by
  rw [nodeAt, List.getD_eq_getElem _ _ hi]
  exact List.getElem_mem hi

theorem nodeAt_idxOf {f : Search} {p : Ptr} (hp : p ∈ f.k.registry) : nodeAt f (f.k.registry.idxOf p) = p := by
  rw [nodeAt, List.getD_eq_getElem _ _ (List.idxOf_lt_length_of_mem hp)]
  exact List.getElem_idxOf _

theorem nodeAt_inj {f : Search} (hn : f.k.registry.Nodup) {i j : Nat} (hi : i < f.k.registry.length)
    (hj : j < f.k.registry.length) (h : nodeAt f i = nodeAt f j) : i = j := by
  rw [nodeAt, nodeAt, List.getD_eq_getElem _ _ hi, List.getD_eq_getElem _ _ hj] at h
  exact (List.Nodup.getElem_inj_iff hn).1 h

theorem enter_visited_of_ne {f : Search} {idx i : Nat} (h : i ≠ idx) : (enter f idx).visited i = f.visited i :=
  Function.update_of_ne h ..

theorem enter_visited_self (f : Search) (idx : Nat) : (enter f idx).visited idx = .visiting := Function.update_self ..

theorem finish_visited_of_ne {f : Search} {idx i : Nat} (h : i ≠ idx) : (finish f idx).visited i = f.visited i :=
  Function.update_of_ne h ..

theorem finish_visited_self (f : Search) (idx : Nat) : (finish f idx).visited idx = .done := Function.update_self ..

theorem Expands.spoils {f f' : Search} {idx : Nat} {b : Bool} (h : Expands f idx f' b) : Spoils f.k f'.k := by
  rcases h.outcome with ⟨hk, _⟩ | ⟨_, hf, _⟩
  · rw [hk]
    exact Spoils.refl _
  · exact hf.toSpoils

theorem Expands.visited_of_ne {f f' : Search} {idx i : Nat} {b : Bool} (h : Expands f idx f' b) (hi : i ≠ idx) :
    f'.visited i = f.visited i := by
  rw [h.visited]
  exact enter_visited_of_ne hi

theorem Expands.doomed {f f' : Search} {idx : Nat} {rest : List Nat} (h : Expands f idx f' true)
    (hs : f.stack = idx :: rest) : Doomed f' := by
  obtain ⟨l, hl, _⟩ := h.pushed
  refine ⟨idx, ?_, ?_⟩
  · rw [hl, show (enter f idx).stack = idx :: rest from hs]
    simp
  · rw [h.visited]
    exact enter_visited_self f idx

theorem Expands.finish_stack {f f' : Search} {idx : Nat} {rest : List Nat} (h : Expands f idx f' false)
    (hs : f.stack = idx :: rest) :
    (∀ i ∈ rest, i ∈ (finish f' idx).stack) ∧ (∀ i ∈ (finish f' idx).stack, i < f.k.registry.length ∨ i ∈ f.stack) ∧
      (finish f' idx).stack.length ≤ kscopeMaxNodes := by
  obtain ⟨l, hl, hlu⟩ := h.pushed
  rw [show (enter f idx).stack = idx :: rest from hs] at hl
  have hsub : ∀ i ∈ (finish f' idx).stack, i ∈ f'.stack := fun i hi => List.mem_of_mem_tail hi
  refine ⟨fun i hi => ?_, fun i hi => ?_, ?_⟩
  · change i ∈ f'.stack.tail
    rw [hl]
    cases l with
    | nil => exact hi
    | cons a l => simp [hi]
  · have hi' := hsub i hi
    rw [hl, List.mem_append] at hi'
    rcases hi' with hi' | hi'
    · exact .inl (hlu i hi').1
    · exact .inr (by rw [hs]; exact hi')
  · have := h.small
    change f'.stack.tail.length ≤ kscopeMaxNodes
    rw [List.length_tail]
    omega

theorem Expands.clean {f f' : Search} {idx : Nat} (h : Expands f idx f' false) (hn : f.k.registry.Nodup)
    (hidx : idx < f.k.registry.length) (hv : f.visited idx = .unvisited) (hc : Clean f) : Clean (finish f' idx) := by
  have hreg : (finish f' idx).k.registry = f.k.registry := h.spoils.registry
  have hnode : ∀ i, nodeAt (finish f' idx) i = nodeAt f i := fun i => by rw [nodeAt, hreg]; rfl
  have hout : (finish f' idx).outOrder = f.outOrder ++ [nodeAt f idx] := by
    rw [← hnode idx]
    exact congrArg (· ++ [nodeAt f' idx]) h.outOrder
  have hnot : nodeAt f idx ∉ f.outOrder := by
    rw [← hc.done idx hidx, hv]
    decide
  have hvis : ∀ i, i ≠ idx → (finish f' idx).visited i = f.visited i := fun i hi => by
    rw [finish_visited_of_ne hi, h.visited_of_ne hi]
  refine ⟨fun i => ?_, fun i hi => ?_, ?_, ?_, ?_⟩
  · by_cases hi : i = idx
    · rw [hi, finish_visited_self]
      decide
    · rw [hvis i hi]
      exact hc.visited i
  · rw [hreg] at hi
    rw [hout, hnode, List.mem_append, List.mem_singleton]
    by_cases he : i = idx
    · subst he
      simp [finish_visited_self]
    · rw [hvis i he, hc.done i hi]
      simp [mt (nodeAt_inj hn hi hidx) he]
  · rw [hout]
    simpa using hc.nodup.concat hnot
  · intro p hp
    rw [hout, List.mem_append, List.mem_singleton] at hp
    rw [hreg]
    rcases hp with hp | rfl
    · exact hc.sub p hp
    · exact nodeAt_mem hidx
  · rw [hout]
    refine (hc.ordered.mono ?_).concat ?_
    · rintro a b ⟨hab, hne, hst⟩
      have hsp : Spoils f.k (finish f' idx).k := h.spoils
      refine ⟨?_, hne, ?_⟩
      · rw [Requires, ← hsp.node]
        exact hab
      · rw [← hsp.eq_of_ne hst]
        exact hst
    · rintro b ⟨hab, hne, hst⟩
      rcases h.outcome with ⟨hk, hb⟩ | ⟨_, hf, _⟩
      · have hab' : some b ∈ (f.k.node (nodeAt f idx)).requires := by
          rw [← h.spoils.node]
          exact hab
        obtain ⟨hbr, hbv⟩ := (hb rfl).2.2 b hab'
        change b ∈ f.k.registry at hbr
        change (enter f idx).visited (f.k.registry.idxOf b) ≠ .unvisited at hbv
        have hi : f.k.registry.idxOf b ≠ idx := by
          rintro rfl
          exact hne (nodeAt_idxOf hbr).symm
        rw [enter_visited_of_ne hi] at hbv
        have hdone := (hc.done _ (List.idxOf_lt_length_of_mem hbr)).1 (by
          cases hvb : f.visited (f.k.registry.idxOf b) with
          | done => rfl
          | visiting => exact absurd hvb (hc.visited _)
          | unvisited => exact absurd hvb hbv)
        rwa [nodeAt_idxOf hbr] at hdone
      · exact absurd hf.self hst

theorem visit_small {f g : Search} (hlen : f.stack.length ≤ kscopeMaxNodes) (hv : visit f = .inl g) :
    g.stack.length ≤ kscopeMaxNodes := by
  rcases visit_cases hlen with ⟨_, he⟩ | ⟨idx, rest, hs, ⟨_, he⟩ | ⟨_, he⟩ | ⟨_, he⟩ | ⟨f', b, _, hp, he⟩⟩ <;>
    rw [hv] at he
  · cases he
  · injection he with he
    subst he
    rw [hs, List.length_cons] at hlen
    exact Nat.le_of_succ_le hlen
  · cases he
  · cases he
  · injection he with he
    subst he
    cases b with
    | true => exact hp.small
    | false => exact (hp.finish_stack hs).2.2

theorem Doomed.visit {f g : Search} (hlen : f.stack.length ≤ kscopeMaxNodes) (h : Doomed f) (hv : visit f = .inl g) :
    Doomed g := by
  obtain ⟨j, hj, hjv⟩ := h
  rcases visit_cases hlen with ⟨_, he⟩ | ⟨idx, rest, hs, ⟨hd, he⟩ | ⟨_, he⟩ | ⟨_, he⟩ | ⟨f', b, hu, hp, he⟩⟩ <;>
    rw [hv] at he
  · cases he
  · injection he with he
    subst he
    have hne : j ≠ idx := by
      rintro rfl
      rw [hd] at hjv
      cases hjv
    rw [hs] at hj
    exact ⟨j, (List.mem_cons.1 hj).resolve_left hne, hjv⟩
  · cases he
  · cases he
  · injection he with he
    subst he
    have hne : j ≠ idx := by
      rintro rfl
      rw [hu] at hjv
      cases hjv
    cases b with
    | true => exact hp.doomed hs
    | false =>
      refine ⟨j, (hp.finish_stack hs).1 j ?_, ?_⟩
      · rw [hs] at hj
        exact (List.mem_cons.1 hj).resolve_left hne
      · rw [if_neg Bool.false_ne_true, finish_visited_of_ne hne, hp.visited_of_ne hne]
        exact hjv

theorem Searching.visit {k : Nodes} {m : Nat} {f g : Search} (hn : k.registry.Nodup) (h : Searching k m f)
    (hv : visit f = .inl g) : Searching k m g := by
  have hreg := h.spoils.registry
  have hdoomed := fun hd : Doomed f => hd.visit h.small hv
  have hsmall := visit_small h.small hv
  rcases visit_cases h.small with ⟨_, he⟩ | ⟨idx, rest, hs, ⟨hd, he⟩ | ⟨_, he⟩ | ⟨_, he⟩ | ⟨f', b, hu, hp, he⟩⟩ <;>
    rw [hv] at he
  · cases he
  · -- a finished node leaves the stack
    injection he with he
    subst he
    refine ⟨h.spoils, hsmall, fun i hi => h.bound i ?_, fun i hi => ?_, h.phase.imp hdoomed (fun hc => { hc with })⟩
    · rw [hs]
      exact List.mem_cons_of_mem _ hi
    · by_cases hne : i = idx
      · exact .inl (by rw [hne]; exact hd)
      · refine (h.todo i hi).imp_right (fun hi' => ?_)
        rw [hs] at hi'
        exact (List.mem_cons.1 hi').resolve_left hne
  · cases he
  · cases he
  · injection he with he
    subst he
    have hidx : idx < k.registry.length := h.bound idx (by rw [hs]; simp)
    have hidx' : idx < f.k.registry.length := by rwa [hreg]
    cases b with
    | true =>
      -- the node is left for later
      obtain ⟨l, hl, hlu⟩ := hp.pushed
      change f'.stack = l ++ f.stack at hl
      refine ⟨h.spoils.trans hp.spoils, hsmall, fun i hi => ?_, fun i hi => ?_, .inl (hp.doomed hs)⟩
      · rw [if_pos rfl, hl, List.mem_append] at hi
        rcases hi with hi | hi
        · rw [← hreg]
          exact (hlu i hi).1
        · exact h.bound i hi
      · refine (h.todo i hi).imp (fun hd => ?_) (fun hi' => ?_)
        · have hne : i ≠ idx := by
            rintro rfl
            rw [hu] at hd
            cases hd
          rw [if_pos rfl, hp.visited_of_ne hne]
          exact hd
        · rw [if_pos rfl, hl]
          exact List.mem_append_right _ hi'
    | false =>
      -- the node is finished
      obtain ⟨hrest, hstack, _⟩ := hp.finish_stack hs
      refine ⟨h.spoils.trans hp.spoils, hsmall, fun i hi => ?_, fun i hi => ?_,
        h.phase.imp hdoomed (hp.clean (by rwa [hreg]) hidx' hu)⟩
      · rcases hstack i hi with hi | hi
        · rwa [← hreg]
        · exact h.bound i hi
      · by_cases he : i = idx
        · exact .inl (by rw [he]; exact finish_visited_self f' idx)
        · refine (h.todo i hi).imp (fun hd => ?_) (fun hi' => hrest i ?_)
          · change (finish f' idx).visited i = .done
            rw [finish_visited_of_ne he, hp.visited_of_ne he]
            exact hd
          · rw [hs] at hi'
            exact (List.mem_cons.1 hi').resolve_left he

/-! ## The end of a search -/

def unvisitedCount (n : Nat) (f : Search) : Nat := (List.range n).countP (fun i => decide (f.visited i = .unvisited))

def searchMeasure (n : Nat) (f : Search) : Nat := unvisitedCount n f * (kscopeMaxNodes + 1) + f.stack.length

theorem searchMeasure_visited {n : Nat} {f g : Search} {idx : Nat} (hidx : idx < n) (hu : f.visited idx = .unvisited)
    (hg : g.visited idx ≠ .unvisited) (hsame : ∀ i, i ≠ idx → g.visited i = f.visited i)
    (hlen : g.stack.length ≤ kscopeMaxNodes) : searchMeasure n g < searchMeasure n f := by
  have hlt : unvisitedCount n g < unvisitedCount n f := by
    refine Loop.countP_lt (fun i _ hi => ?_) (List.mem_range.2 hidx) (by simp [hu]) (by simp [hg])
    have hi' : g.visited i = .unvisited := of_decide_eq_true hi
    have hne : i ≠ idx := by
      rintro rfl
      exact hg hi'
    exact decide_eq_true ((hsame i hne).symm.trans hi')
  simp only [searchMeasure, kscopeMaxNodes] at *
  omega

theorem Searching.measure_lt {k : Nodes} {m : Nat} {f g : Search} (h : Searching k m f) (hv : Kscope.visit f = .inl g) :
    searchMeasure k.registry.length g < searchMeasure k.registry.length f := by
  rcases visit_cases h.small with ⟨_, he⟩ | ⟨idx, rest, hs, ⟨hd, he⟩ | ⟨_, he⟩ | ⟨_, he⟩ | ⟨f', b, hu, hp, he⟩⟩ <;>
    rw [hv] at he
  · cases he
  · injection he with he
    subst he
    simp only [searchMeasure, unvisitedCount, hs, List.length_cons]
    omega
  · cases he
  · cases he
  · injection he with he
    subst he
    have hidx : idx < k.registry.length := h.bound idx (by rw [hs]; simp)
    cases b with
    | true =>
      refine searchMeasure_visited hidx hu ?_ (fun i hi => hp.visited_of_ne hi) hp.small
      rw [if_pos rfl, hp.visited, enter_visited_self]
      exact fun hc => by cases hc
    | false =>
      refine searchMeasure_visited hidx hu ?_ (fun i hi => ?_) (hp.finish_stack hs).2.2
      · exact fun hc => by rw [if_neg Bool.false_ne_true, finish_visited_self] at hc; cases hc
      · rw [if_neg Bool.false_ne_true, finish_visited_of_ne hi, hp.visited_of_ne hi]

theorem searchMeasure_lt_fuel {k : Nodes} {m : Nat} {f : Search} (hk : k.registry.length ≤ kscopeMaxNodes)
    (h : Searching k m f) : searchMeasure k.registry.length f < searchFuel := by
  have h1 : unvisitedCount k.registry.length f ≤ k.registry.length := by
    have := List.countP_le_length (p := fun i => decide (f.visited i = .unvisited)) (l := List.range k.registry.length)
    rwa [List.length_range] at this
  have h2 := h.small
  simp only [searchMeasure, searchFuel, kscopeMaxNodes] at *
  omega

theorem spoils_failAll : ∀ (l : List Ptr) (k : Nodes), Spoils k (l.foldl (fun k p => k.setState p .failed) k)
  | [], k => Spoils.refl k
  | p :: l, k => (spoils_setFailed k p).trans (spoils_failAll l _)

/-- The answers of a search from `k`. -/
inductive Answers (k : Nodes) (m : Nat) : Except Fault SortResult → Prop
  | overrun : Answers k m (.error .overrun)
  | sorted (f : Search) (h : Searching k m f) (hs : f.stack = []) : Answers k m (.ok (.sorted f))
  | cycle (k' : Nodes) (h : Spoils k k') : Answers k m (.ok (.cycle k'))

theorem search_answers {k : Nodes} {m : Nat} {f : Search} (hk : k.registry.length ≤ kscopeMaxNodes)
    (hn : k.registry.Nodup) (h : Searching k m f) : Answers k m (search f) := by
  obtain ⟨r, hr⟩ : ∃ r, Loop.loop Kscope.visit searchFuel f = some r :=
    Loop.loop_total (μ := searchMeasure k.registry.length)
      (fun _ _ hs hv => ⟨hs.visit hn hv, hs.measure_lt hv⟩) h (searchMeasure_lt_fuel hk h)
  rw [search, hr]
  refine Loop.loop_post (I := Searching k m) (fun _ _ hs hv => hs.visit hn hv) ?_ h hr
  intro g r' hg hv
  rcases visit_cases hg.small with ⟨hs, he⟩ | ⟨idx, rest, hs, ⟨_, he⟩ | ⟨_, he⟩ | ⟨_, he⟩ | ⟨f', b, _, _, he⟩⟩ <;>
    rw [hv] at he
  · injection he with he
    subst he
    exact .sorted g hg hs
  · cases he
  · injection he with he
    subst he
    exact .cycle _ (hg.spoils.trans (spoils_failAll _ _))
  · injection he with he
    subst he
    exact .overrun
  · cases he

theorem Searching.clean {k : Nodes} {m : Nat} {f : Search} (h : Searching k m f) (hs : f.stack = []) : Clean f :=
  h.phase.resolve_left (fun ⟨j, hj, _⟩ => by rw [hs] at hj; cases hj)

theorem searchAll_answers {k : Nodes} (hk : k.registry.length ≤ kscopeMaxNodes) (hn : k.registry.Nodup) :
    ∀ (len i : Nat) (f : Search), i + len = k.registry.length → Searching k i f → f.stack = [] →
      Answers k k.registry.length (searchAll (List.range' i len) f)
  | 0, i, f, hi, h, hs => by
    rw [List.range'_zero, searchAll]
    exact .sorted f (by rwa [← hi]) hs
  | len + 1, i, f, hi, h, hs => by
    have hdone : ∀ j < i, f.visited j = .done := fun j hj => (h.todo j hj).resolve_right (by rw [hs]; simp)
    rw [List.range'_succ, searchAll]
    by_cases hv : f.visited i = .done
    · rw [if_pos hv]
      refine searchAll_answers hk hn len (i + 1) f (by omega) { h with todo := fun j hj => ?_ } hs
      rcases Nat.lt_succ_iff_lt_or_eq.1 hj with hj | rfl
      · exact .inl (hdone j hj)
      · exact .inl hv
    · rw [if_neg hv]
      have hstart : Searching k (i + 1) { f with stack := [i] } := by
        refine ⟨h.spoils, by simp [kscopeMaxNodes], fun j hj => ?_, fun j hj => ?_, .inr { h.clean hs with }⟩
        · rw [List.mem_singleton.1 hj]
          omega
        · rcases Nat.lt_succ_iff_lt_or_eq.1 hj with hj | rfl
          · exact .inl (hdone j hj)
          · exact .inr (by simp)
      have ha := search_answers hk hn hstart
      generalize search { f with stack := [i] } = r at ha
      cases ha with
      | overrun => exact .overrun
      | cycle k' h' => exact .cycle k' h'
      | sorted g hg hgs => exact searchAll_answers hk hn len (i + 1) g (by omega) hg hgs

/-- **The sort answers** with an order of the registry in which every node that has not failed comes after those it
requires, or with a cycle, or runs over the end of its stack. -/
theorem kscopeTopoSort_answers {k : Nodes} (hk : k.registry.length ≤ kscopeMaxNodes) (hn : k.registry.Nodup) :
    Answers k k.registry.length (kscopeTopoSort k) := by
  rw [kscopeTopoSort, List.range_eq_range']
  refine searchAll_answers hk hn _ 0 _ (by simp) ⟨Spoils.refl k, by simp, by simp, by simp, .inr ?_⟩ rfl
  exact ⟨fun _ => by simp, fun i _ => by simp, List.nodup_nil, by simp, DepOrder.ordered_nil⟩

theorem Searching.perm {k : Nodes} {f : Search} (hn : k.registry.Nodup) (h : Searching k k.registry.length f)
    (hs : f.stack = []) : f.outOrder.Perm k.registry := by
  have hc := h.clean hs
  refine (List.perm_ext_iff_of_nodup hc.nodup hn).2 (fun p => ⟨fun hp => ?_, fun hp => ?_⟩)
  · rw [← h.spoils.registry]
    exact hc.sub p hp
  · have hp' : p ∈ f.k.registry := by rwa [h.spoils.registry]
    have hi := List.idxOf_lt_length_of_mem hp'
    rw [← nodeAt_idxOf hp', ← hc.done _ hi]
    refine (h.todo _ ?_).resolve_right (by rw [hs]; simp)
    rwa [← h.spoils.registry]

end Kscope
end AmitX
