import AmitX.Kernel.KscopeSort
/-!
# KscopeRun — the callbacks of the nodes over whole runs

A run is any sequence of registrations, probes and shutdowns from the empty registry, over nodes in whatever states their
owners left them, with any results of the init callbacks.
-/
namespace AmitX
namespace Kscope

open DepOrder (Ordered)

/-- What an event may be: init runs with all requirements OK, on a node that is neither OK nor FAILED; a node becomes OK
with no requirement FAILED; shutdown runs when no other registered node that is OK requires the node. -/
def Event.Safe (node : Ptr → Node) (e : Event) : Prop :=
  match e.kind with
  | .init => (∀ req ∈ (node e.node).requires, ∃ q, req = some q ∧ e.state q = .ok) ∧ e.state e.node ≠ .ok ∧
      e.state e.node ≠ .failed
  | .ok => ∀ q, some q ∈ (node e.node).requires → e.state q ≠ .failed
  | .shutdown => ∀ d ∈ e.registry, d ≠ e.node → some e.node ∈ (node d).requires → e.state d ≠ .ok

/-- A run over the nodes `node` from the states `state`: all events are safe, and no node is OK that was not before and
has no event for it. -/
structure Lifecycle (node : Ptr → Node) (state : Ptr → NodeState) (k : Nodes) : Prop where
  registered : Registered k
  nodes : k.node = node
  safe : ∀ e ∈ k.log, e.Safe node
  logged : ∀ p, k.state p = .ok → state p = .ok ∨ ∃ e ∈ k.log, e.kind = .ok ∧ e.node = p

variable {node : Ptr → Node} {state : Ptr → NodeState}

theorem lifecycle_boot (node : Ptr → Node) (state : Ptr → NodeState) : Lifecycle node state (boot node state) where
  registered := registered_boot node state
  nodes := rfl
  safe := by simp [boot]
  logged _ hp := .inl hp

theorem Lifecycle.spoils {k k' : Nodes} (h : Lifecycle node state k) (hs : Spoils k k') : Lifecycle node state k' where
  registered := h.registered.congr hs.node hs.registry
  nodes := hs.node.trans h.nodes
  safe := by
    rw [hs.log]
    exact h.safe
  logged p hp := by
    rw [hs.log]
    refine h.logged p ?_
    rw [← hs.eq_of_ne (by rw [hp]; decide)]
    exact hp

theorem setState_ok {k : Nodes} {p q : Ptr} {st : NodeState} (hst : st ≠ .ok) (h : (k.setState p st).state q = .ok) :
    k.state q = .ok := by
  by_cases hq : q = p
  · rw [hq, setState_state_self] at h
    exact absurd h hst
  · rwa [setState_state_of_ne k st hq] at h

theorem Lifecycle.setState {k : Nodes} (h : Lifecycle node state k) (p : Ptr) {st : NodeState} (hst : st ≠ .ok) :
    Lifecycle node state (k.setState p st) where
  registered := h.registered.congr rfl rfl
  nodes := h.nodes
  safe := h.safe
  logged q hq := h.logged q (setState_ok hst hq)

theorem Lifecycle.event {k : Nodes} (h : Lifecycle node state k) {kind : EventKind} {p : Ptr}
    (he : Event.Safe node ⟨kind, p, k.state, k.registry⟩) : Lifecycle node state (k.event kind p) where
  registered := h.registered.congr rfl rfl
  nodes := h.nodes
  safe e hmem := by
    rcases List.mem_append.1 hmem with hmem | hmem
    · exact h.safe e hmem
    · rw [List.mem_singleton.1 hmem]
      exact he
  logged q hq := (h.logged q hq).imp_right (fun ⟨e, he, hk⟩ => ⟨e, List.mem_append_left _ he, hk⟩)

def DepsOk (k : Nodes) (p : Ptr) : Prop := ∀ req ∈ (k.node p).requires, ∃ q, req = some q ∧ k.state q = .ok

theorem kscopeCheckDeps_iff {k : Nodes} {p : Ptr} : kscopeCheckDeps k p = true ↔ DepsOk k p := by
  unfold kscopeCheckDeps DepsOk
  rw [List.all_eq_true]
  refine forall₂_congr (fun req _ => ?_)
  rw [Option.any_eq_true]
  exact exists_congr (fun q => and_congr_right' (by rw [decide_eq_true_eq]))

theorem Lifecycle.setOk {k : Nodes} (h : Lifecycle node state k) {p : Ptr}
    (hp : ∀ q, some q ∈ (node p).requires → k.state q ≠ .failed) : Lifecycle node state (setOk p k) where
  registered := h.registered.congr rfl rfl
  nodes := h.nodes
  safe e hmem := by
    rcases List.mem_append.1 hmem with hmem | hmem
    · exact h.safe e hmem
    · rw [List.mem_singleton.1 hmem]
      intro q hq
      by_cases hqp : q = p
      · change (k.setState p .ok).state q ≠ .failed
        rw [hqp, setState_state_self]
        decide
      · change (k.setState p .ok).state q ≠ .failed
        rw [setState_state_of_ne k _ hqp]
        exact hp q hq
  logged q hq := by
    by_cases hqp : q = p
    · exact .inr ⟨_, List.mem_append_right _ (List.mem_singleton_self _), rfl, hqp.symm⟩
    · change (k.setState p .ok).state q = .ok at hq
      rw [setState_state_of_ne k _ hqp] at hq
      exact (h.logged q hq).imp_right (fun ⟨e, he, hk⟩ => ⟨e, List.mem_append_left _ he, hk⟩)

theorem Lifecycle.markFailed {k : Nodes} (h : Lifecycle node state k) (p : Ptr) :
    ∃ k', Kscope.markFailed p k = .ok k' ∧ Lifecycle node state k' :=
  (markFailed_fails p k).imp (fun _ ⟨hok, hf⟩ => ⟨hok, h.spoils hf.toSpoils⟩)

theorem Lifecycle.probeNode {k : Nodes} (h : Lifecycle node state k) (result : Ptr → Int) (p : Ptr) :
    ∃ k', probeNode result k p = .ok k' ∧ Lifecycle node state k' := by
  unfold Kscope.probeNode
  by_cases hr : k.state p ≠ .registered
  · rw [if_pos hr]
    exact ⟨k, rfl, h⟩
  rw [if_neg hr]
  rw [not_not] at hr
  cases hc : kscopeCheckDeps k p with
  | false => exact h.markFailed p
  | true =>
    have hdeps := kscopeCheckDeps_iff.1 hc
    rw [DepsOk, h.nodes] at hdeps
    have hok : ∀ q, some q ∈ (node p).requires → k.state q = .ok := fun q hq => by
      obtain ⟨q', he, hq'⟩ := hdeps _ hq
      cases he
      exact hq'
    -- the node is not among its requirements, which are OK
    have hother : ∀ q, some q ∈ (node p).requires → q ≠ p := by
      rintro q hq rfl
      rw [hok q hq] at hr
      cases hr
    cases hi : (k.node p).hasInit with
    | false =>
      refine ⟨_, rfl, h.setOk (fun q hq => ?_)⟩
      rw [hok q hq]
      decide
    | true =>
      have hprobing : ∀ q, some q ∈ (node p).requires → (k.setState p .probing).state q = .ok := fun q hq => by
        rw [setState_state_of_ne k _ (hother q hq)]
        exact hok q hq
      have hinit : Lifecycle node state ((k.setState p .probing).event .init p) := by
        refine (h.setState p (by decide)).event ⟨fun req hreq => ?_, ?_, ?_⟩
        · obtain ⟨q, rfl, _⟩ := hdeps req hreq
          exact ⟨q, rfl, hprobing q hreq⟩
        · change (k.setState p .probing).state p ≠ .ok
          rw [setState_state_self]
          decide
        · change (k.setState p .probing).state p ≠ .failed
          rw [setState_state_self]
          decide
      change ∃ k', (if result p ≠ 0 then Kscope.markFailed p _ else _) = _ ∧ _
      split
      · exact hinit.markFailed p
      · refine ⟨_, rfl, hinit.setOk (fun q hq => ?_)⟩
        change (k.setState p .probing).state q ≠ .failed
        rw [hprobing q hq]
        decide

/-! ## Shutting down -/

/-- What shutting down changes: a node that was OK waits to be probed again. -/
structure Stops (k k' : Nodes) : Prop where
  registry : k'.registry = k.registry
  state : ∀ q, k'.state q = k.state q ∨ k'.state q = .registered

theorem Stops.refl (k : Nodes) : Stops k k := ⟨rfl, fun _ => .inl rfl⟩

theorem Stops.trans {k k' k'' : Nodes} (h : Stops k k') (h' : Stops k' k'') : Stops k k'' where
  registry := h'.registry.trans h.registry
  state q := by
    rcases h'.state q with h1 | h1
    · rw [h1]
      exact h.state q
    · exact .inr h1

theorem Stops.ok {k k' : Nodes} (h : Stops k k') {q : Ptr} (hq : k'.state q = .ok) : k.state q = .ok := by
  rcases h.state q with h1 | h1
  · rw [← h1, hq]
  · rw [h1] at hq
    cases hq

theorem stops_shutdownNode (k : Nodes) (p : Ptr) :
    Stops k (shutdownNode k p) ∧ (shutdownNode k p).state p ≠ .ok := by
  unfold shutdownNode
  by_cases hp : k.state p ≠ .ok
  · rw [if_pos hp]
    exact ⟨Stops.refl k, hp⟩
  rw [if_neg hp]
  have hsame : ∀ k' : Nodes, k'.registry = k.registry → k'.state = k.state →
      Stops k (k'.setState p .registered) ∧ (k'.setState p .registered).state p ≠ .ok := by
    intro k' hr hs
    refine ⟨⟨hr, fun q => ?_⟩, by rw [setState_state_self]; decide⟩
    by_cases hq : q = p
    · rw [hq]
      exact .inr (setState_state_self ..)
    · rw [setState_state_of_ne k' _ hq, hs]
      exact .inl rfl
  split
  · exact hsame _ rfl rfl
  · exact hsame _ rfl rfl

theorem Lifecycle.shutdownNode {k : Nodes} (h : Lifecycle node state k) {p : Ptr}
    (hp : ∀ d ∈ k.registry, d ≠ p → some p ∈ (node d).requires → k.state d ≠ .ok) :
    Lifecycle node state (shutdownNode k p) := by
  unfold Kscope.shutdownNode
  split
  · exact h
  · split
    · have he : Event.Safe node ⟨.shutdown, p, k.state, k.registry⟩ := hp
      exact (h.event he).setState p (by decide)
    · exact h.setState p (by decide)

/-- **The shutdown of an order**, from its end: the nodes after the ones left are no longer OK, so that what still
requires a node that is shut down stands before it, and has failed. -/
theorem Lifecycle.shutdown {k₀ : Nodes} {order : List Ptr} (hn : order.Nodup) (hsub : ∀ p ∈ k₀.registry, p ∈ order)
    (ho : Ordered (NeedsOther k₀) order) (hk₀ : k₀.node = node) :
    ∀ (l stopped : List Ptr) (k : Nodes), order = l.reverse ++ stopped → (∀ d ∈ stopped, k.state d ≠ .ok) →
      Stops k₀ k → Lifecycle node state k → Lifecycle node state (l.foldl Kscope.shutdownNode k)
  | [], _, _, _, _, _, h => h
  | p :: l, stopped, k, hl, hstopped, hs, h => by
    have hl' : order = l.reverse ++ p :: stopped := by rw [hl]; simp
    obtain ⟨hstep, hp⟩ := stops_shutdownNode k p
    refine Lifecycle.shutdown hn hsub ho hk₀ l (p :: stopped) _ hl' ?_ (hs.trans hstep) (h.shutdownNode ?_)
    · intro d hd
      rcases List.mem_cons.1 hd with rfl | hd
      · exact hp
      · exact fun hd' => hstopped d hd (hstep.ok hd')
    · intro d hd hne hreq hok
      have hok₀ := hs.ok hok
      have hneeds : NeedsOther k₀ d p := by
        refine ⟨?_, hne.symm, by rw [hok₀]; decide⟩
        rw [Requires, hk₀]
        exact hreq
      have hdmem : d ∈ order := hsub d (by rw [← hs.registry]; exact hd)
      have hlt := ho.idxOf_lt hdmem hneeds
      rw [hl'] at hn hdmem hlt
      have hpn : p ∉ l.reverse := fun hp' => (List.nodup_append.1 hn).2.2 p hp' p (by simp) rfl
      rw [List.idxOf_append_of_notMem hpn, List.idxOf_cons_self, Nat.add_zero] at hlt
      rcases List.mem_append.1 hdmem with hd' | hd'
      · rw [List.idxOf_append_of_mem hd'] at hlt
        exact absurd (List.idxOf_lt_length_of_mem hd') (Nat.lt_asymm hlt)
      · exact hstopped d ((List.mem_cons.1 hd').resolve_left hne) hok

/-! ## Runs -/

theorem Lifecycle.register {k : Nodes} (h : Lifecycle node state k) (p : Option Ptr) :
    Lifecycle node state (kscopeRegister p k) := by
  have hreg := h.registered.register p
  rcases kscopeRegister_cases p k with he | ⟨q, he, _⟩ <;> rw [he] at hreg ⊢
  · exact h
  · have hq := h.setState q (show NodeState.registered ≠ .ok by decide)
    exact ⟨hreg, hq.nodes, hq.safe, hq.logged⟩

theorem Lifecycle.call {k : Nodes} (h : Lifecycle node state k) (c : Call) :
    c.run k = .error .overrun ∨ ∃ k', c.run k = .ok k' ∧ Lifecycle node state k' := by
  have hr := h.registered
  cases c with
  | register p =>
    exact .inr ⟨_, rfl, h.register p⟩
  | probeAll result =>
    change kscopeProbeAll result k = _ ∨ ∃ k', kscopeProbeAll result k = _ ∧ _
    unfold kscopeProbeAll
    have ha := kscopeTopoSort_answers hr.small hr.nodup
    generalize kscopeTopoSort k = r at ha
    cases ha with
    | overrun => exact .inl rfl
    | cycle k' hs => exact .inr ⟨k', rfl, h.spoils hs⟩
    | sorted f hf hs =>
      exact .inr (Loop.foldlM_ok (h.spoils hf.spoils) (fun p _ k' hk' => hk'.probeNode result p))
  | shutdownAll =>
    change kscopeShutdownAll k = _ ∨ ∃ k', kscopeShutdownAll k = _ ∧ _
    unfold kscopeShutdownAll
    have ha := kscopeTopoSort_answers hr.small hr.nodup
    generalize kscopeTopoSort k = r at ha
    cases ha with
    | overrun => exact .inl rfl
    | cycle k' hs => exact .inr ⟨k', rfl, h.spoils hs⟩
    | sorted f hf hs =>
      have hc := hf.clean hs
      have hk := h.spoils hf.spoils
      refine .inr ⟨_, rfl, Lifecycle.shutdown hc.nodup (fun p hp => ?_) hc.ordered hk.nodes _ [] _ (by simp) (by simp)
        (Stops.refl _) hk⟩
      rw [(hf.perm hr.nodup hs).mem_iff, ← hf.spoils.registry]
      exact hp

theorem Lifecycle.run : ∀ {calls : List Call} {k k' : Nodes}, Lifecycle node state k →
    calls.foldlM Call.run k = .ok k' → Lifecycle node state k'
  | [], _, _, h, hrun => by
    cases hrun
    exact h
  | c :: calls, k, k', h, hrun => by
    rw [List.foldlM_cons] at hrun
    rcases h.call c with he | ⟨k₁, he, hk₁⟩ <;> rw [he] at hrun
    · cases hrun
    · exact Lifecycle.run hk₁ hrun

def pairCalls : List Call := [.register (some 2), .register (some 1), .probeAll (fun _ => 0), .shutdownAll]

end Kscope
end AmitX
