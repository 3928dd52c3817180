import AmitX.Kernel.KscopeSearch
/-!
# KscopeSort — what the sort of the registry accepts

The search leaves a node with requirements on the stack and takes it for a cycle when it comes back to it.  So the sort
accepts a registry in which no node stands before one it requires, and no other: it puts the nodes out in the order of
the registry.
-/
namespace AmitX
namespace Kscope

open DepOrder (Ordered)
open Relation (TransGen)

def Closed (k : Nodes) : Prop := ∀ p ∈ k.registry, ∀ req ∈ (k.node p).requires, ∃ q ∈ k.registry, req = some q

def Late (k : Nodes) : Prop := ∃ a ∈ k.registry, ∃ b, Requires k a b ∧ k.registry.idxOf a < k.registry.idxOf b

def Cyclic (k : Nodes) : Prop := ∃ p ∈ k.registry, TransGen (Requires k) p p

/-- The sort returns 0 on the graphs without a cycle, and then puts out each registered node once, after the nodes it
requires.  A sort that writes past the end of its stack does not return. -/
structure OrdersBoot (k : Nodes) : Prop where
  zero_iff : (∃ f, kscopeTopoSort k = .ok (.sorted f)) ↔ ¬ Cyclic k
  order : ∀ f, kscopeTopoSort k = .ok (.sorted f) → f.outOrder.Perm k.registry ∧ Ordered (Requires k) f.outOrder

/-- The sort when the first `i` nodes have been put out, in the order of the registry. -/
def sortedUpTo (k : Nodes) (i : Nat) : Search :=
  ⟨fun j => if j < i then .done else .unvisited, [], k.registry.take i, k⟩

/-- The node at `i` requires none of those after it. -/
def ResolvedAt (k : Nodes) (i : Nat) : Prop := ∀ q, Requires k (k.registry.getD i 0) q → k.registry.idxOf q ≤ i

theorem closed_requires {k : Nodes} (h : Closed k) {i : Nat} (hi : i < k.registry.length) {q : Ptr}
    (hq : Requires k (k.registry.getD i 0) q) : q ∈ k.registry := by
  rw [List.getD_eq_getElem _ _ hi] at hq
  obtain ⟨q', hq', he⟩ := h _ (List.getElem_mem hi) _ hq
  cases he
  exact hq'

/-- The stack holds the index `i` alone. -/
def searchAt (k : Nodes) (i : Nat) : Search := { sortedUpTo k i with stack := [i] }

theorem searchAt_visited (k : Nodes) (i : Nat) : (searchAt k i).visited i = .unvisited := by
  simp [searchAt, sortedUpTo]

theorem enter_searchAt (k : Nodes) (i j : Nat) :
    (enter (searchAt k i) i).visited j = .unvisited ↔ i < j := by
  by_cases hj : j = i
  · subst hj
    rw [enter_visited_self]
    simp
  · rw [enter_visited_of_ne hj]
    change (if j < i then Mark.done else Mark.unvisited) = .unvisited ↔ _
    split <;> simp <;> omega

theorem finish_searchAt (k : Nodes) {i : Nat} (hi : i < k.registry.length) :
    finish (enter (searchAt k i) i) i = sortedUpTo k (i + 1) := by
  have hv : (finish (enter (searchAt k i) i) i).visited = (sortedUpTo k (i + 1)).visited := by
    funext j
    by_cases hj : j = i
    · subst hj
      rw [finish_visited_self]
      simp [sortedUpTo]
    · rw [finish_visited_of_ne hj, enter_visited_of_ne hj]
      simp only [searchAt, sortedUpTo]
      congr 1
      exact propext ⟨fun h => by omega, fun h => by omega⟩
  have ho : (finish (enter (searchAt k i) i) i).outOrder = (sortedUpTo k (i + 1)).outOrder := by
    change k.registry.take i ++ [k.registry.getD i 0] = k.registry.take (i + 1)
    rw [List.getD_eq_getElem _ _ hi, List.take_append_getElem hi]
  calc finish (enter (searchAt k i) i) i
      = ⟨(finish (enter (searchAt k i) i) i).visited, [], (finish (enter (searchAt k i) i) i).outOrder, k⟩ := rfl
    _ = sortedUpTo k (i + 1) := by rw [hv, ho]; rfl

theorem search_resolved {k : Nodes} (hc : Closed k) {i : Nat} (hi : i < k.registry.length) (h : ResolvedAt k i) :
    search (searchAt k i) = .ok (.sorted (sortedUpTo k (i + 1))) := by
  have he : expand (searchAt k i) i = .ok (sortedUpTo k (i + 1)) := by
    rw [expand, pushRequires_resolved]
    · rw [← finish_searchAt k hi]
      rfl
    · intro q hq
      refine ⟨closed_requires hc hi hq, fun hu => ?_⟩
      exact absurd ((enter_searchAt k i _).1 hu) (Nat.not_lt.2 (h q hq))
  have hv : visit (searchAt k i) = .inl (sortedUpTo k (i + 1)) := by
    have hu := searchAt_visited k i
    rw [visit, show (searchAt k i).stack = [i] from rfl]
    simp only [hu, he]
  have hdone : visit (sortedUpTo k (i + 1)) = .inr (.ok (.sorted (sortedUpTo k (i + 1)))) := rfl
  rw [search, show searchFuel = searchFuel - 2 + 1 + 1 from rfl, Loop.loop_inl hv, Loop.loop_inr hdone]

theorem doomed_not_sorted {f : Search} (hd : Doomed f) (hlen : f.stack.length ≤ kscopeMaxNodes) (n : Nat) (g : Search) :
    Loop.loop visit n f ≠ some (.ok (.sorted g)) := by
  intro hr
  refine Loop.loop_post (I := fun f => Doomed f ∧ f.stack.length ≤ kscopeMaxNodes)
    (Q := fun r => r ≠ .ok (.sorted g)) ?_ ?_ ⟨hd, hlen⟩ hr rfl
  · rintro f f' ⟨hf, hl⟩ hv
    exact ⟨hf.visit hl hv, visit_small hl hv⟩
  · rintro f r ⟨⟨j, hj, _⟩, hl⟩ hv rfl
    rcases visit_cases hl with ⟨hs, _⟩ | ⟨idx, rest, hs, ⟨_, he⟩ | ⟨_, he⟩ | ⟨_, he⟩ | ⟨f', b, _, _, he⟩⟩
    · rw [hs] at hj
      cases hj
    all_goals
      rw [hv] at he
      cases he

theorem search_late {k : Nodes} (hk : Closed k) {i : Nat} (hi : i < k.registry.length) (h : ¬ ResolvedAt k i)
    (g : Search) : search (searchAt k i) ≠ .ok (.sorted g) := by
  simp only [ResolvedAt, not_forall] at h
  obtain ⟨q, hq, hlate⟩ := h
  have hlen : (searchAt k i).stack.length ≤ kscopeMaxNodes := by simp [searchAt, kscopeMaxNodes]
  have hturn : visit (searchAt k i) = .inr (.error .overrun) ∨
      ∃ f, visit (searchAt k i) = .inl f ∧ Doomed f ∧ f.stack.length ≤ kscopeMaxNodes := by
    rcases visit_cases hlen with ⟨hs, _⟩ | ⟨idx, rest, hs, hcase⟩
    · cases hs
    · cases hs
      have hv := searchAt_visited k i
      rcases hcase with ⟨hd, _⟩ | ⟨hd, _⟩ | ⟨_, he⟩ | ⟨f', b, _, hp, he⟩
      · rw [hv] at hd
        cases hd
      · rw [hv] at hd
        cases hd
      · exact .inl he
      · refine .inr ⟨_, he, ?_, visit_small hlen he⟩
        cases b with
        | true => exact hp.doomed rfl
        | false =>
          rcases hp.outcome with ⟨_, hb⟩ | ⟨_, _, q', hq', hn⟩
          · exact absurd ((enter_searchAt k i _).2 (Nat.lt_of_not_le hlate)) ((hb rfl).2.2 q hq).2
          · exact absurd (closed_requires hk hi hq') hn
  intro hr
  rw [search, show searchFuel = searchFuel - 1 + 1 from rfl] at hr
  rcases hturn with he | ⟨f, he, hd, hl⟩
  · rw [Loop.loop_inr he] at hr
    cases hr
  · rw [Loop.loop_inl he] at hr
    cases hloop : Loop.loop visit (searchFuel - 1) f with
    | none =>
      rw [hloop] at hr
      cases hr
    | some r =>
      rw [hloop] at hr
      dsimp only at hr
      rw [hr] at hloop
      exact doomed_not_sorted hd hl _ g hloop

theorem searchAll_sorted {f g : Search} {i : Nat} {is : List Nat} (hv : f.visited i ≠ .done)
    (h : search { f with stack := [i] } = .ok (.sorted g)) : searchAll (i :: is) f = searchAll is g := by
  rw [searchAll, if_neg hv, h]

theorem searchAll_stops {f : Search} {i : Nat} {is : List Nat} (hv : f.visited i ≠ .done)
    (h : ∀ g, search { f with stack := [i] } ≠ .ok (.sorted g)) :
    searchAll (i :: is) f = search { f with stack := [i] } := by
  rw [searchAll, if_neg hv]
  cases hr : search { f with stack := [i] } with
  | error e => rfl
  | ok r =>
    cases r with
    | cycle k => rfl
    | sorted g => exact absurd hr (h g)

theorem searchAll_iff {k : Nodes} (hk : Closed k) : ∀ (len i : Nat), i + len = k.registry.length →
    ((∀ j, i ≤ j → j < k.registry.length → ResolvedAt k j) →
      searchAll (List.range' i len) (sortedUpTo k i) = .ok (.sorted (sortedUpTo k k.registry.length))) ∧
    ((∃ g, searchAll (List.range' i len) (sortedUpTo k i) = .ok (.sorted g)) →
      ∀ j, i ≤ j → j < k.registry.length → ResolvedAt k j)
  | 0, i, hi => by
    rw [Nat.add_zero] at hi
    subst hi
    exact ⟨fun _ => rfl, fun _ j hij hj => absurd hj (Nat.not_lt.2 hij)⟩
  | len + 1, i, hi => by
    have hlt : i < k.registry.length := by omega
    obtain ⟨ih1, ih2⟩ := searchAll_iff hk len (i + 1) (by omega)
    have hv : (sortedUpTo k i).visited i ≠ .done := by simp [sortedUpTo]
    rw [List.range'_succ]
    constructor
    · intro h
      rw [searchAll_sorted hv (search_resolved hk hlt (h i (Nat.le_refl i) hlt))]
      exact ih1 (fun j hij hj => h j (by omega) hj)
    · rintro ⟨g, hg⟩
      have hres : ResolvedAt k i := by
        by_contra hn
        have hnot := search_late hk hlt hn
        rw [searchAll_stops hv hnot] at hg
        exact hnot g hg
      rw [searchAll_sorted hv (search_resolved hk hlt hres)] at hg
      intro j hij hj
      rcases Nat.lt_or_eq_of_le hij with hij | rfl
      · exact ih2 ⟨g, hg⟩ j hij hj
      · exact hres

theorem late_iff {k : Nodes} (hn : k.registry.Nodup) : Late k ↔ ∃ i < k.registry.length, ¬ ResolvedAt k i := by
  constructor
  · rintro ⟨a, ha, b, hab, hlt⟩
    refine ⟨_, List.idxOf_lt_length_of_mem ha, fun h => ?_⟩
    rw [ResolvedAt, List.getD_eq_getElem _ _ (List.idxOf_lt_length_of_mem ha), List.getElem_idxOf] at h
    exact absurd (h b hab) (Nat.not_le.2 hlt)
  · rintro ⟨i, hi, h⟩
    simp only [ResolvedAt, not_forall] at h
    obtain ⟨q, hq, hlt⟩ := h
    rw [List.getD_eq_getElem _ _ hi] at hq
    refine ⟨_, List.getElem_mem hi, q, hq, ?_⟩
    rw [hn.idxOf_getElem]
    omega

theorem kscopeTopoSort_sorted_iff {k : Nodes} (hr : Registered k) (hk : Closed k) :
    (∃ f, kscopeTopoSort k = .ok (.sorted f)) ↔ ¬ Late k := by
  have hstart : kscopeTopoSort k = searchAll (List.range' 0 k.registry.length) (sortedUpTo k 0) := by
    rw [kscopeTopoSort, List.range_eq_range']
    simp [sortedUpTo]
  obtain ⟨h1, h2⟩ := searchAll_iff hk k.registry.length 0 (by omega)
  rw [late_iff hr.nodup, hstart]
  simp only [not_exists, not_and, not_not]
  exact ⟨fun h j hj => h2 h j (Nat.zero_le j) hj, fun h => ⟨_, h1 (fun j _ hj => h j hj)⟩⟩

theorem kscopeTopoSort_eq {k : Nodes} (hr : Registered k) (hk : Closed k) (h : ¬ Late k) :
    kscopeTopoSort k = .ok (.sorted (sortedUpTo k k.registry.length)) := by
  rw [late_iff hr.nodup] at h
  simp only [not_exists, not_and, not_not] at h
  rw [kscopeTopoSort, List.range_eq_range']
  have := (searchAll_iff hk k.registry.length 0 (by omega)).1 (fun j _ hj => h j hj)
  rw [← this]
  simp [sortedUpTo]

/-- **The sort orders the boot** exactly when every node is registered after those it requires, or a graph with a cycle
has a node that is registered before one it requires. -/
theorem orders_boot_iff {k : Nodes} (hr : Registered k) (hk : Closed k) :
    OrdersBoot k ↔ Ordered (Requires k) k.registry ∨ (Late k ∧ Cyclic k) := by
  have hsorted := kscopeTopoSort_sorted_iff hr hk
  have hordered : Ordered (Requires k) k.registry → ¬ Late k ∧ ¬ Cyclic k := fun h =>
    ⟨fun ⟨a, ha, b, hab, hlt⟩ => absurd (h.idxOf_lt ha hab) (Nat.lt_asymm hlt), fun ⟨p, hp, hc⟩ => h.acyclic hp hc⟩
  constructor
  · rintro ⟨hzero, _⟩
    rw [hsorted] at hzero
    by_cases hl : Late k
    · exact .inr ⟨hl, Classical.byContradiction (fun hc => absurd hl (hzero.2 hc))⟩
    · refine .inl (DepOrder.ordered_of_idxOf hr.nodup (fun a ha b hab => ?_))
      -- a node at its own place would be on a cycle
      have hne : k.registry.idxOf b ≠ k.registry.idxOf a := by
        intro he
        have hb : b ∈ k.registry := by
          obtain ⟨b', hb', he'⟩ := hk a ha _ hab
          cases he'
          exact hb'
        have hab' : b = a := by
          rw [← List.getElem_idxOf (List.idxOf_lt_length_of_mem hb), ← List.getElem_idxOf (List.idxOf_lt_length_of_mem ha)]
          simp only [he]
        rw [hab'] at hab
        exact hzero.1 hl ⟨a, ha, .single hab⟩
      have hle : ¬ k.registry.idxOf a < k.registry.idxOf b := fun hlt => hl ⟨a, ha, b, hab, hlt⟩
      omega
  · rintro (ho | ⟨hl, hc⟩)
    · obtain ⟨hl, hc⟩ := hordered ho
      refine ⟨iff_of_true (hsorted.2 hl) hc, fun f hf => ?_⟩
      rw [kscopeTopoSort_eq hr hk hl] at hf
      cases hf
      change (k.registry.take k.registry.length).Perm k.registry ∧ Ordered _ (k.registry.take k.registry.length)
      rw [List.take_length]
      exact ⟨List.Perm.refl _, ho⟩
    · refine ⟨iff_of_false (fun h => hsorted.1 h hl) (not_not.2 hc), fun f hf => absurd hl (hsorted.1 ⟨f, hf⟩)⟩

/-! ## Two nodes -/

def pairNode (p : Ptr) : Node := ⟨true, p, if p = 1 then [some 2] else [], true, true⟩

def pairNodes (first second : Ptr) : Nodes :=
  kscopeRegister (some second) (kscopeRegister (some first) (boot pairNode (fun _ => .registered)))

theorem registered_pair (first second : Ptr) : Registered (pairNodes first second) :=
  ((registered_boot _ _).register _).register _

theorem requires_pair {k : Nodes} (hk : k.node = pairNode) {a b : Ptr} : Requires k a b ↔ a = 1 ∧ b = 2 := by
  rw [Requires, hk, pairNode]
  split <;> simp [*]

theorem closed_pair {k : Nodes} (hk : k.node = pairNode) (h : 2 ∈ k.registry) : Closed k := by
  intro p _ req hreq
  rw [hk, pairNode] at hreq
  split at hreq
  · exact ⟨2, h, by simpa using hreq⟩
  · cases hreq

/-- **A node registered before the one it requires** is taken for a cycle. -/
theorem not_orders_boot : Registered (pairNodes 1 2) ∧ Closed (pairNodes 1 2) ∧ ¬ OrdersBoot (pairNodes 1 2) := by
  have hclosed : Closed (pairNodes 1 2) := closed_pair rfl (by decide)
  refine ⟨registered_pair 1 2, hclosed, fun h => ?_⟩
  have hlate : Late (pairNodes 1 2) := ⟨1, by decide, 2, by unfold Requires; decide, by decide⟩
  have hacyclic : ¬ Cyclic (pairNodes 1 2) := by
    rintro ⟨p, _, hp⟩
    have hordered : Ordered (Requires (pairNodes 1 2)) [2, 1] :=
      DepOrder.ordered_of_idxOf (by decide) (fun a _ b hab => by
        obtain ⟨rfl, rfl⟩ := (requires_pair rfl).1 hab
        decide)
    obtain ⟨q, hpq, _⟩ := TransGen.head'_iff.1 hp
    refine hordered.acyclic ?_ hp
    rw [((requires_pair rfl).1 hpq).1]
    decide
  exact (kscopeTopoSort_sorted_iff (registered_pair 1 2) hclosed).1 (h.zero_iff.2 hacyclic) hlate

theorem orders_boot_pair : OrdersBoot (pairNodes 2 1) := by
  refine (orders_boot_iff (registered_pair 2 1) (closed_pair rfl (by decide))).2 (.inl ?_)
  refine DepOrder.ordered_of_idxOf (registered_pair 2 1).nodup (fun a _ b hab => ?_)
  obtain ⟨rfl, rfl⟩ := (requires_pair rfl).1 hab
  decide

end Kscope
end AmitX
