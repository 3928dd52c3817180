import AmitX.SmkFs.Mounting
import AmitX.Lib.Walk
/-!
# BtreeEnds — when the reads of a tree return (`btree.c`)

Every block is checked on its own, the pointers between the blocks are not.  A search follows one chain of child
pointers, an iteration the chain of first children and then the chain of right siblings; none of the loops counts its
turns, so that a read returns if and only if its chains do not come back to a block.
-/
namespace AmitX
namespace SmkFs

open Prog Volume Walk

/-! ## The chains of pointers -/

/-- The node that `btree_load` returns for a block. -/
def loadNode (v : Volume) (b : Nat) : Option BtreeNode :=
  match v.view b with
  | .node node => if b = 0 ∨ btreeMax < node.entries.length then none else some node
  | _ => none

/-- The block that a search for `key` goes on to. -/
def childOf (v : Volume) (key : CStr) (b : Nat) : Option Nat :=
  (loadNode v b).bind (fun node =>
    if node.leaf then none else (node.entries[btreeIndexChild key node.entries]?).map BtreeEntry.value)

def firstChild (v : Volume) (b : Nat) : Option Nat :=
  (loadNode v b).bind (fun node => if node.leaf then none else node.entries.head?.map BtreeEntry.value)

def nextLeaf (v : Volume) (b : Nat) : Option Nat :=
  (loadNode v b).bind (fun node => if node.leaf ∧ node.rightSibling ≠ 0 then some node.rightSibling else none)

/-- The way down from the root comes to a leaf at `b`. -/
def FirstLeaf (v : Volume) (root b : Nat) : Prop :=
  (∃ n, walk (firstChild v) n root = some b) ∧ ∃ node, loadNode v b = some node ∧ node.leaf = true

def Pointers64 (v : Volume) : Prop := ∀ b node, v.view b = .node node →
  node.rightSibling < 2 ^ 64 ∧ ∀ e ∈ node.entries, e.value < 2 ^ 64

section

variable {v : Volume} {key : CStr} {b c root : Nat} {node : BtreeNode}

theorem view_of_loadNode (h : loadNode v b = some node) : v.view b = .node node := by
  unfold loadNode at h
  split at h
  · rename_i hview
    split at h
    · cases h
    · rw [hview, Option.some.inj h]
  · cases h

theorem loadNode_zero : loadNode v 0 = none := by
  unfold loadNode
  split
  · exact if_pos (Or.inl rfl)
  · rfl

theorem firstChild_of_leaf (h : loadNode v b = some node) (hleaf : node.leaf = true) : firstChild v b = none := by
  simp [firstChild, h, hleaf]

theorem firstLeaf_unique (hb : FirstLeaf v root b) (hc : FirstLeaf v root c) : b = c := by
  obtain ⟨⟨i, hi⟩, node, hnode, hleaf⟩ := hb
  obtain ⟨⟨j, hj⟩, node', hnode', hleaf'⟩ := hc
  exact last_unique hi (firstChild_of_leaf hnode hleaf) hj (firstChild_of_leaf hnode' hleaf')

theorem childOf_lt (h : Pointers64 v) (hc : childOf v key b = some c) : c < 2 ^ 64 := by
  obtain ⟨node, hload, hc⟩ := Option.bind_eq_some_iff.1 hc
  split at hc
  · cases hc
  · obtain ⟨e, he, rfl⟩ := Option.map_eq_some_iff.1 hc
    exact (h b node (view_of_loadNode hload)).2 e (List.mem_of_getElem? he)

theorem firstChild_lt (h : Pointers64 v) (hc : firstChild v b = some c) : c < 2 ^ 64 := by
  obtain ⟨node, hload, hc⟩ := Option.bind_eq_some_iff.1 hc
  split at hc
  · cases hc
  · obtain ⟨e, he, rfl⟩ := Option.map_eq_some_iff.1 hc
    exact (h b node (view_of_loadNode hload)).2 e (List.mem_of_mem_head? he)

theorem nextLeaf_lt (h : Pointers64 v) (hc : nextLeaf v b = some c) : c < 2 ^ 64 := by
  obtain ⟨node, hload, hc⟩ := Option.bind_eq_some_iff.1 hc
  split at hc
  · rw [← Option.some.inj hc]
    exact (h b node (view_of_loadNode hload)).1
  · cases hc

theorem chain_ends_iff {f : Nat → Option Nat} (hf : ∀ b c, f b = some c → c < 2 ^ 64) : Ends f root ↔ ¬Repeats f root :=
  ends_iff_not_repeats (S := insert root {b | b < 2 ^ 64}) ((Set.finite_lt_nat (2 ^ 64)).insert root)
    (Set.mem_insert root _) (fun b _ c hc => Set.mem_insert_of_mem _ (hf b c hc))

/-! ## The loops follow the chains -/

variable {D H : Prop}

theorem fwp_btreeLoad {Q : BtreeNode → Volume → Prop} {E : Err → Volume → Prop}
    (hok : ∀ node, loadNode v b = some node → Q node v) (hfail : ∀ e, e ≠ .diverge → D ∨ ¬v.sectorOk → E e v)
    (hbad : ∀ e, e ≠ .diverge → loadNode v b = none → E e v) : fwp D H (btreeLoad b) Q E v := by
  unfold btreeLoad
  refine wpAbs_bind (wpAbs_failIf (fun h0 => ?_) (fun h0 => wpAbs_bind (wpAbs_orThrow (vwp_readBlock ?_ ?_))))
  · exact hbad _ (by simp) (by rw [h0, loadNode_zero])
  · cases hview : v.view b with
    | node node =>
      refine wpAbs_bind (wpAbs_failIf (fun hlen => hbad _ (by simp) ?_) (fun hlen => wpAbs_pure (hok node ?_)))
      · simp [loadNode, hview, hlen]
      · simp only [loadNode, hview]
        rw [if_neg (by tauto)]
    | raw _ | super _ | record _ _ | mrt _ | bitmap _ | journal _ _ =>
      exact wpAbs_throw (hbad _ (by simp) (by simp [loadNode, hview]))
  · exact fun hf => hfail _ (by simp) hf

theorem childOf_eq (h : loadNode v b = some node) (hleaf : node.leaf = false) :
    childOf v key b = (node.entries[btreeIndexChild key node.entries]?).map BtreeEntry.value := by
  simp [childOf, h, hleaf]

theorem fwp_btreeLeafLookup (entries : List BtreeEntry) :
    fwp D H (btreeLeafLookup key entries) (fun _ _ => True) (fun e _ => e ≠ .diverge) v := by
  unfold btreeLeafLookup
  split
  · exact wpAbs_ite (fun _ => wpAbs_pure trivial) (fun _ => wpAbs_throw (by simp))
  · exact wpAbs_throw (by simp)

theorem fwp_btreeDescend_ends : ∀ (n b : Nat), walk (childOf v key) n b = none →
    fwp True True (btreeDescend key n b) (fun _ _ => True) (fun e _ => e ≠ .diverge) v
  | n + 1, b, h => by
    rw [btreeDescend]
    refine wpAbs_bind (fwp_btreeLoad (fun node hload => ?_) (fun _ he _ => he) (fun _ he _ => he))
    refine wpAbs_ite (fun _ => fwp_btreeLeafLookup _) (fun hleaf => ?_)
    have hchild := @childOf_eq v key b node hload (by simpa using hleaf)
    cases he : node.entries[btreeIndexChild key node.entries]? with
    | none => exact wpAbs_throw (by simp)
    | some e =>
      rw [he, Option.map_some] at hchild
      rw [walk_succ hchild] at h
      exact fwp_btreeDescend_ends n e.value h

theorem fwp_btreeDescend_diverges (hs : v.sectorOk) : ∀ (n b : Nat), (∀ k, walk (childOf v key) k b ≠ none) →
    fwp False False (btreeDescend key n b) (fun _ _ => False) (fun e _ => e = .diverge) v
  | 0, _, _ => wpAbs_throw rfl
  | n + 1, b, h => by
    have hload : loadNode v b ≠ none := fun hn => h 1 (walk_succ_none (by simp [childOf, hn]))
    rw [btreeDescend]
    refine wpAbs_bind (fwp_btreeLoad (fun node hnode => ?_) (fun _ _ hf => (hf.elim id (fun hf => hf hs)).elim)
      (fun _ _ hn => absurd hn hload))
    refine wpAbs_ite (fun hleaf => absurd ?_ (h 1)) (fun hleaf => ?_)
    · exact walk_succ_none (by simp [childOf, hnode, hleaf])
    · have hchild := @childOf_eq v key b node hnode (by simpa using hleaf)
      cases he : node.entries[btreeIndexChild key node.entries]? with
      | none =>
        rw [he, Option.map_none] at hchild
        exact absurd (walk_succ_none hchild) (h 1)
      | some e =>
        rw [he, Option.map_some] at hchild
        exact fwp_btreeDescend_diverges hs n e.value (fun k hk => h (k + 1) (by rw [walk_succ hchild, hk]))

theorem firstChild_eq (h : loadNode v b = some node) (hleaf : ¬node.leaf = true) :
    firstChild v b = node.entries.head?.map BtreeEntry.value := by
  simp [firstChild, h, hleaf]

theorem fwp_btreeFirstLeaf_ends : ∀ (n b : Nat), walk (firstChild v) n b = none →
    fwp True True (btreeFirstLeaf n b) (fun leaf v' => v' = v ∧ FirstLeaf v b leaf) (fun e _ => e ≠ .diverge) v
  | n + 1, b, h => by
    rw [btreeFirstLeaf]
    refine wpAbs_bind (fwp_btreeLoad (fun node hload => ?_) (fun _ he _ => he) (fun _ he _ => he))
    refine wpAbs_ite (fun hleaf => wpAbs_pure ⟨rfl, ⟨0, rfl⟩, node, hload, hleaf⟩) (fun hleaf => ?_)
    have hchild := firstChild_eq hload hleaf
    cases hentries : node.entries with
    | nil => exact wpAbs_throw (by simp)
    | cons e entries =>
      rw [hentries, List.head?_cons, Option.map_some] at hchild
      rw [walk_succ hchild] at h
      refine wpAbs_mono (fwp_btreeFirstLeaf_ends n e.value h) (fun leaf v' hl => ?_) (fun _ _ he => he)
      obtain ⟨rfl, ⟨k, hk⟩, hnode⟩ := hl
      exact ⟨rfl, ⟨k + 1, by rw [walk_succ hchild, hk]⟩, hnode⟩

theorem fwp_btreeFirstLeaf_diverges (hs : v.sectorOk) : ∀ (n b : Nat), (∀ k, walk (firstChild v) k b ≠ none) →
    fwp False False (btreeFirstLeaf n b) (fun _ _ => False) (fun e _ => e = .diverge) v
  | 0, _, _ => wpAbs_throw rfl
  | n + 1, b, h => by
    have hload : loadNode v b ≠ none := fun hn => h 1 (walk_succ_none (by simp [firstChild, hn]))
    rw [btreeFirstLeaf]
    refine wpAbs_bind (fwp_btreeLoad (fun node hnode => ?_) (fun _ _ hf => (hf.elim id (fun hf => hf hs)).elim)
      (fun _ _ hn => absurd hn hload))
    refine wpAbs_ite (fun hleaf => absurd (walk_succ_none (firstChild_of_leaf hnode hleaf)) (h 1)) (fun hleaf => ?_)
    have hchild := firstChild_eq hnode hleaf
    cases hentries : node.entries with
    | nil =>
      rw [hentries, List.head?_nil, Option.map_none] at hchild
      exact absurd (walk_succ_none hchild) (h 1)
    | cons e entries =>
      rw [hentries, List.head?_cons, Option.map_some] at hchild
      exact fwp_btreeFirstLeaf_diverges hs n e.value (fun k hk => h (k + 1) (by rw [walk_succ hchild, hk]))

theorem fwp_btreeFirstLeaf_finds (hs : v.sectorOk) {leaf : Nat} {node : BtreeNode} (hnode : loadNode v leaf = some node)
    (hleaf : node.leaf = true) : ∀ (n k b : Nat), walk (firstChild v) k b = some leaf →
    fwp False False (btreeFirstLeaf n b) (fun x v' => x = leaf ∧ v' = v) (fun e _ => e = .diverge) v
  | 0, _, _, _ => wpAbs_throw rfl
  | n + 1, k, b, h => by
    rw [btreeFirstLeaf]
    cases k with
    | zero =>
      cases h
      refine wpAbs_bind (fwp_btreeLoad (fun node' hnode' => ?_) (fun _ _ hf => (hf.elim id (fun hf => hf hs)).elim)
        (fun _ _ hn => by rw [hn] at hnode; cases hnode))
      rw [hnode] at hnode'
      cases hnode'
      exact wpAbs_ite (fun _ => wpAbs_pure ⟨rfl, rfl⟩) (fun h => absurd hleaf h)
    | succ k =>
      obtain ⟨c, hc, hrest⟩ := Option.bind_eq_some_iff.1 h
      have hload : loadNode v b ≠ none := fun hn => by simp [firstChild, hn] at hc
      refine wpAbs_bind (fwp_btreeLoad (fun node' hnode' => ?_) (fun _ _ hf => (hf.elim id (fun hf => hf hs)).elim)
        (fun _ _ hn => absurd hn hload))
      refine wpAbs_ite (fun hl => ?_) (fun hl => ?_)
      · rw [firstChild_of_leaf hnode' hl] at hc
        cases hc
      · rw [firstChild_eq hnode' hl] at hc
        cases hentries : node'.entries with
        | nil => rw [hentries, List.head?_nil, Option.map_none] at hc; cases hc
        | cons e entries =>
          rw [hentries, List.head?_cons, Option.map_some] at hc
          rw [← Option.some.inj hc] at hrest
          exact fwp_btreeFirstLeaf_finds hs hnode hleaf n k e.value hrest

section

variable {χ : Type} {cb : CStr → Nat → χ → Int × χ}

theorem nextLeaf_eq (h : loadNode v b = some node) (hleaf : node.leaf = true) (hsib : node.rightSibling ≠ 0) :
    nextLeaf v b = some node.rightSibling := by
  simp [nextLeaf, h, hleaf, hsib]

theorem fwp_btreeVisitLeaves_ends : ∀ (n b : Nat) (ctx : χ), walk (nextLeaf v) n b = none →
    fwp True True (btreeVisitLeaves cb (n + 1) b ctx) (fun _ _ => True) (fun e _ => e ≠ .diverge) v
  | n + 1, b, ctx, h => by
    rw [btreeVisitLeaves]
    refine wpAbs_ite (fun _ => wpAbs_pure trivial) (fun _ => ?_)
    refine wpAbs_bind (fwp_btreeLoad (fun node hload => ?_) (fun _ he _ => he) (fun _ he _ => he))
    refine wpAbs_bind (wpAbs_failIf (fun _ => by simp) (fun hleaf => wpAbs_ite (fun _ => wpAbs_pure trivial) (fun _ => ?_)))
    by_cases hsib : node.rightSibling = 0
    · rw [hsib, btreeVisitLeaves]
      exact wpAbs_ite (fun _ => wpAbs_pure trivial) (fun h0 => absurd rfl h0)
    · rw [walk_succ (nextLeaf_eq hload (by simpa using hleaf) hsib)] at h
      exact fwp_btreeVisitLeaves_ends n node.rightSibling _ h

def neverStop : CStr → Nat → Unit → Int × Unit := fun _ _ _ => (0, ())

theorem visitEntries_neverStop : ∀ entries, visitEntries neverStop entries () = (0, ())
  | [] => rfl
  | _ :: entries => by
    simp only [visitEntries, neverStop, ne_eq, not_true_eq_false, if_false]
    exact visitEntries_neverStop entries

theorem fwp_btreeVisitLeaves_diverges (hs : v.sectorOk) : ∀ (n b : Nat), (∀ k, walk (nextLeaf v) k b ≠ none) →
    fwp False False (btreeVisitLeaves neverStop n b ()) (fun _ _ => False) (fun e _ => e = .diverge) v
  | 0, _, _ => wpAbs_throw rfl
  | n + 1, b, h => by
    have hload : loadNode v b ≠ none := fun hn => h 1 (walk_succ_none (by simp [nextLeaf, hn]))
    have hb : b ≠ 0 := by
      rintro rfl
      exact hload loadNode_zero
    rw [btreeVisitLeaves]
    refine wpAbs_ite (fun h0 => absurd h0 hb) (fun _ => ?_)
    refine wpAbs_bind (fwp_btreeLoad (fun node hnode => ?_) (fun _ _ hf => (hf.elim id (fun hf => hf hs)).elim)
      (fun _ _ hn => absurd hn hload))
    have hnext : node.leaf = true ∧ node.rightSibling ≠ 0 := by
      by_contra hno
      exact h 1 (walk_succ_none (by simp only [nextLeaf, hnode, Option.bind_some, if_neg hno]))
    refine wpAbs_bind (wpAbs_failIf (fun hl => by simp [hl] at hnext) (fun _ => ?_))
    rw [visitEntries_neverStop]
    refine wpAbs_ite (fun h0 => absurd rfl h0) (fun _ => ?_)
    exact fwp_btreeVisitLeaves_diverges hs n node.rightSibling
      (fun k hk => h (k + 1) (by rw [walk_succ (nextLeaf_eq hnode hnext.1 hnext.2), hk]))

end

end

/-! ## Searches and iterations -/

def SearchReturns (s : Mount) (root : Nat) (key : CStr) : Prop := ∃ n, (btreeSearchWithin n root key s).1 ≠ .error .diverge

def IterateReturns {χ : Type} (s : Mount) (root : Nat) (cb : CStr → Nat → χ → Int × χ) (ctx : χ) : Prop :=
  ∃ n, (btreeIterateWithin cb n root ctx s).1 ≠ .error .diverge

def SearchEnds (v : Volume) (root : Nat) (key : CStr) : Prop := ¬Repeats (childOf v key) root

/-- The first children come back to no block, nor do the right siblings of the first leaf. -/
def IterateEnds (v : Volume) (root : Nat) : Prop :=
  ¬Repeats (firstChild v) root ∧ ∀ leaf, FirstLeaf v root leaf → ¬Repeats (nextLeaf v) leaf

theorem returns_of_fwp {α : Type} {m : FsM α} {s : Mount}
    (h : fwp True True m (fun _ _ => True) (fun e _ => e ≠ .diverge) s.vol) : (m s).1 ≠ .error .diverge :=
  (fwp_apply (P := fun r _ => r ≠ .error .diverge) (wpAbs_mono h (fun _ _ _ => by simp)
    (fun e _ he => by simpa using he)) ⟨fun _ => trivial, fun _ => trivial⟩).2

theorem diverges_of_fwp {α : Type} {m : FsM α} {s : Mount} (hs : s.Reliable)
    (h : fwp False False m (fun _ _ => False) (fun e _ => e = .diverge) s.vol) : (m s).1 = .error .diverge :=
  (fwp_apply (P := fun r _ => r = .error .diverge) (wpAbs_mono h (fun _ _ h => h.elim) (fun e _ he => by rw [he]))
    ⟨fun hf => hs.1 hf, fun hf => hs.2 hf⟩).2

section

variable {s : Mount} {root : Nat} {key : CStr}

theorem searchReturns_of_ends (hptr : Pointers64 s.vol) (h : SearchEnds s.vol root key) : SearchReturns s root key := by
  obtain ⟨n, hn⟩ := (chain_ends_iff (fun b c hc => childOf_lt hptr hc)).2 h
  refine ⟨n, returns_of_fwp ?_⟩
  refine wpAbs_bind (wpAbs_failIf (fun _ => by simp) (fun _ => wpAbs_bind (vwp_malloc ?_ (fun _ => ?_))))
  · exact wpAbs_bind (wpAbs_failIf (fun h => by simp at h) (fun _ => fwp_btreeDescend_ends n root hn))
  · exact wpAbs_bind (wpAbs_failIf (fun _ => by simp) (fun h => absurd rfl h))

theorem not_searchReturns (hs : s.Reliable) (hsec : s.vol.sectorOk) (h : ¬SearchEnds s.vol root key) :
    ¬SearchReturns s root key := by
  rw [SearchEnds, not_not] at h
  have hgo : ∀ k, walk (childOf s.vol key) k root ≠ none := fun k hk => not_ends_of_repeats h ⟨k, hk⟩
  have hroot : root ≠ 0 := by
    rintro rfl
    refine hgo 1 (walk_succ_none ?_)
    rw [childOf, loadNode_zero, Option.bind_none]
  rintro ⟨n, hn⟩
  refine hn (diverges_of_fwp hs ?_)
  refine wpAbs_bind (wpAbs_failIf (fun h0 => absurd h0 hroot) (fun _ => wpAbs_bind (vwp_malloc ?_ False.elim)))
  exact wpAbs_bind (wpAbs_failIf (fun h => by simp at h) (fun _ => fwp_btreeDescend_diverges hsec n root hgo))

theorem iterateReturns_of_ends (hptr : Pointers64 s.vol) (h : IterateEnds s.vol root) {χ : Type}
    (cb : CStr → Nat → χ → Int × χ) (ctx : χ) : IterateReturns s root cb ctx := by
  obtain ⟨n1, hn1⟩ := (chain_ends_iff (fun b c hc => firstChild_lt hptr hc)).2 h.1
  -- enough turns for the way down and for the leaves after its end
  obtain ⟨n2, hn2⟩ : ∃ n2, ∀ leaf, FirstLeaf s.vol root leaf → walk (nextLeaf s.vol) n2 leaf = none := by
    by_cases hex : ∃ leaf, FirstLeaf s.vol root leaf
    · obtain ⟨leaf, hleaf⟩ := hex
      obtain ⟨n2, hn2⟩ := (chain_ends_iff (fun b c hc => nextLeaf_lt hptr hc)).2 (h.2 leaf hleaf)
      exact ⟨n2, fun leaf' hleaf' => by rw [firstLeaf_unique hleaf' hleaf, hn2]⟩
    · exact ⟨0, fun leaf hleaf => absurd ⟨leaf, hleaf⟩ hex⟩
  refine ⟨max n1 n2 + 1, returns_of_fwp ?_⟩
  have hdown := fwp_btreeFirstLeaf_ends (max n1 n2 + 1) root (walk_none_of_le hn1 (by omega))
  refine wpAbs_bind (wpAbs_failIf (fun _ => by simp) (fun _ => wpAbs_bind (vwp_malloc ?_ (fun _ => ?_))))
  · refine wpAbs_bind (wpAbs_failIf (fun h => by simp at h) (fun _ => wpAbs_seq hdown (fun leaf v' hl => ?_)
      (fun _ _ he => he)))
    obtain ⟨rfl, hleaf⟩ := hl
    exact fwp_btreeVisitLeaves_ends (max n1 n2) leaf ctx (walk_none_of_le (hn2 leaf hleaf) (by omega))
  · exact wpAbs_bind (wpAbs_failIf (fun _ => by simp) (fun h => absurd rfl h))

theorem not_iterateReturns (hs : s.Reliable) (hsec : s.vol.sectorOk) (h : ¬IterateEnds s.vol root) :
    ¬IterateReturns s root neverStop () := by
  have hloops : root ≠ 0 ∧ ∀ n, fwp False False (do
      let leaf ← btreeFirstLeaf n root
      btreeVisitLeaves neverStop n leaf ()) (fun _ _ => False) (fun e _ => e = .diverge) s.vol := by
    by_cases hdown : Repeats (firstChild s.vol) root
    · have hgo : ∀ k, walk (firstChild s.vol) k root ≠ none := fun k hk => not_ends_of_repeats hdown ⟨k, hk⟩
      refine ⟨?_, fun n => wpAbs_seq (fwp_btreeFirstLeaf_diverges hsec n root hgo) (fun _ _ h => h.elim)
        (fun _ _ he => he)⟩
      rintro rfl
      refine hgo 1 (walk_succ_none ?_)
      rw [firstChild, loadNode_zero, Option.bind_none]
    · simp only [IterateEnds, not_and, not_forall, not_not] at h
      obtain ⟨leaf, ⟨⟨k, hk⟩, node, hnode, hleaf⟩, hrep⟩ := h hdown
      have hgo : ∀ k, walk (nextLeaf s.vol) k leaf ≠ none := fun k hk => not_ends_of_repeats hrep ⟨k, hk⟩
      refine ⟨?_, fun n => wpAbs_seq (fwp_btreeFirstLeaf_finds hsec hnode hleaf n k root hk) (fun x v' hx => ?_)
        (fun _ _ he => he)⟩
      · rintro rfl
        cases k with
        | zero => cases hk; rw [loadNode_zero] at hnode; cases hnode
        | succ k => rw [walk_succ_none (by rw [firstChild, loadNode_zero, Option.bind_none])] at hk; cases hk
      · rw [hx.1, hx.2]
        exact fwp_btreeVisitLeaves_diverges hsec n leaf hgo
  rintro ⟨n, hn⟩
  refine hn (diverges_of_fwp hs ?_)
  refine wpAbs_bind (wpAbs_failIf (fun h0 => absurd h0 hloops.1) (fun _ => wpAbs_bind (vwp_malloc ?_ False.elim)))
  exact wpAbs_bind (wpAbs_failIf (fun h => by simp at h) (fun _ => hloops.2 n))

end

/-- **When the reads of a tree return.**  Where the pointers that a read follows come back to no block it returns,
whatever fails; where nothing fails it returns nowhere else. -/
theorem btree_reads_return_iff (s : Mount) (root : Nat) (hptr : Pointers64 s.vol) :
    ((∀ key, SearchEnds s.vol root key → SearchReturns s root key) ∧ (IterateEnds s.vol root →
      ∀ (χ : Type) (cb : CStr → Nat → χ → Int × χ) ctx, IterateReturns s root cb ctx)) ∧
    (s.Reliable → s.vol.sectorOk → (∀ key, SearchReturns s root key ↔ SearchEnds s.vol root key) ∧
      ((∀ (χ : Type) (cb : CStr → Nat → χ → Int × χ) ctx, IterateReturns s root cb ctx) ↔ IterateEnds s.vol root)) := by
  refine ⟨⟨fun key => searchReturns_of_ends hptr, fun h χ cb ctx => iterateReturns_of_ends hptr h cb ctx⟩,
    fun hs hsec => ⟨fun key => ⟨fun h => ?_, searchReturns_of_ends hptr⟩, fun h => ?_,
      fun h χ cb ctx => iterateReturns_of_ends hptr h cb ctx⟩⟩
  · by_contra hno
    exact not_searchReturns hs hsec hno h
  · by_contra hno
    exact not_iterateReturns hs hsec hno (h Unit neverStop ())

def selfChild : BtreeNode := ⟨false, true, 0, 0, [⟨⟨[], CStr.nil_nonzero⟩, 5⟩]⟩

def selfChildMount : Mount :=
  { blankMount ⟨⟨64, 512, 1, 1, 2, 1, 3, 1, 256, 4⟩, ⟨60, 0, 255, 1, true, 0⟩, ⟨0, 0, 1⟩⟩ with
    dev := ⟨cacheInit { blankDrive with base := fun _ => .node selfChild }, cacheInit_wf _⟩ }

theorem view_selfChild (b : Nat) : selfChildMount.vol.view b = .node selfChild := by
  have hcold : ¬selfChildMount.dev.1.Cached b := by
    rintro ⟨j, hj, -⟩
    cases hj
  exact Drive.content_of_uncached hcold

theorem selfChildMount_ready : selfChildMount.Reliable ∧ selfChildMount.vol.sectorOk ∧ Pointers64 selfChildMount.vol := by
  refine ⟨⟨?_, ?_⟩, (by decide : blockSize % 512 = 0), fun b node hview => ?_⟩
  · rintro ⟨o, ho, -⟩
    simp [selfChildMount, blankMount, cacheInit, blankDrive] at ho
  · simp [Mount.HeapFaulty, selfChildMount, blankMount]
  · rw [view_selfChild] at hview
    injection hview with hnode
    subst hnode
    exact ⟨by decide, by simp [selfChild]⟩

theorem selfChild_repeats (key : CStr) : Repeats (childOf selfChildMount.vol key) 5 := by
  have hload : loadNode selfChildMount.vol 5 = some selfChild := by
    rw [loadNode, view_selfChild]
    rfl
  have hstep : childOf selfChildMount.vol key 5 = some 5 := by
    rw [childOf, hload]
    rfl
  exact ⟨0, 1, 5, by decide, rfl, by rw [walk_succ hstep, walk_zero]⟩

theorem btree_reads_return_self : SearchReturns selfChildMount 5 ⟨[], by simp⟩ ↔
    SearchEnds selfChildMount.vol 5 ⟨[], by simp⟩ :=
  ((btree_reads_return_iff selfChildMount 5 selfChildMount_ready.2.2).2 selfChildMount_ready.1
    selfChildMount_ready.2.1).1 ⟨[], by simp⟩

/-- **A node that is its own child.**  Every search from it goes round for ever. -/
theorem not_btree_reads_return : ¬∀ (s : Mount) (root : Nat) (key : CStr), s.Reliable → s.vol.sectorOk →
    Pointers64 s.vol → SearchReturns s root key := by
  intro hall
  obtain ⟨hs, hsec, hptr⟩ := selfChildMount_ready
  exact not_searchReturns hs hsec (not_not.2 (selfChild_repeats ⟨[], by simp⟩)) (hall selfChildMount 5 ⟨[], by simp⟩ hs hsec hptr)

end SmkFs
end AmitX
