import AmitX.Lib.Preserve
import AmitX.SmkFs.BtreeDelete
/-!
# TreeKeep — what a delete in a tree keeps (`btree.c`)

A delete loads, stores and frees blocks of its tree, and moves entries between siblings.  An invariant that the three
keep is kept by the whole delete, whatever fails, if what may stand in a block is told by its kind and by each entry
alone, and siblings may hold the same entries.
-/
namespace AmitX
namespace SmkFs

open Prog

/-- The nodes that may stand in a block: leaves or index nodes, and their entries. -/
structure NodeRule where
  kind : Nat → Bool → Prop
  entry : Nat → BtreeEntry → Prop

def NodeRule.Node (R : NodeRule) (b : Nat) (node : BtreeNode) : Prop :=
  R.kind b node.leaf ∧ ∀ e ∈ node.entries, R.entry b e

/-- **An invariant that the steps of a delete keep** on the blocks `T` of a tree; `F` says whether something may fail. -/
structure TreeInv (F : Prop) (I : Volume → Prop) (T : Nat → Prop) (R : NodeRule) : Prop where
  malloc : Preserves (volView F) I malloc (fun _ => True)
  load : ∀ b, T b → Preserves (volView F) I (btreeLoad b) (R.Node b)
  store : ∀ b node, T b → R.Node b node → Preserves (volView F) I (btreeStore b node) (fun _ => True)
  free : ∀ b, T b → Preserves (volView F) I (bitmapFreeRange b 1) (fun _ => True)
  child : ∀ b e, T b → R.kind b false → R.entry b e → T e.value
  fence : ∀ b e key, R.kind b false → R.entry b e → R.entry b ⟨key, e.value⟩
  sibling : ∀ b e e', R.kind b false → R.entry b e → R.entry b e' → ∀ x, R.entry e.value x → R.entry e'.value x

section

variable {F : Prop} {I : Volume → Prop} {T : Nat → Prop} {R : NodeRule} {b : Nat} {node : BtreeNode}

theorem entryAt_mem {i : Nat} (hi : i < node.entries.length) : node.entryAt i ∈ node.entries := by
  rw [BtreeNode.entryAt, List.getElem?_eq_getElem hi]
  exact List.getElem_mem hi

structure NodeRule.Index (R : NodeRule) (b : Nat) (node : BtreeNode) : Prop where
  index : node.leaf = false
  node : R.Node b node

theorem NodeRule.Index.kind (h : R.Index b node) : R.kind b false := h.index ▸ h.node.1

theorem NodeRule.Node.erase (h : R.Node b node) (i : Nat) : R.Node b { node with entries := node.entries.eraseIdx i } :=
  ⟨h.1, fun e he => h.2 e (List.mem_of_mem_eraseIdx he)⟩

theorem NodeRule.Index.erase (h : R.Index b node) (i : Nat) :
    R.Index b { node with entries := node.entries.eraseIdx i } := ⟨h.index, h.node.erase i⟩

namespace TreeInv

variable (h : TreeInv F I T R)
include h

theorem setFence (hp : R.Index b node) (i : Nat) (key : CStr) : R.Index b (node.setFence i key) := by
  refine ⟨hp.index, hp.node.1, fun e he => ?_⟩
  by_cases hi : i < node.entries.length
  · rcases List.mem_or_eq_of_mem_set he with hold | rfl
    · exact hp.node.2 e hold
    · exact h.fence b _ _ hp.kind (hp.node.2 _ (entryAt_mem hi))
  · have he : e ∈ node.entries := by
      rwa [BtreeNode.setFence, List.set_eq_of_length_le (Nat.le_of_not_lt hi)] at he
    exact hp.node.2 e he

theorem childIn (hb : T b) (hp : R.Index b node) {i : Nat} (hi : i < node.entries.length) : T (node.entryAt i).value :=
  h.child b _ hb hp.kind (hp.node.2 _ (entryAt_mem hi))

theorem moves (hp : R.Index b node) {i j : Nat} (hi : i < node.entries.length) (hj : j < node.entries.length)
    {x : BtreeEntry} (hx : R.entry (node.entryAt i).value x) : R.entry (node.entryAt j).value x :=
  h.sibling b _ _ hp.kind (hp.node.2 _ (entryAt_mem hi)) (hp.node.2 _ (entryAt_mem hj)) x hx

theorem loadSibling (hb : T b) : Preserves (volView F) I (btreeLoadSibling b) (R.Node b) :=
  h.malloc.bind (fun _ _ => (preserves_failIf _ _).bind (fun _ _ => h.load b hb))

theorem setParent (hb : T b) (parent : Nat) :
    Preserves (volView F) I (btreeSetParent b parent) (fun _ => True) :=
  h.malloc.bind (fun _ _ => (preserves_failIf _ _).bind (fun _ _ => (h.load b hb).bind (fun _ hnode =>
    h.store b _ hb hnode)))

theorem refreshFence (hb : T b) (hp : R.Index b node) {i : Nat} (hi : i < node.entries.length) :
    Preserves (volView F) I (btreeRefreshFence node i) (R.Index b) := by
  refine h.malloc.bind (fun _ _ => (preserves_failIf _ _).bind (fun _ _ => (h.load _ (h.childIn hb hp hi)).bind
    (fun child _ => ?_)))
  split
  · exact preserves_pure hp
  · exact preserves_pure (h.setFence hp _ _)

variable {parent child sib : BtreeNode} {i j : Nat}

theorem setMovedParent (hb : T b) (hchild : R.kind b child.leaf) {x : BtreeEntry} (hx : R.entry b x) (dest : Nat) :
    Preserves (volView F) I (when (child.leaf = false) (btreeSetParent x.value dest)) (fun _ => True) := by
  by_cases hleaf : child.leaf = false
  · rw [hleaf] at hchild
    exact Preserves.when (h.setParent (h.child b x hb hchild hx) dest)
  · unfold when
    rw [if_neg hleaf]
    exact preserves_pure trivial

theorem borrowLeft (hb : T b) (hp : R.Index b parent) (hi : i < parent.entries.length) (hj : j < parent.entries.length)
    (hchild : R.Node (parent.entryAt i).value child) (hleft : R.Node (parent.entryAt j).value sib)
    (hlen : 0 < sib.entries.length) :
    Preserves (volView F) I
      (btreeBorrowLeft parent child sib i (parent.entryAt i).value (parent.entryAt j).value) (R.Index b) := by
  have hmoved := hleft.2 _ (entryAt_mem (i := sib.entries.length - 1) (Nat.sub_lt hlen Nat.one_pos))
  have hhere := h.moves hp hj hi hmoved
  refine (h.setMovedParent (h.childIn hb hp hi) hchild.1 hhere _).bind (fun _ _ => (h.store _ _ (h.childIn hb hp hj) ?_).bind
    (fun _ _ => (h.store _ _ (h.childIn hb hp hi) ?_).bind (fun _ _ => preserves_pure (h.setFence hp _ _))))
  · exact ⟨hleft.1, fun e he => hleft.2 e (List.mem_of_mem_dropLast he)⟩
  · refine ⟨hchild.1, fun e he => ?_⟩
    rcases List.mem_cons.1 he with rfl | he
    · exact hhere
    · exact hchild.2 e he

theorem borrowRight (hb : T b) (hp : R.Index b parent) (hi : i < parent.entries.length)
    (hj : j < parent.entries.length) (hchild : R.Node (parent.entryAt i).value child)
    (hright : R.Node (parent.entryAt j).value sib) (hlen : 0 < sib.entries.length) :
    Preserves (volView F) I
      (btreeBorrowRight parent child sib i (parent.entryAt i).value (parent.entryAt j).value) (R.Index b) := by
  have hmoved := hright.2 _ (entryAt_mem (i := 0) hlen)
  have hhere := h.moves hp hj hi hmoved
  refine (h.setMovedParent (h.childIn hb hp hi) hchild.1 hhere _).bind (fun _ _ => (h.store _ _ (h.childIn hb hp hi) ?_).bind
    (fun _ _ => (h.store _ _ (h.childIn hb hp hj) ?_).bind (fun _ _ => preserves_pure (h.setFence hp _ _))))
  · refine ⟨hchild.1, fun e he => ?_⟩
    rcases List.mem_append.1 he with he | he
    · exact hchild.2 e he
    · rw [List.mem_singleton.1 he]
      exact hhere
  · exact ⟨hright.1, fun e he => hright.2 e (List.mem_of_mem_tail he)⟩

theorem merge {left right : BtreeNode} {leaf : Bool} (hb : T b) (hp : R.Index b parent) (hi : i < parent.entries.length)
    (hj : j < parent.entries.length) (hleft : R.Node (parent.entryAt i).value left)
    (hright : R.Node (parent.entryAt j).value right)
    (hleaf : R.kind (parent.entryAt i).value leaf ∨ R.kind (parent.entryAt j).value leaf) (gone : Nat) :
    Preserves (volView F) I
      (btreeMerge leaf parent left right gone (parent.entryAt i).value (parent.entryAt j).value) (R.Index b) := by
  have hmoved : ∀ e ∈ right.entries, R.entry (parent.entryAt i).value e := fun e he => h.moves hp hj hi (hright.2 e he)
  refine Preserves.bind (R := fun _ => True) ?_ (fun _ _ => (h.free _ (h.childIn hb hp hj)).ignore.bind (fun _ _ =>
    (h.store _ _ (h.childIn hb hp hi) ?_).bind (fun _ _ => preserves_pure (hp.erase gone))))
  · by_cases hl : leaf = false
    · rw [hl] at hleaf
      refine Preserves.when (Preserves.forEach (fun e he => h.setParent ?_ _))
      rcases hleaf with hk | hk
      · exact h.child _ e (h.childIn hb hp hi) hk (hmoved e he)
      · exact h.child _ e (h.childIn hb hp hj) hk (hright.2 e he)
    · unfold when
      rw [if_neg hl]
      exact preserves_pure trivial
  · refine ⟨hleft.1, fun e he => ?_⟩
    rcases List.mem_append.1 he with he | he
    · exact hleft.2 e he
    · exact hmoved e he

def IsChild (parent : BtreeNode) (block : Nat) : Prop :=
  block = 0 ∨ ∃ j < parent.entries.length, block = (parent.entryAt j).value

variable {left right : Nat}

theorem mergeChild (hb : T b) (hp : R.Index b parent) (hi : i < parent.entries.length)
    (hchild : R.Node (parent.entryAt i).value child) (hl : IsChild parent left) (hr : IsChild parent right)
    (hsome : ¬(left = 0 ∧ right = 0)) :
    Preserves (volView F) I (btreeMergeChild parent child i (parent.entryAt i).value left right) (R.Index b) := by
  refine Preserves.ite (fun hne => ?_) (fun heq => ?_)
  · obtain ⟨j, hj, rfl⟩ := hl.resolve_left hne
    exact (h.loadSibling (h.childIn hb hp hj)).bind (fun _ hsib =>
      h.merge hb hp hj hi hsib hchild (Or.inr hchild.1) _)
  · obtain ⟨j, hj, rfl⟩ := hr.resolve_left (fun h0 => hsome ⟨Decidable.not_not.1 heq, h0⟩)
    exact (h.loadSibling (h.childIn hb hp hj)).bind (fun _ hsib =>
      h.merge hb hp hi hj hchild hsib (Or.inl hchild.1) _)

theorem fixFromRight (hb : T b) (hp : R.Index b parent) (hi : i < parent.entries.length)
    (hchild : R.Node (parent.entryAt i).value child) (hl : IsChild parent left) (hr : IsChild parent right)
    (hsome : ¬(left = 0 ∧ right = 0)) :
    Preserves (volView F) I (btreeFixFromRight parent child i (parent.entryAt i).value left right)
      (R.Index b) := by
  have hmerge := h.mergeChild hb hp hi hchild hl hr hsome
  refine Preserves.ite (fun hne => ?_) (fun _ => hmerge)
  obtain ⟨j, hj, rfl⟩ := hr.resolve_left hne
  exact (h.loadSibling (h.childIn hb hp hj)).bind (fun sib hsib => Preserves.ite
    (fun hlen => h.borrowRight hb hp hi hj hchild hsib (Nat.zero_lt_of_lt hlen)) (fun _ => hmerge))

theorem fixUnderflow (hb : T b) (hp : R.Index b parent) (hi : i < parent.entries.length) :
    Preserves (volView F) I (btreeFixUnderflow parent i) (R.Index b) := by
  have hl : IsChild parent (if 0 < i then (parent.entryAt (i - 1)).value else 0) := by
    split
    · exact Or.inr ⟨i - 1, by omega, rfl⟩
    · exact Or.inl rfl
  have hr : IsChild parent (if i + 1 < parent.entries.length then (parent.entryAt (i + 1)).value else 0) := by
    split
    · rename_i hlt
      exact Or.inr ⟨i + 1, hlt, rfl⟩
    · exact Or.inl rfl
  refine (preserves_failIf _ _).bind (fun _ hsome => h.malloc.bind (fun _ _ => (preserves_failIf _ _).bind (fun _ _ =>
    (h.load _ (h.childIn hb hp hi)).bind (fun child hchild => ?_))))
  have hright := h.fixFromRight hb hp hi hchild hl hr hsome
  refine Preserves.ite (fun hne => ?_) (fun _ => hright)
  obtain ⟨j, hj, hleft⟩ := hl.resolve_left hne
  rw [hleft] at hright ⊢
  exact (h.loadSibling (h.childIn hb hp hj)).bind (fun sib hsib => Preserves.ite
    (fun hlen => h.borrowLeft hb hp hi hj hchild hsib (Nat.zero_lt_of_lt hlen)) (fun _ => hright))

theorem indexDelete {deleteRec : Nat → FsM Bool} {key : CStr} {isRoot : Bool} (hb : T b) (hp : R.Index b node)
    (hrec : ∀ c, T c → Preserves (volView F) I (deleteRec c) (fun _ => True)) :
    Preserves (volView F) I (btreeIndexDelete deleteRec b node key isRoot) (fun _ => True) := by
  refine (preserves_failIf _ _).bind (fun _ hne => ?_)
  have hi : btreeIndexChild key node.entries < node.entries.length := btreeIndexChild_lt key hne
  refine (hrec _ (h.childIn hb hp hi)).bind (fun under _ => ?_)
  refine Preserves.bind (R := R.Index b) (Preserves.ite (fun _ => h.fixUnderflow hb hp hi) (fun _ => preserves_pure hp))
    (fun fixed hfixed => ?_)
  refine Preserves.bind (R := R.Index b) (Preserves.ite (fun hstale => ?_) (fun _ => preserves_pure hfixed))
    (fun fresh hfresh => (Preserves.when (h.store b fresh hb hfresh.node)).bind (fun _ _ => preserves_pure trivial))
  have hlt : btreeIndexChild key node.entries < fixed.entries.length := (of_decide_eq_true hstale).1
  exact h.refreshFence hb hfixed hlt

theorem leafDelete {key : CStr} {isRoot : Bool} (hb : T b) (hnode : R.Node b node) :
    Preserves (volView F) I (btreeLeafDelete b node key isRoot) (fun _ => True) := by
  unfold btreeLeafDelete
  dsimp only
  split
  · exact preserves_throw _
  · exact (h.store b _ hb (hnode.erase _)).bind (fun _ _ => preserves_pure trivial)

theorem deleteRec (key : CStr) : ∀ n b isRoot, T b →
    Preserves (volView F) I (btreeDeleteRec key n b isRoot) (fun _ => True)
  | 0, _, _, _ => preserves_throw _
  | n + 1, b, isRoot, hb => h.malloc.bind (fun _ _ => (preserves_failIf _ _).bind (fun _ _ => (h.load b hb).bind
      (fun _ hnode => Preserves.ite (fun _ => h.leafDelete hb hnode) (fun hleaf =>
        h.indexDelete hb ⟨by simpa using hleaf, hnode⟩ (fun c hc => deleteRec key n c false hc)))))

theorem promote {root c : Nat} (hroot : T root) (hc : T c) :
    Preserves (volView F) I (btreePromote root c) (fun r => r = c) := by
  refine h.malloc.bind (fun _ _ => (preserves_failIf _ _).bind (fun _ _ => (h.load c hc).bind (fun node hnode => ?_)))
  have hstore := h.store c { node with root := true, parentBlock := 0 } hc ⟨hnode.1, hnode.2⟩
  exact hstore.bind (fun _ _ => (h.free root hroot).ignore.bind (fun _ _ => preserves_pure rfl))

theorem delete {root : Nat} (hroot : T root) (n : Nat) (key : CStr) :
    Preserves (volView F) I (btreeDeleteWithin n root key) T := by
  refine (preserves_failIf _ _).bind (fun _ _ => (h.deleteRec key n root true hroot).bind (fun _ _ => h.malloc.bind
    (fun _ _ => (preserves_failIf _ _).bind (fun _ _ => (h.load root hroot).bind (fun node hnode => ?_)))))
  refine Preserves.ite (fun hone => ?_) (fun _ => preserves_pure hroot)
  have hc : T (node.entryAt 0).value := h.childIn hroot ⟨hone.1, hnode⟩ (by omega)
  exact (h.promote hroot hc).mono (fun _ hr => hr ▸ hc)

end TreeInv

end

end SmkFs
end AmitX
