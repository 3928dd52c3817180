import AmitX.Lib.Pages
import AmitX.SmkFs.BtreeEnds
import AmitX.SmkFs.BtreeInsert
import AmitX.SmkFs.AllocExact
/-!
# BtreeFull — inserting into a tree when the blocks run out (`btree.c`)

An insert stores the halves of a split node before it asks for the next block.  Where even the first block is missing it
has stored nothing; where a later one is missing the right half of the last split is in the tree of no root, and its keys
are lost.
-/
namespace AmitX
namespace SmkFs

open Prog Volume Pages

/-! ## The nodes as pages of a search tree -/

def leafValue (entries : List BtreeEntry) (key : CStr) : Option Nat :=
  ((entries[btreeLeafLowerBound key entries]?).filter (fun e => strcmp e.key key = 0)).map BtreeEntry.value

theorem leafValue_mem {entries : List BtreeEntry} {key : CStr} {x : Nat} (h : leafValue entries key = some x) :
    key ∈ entries.map BtreeEntry.key := by
  obtain ⟨e, he, -⟩ := Option.map_eq_some_iff.1 h
  obtain ⟨hget, hkey⟩ := Option.filter_eq_some_iff.1 he
  have heq : e.key = key := (strcmp_eq_zero_iff _ _).1 (by simpa using hkey)
  exact heq ▸ List.mem_map_of_mem (List.mem_of_getElem? hget)

theorem indexChild_mem {entries : List BtreeEntry} {key : CStr} {c : Nat}
    (h : (entries[btreeIndexChild key entries]?).map BtreeEntry.value = some c) : c ∈ entries.map BtreeEntry.value := by
  obtain ⟨e, he, rfl⟩ := Option.map_eq_some_iff.1 h
  exact List.mem_map_of_mem (List.mem_of_getElem? he)

def leafPage (entries : List BtreeEntry) : Page Nat CStr Nat where
  keys := entries.map BtreeEntry.key
  children := []
  child _ := none
  value := leafValue entries
  child_mem _ _ h := absurd h (by simp)
  value_mem _ _ h := leafValue_mem h
  kind := .inr rfl

def indexPage (entries : List BtreeEntry) : Page Nat CStr Nat where
  keys := []
  children := entries.map BtreeEntry.value
  child key := (entries[btreeIndexChild key entries]?).map BtreeEntry.value
  value _ := none
  child_mem _ _ h := indexChild_mem h
  value_mem _ _ h := absurd h (by simp)
  kind := .inl rfl

def pageOf (node : BtreeNode) : Page Nat CStr Nat := if node.leaf then leafPage node.entries else indexPage node.entries

def Volume.pages (v : Volume) (b : Nat) : Option (Page Nat CStr Nat) := (loadNode v b).map pageOf

section

variable {v v' : Volume} {key : CStr} {b x : Nat} {node : BtreeNode}

theorem pageOf_leaf (h : node.leaf = true) : pageOf node = leafPage node.entries := if_pos h

theorem pageOf_index (h : ¬node.leaf = true) : pageOf node = indexPage node.entries := if_neg h

theorem pages_of_load (h : loadNode v b = some node) : v.pages b = some (pageOf node) := by
  rw [Volume.pages, h, Option.map_some]

theorem fwp_btreeLeafLookup_value (D H : Prop) (entries : List BtreeEntry) :
    fwp D H (btreeLeafLookup key entries) (fun x v' => v' = v ∧ leafValue entries key = some x)
      (fun _ _ => leafValue entries key = none) v := by
  unfold btreeLeafLookup leafValue
  cases entries[btreeLeafLowerBound key entries]? with
  | none => exact wpAbs_throw rfl
  | some e =>
    refine wpAbs_ite (fun h => wpAbs_pure ⟨rfl, ?_⟩) (fun h => wpAbs_throw ?_)
    · rw [Option.filter_some_pos (by simpa using h), Option.map_some]
    · rw [Option.filter_some_neg (by simpa using h), Option.map_none]

theorem fwp_btreeDescend_finds (D H : Prop) : ∀ (n b : Nat),
    fwp D H (btreeDescend key n b) (fun x _ => Finds v.pages key x b) (fun _ _ => True) v
  | 0, _ => wpAbs_throw trivial
  | n + 1, b => by
    rw [btreeDescend]
    refine wpAbs_bind (fwp_btreeLoad (fun node hload => ?_) (fun _ _ _ => trivial) (fun _ _ _ => trivial))
    have hpage := pages_of_load hload
    refine wpAbs_ite (fun hleaf => ?_) (fun hleaf => ?_)
    · rw [pageOf_leaf hleaf] at hpage
      exact wpAbs_mono (fwp_btreeLeafLookup_value D H node.entries) (fun x _ h => .here hpage h.2) (fun _ _ _ => trivial)
    · rw [pageOf_index hleaf] at hpage
      cases he : node.entries[btreeIndexChild key node.entries]? with
      | none => exact wpAbs_throw trivial
      | some e =>
        refine wpAbs_mono (fwp_btreeDescend_finds D H n e.value) (fun x _ h => ?_) (fun _ _ _ => trivial)
        exact .down hpage (show Option.map _ _ = _ by rw [he, Option.map_some]) h

theorem load_of_pages {page : Page Nat CStr Nat} (h : v.pages b = some page) :
    ∃ node, loadNode v b = some node ∧ pageOf node = page := Option.map_eq_some_iff.1 h

theorem runs_btreeDescend (hs : v.sectorOk) (h : Finds v.pages key x b) : ∃ n, Runs (btreeDescend key n b) v x v := by
  have hload : ∀ {b node}, loadNode v b = some node → Runs (btreeLoad b) v node v := fun {b node} hnode =>
    fwp_btreeLoad (fun node' hnode' => ⟨by rw [hnode] at hnode'; exact (Option.some.inj hnode').symm, rfl⟩)
      (fun _ _ hf => (hf.elim id (fun hf => hf hs))) (fun _ _ hn => by rw [hn] at hnode; cases hnode)
  induction h with
  | @here b page hpage hval =>
    obtain ⟨node, hnode, rfl⟩ := load_of_pages hpage
    by_cases hleaf : node.leaf = true
    · rw [pageOf_leaf hleaf] at hval
      refine ⟨1, (hload hnode).bind (Runs.ite_pos hleaf ?_)⟩
      refine wpAbs_mono (fwp_btreeLeafLookup_value False False node.entries) (fun y _ hy => ⟨?_, hy.1⟩) (fun _ _ hn => ?_)
      · have hy' : leafValue node.entries key = some x := hval
        rw [hy.2] at hy'
        exact Option.some.inj hy'
      · have hy' : leafValue node.entries key = some x := hval
        rw [hn] at hy'
        cases hy'
    · rw [pageOf_index hleaf] at hval
      cases hval
  | @down b c page hpage hchild _ ih =>
    obtain ⟨node, hnode, rfl⟩ := load_of_pages hpage
    obtain ⟨n, hn⟩ := ih
    by_cases hleaf : node.leaf = true
    · rw [pageOf_leaf hleaf] at hchild
      exact absurd hchild (by simp [leafPage])
    · rw [pageOf_index hleaf] at hchild
      obtain ⟨e, he, rfl⟩ := Option.map_eq_some_iff.1 hchild
      refine ⟨n + 1, (hload hnode).bind (Runs.ite_neg hleaf ?_)⟩
      rw [he]
      exact hn

end

def SearchFinds (s : Mount) (root : Nat) (key : CStr) (x : Nat) : Prop :=
  ∃ n, (btreeSearchWithin n root key s).1 = .ok x

theorem finds_of_search {s : Mount} {root : Nat} {key : CStr} {x : Nat} (h : SearchFinds s root key x) :
    Finds s.vol.pages key x root := by
  obtain ⟨n, hn⟩ := h
  have hspec : fwp True True (btreeSearchWithin n root key) (fun x _ => Finds s.vol.pages key x root)
      (fun _ _ => True) s.vol := by
    refine wpAbs_bind (wpAbs_failIf (fun _ => trivial) (fun _ => fwp_malloc_bind (fun raw => ?_)))
    exact wpAbs_bind (wpAbs_failIf (fun _ => trivial) (fun _ => fwp_btreeDescend_finds True True n root))
  have hpost := (fwp_apply (P := fun r _ => ∀ x, r = .ok x → Finds s.vol.pages key x root) (wpAbs_mono hspec
    (fun y _ hy x hx => by cases hx; exact hy) (fun _ _ _ x hx => by cases hx)) ⟨fun _ => trivial, fun _ => trivial⟩).2
  exact hpost x hn

theorem searchFinds_iff {s : Mount} (hs : s.Reliable) (hsec : s.vol.sectorOk) (root : Nat) (key : CStr) (x : Nat) :
    SearchFinds s root key x ↔ Finds s.vol.pages key x root := by
  constructor
  · exact finds_of_search
  · intro h
    obtain ⟨n, hn⟩ := runs_btreeDescend hsec h
    have hroot : root ≠ 0 := by
      rintro rfl
      cases h with
      | here hpage _ => rw [Volume.pages, loadNode_zero] at hpage; cases hpage
      | down hpage _ _ => rw [Volume.pages, loadNode_zero] at hpage; cases hpage
    have hrun : Runs (btreeSearchWithin n root key) s.vol x s.vol :=
      (runs_failIf hroot).bind (runs_malloc.bind ((runs_failIf (by simp)).bind hn))
    obtain ⟨s', hs', -⟩ := hrun.apply hs.1 hs.2
    exact ⟨n, by rw [hs']⟩

/-! ## Storing a node -/

def Volume.putNode (block : Nat) (node : BtreeNode) (v : Volume) : Volume :=
  (v.logEntry .write block (btreeNodeLength node) 0 (.node node)).write block (.node node)

theorem fwp_btreeStore (D H : Prop) {v : Volume} (block : Nat) (node : BtreeNode) :
    fwp D H (btreeStore block node) (fun _ v' => v' = v.putNode block node) (fun _ _ => True) v := by
  have hlog : fwp D H (do
      journalLogWrite block (.node node) (btreeNodeLength node)
      (writeBlock block (.node node)).orThrow .io) (fun _ v' => v' = v.putNode block node) (fun _ _ => True) v := by
    refine wpAbs_seq (fwp_journalWriteEntry D H v .write block (btreeNodeLength node) 0 (.node node)) (fun _ v' h => ?_)
      (fun _ _ _ => trivial)
    rw [h.2]
    exact wpAbs_orThrow (vwp_writeBlock rfl (fun _ => trivial))
  unfold btreeStore
  refine wpAbs_bind (wpAbs_failIf (fun _ => trivial) (fun _ => fwp_malloc_bind (fun oldRaw => ?_)))
  refine wpAbs_bind (wpAbs_failIf (fun _ => trivial) (fun _ => ?_))
  exact wpAbs_bind (wpAbs_ignore (vwp_readBlock hlog (fun _ => hlog)))

theorem fwp_btreeSetParent (D H : Prop) {v : Volume} (block parent : Nat) :
    fwp D H (btreeSetParent block parent) (fun _ _ => True) (fun _ _ => True) v := by
  unfold btreeSetParent
  refine fwp_malloc_bind (fun raw => wpAbs_bind (wpAbs_failIf (fun _ => trivial) (fun _ => ?_)))
  refine wpAbs_bind (fwp_btreeLoad (fun node _ => ?_) (fun _ _ _ => trivial) (fun _ _ _ => trivial))
  exact wpAbs_mono (fwp_btreeStore D H block _) (fun _ _ _ => trivial) (fun _ _ h => h)

/-! ## Where no block is free -/

section

variable {v : Volume} {key : CStr} {F : Prop}

theorem vwp_btreeLeafSplitInsert_noRun (hl : v.sb.toLayout.WF) (hno : NoRun v 1) (block : Nat) (node : BtreeNode)
    (pos value : Nat) : vwp F (btreeLeafSplitInsert block node pos key value)
      (fun r v' => r = .noBlock ∧ v' = v) (fun _ _ => True) v := by
  refine fwp_malloc_bind (fun tmp => fwp_malloc_bind (fun rightRaw => wpAbs_bind (wpAbs_failIf (fun _ => trivial)
    (fun _ => ?_))))
  refine wpAbs_seq (vwp_bitmapAlloc_noRun F hl hno) (fun b v' h => ?_) (fun _ _ _ => trivial)
  exact wpAbs_ite (fun _ => wpAbs_pure ⟨rfl, h.2⟩) (fun hb => absurd h.1 hb)

/-- An insertion that changed nothing where it found no block, and split no node. -/
def Unsplit (v : Volume) (r : InsertEnd) (v' : Volume) : Prop := (r = .noBlock → v' = v) ∧ ∀ right sep, r ≠ .split right sep

theorem vwp_storeDone (block : Nat) (node : BtreeNode) (w : Volume) : vwp F (do
    btreeStore block node
    pure InsertEnd.done) (Unsplit v) (fun _ _ => True) w :=
  wpAbs_seq (fwp_btreeStore F F block node) (fun _ _ _ => wpAbs_pure ⟨nofun, nofun⟩) (fun _ _ _ => trivial)

theorem vwp_btreeInsertRec_noRun (hl : v.sb.toLayout.WF) (hno : NoRun v 1) (value : Nat) : ∀ (n block : Nat),
    vwp F (btreeInsertRec key value n block) (Unsplit v) (fun _ _ => True) v
  | 0, _ => wpAbs_throw trivial
  | n + 1, block => by
    rw [btreeInsertRec]
    refine fwp_malloc_bind (fun raw => wpAbs_bind (wpAbs_failIf (fun _ => trivial) (fun _ => ?_)))
    refine wpAbs_bind (fwp_btreeLoad (fun node _ => ?_) (fun _ _ _ => trivial) (fun _ _ _ => trivial))
    refine wpAbs_ite (fun _ => ?_) (fun _ => ?_)
    · unfold btreeLeafInsert
      dsimp only
      split
      · exact vwp_storeDone _ _ v
      · refine wpAbs_ite (fun _ => ?_) (fun _ => vwp_storeDone _ _ v)
        exact wpAbs_mono (vwp_btreeLeafSplitInsert_noRun hl hno _ _ _ _) (fun r v' h => ⟨fun _ => h.2, by simp [h.1]⟩)
          (fun _ _ _ => trivial)
    · unfold btreeIndexInsert
      refine wpAbs_seq (vwp_btreeInsertRec_noRun hl hno value n _) (fun r v' h => ?_) (fun _ _ _ => trivial)
      cases r with
      | noBlock => exact wpAbs_pure ⟨fun _ => h.1 rfl, nofun⟩
      | done => exact wpAbs_ite (fun _ => vwp_storeDone _ _ v') (fun _ => wpAbs_pure ⟨nofun, nofun⟩)
      | split right sep => exact absurd rfl (h.2 right sep)

theorem vwp_btreeTryInsert_noRun (hl : v.sb.toLayout.WF) (hno : NoRun v 1) (n root value : Nat) :
    vwp F (btreeTryInsertWithin n root key value) (fun r v' => r = none → v' = v) (fun _ _ => True) v := by
  unfold btreeTryInsertWithin
  refine wpAbs_bind (wpAbs_failIf (fun _ => trivial) (fun _ => wpAbs_bind (wpAbs_failIf (fun _ => trivial) (fun _ => ?_))))
  refine wpAbs_ite (fun _ => ?_) (fun _ => ?_)
  · refine wpAbs_seq (vwp_bitmapAlloc_noRun F hl hno) (fun b v' h => ?_) (fun _ _ _ => trivial)
    exact wpAbs_ite (fun _ => wpAbs_pure (fun _ => h.2)) (fun hb => absurd h.1 hb)
  · refine wpAbs_seq (vwp_btreeInsertRec_noRun hl hno value n root) (fun r v' h => ?_) (fun _ _ _ => trivial)
    cases r with
    | noBlock => exact wpAbs_pure (fun _ => h.1 rfl)
    | done => exact wpAbs_pure nofun
    | split right sep => exact absurd rfl (h.2 right sep)

end

end SmkFs
end AmitX
