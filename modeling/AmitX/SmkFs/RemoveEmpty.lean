import AmitX.SmkFs.Dir
import AmitX.SmkFs.BtreeEnds
import AmitX.SmkFs.ExtentMap
import AmitX.SmkFs.FreeEntry
import AmitX.SmkFs.FormatMount
/-!
# RemoveEmpty — when a directory is removed (`smkfs_delete_record`)

Before its transaction a delete looks at the root node of the directory's tree, and goes on where the node has no entries.
It goes on as well where the node could not be read, and it does not look behind an empty root leaf.
-/
namespace AmitX
namespace SmkFs

open Prog Volume Walk

/-! ## What an iteration visits -/

def stopAtOnce : CStr → Nat → Unit → Int × Unit := fun _ _ _ => (1, ())

def VisitsNone (s : Mount) (root : Nat) : Prop :=
  ∀ n, (btreeIterateWithin stopAtOnce n root () s.faultless).1 ≠ .ok (1, ())

def Volume.EntriesFrom (v : Volume) (leaf : Nat) : Prop :=
  ∃ k b node, walk (nextLeaf v) k leaf = some b ∧ loadNode v b = some node ∧ node.leaf = true ∧ node.entries ≠ []

def Volume.HasEntries (v : Volume) (root : Nat) : Prop := ∃ leaf, FirstLeaf v root leaf ∧ v.EntriesFrom leaf

section

variable {v : Volume} {b c root leaf : Nat} {node : BtreeNode}

theorem visitEntries_stop (entries : List BtreeEntry) :
    visitEntries stopAtOnce entries () = if entries = [] then (0, ()) else (1, ()) := by
  cases entries with
  | nil => rfl
  | cons e entries => rfl

theorem not_entriesFrom_zero : ¬v.EntriesFrom 0 := by
  rintro ⟨k, b, node, hw, hload, -⟩
  have hnext : nextLeaf v 0 = none := by simp [nextLeaf, loadNode_zero]
  cases k with
  | zero =>
    cases hw
    rw [loadNode_zero] at hload
    cases hload
  | succ k =>
    rw [walk_succ_none hnext] at hw
    cases hw

theorem entriesFrom_iff (hload : loadNode v b = some node) (hleaf : node.leaf = true) :
    v.EntriesFrom b ↔ node.entries ≠ [] ∨ v.EntriesFrom node.rightSibling := by
  constructor
  · rintro ⟨k, c, node', hw, hload', hleaf', hne⟩
    cases k with
    | zero =>
      cases hw
      obtain rfl := Option.some.inj (hload.symm.trans hload')
      exact Or.inl hne
    | succ k =>
      by_cases hsib : node.rightSibling = 0
      · have hnext : nextLeaf v b = none := by simp [nextLeaf, hload, hsib]
        rw [walk_succ_none hnext] at hw
        cases hw
      · rw [walk_succ (nextLeaf_eq hload hleaf hsib)] at hw
        exact Or.inr ⟨k, c, node', hw, hload', hleaf', hne⟩
  · rintro (hne | ⟨k, c, node', hw, hrest⟩)
    · exact ⟨0, b, node, rfl, hload, hleaf, hne⟩
    · by_cases hsib : node.rightSibling = 0
      · rw [hsib] at hw
        exact absurd ⟨k, c, node', hw, hrest⟩ not_entriesFrom_zero
      · exact ⟨k + 1, c, node', by rw [walk_succ (nextLeaf_eq hload hleaf hsib), hw], hrest⟩

theorem fwp_btreeFirstLeaf_leaf (D H : Prop) : ∀ n b, fwp D H (btreeFirstLeaf n b)
    (fun leaf v' => v' = v ∧ FirstLeaf v b leaf) (fun _ _ => True) v
  | 0, _ => wpAbs_throw trivial
  | n + 1, b => by
    rw [btreeFirstLeaf]
    refine wpAbs_bind (fwp_btreeLoad (fun node hload => ?_) (fun _ _ _ => trivial) (fun _ _ _ => trivial))
    refine wpAbs_ite (fun hleaf => wpAbs_pure ⟨rfl, ⟨0, rfl⟩, node, hload, hleaf⟩) (fun hleaf => ?_)
    have hchild := firstChild_eq hload hleaf
    cases hentries : node.entries with
    | nil => exact wpAbs_throw trivial
    | cons e entries =>
      rw [hentries, List.head?_cons, Option.map_some] at hchild
      refine wpAbs_mono (fwp_btreeFirstLeaf_leaf D H n e.value) (fun leaf _ h => ?_) (fun _ _ h => h)
      obtain ⟨hv, ⟨k, hk⟩, hnode⟩ := h
      exact ⟨hv, ⟨k + 1, by rw [walk_succ hchild, hk]⟩, hnode⟩

theorem fwp_btreeVisitLeaves_stop (D H : Prop) : ∀ n b, fwp D H (btreeVisitLeaves stopAtOnce n b ())
    (fun r _ => r = (1, ()) → v.EntriesFrom b) (fun _ _ => True) v
  | 0, _ => wpAbs_throw trivial
  | n + 1, b => by
    rw [btreeVisitLeaves]
    refine wpAbs_ite (fun _ => wpAbs_pure (fun h => by cases h)) (fun _ => ?_)
    refine wpAbs_bind (fwp_btreeLoad (fun node hload => ?_) (fun _ _ _ => trivial) (fun _ _ _ => trivial))
    refine wpAbs_bind (wpAbs_failIf (fun _ => trivial) (fun hleaf => ?_))
    have hleaf : node.leaf = true := by simpa using hleaf
    rw [visitEntries_stop]
    by_cases hnil : node.entries = []
    · rw [if_pos hnil]
      exact wpAbs_ite (fun h => absurd rfl h) (fun _ => wpAbs_mono (fwp_btreeVisitLeaves_stop D H n node.rightSibling)
        (fun _ _ h hr => (entriesFrom_iff hload hleaf).2 (Or.inr (h hr))) (fun _ _ h => h))
    · exact wpAbs_ite (fun _ => wpAbs_pure (fun _ => (entriesFrom_iff hload hleaf).2 (Or.inl hnil)))
        (fun h => absurd (by rw [if_neg hnil]; decide) h)

theorem runs_load (hs : v.sectorOk) (hload : loadNode v b = some node) : Runs (btreeLoad b) v node v :=
  fwp_btreeLoad (fun node' hload' => ⟨Option.some.inj (hload'.symm.trans hload), rfl⟩)
    (fun _ _ hf => (hf.elim id (fun hf => hf hs))) (fun _ _ hn => by rw [hn] at hload; cases hload)

theorem runs_btreeFirstLeaf (hs : v.sectorOk) (hload : loadNode v leaf = some node) (hleaf : node.leaf = true) :
    ∀ (k b n : Nat), walk (firstChild v) k b = some leaf → k < n → Runs (btreeFirstLeaf n b) v leaf v
  | k, b, 0, _, hn => absurd hn (Nat.not_lt_zero k)
  | 0, b, n + 1, hw, _ => by
    cases hw
    exact (runs_load hs hload).bind (Runs.ite_pos hleaf (runs_pure _ _))
  | k + 1, b, n + 1, hw, hn => by
    obtain ⟨c, hc, hrest⟩ := Option.bind_eq_some_iff.1 hw
    obtain ⟨node', hload', hc⟩ := Option.bind_eq_some_iff.1 hc
    rw [btreeFirstLeaf]
    by_cases hl : node'.leaf = true
    · rw [if_pos hl] at hc
      cases hc
    · rw [if_neg hl] at hc
      refine (runs_load hs hload').bind (Runs.ite_neg hl ?_)
      cases hentries : node'.entries with
      | nil =>
        rw [hentries] at hc
        cases hc
      | cons e entries =>
        rw [hentries] at hc
        obtain rfl : e.value = c := Option.some.inj hc
        exact runs_btreeFirstLeaf hs hload hleaf k _ n hrest (by omega)

theorem runs_btreeVisitLeaves (hs : v.sectorOk) (hload : loadNode v c = some node) (hleaf : node.leaf = true)
    (hne : node.entries ≠ []) : ∀ (k b n : Nat), walk (nextLeaf v) k b = some c → k < n →
    Runs (btreeVisitLeaves stopAtOnce n b ()) v (1, ()) v
  | k, b, 0, _, hn => absurd hn (Nat.not_lt_zero k)
  | k, b, n + 1, hw, hn => by
    have hb0 : b ≠ 0 := by
      rintro rfl
      exact not_entriesFrom_zero ⟨k, c, node, hw, hload, hleaf, hne⟩
    rw [btreeVisitLeaves]
    refine Runs.ite_neg hb0 ?_
    cases k with
    | zero =>
      cases hw
      refine (runs_load hs hload).bind ((runs_failIf (by simp [hleaf])).bind ?_)
      rw [visitEntries_stop, if_neg hne]
      exact Runs.ite_pos (by decide) (runs_pure _ _)
    | succ k =>
      obtain ⟨d, hd, hrest⟩ := Option.bind_eq_some_iff.1 hw
      obtain ⟨node', hload', hd⟩ := Option.bind_eq_some_iff.1 hd
      by_cases hl : node'.leaf = true ∧ node'.rightSibling ≠ 0
      · rw [if_pos hl] at hd
        obtain rfl : node'.rightSibling = d := Option.some.inj hd
        refine (runs_load hs hload').bind ((runs_failIf (by simp [hl.1])).bind ?_)
        rw [visitEntries_stop]
        by_cases hnil : node'.entries = []
        · rw [if_pos hnil]
          exact Runs.ite_neg (by decide) (runs_btreeVisitLeaves hs hload hleaf hne k _ n hrest (by omega))
        · rw [if_neg hnil]
          exact Runs.ite_pos (by decide) (runs_pure _ _)
      · rw [if_neg hl] at hd
        cases hd

theorem visitsNone_iff {s : Mount} (hs : s.vol.sectorOk) : VisitsNone s root ↔ ¬s.vol.HasEntries root := by
  constructor
  · rintro hnone ⟨leaf, ⟨⟨k, hk⟩, node, hload, hleaf⟩, k', c, node', hw, hload', hleaf', hne⟩
    have hroot : root ≠ 0 := by
      rintro rfl
      cases k with
      | zero =>
        cases hk
        rw [loadNode_zero] at hload
        cases hload
      | succ k =>
        rw [walk_succ_none (by simp [firstChild, loadNode_zero])] at hk
        cases hk
    have hrun : Runs (btreeIterateWithin stopAtOnce (k + k' + 1) root ()) s.vol (1, ()) s.vol :=
      (runs_failIf hroot).bind (runs_malloc.bind ((runs_failIf (by simp)).bind
        ((runs_btreeFirstLeaf hs hload hleaf k root _ hk (by omega)).bind
          (runs_btreeVisitLeaves hs hload' hleaf' hne k' leaf _ hw (by omega)))))
    obtain ⟨hd, hh⟩ := faultless_reliable s
    obtain ⟨s', h, -⟩ := hrun.apply (s := s.faultless) hd hh
    exact hnone _ (by rw [h])
  · intro hno n hrun
    have hspec : fwp True True (btreeIterateWithin stopAtOnce n root ())
        (fun r _ => r = (1, ()) → s.vol.HasEntries root) (fun _ _ => True) s.vol := by
      refine wpAbs_bind (wpAbs_failIf (fun _ => trivial) (fun _ => fwp_malloc_bind (fun raw => ?_)))
      refine wpAbs_bind (wpAbs_failIf (fun _ => trivial) (fun _ => ?_))
      refine wpAbs_seq (fwp_btreeFirstLeaf_leaf True True n root) (fun leaf v' h => ?_) (fun _ _ h => h)
      obtain ⟨rfl, hleaf⟩ := h
      exact wpAbs_mono (fwp_btreeVisitLeaves_stop True True n leaf) (fun r _ h hr => ⟨leaf, hleaf, h hr⟩) (fun _ _ h => h)
    have hpost := (fwp_apply (s := s.faultless) (P := fun r _ => r = .ok (1, ()) → s.vol.HasEntries root) (wpAbs_mono hspec
      (fun y _ hy hx => hy (by cases hx; rfl)) (fun _ _ _ hx => by cases hx)) ⟨fun _ => trivial, fun _ => trivial⟩).2
    exact hno (hpost hrun)

/-! ## What the check sees -/

/-- Whether the tree is seen to be empty where the delete looks: where the root node cannot be read, for want of memory or
of the block, the tree has no entries; and behind a root that is a leaf without entries there are none. -/
structure SeesEmpty (s : Mount) (recordId root : Nat) : Prop where
  checked : ∀ e, (btreeNodeRead root (64 * btreeEntrySize) (recordRead recordId s).2).1 = .error e → ¬s.vol.HasEntries root
  siblings : ∀ node, loadNode s.vol root = some node → node.leaf = true → node.entries = [] →
    ¬s.vol.EntriesFrom node.rightSibling

variable {s s₁ : Mount} {recordId : Nat} {rec rec' : Record} {attrs attrs' : List Attr}

theorem recordAt_of_read (h : recordRead recordId s = (.ok (rec, attrs), s₁)) :
    s₁.vol = s.vol ∧ s.vol.RecordAt recordId rec attrs := by
  have hspec := wp_ok (wp_of_vwp (fwp_recordRead_at True True s.vol recordId)) h
  exact hspec

theorem hasEntries_iff (hload : loadNode s.vol root = some node) (hnil : node.entries = []) :
    s.vol.HasEntries root ↔ node.leaf = true ∧ s.vol.EntriesFrom node.rightSibling := by
  by_cases hleaf : node.leaf = true
  · constructor
    · rintro ⟨leaf, hfirst, hfrom⟩
      obtain rfl : leaf = root := firstLeaf_unique hfirst ⟨⟨0, rfl⟩, node, hload, hleaf⟩
      exact ⟨hleaf, ((entriesFrom_iff hload hleaf).1 hfrom).resolve_left (fun hne => hne hnil)⟩
    · rintro ⟨-, hfrom⟩
      exact ⟨root, ⟨⟨0, rfl⟩, node, hload, hleaf⟩, (entriesFrom_iff hload hleaf).2 (Or.inr hfrom)⟩
  · refine iff_of_false ?_ (fun h => hleaf h.1)
    rintro ⟨leaf, ⟨⟨k, hk⟩, node', hload', hleaf'⟩, -⟩
    cases k with
    | zero =>
      cases hk
      obtain rfl := Option.some.inj (hload.symm.trans hload')
      exact hleaf hleaf'
    | succ k =>
      rw [walk_succ_none (by rw [firstChild_eq hload hleaf, hnil]; rfl)] at hk
      cases hk

theorem loadNode_of_read {size : Nat} (h : btreeNodeRead root size s = (.ok node, s₁)) :
    loadNode s.vol root = some node := by
  have hspec : fwp True True (btreeNodeRead root size) (fun node _ => loadNode s.vol root = some node) (fun _ _ => True)
      s.vol := by
    refine wpAbs_bind (wpAbs_failIf (fun _ => trivial) (fun _ => fwp_malloc_bind (fun raw => ?_)))
    refine wpAbs_bind (wpAbs_failIf (fun _ => trivial) (fun _ => ?_))
    refine wpAbs_bind (fwp_btreeLoad (fun node hload => ?_) (fun _ _ _ => trivial) (fun _ _ _ => trivial))
    exact wpAbs_bind (wpAbs_failIf (fun _ => trivial) (fun _ => wpAbs_pure hload))
  have hpost := wp_ok (wp_of_vwp hspec) h
  exact hpost

/-- **A directory that is removed** has no entry exactly where the check sees that it has none. -/
theorem removed_empty_iff (s : Mount) (n parentDir : Nat) (name : CStr) (recordId : Nat) (rec : Record)
    (attrs : List Attr) (root : AttrData) (hs : s.vol.sectorOk)
    (hok : (smkfsDeleteRecord n parentDir name recordId s).1 = .ok ()) (hr : s.vol.RecordAt recordId rec attrs)
    (hdir : rec.objectType = .dir) (hroot : recordFindAttr .data attrs = some root) :
    VisitsNone s root.asU64 ↔ SeesEmpty s recordId root.asU64 := by
  rw [visitsNone_iff hs]
  have hrun : smkfsDeleteRecord n parentDir name recordId s = (.ok (), (smkfsDeleteRecord n parentDir name recordId s).2) :=
    Prod.ext hok rfl
  obtain ⟨m, s₀, hm, hrun⟩ := ok_bind hrun
  obtain ⟨rfl, rfl⟩ : m = s.toMem ∧ s₀ = s := by
    cases hm
    exact ⟨rfl, rfl⟩
  obtain ⟨u, s₁, hf, hrun⟩ := ok_bind hrun
  obtain ⟨-, rfl⟩ := ok_failIf hf
  obtain ⟨⟨rec', attrs'⟩, s₂, hread, hrun⟩ := ok_bind hrun
  have hread := ok_orThrow hread
  obtain ⟨hvol, hr'⟩ := recordAt_of_read hread
  obtain ⟨rfl, rfl⟩ := hr.unique hr'
  obtain ⟨full, s₃, hfull, hrun⟩ := ok_bind hrun
  obtain ⟨v', s₄, hf', -⟩ := ok_bind hrun
  obtain ⟨hfalse, -⟩ := ok_failIf hf'
  have hfalse : full = false := by simpa using hfalse
  rw [if_pos hdir] at hfull
  unfold dirHasEntries at hfull
  rw [hroot] at hfull
  have hs₂ : (recordRead recordId s₁).2 = s₂ := by rw [hread]
  rcases hnode : btreeNodeRead root.asU64 (64 * btreeEntrySize) s₂ with ⟨e | node, s₅⟩
  · constructor
    · intro hno
      refine ⟨fun _ _ => hno, fun node hload hleaf hnil hfrom => ?_⟩
      exact hno ((hasEntries_iff hload hnil).2 ⟨hleaf, hfrom⟩)
    · intro h
      exact h.checked e (by rw [hs₂, hnode])
  · have hload : loadNode s₁.vol root.asU64 = some node := by
      rw [← hvol]
      exact loadNode_of_read hnode
    have hnil : node.entries = [] := by
      unfold Prog.elseDo at hfull
      dsimp only at hfull
      rw [hnode] at hfull
      have hdec : decide (0 < node.entries.length) = full := Except.ok.inj (Prod.mk.inj hfull).1
      rw [hfalse] at hdec
      exact List.length_eq_zero_iff.1 (Nat.eq_zero_of_not_pos (of_decide_eq_false hdec))
    rw [hasEntries_iff hload hnil]
    constructor
    · intro hno
      refine ⟨fun e he => ?_, fun node' hload' hleaf _ hfrom => ?_⟩
      · rw [hs₂, hnode] at he
        cases he
      · obtain rfl := Option.some.inj (hload.symm.trans hload')
        exact hno ⟨hleaf, hfrom⟩
    · rintro h ⟨hleaf, hfrom⟩
      exact h.siblings node hload hleaf hnil hfrom

end

/-! ## A volume with a directory -/

def nameD : CStr := ⟨[100], by simp⟩
def nameF : CStr := ⟨[102], by simp⟩

/-- A formatted volume of 512 blocks, mounted, after `mkdir` of `d`, record 2. -/
def oneDir : Mount := (smkfsCreateRecord 1 .dir 1 nameD (smkfsMount (smkfsMkfs 512 512 (blankMount zeroMem.sb)).2).2).2

/-- The same with a file `f`, record 3, in the directory. -/
def dirWithFile : Mount := (smkfsCreateRecord 1 .file 2 nameF oneDir).2

theorem oneDir_facts : oneDir.vol.sb.sectorSize = 512 ∧ 2 < oneDir.vol.sb.mrtCapacity ∧
    oneDir.vol.mrtEntry 2 = ⟨22, mrtfAllocated, 1⟩ ∧
    oneDir.vol.readAt 2 = some (⟨2, .dir, 2, 1, 1, false⟩, [⟨.parent, 0, .u64 1⟩, ⟨.data, 0, .u64 23⟩]) ∧
    (smkfsDeleteRecord 1 1 nameD 2 oneDir).1 = .ok () := by
  decide +kernel

theorem oneDir_sectorOk : oneDir.vol.sectorOk := by
  unfold Mem.sectorOk
  rw [oneDir_facts.1]
  decide

theorem oneDir_record : oneDir.vol.RecordAt 2 ⟨2, .dir, 2, 1, 1, false⟩ [⟨.parent, 0, .u64 1⟩, ⟨.data, 0, .u64 23⟩] := by
  obtain ⟨-, hcap, hentry, hread, -⟩ := oneDir_facts
  refine ⟨?_, view_of_readAt hread, by rw [hentry]⟩
  unfold Volume.Bound
  rw [hentry]
  exact ⟨hcap, by decide⟩

/-- The empty directory is removed. -/
theorem removed_empty_dir : VisitsNone oneDir 23 ↔ SeesEmpty oneDir 2 23 :=
  removed_empty_iff oneDir 1 1 nameD 2 _ _ (.u64 23) oneDir_sectorOk oneDir_facts.2.2.2.2 oneDir_record rfl rfl

/-- Where `malloc` fails in `btree_node_read`, the directory is removed with its file in it. -/
theorem not_removed_empty : ∃ s : Mount, s.vol = dirWithFile.vol ∧ (smkfsDeleteRecord 1 1 nameD 2 s).1 = .ok () ∧
    ¬VisitsNone s 23 := by
  refine ⟨{ dirWithFile with heap := [true, false] }, rfl, by decide +kernel, fun h => ?_⟩
  exact h 1 (by decide +kernel)

end SmkFs
end AmitX
