import AmitX.SmkFs.TxnKeep
import AmitX.SmkFs.BtreeFull
import AmitX.SmkFs.Rebuild
/-!
# DirFrame — what taking a name out of a directory leaves alone (`dir.c`)

A delete in a tree whose leaves all lie at one depth stores and frees blocks of the tree only: an entry that moves to a
sibling leads to a block of the tree before and after.  So `dirRemove` changes the tree and the block of the directory's
record, and the bits of the tree's blocks.
-/
namespace AmitX
namespace SmkFs

open Prog Volume Pages

/-! ## Changes in a set of blocks -/

/-- Of the table and the data area only the blocks in `C` have changed, and of the bits only those of the blocks in
`B`. -/
structure Beside (C B : Nat → Prop) (v w : Volume) : Prop where
  layout : w.sb.toLayout = v.sb.toLayout
  ring : w.RingOk
  mounted : w.mounted = v.mounted
  view : ∀ b, v.sb.mrtStart ≤ b → ¬C b → w.view b = v.view b
  used : ∀ j < v.sb.dataBlocks, ¬B (v.sb.dataStart + j) → w.used j = v.used j

section

variable {C C' B B' : Nat → Prop} {v w w' : Volume} {b s n : Nat} {x : BlockData}

theorem Beside.refl (C B : Nat → Prop) (h : v.RingOk) : Beside C B v v :=
  ⟨rfl, h, rfl, fun _ _ _ => rfl, fun _ _ _ => rfl⟩

theorem Beside.mono (h : Beside C B v w) (hC : ∀ b, C b → C' b) (hB : ∀ b, B b → B' b) : Beside C' B' v w :=
  ⟨h.layout, h.ring, h.mounted, fun b hb hno => h.view b hb (fun hc => hno (hC b hc)),
    fun j hj hno => h.used j hj (fun hb => hno (hB _ hb))⟩

theorem Beside.trans (h : Beside C B v w) (h' : Beside C B w w') : Beside C B v w' := by
  refine ⟨h'.layout.trans h.layout, h'.ring, h'.mounted.trans h.mounted, fun b hb hno => ?_, fun j hj hno => ?_⟩
  · rw [h'.view b (by rw [h.layout]; exact hb) hno, h.view b hb hno]
  · rw [h'.used j (by rw [h.layout]; exact hj) (by rw [h.layout]; exact hno), h.used j hj hno]

theorem Beside.wf (h : Beside C B v w) (hl : v.sb.toLayout.WF) : w.sb.toLayout.WF := by
  rw [h.layout]
  exact hl

theorem Beside.leaves (h : Beside C B v w) (hl : v.sb.toLayout.WF) (hlv : LeavesFiles w w')
    (hused : ∀ j < w.sb.dataBlocks, ¬B (w.sb.dataStart + j) → w'.used j = w.used j) : Beside C B v w' := by
  refine h.trans ⟨hlv.layout, hlv.ring h.ring, hlv.mounted, fun b hb _ => ?_, hused⟩
  exact hlv.view_of_mrt (h.wf hl) hb

theorem Beside.journal (h : Beside C B v w) (hl : v.sb.toLayout.WF) (hsteps : JournalSteps w w') : Beside C B v w' := by
  have hlv := hsteps.leavesFiles h.ring
  exact h.leaves hl hlv (fun j hj _ => sameUsed_of_view (h.wf hl) hlv.layout (hsteps h.ring).view j hj)

theorem Beside.write (h : Beside C B v w) (hl : v.sb.toLayout.WF) (hb : v.sb.dataStart ≤ b) (hC : C b) :
    Beside C B v (w.write b x) := by
  refine h.trans ⟨rfl, h.ring, rfl, fun c _ hno => ?_, fun j hj _ => ?_⟩
  · have hne : c ≠ b := fun heq => hno (heq ▸ hC)
    exact Function.update_of_ne hne _ _
  · exact used_writeData (h.wf hl) (by rw [h.layout]; exact hb) hj

theorem Beside.free (h : Beside C B v w) (hl : v.sb.toLayout.WF) (hB : ∀ j, s ≤ j ∧ j < s + n → B (v.sb.dataStart + j))
    (hf : FreeFrame w s n w') : Beside C B v w' := by
  refine h.leaves hl hf.leaves (fun j hj hno => hf.used j hj (fun hin => hno ?_))
  rw [h.layout]
  exact hB j hin

theorem Beside.mrtEntry (h : Beside C B v w) (hC : ∀ b, C b → v.sb.dataStart ≤ b) (hl : v.sb.toLayout.WF) {id : Nat}
    (hid : id < v.sb.mrtCapacity) : w.mrtEntry id = v.mrtEntry id := by
  have hin := hl.inMrt hid
  have hblock : w.mrtBlock id = v.mrtBlock id := by
    unfold Volume.mrtBlock
    rw [h.layout]
  have hout : ¬C (v.mrtBlock id) := fun hc => by
    have h1 := hC _ hc
    have h2 := hin.2
    have h3 := hl.mrt
    omega
  rw [Volume.mrtEntry, Volume.mrtEntry, hblock, h.view _ hin.1 hout]

end

/-! ## The tree of a directory -/

def Volume.DirRoot (v : Volume) (dir root : Nat) : Prop :=
  ∃ rec attrs data, v.RecordAt dir rec attrs ∧ recordFindAttr .data attrs = some data ∧ data.asU64 = root

def Volume.DirBlock (v : Volume) (dir b : Nat) : Prop := ∃ root, v.DirRoot dir root ∧ Under v.pages root b

/-- The blocks that taking a name out of a directory may write: those of its tree, and that of its record. -/
def Volume.DirWritten (v : Volume) (dir b : Nat) : Prop :=
  v.DirBlock dir b ∨ v.Bound dir ∧ b = (v.mrtEntry dir).physicalBlock

/-- The nodes of a tree: the leaves are at level 0 and have entries of the kind `K`; the children of an index node lie
one level below it. -/
def treeRule (T : Nat → Prop) (level : Nat → Nat) (K : BtreeEntry → Prop) : NodeRule where
  kind b leaf := leaf = true ↔ level b = 0
  entry b e := if level b = 0 then K e else T e.value ∧ level b = level e.value + 1

/-- The blocks `T` hold nodes of a tree. -/
def Volume.TreeOn (T : Nat → Prop) (level : Nat → Nat) (K : BtreeEntry → Prop) (v : Volume) : Prop :=
  ∀ b node, T b → loadNode v b = some node → (treeRule T level K).Node b node

/-- **The tree of a directory**: its blocks and that of the record lie in the data area, and its leaves at one depth. -/
structure Volume.DirOk (v : Volume) (dir : Nat) : Prop where
  slot : v.Bound dir → v.sb.dataStart ≤ (v.mrtEntry dir).physicalBlock
  low : ∀ b, v.DirBlock dir b → v.sb.dataStart ≤ b
  high : ∀ b, v.DirBlock dir b → b < v.sb.totalBlocks
  even : ∃ level : Nat → Nat, ∀ b node, v.DirBlock dir b → loadNode v b = some node →
    (node.leaf = true ↔ level b = 0) ∧ (node.leaf = false → ∀ e ∈ node.entries, level b = level e.value + 1)

section

variable {T : Nat → Prop} {level : Nat → Nat} {K : BtreeEntry → Prop} {v w : Volume} {dir b root : Nat}
  {node : BtreeNode}

theorem Volume.DirBlock.child (h : v.DirBlock dir b) (hload : loadNode v b = some node) (hleaf : node.leaf = false)
    {e : BtreeEntry} (he : e ∈ node.entries) : v.DirBlock dir e.value := by
  obtain ⟨root, hroot, hunder⟩ := h
  refine ⟨root, hroot, hunder.trans (under_child (pages_of_load hload) ?_)⟩
  rw [pageOf_index (by simp [hleaf])]
  exact List.mem_map_of_mem he

theorem Volume.DirOk.treeOn (h : v.DirOk dir) : ∃ level, v.TreeOn (v.DirBlock dir) level (fun _ => True) := by
  obtain ⟨level, heven⟩ := h.even
  refine ⟨level, fun b node hb hload => ?_⟩
  obtain ⟨hkind, hchild⟩ := heven b node hb hload
  refine ⟨hkind, fun e he => ?_⟩
  show if level b = 0 then True else _
  split
  · trivial
  · rename_i hne
    have hleaf : node.leaf = false := by
      rw [← Bool.not_eq_true, hkind]
      exact hne
    exact ⟨hb.child hload hleaf he, hchild hleaf e he⟩

theorem loadNode_congr (h : w.view b = v.view b) : loadNode w b = loadNode v b := by
  unfold loadNode
  rw [h]

theorem loadNode_here {node' : BtreeNode} (h : loadNode (w.write b (.node node)) b = some node') : node' = node := by
  have hview := view_of_loadNode h
  rw [Volume.write_view, Function.update_self] at hview
  exact (BlockData.node.inj hview).symm

theorem Volume.TreeOn.write (h : w.TreeOn T level K) (hnode : (treeRule T level K).Node b node) :
    (w.write b (.node node)).TreeOn T level K := by
  intro c node' hc hload
  by_cases hcb : c = b
  · subst hcb
    rw [loadNode_here hload]
    exact hnode
  · rw [loadNode_congr (show (w.write b (.node node)).view c = w.view c from Function.update_of_ne hcb _ _)] at hload
    exact h c node' hc hload

theorem vwp_btreeStore_steps (D H : Prop) (w : Volume) (b : Nat) (node : BtreeNode) : fwp D H (btreeStore b node)
    (fun _ w' => ∃ u, JournalSteps w u ∧ w' = u.write b (.node node)) (fun _ w' => JournalSteps w w') w := by
  have hlog : fwp D H (do
      journalLogWrite b (.node node) (btreeNodeLength node)
      (writeBlock b (.node node)).orThrow .io)
      (fun _ w' => ∃ u, JournalSteps w u ∧ w' = u.write b (.node node)) (fun _ w' => JournalSteps w w') w := by
    refine wpAbs_seq (journalWriteEntry_steps .write _ _ 0 (.node node) w) (fun _ u hu => ?_) (fun _ _ hu => hu)
    exact wpAbs_orThrow (vwp_writeBlock ⟨u, hu, rfl⟩ (fun _ => hu))
  unfold btreeStore
  refine wpAbs_bind (wpAbs_failIf (fun _ => .refl w) (fun _ => fwp_malloc_bind (fun oldRaw => ?_)))
  refine wpAbs_bind (wpAbs_failIf (fun _ => .refl w) (fun _ => ?_))
  exact wpAbs_bind (wpAbs_ignore (vwp_readBlock hlog (fun _ => hlog)))

/-- The volume differs from `v` in the tree only, and it is still a tree. -/
def InTree (v : Volume) (T : Nat → Prop) (level : Nat → Nat) (K : BtreeEntry → Prop) (w : Volume) : Prop :=
  Beside T T v w ∧ w.TreeOn T level K

theorem InTree.journal (h : InTree v T level K w) (hl : v.sb.toLayout.WF) (hlow : ∀ b, T b → v.sb.dataStart ≤ b)
    {w' : Volume} (hsteps : JournalSteps w w') : InTree v T level K w' := by
  refine ⟨h.1.journal hl hsteps, fun b node hb hload => h.2 b node hb ?_⟩
  have hdata : w.sb.dataStart ≤ b := by
    rw [h.1.layout]
    exact hlow b hb
  rw [← hload]
  exact (loadNode_congr ((hsteps.leavesFiles h.1.ring).view_of_data (h.1.wf hl) hdata)).symm

theorem treeInv_inTree (F : Prop) (hl : v.sb.toLayout.WF) (hlow : ∀ b, T b → v.sb.dataStart ≤ b)
    (hhigh : ∀ b, T b → b < v.sb.totalBlocks) : TreeInv F (InTree v T level K) T (treeRule T level K) where
  malloc := fun _ hw => vwp_malloc ⟨trivial, hw⟩ (fun _ => ⟨trivial, hw⟩)
  load b hb := fun w hw => fwp_btreeLoad (fun node hload => ⟨hw.2 b node hb hload, hw⟩) (fun _ _ _ => hw)
    (fun _ _ _ => hw)
  store b node hb hnode := fun w hw => by
    refine wpAbs_mono (vwp_btreeStore_steps F F w b node) (fun _ w' h => ?_) (fun _ w' h => hw.journal hl hlow h)
    obtain ⟨u, hu, rfl⟩ := h
    have hu := hw.journal hl hlow hu
    exact ⟨trivial, hu.1.write hl (hlow b hb) hb, hu.2.write hnode⟩
  free b hb := fun w hw => by
    have hdata := hl.dataBlocks_eq
    have h1 := hlow b hb
    have h2 := hhigh b hb
    have hlay := hw.1.layout
    have hstart : w.sb.dataStart = v.sb.dataStart := congrArg Layout.dataStart hlay
    have hblocks : w.sb.dataBlocks = v.sb.dataBlocks := congrArg Layout.dataBlocks hlay
    have hspec := vwp_bitmapFreeRange_frame F (s := b - w.sb.dataStart) (n := 1) (hw.1.wf hl) hw.1.ring (by
      rw [hstart, hblocks]
      omega)
    rw [show w.sb.dataStart + (b - w.sb.dataStart) = b by omega] at hspec
    have hkeeps : ∀ w', FreeFrame w (b - w.sb.dataStart) 1 w' → InTree v T level K w' := fun w' hf => by
      refine ⟨hw.1.free hl (fun j hj => ?_) hf, fun c node hc hload => hw.2 c node hc ?_⟩
      · rw [show v.sb.dataStart + j = b by omega]
        exact hb
      · rw [← hload]
        exact (loadNode_congr (hf.leaves.view_of_data (hw.1.wf hl) (by rw [hstart]; exact hlow c hc))).symm
    exact wpAbs_mono hspec (fun _ w' h => ⟨trivial, hkeeps w' h⟩) (fun _ w' h => hkeeps w' h)
  child b e _ hkind he := by
    have hne : ¬level b = 0 := fun h0 => absurd (hkind.2 h0) (by simp)
    have he : if level b = 0 then K e else T e.value ∧ level b = level e.value + 1 := he
    rw [if_neg hne] at he
    exact he.1
  fence b e key hkind he := by
    have hne : ¬level b = 0 := fun h0 => absurd (hkind.2 h0) (by simp)
    show if level b = 0 then _ else _
    have he : if level b = 0 then K e else T e.value ∧ level b = level e.value + 1 := he
    rw [if_neg hne] at he ⊢
    exact he
  sibling b e e' hkind he he' x hx := by
    have hne : ¬level b = 0 := fun h0 => absurd (hkind.2 h0) (by simp)
    have he : if level b = 0 then K e else T e.value ∧ level b = level e.value + 1 := he
    have he' : if level b = 0 then K e' else T e'.value ∧ level b = level e'.value + 1 := he'
    rw [if_neg hne] at he he'
    have hsame : level e.value = level e'.value := by omega
    show if level e'.value = 0 then _ else _
    rw [← hsame]
    exact hx

/-! ## Taking a name out -/

theorem vwp_dirRemove (F : Prop) (hl : v.sb.toLayout.WF) (hring : v.RingOk) (hdir : v.DirOk dir) (hsteps : JournalSteps v w)
    (n : Nat) (name : CStr) : vwp F (dirRemove n dir name)
      (fun _ u => Beside (v.DirWritten dir) (v.DirBlock dir) v u)
      (fun _ u => Beside (v.DirWritten dir) (v.DirBlock dir) v u) w := by
  obtain ⟨level, htree⟩ := hdir.treeOn
  have hstart : InTree v (v.DirBlock dir) level (fun _ => True) w :=
    InTree.journal ⟨.refl _ _ hring, htree⟩ hl hdir.low hsteps
  have hup : ∀ {u}, InTree v (v.DirBlock dir) level (fun _ => True) u → Beside (v.DirWritten dir) (v.DirBlock dir) v u :=
    fun h => h.1.mono (fun _ hb => Or.inl hb) (fun _ hb => hb)
  refine wpAbs_seq (wpAbs_orThrow (wpAbs_mono (fwp_recordRead_at F F w dir) (fun _ _ h => h)
    (fun _ u h => (show u = w from h.1) ▸ hup hstart))) (fun x u h => ?_) (fun _ _ h => h)
  obtain ⟨rfl, hr⟩ := h
  obtain ⟨rec, attrs⟩ := x
  have hr := ((hsteps.leavesFiles hring).recordAt hl hdir.slot).1 hr
  dsimp only at hr ⊢
  cases hfind : recordFindAttr .data attrs with
  | none => exact wpAbs_throw (hup hstart)
  | some data =>
    have hroot : v.DirBlock dir data.asU64 := ⟨_, ⟨rec, attrs, data, hr, hfind, rfl⟩, .refl _⟩
    have hkeep := (treeInv_inTree F hl hdir.low hdir.high).delete hroot n name u hstart
    refine wpAbs_seq hkeep (fun newRoot w' h => ?_) (fun _ w' h => hup h)
    refine wpAbs_seq (R := fun _ u => u = w') (G := fun _ u => u = w') (wpAbs_orThrow ?_) (fun attrs' u hu => ?_)
      (fun _ u hu => hu ▸ hup h.2)
    · unfold onAttrs
      split
      · exact wpAbs_pure rfl
      · exact wpAbs_throw rfl
    · subst hu
      refine wpAbs_orThrow (wpAbs_mono (fwp_recordWrite F F u dir rec attrs') (fun _ u' hw => ?_)
        (fun _ u' hw => (hup h.2).journal hl hw))
      obtain ⟨-, x, hx, rfl⟩ := hw
      rw [h.2.1.mrtEntry hdir.low hl hr.bound.1]
      exact ((hup h.2).journal hl hx).write hl (hdir.slot hr.bound) (Or.inr ⟨hr.bound, rfl⟩)

end

end SmkFs
end AmitX
