import AmitX.SmkFs.BtreeFull
/-!
# BtreeLost — the keys that a failed insert loses (`btree.c`)

Where a block is missing above a node that was split, the tree keeps the left half of the node and nothing that went to
the right of it.  The proof follows the insertion upwards: a split changes only blocks below its node and blocks that
were free, and loses a key; an ancestor that is split in turn loses the keys below a child that goes to its right; an
ancestor that finds no block is unchanged, and what is lost below it is lost from it.
-/
namespace AmitX
namespace SmkFs

open Prog Volume Pages

/-! ## What the steps of an insertion change -/

/-- The nodes of the data area are the same but for the blocks in `C`, and the blocks in use stay so. -/
structure NodeFrame (C : Nat → Prop) (v v' : Volume) : Prop where
  layout : v'.sb.toLayout = v.sb.toLayout
  ring : v.RingOk → v'.RingOk
  used : ∀ i < v.sb.dataBlocks, v.used i = true → v'.used i = true
  pages : ∀ q, v.sb.dataStart ≤ q → ¬C q → v'.pages q = v.pages q

section

variable {v v' v'' : Volume} {C C' : Nat → Prop} {b q : Nat} {node : BtreeNode}

theorem NodeFrame.trans (h : NodeFrame C v v') (h' : NodeFrame C v' v'') : NodeFrame C v v'' where
  layout := h'.layout.trans h.layout
  ring hr := h'.ring (h.ring hr)
  used i hi hu := h'.used i (by rw [h.layout]; exact hi) (h.used i hi hu)
  pages q hq hC := (h'.pages q (by rw [h.layout]; exact hq) hC).trans (h.pages q hq hC)

theorem NodeFrame.mono (h : NodeFrame C v v') (hC : ∀ q, C q → C' q) : NodeFrame C' v v' :=
  ⟨h.layout, h.ring, h.used, fun q hq hnot => h.pages q hq (fun hc => hnot (hC q hc))⟩

theorem NodeFrame.inUse (h : NodeFrame C v v') (hq : v.InUse q) : v'.InUse q := by
  refine ⟨?_, ?_, ?_⟩
  · rw [h.layout]
    exact hq.low
  · rw [h.layout]
    exact hq.high
  · rw [h.layout]
    exact h.used _ hq.high hq.used

theorem pages_of_view (h : v'.view q = v.view q) : v'.pages q = v.pages q := by
  unfold Volume.pages loadNode
  rw [h]

theorem not_inJournal_of_data (hl : v.sb.toLayout.WF) (hq : v.sb.dataStart ≤ q) :
    ¬v.sb.InJournal q ∧ ¬v.sb.InBitmap q := by
  have := hl.journalStart
  have := hl.journal
  have := hl.bitmap
  have := hl.mrt
  refine ⟨?_, fun h => ?_⟩
  · rintro (h | h) <;> omega
  · have := h.2
    omega

theorem AllocFrame.nodeFrame (hl : v.sb.toLayout.WF) (h : AllocFrame v v')
    (hkeeps : ∀ i < v.sb.dataBlocks, v.used i = true → v'.used i = true) : NodeFrame (fun _ => False) v v' := by
  refine ⟨h.layout, h.ring, hkeeps, fun q hq _ => pages_of_view ?_⟩
  obtain ⟨hj, hb⟩ := not_inJournal_of_data hl hq
  exact h.view q hj hb

structure NewBlock (v v' : Volume) (b : Nat) : Prop where
  inUse : v'.InUse b
  free : ¬v.InUse b

theorem fwp_bitmapAlloc_nodes (hl : v.sb.toLayout.WF) (hring : v.RingOk) : fwp False False bitmapAlloc
    (fun b v' => NodeFrame (fun _ => False) v v' ∧ (b ≠ 0 → NewBlock v v' b) ∧ (b = 0 → NoRun v' 1 → NoRun v 1))
    (fun _ _ => False) v := by
  refine wpAbs_mono (vwp_bitmapAlloc False hl hring) (fun b v' h => ?_) (fun _ _ h => h)
  have hlay := h.frame.layout
  refine ⟨h.frame.nodeFrame hl h.keeps, fun hb => ?_, fun hb hno => ?_⟩
  · rcases h.result with ⟨-, s, rfl, hs, hclear, hmark, -⟩ | ⟨h0, -⟩
    · refine ⟨⟨?_, ?_, ?_⟩, fun hin => ?_⟩
      · rw [hlay]
        omega
      · rw [hlay]
        omega
      · rw [hlay, Nat.add_sub_cancel_left]
        exact hmark s (Nat.le_refl s) (by omega)
      · have hused := hin.used
        rw [Nat.add_sub_cancel_left, hclear s (Nat.le_refl s) (by omega)] at hused
        cases hused
    · exact absurd h0 hb
  · rcases h.result with ⟨hne, -⟩ | ⟨-, hF | ⟨hsame, -⟩⟩
    · exact absurd hb hne
    · exact hF.elim
    · intro s hs hclear
      refine hno s (by rw [hlay]; exact hs) (fun i hi hi' => ?_)
      rw [hsame i (by omega)]
      exact hclear i hi hi'

theorem view_putNode (hring : v.RingOk) (hq : ¬v.sb.InJournal q) (hqb : q ≠ b) :
    (v.putNode b node).view q = v.view q := by
  rw [Volume.putNode, write_view, Function.update_of_ne hqb]
  exact (journalSteps_logEntry v .write b (btreeNodeLength node) 0 (.node node) hring).view q hq

theorem pages_putNode (h0 : b ≠ 0) (hlen : node.entries.length ≤ btreeMax) :
    (v.putNode b node).pages b = some (pageOf node) := by
  refine pages_of_load ?_
  simp only [loadNode, Volume.putNode, write_view, Function.update_self]
  rw [if_neg (by omega)]

theorem nodeFrame_putNode (hl : v.sb.toLayout.WF) (hring : v.RingOk) (hb : v.sb.dataStart ≤ b) :
    NodeFrame (fun q => q = b) v (v.putNode b node) := by
  refine ⟨rfl, fun _ => (journalSteps_logEntry v .write b (btreeNodeLength node) 0 (.node node) hring).head,
    fun i hi hu => ?_, fun q hq hqb => pages_of_view ?_⟩
  · have hin := hl.inBitmap hi
    have hne : v.sb.bitmapBlock i ≠ b := fun h => (not_inJournal_of_data hl (h ▸ hb)).2 hin
    rw [← hu, Volume.used, Volume.used]
    rw [show (v.putNode b node).sb.bitmapBlock i = v.sb.bitmapBlock i from rfl,
      view_putNode hring (hl.not_inJournal hin) hne]
  · exact view_putNode hring (not_inJournal_of_data hl hq).1 hqb

theorem fwp_btreeStore_nodes (hl : v.sb.toLayout.WF) (hring : v.RingOk) (hb : v.InUse b)
    (hlen : node.entries.length ≤ btreeMax) : fwp False False (btreeStore b node)
      (fun _ v' => NodeFrame (fun q => q = b) v v' ∧ v'.pages b = some (pageOf node)) (fun _ _ => True) v := by
  refine wpAbs_mono (fwp_btreeStore False False b node) (fun _ v' h => ?_) (fun _ _ _ => trivial)
  have hpos : b ≠ 0 := by
    rintro rfl
    exact (not_inJournal_of_data hl hb.low).1 (.inl rfl)
  rw [h]
  exact ⟨nodeFrame_putNode hl hring hb.low, pages_putNode hpos hlen⟩

theorem length_of_load (h : loadNode v b = some node) : node.entries.length ≤ btreeMax := by
  unfold loadNode at h
  split at h
  · split at h
    · cases h
    · rename_i hno
      rw [← Option.some.inj h]
      omega
  · cases h

theorem fwp_btreeSetParent_nodes (hl : v.sb.toLayout.WF) (hring : v.RingOk) (hb : v.InUse b) (parent : Nat) :
    fwp False False (btreeSetParent b parent) (fun _ v' => NodeFrame (fun _ => False) v v') (fun _ _ => True) v := by
  unfold btreeSetParent
  refine fwp_malloc_bind (fun raw => wpAbs_bind (wpAbs_failIf (fun _ => trivial) (fun _ => ?_)))
  refine wpAbs_bind (fwp_btreeLoad (fun node hnode => ?_) (fun _ _ _ => trivial) (fun _ _ _ => trivial))
  have hlen := length_of_load hnode
  refine wpAbs_mono (fwp_btreeStore_nodes hl hring hb ?_) (fun _ v' h => ?_) (fun _ _ _ => trivial)
  · exact hlen
  obtain ⟨hframe, hpage⟩ := h
  refine ⟨hframe.layout, hframe.ring, hframe.used, fun q hq _ => ?_⟩
  by_cases hqb : q = b
  · rw [hqb, hpage, pages_of_load hnode]
    rfl
  · exact hframe.pages q hq hqb

theorem NodeFrame.wf (h : NodeFrame C v v') (hl : v.sb.toLayout.WF) : v'.sb.toLayout.WF := by
  rw [h.layout]
  exact hl

theorem fwp_setParents_nodes {α : Type} {f : α → Nat} {parent : Nat} : ∀ {l : List α} {v : Volume},
    v.sb.toLayout.WF → v.RingOk → (∀ a ∈ l, v.InUse (f a)) →
    fwp False False (forEach (fun a => btreeSetParent (f a) parent) l) (fun _ v' => NodeFrame (fun _ => False) v v')
      (fun _ _ => True) v
  | [], v, _, _, _ => wpAbs_pure ⟨rfl, id, fun _ _ h => h, fun _ _ _ => rfl⟩
  | a :: l, v, hl, hring, huse => by
    rw [forEach]
    refine wpAbs_seq (fwp_btreeSetParent_nodes hl hring (huse a List.mem_cons_self) parent) (fun _ v1 h1 => ?_)
      (fun _ _ h => h)
    refine wpAbs_mono (fwp_setParents_nodes (h1.wf hl) (h1.ring hring) (fun c hc => h1.inUse (huse c ?_)))
      (fun _ v' h' => h1.trans h') (fun _ _ h => h)
    exact List.mem_cons_of_mem a hc

end

/-! ## Halves of a list -/

theorem mem_take_insertIdx {α : Type} {l : List α} {pos k : Nat} {x d : α} (h : d ∈ (l.insertIdx pos x).take k) :
    d = x ∨ ∃ m < k, l[m]? = some d := by
  obtain ⟨m, hm⟩ := List.mem_iff_getElem?.1 h
  rw [List.getElem?_take] at hm
  split at hm
  · rename_i hmk
    rw [List.getElem?_insertIdx] at hm
    split at hm
    · exact .inr ⟨m, hmk, hm⟩
    · split at hm
      · split at hm
        · exact .inl (Option.some.inj hm).symm
        · cases hm
      · exact .inr ⟨m - 1, by omega, hm⟩
  · cases hm

theorem mem_drop_insertIdx {α : Type} {l : List α} {pos k : Nat} {x d : α} (h : d ∈ (l.insertIdx pos x).drop k) :
    d = x ∨ d ∈ l := List.eq_or_mem_of_mem_insertIdx (List.mem_of_mem_drop h)

theorem btreeMax_eq : btreeMax = 15 := by decide

theorem exists_right {α : Type} {l : List α} (hlen : l.length = btreeMax) (i : Nat) :
    ∃ j c, j ≠ i ∧ (l.length + 1) / 2 ≤ j ∧ l[j]? = some c := by
  rw [btreeMax_eq] at hlen
  by_cases hi : i = 14
  · exact ⟨13, l[13], by omega, by omega, List.getElem?_eq_getElem (by omega)⟩
  · exact ⟨14, l[14], by omega, by omega, List.getElem?_eq_getElem (by omega)⟩

/-! ## A split loses keys -/

/-- The nodes below `root` are a search tree in blocks that are in use. -/
structure TreeOk (v : Volume) (root : Nat) : Prop where
  tree : IsTree v.pages root
  inUse : ∀ q, Under v.pages root q → v.InUse q

/-- A block below `b`, or one that was free. -/
def Touchable (v : Volume) (b q : Nat) : Prop := Under v.pages b q ∨ ¬v.InUse q

/-- Block `b` was split, and block `right` has its right half. -/
structure SplitPost (v : Volume) (key : CStr) (b right : Nat) (v' : Volume) : Prop where
  frame : NodeFrame (Touchable v b) v v'
  grown : Grown v.pages v'.pages key b right
  inside : ∀ q, Under v'.pages b q ∨ Under v'.pages right q → v'.InUse q ∧ Touchable v b q

/-- What an insertion below `b` has done.  Where it found no block there was none to begin with, or a key is lost. -/
def InsertPost (v : Volume) (key : CStr) (b : Nat) : InsertEnd → Volume → Prop
  | .noBlock, v' => NodeFrame (Touchable v b) v v' ∧ ((NoRun v' 1 → NoRun v 1) ∨ Lost v.pages v'.pages b)
  | .done, _ => True
  | .split right _, v' => SplitPost v key b right v'

section

variable {v v' : Volume} {key : CStr} {b : Nat} {node : BtreeNode}

theorem TreeOk.child (h : TreeOk v b) {page : Page Nat CStr Nat} {c : Nat} (hpage : v.pages b = some page)
    (hc : c ∈ page.children) : TreeOk v c :=
  ⟨h.tree.child hpage hc, fun q hq => h.inUse q ((under_child hpage hc).trans hq)⟩

theorem TreeOk.top (h : TreeOk v b) : v.InUse b := h.inUse b (.refl b)

theorem btreeKeyCopy_of_le (h : key.strlen ≤ btreeMaxKey) : btreeKeyCopy key = key := CStr.take_of_strlen_le h

theorem keys_insert (entries : List BtreeEntry) (pos : Nat) (e : BtreeEntry) :
    (entries.insertIdx pos e).map BtreeEntry.key = (entries.map BtreeEntry.key).insertIdx pos e.key :=
  List.map_insertIdx _ _ _ _

theorem values_insert (entries : List BtreeEntry) (pos : Nat) (e : BtreeEntry) :
    (entries.insertIdx pos e).map BtreeEntry.value = (entries.map BtreeEntry.value).insertIdx pos e.value :=
  List.map_insertIdx _ _ _ _

theorem grown_leaf (ht : TreeOk v b) {entries left right : List BtreeEntry} {r pos : Nat} {value : Nat}
    (hpage : v.pages b = some (leafPage entries)) (hfull : entries.length = btreeMax)
    (hnew : key ∉ entries.map BtreeEntry.key)
    (hleft : left = (entries.insertIdx pos ⟨key, value⟩).take ((entries.length + 1) / 2))
    (hright : right = (entries.insertIdx pos ⟨key, value⟩).drop ((entries.length + 1) / 2))
    (hb : v'.pages b = some (leafPage left)) (hr : v'.pages r = some (leafPage right)) :
    Grown v.pages v'.pages key b r := by
  have hold : ∀ {k}, k ∈ entries.map BtreeEntry.key → Holds v.pages k b := fun hk => .here hpage hk
  have hlk : ∀ {k}, Holds v'.pages k b →
      k = key ∨ ∃ m < (entries.length + 1) / 2, (entries.map BtreeEntry.key)[m]? = some k := by
    intro k hk
    have hmem : k ∈ left.map BtreeEntry.key := holds_here hb rfl hk
    rw [hleft, List.map_take, keys_insert] at hmem
    exact mem_take_insertIdx hmem
  refine ⟨fun k hk => ?_, fun k hk => ?_, ?_⟩
  · rcases hlk hk with h | ⟨m, -, hm⟩
    · exact .inr h
    · exact .inl (hold (List.mem_of_getElem? hm))
  · have hmem : k ∈ right.map BtreeEntry.key := holds_here hr rfl hk
    rw [hright, List.map_drop, keys_insert] at hmem
    exact (mem_drop_insertIdx hmem).symm.imp hold id
  · have hlen : (entries.map BtreeEntry.key).length = btreeMax := by rw [List.length_map, hfull]
    obtain ⟨j, k, -, hj, hk⟩ := exists_right hlen 0
    have hkmem := List.mem_of_getElem? hk
    refine lost_of_not_holds (hold hkmem) (fun hk' => ?_)
    rcases hlk hk' with rfl | ⟨m, hm, hmk⟩
    · exact hnew hkmem
    · have hnodup : (entries.map BtreeEntry.key).Nodup := ht.tree.distinct b _ (.refl b) hpage
      rw [List.length_map] at hj
      have heq : m = j := by
        refine (List.getElem?_inj ?_ hnodup).1 (hmk.trans hk.symm)
        exact (List.getElem?_eq_some_iff.1 hmk).1
      omega

theorem NewBlock.ne (h : NewBlock v v' b) {c : Nat} (hc : v.InUse c) : c ≠ b := fun heq => h.free (heq ▸ hc)

theorem halves_le {entries : List BtreeEntry} (hfull : entries.length = btreeMax) (pos : Nat) (e : BtreeEntry) :
    ((entries.insertIdx pos e).take ((entries.length + 1) / 2)).length ≤ btreeMax ∧
      ((entries.insertIdx pos e).drop ((entries.length + 1) / 2)).length ≤ btreeMax := by
  have hlen : (entries.insertIdx pos e).length ≤ entries.length + 1 := List.length_insertIdx_le_succ
  rw [List.length_take, List.length_drop]
  rw [btreeMax_eq] at hfull ⊢
  omega

theorem fwp_storeHalves (hl : v.sb.toLayout.WF) (hring : v.RingOk) {r : Nat} (hb : v.InUse b) (hr : v.InUse r)
    (hne : b ≠ r) {left right : BtreeNode} (hleft : left.entries.length ≤ btreeMax)
    (hright : right.entries.length ≤ btreeMax) (x : InsertEnd) : fwp False False (do
      btreeStore b left
      btreeStore r right
      pure x) (fun y v' => y = x ∧ NodeFrame (fun q => q = b ∨ q = r) v v' ∧ v'.pages b = some (pageOf left) ∧
        v'.pages r = some (pageOf right)) (fun _ _ => True) v := by
  refine wpAbs_seq (fwp_btreeStore_nodes hl hring hb hleft) (fun _ v1 h1 => ?_) (fun _ _ h => h)
  obtain ⟨h1, hpb⟩ := h1
  refine wpAbs_seq (fwp_btreeStore_nodes (h1.wf hl) (h1.ring hring) (h1.inUse hr) hright) (fun _ v2 h2 => ?_)
    (fun _ _ h => h)
  obtain ⟨h2, hpr⟩ := h2
  refine wpAbs_pure ⟨rfl, (h1.mono (fun _ => .inl)).trans (h2.mono (fun _ => .inr)), ?_, hpr⟩
  rw [h2.pages b (h1.inUse hb).low hne, hpb]

theorem fwp_btreeLeafSplitInsert_post (hl : v.sb.toLayout.WF) (hring : v.RingOk) (ht : TreeOk v b)
    (hload : loadNode v b = some node) (hleaf : node.leaf = true) (hkey : key.strlen ≤ btreeMaxKey)
    (hfull : node.entries.length = btreeMax) (hnew : key ∉ node.entries.map BtreeEntry.key) (pos value : Nat) :
    fwp False False (btreeLeafSplitInsert b node pos key value) (InsertPost v key b) (fun _ _ => True) v := by
  have hpage : v.pages b = some (leafPage node.entries) := by rw [pages_of_load hload, pageOf_leaf hleaf]
  unfold btreeLeafSplitInsert
  refine fwp_malloc_bind (fun tmp => fwp_malloc_bind (fun rightRaw => wpAbs_bind (wpAbs_failIf (fun _ => trivial)
    (fun _ => ?_))))
  refine wpAbs_seq (fwp_bitmapAlloc_nodes hl hring) (fun r v1 h => ?_) (fun _ _ _ => trivial)
  obtain ⟨h1, hblock, hnone⟩ := h
  refine wpAbs_ite (fun h0 => wpAbs_pure ⟨h1.mono (fun _ hf => hf.elim), .inl (hnone h0)⟩) (fun h0 => ?_)
  have hr := hblock h0
  rw [btreeKeyCopy_of_le hkey]
  obtain ⟨hll, hlr⟩ := halves_le hfull pos ⟨key, value⟩
  refine wpAbs_mono (fwp_storeHalves (h1.wf hl) (h1.ring hring) (h1.inUse ht.top) hr.inUse (hr.ne ht.top) hll hlr _)
    (fun y v2 h => ?_) (fun _ _ h => h)
  obtain ⟨rfl, h2, hpb, hpr⟩ := h
  simp only [pageOf, hleaf, if_true] at hpb hpr
  have hframe : NodeFrame (Touchable v b) v v2 := by
    refine (h1.mono (fun _ hf => hf.elim)).trans (h2.mono (fun q hq => ?_))
    rcases hq with rfl | rfl
    · exact .inl (.refl q)
    · exact .inr hr.free
  refine ⟨hframe, grown_leaf ht hpage hfull hnew rfl rfl hpb hpr, fun q hq => ?_⟩
  rcases hq with hq | hq
  · rw [under_here hpb rfl hq]
    exact ⟨h2.inUse (h1.inUse ht.top), .inl (.refl b)⟩
  · rw [under_here hpr rfl hq]
    exact ⟨h2.inUse hr.inUse, .inr hr.free⟩

theorem values_left {entries : List BtreeEntry} {pos k d : Nat} {e : BtreeEntry}
    (h : d ∈ ((entries.insertIdx pos e).take k).map BtreeEntry.value) :
    d = e.value ∨ ∃ m < k, (entries.map BtreeEntry.value)[m]? = some d := by
  rw [List.map_take, values_insert] at h
  exact mem_take_insertIdx h

theorem values_right {entries : List BtreeEntry} {pos k d : Nat} {e : BtreeEntry}
    (h : d ∈ ((entries.insertIdx pos e).drop k).map BtreeEntry.value) :
    d = e.value ∨ d ∈ entries.map BtreeEntry.value := by
  rw [List.map_drop, values_insert] at h
  exact mem_drop_insertIdx h

/-- Child `c` of the index node at `b` was split, and `r` is its right half. -/
structure ChildSplit (v : Volume) (key : CStr) (b : Nat) (node : BtreeNode) (i c r : Nat) (v1 : Volume) : Prop where
  load : loadNode v b = some node
  index : ¬node.leaf = true
  here : (node.entries.map BtreeEntry.value)[i]? = some c
  route : (indexPage node.entries).child key = some c
  post : SplitPost v key c r v1

section

variable {v1 v2 : Volume} {i c r : Nat}

theorem ChildSplit.page (h : ChildSplit v key b node i c r v1) : v.pages b = some (indexPage node.entries) := by
  rw [pages_of_load h.load, pageOf_index h.index]

theorem ChildSplit.mem (h : ChildSplit v key b node i c r v1) : c ∈ (indexPage node.entries).children :=
  List.mem_of_getElem? h.here

theorem ChildSplit.frame (h : ChildSplit v key b node i c r v1) : NodeFrame (Touchable v b) v v1 :=
  h.post.frame.mono (fun _ hq => hq.imp (fun hq => (under_child h.page h.mem).trans hq) id)

theorem ChildSplit.ne (h : ChildSplit v key b node i c r v1) (ht : TreeOk v b) {q : Nat} (hq : Touchable v c q) :
    q ≠ b := by
  rintro rfl
  rcases hq with hq | hq
  · exact ht.tree.acyclic q _ c (.refl q) h.page h.mem hq
  · exact hq ht.top

theorem ChildSplit.same (h : ChildSplit v key b node i c r v1) (ht : TreeOk v b) :
    v1.pages b = some (indexPage node.entries) := by
  rw [← h.page]
  exact h.post.frame.pages b ht.top.low (fun hq => h.ne ht hq rfl)

theorem ChildSplit.agree (h : ChildSplit v key b node i c r v1) (ht : TreeOk v b)
    (hagree : ∀ q, v1.InUse q → q ≠ b → v2.pages q = v1.pages q) {q : Nat}
    (hq : Under v1.pages c q ∨ Under v1.pages r q) : v2.pages q = v1.pages q :=
  hagree q (h.post.inside q hq).1 (h.ne ht (h.post.inside q hq).2)

theorem ChildSplit.grownChild (h : ChildSplit v key b node i c r v1) (ht : TreeOk v b)
    (hagree : ∀ q, v1.InUse q → q ≠ b → v2.pages q = v1.pages q) :
    GrownChild v.pages v2.pages key (indexPage node.entries) i c r := by
  refine ⟨h.post.grown.congr (fun q hq => h.agree ht hagree (.inl hq)) (fun q hq => h.agree ht hagree (.inr hq)),
    h.here, h.route, fun j d hji hd q hq => ?_⟩
  have hdmem := List.mem_of_getElem? hd
  have huse := ht.inUse q ((under_child h.page hdmem).trans hq)
  have hnot : ¬Touchable v c q := by
    rintro (hc | hfree)
    · exact (ht.tree.apart b _ (.refl b) h.page j i d c hji hd h.here).pages q hq hc
    · exact hfree huse
  have hqb : q ≠ b := by
    rintro rfl
    exact ht.tree.acyclic q _ d (.refl q) h.page hdmem hq
  rw [hagree q (h.post.frame.inUse huse) hqb, h.post.frame.pages q huse.low hnot]

theorem ChildSplit.split (h : ChildSplit v key b node i c r v1) (ht : TreeOk v b)
    (hfull : node.entries.length = btreeMax) {r' pos : Nat} {entries : List BtreeEntry} {e : BtreeEntry}
    (hframe : NodeFrame (fun q => q = b ∨ q = r') v1 v2) (huse : v2.InUse r') (hfree : ¬v1.InUse r')
    (hvalues : entries.map BtreeEntry.value = node.entries.map BtreeEntry.value) (he : e.value = r)
    (hb : v2.pages b = some (indexPage ((entries.insertIdx pos e).take ((entries.length + 1) / 2))))
    (hr : v2.pages r' = some (indexPage ((entries.insertIdx pos e).drop ((entries.length + 1) / 2)))) :
    SplitPost v key b r' v2 := by
  have hagree : ∀ q, v1.InUse q → q ≠ b → v2.pages q = v1.pages q := fun q hq hqb =>
    hframe.pages q hq.low (fun hor => hor.elim hqb (fun heq => hfree (heq ▸ hq)))
  have hg := h.grownChild ht hagree
  have hlen : entries.length = btreeMax := by
    have := congrArg List.length hvalues
    rwa [List.length_map, List.length_map, hfull] at this
  have hrs : ∀ d ∈ (indexPage ((entries.insertIdx pos e).drop ((entries.length + 1) / 2))).children,
      d = r ∨ d ∈ (indexPage node.entries).children := by
    intro d hd
    have := values_right hd
    rwa [he, hvalues] at this
  -- a child from the second half of the old entries, other than the one that was split
  obtain ⟨j, d, hji, hj, hd⟩ := exists_right (l := node.entries.map BtreeEntry.value)
    (by rw [List.length_map, hfull]) i
  have hls : ∀ d ∈ (indexPage ((entries.insertIdx pos e).take ((entries.length + 1) / 2))).children,
      d = r ∨ ∃ m, m ≠ j ∧ (indexPage node.entries).children[m]? = some d := by
    intro d hd
    rcases values_left hd with hd | ⟨m, hm, hd⟩
    · exact .inl (hd.trans he)
    · rw [hvalues] at hd
      rw [List.length_map, hfull] at hj
      rw [hlen] at hm
      exact .inr ⟨m, by omega, hd⟩
  have hls' : ∀ d ∈ (indexPage ((entries.insertIdx pos e).take ((entries.length + 1) / 2))).children,
      d = r ∨ d ∈ (indexPage node.entries).children := fun d hd =>
    (hls d hd).imp id (fun ⟨_, _, hm⟩ => List.mem_of_getElem? hm)
  have hfree' : ¬v.InUse r' := fun hin => hfree (h.post.frame.inUse hin)
  have hframe' : NodeFrame (Touchable v b) v v2 := by
    refine h.frame.trans (hframe.mono (fun q hq => ?_))
    rcases hq with rfl | rfl
    · exact .inl (.refl q)
    · exact .inr hfree'
  have hold : ∀ q, Under v.pages b q → v2.InUse q ∧ Touchable v b q := fun q hq =>
    ⟨hframe'.inUse (ht.inUse q hq), .inl hq⟩
  have hsub : ∀ q, Under v1.pages c q ∨ Under v1.pages r q → v2.InUse q ∧ Touchable v b q := fun q hq =>
    ⟨hframe.inUse (h.post.inside q hq).1,
      (h.post.inside q hq).2.imp (fun hq => (under_child h.page h.mem).trans hq) id⟩
  have hc : ∀ q, Under v2.pages c q → v2.InUse q ∧ Touchable v b q := fun q hq =>
    hsub q (.inl (hq.congr (fun p hp => h.agree ht hagree (.inl hp))))
  have hr1 : ∀ q, Under v2.pages r q → v2.InUse q ∧ Touchable v b q := fun q hq =>
    hsub q (.inr (hq.congr (fun p hp => h.agree ht hagree (.inr hp))))
  refine ⟨hframe', hg.split ht.tree h.page hb hr rfl rfl hd hji hls hrs, fun q hq => ?_⟩
  rcases hq with hq | hq
  · exact hg.under h.page hb hls' hold hc hr1 ⟨hframe'.inUse ht.top, .inl (.refl b)⟩ hq
  · exact hg.under h.page hr hrs hold hc hr1 ⟨huse, .inr hfree'⟩ hq

theorem fwp_btreeIndexSplitInsert_post (hl : v.sb.toLayout.WF) (hring : v.RingOk) (ht : TreeOk v b)
    (h : ChildSplit v key b node i c r v1) (hfull : node.entries.length = btreeMax) {node' : BtreeNode}
    (hleaf' : ¬node'.leaf = true) (hvalues : node'.entries.map BtreeEntry.value = node.entries.map BtreeEntry.value)
    (pos : Nat) (sep : CStr) :
    fwp False False (btreeIndexSplitInsert b node' pos sep r) (InsertPost v key b) (fun _ _ => True) v1 := by
  have hfull' : node'.entries.length = btreeMax := by
    have := congrArg List.length hvalues
    rwa [List.length_map, List.length_map, hfull] at this
  have hl1 := h.post.frame.wf hl
  have hb1 := h.post.frame.inUse ht.top
  unfold btreeIndexSplitInsert
  refine fwp_malloc_bind (fun tmp => fwp_malloc_bind (fun rightRaw => wpAbs_bind (wpAbs_failIf (fun _ => trivial)
    (fun _ => ?_))))
  refine wpAbs_seq (fwp_bitmapAlloc_nodes hl1 (h.frame.ring hring)) (fun r' v2 h2 => ?_) (fun _ _ _ => trivial)
  obtain ⟨h2, hblock, -⟩ := h2
  refine wpAbs_ite (fun _ => wpAbs_pure ⟨h.frame.trans (h2.mono (fun _ hf => hf.elim)), .inr ?_⟩) (fun h0 => ?_)
  · -- the node keeps its old entries, without the new block
    have hb2 : v2.pages b = some (indexPage node.entries) := by rw [h2.pages b hb1.low id, h.same ht]
    refine Lost.up ht.tree h.page hb2 h.mem (h.post.grown.lost.congr (fun q hq => ?_))
    exact h2.pages q (h.post.inside q (.inl hq)).1.low id
  have hr' := hblock h0
  have hring2 := h2.ring (h.frame.ring hring)
  have hmoved : ∀ e ∈ (node'.entries.insertIdx pos ⟨btreeKeyCopy sep, r⟩).drop ((node'.entries.length + 1) / 2),
      v2.InUse e.value := by
    intro e he
    rcases values_right (List.mem_map_of_mem he) with hv | hv
    · rw [hv]
      exact h2.inUse (h.post.inside r (.inr (.refl r))).1
    · rw [hvalues] at hv
      exact h2.inUse (h.post.frame.inUse (ht.inUse _ (under_child h.page hv)))
  refine wpAbs_seq (fwp_setParents_nodes (h2.wf hl1) hring2 hmoved) (fun _ v3 h3 => ?_) (fun _ _ _ => trivial)
  have h13 := h2.trans h3
  obtain ⟨hll, hlr⟩ := halves_le hfull' pos ⟨btreeKeyCopy sep, r⟩
  refine wpAbs_mono (fwp_storeHalves (h13.wf hl1) (h3.ring hring2) (h13.inUse hb1) (h3.inUse hr'.inUse) (hr'.ne hb1)
    hll hlr _) (fun y v4 h4 => ?_) (fun _ _ h => h)
  obtain ⟨rfl, h4, hpb, hpr⟩ := h4
  simp only [pageOf, hleaf'] at hpb hpr
  exact h.split ht hfull ((h13.mono (fun _ hf => hf.elim)).trans h4) (h4.inUse (h3.inUse hr'.inUse)) hr'.free hvalues rfl
    hpb hpr

/-! ## The way back up -/

theorem values_set {entries : List BtreeEntry} {e : BtreeEntry} (h : entries[i]? = some e) (k : CStr) :
    (entries.set i ⟨k, e.value⟩).map BtreeEntry.value = entries.map BtreeEntry.value := by
  refine List.ext_getElem? (fun m => ?_)
  rw [List.getElem?_map, List.getElem?_map, List.getElem?_set]
  split
  · rename_i him
    subst him
    rw [h, if_pos (List.getElem?_eq_some_iff.1 h).1]
    rfl
  · rfl

theorem not_mem_of_leafValue (ht : TreeOk v b) {entries : List BtreeEntry}
    (hpage : v.pages b = some (leafPage entries)) (h : leafValue entries key = none) :
    key ∉ entries.map BtreeEntry.key := by
  intro hmem
  obtain ⟨x, hx⟩ := ht.tree.finds b key (.refl b) (.here hpage hmem)
  cases hx with
  | here hpage' hval =>
    rw [hpage] at hpage'
    cases hpage'
    have hval' : leafValue entries key = some x := hval
    rw [h] at hval'
    cases hval'
  | down hpage' hchild _ =>
    rw [hpage] at hpage'
    cases hpage'
    cases hchild

theorem fwp_storeDone_post (c : Nat) (node' : BtreeNode) (w : Volume) : fwp False False (do
    btreeStore c node'
    pure InsertEnd.done) (InsertPost v key b) (fun _ _ => True) w :=
  wpAbs_seq (fwp_btreeStore False False c node') (fun _ _ _ => wpAbs_pure trivial) (fun _ _ h => h)

theorem fwp_btreeLeafInsert_post (hl : v.sb.toLayout.WF) (hring : v.RingOk) (ht : TreeOk v b)
    (hload : loadNode v b = some node) (hleaf : node.leaf = true) (hkey : key.strlen ≤ btreeMaxKey) (value : Nat) :
    fwp False False (btreeLeafInsert b node key value) (InsertPost v key b) (fun _ _ => True) v := by
  have hpage : v.pages b = some (leafPage node.entries) := by rw [pages_of_load hload, pageOf_leaf hleaf]
  unfold btreeLeafInsert
  dsimp only
  split
  · exact fwp_storeDone_post _ _ v
  · rename_i hfound
    have hnew : key ∉ node.entries.map BtreeEntry.key :=
      not_mem_of_leafValue ht hpage (by rw [leafValue, hfound, Option.map_none])
    refine wpAbs_ite (fun hmax => ?_) (fun _ => fwp_storeDone_post _ _ v)
    exact fwp_btreeLeafSplitInsert_post hl hring ht hload hleaf hkey (Nat.le_antisymm (length_of_load hload) hmax) hnew _ _

theorem insertPost_noBlock (ht : TreeOk v b) {page : Page Nat CStr Nat} (hpage : v.pages b = some page)
    (hmem : c ∈ page.children) (h : InsertPost v key c .noBlock v') : InsertPost v key b .noBlock v' := by
  obtain ⟨hframe, hend⟩ := h
  refine ⟨hframe.mono (fun q hq => hq.imp (fun hq => (under_child hpage hmem).trans hq) id), hend.imp id (fun hlost => ?_)⟩
  refine hlost.up ht.tree hpage ?_ hmem
  rw [← hpage]
  refine hframe.pages b ht.top.low (fun hq => ?_)
  exact hq.elim (ht.tree.acyclic b _ c (.refl b) hpage hmem) (fun hq => hq ht.top)

theorem fwp_btreeInsertRec_post (hl : v.sb.toLayout.WF) (hring : v.RingOk) (hkey : key.strlen ≤ btreeMaxKey)
    (value : Nat) : ∀ (n b : Nat), TreeOk v b →
    fwp False False (btreeInsertRec key value n b) (InsertPost v key b) (fun _ _ => True) v
  | 0, _, _ => wpAbs_throw trivial
  | n + 1, b, ht => by
    rw [btreeInsertRec]
    refine fwp_malloc_bind (fun raw => wpAbs_bind (wpAbs_failIf (fun _ => trivial) (fun _ => ?_)))
    refine wpAbs_bind (fwp_btreeLoad (fun node hload => ?_) (fun _ _ _ => trivial) (fun _ _ _ => trivial))
    refine wpAbs_ite (fun hleaf => fwp_btreeLeafInsert_post hl hring ht hload hleaf hkey value) (fun hleaf => ?_)
    have hpage : v.pages b = some (indexPage node.entries) := by rw [pages_of_load hload, pageOf_index hleaf]
    have hne : node.entries ≠ [] := by
      intro hnil
      obtain ⟨k, hk⟩ := ht.tree.inhabited b (.refl b)
      obtain ⟨c, hc, -⟩ := holds_child hpage rfl hk
      have hc' : c ∈ node.entries.map BtreeEntry.value := hc
      rw [hnil] at hc'
      cases hc'
    obtain ⟨e, he⟩ : ∃ e, node.entries[btreeIndexChild key node.entries]? = some e :=
      ⟨_, List.getElem?_eq_getElem (btreeIndexChild_lt key hne)⟩
    have hhere : (node.entries.map BtreeEntry.value)[btreeIndexChild key node.entries]? = some e.value := by
      rw [List.getElem?_map, he, Option.map_some]
    have hroute : (indexPage node.entries).child key = some e.value := by
      show (node.entries[btreeIndexChild key node.entries]?).map BtreeEntry.value = _
      rw [he, Option.map_some]
    have hmem : e.value ∈ (indexPage node.entries).children := List.mem_of_getElem? hhere
    unfold btreeIndexInsert
    dsimp only
    rw [he, Option.getD_some]
    refine wpAbs_seq (fwp_btreeInsertRec_post hl hring hkey value n e.value (ht.child hpage hmem)) (fun r v1 h => ?_)
      (fun _ _ h => h)
    cases r with
    | noBlock => exact wpAbs_pure (insertPost_noBlock ht hpage hmem h)
    | done => exact wpAbs_ite (fun _ => fwp_storeDone_post _ _ v1) (fun _ => wpAbs_pure trivial)
    | split right sep =>
      have hvalues : (if decide (strcmp key e.key < 0) = true
          then node.entries.set (btreeIndexChild key node.entries) ⟨btreeKeyCopy key, e.value⟩
          else node.entries).map BtreeEntry.value = node.entries.map BtreeEntry.value := by
        split
        · exact values_set he _
        · rfl
      have hlen := congrArg List.length hvalues
      rw [List.length_map, List.length_map] at hlen
      unfold btreeTakeSplit
      dsimp only
      refine wpAbs_ite (fun hmax => ?_) (fun _ => fwp_storeDone_post _ _ v1)
      rw [hlen] at hmax
      refine fwp_btreeIndexSplitInsert_post hl hring ht ⟨hload, hleaf, hhere, hroute, h⟩
        (Nat.le_antisymm (length_of_load hload) hmax) ?_ hvalues _ _
      exact hleaf

end

end

/-! ## A failed insert -/

theorem fwp_btreeTryInsert_post {v : Volume} {key : CStr} {root : Nat} (hl : v.sb.toLayout.WF) (hring : v.RingOk)
    (ht : TreeOk v root) (n value : Nat) : fwp False False (btreeTryInsertWithin n root key value)
      (fun r v' => r = none → (NoRun v' 1 → NoRun v 1) ∨ Lost v.pages v'.pages root) (fun _ _ => True) v := by
  have hroot : root ≠ 0 := by
    rintro rfl
    exact (not_inJournal_of_data hl ht.top.low).1 (.inl rfl)
  unfold btreeTryInsertWithin
  refine wpAbs_bind (wpAbs_failIf (fun _ => trivial) (fun _ => wpAbs_bind (wpAbs_failIf (fun _ => trivial)
    (fun hkey => ?_))))
  refine wpAbs_ite (fun h0 => absurd h0 hroot) (fun _ => ?_)
  refine wpAbs_seq (fwp_btreeInsertRec_post hl hring (Nat.not_lt.1 hkey) value n root ht) (fun r v1 h => ?_)
    (fun _ _ h => h)
  cases r with
  | noBlock => exact wpAbs_pure (fun _ => h.2)
  | done => exact wpAbs_pure nofun
  | split right sep =>
    unfold btreeGrowRoot
    refine wpAbs_seq (fwp_bitmapAlloc_nodes (h.frame.wf hl) (h.frame.ring hring)) (fun b v2 h2 => ?_)
      (fun _ _ _ => trivial)
    refine wpAbs_ite (fun _ => wpAbs_pure (fun _ => .inr ?_)) (fun _ => ?_)
    · exact h.grown.lost.congr (fun q hq => h2.1.pages q (h.inside q (.inl hq)).1.low id)
    · refine fwp_malloc_bind (fun raw => wpAbs_bind (wpAbs_failIf (fun _ => trivial) (fun _ => ?_)))
      refine wpAbs_bind (fwp_btreeLoad (fun node _ => ?_) (fun _ _ _ => trivial) (fun _ _ _ => trivial))
      refine wpAbs_seq (fwp_btreeStore False False _ _) (fun _ v3 _ => ?_) (fun _ _ _ => trivial)
      refine wpAbs_seq (fwp_btreeSetParent False False right b) (fun _ v4 _ => ?_) (fun _ _ _ => trivial)
      exact wpAbs_seq (fwp_btreeStore False False _ _) (fun _ _ _ => wpAbs_pure nofun) (fun _ _ _ => trivial)

/-- Every key that a search from `root` found is found again, with its value. -/
def KeepsKeys (s s' : Mount) (root : Nat) : Prop := ∀ key x, SearchFinds s root key x → SearchFinds s' root key x

/-- The insert fails because `bitmap_alloc` finds no block: there is none when it fails. -/
structure FailsForSpace (s : Mount) (n root : Nat) (key : CStr) (value : Nat) (s' : Mount) : Prop where
  run : btreeTryInsertWithin n root key value s = (.ok none, s')
  full : NoRun s'.vol 1

section

variable {s s' : Mount} {n root value : Nat} {key : CStr}

theorem FailsForSpace.apply (h : FailsForSpace s n root key value s') (hs : s.Reliable) {P : Volume → Prop}
    (hspec : fwp False False (btreeTryInsertWithin n root key value) (fun r v' => r = none → P v') (fun _ _ => True)
      s.vol) : s'.Reliable ∧ P s'.vol := by
  have hpost := fwp_apply (P := fun r v' => r = .ok none → P v') (wpAbs_mono hspec
    (fun r v' hr hnone => hr (Except.ok.inj hnone)) (fun _ _ _ hnone => by cases hnone))
    ⟨fun hf => hs.1 hf, fun hf => hs.2 hf⟩
  rw [h.run] at hpost
  exact ⟨hpost.1, hpost.2 rfl⟩

theorem keepsKeys_of_noRun (hs : s.Reliable) (hl : s.vol.sb.toLayout.WF) (h : FailsForSpace s n root key value s')
    (hno : NoRun s.vol 1) : KeepsKeys s s' root := by
  obtain ⟨hs', hsame⟩ := h.apply hs (vwp_btreeTryInsert_noRun hl hno n root value)
  intro k x hx
  have hsec : s'.vol.sectorOk := by
    rw [hsame]
    exact sectorOk_of_wf hl
  rw [searchFinds_iff hs' hsec, hsame]
  exact finds_of_search hx

theorem not_keepsKeys_of_lost (hs : s.Reliable) (hsec : s.vol.sectorOk) (ht : TreeOk s.vol root)
    (hlost : Lost s.vol.pages s'.vol.pages root) : ¬KeepsKeys s s' root := by
  intro hkeeps
  obtain ⟨k, hk, hnot⟩ := hlost
  obtain ⟨x, hx⟩ := ht.tree.finds root k (.refl root) hk
  exact hnot x (finds_of_search (hkeeps k x ((searchFinds_iff hs hsec root k x).2 hx)))

theorem fwp_btreeFirst_post {v : Volume} (hl : v.sb.toLayout.WF) (hring : v.RingOk) : fwp False False
    (btreeTryInsertWithin n 0 key value) (fun r v' => r = none → NoRun v' 1 → NoRun v 1) (fun _ _ => True) v := by
  unfold btreeTryInsertWithin
  refine wpAbs_bind (wpAbs_failIf (fun _ => trivial) (fun _ => wpAbs_bind (wpAbs_failIf (fun _ => trivial)
    (fun _ => ?_))))
  refine wpAbs_ite (fun _ => ?_) (fun h0 => absurd rfl h0)
  unfold btreeFirstNode
  refine wpAbs_seq (fwp_bitmapAlloc_nodes hl hring) (fun b v' h => ?_) (fun _ _ _ => trivial)
  refine wpAbs_ite (fun h0 => wpAbs_pure (fun _ => h.2.2 h0)) (fun _ => ?_)
  refine fwp_malloc_bind (fun raw => wpAbs_bind (wpAbs_failIf (fun _ => trivial) (fun _ => ?_)))
  exact wpAbs_seq (fwp_btreeStore False False _ _) (fun _ _ _ => wpAbs_pure nofun) (fun _ _ _ => trivial)

end

theorem treeOk_leaf {v : Volume} {b : Nat} {node : BtreeNode} (hload : loadNode v b = some node)
    (hleaf : node.leaf = true) (huse : v.InUse b) (hnil : node.entries ≠ [])
    (hnodup : (node.entries.map BtreeEntry.key).Nodup)
    (hfind : ∀ k ∈ node.entries.map BtreeEntry.key, leafValue node.entries k ≠ none) : TreeOk v b := by
  have hpage : v.pages b = some (leafPage node.entries) := by rw [pages_of_load hload, pageOf_leaf hleaf]
  have hunder : ∀ {q}, Under v.pages b q → q = b := fun hq => under_here hpage rfl hq
  have honly : ∀ {q page}, Under v.pages b q → v.pages q = some page → page = leafPage node.entries := by
    intro q page hq hqp
    rw [hunder hq, hpage] at hqp
    exact (Option.some.inj hqp).symm
  refine ⟨⟨fun p page hp hpp i j c d _ hc => ?_, fun p page c hp hpp hc => ?_, fun p page hp hpp => ?_,
    fun p k hp hk => ?_, fun p hp => ?_⟩, fun q hq => hunder hq ▸ huse⟩
  · rw [honly hp hpp] at hc
    cases hc
  · rw [honly hp hpp] at hc
    cases hc
  · rw [honly hp hpp]
    exact hnodup
  · rw [hunder hp] at hk ⊢
    obtain ⟨x, hx⟩ := Option.ne_none_iff_exists'.1 (hfind k (holds_here hpage rfl hk))
    exact ⟨x, .here hpage hx⟩
  · rw [hunder hp]
    obtain ⟨e, rest, he⟩ := List.exists_cons_of_ne_nil hnil
    refine ⟨e.key, .here hpage ?_⟩
    show e.key ∈ node.entries.map BtreeEntry.key
    rw [he]
    exact List.mem_cons_self

/-- **When a failed insert loses nothing.**  Where no block is free when the insert begins it has stored nothing, and
every key of every tree is found as before.  Where one is free the right half of a node that was split is out of reach,
and the tree has lost a key. -/
theorem failed_insert_keeps_iff (s s' : Mount) (n root : Nat) (key : CStr) (value : Nat) (hs : s.Reliable)
    (hl : s.vol.sb.toLayout.WF) (hring : s.vol.RingOk) (hfails : FailsForSpace s n root key value s') :
    (NoRun s.vol 1 → KeepsKeys s s' root) ∧
      (root = 0 ∨ TreeOk s.vol root → (KeepsKeys s s' root ↔ NoRun s.vol 1)) := by
  refine ⟨keepsKeys_of_noRun hs hl hfails, fun htree => ⟨fun hkeeps => ?_, keepsKeys_of_noRun hs hl hfails⟩⟩
  rcases htree with rfl | ht
  · exact (hfails.apply hs (fwp_btreeFirst_post hl hring)).2 hfails.full
  · rcases (hfails.apply hs (fwp_btreeTryInsert_post hl hring ht n value)).2 with hno | hlost
    · exact hno hfails.full
    · exact absurd hkeeps (not_keepsKeys_of_lost hs (sectorOk_of_wf hl) ht hlost)

/-! ## A leaf of fifteen keys -/

def insertAllWithin (n : Nat) : List (CStr × Nat) → Nat → FsM Nat
  | [], root => pure root
  | (key, value) :: rest, root => do
    let newRoot ← btreeInsertWithin n root key value
    insertAllWithin n rest newRoot

def letter (i : Nat) : CStr := ⟨[UInt8.ofNat (97 + i)].filter (· ≠ 0), by simp⟩

def nearlyFullMount : Mount :=
  { blankMount ⟨mkfsLayout 1024 512, ⟨2, 0, 0, 0, false, 0⟩, ⟨0, 0, 0⟩⟩ with
    journalInTransaction := true
    dev := ⟨cacheInit { blankDrive with base := fun _ => .bitmap (fun i => decide (2 ≤ i)) }, cacheInit_wf _⟩ }

/-- The fifteen keys from `a` on are in the tree, all of them in its root. -/
def fifteenKeys : Except Err Nat × Mount :=
  insertAllWithin 2 ((List.range 15).map (fun i => (letter i, i))) 0 nearlyFullMount

def sixteenthKey : Except Err (Option Nat) × Mount := btreeTryInsertWithin 2 30 (letter 15) 15 fifteenKeys.2

theorem nearlyFullMount_ready : nearlyFullMount.Reliable ∧ nearlyFullMount.vol.sb.toLayout.WF ∧
    nearlyFullMount.vol.RingOk := by
  refine ⟨⟨?_, ?_⟩, (mkfsLayout_facts (by decide) (by decide)).1, ?_⟩
  · rintro ⟨o, ho, -⟩
    simp [nearlyFullMount, blankMount, cacheInit, blankDrive] at ho
  · simp [Mount.HeapFaulty, nearlyFullMount, blankMount]
  · exact (by decide +kernel : nearlyFullMount.vol.sb.journalHead < nearlyFullMount.vol.sb.journalLength)

theorem fifteenKeys_ready : fifteenKeys.2.Reliable ∧ fifteenKeys.2.vol.sb.toLayout.WF ∧ fifteenKeys.2.vol.RingOk := by
  have hl : fifteenKeys.2.vol.sb.toLayout = mkfsLayout 1024 512 := by decide +kernel
  refine ⟨⟨?_, ?_⟩, ?_, (by decide +kernel : fifteenKeys.2.vol.sb.journalHead < fifteenKeys.2.vol.sb.journalLength)⟩
  · have h : fifteenKeys.2.dev.1.outcomes = [] := by decide +kernel
    rintro ⟨o, ho, -⟩
    rw [h] at ho
    cases ho
  · have h : fifteenKeys.2.heap = [] := by decide +kernel
    simp [Mount.HeapFaulty, h]
  · rw [hl]
    exact (mkfsLayout_facts (by decide) (by decide)).1

theorem sixteenthKey_fails : FailsForSpace fifteenKeys.2 2 30 (letter 15) 15 sixteenthKey.2 := by
  refine ⟨Prod.ext (by decide +kernel : sixteenthKey.1 = .ok none) rfl, ?_⟩
  have hfull : (linearRun sixteenthKey.2.vol.sb.toLayout sixteenthKey.2.vol.used 1).isRight = true := by decide +kernel
  obtain ⟨run, hrun⟩ := Sum.isRight_iff.1 hfull
  exact noRun_of_linearRun Nat.one_pos hrun

theorem fifteenKeys_tree : TreeOk fifteenKeys.2.vol 30 := by
  have hsome : (loadNode fifteenKeys.2.vol 30).isSome = true := by decide +kernel
  obtain ⟨node, hload⟩ := Option.isSome_iff_exists.1 hsome
  have hnode : ∀ (P : BtreeNode → Prop) [DecidablePred P], (loadNode fifteenKeys.2.vol 30).all (fun n => decide (P n)) →
      P node := by
    intro P _ h
    rw [hload] at h
    simpa using h
  refine treeOk_leaf hload (hnode (fun n => n.leaf = true) (by decide +kernel)) ⟨by decide +kernel, by decide +kernel,
    by decide +kernel⟩ (hnode (fun n => n.entries ≠ []) (by decide +kernel))
    (hnode (fun n => (n.entries.map BtreeEntry.key).Nodup) (by decide +kernel))
    (hnode (fun n => ∀ k ∈ n.entries.map BtreeEntry.key, leafValue n.entries k ≠ none) (by decide +kernel))

/-- The tree of fifteen keys, at its sixteenth key. -/
theorem failed_insert_keeps_fifteen : KeepsKeys fifteenKeys.2 sixteenthKey.2 30 ↔ NoRun fifteenKeys.2.vol 1 := by
  obtain ⟨hs, hl, hring⟩ := fifteenKeys_ready
  exact (failed_insert_keeps_iff _ _ 2 30 (letter 15) 15 hs hl hring sixteenthKey_fails).2 (.inr fifteenKeys_tree)

/-- **A sixteenth key with one free block.**  The leaf is split, the new root gets no block, and the key `o` is gone. -/
theorem not_failed_insert_keeps : ¬∀ (s₀ s s' : Mount) (n root : Nat) (l : List (CStr × Nat)) (key : CStr) (value : Nat),
    s₀.Reliable → s₀.vol.sb.toLayout.WF → s₀.vol.RingOk → insertAllWithin n l 0 s₀ = (.ok root, s) →
    FailsForSpace s n root key value s' → KeepsKeys s s' root := by
  intro hall
  obtain ⟨hs, hl, hring⟩ := nearlyFullMount_ready
  have hrun : fifteenKeys = (.ok 30, fifteenKeys.2) := Prod.ext (by decide +kernel : fifteenKeys.1 = .ok 30) rfl
  have hkeeps := hall nearlyFullMount fifteenKeys.2 sixteenthKey.2 2 30 _ (letter 15) 15 hs hl hring hrun
    sixteenthKey_fails
  have hbefore : SearchFinds fifteenKeys.2 30 (letter 14) 14 := ⟨2, by decide +kernel⟩
  have hafter := finds_of_search (hkeeps (letter 14) 14 hbefore)
  have hleft : (loadNode sixteenthKey.2.vol 30).map (fun node => (node.leaf, leafValue node.entries (letter 14))) =
      some (true, none) := by decide +kernel
  obtain ⟨node, hload, hnode⟩ := Option.map_eq_some_iff.1 hleft
  obtain ⟨hleaf, hvalue⟩ := Prod.mk.inj hnode
  have hpage : sixteenthKey.2.vol.pages 30 = some (leafPage node.entries) := by
    rw [pages_of_load hload, pageOf_leaf hleaf]
  cases hafter with
  | here hpage' hval =>
    rw [hpage] at hpage'
    cases hpage'
    have hval' : leafValue node.entries (letter 14) = some 14 := hval
    rw [hvalue] at hval'
    cases hval'
  | down hpage' hchild _ =>
    rw [hpage] at hpage'
    cases hpage'
    cases hchild

end SmkFs
end AmitX
