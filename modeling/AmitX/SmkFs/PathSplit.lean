import AmitX.SmkFs.Path
import AmitX.SmkFs.BtreeFull
import AmitX.SmkFs.FileSpec
import AmitX.SmkFs.FreeEntry
import AmitX.SmkFs.FormatMount
import AmitX.Lib.Words
/-!
# PathSplit — splitting a path and looking it up (`path.c`)

`path_lookup` goes down the names of a path, a name of more than 255 bytes piece by piece; `path_split` gives the directory
of the last name.  They disagree on a path that ends with a slash, and on the drive of a path of one name.
-/
namespace AmitX
namespace SmkFs

open Prog Volume Words

/-! ## What a lookup finds -/

/-- The descent from a block ends with a value, in at most `n` nodes. -/
def DescendsTo (v : Volume) (key : CStr) : Nat → Nat → Nat → Prop
  | 0, _, _ => False
  | n + 1, b, x => ∃ node, loadNode v b = some node ∧
    (node.leaf = true ∧ leafValue node.entries key = some x ∨
      node.leaf = false ∧ ∃ e, node.entries[btreeIndexChild key node.entries]? = some e ∧ DescendsTo v key n e.value x)

structure Volume.HasName (v : Volume) (n dir : Nat) (name : CStr) (x : Nat) : Prop where
  mounted : v.mounted = true
  found : ∃ rec attrs root, v.RecordAt dir rec attrs ∧ rec.objectType = .dir ∧
    recordFindAttr .data attrs = some root ∧ root.asU64 ≠ 0 ∧ DescendsTo v name n root.asU64 x

def Volume.LeadsTo (v : Volume) (n : Nat) : List (List UInt8) → Nat → Nat → Prop
  | [], dir, x => dir = x
  | w :: ws, dir, x => ∃ name : CStr, name.bytes = w ∧ ∃ d, v.HasName n dir name d ∧ v.LeadsTo n ws d x

section

variable {v : Volume} {key name : CStr} {n k b dir x y : Nat} {ws ws' : List (List UInt8)}

theorem DescendsTo.unique : ∀ {n b : Nat}, DescendsTo v key n b x → DescendsTo v key n b y → x = y
  | 0, _, h, _ => h.elim
  | n + 1, b, h, h' => by
    obtain ⟨node, hload, h⟩ := h
    obtain ⟨node', hload', h'⟩ := h'
    obtain rfl : node = node' := Option.some.inj (hload.symm.trans hload')
    rcases h with ⟨hl, h⟩ | ⟨hl, e, he, h⟩
    · rcases h' with ⟨-, h'⟩ | ⟨hl', -⟩
      · exact Option.some.inj (h.symm.trans h')
      · rw [hl] at hl'
        cases hl'
    · rcases h' with ⟨hl', -⟩ | ⟨-, e', he', h'⟩
      · rw [hl] at hl'
        cases hl'
      · obtain rfl : e = e' := Option.some.inj (he.symm.trans he')
        exact h.unique h'

theorem Volume.HasName.unique (h : v.HasName n dir name x) (h' : v.HasName n dir name y) : x = y := by
  obtain ⟨rec, attrs, root, hr, -, hd, -, h⟩ := h.found
  obtain ⟨rec', attrs', root', hr', -, hd', -, h'⟩ := h'.found
  obtain ⟨-, rfl⟩ := hr.unique hr'
  obtain rfl : root = root' := Option.some.inj (hd.symm.trans hd')
  exact h.unique h'

theorem Volume.LeadsTo.unique : ∀ {ws : List (List UInt8)} {dir : Nat}, v.LeadsTo n ws dir x → v.LeadsTo n ws dir y →
    x = y
  | [], _, h, h' => h.symm.trans h'
  | w :: ws, dir, ⟨name, hw, d, hd, h⟩, ⟨name', hw', d', hd', h'⟩ => by
    obtain rfl : name = name' := CStr.ext (hw.trans hw'.symm)
    obtain rfl := hd.unique hd'
    exact @Volume.LeadsTo.unique ws _ h h'

theorem leadsTo_append : ∀ {ws : List (List UInt8)} {dir : Nat}, v.LeadsTo n (ws ++ ws') dir x ↔
    ∃ d, v.LeadsTo n ws dir d ∧ v.LeadsTo n ws' d x
  | [], dir => ⟨fun h => ⟨dir, rfl, h⟩, by rintro ⟨d, rfl, h⟩; exact h⟩
  | w :: ws, dir => by
    constructor
    · rintro ⟨name, hw, d, hd, h⟩
      obtain ⟨d', h1, h2⟩ := leadsTo_append.1 h
      exact ⟨d', ⟨name, hw, d, hd, h1⟩, h2⟩
    · rintro ⟨d', ⟨name, hw, d, hd, h1⟩, h2⟩
      exact ⟨name, hw, d, hd, leadsTo_append.2 ⟨d', h1, h2⟩⟩

theorem leadsTo_one : v.LeadsTo n [name.bytes] dir x ↔ v.HasName n dir name x := by
  constructor
  · rintro ⟨name', hw, d, hd, rfl⟩
    rwa [CStr.ext hw] at hd
  · intro h
    exact ⟨name, rfl, x, h, rfl⟩

/-! ## The lookups of the code, where nothing fails -/

theorem fwp_btreeDescend_exact (hs : v.sectorOk) : ∀ (n b : Nat), fwp False False (btreeDescend key n b)
    (fun x v' => v' = v ∧ DescendsTo v key n b x) (fun _ v' => v' = v ∧ ∀ x, ¬DescendsTo v key n b x) v
  | 0, _ => wpAbs_throw ⟨rfl, fun _ h => h⟩
  | n + 1, b => by
    rw [btreeDescend]
    refine wpAbs_bind (fwp_btreeLoad (fun node hload => ?_) (fun _ _ hf => (hf.elim id (fun hf => hf hs)).elim)
      (fun _ _ hload => ⟨rfl, ?_⟩))
    · have hnode : ∀ {node'}, loadNode v b = some node' → node' = node := fun h => Option.some.inj (h.symm.trans hload)
      refine wpAbs_ite (fun hl => ?_) (fun hl => ?_)
      · unfold btreeLeafLookup
        cases he : node.entries[btreeLeafLowerBound key node.entries]? with
        | none =>
          refine wpAbs_throw ⟨rfl, ?_⟩
          rintro x ⟨node', hload', ⟨-, hx⟩ | ⟨hl', -⟩⟩
          · obtain rfl := hnode hload'
            rw [leafValue, he] at hx
            cases hx
          · obtain rfl := hnode hload'
            rw [hl] at hl'
            cases hl'
        | some e =>
          refine wpAbs_ite (fun hkey => wpAbs_pure ⟨rfl, node, hload, Or.inl ⟨hl, ?_⟩⟩) (fun hkey => wpAbs_throw ⟨rfl, ?_⟩)
          · rw [leafValue, he, Option.filter_some_pos (by simpa using hkey), Option.map_some]
          · rintro x ⟨node', hload', ⟨-, hx⟩ | ⟨hl', -⟩⟩
            · obtain rfl := hnode hload'
              rw [leafValue, he, Option.filter_some_neg (by simpa using hkey)] at hx
              cases hx
            · obtain rfl := hnode hload'
              rw [hl] at hl'
              cases hl'
      · have hl : node.leaf = false := by simpa using hl
        cases he : node.entries[btreeIndexChild key node.entries]? with
        | none =>
          refine wpAbs_throw ⟨rfl, ?_⟩
          rintro x ⟨node', hload', ⟨hl', -⟩ | ⟨-, e, he', -⟩⟩
          · obtain rfl := hnode hload'
            rw [hl] at hl'
            cases hl'
          · obtain rfl := hnode hload'
            rw [he] at he'
            cases he'
        | some e =>
          refine wpAbs_mono (fwp_btreeDescend_exact hs n e.value)
            (fun x _ h => ⟨h.1, node, hload, Or.inr ⟨hl, e, he, h.2⟩⟩) (fun _ _ h => ⟨h.1, ?_⟩)
          rintro x ⟨node', hload', ⟨hl', -⟩ | ⟨-, e', he', hx⟩⟩
          · obtain rfl := hnode hload'
            rw [hl] at hl'
            cases hl'
          · obtain rfl := hnode hload'
            obtain rfl := Option.some.inj (he.symm.trans he')
            exact h.2 x hx
    · rintro x ⟨node, hload', -⟩
      rw [hload] at hload'
      cases hload'

theorem fwp_smkfsLookupByName (hs : v.sectorOk) (n dir : Nat) (name : CStr) :
    fwp False False (smkfsLookupByName n dir name) (fun x v' => v' = v ∧ v.HasName n dir name x)
      (fun _ v' => v' = v ∧ ∀ x, ¬v.HasName n dir name x) v := by
  unfold smkfsLookupByName
  refine wpAbs_bind (vwp_getMem (wpAbs_bind (wpAbs_failIf (fun hm => ⟨rfl, fun x h => ?_⟩) (fun hm => ?_))))
  · have := h.mounted
    rw [hm] at this
    cases this
  have hm : v.mounted = true := by simpa using hm
  refine wpAbs_bind (wpAbs_orThrow (wpAbs_mono (fwp_recordRead_at False False v dir) (fun x v' h => ?_)
    (fun _ _ h => ⟨h.1, fun x hx => ?_⟩)))
  · obtain ⟨rfl, hr⟩ := h
    obtain ⟨rec, attrs⟩ := x
    have hsame : ∀ {x}, v'.HasName n dir name x → rec.objectType = .dir ∧ ∃ root, recordFindAttr .data attrs = some root ∧
        root.asU64 ≠ 0 ∧ DescendsTo v' name n root.asU64 x := by
      intro x hx
      obtain ⟨rec', attrs', root, hr', hdir, hd, h0, h⟩ := hx.found
      obtain ⟨rfl, rfl⟩ := hr.unique hr'
      exact ⟨hdir, root, hd, h0, h⟩
    refine wpAbs_bind (wpAbs_failIf (fun hdir => ⟨rfl, fun x hx => hdir (hsame hx).1⟩) (fun hdir => ?_))
    have hdir : rec.objectType = .dir := by simpa using hdir
    cases hfind : recordFindAttr .data attrs with
    | none =>
      refine wpAbs_throw ⟨rfl, fun x hx => ?_⟩
      obtain ⟨-, root, hd, -⟩ := hsame hx
      rw [hfind] at hd
      cases hd
    | some root =>
      have hroot : ∀ {x}, v'.HasName n dir name x → root.asU64 ≠ 0 ∧ DescendsTo v' name n root.asU64 x := by
        intro x hx
        obtain ⟨-, root', hd, h⟩ := hsame hx
        obtain rfl := Option.some.inj (hfind.symm.trans hd)
        exact h
      unfold btreeSearchWithin
      refine wpAbs_bind (wpAbs_failIf (fun h0 => ⟨rfl, fun x hx => (hroot hx).1 h0⟩) (fun h0 => ?_))
      refine wpAbs_bind (vwp_malloc ?_ (fun hf => hf.elim))
      refine wpAbs_bind (wpAbs_failIf (fun h => by simp at h) (fun _ => ?_))
      exact wpAbs_mono (fwp_btreeDescend_exact hs n root.asU64)
        (fun x _ h => ⟨h.1, hm, rec, attrs, root, hr, hdir, hfind, h0, h.2⟩)
        (fun _ _ h => ⟨h.1, fun x hx => h.2 x (hroot hx).2⟩)
  · obtain ⟨rec, attrs, -, hr, -⟩ := hx.found
    exact (h.2 rec attrs hr hs).elim (fun h => h.2) (fun h => h.2)

theorem fwp_pathWalk (hs : v.sectorOk) (n : Nat) : ∀ (k : Nat) (p : CStr) (dir : Nat), p.strlen < k →
    fwp False False (pathWalk n k p dir)
      (fun x v' => v' = v ∧ v.LeadsTo n (scanWithin slash (nameLen - 1) k p.bytes) dir x)
      (fun _ v' => v' = v ∧ ∀ x, ¬v.LeadsTo n (scanWithin slash (nameLen - 1) k p.bytes) dir x) v
  | 0, _, _, hk => absurd hk (Nat.not_lt_zero _)
  | k + 1, p, dir, hk => by
    rw [pathWalk, scanWithin]
    have hskip : p.skipSlashes.bytes = p.bytes.dropWhile (· == slash) := rfl
    refine wpAbs_ite (fun hnil => ?_) (fun hne => ?_)
    · rw [hskip] at hnil
      rw [if_pos hnil]
      exact wpAbs_pure ⟨rfl, rfl⟩
    · rw [hskip] at hne
      rw [if_neg hne]
      have hfront : p.skipSlashes.upToSlash.bytes = front slash (nameLen - 1) p.bytes := rfl
      have hrear : (p.skipSlashes.drop p.skipSlashes.upToSlash.strlen).bytes = rear slash (nameLen - 1) p.bytes := rfl
      have hlen : (p.skipSlashes.drop p.skipSlashes.upToSlash.strlen).strlen < k := by
        rw [CStr.strlen, hrear]
        have := @length_rear_lt _ _ slash (nameLen - 1) _ (by decide) hne
        rw [CStr.strlen] at hk
        omega
      refine wpAbs_bind (wpAbs_orThrow (wpAbs_mono (fwp_smkfsLookupByName hs n dir _) (fun d v' h => ?_)
        (fun _ _ h => ⟨h.1, ?_⟩)))
      · obtain ⟨hv, hd⟩ := h
        rw [hv]
        refine wpAbs_mono (fwp_pathWalk hs n k _ d hlen) (fun x _ h => ⟨h.1, _, hfront, d, hd, ?_⟩)
          (fun _ _ h => ⟨h.1, ?_⟩)
        · rw [← hrear]
          exact h.2
        · rintro x ⟨name, hname, d', hd', hx⟩
          obtain rfl : name = p.skipSlashes.upToSlash := CStr.ext (hname.trans hfront.symm)
          obtain rfl := hd.unique hd'
          rw [← hrear] at hx
          exact h.2 x hx
      · rintro x ⟨name, hname, d, hd, -⟩
        obtain rfl : name = p.skipSlashes.upToSlash := CStr.ext (hname.trans hfront.symm)
        exact h.2 d hd

def Volume.PathLeads (v : Volume) (n : Nat) (driveNum : UInt8) (path : CStr) (x : Nat) : Prop :=
  path.byte 0 - letterA = driveNum ∧ v.LeadsTo n (scan slash (nameLen - 1) (path.drop 3).bytes) v.sb.rootRecordId x

theorem fwp_pathLookup (hs : v.sectorOk) (n : Nat) (driveNum : UInt8) {path : CStr} (hvalid : pathValid path) :
    fwp False False (pathLookup n driveNum path) (fun x v' => v' = v ∧ v.PathLeads n driveNum path x)
      (fun _ v' => v' = v ∧ ∀ x, ¬v.PathLeads n driveNum path x) v := by
  have hlen : (path.drop 3).strlen < path.strlen + 1 := by
    rw [CStr.strlen, CStr.strlen, CStr.drop, List.length_drop]
    omega
  have hscan : scanWithin slash (nameLen - 1) (path.strlen + 1) (path.drop 3).bytes =
      scan slash (nameLen - 1) (path.drop 3).bytes :=
    scanWithin_congr (by decide) _ (Nat.le_refl _) hlen (Nat.lt_succ_self _)
  have hwalk := fwp_pathWalk hs n (path.strlen + 1) (path.drop 3) v.sb.rootRecordId hlen
  rw [hscan] at hwalk
  refine wpAbs_bind (wpAbs_failIf (fun h => absurd hvalid h) (fun _ => ?_))
  refine wpAbs_bind (wpAbs_failIf (fun hd => ⟨rfl, fun x hx => hd hx.1⟩) (fun hd => ?_))
  have hd : path.byte 0 - letterA = driveNum := Decidable.not_not.1 hd
  exact wpAbs_bind (vwp_getSb (wpAbs_mono hwalk (fun x _ h => ⟨h.1, hd, h.2⟩)
    (fun _ _ h => ⟨h.1, fun x hx => h.2 x hx.2⟩)))

/-! ## The last slash -/

theorem lastSlash_eq {path : CStr} {a r : List UInt8} (h : path.bytes = a ++ slash :: r) (hr : slash ∉ r) :
    lastSlash path = some a.length := by
  have hidx : path.bytes.reverse.idxOf slash = r.length := by
    rw [h, List.reverse_append, List.reverse_cons, List.append_assoc, List.idxOf_append_of_notMem (by simpa using hr),
      List.singleton_append, List.idxOf_cons_self, List.length_reverse, Nat.add_zero]
  rw [lastSlash, if_pos (by rw [h]; simp), hidx, CStr.strlen, h, List.length_append, List.length_cons]
  congr 1
  omega

theorem valid_bytes {path : CStr} (h : pathValid path) :
    ∃ c : UInt8, path.bytes = [c, colon] ++ slash :: (path.drop 3).bytes := by
  have hbytes : (path.drop 3).bytes = path.bytes.drop 3 := rfl
  obtain ⟨h1, h2⟩ := h
  unfold CStr.byte at h1 h2
  rw [hbytes]
  rcases hp : path.bytes with _ | ⟨c, _ | ⟨c1, _ | ⟨c2, r⟩⟩⟩
  · rw [hp] at h2
    cases h2
  · rw [hp] at h2
    cases h2
  · rw [hp] at h2
    cases h2
  · rw [hp] at h1 h2
    have h1 : c1 = colon := h1
    have h2 : c2 = slash := h2
    rw [h1, h2]
    exact ⟨c, rfl⟩

theorem fwp_pathSplit_root (n : Nat) (driveNum : UInt8) {path : CStr} (hvalid : pathValid path)
    (hone : slash ∉ (path.drop 3).bytes) : fwp False False (pathSplit n driveNum path)
      (fun x v' => v' = v ∧ (x = (v.sb.rootRecordId, path.drop 3) ∧ (path.drop 3).strlen < nameLen))
      (fun _ v' => v' = v ∧ ∀ x : Nat × CStr, ¬(x = (v.sb.rootRecordId, path.drop 3) ∧ (path.drop 3).strlen < nameLen))
      v := by
  obtain ⟨c, hbytes⟩ := valid_bytes hvalid
  have hlast : lastSlash path = some 2 := lastSlash_eq hbytes hone
  refine wpAbs_bind (vwp_getSb (wpAbs_ite (fun _ => ?_) (fun h => absurd (Or.inr hlast) h)))
  exact wpAbs_bind (wpAbs_failIf (fun h => ⟨rfl, fun x hx => absurd hx.2 (by omega)⟩)
    (fun h => wpAbs_pure ⟨rfl, rfl, by omega⟩))

theorem take_path {path : CStr} {c : UInt8} {q r : List UInt8} (h : path.bytes = [c, colon] ++ slash :: (q ++ slash :: r)) :
    pathValid (path.take (3 + q.length)) ∧ (path.take (3 + q.length)).byte 0 = path.byte 0 ∧
      ((path.take (3 + q.length)).drop 3).bytes = q ∧ (path.drop (3 + q.length + 1)).bytes = r := by
  have htake : (path.take (3 + q.length)).bytes = [c, colon, slash] ++ q := by
    have hb : (path.take (3 + q.length)).bytes = path.bytes.take (3 + q.length) := rfl
    have happ : path.bytes = ([c, colon, slash] ++ q) ++ slash :: r := by
      rw [h]
      simp
    rw [hb, happ, List.take_left' (by rw [List.length_append]; rfl)]
  have hdrop : (path.drop (3 + q.length + 1)).bytes = r := by
    have hb : (path.drop (3 + q.length + 1)).bytes = path.bytes.drop (3 + q.length + 1) := rfl
    have happ : path.bytes = ([c, colon, slash] ++ q ++ [slash]) ++ r := by
      rw [h]
      simp
    rw [hb, happ, List.drop_left' (by rw [List.length_append, List.length_append]; rfl)]
  refine ⟨⟨?_, ?_⟩, ?_, ?_, hdrop⟩
  · rw [CStr.byte, htake]
    rfl
  · rw [CStr.byte, htake]
    rfl
  · rw [CStr.byte, CStr.byte, htake, h]
    rfl
  · have hb : ((path.take (3 + q.length)).drop 3).bytes = (path.take (3 + q.length)).bytes.drop 3 := rfl
    rw [hb, htake]
    rfl

def Volume.SplitsInto (v : Volume) (n : Nat) (driveNum : UInt8) (path : CStr) (q : List UInt8) (x : Nat × CStr) : Prop :=
  (3 + q.length < pathLen ∧ (path.drop (3 + q.length + 1)).strlen < nameLen ∧ path.byte 0 - letterA = driveNum) ∧
    v.LeadsTo n (scan slash (nameLen - 1) q) v.sb.rootRecordId x.1 ∧ x.2 = path.drop (3 + q.length + 1)

/-- **A path with a slash among its names** is split into the record that the part before its last slash leads to and the
part behind. -/
theorem fwp_pathSplit_below (hs : v.sectorOk) (n : Nat) (driveNum : UInt8) {path : CStr} {c : UInt8} {q r : List UInt8}
    (h : path.bytes = [c, colon] ++ slash :: (q ++ slash :: r)) (hr : slash ∉ r) :
    fwp False False (pathSplit n driveNum path) (fun x v' => v' = v ∧ v.SplitsInto n driveNum path q x)
      (fun _ v' => v' = v ∧ ∀ x, ¬v.SplitsInto n driveNum path q x) v := by
  have happ : path.bytes = ([c, colon, slash] ++ q) ++ slash :: r := by
    rw [h]
    simp
  have hlast : lastSlash path = some (3 + q.length) := by
    rw [lastSlash_eq happ hr, List.length_append]
    rfl
  obtain ⟨hvalid, hbyte, hnames, -⟩ := take_path h
  have hleads : ∀ x, v.PathLeads n driveNum (path.take (3 + q.length)) x ↔ path.byte 0 - letterA = driveNum ∧
      v.LeadsTo n (scan slash (nameLen - 1) q) v.sb.rootRecordId x := fun x => by
    rw [Volume.PathLeads, hbyte, hnames]
  unfold pathSplit
  rw [hlast]
  refine wpAbs_bind (vwp_getSb (wpAbs_ite (fun h2 => ?_) (fun _ => ?_)))
  · rcases h2 with h2 | h2
    · cases h2
    · have := Option.some.inj h2
      omega
  refine wpAbs_bind (wpAbs_failIf (fun hlen => ⟨rfl, fun x hx => absurd hx.1.1 (Nat.not_lt.2 hlen)⟩) (fun hlen => ?_))
  refine wpAbs_bind (vwp_malloc ?_ (fun hf => hf.elim))
  refine wpAbs_bind (wpAbs_failIf (fun h => by simp at h) (fun _ => ?_))
  refine wpAbs_bind (wpAbs_orThrow (wpAbs_mono (fwp_pathLookup hs n driveNum hvalid) (fun d v' hd => ?_)
    (fun _ _ hd => ⟨hd.1, fun x hx => hd.2 x.1 ((hleads x.1).2 ⟨hx.1.2.2, hx.2.1⟩)⟩)))
  obtain ⟨hv, hd⟩ := hd
  obtain ⟨hdrive, hd⟩ := (hleads d).1 hd
  rw [hv]
  exact wpAbs_bind (wpAbs_failIf (fun hname => ⟨rfl, fun x hx => absurd hx.1.2.1 (Nat.not_lt.2 hname)⟩)
    (fun hname => wpAbs_pure ⟨rfl, ⟨Nat.not_le.1 hlen, Nat.not_le.1 hname, hdrive⟩, hd, rfl⟩))

end

/-! ## Where the two agree -/

/-- The names in the leaves are those that `btree_insert` takes. -/
def Volume.NamesOk (v : Volume) : Prop := ∀ b node, v.view b = .node node → node.leaf = true →
  ∀ e ∈ node.entries, e.key.bytes ≠ [] ∧ e.key.strlen ≤ btreeMaxKey

def Mount.Leads (s : Mount) (n : Nat) : List (List UInt8) → Nat → Nat → Prop
  | [], dir, x => dir = x
  | w :: ws, dir, x => ∃ name : CStr, name.bytes = w ∧
    ∃ d, (smkfsLookupByName n dir name s.faultless).1 = .ok d ∧ s.Leads n ws d x

/-- Splitting a path agrees with looking it up, and a lookup goes down the names of the path. -/
structure PathsAgree (s : Mount) (n : Nat) (driveNum : UInt8) (path : CStr) : Prop where
  split : ∀ parent name, (pathSplit n driveNum path s.faultless).1 = .ok (parent, name) → ∀ x,
    (pathLookup n driveNum path s.faultless).1 = .ok x ↔ (smkfsLookupByName n parent name s.faultless).1 = .ok x
  lookup : ∀ x, (pathLookup n driveNum path s.faultless).1 = .ok x ↔ path.byte 0 - letterA = driveNum ∧
    s.Leads n (words slash (path.drop 3).bytes) s.vol.sb.rootRecordId x

/-- A path that ends with a slash leads nowhere or is too long to be split; a path of one name is on the drive of the
mount, or the root has no such name; and no name is longer than the buffer, or the path leads nowhere even in pieces. -/
structure PathFits (v : Volume) (n : Nat) (driveNum : UInt8) (path : CStr) : Prop where
  trailing : path.bytes.getLast? = some slash → pathLen < path.strlen ∨ ∀ x, ¬v.PathLeads n driveNum path x
  drive : slash ∉ (path.drop 3).bytes → (path.drop 3).bytes ≠ [] → (path.drop 3).strlen < nameLen →
    path.byte 0 - letterA = driveNum ∨ ∀ x, ¬v.HasName n v.sb.rootRecordId (path.drop 3) x
  pieces : (∀ w ∈ words slash (path.drop 3).bytes, w.length < nameLen) ∨ ∀ x, ¬v.PathLeads n driveNum path x

section

variable {v : Volume} {s : Mount} {key name : CStr} {n b dir x : Nat} {driveNum : UInt8} {path : CStr}
  {ws : List (List UInt8)}

theorem name_of_descends (h : v.NamesOk) : ∀ {n b : Nat}, DescendsTo v key n b x →
    key.bytes ≠ [] ∧ key.strlen ≤ btreeMaxKey
  | 0, _, hd => hd.elim
  | n + 1, b, ⟨node, hload, hd⟩ => by
    rcases hd with ⟨hleaf, hval⟩ | ⟨-, e, -, hd⟩
    · obtain ⟨e, he, hkey⟩ := List.mem_map.1 (leafValue_mem hval)
      have hname := h b node (view_of_loadNode hload) hleaf e he
      rwa [hkey] at hname
    · exact name_of_descends h hd

theorem Volume.HasName.name_ok (h : v.HasName n dir name x) (hok : v.NamesOk) :
    name.bytes ≠ [] ∧ name.strlen < nameLen := by
  obtain ⟨rec, attrs, root, -, -, -, -, hd⟩ := h.found
  obtain ⟨hne, hlen⟩ := name_of_descends hok hd
  exact ⟨hne, Nat.lt_of_le_of_lt hlen (by decide)⟩

theorem leadsTo_short (hok : v.NamesOk) : ∀ {ws : List (List UInt8)} {dir : Nat}, v.LeadsTo n ws dir x →
    ∀ w ∈ ws, w.length < nameLen
  | [], _, _, w, hw => absurd hw List.not_mem_nil
  | w' :: ws, dir, ⟨name, hname, d, hd, h⟩, w, hw => by
    rcases List.mem_cons.1 hw with rfl | hw
    · rw [← hname]
      exact (hd.name_ok hok).2
    · exact leadsTo_short hok h w hw

theorem ok_iff {α : Type} {m : FsM α} {P : α → Prop} (h : fwp False False m (fun x v' => v' = s.vol ∧ P x)
    (fun _ v' => v' = s.vol ∧ ∀ x, ¬P x) s.vol) (huniq : ∀ x y, P x → P y → x = y) (x : α) :
    (m s.faultless).1 = .ok x ↔ P x := by
  obtain ⟨hd, hh⟩ := faultless_reliable s
  have hpost := (fwp_apply (s := s.faultless) (P := fun r _ => ∀ x, r = .ok x ↔ P x)
    (wpAbs_mono h (fun y _ hy x => ⟨fun he => ?_, fun hx => ?_⟩) (fun _ _ hn x => ⟨fun he => ?_, fun hx => ?_⟩))
    ⟨fun h => hd h, fun h => hh h⟩).2
  · exact hpost x
  · cases he
    exact hy.2
  · rw [huniq y x hy.2 hx]
  · cases he
  · exact absurd hx (hn.2 x)

theorem lookupByName_iff (hs : s.vol.sectorOk) (n dir : Nat) (name : CStr) (x : Nat) :
    (smkfsLookupByName n dir name s.faultless).1 = .ok x ↔ s.vol.HasName n dir name x :=
  ok_iff (fwp_smkfsLookupByName hs n dir name) (fun _ _ h h' => h.unique h') x

theorem pathLookup_iff (hs : s.vol.sectorOk) (hvalid : pathValid path) (x : Nat) :
    (pathLookup n driveNum path s.faultless).1 = .ok x ↔ s.vol.PathLeads n driveNum path x :=
  ok_iff (fwp_pathLookup hs n driveNum hvalid) (fun _ _ h h' => h.2.unique h'.2) x

theorem leads_iff (hs : s.vol.sectorOk) : ∀ {ws : List (List UInt8)} {dir : Nat},
    s.Leads n ws dir x ↔ s.vol.LeadsTo n ws dir x
  | [], _ => Iff.rfl
  | w :: ws, dir => by
    constructor
    · rintro ⟨name, hname, d, hd, h⟩
      exact ⟨name, hname, d, (lookupByName_iff hs n dir name d).1 hd, (leads_iff hs).1 h⟩
    · rintro ⟨name, hname, d, hd, h⟩
      exact ⟨name, hname, d, (lookupByName_iff hs n dir name d).2 hd, (leads_iff hs).2 h⟩

theorem lookup_names_iff (hs : s.vol.sectorOk) (hok : s.vol.NamesOk) (hvalid : pathValid path) :
    (∀ x, (pathLookup n driveNum path s.faultless).1 = .ok x ↔ path.byte 0 - letterA = driveNum ∧
      s.Leads n (words slash (path.drop 3).bytes) s.vol.sb.rootRecordId x) ↔
    (∀ w ∈ words slash (path.drop 3).bytes, w.length < nameLen) ∨ ∀ x, ¬s.vol.PathLeads n driveNum path x := by
  constructor
  · intro hall
    by_cases hx : ∃ x, s.vol.PathLeads n driveNum path x
    · obtain ⟨x, hx⟩ := hx
      exact Or.inl (leadsTo_short hok ((leads_iff hs).1 ((hall x).1 ((pathLookup_iff hs hvalid x).2 hx)).2))
    · exact Or.inr (fun x h => hx ⟨x, h⟩)
  · intro hfit x
    rw [pathLookup_iff hs hvalid, leads_iff hs]
    by_cases hshort : ∀ w ∈ words slash (path.drop 3).bytes, w.length < nameLen
    · have hscan : scan slash (nameLen - 1) (path.drop 3).bytes = words slash (path.drop 3).bytes :=
        scan_eq_words (by decide) _ (Nat.le_refl _) (fun w hw => Nat.le_sub_one_of_lt (hshort w hw))
      rw [Volume.PathLeads, hscan]
    · exact iff_of_false (hfit.resolve_left hshort x) (fun h => hshort (leadsTo_short hok h.2))

theorem split_root_iff (hs : s.vol.sectorOk) (hok : s.vol.NamesOk) (hvalid : pathValid path)
    (hone : slash ∉ (path.drop 3).bytes) :
    (∀ parent name, (pathSplit n driveNum path s.faultless).1 = .ok (parent, name) → ∀ x,
      (pathLookup n driveNum path s.faultless).1 = .ok x ↔ (smkfsLookupByName n parent name s.faultless).1 = .ok x) ↔
    ((path.drop 3).bytes = [] → ∀ x, ¬s.vol.PathLeads n driveNum path x) ∧
      ((path.drop 3).bytes ≠ [] → (path.drop 3).strlen < nameLen →
        path.byte 0 - letterA = driveNum ∨ ∀ x, ¬s.vol.HasName n s.vol.sb.rootRecordId (path.drop 3) x) := by
  have hsplit : ∀ x : Nat × CStr, (pathSplit n driveNum path s.faultless).1 = .ok x ↔
      x = (s.vol.sb.rootRecordId, path.drop 3) ∧ (path.drop 3).strlen < nameLen := fun x =>
    ok_iff (fwp_pathSplit_root n driveNum hvalid hone) (fun _ _ h h' => h.1.trans h'.1.symm) x
  have hlook := fun x => @pathLookup_iff _ n driveNum _ hs hvalid x
  have hname := fun dir name x => lookupByName_iff hs n dir name x
  constructor
  · intro hall
    refine ⟨fun hnil x hx => ?_, fun hne hlen => ?_⟩
    · have hlen : (path.drop 3).strlen < nameLen := by
        rw [CStr.strlen, hnil]
        decide
      have h := (hall _ _ ((hsplit _).2 ⟨rfl, hlen⟩) x).1 ((hlook x).2 hx)
      exact (((hname _ _ _).1 h).name_ok hok).1 hnil
    · by_cases hd : path.byte 0 - letterA = driveNum
      · exact Or.inl hd
      · refine Or.inr (fun x hx => hd ?_)
        have h := (hall _ _ ((hsplit _).2 ⟨rfl, hlen⟩) x).2 ((hname _ _ _).2 hx)
        exact ((hlook x).1 h).1
  · rintro ⟨hnil, hfit⟩ parent name hps x
    obtain ⟨heq, hlen⟩ := (hsplit _).1 hps
    obtain ⟨rfl, rfl⟩ := Prod.ext_iff.1 heq
    rw [hlook, hname]
    by_cases he : (path.drop 3).bytes = []
    · exact iff_of_false (hnil he x) (fun h => (h.name_ok hok).1 he)
    · have hscan : scan slash (nameLen - 1) (path.drop 3).bytes = [(path.drop 3).bytes] := by
        have h := @scan_short _ _ slash (nameLen - 1) _ _ (by decide) he hone (Nat.le_sub_one_of_lt hlen)
          (Or.inl rfl)
        rwa [List.append_nil, scan_nil] at h
      rw [Volume.PathLeads, hscan, leadsTo_one]
      rcases hfit he hlen with hd | hno
      · exact ⟨fun h => h.2, fun h => ⟨hd, h⟩⟩
      · exact iff_of_false (fun h => hno x h.2) (hno x)

theorem split_below_iff {c : UInt8} {q r : List UInt8} (hs : s.vol.sectorOk) (hok : s.vol.NamesOk)
    (h : path.bytes = [c, colon] ++ slash :: (q ++ slash :: r)) (hr : slash ∉ r) :
    (∀ parent name, (pathSplit n driveNum path s.faultless).1 = .ok (parent, name) → ∀ x,
      (pathLookup n driveNum path s.faultless).1 = .ok x ↔ (smkfsLookupByName n parent name s.faultless).1 = .ok x) ↔
    (r = [] → pathLen < path.strlen ∨ ∀ x, ¬s.vol.PathLeads n driveNum path x) := by
  have hvalid : pathValid path := by
    constructor
    · rw [CStr.byte, h]
      rfl
    · rw [CStr.byte, h]
      rfl
  have hrest : (path.drop 3).bytes = q ++ slash :: r := by
    have hb : (path.drop 3).bytes = path.bytes.drop 3 := rfl
    rw [hb, h]
    rfl
  have hname : (path.drop (3 + q.length + 1)).bytes = r := (take_path h).2.2.2
  have hsplit : ∀ x : Nat × CStr, (pathSplit n driveNum path s.faultless).1 = .ok x ↔
      s.vol.SplitsInto n driveNum path q x := fun x =>
    ok_iff (fwp_pathSplit_below hs n driveNum h hr)
      (fun _ _ hx hy => Prod.ext (hx.2.1.unique hy.2.1) (hx.2.2.trans hy.2.2.symm)) x
  have hlook := fun x => @pathLookup_iff _ n driveNum _ hs hvalid x
  have hfind := fun dir name x => lookupByName_iff hs n dir name x
  have hscan : scan slash (nameLen - 1) (path.drop 3).bytes =
      scan slash (nameLen - 1) q ++ scan slash (nameLen - 1) r := by
    rw [hrest]
    exact scan_append_sep (by decide) r _ (Nat.le_refl _)
  by_cases hnil : r = []
  · -- the name behind the last slash is empty, and no directory has it
    have hempty : ∀ dir x, ¬s.vol.HasName n dir (path.drop (3 + q.length + 1)) x := fun dir x hx =>
      (hx.name_ok hok).1 (hname.trans hnil)
    have hshort : (path.drop (3 + q.length + 1)).strlen < nameLen := by
      rw [CStr.strlen, hname, hnil]
      decide
    have hstrlen : path.strlen = 4 + q.length := by
      rw [CStr.strlen, h, hnil]
      simp only [List.length_append, List.length_cons, List.length_nil]
      omega
    have hleads : ∀ x, s.vol.PathLeads n driveNum path x ↔ path.byte 0 - letterA = driveNum ∧
        s.vol.LeadsTo n (scan slash (nameLen - 1) q) s.vol.sb.rootRecordId x := fun x => by
      rw [Volume.PathLeads, hscan, hnil, scan_nil, List.append_nil]
    constructor
    · intro hall _
      by_cases hlen : pathLen < path.strlen
      · exact Or.inl hlen
      · refine Or.inr (fun x hx => ?_)
        obtain ⟨hd, hto⟩ := (hleads x).1 hx
        have hps := (hsplit (x, path.drop (3 + q.length + 1))).2 ⟨⟨by omega, hshort, hd⟩, hto, rfl⟩
        exact hempty _ x ((hfind _ _ x).1 ((hall _ _ hps x).1 ((hlook x).2 hx)))
    · intro hfit parent name hps x
      obtain ⟨⟨hlen, -, hd⟩, hto, hnm⟩ := (hsplit _).1 hps
      rcases hfit hnil with hlong | hno
      · omega
      · exact absurd ((hleads parent).2 ⟨hd, hto⟩) (hno parent)
  · refine ⟨fun _ hn => absurd hn hnil, fun _ parent name hps x => ?_⟩
    obtain ⟨⟨-, hlen, hd⟩, hto, hnm⟩ := (hsplit _).1 hps
    obtain rfl : name = path.drop (3 + q.length + 1) := hnm
    rw [hlook, hfind]
    have hone : scan slash (nameLen - 1) r = [(path.drop (3 + q.length + 1)).bytes] := by
      have hfits : r.length < nameLen := by
        rw [← hname]
        exact hlen
      have hsc := @scan_short _ _ slash (nameLen - 1) _ _ (by decide) hnil hr (Nat.le_sub_one_of_lt hfits)
        (Or.inl rfl)
      rw [List.append_nil, scan_nil] at hsc
      rw [hsc, hname]
    rw [Volume.PathLeads, hscan, hone, leadsTo_append]
    constructor
    · rintro ⟨-, d, hto', hx⟩
      obtain rfl : parent = d := hto.unique hto'
      exact leadsTo_one.1 hx
    · intro hx
      exact ⟨hd, parent, hto, leadsTo_one.2 hx⟩

theorem ends_with_slash {a r : List UInt8} (hr : slash ∉ r) : (a ++ slash :: r).getLast? = some slash ↔ r = [] := by
  rw [List.getLast?_append_of_ne_nil _ (List.cons_ne_nil _ _), List.getLast?_cons]
  constructor
  · intro h
    by_contra hne
    rw [List.getLast?_eq_some_getLast hne, Option.getD_some] at h
    exact hr (Option.some.inj h ▸ List.getLast_mem hne)
  · rintro rfl
    rfl

/-- **Splitting a path agrees with looking it up** exactly for the paths that fit. -/
theorem paths_agree_iff (s : Mount) (n : Nat) (driveNum : UInt8) (path : CStr) (hs : s.vol.sectorOk)
    (hok : s.vol.NamesOk) (hvalid : pathValid path) : PathsAgree s n driveNum path ↔ PathFits s.vol n driveNum path := by
  obtain ⟨c, hbytes⟩ := valid_bytes hvalid
  have hlook := @lookup_names_iff _ n driveNum _ hs hok hvalid
  by_cases hone : slash ∈ (path.drop 3).bytes
  · obtain ⟨q, r, hqr, hr⟩ := exists_last_sep hone
    have hpath : path.bytes = [c, colon] ++ slash :: (q ++ slash :: r) := by
      rw [hbytes, hqr]
    have hends : path.bytes.getLast? = some slash ↔ r = [] := by
      rw [show path.bytes = ([c, colon, slash] ++ q) ++ slash :: r by rw [hpath]; simp]
      exact ends_with_slash hr
    have hsplit := @split_below_iff _ n driveNum _ _ _ _ hs hok hpath hr
    constructor
    · intro h
      exact ⟨fun he => hsplit.1 h.split (hends.1 he), fun hno => absurd hone hno, hlook.1 h.lookup⟩
    · intro h
      exact ⟨hsplit.2 (fun he => h.trailing (hends.2 he)), hlook.2 h.pieces⟩
  · have hends : path.bytes.getLast? = some slash ↔ (path.drop 3).bytes = [] := by
      rw [hbytes]
      exact ends_with_slash hone
    have hlen : (path.drop 3).bytes = [] → path.strlen = 3 := fun he => by
      rw [CStr.strlen, hbytes, he]
      rfl
    have hsplit := @split_root_iff _ n driveNum _ hs hok hvalid hone
    constructor
    · intro h
      obtain ⟨hroot, hdrive⟩ := hsplit.1 h.split
      exact ⟨fun he => Or.inr (hroot (hends.1 he)), fun _ => hdrive, hlook.1 h.lookup⟩
    · intro h
      refine ⟨hsplit.2 ⟨fun he => (h.trailing (hends.2 he)).resolve_left (fun hlong => ?_), h.drive hone⟩,
        hlook.2 h.pieces⟩
      rw [hlen he] at hlong
      exact absurd hlong (by decide)

end

/-! ## A path that fits, and one that does not -/

def nameB : CStr := ⟨[98], by simp⟩

def dirBlock (b : Nat) : BlockData :=
  if b = 138 then .mrt (fun i => if i = 1 then ⟨170, mrtfAllocated, 1⟩ else if i = 2 then ⟨172, mrtfAllocated, 1⟩
    else ⟨0, 0, 0⟩)
  else if b = 170 then .record ⟨1, .dir, 1, 1, 1, false⟩ [⟨.data, 0, .u64 171⟩]
  else if b = 171 then .node ⟨true, true, 0, 0, [⟨nameB, 2⟩]⟩
  else if b = 172 then .record ⟨2, .file, 0, 1, 1, false⟩ []
  else if b < 170 then .bitmap (fun _ => true)
  else .raw (fun _ => 0)

def dirDisk : Mount :=
  { blankMount ⟨mkfsLayout 8192 512, ⟨0, 0, 0, 1, false, 0⟩, ⟨0, 0, 0⟩⟩ with
    mounted := true
    dev := ⟨cacheInit { blankDrive with base := dirBlock }, cacheInit_wf _⟩ }

theorem dirDisk_view (b : Nat) : dirDisk.vol.view b = dirBlock b := by
  have hcold : ¬dirDisk.dev.1.Cached b := by
    rintro ⟨j, hj, -⟩
    cases hj
  exact Drive.content_of_uncached hcold

theorem dirDisk_namesOk : dirDisk.vol.NamesOk := by
  intro b node hnode hleaf e he
  rw [dirDisk_view, dirBlock] at hnode
  split at hnode
  · cases hnode
  split at hnode
  · cases hnode
  split at hnode
  · obtain rfl := BlockData.node.inj hnode
    obtain rfl := List.mem_singleton.1 he
    exact ⟨by decide, by decide⟩
  split at hnode
  · cases hnode
  split at hnode
  · cases hnode
  · cases hnode

/-- `A:/b` -/
def pathB : CStr := ⟨[65, 58, 47, 98], by simp⟩

/-- The file in the root directory. -/
theorem paths_agree_file : PathsAgree dirDisk 1 0 pathB := by
  refine (paths_agree_iff dirDisk 1 0 pathB rfl dirDisk_namesOk (by decide)).2 ⟨fun h => ?_, fun _ _ _ => ?_, ?_⟩
  · exact absurd h (by decide)
  · exact Or.inl (by decide)
  · exact Or.inl (by decide)

def freshMount : Mount := (smkfsMount (smkfsMkfs 16 512 (blankMount zeroMem.sb)).2).2

/-- `A:/` -/
def pathRoot : CStr := ⟨[65, 58, 47], by simp⟩

/-- On a formatted volume `A:/` is the root directory and is split into the root and the empty name, which the root does
not have. -/
theorem not_paths_agree : pathValid pathRoot ∧ ¬PathsAgree freshMount 1 0 pathRoot := by
  refine ⟨by decide, fun h => ?_⟩
  have hsplit : (pathSplit 1 0 pathRoot freshMount.faultless).1 = .ok (1, ⟨[], by simp⟩) := by decide +kernel
  have hlook : (pathLookup 1 0 pathRoot freshMount.faultless).1 = .ok 1 := by decide +kernel
  have hname : (smkfsLookupByName 1 1 ⟨[], by simp⟩ freshMount.faultless).1 = .error .notfound := by decide +kernel
  have hagree := h.split 1 _ hsplit 1
  rw [hname] at hagree
  cases hagree.1 hlook

end SmkFs
end AmitX
