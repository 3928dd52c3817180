import AmitX.Amfs.Entries
/-!
# Dirs — what a directory resolves (`dir_find_entry`, `dir_add_entry`, `dir_remove_entry`)

A name resolves to the number of the first entry with it.  `dir_add_entry` and `dir_remove_entry` leave the directory or
edit one slot of one sector of it (`AddOutcome`, `RemoveOutcome`).
-/
namespace AmitX
namespace Amfs

open Bytes

variable {v v' w : Volume} {d n : Fin 64} {i j q q' b inum : Nat} {behind behind' : Mem} {name name' : List Byte}

/-! ## The sectors of a directory -/

theorem exists_posOf (h : refAt v d q ≠ 0) : ∃ p, posOf q = some p ∧ ref v ⟨d, p⟩ = refAt v d q := by
  unfold refAt at h ⊢
  cases hp : posOf q with
  | none =>
    rw [hp] at h
    exact absurd rfl h
  | some p => exact ⟨p, rfl, rfl⟩

theorem posOf_inj {p : Pos} (h : posOf q = some p) (h' : posOf q' = some p) : q = q' := by
  unfold posOf at h h'
  split at h
  · split at h'
    · cases h
      cases h'
      rfl
    · split at h'
      · cases h
        cases h'
      · cases h'
  · split at h
    · split at h'
      · cases h
        cases h'
      · split at h'
        · cases h
          simp only [Option.some.injEq, Pos.entry.injEq, Fin.mk.injEq] at h'
          omega
        · cases h'
    · cases h

theorem pos_ne_table {p : Pos} (h : posOf q = some p) : p ≠ .table := by
  rintro rfl
  unfold posOf at h
  split at h
  · cases h
  · split at h
    · cases h
    · cases h

theorem Sound.refAt_inj (h : Sound v) (h0 : refAt v d q ≠ 0) (he : refAt v d q = refAt v d q') : q = q' := by
  obtain ⟨p, hp, href⟩ := exists_posOf h0
  obtain ⟨p', hp', href'⟩ := exists_posOf (he ▸ h0)
  have hs := h.slots.once ⟨d, p⟩ ⟨d, p'⟩ (href ▸ h0) (by rw [href, href', he])
  simp only [Slot.mk.injEq, true_and] at hs
  exact posOf_inj hp (hs ▸ hp')

theorem refAt_of_refs (h : ∀ p, posOf q = some p → ref w ⟨d, p⟩ = ref v ⟨d, p⟩) : refAt w d q = refAt v d q := by
  unfold refAt
  cases hp : posOf q with
  | none => rfl
  | some p => exact h p hp

theorem Assigned.refAt_ne {s : Slot} (ha : Assigned v w s b) (hs : ∀ p, posOf q = some p → (⟨d, p⟩ : Slot) ≠ s) :
    refAt w d q = refAt v d q :=
  refAt_of_refs (fun p hp => by rw [ha.refs, Function.update_of_ne (hs p hp)])

theorem Given.refAt_ne {s : Slot} {r : Nat × Volume} (hg : Given v s r)
    (hs : ∀ p, posOf q = some p → (⟨d, p⟩ : Slot) ≠ s) : refAt r.2 d q = refAt v d q := by
  cases hg with
  | there h0 => rfl
  | full h0 hfull => rfl
  | fresh ha => exact ha.refAt_ne hs

theorem posOf_direct (hq : q < 10) : posOf q = some (.direct ⟨q, hq⟩) := dif_pos hq

theorem posOf_entry (hq : 10 ≤ q) (hk : q - 10 < 128) : posOf q = some (.entry ⟨q - 10, hk⟩) := by
  unfold posOf
  rw [dif_neg (by omega), dif_pos hk]

theorem Taken.refAt_ne {r : Nat × Volume} (ht : Taken v d q r) (hq : q' ≠ q) : refAt r.2 d q' = refAt v d q' := by
  have hslot : ∀ {p₀ : Pos}, posOf q = some p₀ → ∀ p, posOf q' = some p → (⟨d, p⟩ : Slot) ≠ ⟨d, p₀⟩ := by
    intro p₀ hp₀ p hp he
    simp only [Slot.mk.injEq, true_and] at he
    exact hq (posOf_inj hp (he ▸ hp₀))
  cases ht with
  | direct hlt hg => exact hg.refAt_ne (hslot (posOf_direct hlt))
  | none h138 => rfl
  | entry hle hk hg =>
    have hp₀ := posOf_entry hle hk
    cases hg with
    | given hg => exact hg.refAt_ne (hslot hp₀)
    | leak h0 hl => exact refAt_of_refs (fun p _ => hl.refs _)
    | both h1 h2 =>
      rw [h2.refAt_ne (hslot hp₀)]
      apply h1.refAt_ne
      intro p hp he
      simp only [Slot.mk.injEq, true_and] at he
      exact pos_ne_table hp he

theorem Taken.refs_of_failed {r : Nat × Volume} (ht : Taken v d q r) (h0 : r.1 = 0) (s : Slot) :
    Amfs.ref r.2 s = Amfs.ref v s := by
  have hgiven : ∀ {s₀ : Slot}, Given v s₀ r → Amfs.ref r.2 s = Amfs.ref v s := by
    intro s₀ hg
    cases hg with
    | there h => rfl
    | full h hfull => rfl
    | fresh ha => omega
  cases ht with
  | direct hlt hg => exact hgiven hg
  | none h138 => rfl
  | entry hle hk hg =>
    cases hg with
    | given hg => exact hgiven hg
    | leak h hl => exact hl.refs s
    | both h1 h2 => omega

/-! ## What a directory resolves -/

/-- What a search sees in slot `i`. -/
def slotEntry (behind : Mem) (v : Volume) (d i : Nat) : Option (List Byte × Nat) :=
  if slotSector v d i = 0 then none else entryOf (readSector behind v (slotSector v d i)) (slotOffset i)

/-- The number that a search for `name` takes from an entry. -/
def hit (name : List Byte) (e : Option (List Byte × Nat)) : Option Nat :=
  e.bind (fun e => if e.1 = name then some e.2 else none)

/-- The inode number that `dir_find_entry` gives. -/
def resolve (behind : Mem) (v : Volume) (d : Nat) (name : List Byte) : Option Nat :=
  (dirFindEntry behind v d name).map Prod.fst

theorem hit_none (name : List Byte) : hit name none = none := rfl

theorem hit_self (name : List Byte) (x : Nat) : hit name (some (name, x)) = some x := if_pos rfl

theorem hit_ne (h : name' ≠ name) (x : Nat) : hit name (some (name', x)) = none := if_neg h

theorem matchAt_eq (hn : IsName name) (behind : Mem) (v : Volume) (d i : Nat) :
    matchAt behind v d name i = (hit name (slotEntry behind v d i)).map (fun x => (x, i)) := by
  unfold matchAt slotEntry
  by_cases h0 : slotSector v d i = 0
  · rw [if_pos h0, if_pos h0]
    rfl
  · rw [if_neg h0, if_neg h0]
    dsimp only
    by_cases hfree : entryInode (readSector behind v (slotSector v d i)) (slotOffset i) = 0
    · rw [if_neg (fun h => h.1 hfree), entryOf_free hfree]
      rfl
    · rw [entryOf_live hfree]
      by_cases hname : entryName (readSector behind v (slotSector v d i)) (slotOffset i) = name
      · rw [if_pos ⟨hfree, (strcmp_iff_cstr hn).2 hname⟩, hname, hit_self]
        rfl
      · rw [if_neg (fun h => hname ((strcmp_iff_cstr hn).1 h.2)), hit_ne hname]
        rfl

theorem resolve_eq (hn : IsName name) (behind : Mem) (v : Volume) (d : Nat) :
    resolve behind v d name = if (inodeRead v d).type ≠ typeDir then none
      else (List.range (entries v d)).findSome? (fun i => hit name (slotEntry behind v d i)) := by
  unfold resolve dirFindEntry
  split
  · rfl
  · rw [List.map_findSome?]
    congr 1
    funext i
    rw [Function.comp_apply, matchAt_eq hn]
    cases hit name (slotEntry behind v d i) with
    | none => rfl
    | some x => rfl

/-! ## Blocks that stay -/

/-- Block `q` of a directory is what it was. -/
def SameBlock (v w : Volume) (d q : Nat) : Prop :=
  refAt w d q = refAt v d q ∧ (refAt v d q ≠ 0 → w.disk (refAt v d q) = v.disk (refAt v d q))

theorem SameBlock.refl (v : Volume) (d q : Nat) : SameBlock v v d q := ⟨rfl, fun _ => rfl⟩

theorem SameBlock.trans {d : Nat} (h : SameBlock v v' d q) (h' : SameBlock v' w d q) : SameBlock v w d q := by
  constructor
  · rw [h'.1, h.1]
  · intro h0
    have hdisk := h'.2 (h.1 ▸ h0)
    rw [h.1] at hdisk
    rw [hdisk, h.2 h0]

theorem SameBlock.slotEntry {d : Nat} (h : SameBlock v w d (i / 16)) (behind : Mem) :
    slotEntry behind w d i = slotEntry behind v d i := by
  unfold Amfs.slotEntry readSector
  rw [slotSector_eq, slotSector_eq, h.1]
  by_cases h0 : refAt v d (i / 16) = 0
  · rw [if_pos h0, if_pos h0]
  · rw [if_neg h0, if_neg h0, h.2 h0]

theorem Alike.sameBlock (h : Alike v w) (d q : Nat) : SameBlock v w d q := by
  have hsector : refAt w d q = refAt v d q := by
    unfold refAt
    rw [h.inodeRead, h.disk]
  exact ⟨hsector, fun _ => by rw [h.disk]⟩

theorem Kept.refAt (hk : Kept v w) (h0 : refAt v d q ≠ 0) :
    refAt w d q = refAt v d q ∧ w.disk (Amfs.refAt v d q) = v.disk (Amfs.refAt v d q) := by
  obtain ⟨p, hp, href⟩ := exists_posOf h0
  have hne : ref v ⟨d, p⟩ ≠ 0 := href ▸ h0
  constructor
  · rw [← href, ← hk.refs _ hne]
    unfold Amfs.refAt
    rw [hp]
    rfl
  · rw [← href]
    exact hk.data _ hne (pos_ne_table hp)

theorem Taken.sameBlock {r : Nat × Volume} (h : Sound v) (hd : typeOf v d ≠ typeFree) (ht : Taken v d q r)
    (hq : q' ≠ q) : SameBlock v r.2 d q' :=
  ⟨ht.refAt_ne hq, fun h0 => ((ht.kept h hd).1.refAt h0).2⟩

theorem Taken.sameBlock_of_failed {r : Nat × Volume} (h : Sound v) (hd : typeOf v d ≠ typeFree) (ht : Taken v d q r)
    (h0 : r.1 = 0) (q' : Nat) : SameBlock v r.2 d q' :=
  ⟨refAt_of_refs (fun _ _ => ht.refs_of_failed h0 _), fun h0 => ((ht.kept h hd).1.refAt h0).2⟩

theorem Sound.sameBlock_write (h : Sound v) (h0 : refAt v d q ≠ 0) (hq : q' ≠ q) (buf : Mem) :
    SameBlock v (writeSector v (refAt v d q) buf) d q' := by
  constructor
  · exact refAt_of_refs (fun _ _ => (h.same_slot h0 buf).refs _)
  · intro h0'
    apply disk_writeSector_ne
    intro he
    exact hq (h.refAt_inj h0' he)

theorem Sound.refAt_write (h : Sound v) (h0 : refAt v d q ≠ 0) (buf : Mem) :
    refAt (writeSector v (refAt v d q) buf) d q = refAt v d q :=
  refAt_of_refs (fun _ _ => (h.same_slot h0 buf).refs _)

theorem Sound.sameBlock_growDir (h : Sound v) (d : Fin 64) (q : Nat) : SameBlock v (growDir v d) d q := by
  constructor
  · exact refAt_of_refs (fun _ _ => (h.same_setSize d _).refs _)
  · intro h0
    exact h.geometry.disk_inodeWrite d _ (h.refAt_area h0)

/-! ## `dir_add_entry` -/

theorem Taken.refAt_of_failed {r : Nat × Volume} (ht : Taken v d q r) (h0 : r.1 = 0) : refAt v d q = 0 := by
  cases ht with
  | direct hlt hg =>
    rw [refAt_direct hlt]
    cases hg with
    | there h => exact h0
    | full h hfull => exact h
    | fresh ha => omega
  | none h138 =>
    unfold refAt posOf
    rw [dif_neg (by omega), dif_neg (by omega)]
    rfl
  | entry hle hk hg =>
    rw [refAt_entry hle hk]
    cases hg with
    | given hg =>
      cases hg with
      | there h => exact h0
      | full h hfull => exact h
      | fresh ha => omega
    | leak h hl => exact ref_entry_of_table h _
    | both h1 h2 => omega

theorem addSlot_le (behind : Mem) (v : Volume) (d : Nat) : addSlot behind v d ≤ entries v d := by
  unfold addSlot
  cases hf : (List.range (entries v d)).find? (freeAt behind v d) with
  | none => exact Nat.le_refl _
  | some i => exact Nat.le_of_lt (List.mem_range.1 (List.mem_of_find?_eq_some hf))

theorem freeAt_addSlot {d : Nat} (h : addSlot behind v d < entries v d) :
    freeAt behind v d (addSlot behind v d) = true := by
  unfold addSlot at h ⊢
  cases hf : (List.range (entries v d)).find? (freeAt behind v d) with
  | none =>
    rw [hf] at h
    exact absurd h (Nat.lt_irrefl _)
  | some i => exact List.find?_some hf

structure Idle (v w : Volume) (d : Fin 64) : Prop where
  type : (inodeRead w d).type = (inodeRead v d).type
  entries : entries w d = entries v d
  block : ∀ q, SameBlock v w d q
  outside : w.faults.count .outside = v.faults.count .outside

theorem Idle.refl (v : Volume) (d : Fin 64) : Idle v v d := ⟨rfl, rfl, .refl v d, rfl⟩

/-- The sector of slot `i` is read, edited and written. -/
structure Edited (v w : Volume) (d : Fin 64) (i : Nat) (f : Mem → Mem) : Prop where
  type : (inodeRead w d).type = (inodeRead v d).type
  sector : refAt w d (i / 16) ≠ 0
  edit : ∃ m : Mem, w.disk (refAt w d (i / 16)) = f m ∧
    (refAt v d (i / 16) ≠ 0 → ∀ k < 512, m k = v.disk (refAt v d (i / 16)) k)
  other : ∀ q, q ≠ i / 16 → SameBlock v w d q

theorem count_noteEntry (v : Volume) (n : Fin 64) (g : Geometry v) (o : Nat) :
    ((v.touch n).noteEntry o).faults.count .outside =
      v.faults.count .outside + if o + 34 ≤ 512 then 0 else 1 := by
  rw [g.touch]
  unfold Volume.noteEntry
  by_cases ho : o + 34 ≤ 512
  · rw [if_pos ho, if_pos ho]
    rfl
  · rw [if_neg ho, if_neg ho]
    exact List.count_cons_self

theorem entries_growDir (d : Fin 64) (h : (inodeRead v d).size + 32 < 2 ^ 32) :
    entries (growDir v d) d = entries v d + 1 := by
  unfold entries growDir
  have hsize : (inodeRead (inodeWrite v d ((inodeRead v d).setSize ((inodeRead v d).size + 32))) d).size =
      (inodeRead v d).size + 32 := (load_inodeWrite d (by omega)).trans (Inode.size_setSize h)
  rw [hsize]
  omega

theorem faults_growDir (g : Geometry v) (d : Fin 64) : (growDir v d).faults = v.faults := g.faults_inodeWrite d _

theorem type_growDir (v : Volume) (d : Fin 64) : (inodeRead (growDir v d) d).type = (inodeRead v d).type :=
  (load_inodeWrite d (by omega)).trans Inode.type_setSize

theorem refAt_lt (h : refAt v d q ≠ 0) : q < 138 := by
  by_contra hq
  unfold refAt posOf at h
  rw [dif_neg (by omega), dif_neg (by omega)] at h
  exact h rfl

def outsideOf (i : Nat) : Nat := if slotOffset i + 34 ≤ 512 then 0 else 1

theorem edited_write {r : Nat × Volume} (h : Sound v) (hd : typeOf v d ≠ typeFree) (ht : Taken v d (i / 16) r)
    (h0 : r.1 ≠ 0) (behind : Mem) (f : Mem → Mem) {w : Volume}
    (hw : w = writeSector ((r.2.touch d).noteEntry (slotOffset i)) r.1 (f (readSector behind r.2 r.1))) :
    Edited v w d i f ∧ Sound w ∧ (inodeRead w d).size = (inodeRead v d).size ∧
      w.faults.count .outside = v.faults.count .outside + outsideOf i := by
  obtain ⟨hk, hr⟩ := ht.kept h hd
  have href : refAt r.2 d (i / 16) = r.1 := ht.ref h0
  have h0' : refAt r.2 d (i / 16) ≠ 0 := href.symm ▸ h0
  have ha : Alike (writeSector r.2 (refAt r.2 d (i / 16)) (f (readSector behind r.2 r.1))) w := by
    rw [hw, href]
    exact ((Alike.touch r.2 d).trans (.noteEntry _ _)).writeSector _ _
  have hsame := hr.same_slot h0' (f (readSector behind r.2 r.1))
  have hsector : refAt w d (i / 16) = r.1 := by
    rw [(ha.sameBlock d _).1, hr.refAt_write h0', href]
  refine ⟨⟨?_, ?_, ?_, ?_⟩, ?_, ?_, ?_⟩
  · have htype := (hsame.trans ha.same).types d
    rw [hk.types] at htype
    exact htype
  · rwa [hsector]
  · refine ⟨readSector behind r.2 r.1, ?_, fun hv k hk512 => ?_⟩
    · rw [hsector, hw]
      exact disk_writeSector ..
    · have hdata := hk.refAt hv
      rw [readSector_of_lt hk512, ← href, hdata.1, hdata.2]
  · intro q hq
    exact ((ht.sameBlock h hd hq).trans (hr.sameBlock_write h0' hq _)).trans (ha.sameBlock d q)
  · exact (hsame.trans ha.same).sound hr
  · have hlt := hr.geometry.sector_lt d
    have hge := hr.refAt_area h0'
    rw [ha.inodeRead, inodeRead_writeSector (by omega), hk.sizes]
  · rw [hw, faults_writeSector, count_noteEntry r.2 d hr.geometry, hk.outside]
    rfl

theorem Edited.growDir {f : Mem → Mem} (he : Edited v w d i f) (h : Sound w) : Edited v (growDir w d) d i f := by
  have hgrow := h.sameBlock_growDir d
  constructor
  · rw [type_growDir, he.type]
  · rw [(hgrow _).1]
    exact he.sector
  · obtain ⟨m, hdisk, hm⟩ := he.edit
    exact ⟨m, by rw [(hgrow _).1, (hgrow _).2 he.sector, hdisk], hm⟩
  · intro q hq
    exact (he.other q hq).trans (hgrow q)

/-- What `dir_add_entry` does: it leaves the directory, or puts an entry in the slot that it has found. -/
inductive AddOutcome (behind : Mem) (v : Volume) (d : Fin 64) (name : List Byte) (inum : Nat) :
    Bool × Volume → Prop
  | idle {w : Volume} (h : Idle v w d) (why : 30 ≤ name.length ∨ (inodeRead v d).type ≠ typeDir ∨
      (dirFindEntry behind v d name).isSome = true ∨ refAt v d (addSlot behind v d / 16) = 0) :
    AddOutcome behind v d name inum (false, w)
  | put {w : Volume} (type : (inodeRead v d).type = typeDir) (new : dirFindEntry behind v d name = none)
      (edited : Edited v w d (addSlot behind v d)
        (fun m => putEntry m (slotOffset (addSlot behind v d)) name inum))
      (entries : entries w d = max (entries v d) (addSlot behind v d + 1))
      (outside : w.faults.count .outside = v.faults.count .outside + outsideOf (addSlot behind v d)) :
    AddOutcome behind v d name inum (true, w)

theorem dirAddEntry_outcome (h : Sound v) (d : Fin 64) (behind : Mem) (name : List Byte) (inum : Nat) :
    AddOutcome behind v d name inum (dirAddEntry behind v d name inum) := by
  unfold dirAddEntry
  by_cases hlen : 30 ≤ name.length
  · rw [if_pos hlen]
    exact .idle (.refl v d) (.inl hlen)
  rw [if_neg hlen]
  by_cases htype : (inodeRead v d).type ≠ typeDir
  · rw [if_pos htype]
    exact .idle (.refl v d) (.inr (.inl htype))
  rw [if_neg htype]
  by_cases hfound : (dirFindEntry behind v d name).isSome = true
  · rw [if_pos hfound]
    exact .idle (.refl v d) (.inr (.inr (.inl hfound)))
  rw [if_neg hfound]
  have hdir : typeOf v d = typeDir := not_not.1 htype
  have hd : typeOf v d ≠ typeFree := by
    rw [hdir]
    decide
  have hq : 32 * addSlot behind v d / 512 = addSlot behind v d / 16 := by omega
  have ht := blockForOffset_taken h hd (32 * addSlot behind v d)
  rw [hq] at ht
  have hle := addSlot_le behind v d
  dsimp only
  generalize blockForOffset v d (32 * addSlot behind v d) true = r at ht ⊢
  by_cases h0 : r.1 = 0
  · rw [if_pos h0]
    obtain ⟨hk, -⟩ := ht.kept h hd
    have hentries : entries r.2 d = entries v d := by
      unfold entries
      rw [hk.sizes]
    exact .idle ⟨hk.types d, hentries, ht.sameBlock_of_failed h hd h0, hk.outside⟩
      (.inr (.inr (.inr (ht.refAt_of_failed h0))))
  · rw [if_neg h0]
    generalize hw : writeSector ((r.2.touch d).noteEntry (slotOffset (addSlot behind v d))) r.1
      (putEntry (readSector behind r.2 r.1) (slotOffset (addSlot behind v d)) name inum) = w
    obtain ⟨hedit, hsound, hsize, hcount⟩ := edited_write h hd ht h0 behind
      (fun m => putEntry m (slotOffset (addSlot behind v d)) name inum) hw.symm
    have hentries : entries w d = entries v d := by
      unfold entries
      rw [hsize]
    have hnew := Option.not_isSome_iff_eq_none.1 hfound
    by_cases hlast : addSlot behind v d = entries v d
    · rw [if_pos hlast]
      have hlt := refAt_lt hedit.sector
      have hroom : (inodeRead w d).size + 32 < 2 ^ 32 := by
        unfold entries at hlast
        omega
      refine .put hdir hnew (hedit.growDir hsound) ?_ ?_
      · rw [entries_growDir d hroom, hentries]
        omega
      · rw [faults_growDir hsound.geometry, hcount]
    · rw [if_neg hlast]
      refine .put hdir hnew hedit ?_ hcount
      rw [hentries]
      omega

/-! ## `dir_remove_entry` -/

/-- What `dir_remove_entry` does: it finds no entry, or clears the one that it has found. -/
inductive RemoveOutcome (behind : Mem) (v : Volume) (d : Fin 64) (name : List Byte) : Bool × Volume → Prop
  | idle (h : dirFindEntry behind v d name = none) : RemoveOutcome behind v d name (false, v)
  | clear {w : Volume} {x i : Nat} (found : dirFindEntry behind v d name = some (x, i)) (lt : i < entries v d)
      (hit : matchAt behind v d name i = some (x, i)) (edited : Edited v w d i (fun m => clearEntry m (slotOffset i)))
      (entries : entries w d = entries v d) (outside : w.faults = v.faults) : RemoveOutcome behind v d name (true, w)

theorem dirFindEntry_some {d x i : Nat} (h : dirFindEntry behind v d name = some (x, i)) :
    (inodeRead v d).type = typeDir ∧ i < entries v d ∧ matchAt behind v d name i = some (x, i) := by
  unfold dirFindEntry at h
  split at h
  · cases h
  · rename_i htype
    obtain ⟨j, hj, hm⟩ := List.exists_of_findSome?_eq_some h
    have hji : j = i := by
      unfold matchAt at hm
      dsimp only at hm
      split at hm
      · cases hm
      · split at hm
        · injection hm with hm
          exact (Prod.mk.injEq .. ▸ hm).2
        · cases hm
    rw [hji] at hm hj
    exact ⟨not_not.1 htype, List.mem_range.1 hj, hm⟩

theorem dirRemoveEntry_outcome (h : Sound v) (d : Fin 64) (behind : Mem) (name : List Byte) :
    RemoveOutcome behind v d name (dirRemoveEntry behind v d name) := by
  unfold dirRemoveEntry
  cases hf : dirFindEntry behind v d name with
  | none => exact .idle hf
  | some r =>
    obtain ⟨x, i⟩ := r
    obtain ⟨htype, hi, hm⟩ := dirFindEntry_some hf
    have hd : typeOf v d ≠ typeFree := by
      rw [typeOf, htype]
      decide
    have h0 : refAt v d (i / 16) ≠ 0 := by
      intro h0
      unfold matchAt at hm
      rw [slotSector_eq, if_pos h0] at hm
      cases hm
    dsimp only
    rw [slotSector_eq, if_neg h0]
    generalize hw : writeSector (v.touch d) (refAt v d (i / 16))
      (store (store (readSector behind v (refAt v d (i / 16))) (slotOffset i) 4 0) (slotOffset i + 4) 1 0) = w
    rw [h.geometry.touch] at hw
    have hsame := h.same_slot h0 (clearEntry (readSector behind v (refAt v d (i / 16))) (slotOffset i))
    have hread : inodeRead w d = inodeRead v d := by
      have hlt := h.geometry.sector_lt d
      have hge := h.refAt_area h0
      rw [← hw]
      exact inodeRead_writeSector (by omega)
    refine .clear hf hi hm ⟨by rw [hread], ?_, ?_, ?_⟩ (by rw [entries, hread]; rfl) (by rw [← hw]; rfl)
    · rw [← hw, h.refAt_write h0]
      exact h0
    · refine ⟨readSector behind v (refAt v d (i / 16)), ?_, fun _ k hk => readSector_of_lt hk⟩
      rw [← hw, h.refAt_write h0, disk_writeSector]
      rfl
    · intro q hq
      rw [← hw]
      exact h.sameBlock_write h0 hq _

end Amfs
end AmitX
