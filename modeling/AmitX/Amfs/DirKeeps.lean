import AmitX.Amfs.Dirs
/-!
# DirKeeps — which names still resolve after `dir_add_entry` and `dir_remove_entry`

An entry is 34 bytes, and the slots are 32 bytes apart.  So an entry that is put writes the number of the slot behind it
and the name of the slot before it, and in the last slot of a sector two bytes behind the buffer.  The other names keep
their numbers if what is written there is there already (`AddFits`, `RemoveFits`).
-/
namespace AmitX
namespace Amfs

open Bytes

variable {v w : Volume} {d : Fin 64} {i j inum : Nat} {b b' b'' : Mem} {name name' : List Byte} {f : Mem → Mem}

/-! ## Searches -/

section

variable {α : Type} {g g' : Nat → Option α} {k n : Nat}

theorem search_congr (h : ∀ j < n, g' j = g j) : (List.range n).findSome? g' = (List.range n).findSome? g := by
  induction n with
  | zero => rfl
  | succ n ih =>
    rw [List.range_succ, List.findSome?_append, List.findSome?_append, ih (fun j hj => h j (by omega)),
      List.findSome?_singleton, List.findSome?_singleton, h n (Nat.lt_succ_self n)]

theorem search_extend (hnk : n ≤ k) (h : ∀ j, n ≤ j → j < k → g j = none) :
    (List.range k).findSome? g = (List.range n).findSome? g := by
  induction k with
  | zero =>
    rw [Nat.le_zero.1 hnk]
  | succ k ih =>
    by_cases hk : n = k + 1
    · rw [hk]
    · rw [List.range_succ, List.findSome?_append, ih (by omega) (fun j h1 h2 => h j h1 (by omega)),
        List.findSome?_singleton, h k (by omega) (Nat.lt_succ_self k), Option.or_none]

theorem search_single (hi : i < n) (h : ∀ j < n, j ≠ i → g j = none) : (List.range n).findSome? g = g i := by
  have hshort : (List.range n).findSome? g = (List.range (i + 1)).findSome? g :=
    search_extend hi (fun j h1 h2 => h j h2 (by omega))
  have hnone : (List.range i).findSome? g = none :=
    List.findSome?_eq_none_iff.2 (fun j hj => by
      have hlt := List.mem_range.1 hj
      exact h j (by omega) (by omega))
  rw [hshort, List.range_succ, List.findSome?_append, hnone, List.findSome?_singleton, Option.none_or]

end

/-! ## When a call leaves the other entries -/

/-- The inode number in slot `i`, whether its entry is free or not. -/
def number (v : Volume) (d i : Nat) : Nat := load (v.disk (slotSector v d i)) (slotOffset i) 4

/-- No entry in the last slot of a sector has a name that goes on behind the sector. -/
def Inside (behind : Mem) (v : Volume) (d : Nat) : Prop :=
  ∀ i < entries v d, i % 16 = 15 → ∀ e, slotEntry behind v d i = some e → e.1.length < 28

/-- An entry can be put in slot `i` and leaves the entries around it. -/
structure PutFits (behind : Mem) (v : Volume) (d i : Nat) (name : List Byte) (inum : Nat) : Prop where
  last : i % 16 ≠ 15
  block : i % 16 ≠ 0 → slotSector v d i ≠ 0
  next : i + 1 < entries v d → number v d (i + 1) % 65536 = (ofList name 28).toNat
  prev : i % 16 ≠ 0 → ∀ e, slotEntry behind v d (i - 1) = some e → 28 ≤ e.1.length → number v d i % 65536 = inum

/-- **When `dir_add_entry` leaves the other entries.** -/
def AddFits (behind : Mem) (v : Volume) (d : Nat) (name : List Byte) (inum : Nat) : Prop :=
  Inside behind v d ∧ ((inodeRead v d).type = typeDir → dirFindEntry behind v d name = none →
    PutFits behind v d (addSlot behind v d) name inum)

/-- **When `dir_remove_entry` leaves the other entries.** -/
def RemoveFits (behind : Mem) (v : Volume) (d : Nat) (name : List Byte) : Prop :=
  Inside behind v d ∧ ∀ x i, dirFindEntry behind v d name = some (x, i) → i % 16 ≠ 0 →
    ∀ e, slotEntry behind v d (i - 1) = some e → 28 ≤ e.1.length → x % 256 = 0

/-- After a call that gave `r`, every name but `name` resolves as before, and no byte behind a buffer is written. -/
structure OthersKept (b b'' : Mem) (v : Volume) (d : Nat) (name : List Byte) (w : Volume) : Prop where
  others : ∀ name', IsName name' → name' ≠ name → resolve b'' w d name' = resolve b v d name'
  outside : w.faults.count .outside = v.faults.count .outside

/-- What `dir_add_entry` should do. -/
structure AddKeeps (b b' b'' : Mem) (v : Volume) (d : Nat) (name : List Byte) (inum : Nat) : Prop where
  kept : OthersKept b b'' v d name (dirAddEntry b' v d name inum).2
  added : (dirAddEntry b' v d name inum).1 = true → resolve b'' (dirAddEntry b' v d name inum).2 d name = some inum

/-- What `dir_remove_entry` should do. -/
def RemoveKeeps (b b' b'' : Mem) (v : Volume) (d : Nat) (name : List Byte) : Prop :=
  OthersKept b b'' v d name (dirRemoveEntry b' v d name).2

/-! ## Slots that stay -/

theorem slotOffset_eq (i : Nat) : slotOffset i = 32 * (i % 16) := by
  unfold slotOffset
  omega

theorem slotOffset_le (i : Nat) : slotOffset i ≤ 480 := by
  rw [slotOffset_eq]
  omega

theorem slotEntry_behind {d : Nat} (h : i % 16 = 15 → ∀ e, slotEntry b v d i = some e → e.1.length < 28) (b'' : Mem) :
    slotEntry b'' v d i = slotEntry b v d i := by
  unfold slotEntry at h ⊢
  by_cases h0 : slotSector v d i = 0
  · rw [if_pos h0, if_pos h0]
  · rw [if_neg h0] at h
    rw [if_neg h0, if_neg h0]
    apply entryOf_behind
    · intro k hk
      rw [readSector_of_lt hk, readSector_of_lt hk]
    · exact slotOffset_le i
    · by_cases hlast : i % 16 = 15
      · exact .inr (h hlast)
      · refine .inl ?_
        rw [slotOffset_eq]
        omega

theorem Inside.slotEntry {d : Nat} (h : Inside b v d) (hi : i < entries v d) (b'' : Mem) :
    slotEntry b'' v d i = slotEntry b v d i :=
  slotEntry_behind (h i hi) b''

theorem Inside.of_behind {d : Nat} (h : Inside b v d) (b'' : Mem) : Inside b'' v d := by
  intro i hi hlast e he
  rw [h.slotEntry hi] at he
  exact h i hi hlast e he

theorem Inside.resolve {d : Nat} (h : Inside b v d) (hn : IsName name) (b'' : Mem) :
    resolve b'' v d name = resolve b v d name := by
  rw [resolve_eq hn, resolve_eq hn]
  congr 1
  apply search_congr
  intro j hj
  rw [h.slotEntry hj]

theorem slotEntry_buffer {d : Nat} {m : Mem} (hq : j / 16 = i / 16) (h0 : refAt v d (i / 16) ≠ 0)
    (hm : ∀ k < 512, m k = v.disk (refAt v d (i / 16)) k)
    (hlast : j % 16 = 15 → ∀ e, entryOf m (slotOffset j) = some e → e.1.length < 28) (b : Mem) :
    slotEntry b v d j = entryOf m (slotOffset j) := by
  unfold slotEntry
  rw [slotSector_eq, hq, if_neg h0]
  apply entryOf_behind
  · intro k hk
    rw [readSector_of_lt hk, hm k hk]
  · exact slotOffset_le j
  · by_cases h15 : j % 16 = 15
    · exact .inr (hlast h15)
    · refine .inl ?_
      rw [slotOffset_eq]
      omega

/-- The buffer of a sector, before and after it is edited. -/
structure Buffer (v w : Volume) (d : Fin 64) (i : Nat) (f : Mem → Mem) (m : Mem) : Prop where
  before : ∀ k < 512, m k = v.disk (refAt v d (i / 16)) k
  after : ∀ k < 512, f m k = w.disk (refAt w d (i / 16)) k

theorem Edited.buffer (he : Edited v w d i f) (h0 : refAt v d (i / 16) ≠ 0) : ∃ m, Buffer v w d i f m := by
  obtain ⟨m, hdisk, hm⟩ := he.edit
  exact ⟨m, hm h0, fun k _ => by rw [hdisk]⟩

theorem entryOf_buffer {d : Nat} {m : Mem} (hq : j / 16 = i / 16) (h0 : refAt v d (i / 16) ≠ 0)
    (hm : ∀ k < 512, m k = v.disk (refAt v d (i / 16)) k)
    (hlast : j % 16 = 15 → ∀ e, slotEntry b v d j = some e → e.1.length < 28) :
    entryOf m (slotOffset j) = slotEntry b v d j := by
  unfold slotEntry at hlast ⊢
  rw [slotSector_eq, hq, if_neg h0] at hlast
  rw [slotSector_eq, hq, if_neg h0]
  apply entryOf_behind
  · intro k hk
    rw [hm k hk, readSector_of_lt hk]
  · exact slotOffset_le j
  · by_cases h15 : j % 16 = 15
    · exact .inr (hlast h15)
    · refine .inl ?_
      rw [slotOffset_eq]
      omega

theorem Edited.slotEntry_near (he : Edited v w d i f) (hq : j / 16 = i / 16) (h0 : refAt v d (i / 16) ≠ 0)
    (hlast : j % 16 = 15 → ∀ e, slotEntry b v d j = some e → e.1.length < 28)
    (hf : ∀ m : Mem, (∀ k < 512, m k = v.disk (refAt v d (i / 16)) k) →
      entryOf m (slotOffset j) = slotEntry b v d j → entryOf (f m) (slotOffset j) = entryOf m (slotOffset j))
    (b'' : Mem) : slotEntry b'' w d j = slotEntry b v d j := by
  obtain ⟨m, hm⟩ := he.buffer h0
  have hbefore := entryOf_buffer hq h0 hm.before hlast
  have hedit := hf m hm.before hbefore
  rw [← hbefore, ← hedit]
  apply slotEntry_buffer hq he.sector hm.after
  intro h15
  rw [hedit, hbefore]
  exact hlast h15

theorem Edited.slotEntry_far (he : Edited v w d i f) (hq : j / 16 ≠ i / 16)
    (hlast : j % 16 = 15 → ∀ e, slotEntry b v d j = some e → e.1.length < 28) (b'' : Mem) :
    slotEntry b'' w d j = slotEntry b v d j := by
  rw [(he.other _ hq).slotEntry, slotEntry_behind hlast]

theorem number_eq {d : Nat} {m : Mem} (hq : j / 16 = i / 16) (hm : ∀ k < 512, m k = v.disk (refAt v d (i / 16)) k) :
    number v d j = load m (slotOffset j) 4 := by
  have hle := slotOffset_le j
  unfold number
  rw [slotSector_eq, hq]
  apply load_congr
  intro k h1 h2
  rw [hm k (by omega)]

/-! ## An entry is put -/

theorem Edited.slotEntry_put_ne (he : Edited v w d i (fun m => putEntry m (slotOffset i) name inum)) (hn : IsName name)
    (h64 : inum < 64) (hin : Inside b v d) (h0 : j / 16 = i / 16 → refAt v d (i / 16) ≠ 0)
    (hnext : j = i + 1 → number v d j % 65536 = (ofList name 28).toNat)
    (hprev : i % 16 ≠ 0 → j + 1 = i → ∀ e, slotEntry b v d j = some e → 28 ≤ e.1.length →
      number v d i % 65536 = inum)
    (hj : j < entries v d) (hne : j ≠ i) (b'' : Mem) : slotEntry b'' w d j = slotEntry b v d j := by
  by_cases hq : j / 16 = i / 16
  · refine he.slotEntry_near hq (h0 hq) (hin j hj) (fun m hm hread => ?_) b''
    have hoi := slotOffset_eq i
    have hoj := slotOffset_eq j
    by_cases hji : j = i + 1
    · have hnum := hnext hji
      have ho : slotOffset j = slotOffset i + 32 := by omega
      rw [number_eq hq hm, ho] at hnum
      rw [ho]
      exact entryOf_putEntry_behind hn hnum
    · by_cases hij : j + 1 = i
      · have ho : slotOffset i = slotOffset j + 32 := by omega
        rw [ho]
        apply entryOf_putEntry_before (by omega)
        intro hlive hlong
        rw [entryOf_live hlive] at hread
        have hnum := hprev (by omega) hij _ hread.symm (longAt_iff.1 hlong)
        rw [number_eq rfl hm, ho] at hnum
        rw [hnum]
        omega
      · exact entryOf_putEntry_ne (by omega)
  · exact he.slotEntry_far hq (hin j hj) b''

theorem Edited.slotEntry_put (he : Edited v w d i (fun m => putEntry m (slotOffset i) name inum)) (hn : IsName name)
    (h0 : 0 < inum) (h64 : inum < 64) (hlast : i % 16 ≠ 15) (b'' : Mem) :
    slotEntry b'' w d i = some (name, inum) := by
  obtain ⟨m, hdisk, -⟩ := he.edit
  have hoi := slotOffset_eq i
  have hput : entryOf (putEntry m (slotOffset i) name inum) (slotOffset i) = some (name, inum) :=
    entryOf_putEntry hn h0 (by omega)
  unfold slotEntry
  rw [slotSector_eq, if_neg he.sector, ← hput]
  apply entryOf_of_bytes
  intro k h1 h2
  rw [readSector_of_lt (by omega), hdisk]

theorem slotEntry_of_freeAt {d : Nat} (h : freeAt b v d i = true) (b'' : Mem) :
    slotSector v d i ≠ 0 ∧ slotEntry b'' v d i = none := by
  unfold freeAt at h
  rw [Bool.and_eq_true, bne_iff_ne, beq_iff_eq] at h
  refine ⟨h.1, ?_⟩
  have hle := slotOffset_le i
  have hnum : entryInode (readSector b'' v (slotSector v d i)) (slotOffset i) = 0 := by
    rw [← h.2]
    apply entryInode_congr
    intro k h1 h2
    rw [readSector_of_lt (by omega), readSector_of_lt (by omega)]
  unfold slotEntry
  rw [if_neg h.1, entryOf_free hnum]

theorem slotEntry_addSlot {d : Nat} (hlt : addSlot b v d < entries v d) (b'' : Mem) :
    slotEntry b'' v d (addSlot b v d) = none :=
  (slotEntry_of_freeAt (freeAt_addSlot hlt) b'').2

theorem hit_of_not_found {d : Nat} (hn : IsName name) (htype : (inodeRead v d).type = typeDir)
    (hnone : dirFindEntry b v d name = none) (hj : j < entries v d) : hit name (slotEntry b v d j) = none := by
  have hres : resolve b v d name = none := by
    unfold resolve
    rw [hnone]
    rfl
  rw [resolve_eq hn, if_neg (not_not_intro htype), List.findSome?_eq_none_iff] at hres
  exact hres j (List.mem_range.2 hj)

theorem Idle.resolve (h : Idle v w d) (hin : Inside b v d) (hn : IsName name) (b'' : Mem) :
    resolve b'' w d name = Amfs.resolve b v d name := by
  rw [← hin.resolve hn b'', resolve_eq hn, resolve_eq hn, h.type, h.entries]
  congr 1
  apply search_congr
  intro j _
  rw [(h.block (j / 16)).slotEntry]

theorem PutFits.slotEntry_ne (hfit : PutFits b v d (addSlot b v d) name inum) (hin : Inside b v d) (hn : IsName name)
    (h64 : inum < 64) (he : Edited v w d (addSlot b v d) (fun m => putEntry m (slotOffset (addSlot b v d)) name inum))
    (hj : j < entries v d) (hne : j ≠ addSlot b v d) (b'' : Mem) : slotEntry b'' w d j = slotEntry b v d j := by
  have hle := addSlot_le b v d
  refine he.slotEntry_put_ne hn h64 hin (fun hq => ?_) (fun hji => ?_) (fun hfirst hji e hs hlen => ?_) hj hne b''
  · rw [← slotSector_eq]
    by_cases hfirst : addSlot b v d % 16 = 0
    · exact (slotEntry_of_freeAt (freeAt_addSlot (by omega)) b).1
    · exact hfit.block hfirst
  · rw [hji]
    exact hfit.next (by omega)
  · refine hfit.prev hfirst e ?_ hlen
    rw [← hji, Nat.add_sub_cancel]
    exact hs

theorem addKeeps_of_fits (h : Sound v) (hn : IsName name) (h0 : 0 < inum) (h64 : inum < 64)
    (hfit : AddFits b' v d name inum) (b b'' : Mem) : AddKeeps b b' b'' v d name inum := by
  obtain ⟨hin, hfit⟩ := hfit
  have hout := dirAddEntry_outcome h d b' name inum
  generalize hr : dirAddEntry b' v d name inum = r at hout
  cases hout with
  | @idle w hidle why =>
    constructor
    · rw [hr]
      exact ⟨fun name' hn' _ => hidle.resolve (hin.of_behind b) hn' b'', hidle.outside⟩
    · rw [hr]
      intro hfalse
      cases hfalse
  | @put w htype hnew hedit hentries hcount =>
    have hfit := hfit htype hnew
    have hle := addSlot_le b' v d
    have hdir : ¬(inodeRead w d).type ≠ typeDir := by
      rw [hedit.type]
      exact not_not_intro htype
    have hother : ∀ j < entries v d, j ≠ addSlot b' v d → slotEntry b'' w d j = slotEntry b' v d j :=
      fun j hj hne => hfit.slotEntry_ne hin hn h64 hedit hj hne b''
    have hself := hedit.slotEntry_put hn h0 h64 hfit.last b''
    constructor
    · rw [hr]
      constructor
      · intro name' hn' hne
        rw [← (hin.of_behind b).resolve hn' b', resolve_eq hn', resolve_eq hn', if_neg hdir,
          if_neg (not_not_intro htype), hentries]
        have hmine : hit name' (slotEntry b'' w d (addSlot b' v d)) = none := by
          rw [hself, hit_ne (Ne.symm hne)]
        rw [search_extend (Nat.le_max_left _ _)]
        · apply search_congr
          intro j hj
          by_cases hji : j = addSlot b' v d
          · subst hji
            rw [hmine, slotEntry_addSlot hj, hit_none]
          · rw [hother j hj hji]
        · intro j h1 h2
          have hji : j = addSlot b' v d := by omega
          rw [hji, hmine]
      · have hlast := hfit.last
        have hoi := slotOffset_eq (addSlot b' v d)
        rw [hcount, outsideOf, if_pos (by omega)]
        rfl
    · rw [hr]
      intro _
      rw [resolve_eq hn, if_neg hdir, hentries]
      rw [search_single (show addSlot b' v d < max (entries v d) (addSlot b' v d + 1) by omega), hself, hit_self]
      intro j hj hji
      have hlt : j < entries v d := by omega
      rw [hother j hlt hji]
      exact hit_of_not_found hn htype hnew hlt

/-! ## An entry is cleared -/

theorem hit_eq_some {e : Option (List Byte × Nat)} {x : Nat} (h : hit name e = some x) : e = some (name, x) := by
  cases e with
  | none => cases h
  | some e =>
    obtain ⟨n, y⟩ := e
    by_cases hn : n = name
    · subst hn
      rw [hit_self] at h
      rw [Option.some.inj h]
    · rw [hit_ne hn] at h
      cases h

theorem slotEntry_of_matchAt {d x : Nat} (hn : IsName name) (h : matchAt b v d name i = some (x, i)) :
    slotEntry b v d i = some (name, x) := by
  rw [matchAt_eq hn] at h
  obtain ⟨y, hy, he⟩ := Option.map_eq_some_iff.1 h
  simp only [Prod.mk.injEq, and_true] at he
  rw [hit_eq_some hy, he]

theorem slotSector_of_slotEntry {d : Nat} {e : List Byte × Nat} (h : slotEntry b v d i = some e) :
    slotSector v d i ≠ 0 := by
  intro h0
  unfold slotEntry at h
  rw [if_pos h0] at h
  cases h

theorem number_of_slotEntry {d : Nat} {e : List Byte × Nat} (h : slotEntry b v d i = some e) : number v d i = e.2 := by
  have h0 := slotSector_of_slotEntry h
  have hle := slotOffset_le i
  have hnum : entryInode (readSector b v (slotSector v d i)) (slotOffset i) = number v d i :=
    entryInode_congr (fun k h1 h2 => readSector_of_lt (by omega))
  unfold slotEntry at h
  rw [if_neg h0] at h
  by_cases hfree : entryInode (readSector b v (slotSector v d i)) (slotOffset i) = 0
  · rw [entryOf_free hfree] at h
    cases h
  · rw [entryOf_live hfree] at h
    rw [← Option.some.inj h, ← hnum]

theorem Edited.slotEntry_clear_ne (he : Edited v w d i (fun m => clearEntry m (slotOffset i))) (hin : Inside b v d)
    (h0 : slotSector v d i ≠ 0)
    (hprev : i % 16 ≠ 0 → j + 1 = i → ∀ e, slotEntry b v d j = some e → 28 ≤ e.1.length → number v d i % 256 = 0)
    (hj : j < entries v d) (hne : j ≠ i) (b'' : Mem) : slotEntry b'' w d j = slotEntry b v d j := by
  by_cases hq : j / 16 = i / 16
  · rw [slotSector_eq] at h0
    refine he.slotEntry_near hq h0 (hin j hj) (fun m hm hread => ?_) b''
    have hoi := slotOffset_eq i
    have hoj := slotOffset_eq j
    by_cases hji : j + 1 = i
    · have ho : slotOffset i = slotOffset j + 32 := by omega
      rw [ho]
      apply entryOf_clearEntry_before
      intro hlive hlong
      rw [entryOf_live hlive] at hread
      have hnum := hprev (by omega) hji _ hread.symm (longAt_iff.1 hlong)
      rwa [number_eq rfl hm, ho] at hnum
    · exact entryOf_clearEntry_ne (by omega)
  · exact he.slotEntry_far hq (hin j hj) b''

theorem Edited.slotEntry_clear (he : Edited v w d i (fun m => clearEntry m (slotOffset i))) (b'' : Mem) :
    slotEntry b'' w d i = none := by
  obtain ⟨m, hdisk, -⟩ := he.edit
  have hle := slotOffset_le i
  have hnum : entryInode (readSector b'' w (refAt w d (i / 16))) (slotOffset i) =
      entryInode (clearEntry m (slotOffset i)) (slotOffset i) := by
    apply entryInode_congr
    intro k h1 h2
    rw [readSector_of_lt (by omega), hdisk]
  unfold slotEntry
  rw [slotSector_eq, if_neg he.sector, entryOf_free (hnum.trans entryInode_clearEntry)]

theorem RemoveFits.slotEntry_ne {x : Nat} (hfit : RemoveFits b v d name) (hn : IsName name)
    (hfound : dirFindEntry b v d name = some (x, i)) (he : Edited v w d i (fun m => clearEntry m (slotOffset i)))
    (hj : j < entries v d) (hne : j ≠ i) (b'' : Mem) : slotEntry b'' w d j = slotEntry b v d j := by
  have hslot := slotEntry_of_matchAt hn (dirFindEntry_some hfound).2.2
  refine he.slotEntry_clear_ne hfit.1 (slotSector_of_slotEntry hslot) (fun hfirst hji e hs hlen => ?_) hj hne b''
  have hnum : number v d i = x := number_of_slotEntry hslot
  rw [hnum]
  refine hfit.2 x i hfound hfirst e ?_ hlen
  rw [← hji, Nat.add_sub_cancel]
  exact hs

theorem removeKeeps_of_fits (h : Sound v) (hn : IsName name) (hfit : RemoveFits b' v d name) (b b'' : Mem) :
    RemoveKeeps b b' b'' v d name := by
  obtain ⟨hin, hfit⟩ := hfit
  have hout := dirRemoveEntry_outcome h d b' name
  unfold RemoveKeeps
  generalize dirRemoveEntry b' v d name = r at hout ⊢
  cases hout with
  | idle hnone => exact ⟨fun name' hn' _ => (hin.of_behind b).resolve hn' b'', rfl⟩
  | @clear w x i hfound hlt hmatch hedit hentries hfaults =>
    have htype := (dirFindEntry_some hfound).1
    have hslot := slotEntry_of_matchAt hn hmatch
    constructor
    · intro name' hn' hne
      have hdir : ¬(inodeRead w d).type ≠ typeDir := by
        rw [hedit.type]
        exact not_not_intro htype
      rw [← (hin.of_behind b).resolve hn' b', resolve_eq hn', resolve_eq hn', if_neg hdir,
        if_neg (not_not_intro htype), hentries]
      apply search_congr
      intro j hj
      by_cases hji : j = i
      · rw [hji, hedit.slotEntry_clear, hslot, hit_none, hit_ne (Ne.symm hne)]
      · rw [RemoveFits.slotEntry_ne ⟨hin, hfit⟩ hn hfound hedit hj hji]
    · rw [hfaults]

end Amfs
end AmitX
