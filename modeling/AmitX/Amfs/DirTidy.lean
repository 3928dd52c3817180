import AmitX.Amfs.DirKeeps
/-!
# DirTidy — directories in which every entry can be found (`dir_add_entry`, `dir_remove_entry`)

In a tidy directory each slot has its sector, a free entry has no name, and the other entries have names of their own.
There a call that does not fit makes a name go away or come up (`addFits_of_keeps`, `removeFits_of_keeps`), and one that
fits leaves a tidy directory.
-/
namespace AmitX
namespace Amfs

open Bytes

variable {v w : Volume} {d : Fin 64} {i j inum : Nat} {b b' b'' : Mem} {name : List Byte} {f : Mem → Mem}

/-! ## Tidy directories -/

/-- A directory whose slots all have a sector, whose free entries have no name, and whose other entries have names of
their own. -/
structure Tidy (behind : Mem) (v : Volume) (d : Nat) : Prop where
  inside : Inside behind v d
  block : ∀ i < entries v d, slotSector v d i ≠ 0
  name : ∀ i < entries v d, ∀ e, slotEntry behind v d i = some e → IsName e.1 ∧ e.1 ≠ []
  free : ∀ i < entries v d, slotEntry behind v d i = none → v.disk (slotSector v d i) (slotOffset i + 4) = 0
  distinct : ∀ i < entries v d, ∀ j < entries v d, ∀ e e', slotEntry behind v d i = some e →
    slotEntry behind v d j = some e' → e.1 = e'.1 → i = j

theorem resolve_none {d : Nat} (hn : IsName name) (h : ∀ j < entries v d, hit name (slotEntry b v d j) = none) :
    resolve b v d name = none := by
  rw [resolve_eq hn]
  split
  · rfl
  · exact List.findSome?_eq_none_iff.2 (fun j hj => h j (List.mem_range.1 hj))

theorem resolve_single {d : Nat} (hn : IsName name) (htype : (inodeRead v d).type = typeDir) (hi : i < entries v d)
    (h : ∀ j < entries v d, j ≠ i → hit name (slotEntry b v d j) = none) :
    resolve b v d name = hit name (slotEntry b v d i) := by
  rw [resolve_eq hn, if_neg (not_not_intro htype), search_single hi h]

theorem Tidy.hit_ne {d : Nat} {e : List Byte × Nat} (ht : Tidy b v d) (hi : i < entries v d) (hj : j < entries v d)
    (he : slotEntry b v d i = some e) (hji : j ≠ i) : hit e.1 (slotEntry b v d j) = none := by
  cases hs : slotEntry b v d j with
  | none => rfl
  | some e' =>
    apply Amfs.hit_ne
    intro hname
    exact hji (ht.distinct j hj i hi e' e hs he hname)

theorem Tidy.resolve {d : Nat} {e : List Byte × Nat} (ht : Tidy b v d) (htype : (inodeRead v d).type = typeDir)
    (hi : i < entries v d) (he : slotEntry b v d i = some e) : resolve b v d e.1 = some e.2 := by
  rw [resolve_single (ht.name i hi e he).1 htype hi (fun j hj hji => ht.hit_ne hi hj he hji), he]
  exact hit_self e.1 e.2

theorem hit_entryOf_ne {m : Mem} {o : Nat} (h : entryName m o ≠ name) : hit name (entryOf m o) = none := by
  unfold entryOf
  split
  · rfl
  · exact Amfs.hit_ne h _

theorem of_entryOf {m : Mem} {o : Nat} {e : List Byte × Nat} (h : entryOf m o = some e) :
    entryInode m o ≠ 0 ∧ entryName m o = e.1 ∧ entryInode m o = e.2 := by
  by_cases h0 : entryInode m o = 0
  · rw [entryOf_free h0] at h
    cases h
  · rw [entryOf_live h0] at h
    cases h
    exact ⟨h0, rfl, rfl⟩

theorem Edited.hit_before {e : List Byte × Nat} (he : Edited v w d i f) (hji : j + 1 = i) (hfirst : i % 16 ≠ 0)
    (hslot : slotEntry b v d j = some e)
    (hf : ∀ m : Mem, entryName m (slotOffset j) = e.1 → load m (slotOffset j + 32) 4 = number v d i →
      entryName (f m) (slotOffset j) ≠ e.1) (b'' : Mem) : hit e.1 (slotEntry b'' w d j) = none := by
  have hq : j / 16 = i / 16 := by omega
  have hsector : refAt v d (i / 16) ≠ 0 := by
    rw [← hq, ← slotSector_eq]
    exact slotSector_of_slotEntry hslot
  obtain ⟨m, hm⟩ := he.buffer hsector
  have hbefore := entryOf_buffer (b := b) hq hsector hm.before (fun h15 => absurd h15 (by omega))
  rw [hslot] at hbefore
  obtain ⟨-, hname, -⟩ := of_entryOf hbefore
  have hoi := slotOffset_eq i
  have hoj := slotOffset_eq j
  have ho : slotOffset i = slotOffset j + 32 := by omega
  rw [slotEntry_buffer hq he.sector hm.after (fun h15 => absurd h15 (by omega))]
  apply hit_entryOf_ne
  exact hf m hname (by rw [number_eq rfl hm.before, ho])

theorem Edited.slotEntry_put_behind (he : Edited v w d i (fun m => putEntry m (slotOffset i) name inum))
    (ht : Tidy b v d) (hn : IsName name) (hlast : i % 16 ≠ 15) (hlt : i + 1 < entries v d) (b'' : Mem) :
    ∃ c x, (slotEntry b v d (i + 1) = none → c = []) ∧ (∀ e, slotEntry b v d (i + 1) = some e → c = e.1) ∧
      x % 65536 = (ofList name 28).toNat ∧ slotEntry b'' w d (i + 1) = if x = 0 then none else some (c, x) := by
  have hq : (i + 1) / 16 = i / 16 := by omega
  have hblock := ht.block _ hlt
  rw [slotSector_eq, hq] at hblock
  obtain ⟨m, hm⟩ := he.buffer hblock
  have hbefore := entryOf_buffer hq hblock hm.before (ht.inside _ hlt)
  have hoi := slotOffset_eq i
  have hoj := slotOffset_eq (i + 1)
  have ho : slotOffset (i + 1) = slotOffset i + 32 := by omega
  have hname : entryName (putEntry m (slotOffset i) name inum) (slotOffset (i + 1)) =
      entryName m (slotOffset (i + 1)) :=
    entryName_congr (fun k hk _ => putEntry_of_not (by omega))
  have hfree : slotEntry b v d (i + 1) = none → entryName m (slotOffset (i + 1)) = [] := by
    intro hnone
    have hzero := ht.free _ hlt hnone
    rw [slotSector_eq, hq, ← hm.before _ (by omega)] at hzero
    rw [entryName, cstr, if_pos hzero]
  have hlive : ∀ e, slotEntry b v d (i + 1) = some e → entryName m (slotOffset (i + 1)) = e.1 := by
    intro e hs
    exact (of_entryOf (hbefore.trans hs)).2.1
  refine ⟨_, entryInode (putEntry m (slotOffset i) name inum) (slotOffset (i + 1)), hfree, hlive, ?_, ?_⟩
  · rw [ho]
    exact load_putEntry_behind hn
  · rw [slotEntry_buffer hq he.sector hm.after, entryOf, hname]
    intro h15 e hs
    have hshort : (entryName m (slotOffset (i + 1))).length < 28 := by
      cases hs' : slotEntry b v d (i + 1) with
      | none =>
        rw [hfree hs']
        decide
      | some e' =>
        rw [hlive e' hs']
        exact ht.inside _ hlt h15 e' hs'
    rw [← (of_entryOf hs).2.1, hname]
    exact hshort

theorem Tidy.addSlot_block {d : Nat} (ht : Tidy b v d) (h : addSlot b v d % 16 ≠ 0 ∨ addSlot b v d < entries v d) :
    refAt v d (addSlot b v d / 16) ≠ 0 := by
  rw [← slotSector_eq]
  by_cases hlt : addSlot b v d < entries v d
  · exact (slotEntry_of_freeAt (freeAt_addSlot hlt) b).1
  · have hle := addSlot_le b v d
    have hblock := ht.block (addSlot b v d - 1) (by omega)
    rw [slotSector_eq] at hblock ⊢
    rwa [show addSlot b v d / 16 = (addSlot b v d - 1) / 16 by omega]

theorem Edited.prev_of_kept {k : Nat} (he : Edited v w d i (fun m => putEntry m (slotOffset i) name inum))
    (ht : Tidy b' v d) (htype : (inodeRead v d).type = typeDir) (hn : IsName name) (h0 : 0 < inum) (h64 : inum < 64)
    (hlast : i % 16 ≠ 15) (hnew : ∀ j < entries v d, hit name (slotEntry b' v d j) = none) (hle : i ≤ entries v d)
    (hblock : refAt v d (i / 16) ≠ 0) (hk : k = i - 1) (hfirst : i % 16 ≠ 0) {e : List Byte × Nat}
    (hentries : entries w d = max (entries v d) (i + 1)) (hkept : OthersKept b b'' v d name w)
    (hslot : slotEntry b' v d k = some e) (hlong : 28 ≤ e.1.length) : number v d i % 65536 = inum := by
  by_contra hnum
  have hklt : k < entries v d := by omega
  obtain ⟨hen, -⟩ := ht.name k hklt e hslot
  have hne : e.1 ≠ name := by
    intro hname
    have hhit := hnew k hklt
    rw [hslot, ← hname, hit_self] at hhit
    cases hhit
  have hold := hkept.others e.1 hen hne
  rw [← (ht.inside.of_behind b).resolve hen b', ht.resolve htype hklt hslot] at hold
  have hgone : resolve b'' w d e.1 = none := by
    apply resolve_none hen
    intro j hj
    rw [hentries] at hj
    by_cases hji : j = i
    · rw [hji, he.slotEntry_put hn h0 h64 hlast, Amfs.hit_ne (Ne.symm hne)]
    · have hjlt : j < entries v d := by omega
      by_cases hjk : j = k
      · refine he.hit_before (by omega) hfirst (hjk ▸ hslot) (fun m hm hload => ?_) b''
        have hoi := slotOffset_eq i
        have hoj := slotOffset_eq j
        have ho : slotOffset i = slotOffset j + 32 := by omega
        rw [← hload] at hnum
        rw [← hm] at hlong hen
        rw [ho, ← hm]
        exact entryName_putEntry_before (by omega) (longAt_iff.2 hlong) hen (by omega) (by omega)
      · by_cases hnext : j = i + 1
        · obtain ⟨c, x, hfree, hlive, -, hs⟩ := he.slotEntry_put_behind ht hn hlast (hnext ▸ hjlt) b''
          rw [hnext, hs]
          split
          · rfl
          · apply Amfs.hit_ne
            cases hs' : slotEntry b' v d (i + 1) with
            | none =>
              rw [hfree hs']
              intro hnil
              rw [← hnil] at hlong
              exact absurd hlong (by decide)
            | some e' =>
              rw [hlive e' hs']
              intro hname
              have := ht.distinct (i + 1) (hnext ▸ hjlt) k hklt e' e hs' hslot hname
              omega
        · rw [he.slotEntry_put_ne hn h64 ht.inside (fun _ => hblock) (fun h => absurd h hnext)
            (fun _ h => absurd h (by omega)) hjlt hji]
          exact ht.hit_ne hklt hjlt hslot hjk
  rw [hgone] at hold
  cases hold

theorem Edited.next_of_kept (he : Edited v w d i (fun m => putEntry m (slotOffset i) name inum))
    (ht : Tidy b' v d) (htype : (inodeRead v d).type = typeDir) (hn : IsName name) (hne : name ≠ []) (h0 : 0 < inum)
    (h64 : inum < 64) (hlast : i % 16 ≠ 15) (hnew : ∀ j < entries v d, hit name (slotEntry b' v d j) = none)
    (hlt : i + 1 < entries v d) (hblock : refAt v d (i / 16) ≠ 0)
    (hprev : i % 16 ≠ 0 → ∀ e, slotEntry b' v d (i - 1) = some e → 28 ≤ e.1.length → number v d i % 65536 = inum)
    (hentries : entries w d = entries v d) (hkept : OthersKept b b'' v d name w) :
    number v d (i + 1) % 65536 = (ofList name 28).toNat := by
  by_contra hnum
  have hdir : (inodeRead w d).type = typeDir := he.type.trans htype
  have hother : ∀ j < entries v d, j ≠ i → j ≠ i + 1 → slotEntry b'' w d j = slotEntry b' v d j := by
    intro j hj hji hjn
    refine he.slotEntry_put_ne hn h64 ht.inside (fun _ => hblock) (fun h => absurd h hjn)
      (fun hfirst hij e hs hlong => hprev hfirst e ?_ hlong) hj hji b''
    rw [← hij, Nat.add_sub_cancel]
    exact hs
  have hself := he.slotEntry_put hn h0 h64 hlast b''
  obtain ⟨c, x, hfree, hlive, hx, hs⟩ := he.slotEntry_put_behind ht hn hlast hlt b''
  cases hs' : slotEntry b' v d (i + 1) with
  | none =>
    have hnil : IsName [] := ⟨by decide, fun c hc => absurd hc List.not_mem_nil⟩
    have hold := hkept.others [] hnil (Ne.symm hne)
    have hbefore : resolve b v d [] = none := by
      rw [← (ht.inside.of_behind b).resolve hnil b']
      apply resolve_none hnil
      intro j hj
      cases hsj : slotEntry b' v d j with
      | none => rfl
      | some e => exact Amfs.hit_ne (ht.name j hj e hsj).2 _
    have hzero : number v d (i + 1) = 0 := by
      have hq : (i + 1) / 16 = i / 16 := by omega
      obtain ⟨m, hm⟩ := he.buffer hblock
      have hbuf := entryOf_buffer hq hblock hm.before (ht.inside _ hlt)
      rw [number_eq hq hm.before]
      by_contra hlive0
      rw [hs', entryOf_live hlive0] at hbuf
      cases hbuf
    have hx0 : x ≠ 0 := by
      rintro rfl
      rw [hzero] at hnum
      exact hnum hx
    have hafter : resolve b'' w d [] = some x := by
      rw [resolve_single hnil hdir (hentries ▸ hlt), hs, if_neg hx0, hfree hs', hit_self]
      intro j hj hjn
      by_cases hji : j = i
      · rw [hji, hself, Amfs.hit_ne hne]
      · rw [hother j (hentries ▸ hj) hji hjn]
        cases hsj : slotEntry b' v d j with
        | none => rfl
        | some e => exact Amfs.hit_ne (ht.name j (hentries ▸ hj) e hsj).2 _
    rw [hbefore, hafter] at hold
    cases hold
  | some e =>
    obtain ⟨hen, -⟩ := ht.name (i + 1) hlt e hs'
    have hen' : e.1 ≠ name := by
      intro hname
      have hhit := hnew (i + 1) hlt
      rw [hs', ← hname, hit_self] at hhit
      cases hhit
    have hold := hkept.others e.1 hen hen'
    rw [← (ht.inside.of_behind b).resolve hen b', ht.resolve htype hlt hs'] at hold
    have hafter : resolve b'' w d e.1 = hit e.1 (slotEntry b'' w d (i + 1)) := by
      apply resolve_single hen hdir (hentries ▸ hlt)
      intro j hj hjn
      by_cases hji : j = i
      · rw [hji, hself, Amfs.hit_ne (Ne.symm hen')]
      · rw [hother j (hentries ▸ hj) hji hjn]
        exact ht.hit_ne hlt (hentries ▸ hj) hs' hjn
    rw [hafter, hs, hlive e hs'] at hold
    rw [number_of_slotEntry hs'] at hnum
    split at hold
    · cases hold
    · rw [hit_self] at hold
      rw [← Option.some.inj hold] at hnum
      exact hnum hx

theorem addFits_of_keeps (h : Sound v) (ht : Tidy b' v d) (hn : IsName name) (hne : name ≠ []) (h0 : 0 < inum)
    (h64 : inum < 64) (hk : AddKeeps b b' b'' v d name inum) : AddFits b' v d name inum := by
  refine ⟨ht.inside, fun htype hnone => ?_⟩
  have hle := addSlot_le b' v d
  have hnew : ∀ j < entries v d, hit name (slotEntry b' v d j) = none := fun j hj => hit_of_not_found hn htype hnone hj
  have hblock := ht.addSlot_block
  have hkept := hk.kept
  have hout := dirAddEntry_outcome h d b' name inum
  generalize dirAddEntry b' v d name inum = r at hout hkept
  cases hout with
  | @idle w hidle why =>
    rcases why with hlen | htype' | hfound | hzero
    · exact absurd hlen (Nat.not_le.2 hn.1)
    · exact absurd htype htype'
    · rw [hnone] at hfound
      cases hfound
    · by_cases hfirst : addSlot b' v d % 16 ≠ 0 ∨ addSlot b' v d < entries v d
      · exact absurd hzero (hblock hfirst)
      · constructor
        · omega
        · intro hfirst'
          exact absurd (Or.inl hfirst') hfirst
        · intro hlt
          omega
        · intro hfirst'
          exact absurd (Or.inl hfirst') hfirst
  | @put w _ _ hedit hentries hcount =>
    have hlast : addSlot b' v d % 16 ≠ 15 := by
      intro h15
      have hsame := hkept.outside
      have hoi := slotOffset_eq (addSlot b' v d)
      rw [hcount, outsideOf, if_neg (by omega)] at hsame
      omega
    have hprev : addSlot b' v d % 16 ≠ 0 → ∀ e, slotEntry b' v d (addSlot b' v d - 1) = some e → 28 ≤ e.1.length →
        number v d (addSlot b' v d) % 65536 = inum := fun hfirst e hslot hlong =>
      hedit.prev_of_kept ht htype hn h0 h64 hlast hnew hle (hblock (.inl hfirst)) rfl hfirst hentries hkept hslot hlong
    constructor
    · exact hlast
    · intro hfirst
      rw [slotSector_eq]
      exact hblock (.inl hfirst)
    · intro hlt
      exact hedit.next_of_kept ht htype hn hne h0 h64 hlast hnew hlt (hblock (.inr (by omega))) hprev
        (hentries.trans (by omega)) hkept
    · exact hprev

theorem removeFits_of_keeps (h : Sound v) (ht : Tidy b' v d) (hn : IsName name)
    (hk : RemoveKeeps b b' b'' v d name) : RemoveFits b' v d name := by
  refine ⟨ht.inside, fun x i hfound hfirst e hslot hlong => ?_⟩
  by_contra hx
  have hout := dirRemoveEntry_outcome h d b' name
  unfold RemoveKeeps at hk
  generalize dirRemoveEntry b' v d name = r at hout hk
  cases hout with
  | idle hnone =>
    rw [hnone] at hfound
    cases hfound
  | @clear w x' i' hfound' hlt hmatch hedit hentries hfaults =>
    rw [hfound'] at hfound
    cases hfound
    have htype := (dirFindEntry_some hfound').1
    have hself := slotEntry_of_matchAt hn hmatch
    have hnum : number v d i = x := number_of_slotEntry hself
    have hklt : i - 1 < entries v d := by omega
    obtain ⟨hen, -⟩ := ht.name (i - 1) hklt e hslot
    have hne : e.1 ≠ name := by
      intro hname
      have := ht.distinct (i - 1) hklt i hlt e _ hslot hself hname
      omega
    have hold := hk.others e.1 hen hne
    rw [← (ht.inside.of_behind b).resolve hen b', ht.resolve htype hklt hslot] at hold
    have hgone : resolve b'' w d e.1 = none := by
      apply resolve_none hen
      intro j hj
      rw [hentries] at hj
      by_cases hji : j = i
      · rw [hji, hedit.slotEntry_clear]
        rfl
      · by_cases hjk : j = i - 1
        · refine hedit.hit_before (by omega) hfirst (hjk ▸ hslot) (fun m hm hload => ?_) b''
          have hoi := slotOffset_eq i
          have hoj := slotOffset_eq j
          have ho : slotOffset i = slotOffset j + 32 := by omega
          rw [← hnum, ← hload] at hx
          rw [← hm] at hlong hen
          rw [ho, ← hm]
          exact entryName_clearEntry_before (longAt_iff.2 hlong) hen hx
        · rw [hedit.slotEntry_clear_ne ht.inside (slotSector_of_slotEntry hself)
            (fun _ hprev => absurd hprev (by omega)) hj hji]
          exact ht.hit_ne hklt hj hslot hjk
    rw [hgone] at hold
    cases hold

/-! ## A tidy directory stays tidy -/

theorem Edited.firstByte (he : Edited v w d i f) (h0 : refAt v d (j / 16) ≠ 0)
    (hf : j / 16 = i / 16 → ∀ m : Mem, f m (slotOffset j + 4) = m (slotOffset j + 4)) :
    w.disk (slotSector w d j) (slotOffset j + 4) = v.disk (slotSector v d j) (slotOffset j + 4) := by
  have hle := slotOffset_le j
  rw [slotSector_eq, slotSector_eq]
  by_cases hq : j / 16 = i / 16
  · have hbyte := hf hq
    rw [hq] at h0 ⊢
    obtain ⟨m, hm⟩ := he.buffer h0
    rw [← hm.before _ (by omega), ← hm.after _ (by omega), hbyte]
  · rw [(he.other _ hq).1, (he.other _ hq).2 h0]

theorem Edited.slotSector (he : Edited v w d i f) (h : j = i ∨ slotSector v d j ≠ 0) :
    Amfs.slotSector w d j ≠ 0 := by
  rw [slotSector_eq] at h ⊢
  by_cases hq : j / 16 = i / 16
  · rw [hq]
    exact he.sector
  · rw [(he.other _ hq).1]
    rcases h with rfl | h
    · exact absurd rfl hq
    · exact h

theorem Tidy.put (ht : Tidy b v d) (he : Edited v w d i (fun m => putEntry m (slotOffset i) name inum))
    (hn : IsName name) (hne : name ≠ []) (h0 : 0 < inum) (h64 : inum < 64) (hlast : i % 16 ≠ 15)
    (hentries : entries w d = max (entries v d) (i + 1)) (hle : i ≤ entries v d)
    (hnew : ∀ j < entries v d, hit name (slotEntry b v d j) = none)
    (hother : ∀ j < entries v d, j ≠ i → slotEntry b w d j = slotEntry b v d j) : Tidy b w d := by
  have hself := he.slotEntry_put hn h0 h64 hlast b
  have hlt : ∀ j < entries w d, j ≠ i → j < entries v d := by
    intro j hj hji
    omega
  have hclash : ∀ j < entries w d, j ≠ i → ∀ e, slotEntry b w d j = some e → e.1 ≠ name := by
    intro j hj hji e hs hname
    have hhit := hnew j (hlt j hj hji)
    rw [← hother j (hlt j hj hji) hji, hs, ← hname, hit_self] at hhit
    cases hhit
  constructor
  · intro j hj h15 e hs
    have hji : j ≠ i := by
      rintro rfl
      exact hlast h15
    rw [hother j (hlt j hj hji) hji] at hs
    exact ht.inside j (hlt j hj hji) h15 e hs
  · intro j hj
    by_cases hji : j = i
    · exact he.slotSector (.inl hji)
    · exact he.slotSector (.inr (ht.block j (hlt j hj hji)))
  · intro j hj e hs
    by_cases hji : j = i
    · rw [hji, hself] at hs
      cases hs
      exact ⟨hn, hne⟩
    · rw [hother j (hlt j hj hji) hji] at hs
      exact ht.name j (hlt j hj hji) e hs
  · intro j hj hs
    have hji : j ≠ i := by
      rintro rfl
      rw [hself] at hs
      cases hs
    have hblock := ht.block j (hlt j hj hji)
    rw [slotSector_eq] at hblock
    rw [hother j (hlt j hj hji) hji] at hs
    have hoi := slotOffset_eq i
    have hoj := slotOffset_eq j
    rw [he.firstByte hblock (fun hq m => putEntry_of_not (by omega))]
    exact ht.free j (hlt j hj hji) hs
  · intro j hj k hk e e' hs hs' hname
    by_cases hji : j = i
    · by_cases hki : k = i
      · rw [hji, hki]
      · rw [hji, hself] at hs
        cases hs
        exact absurd hname.symm (hclash k hk hki e' hs')
    · by_cases hki : k = i
      · rw [hki, hself] at hs'
        cases hs'
        exact absurd hname (hclash j hj hji e hs)
      · rw [hother j (hlt j hj hji) hji] at hs
        rw [hother k (hlt k hk hki) hki] at hs'
        exact ht.distinct j (hlt j hj hji) k (hlt k hk hki) e e' hs hs' hname

theorem Tidy.clear (ht : Tidy b v d) (he : Edited v w d i (fun m => clearEntry m (slotOffset i)))
    (hentries : entries w d = entries v d)
    (hother : ∀ j < entries v d, j ≠ i → slotEntry b w d j = slotEntry b v d j) : Tidy b w d := by
  have hself := he.slotEntry_clear b
  have hlive : ∀ j e, slotEntry b w d j = some e → j ≠ i := by
    intro j e hs hji
    rw [hji, hself] at hs
    cases hs
  constructor
  · intro j hj h15 e hs
    rw [hentries] at hj
    rw [hother j hj (hlive j e hs)] at hs
    exact ht.inside j hj h15 e hs
  · intro j hj
    exact he.slotSector (.inr (ht.block j (hentries ▸ hj)))
  · intro j hj e hs
    rw [hentries] at hj
    rw [hother j hj (hlive j e hs)] at hs
    exact ht.name j hj e hs
  · intro j hj hs
    rw [hentries] at hj
    have hoi := slotOffset_eq i
    have hoj := slotOffset_eq j
    by_cases hji : j = i
    · obtain ⟨m, hdisk, -⟩ := he.edit
      rw [hji, slotSector_eq, hdisk]
      exact clearEntry_name
    · have hblock := ht.block j hj
      rw [slotSector_eq] at hblock
      rw [he.firstByte hblock (fun hq m => clearEntry_of_not (by omega))]
      exact ht.free j hj ((hother j hj hji).symm.trans hs)
  · intro j hj k hk e e' hs hs' hname
    rw [hentries] at hj hk
    rw [hother j hj (hlive j e hs)] at hs
    rw [hother k hk (hlive k e' hs')] at hs'
    exact ht.distinct j hj k hk e e' hs hs' hname

theorem Tidy.idle (ht : Tidy b v d) (h : Idle v w d) : Tidy b w d := by
  have hslot : ∀ j, slotEntry b w d j = slotEntry b v d j := fun j => (h.block (j / 16)).slotEntry b
  have hsector : ∀ j, slotSector w d j = slotSector v d j := by
    intro j
    rw [slotSector_eq, slotSector_eq, (h.block (j / 16)).1]
  have hentries := h.entries
  constructor
  · intro j hj h15 e hs
    exact ht.inside j (hentries ▸ hj) h15 e ((hslot j).symm.trans hs)
  · intro j hj
    rw [hsector]
    exact ht.block j (hentries ▸ hj)
  · intro j hj e hs
    exact ht.name j (hentries ▸ hj) e ((hslot j).symm.trans hs)
  · intro j hj hs
    have hblock := ht.block j (hentries ▸ hj)
    rw [slotSector_eq] at hblock
    rw [hsector, slotSector_eq, (h.block (j / 16)).2 hblock, ← slotSector_eq]
    exact ht.free j (hentries ▸ hj) ((hslot j).symm.trans hs)
  · intro j hj k hk e e' hs hs' hname
    exact ht.distinct j (hentries ▸ hj) k (hentries ▸ hk) e e' ((hslot j).symm.trans hs) ((hslot k).symm.trans hs')
      hname

theorem tidy_dirAddEntry (h : Sound v) (ht : Tidy b v d) (hn : IsName name) (hne : name ≠ []) (h0 : 0 < inum)
    (h64 : inum < 64) (hfit : AddFits b v d name inum) : Tidy b (dirAddEntry b v d name inum).2 d := by
  have hout := dirAddEntry_outcome h d b name inum
  generalize dirAddEntry b v d name inum = r at hout ⊢
  cases hout with
  | idle hidle why => exact ht.idle hidle
  | put htype hnew hedit hentries hcount =>
    have hfit := hfit.2 htype hnew
    exact ht.put hedit hn hne h0 h64 hfit.last hentries (addSlot_le b v d)
      (fun j hj => hit_of_not_found hn htype hnew hj)
      (fun j hj hji => hfit.slotEntry_ne ht.inside hn h64 hedit hj hji b)

theorem tidy_dirRemoveEntry (h : Sound v) (ht : Tidy b v d) (hn : IsName name) (hfit : RemoveFits b v d name) :
    Tidy b (dirRemoveEntry b v d name).2 d := by
  have hout := dirRemoveEntry_outcome h d b name
  generalize dirRemoveEntry b v d name = r at hout ⊢
  cases hout with
  | idle hnone => exact ht
  | @clear w x i hfound hlt hmatch hedit hentries hfaults =>
    exact ht.clear hedit hentries (fun j hj hji => hfit.slotEntry_ne hn hfound hedit hj hji b)

/-! ## Any directory -/

/-- **What `dir_add_entry` and `dir_remove_entry` leave of a directory.**  A call that fits keeps every other entry and
the bytes behind its buffers, and in a tidy directory only a call that fits does. -/
theorem dir_entries_kept (h : Sound v) (d : Fin 64) (b b' b'' : Mem) (hn : IsName name) (h0 : 0 < inum)
    (h64 : inum < 64) :
    (AddFits b' v d name inum → AddKeeps b b' b'' v d name inum) ∧
      (RemoveFits b' v d name → RemoveKeeps b b' b'' v d name) ∧
      (Tidy b' v d → name ≠ [] → (AddKeeps b b' b'' v d name inum ↔ AddFits b' v d name inum) ∧
        (RemoveKeeps b b' b'' v d name ↔ RemoveFits b' v d name)) := by
  have hadd : AddFits b' v d name inum → AddKeeps b b' b'' v d name inum :=
    fun hfit => addKeeps_of_fits h hn h0 h64 hfit b b''
  have hremove : RemoveFits b' v d name → RemoveKeeps b b' b'' v d name :=
    fun hfit => removeKeeps_of_fits h hn hfit b b''
  refine ⟨hadd, hremove, fun ht hne => ⟨⟨?_, hadd⟩, ⟨?_, hremove⟩⟩⟩
  · exact addFits_of_keeps h ht hn hne h0 h64
  · exact removeFits_of_keeps h ht hn

/-! ## Three entries -/

/-- The root of a new volume with the entry `"a"`. -/
def rootWithA : Volume := (dirAddEntry (fun _ => 0) smallVolume (0 : Fin 64) [97] 1).2

/-- The root with the entries `"a"` and `"b"`, after `"a"` was removed. -/
def rootWithB : Volume :=
  (dirRemoveEntry (fun _ => 0) (dirAddEntry (fun _ => 0) rootWithA (0 : Fin 64) [98] 2).2 (0 : Fin 64) [97]).2

theorem rootWithA_facts : ¬TableTight smallVolume (0 : Fin 64) (addSlot (fun _ => 0) smallVolume (0 : Fin 64) / 16) ∧
    ¬TableTight rootWithA (0 : Fin 64) (addSlot (fun _ => 0) rootWithA (0 : Fin 64) / 16) ∧
    entries rootWithA (0 : Fin 64) = 1 ∧ addSlot (fun _ => 0) rootWithA (0 : Fin 64) = 1 ∧
    slotSector rootWithA (0 : Fin 64) 1 ≠ 0 ∧ slotEntry (fun _ => 0) rootWithA (0 : Fin 64) 0 = some ([97], 1) := by
  decide +kernel

theorem rootWithA_keeps : Sound rootWithA ∧ NoLeak rootWithA := by
  have h : Sound smallVolume ∧ NoLeak smallVolume := amfsMkfs_keeps (fun _ => 0) blankVolume (by decide) (by decide)
  exact dirAddEntry_keeps [97] h.1 h.2 1 (fun _ => rootWithA_facts.1)

theorem sound_rootWithB : Sound rootWithB := by
  have h := dirAddEntry_keeps [98] rootWithA_keeps.1 rootWithA_keeps.2 2 (fun _ => rootWithA_facts.2.1)
  exact (dirRemoveEntry_keeps h.1 h.2).1

theorem addFits_rootWithA : AddFits (fun _ => 0) rootWithA (0 : Fin 64) [98] 2 := by
  obtain ⟨-, -, hentries, hslot, hsector, hentry⟩ := rootWithA_facts
  constructor
  · intro i hi h15
    omega
  · intro _ _
    rw [hslot]
    constructor
    · decide
    · intro _
      exact hsector
    · intro hlt
      omega
    · intro _ e he hlong
      rw [hentry] at he
      cases he
      exact absurd hlong (by decide)

/-- `"b"` is put behind `"a"`. -/
theorem dir_entries_kept_rootWithA :
    AddKeeps (fun _ => 0) (fun _ => 0) (fun _ => 0) rootWithA (0 : Fin 64) [98] 2 :=
  (dir_entries_kept rootWithA_keeps.1 0 (fun _ => 0) (fun _ => 0) (fun _ => 0) ⟨by decide, by decide⟩
    (by decide) (by decide)).1 addFits_rootWithA

/-- **`"c"` is put in the free slot before `"b"`**, whose number it takes away. -/
theorem not_dir_entries_kept : ¬∀ (v : Volume) (d : Fin 64) (b b' b'' : Mem) (name : List Byte) (inum : Nat),
    Sound v → IsName name → 0 < inum → inum < 64 → AddKeeps b b' b'' v d name inum := by
  intro h
  have hkeeps := h rootWithB 0 (fun _ => 0) (fun _ => 0) (fun _ => 0) [99] 3 sound_rootWithB
    ⟨by decide, by decide⟩ (by decide) (by decide)
  have hresolve : resolve (fun _ => 0) rootWithB (0 : Fin 64) [98] = some 2 ∧
      resolve (fun _ => 0) (dirAddEntry (fun _ => 0) rootWithB (0 : Fin 64) [99] 3).2 (0 : Fin 64) [98] = none := by
    decide +kernel
  have hsame : resolve (fun _ => 0) (dirAddEntry (fun _ => 0) rootWithB (0 : Fin 64) [99] 3).2 (0 : Fin 64) [98] =
      resolve (fun _ => 0) rootWithB (0 : Fin 64) [98] := hkeeps.kept.others [98] ⟨by decide, by decide⟩ (by decide)
  rw [hresolve.2, hresolve.1] at hsame
  cases hsame

end Amfs
end AmitX
