import AmitX.SmkFs.ExtentSpec
import AmitX.SmkFs.File
import AmitX.SmkFs.Exact
/-!
# FileSpec — the files of a volume

A file is a record of the object type FILE that its slot of the MRT leads to.  It owns the block of the record and the
blocks that its extents lead to.  `FilesOk` says that the files of a volume own different blocks, all of them in use.
-/
namespace AmitX
namespace SmkFs

open Prog Volume Pieces

/-! ## Records under faults -/

/-- `record_read` accepts the record in the block of slot `id`. -/
structure Volume.RecordAt (v : Volume) (id : Nat) (rec : Record) (attrs : List Attr) : Prop where
  bound : v.Bound id
  view : v.view (v.mrtEntry id).physicalBlock = .record rec attrs
  generation : rec.generation = (v.mrtEntry id).generation

section

variable {D H : Prop} {v v' w : Volume} {id l : Nat} {rec rec' : Record} {attrs attrs' : List Attr}

theorem Volume.RecordAt.unique (h : v.RecordAt id rec attrs) (h' : v.RecordAt id rec' attrs') :
    rec = rec' ∧ attrs = attrs' := by
  have := h.view.symm.trans h'.view
  cases this
  exact ⟨rfl, rfl⟩

theorem fwp_mrtResolve_bound (D H : Prop) (v : Volume) (id : Nat) : fwp D H (mrtResolve id)
    (fun entry v' => v' = v ∧ entry = v.mrtEntry id ∧ v.Bound id)
    (fun e v' => v' = v ∧ (v.Bound id → v.sectorOk → (e = .io ∧ D))) v := by
  unfold mrtResolve
  refine wpAbs_bind (vwp_getSb (wpAbs_bind (wpAbs_failIf (fun h => ⟨rfl, fun hb => ?_⟩) (fun hid => ?_))))
  · exact absurd hb.1 (by omega)
  refine wpAbs_bind (vwp_readBlock ?_ (fun hf => ⟨rfl, fun _ hs => ⟨rfl, hf.resolve_right (fun hn => hn hs)⟩⟩))
  refine wpAbs_bind (wpAbs_failIf (fun h => ⟨rfl, fun hb => ?_⟩) (fun halloc => ?_))
  · have := hb.2.1
    rw [Volume.mrtEntry, Volume.mrtBlock, h] at this
    cases this
  refine wpAbs_bind (wpAbs_failIf (fun h => ⟨rfl, fun hb => ?_⟩) (fun hphys => ?_))
  · exact absurd h (fun h => h.elim hb.2.2.1 hb.2.2.2)
  · refine wpAbs_pure ⟨rfl, rfl, by omega, ?_, fun h => hphys (Or.inl h), fun h => hphys (Or.inr h)⟩
    rw [Volume.mrtEntry, Volume.mrtBlock]
    simpa using halloc

/-- **`record_read`, whatever fails**: it returns the record that is there, and of a record that is there it can only
fail for a fault. -/
theorem fwp_recordRead_at (D H : Prop) (v : Volume) (id : Nat) : fwp D H (recordRead id)
    (fun x v' => v' = v ∧ v.RecordAt id x.1 x.2)
    (fun e v' => v' = v ∧ ∀ rec attrs, v.RecordAt id rec attrs → v.sectorOk → (e = .io ∧ D ∨ e = .nomem ∧ H)) v := by
  unfold recordRead
  refine wpAbs_bind (vwp_malloc ?_ (fun hH => wpAbs_bind (wpAbs_failIf (fun _ => ⟨rfl, fun _ _ _ _ => Or.inr ⟨rfl, hH⟩⟩)
    (fun h => absurd rfl h))))
  refine wpAbs_bind (wpAbs_failIf (fun h => by simp at h) (fun _ => ?_))
  refine wpAbs_seq (fwp_mrtResolve_bound D H v id) (fun entry v' h => ?_)
    (fun _ _ h => ⟨h.1, fun _ _ hr hs => Or.inl (h.2 hr.bound hs)⟩)
  obtain ⟨rfl, rfl, hb⟩ := h
  refine wpAbs_bind (wpAbs_orThrow (vwp_readBlock ?_
    (fun hf => ⟨rfl, fun _ _ _ hs => Or.inl ⟨rfl, hf.resolve_right (fun hn => hn hs)⟩⟩)))
  cases hx : v'.view (v'.mrtEntry id).physicalBlock with
  | record rec attrs =>
    refine wpAbs_bind (wpAbs_failIf (fun hg => ⟨rfl, fun rec' attrs' hr _ => ?_⟩) (fun hg => ?_))
    · have := hx.symm.trans hr.view
      cases this
      exact absurd hr.generation hg
    · exact wpAbs_pure ⟨rfl, hb, hx, Decidable.not_not.1 hg⟩
  | raw _ | super _ | node _ | mrt _ | bitmap _ | journal _ _ =>
    refine wpAbs_throw ⟨rfl, fun rec' attrs' hr _ => ?_⟩
    have := hx.symm.trans hr.view
    cases this

/-- **`record_write`, whatever fails**: it writes the record's block after steps of the journal, or only those are
taken. -/
theorem fwp_recordWrite (D H : Prop) (v : Volume) (id : Nat) (rec : Record) (attrs : List Attr) :
    fwp D H (recordWrite id rec attrs)
      (fun _ v' => journalIsFull v.sb = false ∧
        ∃ w, JournalSteps v w ∧ v' = w.write (v.mrtEntry id).physicalBlock (.record rec attrs))
      (fun _ v' => JournalSteps v v') v := by
  have hrest : ∀ buf oldBuf : Bool, fwp D H (do
      failIf (buf = false ∨ oldBuf = false) .nomem
      let entry ← mrtResolve id
      (readBlock entry.physicalBlock).ignore
      journalLogWrite entry.physicalBlock (.record rec attrs) (recordSize + attrBufTotalLen attrs)
      (writeBlock entry.physicalBlock (.record rec attrs)).orThrow .io)
      (fun _ v' => journalIsFull v.sb = false ∧
        ∃ w, JournalSteps v w ∧ v' = w.write (v.mrtEntry id).physicalBlock (.record rec attrs))
      (fun _ v' => JournalSteps v v') v := by
    intro buf oldBuf
    refine wpAbs_bind (wpAbs_failIf (fun _ => JournalSteps.refl v) (fun _ => ?_))
    refine wpAbs_seq (fwp_mrtResolve_bound D H v id) (fun entry v' h => ?_) (fun _ _ h => h.1 ▸ JournalSteps.refl v)
    obtain ⟨rfl, rfl, hb⟩ := h
    have hlog : fwp D H (do
        journalLogWrite (v'.mrtEntry id).physicalBlock (.record rec attrs) (recordSize + attrBufTotalLen attrs)
        (writeBlock (v'.mrtEntry id).physicalBlock (.record rec attrs)).orThrow .io)
        (fun _ w' => journalIsFull v'.sb = false ∧
          ∃ w, JournalSteps v' w ∧ w' = w.write (v'.mrtEntry id).physicalBlock (.record rec attrs))
        (fun _ w' => JournalSteps v' w') v' := by
      refine wpAbs_seq (wpAbs_and (fwp_journalWriteEntry D H v' .write _ _ 0 (.record rec attrs))
        (journalWriteEntry_steps .write _ _ 0 (.record rec attrs) v')) (fun _ w hw => ?_) (fun _ _ hw => hw.2)
      have hfree : journalIsFull v'.sb = false := by
        have hacc := hw.1.1
        simp only [journalAccepts, Bool.and_eq_true] at hacc
        simpa using hacc.1.2
      exact wpAbs_orThrow (vwp_writeBlock ⟨hfree, w, hw.2, rfl⟩ (fun _ => hw.2))
    exact wpAbs_bind (wpAbs_ignore (vwp_readBlock hlog (fun _ => hlog)))
  unfold recordWrite
  refine wpAbs_bind (wpAbs_failIf (fun _ => JournalSteps.refl v) (fun _ => ?_))
  exact wpAbs_bind (vwp_malloc (wpAbs_bind (vwp_malloc (hrest _ _) (fun _ => hrest _ _)))
    (fun _ => wpAbs_bind (vwp_malloc (hrest _ _) (fun _ => hrest _ _))))

theorem fwp_extentResolve (D H : Prop) (v : Volume) (id l : Nat) : fwp D H (extentResolve id l)
    (fun e v' => v' = v ∧ ∃ rec attrs, v.RecordAt id rec attrs ∧ blockOf attrs l = some (e.place l))
    (fun e v' => v' = v ∧ ∀ rec attrs, v.RecordAt id rec attrs → v.sectorOk →
      (e = .notfound ∧ blockOf attrs l = none ∨ e = .io ∧ D ∨ e = .nomem ∧ H)) v := by
  unfold extentResolve
  refine wpAbs_seq (fwp_recordRead_at D H v id) (fun x v' h => ?_)
    (fun _ _ h => ⟨h.1, fun rec attrs hr hs => Or.inr (h.2 rec attrs hr hs)⟩)
  obtain ⟨rfl, hr⟩ := h
  obtain ⟨rec, attrs⟩ := x
  dsimp only
  have hplace := resolve_place l attrs
  rw [← iterate_resolve] at hplace
  cases hfound : (recordIterateAttr .extents (extentResolveCb l) attrs none).2 with
  | some e =>
    rw [hfound] at hplace
    exact wpAbs_pure ⟨rfl, rec, attrs, hr, hplace.symm⟩
  | none =>
    rw [hfound] at hplace
    refine wpAbs_throw ⟨rfl, fun rec' attrs' hr' _ => Or.inl ⟨rfl, ?_⟩⟩
    rw [(hr'.unique hr).2]
    exact hplace.symm

end

/-! ## The files -/

structure Volume.FileAt (v : Volume) (id : Nat) (rec : Record) (attrs : List Attr) : Prop
    extends v.RecordAt id rec attrs where
  file : rec.objectType = .file

/-- The blocks of a file: the one of its record and those its extents lead to. -/
def Volume.owned (v : Volume) (id : Nat) (attrs : List Attr) : List Nat :=
  (v.mrtEntry id).physicalBlock :: (blockPairs attrs).map Prod.snd

structure Volume.FileOk (v : Volume) (id : Nat) (attrs : List Attr) : Prop where
  extents : Extents attrs
  nodup : (v.owned id attrs).Nodup
  inUse : ∀ b ∈ v.owned id attrs, v.InUse b

/-- **The files of a volume** are one-to-one maps, they own different blocks, and these are in use. -/
structure Volume.FilesOk (v : Volume) : Prop where
  layout : v.sb.toLayout.WF
  ring : v.RingOk
  slots : ∀ id, v.Bound id → v.sb.dataStart ≤ (v.mrtEntry id).physicalBlock
  files : ∀ {id rec attrs}, v.FileAt id rec attrs → v.FileOk id attrs
  apart : ∀ {id id' rec rec' attrs attrs'}, v.FileAt id rec attrs → v.FileAt id' rec' attrs' → id ≠ id' →
    ∀ b ∈ v.owned id attrs, b ∉ v.owned id' attrs'

/-! ## What leaves the files alone -/

structure LeavesFiles (v v' : Volume) : Prop where
  view : ∀ b, ¬v.sb.InJournal b → ¬v.sb.InBitmap b → v'.view b = v.view b
  layout : v'.sb.toLayout = v.sb.toLayout
  ring : v.RingOk → v'.RingOk
  mounted : v'.mounted = v.mounted

section

variable {v v' w : Volume} {id id' l b : Nat} {rec rec' : Record} {attrs attrs' : List Attr}

theorem JournalSteps.leavesFiles (h : JournalSteps v v') (hr : v.RingOk) : LeavesFiles v v' :=
  ⟨fun b hb _ => (h hr).view b hb, (h hr).layout, fun _ => (h hr).head, (h hr).mounted⟩

theorem AllocFrame.leavesFiles (h : AllocFrame v v') : LeavesFiles v v' := ⟨h.view, h.layout, h.ring, h.mounted⟩

theorem Layout.WF.not_bitmap_of_mrt {l : Layout} (h : l.WF) (hb : l.mrtStart ≤ b) : ¬l.InBitmap b := by
  have h3 := h.bitmap
  rintro ⟨-, h0⟩
  omega

theorem Layout.WF.mrtStart_le {l : Layout} (h : l.WF) : l.mrtStart ≤ l.dataStart := by
  have := h.mrt
  omega

section

variable (hl : v.sb.toLayout.WF) (h : LeavesFiles v v')
include hl h

theorem LeavesFiles.view_of_mrt (hb : v.sb.mrtStart ≤ b) : v'.view b = v.view b := by
  apply h.view b
  · have h1 := hl.journal
    have h2 := hl.journalStart
    have h3 := hl.bitmap
    rintro (h0 | h0) <;> omega
  · exact hl.not_bitmap_of_mrt hb

theorem LeavesFiles.view_of_data (hb : v.sb.dataStart ≤ b) : v'.view b = v.view b :=
  h.view_of_mrt hl (le_trans hl.mrtStart_le hb)

theorem LeavesFiles.mrtEntry : v'.mrtEntry = v.mrtEntry := by
  funext id
  have hblock : v'.mrtBlock id = v.mrtBlock id := by
    unfold Volume.mrtBlock
    rw [h.layout]
  rw [Volume.mrtEntry, Volume.mrtEntry, hblock, h.view_of_mrt hl (b := v.mrtBlock id) (Nat.le_add_right _ _)]

theorem LeavesFiles.bound : v'.Bound id ↔ v.Bound id := by
  unfold Volume.Bound
  rw [h.mrtEntry hl, h.layout]

theorem LeavesFiles.owned : v'.owned id attrs = v.owned id attrs := by
  rw [Volume.owned, Volume.owned, h.mrtEntry hl]

theorem LeavesFiles.recordAt (hslot : v.Bound id → v.sb.dataStart ≤ (v.mrtEntry id).physicalBlock) :
    v'.RecordAt id rec attrs ↔ v.RecordAt id rec attrs := by
  constructor
  · rintro ⟨hb, hview, hgen⟩
    have hb := (h.bound hl).1 hb
    rw [h.mrtEntry hl] at hview hgen
    exact ⟨hb, (h.view_of_data hl (hslot hb)).symm.trans hview, hgen⟩
  · rintro ⟨hb, hview, hgen⟩
    refine ⟨(h.bound hl).2 hb, ?_, ?_⟩
    · rw [h.mrtEntry hl, h.view_of_data hl (hslot hb), hview]
    · rw [h.mrtEntry hl, hgen]

end

theorem LeavesFiles.fileAt (hv : v.FilesOk) (h : LeavesFiles v v') : v'.FileAt id rec attrs ↔ v.FileAt id rec attrs :=
  ⟨fun hf => ⟨(h.recordAt hv.layout (hv.slots id)).1 hf.toRecordAt, hf.file⟩,
    fun hf => ⟨(h.recordAt hv.layout (hv.slots id)).2 hf.toRecordAt, hf.file⟩⟩

theorem Volume.FilesOk.leaves (hv : v.FilesOk) (h : LeavesFiles v v')
    (hused : ∀ {id rec attrs}, v.FileAt id rec attrs → ∀ b ∈ v.owned id attrs, v'.used (b - v.sb.dataStart) = true) :
    v'.FilesOk := by
  refine ⟨by rw [h.layout]; exact hv.layout, h.ring hv.ring, fun id hb => ?_, fun hf => ?_, fun hf hf' hne b hb => ?_⟩
  · rw [h.mrtEntry hv.layout, h.layout]
    exact hv.slots id ((h.bound hv.layout).1 hb)
  · have hf := (h.fileAt hv).1 hf
    have hok := hv.files hf
    refine ⟨hok.extents, by rw [h.owned hv.layout]; exact hok.nodup, fun b hb => ?_⟩
    rw [h.owned hv.layout] at hb
    have huse := hok.inUse b hb
    constructor
    · rw [h.layout]
      exact huse.low
    · rw [h.layout]
      exact huse.high
    · rw [h.layout]
      exact hused hf b hb
  · rw [h.owned hv.layout] at hb ⊢
    exact hv.apart ((h.fileAt hv).1 hf) ((h.fileAt hv).1 hf') hne b hb

theorem Volume.FilesOk.journal (hv : v.FilesOk) (h : JournalSteps v v') : v'.FilesOk ∧ LeavesFiles v v' := by
  have hlv := h.leavesFiles hv.ring
  refine ⟨hv.leaves hlv (fun hf b hb => ?_), hlv⟩
  have huse := (hv.files hf).inUse b hb
  rw [sameUsed_of_view hv.layout hlv.layout (h hv.ring).view _ huse.high]
  exact huse.used

/-- Block `b` is none of a file's. -/
def Volume.Unowned (v : Volume) (b : Nat) : Prop := ∀ {id rec attrs}, v.FileAt id rec attrs → b ∉ v.owned id attrs

/-! ## Writing a block of the data area -/

section

variable {x : BlockData} (hl : v.sb.toLayout.WF) (hb : v.sb.dataStart ≤ b)
include hl hb

theorem mrtEntry_writeData (hid : id < v.sb.mrtCapacity) : (v.write b x).mrtEntry id = v.mrtEntry id := by
  have hdiv : id / entriesPerBlock < v.sb.mrtLength :=
    Nat.div_lt_of_lt_mul (by rw [Nat.mul_comm, ← hl.capacity]; exact hid)
  have hne : v.mrtBlock id ≠ b := by
    have := hl.mrt
    unfold Volume.mrtBlock
    omega
  exact congrArg (fun y : BlockData => y.mrtEntries (id % entriesPerBlock)) (Function.update_of_ne hne _ _)

theorem used_writeData {i : Nat} (hi : i < v.sb.dataBlocks) : (v.write b x).used i = v.used i := by
  have hne : v.sb.bitmapBlock i ≠ b := by
    have h1 := (hl.inBitmap hi).2
    have h2 := hl.bitmap
    have h3 := hl.mrt
    omega
  exact congrArg (fun y : BlockData => y.bits (i % bitsPerBlock)) (Function.update_of_ne hne _ _)

theorem bound_writeData : (v.write b x).Bound id ↔ v.Bound id := by
  constructor
  · rintro ⟨hid, h⟩
    rw [mrtEntry_writeData hl hb hid] at h
    exact ⟨hid, h⟩
  · rintro ⟨hid, h⟩
    refine ⟨hid, ?_⟩
    rw [mrtEntry_writeData hl hb hid]
    exact h

theorem owned_writeData (hbound : v.Bound id) : (v.write b x).owned id attrs = v.owned id attrs := by
  rw [Volume.owned, Volume.owned, mrtEntry_writeData hl hb hbound.1]

theorem inUse_writeData {c : Nat} (h : v.InUse c) : (v.write b x).InUse c :=
  ⟨h.low, h.high, (used_writeData hl hb h.high).trans h.used⟩

theorem fileAt_writeData (hne : v.Bound id → (v.mrtEntry id).physicalBlock ≠ b) :
    (v.write b x).FileAt id rec attrs ↔ v.FileAt id rec attrs := by
  constructor
  · rintro ⟨⟨hbound, hview, hgen⟩, hfile⟩
    have hbound := (bound_writeData hl hb).1 hbound
    rw [mrtEntry_writeData hl hb hbound.1] at hview hgen
    rw [Volume.write_view, Function.update_of_ne (hne hbound)] at hview
    exact ⟨⟨hbound, hview, hgen⟩, hfile⟩
  · rintro ⟨⟨hbound, hview, hgen⟩, hfile⟩
    refine ⟨⟨(bound_writeData hl hb).2 hbound, ?_, ?_⟩, hfile⟩
    · rw [mrtEntry_writeData hl hb hbound.1, Volume.write_view, Function.update_of_ne (hne hbound)]
      exact hview
    · rw [mrtEntry_writeData hl hb hbound.1]
      exact hgen

end

theorem Volume.FilesOk.writeData (hv : v.FilesOk) (hb : v.sb.dataStart ≤ b)
    (hrec : ∀ {id rec attrs}, v.FileAt id rec attrs → (v.mrtEntry id).physicalBlock ≠ b) (x : Nat → UInt8) :
    (v.write b (.raw x)).FilesOk ∧
      ∀ {id rec attrs}, (v.write b (.raw x)).FileAt id rec attrs ↔ v.FileAt id rec attrs := by
  have hfile : ∀ {id rec attrs}, (v.write b (.raw x)).FileAt id rec attrs ↔ v.FileAt id rec attrs := by
    intro id rec attrs
    by_cases hc : v.Bound id ∧ (v.mrtEntry id).physicalBlock = b
    · refine iff_of_false (fun hf => ?_) (fun hf => hrec hf hc.2)
      have hview := hf.view
      rw [mrtEntry_writeData hv.layout hb hc.1.1, hc.2, Volume.write_view, Function.update_self] at hview
      cases hview
    · exact fileAt_writeData hv.layout hb (fun h h' => hc ⟨h, h'⟩)
  refine ⟨⟨hv.layout, hv.ring, fun id hb' => ?_, fun hf => ?_, fun hf hf' hne c hc => ?_⟩, hfile⟩
  · rw [mrtEntry_writeData hv.layout hb hb'.1]
    exact hv.slots id ((bound_writeData hv.layout hb).1 hb')
  · have hf := hfile.1 hf
    have hok := hv.files hf
    refine ⟨hok.extents, ?_, fun c hc => ?_⟩
    · rw [owned_writeData hv.layout hb hf.bound]
      exact hok.nodup
    · rw [owned_writeData hv.layout hb hf.bound] at hc
      exact inUse_writeData hv.layout hb (hok.inUse c hc)
  · have hf := hfile.1 hf
    have hf' := hfile.1 hf'
    rw [owned_writeData hv.layout hb hf.bound] at hc
    rw [owned_writeData hv.layout hb hf'.bound]
    exact hv.apart hf hf' hne c hc

/-- **A file's record may be rewritten**, where its extents lead to its own blocks and to blocks in use that no file
owns. -/
theorem Volume.FilesOk.putRecord (hv : v.FilesOk) (hf : v.FileAt id rec attrs) (hgen : rec'.generation = rec.generation)
    (hfile : rec'.objectType = .file) (hext : Extents attrs')
    (hsub : ∀ b ∈ (blockPairs attrs').map Prod.snd,
      b ∈ (blockPairs attrs).map Prod.snd ∨ v.InUse b ∧ v.Unowned b) :
    (v.write (v.mrtEntry id).physicalBlock (.record rec' attrs')).FilesOk ∧
      (v.write (v.mrtEntry id).physicalBlock (.record rec' attrs')).FileAt id rec' attrs' ∧
      ∀ {id' r a}, id' ≠ id → ((v.write (v.mrtEntry id).physicalBlock (.record rec' attrs')).FileAt id' r a ↔
        v.FileAt id' r a) := by
  have hb := hv.slots id hf.bound
  have hok := hv.files hf
  have hother : ∀ {id' r a}, id' ≠ id →
      ((v.write (v.mrtEntry id).physicalBlock (.record rec' attrs')).FileAt id' r a ↔ v.FileAt id' r a) := by
    intro id' r a hne
    by_cases hc : v.Bound id' ∧ (v.mrtEntry id').physicalBlock = (v.mrtEntry id).physicalBlock
    · -- two slots lead to the block, and only one of them has its generation
      refine iff_of_false (fun hf' => ?_) (fun hf' => ?_)
      · have hview := hf'.view
        have hgen' := hf'.generation
        rw [mrtEntry_writeData hv.layout hb hc.1.1] at hview hgen'
        rw [hc.2, Volume.write_view, Function.update_self] at hview
        cases hview
        have hf'' : v.FileAt id' rec attrs :=
          ⟨⟨hc.1, by rw [hc.2]; exact hf.view, hgen.symm.trans hgen'⟩, hf.file⟩
        refine hv.apart hf'' hf hne (v.mrtEntry id').physicalBlock List.mem_cons_self ?_
        rw [hc.2]
        exact List.mem_cons_self
      · refine hv.apart hf' hf hne (v.mrtEntry id').physicalBlock List.mem_cons_self ?_
        rw [hc.2]
        exact List.mem_cons_self
    · exact fileAt_writeData hv.layout hb (fun h h' => hc ⟨h, h'⟩)
  have hself : (v.write (v.mrtEntry id).physicalBlock (.record rec' attrs')).FileAt id rec' attrs' := by
    refine ⟨⟨(bound_writeData hv.layout hb).2 hf.bound, ?_, ?_⟩, hfile⟩
    · rw [mrtEntry_writeData hv.layout hb hf.bound.1, Volume.write_view, Function.update_self]
    · rw [mrtEntry_writeData hv.layout hb hf.bound.1, hgen, hf.generation]
  have howned : ∀ {a}, (v.write (v.mrtEntry id).physicalBlock (.record rec' attrs')).owned id a = v.owned id a :=
    owned_writeData hv.layout hb hf.bound
  have hin : ∀ c ∈ v.owned id attrs', c ∈ v.owned id attrs ∨ v.InUse c ∧ v.Unowned c := by
    intro c hc
    rcases List.mem_cons.1 hc with rfl | hc
    · exact Or.inl List.mem_cons_self
    · exact (hsub c hc).imp (List.mem_cons_of_mem _) (fun h => h)
  refine ⟨⟨hv.layout, hv.ring, fun i hi => ?_, fun {i r a} hi => ?_, fun {i j r r' a a'} hi hj hne c hc => ?_⟩,
    hself, hother⟩
  · rw [mrtEntry_writeData hv.layout hb hi.1]
    exact hv.slots i ((bound_writeData hv.layout hb).1 hi)
  · by_cases hid : i = id
    · subst hid
      obtain ⟨-, rfl⟩ := hi.toRecordAt.unique hself.toRecordAt
      refine ⟨hext, ?_, fun c hc => ?_⟩
      · rw [howned, Volume.owned, List.nodup_cons]
        refine ⟨fun hmem => ?_, hext.injective⟩
        rcases hsub _ hmem with h | h
        · exact (List.nodup_cons.1 hok.nodup).1 h
        · exact h.2 hf List.mem_cons_self
      · rw [howned] at hc
        refine inUse_writeData hv.layout hb ?_
        rcases hin c hc with h | h
        · exact hok.inUse c h
        · exact h.1
    · have hi := (hother hid).1 hi
      have hok' := hv.files hi
      refine ⟨hok'.extents, ?_, fun c hc => ?_⟩
      · rw [owned_writeData hv.layout hb hi.bound]
        exact hok'.nodup
      · rw [owned_writeData hv.layout hb hi.bound] at hc
        exact inUse_writeData hv.layout hb (hok'.inUse c hc)
  · -- a block of the new record is one of the old record or no file's
    have hmine : ∀ {k r a c}, k ≠ id → v.FileAt k r a → c ∈ v.owned id attrs' → c ∉ v.owned k a := by
      intro k r a c hk hfk hc hck
      rcases hin c hc with h | h
      · exact hv.apart hf hfk (Ne.symm hk) c h hck
      · exact h.2 hfk hck
    by_cases hid : i = id
    · subst hid
      obtain ⟨-, rfl⟩ := hi.toRecordAt.unique hself.toRecordAt
      have hj' := (hother (Ne.symm hne)).1 hj
      rw [howned] at hc
      rw [owned_writeData hv.layout hb hj'.bound]
      exact hmine (Ne.symm hne) hj' hc
    · have hi' := (hother hid).1 hi
      rw [owned_writeData hv.layout hb hi'.bound] at hc
      by_cases hjd : j = id
      · subst hjd
        obtain ⟨-, rfl⟩ := hj.toRecordAt.unique hself.toRecordAt
        rw [howned]
        exact fun hmem => hmine hid hi' hmem hc
      · have hj' := (hother hjd).1 hj
        rw [owned_writeData hv.layout hb hj'.bound]
        exact hv.apart hi' hj' hne c hc

end

end SmkFs
end AmitX
