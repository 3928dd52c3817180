import AmitX.SmkFs.FileSpec
import AmitX.SmkFs.FreeEntry
import AmitX.SmkFs.RecordBytes
/-!
# ExtentMap — the extents of a file as a map, in every run of writes (`extent.c`, `file.c`)

A write takes a logical block for a hole whenever `extent_resolve` does not return OK.  Where that is because the record
could not be read, a block that has an extent gets a second one.  In a run in which no such lookup fails, the extents of
every file stay a one-to-one map.
-/
namespace AmitX
namespace SmkFs

open Prog Volume Pieces Run

/-! ## One more block -/

section

variable {D H : Prop} {v v' w : Volume} {id l b : Nat} {rec : Record} {attrs : List Attr}

structure SameFiles (v v' : Volume) : Prop where
  ok : v'.FilesOk
  layout : v'.sb.toLayout = v.sb.toLayout
  files : ∀ {id rec attrs}, v'.FileAt id rec attrs ↔ v.FileAt id rec attrs

theorem SameFiles.refl (h : v.FilesOk) : SameFiles v v := ⟨h, rfl, Iff.rfl⟩

theorem SameFiles.trans (h : SameFiles v w) (h' : SameFiles w v') : SameFiles v v' :=
  ⟨h'.ok, h'.layout.trans h.layout, h'.files.trans h.files⟩

theorem Volume.FilesOk.sameFiles_journal (hv : v.FilesOk) (h : JournalSteps v v') : SameFiles v v' :=
  ⟨(hv.journal h).1, (hv.journal h).2.layout, (hv.journal h).2.fileAt hv⟩

theorem Volume.FilesOk.fresh_journal (hv : v.FilesOk) (h : JournalSteps v v') (hb : v.InUse b) (hfree : v.Unowned b) :
    v'.InUse b ∧ v'.Unowned b := by
  have hsame := hv.sameFiles_journal h
  refine ⟨⟨by rw [hsame.layout]; exact hb.low, by rw [hsame.layout]; exact hb.high, ?_⟩, fun hf => ?_⟩
  · rw [hsame.layout, sameUsed_of_view hv.layout hsame.layout (h hv.ring).view _ hb.high]
    exact hb.used
  · rw [(hv.journal h).2.owned hv.layout]
    exact hfree (hsame.files.1 hf)

/-- The file has gained the pair of `l` and `b`; the others are as they were. -/
structure GainsBlock (v : Volume) (id l b : Nat) (attrs : List Attr) (v' : Volume) : Prop where
  ok : v'.FilesOk
  layout : v'.sb.toLayout = v.sb.toLayout
  file : ∃ rec' attrs', v'.FileAt id rec' attrs' ∧ (blockPairs attrs').Perm ((l, b) :: blockPairs attrs)
  others : ∀ {id' r a}, id' ≠ id → (v'.FileAt id' r a ↔ v.FileAt id' r a)

def Volume.Small (v : Volume) : Prop := v.sb.totalBlocks ≤ 2 ^ 32

theorem length_le_of_nodup {xs : List Nat} (lo hi : Nat) (hn : xs.Nodup) (h : ∀ x ∈ xs, lo ≤ x ∧ x < hi) :
    xs.length ≤ hi - lo := by
  have hsub : xs ⊆ List.range' lo (hi - lo) := fun x hx => by
    have := h x hx
    rw [List.mem_range'_1]
    omega
  have := (hn.subperm hsub).length_le
  rwa [List.length_range'] at this

theorem length_blockPairs_lt (hv : v.FilesOk) (hsmall : v.Small) (hf : v.FileAt id rec attrs) (hb : v.InUse b)
    (hfree : v.Unowned b) : (blockPairs attrs).length + 1 < 2 ^ 32 := by
  have hok := hv.files hf
  have hlen := length_le_of_nodup v.sb.dataStart v.sb.totalBlocks (List.nodup_cons.2 ⟨hfree hf, hok.nodup⟩)
    (fun x hx => by
      have huse : v.InUse x := by
        rcases List.mem_cons.1 hx with rfl | hx
        · exact hb
        · exact hok.inUse x hx
      have hlow := huse.low
      have hhigh := huse.high
      rw [hv.layout.dataBlocks_eq] at hhigh
      omega)
  unfold Volume.Small at hsmall
  simp only [Volume.owned, List.length_cons, List.length_map] at hlen
  have := hv.layout.journalStart
  have := hv.layout.journal
  have := hv.layout.bitmap
  have := hv.layout.mrt
  omega

theorem fwp_extentAdd (D H : Prop) (hv : v.FilesOk) (hsmall : v.Small) (hf : v.FileAt id rec attrs)
    (hl : blockOf attrs l = none) (hb : v.InUse b) (hfree : v.Unowned b) : fwp D H (extentAdd id l b 1)
    (fun _ v' => GainsBlock v id l b attrs v') (fun _ v' => SameFiles v v' ∧ v'.InUse b ∧ v'.Unowned b) v := by
  have herr : SameFiles v v ∧ v.InUse b ∧ v.Unowned b := ⟨.refl hv, hb, hfree⟩
  unfold extentAdd
  refine wpAbs_seq (fwp_mrtResolve_bound D H v id) (fun entry w h => ?_) (fun _ w h => by rw [h.1]; exact herr)
  obtain ⟨rfl, rfl, hbound⟩ := h
  refine wpAbs_bind (wpAbs_orThrow (vwp_readBlock ?_ (fun _ => herr)))
  rw [hf.view]
  have hmem : b ∉ (blockPairs attrs).map Prod.snd := fun h => hfree hf (List.mem_cons_of_mem _ h)
  dsimp only [onAttrs]
  rcases hrun : extentInsert ⟨l, b, 1⟩ attrs with ⟨e | u, attrs'⟩
  · exact wpAbs_bind (wpAbs_throw herr)
  · obtain ⟨hext, hperm⟩ := extents_insert (hv.files hf).extents hl hmem (length_blockPairs_lt hv hsmall hf hb hfree) hrun
    refine wpAbs_bind (wpAbs_pure (wpAbs_mono (fwp_recordWrite D H w id _ attrs') (fun _ v' h => ?_)
      (fun _ _ h => ⟨hv.sameFiles_journal h, hv.fresh_journal h hb hfree⟩)))
    obtain ⟨-, x, hx, rfl⟩ := h
    have hsame := hv.sameFiles_journal hx
    have hlv := (hv.journal hx).2
    have hfx := hsame.files.2 hf
    have hput := hsame.ok.putRecord hfx
      (show ({ rec with attrCount := attrs'.length } : Record).generation = rec.generation from rfl) hf.file hext
      (fun c hc => by
        obtain ⟨⟨i, d⟩, hpair, rfl⟩ := List.mem_map.1 hc
        rcases List.mem_cons.1 (hperm.mem_iff.1 hpair) with heq | hold
        · cases heq
          exact Or.inr (hv.fresh_journal hx hb hfree)
        · exact Or.inl (List.mem_map.2 ⟨(i, d), hold, rfl⟩))
    rw [hlv.mrtEntry hv.layout] at hput
    exact ⟨hput.1, hsame.layout, ⟨_, attrs', hput.2.1, hperm⟩, fun hne => (hput.2.2 hne).trans hsame.files⟩

theorem vwp_bitmapAlloc_fresh (hv : v.FilesOk) : vwp True bitmapAlloc
    (fun r v' => SameFiles v v' ∧ (r ≠ 0 → v'.InUse r ∧ v'.Unowned r)) (fun _ _ => False) v := by
  refine wpAbs_mono (vwp_bitmapAlloc True hv.layout hv.ring) (fun r v' h => ?_) (fun _ _ h => h)
  have hlv := h.frame.leavesFiles
  have hused : ∀ {id rec attrs}, v.FileAt id rec attrs → ∀ b ∈ v.owned id attrs, v'.used (b - v.sb.dataStart) = true :=
    fun hf b hb => h.keeps _ ((hv.files hf).inUse b hb).high ((hv.files hf).inUse b hb).used
  refine ⟨⟨hv.leaves hlv hused, hlv.layout, hlv.fileAt hv⟩, fun hr => ?_⟩
  rcases h.result with ⟨-, s, rfl, hs, hclear, hset, -⟩ | ⟨rfl, -⟩
  · have hdata := hv.layout.dataBlocks_eq
    have hlow := hv.layout.data
    have hidx : v.sb.dataStart + s - v.sb.dataStart = s := Nat.add_sub_cancel_left _ _
    refine ⟨⟨by rw [hlv.layout]; omega, by rw [hlv.layout, hidx]; omega, ?_⟩, fun hf hmem => ?_⟩
    · rw [hlv.layout, hidx]
      exact hset s (Nat.le_refl s) (by omega)
    · rw [hlv.owned hv.layout] at hmem
      have huse := (hv.files ((hlv.fileAt hv).1 hf)).inUse _ hmem
      have := huse.used
      rw [hidx, hclear s (Nat.le_refl s) (by omega)] at this
      cases this
  · exact absurd rfl hr

theorem vwp_bitmapClear_unowned (hv : v.FilesOk) (hb : v.InUse b) (hfree : v.Unowned b) :
    vwp True (bitmapClear b) (fun _ v' => SameFiles v v') (fun _ v' => SameFiles v v') v := by
  refine wpAbs_mono (vwp_bitmapClear True v b) (fun _ v' h => ?_) (fun _ v' h => by rw [h.1]; exact .refl hv)
  obtain ⟨-, rfl⟩ := h
  have hlv := (allocFrame_bitmapClear hv.layout hb.high).leavesFiles
  refine ⟨hv.leaves hlv (fun hf c hc => ?_), hlv.layout, hlv.fileAt hv⟩
  have huse := (hv.files hf).inUse c hc
  have hne : c - v.sb.dataStart ≠ b - v.sb.dataStart := fun h => by
    have h1 := huse.low
    have h2 := hb.low
    obtain rfl : c = b := by omega
    exact hfree hf hc
  rw [used_bitmapClear, Function.update_of_ne hne]
  exact huse.used

theorem vwp_fillHole (hv : v.FilesOk) (hsmall : v.Small) (hf : v.FileAt id rec attrs) (hl : blockOf attrs l = none) :
    vwp True (fillHole id l) (fun x v' => GainsBlock v id l x.1 attrs v') (fun _ v' => SameFiles v v') v := by
  unfold fillHole
  refine wpAbs_seq (vwp_bitmapAlloc_fresh hv) (fun r w h => ?_) (fun _ _ h => h.elim)
  obtain ⟨hsame, hr⟩ := h
  refine wpAbs_bind (wpAbs_failIf (fun _ => hsame) (fun hne => ?_))
  obtain ⟨huse, hfree⟩ := hr hne
  have hsmall' : w.Small := by
    unfold Volume.Small
    rw [hsame.layout]
    exact hsmall
  refine wpAbs_elseDo (wpAbs_mono (fwp_extentAdd True True hsame.ok hsmall' (hsame.files.2 hf) hl huse hfree)
    (fun _ x hx => wpAbs_pure ?_) (fun _ x hx => ?_))
  · exact ⟨hx.ok, hx.layout.trans hsame.layout, hx.file, fun hne => (hx.others hne).trans hsame.files⟩
  · obtain ⟨hsame', huse', hfree'⟩ := hx
    exact wpAbs_bind (wpAbs_ignore (wpAbs_mono (vwp_bitmapClear_unowned hsame'.ok huse' hfree')
      (fun _ _ h => wpAbs_throw ((hsame.trans hsame').trans h))
      (fun _ _ h => wpAbs_throw ((hsame.trans hsame').trans h))))

end

/-! ## The lookups of a write -/

/-- Where `extent_resolve` finds a logical block when nothing fails. -/
def Mount.resolve (s : Mount) (id l : Nat) : Option Nat :=
  match (extentResolve id l s.faultless).1 with
  | .ok e => some (e.place l)
  | .error _ => none

/-- A lookup that fails for another reason than `SMKFS_ERR_NOTFOUND` is of a block that has no extent. -/
def LookupOk (s : Mount) (id l : Nat) : Prop :=
  ∀ e s', extentResolve id l s = (.error e, s') → e ≠ .notfound → s.resolve id l = none

/-- The lookups of the blocks written from byte `done` on. -/
def ChunksHeed (other : BlockData → Nat → UInt8) (id offset : Nat) (buf : List UInt8) : Nat → Nat → Mount → Prop
  | 0, _, _ => True
  | n + 1, done, s => done < buf.length →
    (∀ s', malloc s = (.ok true, s') → LookupOk s' id (add64 offset done / blockSize)) ∧
    ∀ r s', blockWriteByte other id (add64 offset done / blockSize) (add64 offset done % blockSize)
      ((buf.drop done).take (chunkLen (add64 offset done) (buf.length - done))) s = (.ok r, s') →
        ChunksHeed other id offset buf n (done + r) s'

/-- A call of `smkfs_write`, with the outcomes that it meets. -/
structure WriteCall where
  recordId : Nat
  offset : Nat
  buf : List UInt8
  outcomes : List Outcome
  heap : List Bool

def WriteCall.run (other : BlockData → Nat → UInt8) (s : Mount) (c : WriteCall) : Except Err Nat × Mount :=
  smkfsWrite other c.recordId c.offset c.buf (s.meet c.outcomes c.heap)

def WriteCall.Heeds (other : BlockData → Nat → UInt8) (s : Mount) (c : WriteCall) : Prop :=
  ∀ attrs s', writeBegin c.recordId (s.meet c.outcomes c.heap) = (.ok attrs, s') →
    ChunksHeed other c.recordId c.offset c.buf (c.buf.length + 1) 0 s'

section

variable {other : BlockData → Nat → UInt8} {s s' : Mount} {id l offset done : Nat} {rec : Record} {attrs : List Attr}
  {src buf : List UInt8}

theorem wp_of_vwp {α : Type} {m : FsM α} {Q : α → Volume → Prop} {E : Err → Volume → Prop} (h : vwp True m Q E s.vol) :
    wp m (fun x s' => Q x s'.vol) (fun e s' => E e s'.vol) s :=
  wp_mono (h s ⟨fun _ => trivial, fun _ => trivial⟩ rfl) (fun _ _ h => h.2) (fun _ _ h => h.2)

theorem resolve_eq (hr : s.vol.RecordAt id rec attrs) (hs : s.vol.sectorOk) : s.resolve id l = blockOf attrs l := by
  obtain ⟨hd, hh⟩ := faultless_reliable s
  have hpost := (fwp_apply (s := s.faultless) (P := fun r _ =>
      (match r with
        | .ok e => some (e.place l)
        | .error _ => none) = blockOf attrs l)
    (wpAbs_mono (fwp_extentResolve False False s.faultless.vol id l) (fun e _ h => ?_) (fun e _ h => ?_))
    ⟨fun h => hd h, fun h => hh h⟩).2
  · exact hpost
  · obtain ⟨-, rec', attrs', hr', hblock⟩ := h
    rw [← (hr.unique hr').2] at hblock
    exact hblock.symm
  · rcases h.2 rec attrs hr hs with ⟨-, h⟩ | ⟨-, h⟩ | ⟨-, h⟩
    · exact h.symm
    · exact h.elim
    · exact h.elim

/-- The files are one-to-one maps of blocks that can be counted. -/
structure Volume.Ready (v : Volume) : Prop where
  ok : v.FilesOk
  small : v.Small

def Volume.HasFile (v : Volume) (id : Nat) : Prop := ∃ rec attrs, v.FileAt id rec attrs

theorem SameFiles.ready {v v' : Volume} (h : SameFiles v v') (hv : v.Small) : v'.Ready := by
  refine ⟨h.ok, ?_⟩
  unfold Volume.Small
  rw [h.layout]
  exact hv

theorem GainsBlock.ready {v v' : Volume} {b : Nat} (h : GainsBlock v id l b attrs v') (hv : v.Small) : v'.Ready := by
  refine ⟨h.ok, ?_⟩
  unfold Volume.Small
  rw [h.layout]
  exact hv

/-- Block `b` is one that the extents of the file lead to. -/
def Volume.Maps (v : Volume) (id b : Nat) : Prop :=
  ∃ rec attrs, v.FileAt id rec attrs ∧ b ∈ (blockPairs attrs).map Prod.snd

theorem Volume.Maps.hasFile {v : Volume} {b : Nat} (h : v.Maps id b) : v.HasFile id := by
  obtain ⟨rec, attrs, hf, -⟩ := h
  exact ⟨rec, attrs, hf⟩

theorem mem_of_blockOf {b : Nat} (h : blockOf attrs l = some b) : b ∈ (blockPairs attrs).map Prod.snd :=
  List.mem_map.2 ⟨(l, b), mem_of_lookup h, rfl⟩

theorem wp_blockForWrite (hs : s.vol.Ready) (hf : s.vol.FileAt id rec attrs) (hlook : LookupOk s id l) :
    wp (blockForWrite other id l) (fun x s' => s'.vol.Ready ∧ s'.vol.Maps id x.1)
      (fun _ s' => s'.vol.Ready ∧ s'.vol.HasFile id) s := by
  have hsec : s.vol.sectorOk := sectorOk_of_wf hs.ok.layout
  have hspec := wp_of_vwp (fwp_extentResolve True True s.vol id l)
  unfold blockForWrite
  rw [wp_elseDo, wp_iff]
  constructor
  · intro e s' hrun
    obtain ⟨hvol, rec', attrs', hr, hblock⟩ := wp_ok hspec hrun
    obtain ⟨-, rfl⟩ := hf.toRecordAt.unique hr
    rw [← hvol] at hs hf
    have hmaps : s'.vol.Maps id (e.place l) := ⟨rec, attrs, hf, mem_of_blockOf hblock⟩
    have hread : vwp True (do
        let x ← (readBlock (e.place l)).orThrow .io
        pure (e.place l, imageBytes other x)) (fun x w => w.Ready ∧ w.Maps id x.1)
        (fun _ w => w.Ready ∧ w.HasFile id) s'.vol :=
      wpAbs_bind (wpAbs_orThrow (vwp_readBlock (wpAbs_pure ⟨hs, hmaps⟩) (fun _ => ⟨hs, rec, attrs, hf⟩)))
    exact wp_of_vwp hread
  · intro e s' hrun
    obtain ⟨hvol, herr⟩ := wp_error hspec hrun
    have hnone : blockOf attrs l = none := by
      rcases herr rec attrs hf.toRecordAt hsec with ⟨-, h⟩ | ⟨rfl, -⟩ | ⟨rfl, -⟩
      · exact h
      · rw [← resolve_eq hf.toRecordAt hsec]
        exact hlook _ s' hrun (by decide)
      · rw [← resolve_eq hf.toRecordAt hsec]
        exact hlook _ s' hrun (by decide)
    rw [← hvol] at hs hf
    refine wp_mono (wp_of_vwp (vwp_fillHole hs.ok hs.small hf hnone)) (fun x w h => ?_) (fun _ w h => ?_)
    · obtain ⟨rec', attrs', hf', hperm⟩ := h.file
      exact ⟨h.ready hs.small, rec', attrs', hf', (hperm.map Prod.snd).mem_iff.2 List.mem_cons_self⟩
    · exact ⟨h.ready hs.small, rec, attrs, h.files.2 hf⟩

theorem Volume.Maps.writeData {v : Volume} {b : Nat} (hv : v.Ready) (h : v.Maps id b) (x : Nat → UInt8) :
    (v.write b (.raw x)).Ready ∧ (v.write b (.raw x)).HasFile id := by
  obtain ⟨rec, attrs, hf, hb⟩ := h
  have hok := hv.ok.files hf
  have hown : b ∈ v.owned id attrs := List.mem_cons_of_mem _ hb
  have hrec : ∀ {id' r a}, v.FileAt id' r a → (v.mrtEntry id').physicalBlock ≠ b := by
    rintro id' r a hf' rfl
    by_cases hid : id' = id
    · subst hid
      exact (List.nodup_cons.1 hok.nodup).1 hb
    · exact hv.ok.apart hf' hf hid _ List.mem_cons_self hown
  obtain ⟨hnew, hfiles⟩ := hv.ok.writeData (hok.inUse b hown).low hrec x
  exact ⟨⟨hnew, hv.small⟩, rec, attrs, hfiles.2 hf⟩

theorem wp_blockWriteByte (other : BlockData → Nat → UInt8) (offset : Nat) (src : List UInt8) (hs : s.vol.Ready) (hf : s.vol.HasFile id)
    (hlook : ∀ s', malloc s = (.ok true, s') → LookupOk s' id l) :
    wp (blockWriteByte other id l offset src) (fun _ s' => s'.vol.Ready ∧ s'.vol.HasFile id)
      (fun _ s' => s'.vol.Ready ∧ s'.vol.HasFile id) s := by
  obtain ⟨rec, attrs, hf⟩ := hf
  unfold blockWriteByte
  rw [wp_bind, wp_iff]
  refine ⟨fun r s₁ hrun => ?_, fun e s₁ hrun => (wp_error (wp_malloc s) hrun).elim⟩
  have hvol := (wp_ok (wp_malloc s) hrun).1.vol
  rw [← hvol] at hs hf
  have hkeep : s₁.vol.Ready ∧ s₁.vol.HasFile id := ⟨hs, rec, attrs, hf⟩
  rw [wp_bind, wp_failIf]
  refine ⟨fun _ => hkeep, fun hbuf => ?_⟩
  rw [Bool.not_eq_false] at hbuf
  subst hbuf
  rw [wp_bind, wp_failIf]
  refine ⟨fun _ => hkeep, fun _ => ?_⟩
  rw [wp_ite]
  refine ⟨fun _ => hkeep, fun _ => ?_⟩
  rw [wp_bind]
  refine wp_mono (wp_blockForWrite hs hf (hlook s₁ hrun)) (fun x s₂ h => ?_) (fun _ _ h => h)
  obtain ⟨hready, hmaps⟩ := h
  obtain ⟨phys, block⟩ := x
  have hwrite : vwp True (do
      (writeBlock phys (.raw (patchBytes block offset src))).orThrow .io
      pure src.length) (fun _ w => w.Ready ∧ w.HasFile id) (fun _ w => w.Ready ∧ w.HasFile id) s₂.vol :=
    wpAbs_bind (wpAbs_orThrow (vwp_writeBlock (wpAbs_pure (hmaps.writeData hready _))
      (fun _ => ⟨hready, hmaps.hasFile⟩)))
  exact wp_of_vwp hwrite

theorem wp_writeChunks : ∀ (n done : Nat) {s : Mount}, s.vol.Ready → s.vol.HasFile id →
    ChunksHeed other id offset buf n done s → wp (writeChunks other id offset buf n done)
      (fun _ s' => s'.vol.Ready ∧ s'.vol.HasFile id) (fun _ s' => s'.vol.Ready ∧ s'.vol.HasFile id) s
  | 0, _, s, hs, hf, _ => ⟨hs, hf⟩
  | n + 1, done, s, hs, hf, hheed => by
    rw [writeChunks, wp_ite]
    refine ⟨fun hlt => ?_, fun _ => ⟨hs, hf⟩⟩
    obtain ⟨hlook, hrest⟩ := hheed hlt
    have hblock := wp_blockWriteByte other (add64 offset done % blockSize)
      ((buf.drop done).take (chunkLen (add64 offset done) (buf.length - done))) hs hf hlook
    rw [wp_bind, wp_iff]
    constructor
    · intro r s' hrun
      obtain ⟨hs', hf'⟩ := wp_ok hblock hrun
      exact wp_writeChunks n (done + r) hs' hf' (hrest r s' hrun)
    · intro e s' hrun
      have h := wp_error hblock hrun
      exact h

/-! ## The call -/

theorem vwp_writeBegin (id : Nat) {v : Volume} (hv : v.FilesOk) : vwp True (writeBegin id)
    (fun _ v' => SameFiles v v' ∧ v'.HasFile id) (fun _ v' => SameFiles v v') v := by
  unfold writeBegin
  refine wpAbs_bind (vwp_getMem (wpAbs_bind (wpAbs_failIf (fun _ => .refl hv) (fun _ => ?_))))
  refine wpAbs_bind (wpAbs_orThrow (wpAbs_mono (fwp_recordRead_at True True v id) (fun x w h => ?_) (fun _ w h => ?_)))
  · obtain ⟨rfl, hr⟩ := h
    refine wpAbs_bind (wpAbs_failIf (fun _ => .refl hv) (fun hfile => ?_))
    rw [Decidable.not_not] at hfile
    refine wpAbs_seq (G := fun _ y => JournalSteps w y) (wpAbs_orThrow (journalStartTransaction_steps w))
      (fun _ y hy => ?_) (fun _ y hy => ?_)
    · have hsame := hv.sameFiles_journal hy
      exact wpAbs_pure ⟨hsame, x.1, x.2, hsame.files.2 ⟨hr, hfile⟩⟩
    · exact hv.sameFiles_journal hy
  · rw [h.1]
    exact .refl hv

theorem filterMap_eraseP {α β : Type} {f : α → Option β} {p : α → Bool} (h : ∀ a, p a = true → f a = none) :
    ∀ xs : List α, (xs.eraseP p).filterMap f = xs.filterMap f
  | [] => rfl
  | a :: xs => by
    by_cases ha : p a = true
    · rw [List.eraseP_cons_of_pos ha, List.filterMap_cons_none (h a ha)]
    · rw [List.eraseP_cons_of_neg ha, List.filterMap_cons, List.filterMap_cons, filterMap_eraseP h xs]

theorem filterMap_dropLastAttr {β : Type} {f : Attr → Option β} {p : Attr → Bool} (h : ∀ a, p a = true → f a = none)
    (attrs : List Attr) : (dropLastAttr p attrs).filterMap f = attrs.filterMap f := by
  rw [dropLastAttr, List.filterMap_reverse, filterMap_eraseP h, List.filterMap_reverse, List.reverse_reverse]

theorem extentsOf_removeAttr {type : AttrType} (h : type ≠ .extents) (attrs : List Attr) :
    extentsOf (recordRemoveAttr type attrs) = extentsOf attrs := by
  apply filterMap_dropLastAttr
  intro a ha
  apply extent_of_ne
  rw [of_decide_eq_true ha]
  exact h

theorem mem_of_mem_removeAttr {type : AttrType} {a : Attr} (h : a ∈ recordRemoveAttr type attrs) : a ∈ attrs := by
  rw [recordRemoveAttr, dropLastAttr, List.mem_reverse] at h
  exact List.mem_reverse.1 (List.mem_of_mem_eraseP h)

theorem Extents.congr {attrs' : List Attr} (h : Extents attrs) (he : extentsOf attrs' = extentsOf attrs)
    (ht : ∀ a ∈ attrs', a.type = .extents → a ∈ attrs) : Extents attrs' := by
  have hp : pieces attrs' = pieces attrs := by rw [pieces, pieces, he]
  refine ⟨⟨fun a ha hta => h.typed a (ht a ha hta) hta, ?_, ?_, ?_⟩, ?_, ?_⟩
  · rw [he]
    exact h.nonempty
  · rw [he]
    exact h.ids
  · rw [he, blockPairs, hp]
    exact h.idsLt
  · rw [hp]
    exact h.functional
  · rw [hp]
    exact h.injective

theorem addSize_eq {attrs' : List Attr} {n : Nat}
    (hrun : recordAddAttr attrBufSize .fsize (.u64 n) attrs = (.ok (), attrs')) :
    attrs' = recordRemoveAttr .fsize attrs ++ [⟨.fsize, 0, .u64 n⟩] := by
  rcases recordAddAttr_cases attrBufSize (.u64 n) attrs (show smkfsAttrLookup .fsize = some true from rfl) (by decide)
    with ⟨_, hbad⟩ | hok
  · rw [hrun] at hbad
    cases hbad
  · rw [hrun] at hok
    exact (Prod.ext_iff.1 hok).2

theorem extentsOf_addSize {attrs' : List Attr} {n : Nat}
    (hrun : recordAddAttr attrBufSize .fsize (.u64 n) attrs = (.ok (), attrs')) :
    extentsOf attrs' = extentsOf attrs := by
  have hsize : (Attr.mk .fsize 0 (.u64 n)).extent = none := extent_of_ne (show AttrType.fsize ≠ .extents by decide)
  rw [addSize_eq hrun, extentsOf_append, extentsOf_removeAttr (by decide), extentsOf_cons_none hsize]
  exact List.append_nil _

theorem extents_addSize {attrs' : List Attr} {n : Nat} (h : Extents attrs)
    (hrun : recordAddAttr attrBufSize .fsize (.u64 n) attrs = (.ok (), attrs')) :
    Extents attrs' ∧ extentsOf attrs' = extentsOf attrs := by
  have hext := extentsOf_addSize hrun
  refine ⟨h.congr hext (fun a ha ht => ?_), hext⟩
  rw [addSize_eq hrun] at ha
  rcases List.mem_append.1 ha with ha | ha
  · exact mem_of_mem_removeAttr ha
  · rw [List.mem_singleton.1 ha] at ht
    cases ht

theorem blockPairs_congr {attrs' : List Attr} (he : extentsOf attrs' = extentsOf attrs) :
    blockPairs attrs' = blockPairs attrs := by
  rw [blockPairs, blockPairs, pieces, pieces, he]

theorem vwp_recordWrite_sameExtents {v : Volume} {rec' : Record} {attrs' : List Attr} (hv : v.Ready)
    (hf : v.FileAt id rec attrs) (hgen : rec'.generation = rec.generation) (hfile : rec'.objectType = .file)
    (hext : Extents attrs') (he : extentsOf attrs' = extentsOf attrs) :
    vwp True (recordWrite id rec' attrs') (fun _ v' => v'.Ready) (fun _ v' => v'.Ready) v := by
  refine wpAbs_mono (fwp_recordWrite True True v id rec' attrs') (fun _ v' h => ?_)
    (fun _ _ h => (hv.ok.sameFiles_journal h).ready hv.small)
  obtain ⟨-, w, hw, rfl⟩ := h
  have hsame := hv.ok.sameFiles_journal hw
  have hput := hsame.ok.putRecord (hsame.files.2 hf) hgen hfile hext (fun b hb => Or.inl (by
    rwa [blockPairs_congr he] at hb))
  rw [(hv.ok.journal hw).2.mrtEntry hv.ok.layout] at hput
  exact ⟨hput.1, (hsame.ready hv.small).small⟩

theorem vwp_orAbort {α : Type} {m : FsM α} {e : Err} {v : Volume} {Q : α → Volume → Prop}
    (h : vwp True m Q (fun _ v' => v'.Ready) v) : vwp True (orAbort m e) Q (fun _ v' => v'.Ready) v :=
  wpAbs_catchWith (wpAbs_mono h (fun _ _ h => h) (fun _ w hw =>
    wpAbs_seq (journalAbort_steps w) (fun _ _ hx => wpAbs_throw ((hw.ok.sameFiles_journal hx).ready hw.small))
      (fun _ _ hx => (hw.ok.sameFiles_journal hx).ready hw.small)))

theorem vwp_writeSize {v : Volume} {n : Nat} (hv : v.Ready) (hf : v.HasFile id) :
    vwp True (writeSize id n) (fun _ v' => v'.Ready) (fun _ v' => v'.Ready) v := by
  obtain ⟨rec, attrs, hf⟩ := hf
  unfold writeSize
  refine wpAbs_bind (vwp_orAbort (wpAbs_mono (fwp_recordRead_at True True v id) (fun x w h => ?_) (fun _ w h => ?_)))
  · obtain ⟨rfl, hr⟩ := h
    obtain ⟨rec', attrs'⟩ := x
    obtain ⟨rfl, rfl⟩ := hf.toRecordAt.unique hr
    dsimp only
    rcases hrun : recordAddAttr attrBufSize .fsize (.u64 n) attrs with ⟨e | u, attrs'⟩
    · exact wpAbs_pure hv
    · obtain ⟨hext, he⟩ := extents_addSize (hv.ok.files hf).extents hrun
      exact vwp_orAbort (vwp_recordWrite_sameExtents hv hf rfl hf.file hext he)
  · rw [h.1]
    exact hv

theorem smkfsWrite_ready {c : WriteCall} (hs : s.vol.Ready) (hheed : c.Heeds other s) :
    (c.run other s).2.vol.Ready := by
  have hbegin := wp_of_vwp (s := s.meet c.outcomes c.heap) (vwp_writeBegin c.recordId hs.ok)
  have hwhole : wp (smkfsWrite other c.recordId c.offset c.buf) (fun _ s' => s'.vol.Ready) (fun _ s' => s'.vol.Ready)
      (s.meet c.outcomes c.heap) := by
    unfold smkfsWrite
    rw [wp_bind, wp_iff]
    constructor
    · intro attrs s₁ hrun
      obtain ⟨hsame, hf⟩ := wp_ok hbegin hrun
      have hchunks := wp_writeChunks (c.buf.length + 1) 0 (hsame.ready hs.small) hf (hheed attrs s₁ hrun)
      have hrest : ∀ {w : Volume}, w.Ready → w.HasFile c.recordId → vwp True (do
          when (max (add64 c.offset c.buf.length) (fileSize attrs) ≠ fileSize attrs)
            (writeSize c.recordId (max (add64 c.offset c.buf.length) (fileSize attrs)))
          journalCommit.orThrow .journal
          pure c.buf.length) (fun _ v' => v'.Ready) (fun _ v' => v'.Ready) w := by
        intro w hw hfw
        have hcommit : ∀ {x : Volume}, x.Ready → vwp True (do
            journalCommit.orThrow Err.journal
            pure c.buf.length) (fun _ v' => v'.Ready) (fun _ v' => v'.Ready) x := fun hx =>
          wpAbs_seq (G := fun _ y => JournalSteps _ y) (wpAbs_orThrow (journalCommit_steps _))
            (fun _ _ hy => wpAbs_pure ((hx.ok.sameFiles_journal hy).ready hx.small))
            (fun _ _ hy => (hx.ok.sameFiles_journal hy).ready hx.small)
        exact wpAbs_seq (wpAbs_when (P := fun _ x => x.Ready) (F := fun _ x => x.Ready) (fun _ => vwp_writeSize hw hfw)
          (fun _ => hw)) (fun _ _ hx => hcommit hx) (fun _ _ hx => hx)
      rw [wp_bind]
      unfold abortOnError
      rw [wp_catchWith]
      refine wp_mono hchunks (fun _ s₂ h => wp_of_vwp (hrest h.1 h.2)) (fun e s₂ h => ?_)
      rw [wp_bind]
      exact wp_mono (wp_of_vwp (journalAbort_steps s₂.vol))
        (fun _ _ hx => (h.1.ok.sameFiles_journal hx).ready h.1.small)
        (fun _ _ hx => (h.1.ok.sameFiles_journal hx).ready h.1.small)
    · intro e s₁ hrun
      have hsame := wp_error hbegin hrun
      exact hsame.ready hs.small
  rw [WriteCall.run]
  rcases hrun : smkfsWrite other c.recordId c.offset c.buf (s.meet c.outcomes c.heap) with ⟨e | a, s'⟩
  · have h := wp_error hwhole hrun
    exact h
  · have h := wp_ok hwhole hrun
    exact h

end

/-! ## Runs -/

/-- The extents of every file lie apart, and no two logical blocks are found in one block. -/
structure Mount.OneToOne (s : Mount) : Prop where
  apart : ∀ {id rec attrs}, s.vol.FileAt id rec attrs → (extentsOf attrs).Pairwise (fun x y =>
    x.2.logicalOffset + x.2.blockCount ≤ y.2.logicalOffset ∨ y.2.logicalOffset + y.2.blockCount ≤ x.2.logicalOffset)
  injective : ∀ {id id' l l' b}, s.vol.HasFile id → s.vol.HasFile id' → s.resolve id l = some b →
    s.resolve id' l' = some b → id = id' ∧ l = l'

/-- **A block that is not mapped, given a newly allocated one**: the lookups gain exactly the pair. -/
def Mount.AddsExactly (s : Mount) : Prop :=
  ∀ {id l outcomes heap b s₁ outcomes' heap' s₂}, s.vol.HasFile id → s.resolve id l = none →
    bitmapAlloc (s.meet outcomes heap) = (.ok b, s₁) → b ≠ 0 →
    extentAdd id l b 1 (s₁.meet outcomes' heap') = (.ok (), s₂) →
    s₂.resolve id = Function.update (s.resolve id) l (some b) ∧
      (∀ id', id' ≠ id → s.vol.HasFile id' → s₂.resolve id' = s.resolve id') ∧ s₂.OneToOne

section

variable {s : Mount}

theorem blockOf_eq_some {attrs : List Attr} {l b : Nat} (h : Extents attrs) :
    blockOf attrs l = some b ↔ (l, b) ∈ blockPairs attrs :=
  lookup_eq_some h.functional

theorem Volume.FilesOk.oneToOne (hs : s.vol.FilesOk) : s.OneToOne := by
  have hsec : s.vol.sectorOk := sectorOk_of_wf hs.layout
  constructor
  · intro id rec attrs hf
    have hext := (hs.files hf).extents
    have happ := apart_of_functional hext.functional (fun p hp => by
      obtain ⟨x, hx, rfl⟩ := List.mem_map.1 hp
      exact hext.nonempty x hx)
    rw [pieces, List.pairwise_map] at happ
    exact happ
  · rintro id id' l l' b ⟨rec, attrs, hf⟩ ⟨rec', attrs', hf'⟩ h h'
    rw [resolve_eq hf.toRecordAt hsec] at h
    rw [resolve_eq hf'.toRecordAt hsec] at h'
    have hb : b ∈ s.vol.owned id attrs := List.mem_cons_of_mem _ (mem_of_blockOf h)
    have hb' : b ∈ s.vol.owned id' attrs' := List.mem_cons_of_mem _ (mem_of_blockOf h')
    have hid : id = id' := by
      by_contra hne
      exact hs.apart hf hf' hne b hb hb'
    subst hid
    obtain ⟨rfl, rfl⟩ := hf.toRecordAt.unique hf'.toRecordAt
    have hext := (hs.files hf).extents
    exact ⟨rfl, eq_of_injective hext.injective ((blockOf_eq_some hext).1 h) ((blockOf_eq_some hext).1 h')⟩

theorem Volume.Ready.addsExactly (hs : s.vol.Ready) : s.AddsExactly := by
  rintro id l outcomes heap b s₁ outcomes' heap' s₂ ⟨rec, attrs, hf⟩ hnone halloc hb hadd
  have hsec : ∀ {t : Mount}, t.vol.FilesOk → t.vol.sectorOk := fun h => sectorOk_of_wf h.layout
  rw [resolve_eq hf.toRecordAt (hsec hs.ok)] at hnone
  have hfresh := wp_ok (wp_of_vwp (s := s.meet outcomes heap) (vwp_bitmapAlloc_fresh hs.ok)) halloc
  obtain ⟨hsame, hfresh⟩ := hfresh
  obtain ⟨huse, hfree⟩ := hfresh hb
  have hready := hsame.ready hs.small
  have hgain := wp_ok (wp_of_vwp (s := s₁.meet outcomes' heap') (fwp_extentAdd True True hready.ok hready.small
    (hsame.files.2 hf) hnone huse hfree)) hadd
  obtain ⟨rec', attrs', hf', hperm⟩ := hgain.file
  refine ⟨?_, fun id' hne hfile => ?_, hgain.ok.oneToOne⟩
  · funext l'
    rw [resolve_eq hf'.toRecordAt (hsec hgain.ok), blockOf, lookup_insert (hs.ok.files hf).extents.functional
      (hgain.ok.files hf').extents.functional hperm]
    by_cases hl : l' = l
    · rw [hl, Function.update_self, Function.update_self]
    · rw [Function.update_of_ne hl, Function.update_of_ne hl, resolve_eq hf.toRecordAt (hsec hs.ok)]
      rfl
  · obtain ⟨r, a, hfile⟩ := hfile
    funext l'
    rw [resolve_eq hfile.toRecordAt (hsec hs.ok),
      resolve_eq ((hgain.others hne).2 (hsame.files.2 hfile)).toRecordAt (hsec hgain.ok)]

/-- **Extents stay one-to-one maps**, and `extent_add` adds to them exactly the pair, in every run of writes in which no
lookup of a mapped block fails. -/
theorem extents_oneToOne (other : BlockData → Nat → UInt8) (s : Mount) (calls : List WriteCall) (hs : s.vol.FilesOk)
    (hsmall : s.vol.Small) (hheed : Allowed (WriteCall.run other) (fun _ => WriteCall.Heeds other) s calls) :
    ∀ before after, calls = before ++ after → (run (WriteCall.run other) s before).2.OneToOne ∧
      (run (WriteCall.run other) s before).2.AddsExactly := by
  rintro before after rfl
  have hready : (run (WriteCall.run other) s before).2.vol.Ready :=
    run_keeps (I := fun _ t => t.vol.Ready) (fun _ t c ht hc => smkfsWrite_ready ht hc) ⟨hs, hsmall⟩ before hheed.left
  exact ⟨hready.ok.oneToOne, hready.addsExactly⟩

/-! ## A file on a small volume -/

theorem faultless_eq (h : s.dev.1.outcomes = []) (h' : s.heap = []) : s.faultless = s := by
  obtain ⟨m, ⟨d, hd⟩, heap⟩ := s
  simp only at h h'
  subst h'
  cases d
  simp only at h
  subst h
  rfl

theorem lookupOk_of_faultless {id l : Nat} (h : s.faultless = s) : LookupOk s id l := by
  intro e s' hrun _
  rw [Mount.resolve, h, hrun]

end

def fileMount : Mount := (journalCommit RecordBytes.boundMount).2.mapMem (fun m => { m with mounted := true })

def Volume.readAt (v : Volume) (id : Nat) : Option (Record × List Attr) :=
  match v.view (v.mrtEntry id).physicalBlock with
  | .record rec attrs => some (rec, attrs)
  | _ => none

theorem Volume.RecordAt.readAt {v : Volume} {id : Nat} {rec : Record} {attrs : List Attr} (h : v.RecordAt id rec attrs) :
    v.readAt id = some (rec, attrs) := by
  rw [Volume.readAt, h.view]

theorem view_of_readAt {v : Volume} {id : Nat} {rec : Record} {attrs : List Attr} (h : v.readAt id = some (rec, attrs)) :
    v.view (v.mrtEntry id).physicalBlock = .record rec attrs := by
  rw [Volume.readAt] at h
  split at h
  · rename_i hview
    cases h
    exact hview
  · cases h

/-- What the proofs on `fileMount` evaluate of it. -/
theorem fileMount_facts : fileMount.vol.sb.toLayout = mkfsLayout 16 512 ∧ fileMount.vol.sb.mrtCapacity = 256 ∧
    fileMount.vol.sb.dataStart = 11 ∧ 2 < fileMount.vol.sb.dataBlocks ∧ fileMount.vol.sb.totalBlocks ≤ 2 ^ 32 ∧
    fileMount.vol.sb.journalHead < fileMount.vol.sb.journalLength ∧
    (∀ id < 256, (fileMount.vol.mrtEntry id).allocated = true → id = 1 ∨ id = 2) ∧
    11 ≤ (fileMount.vol.mrtEntry 1).physicalBlock ∧ (fileMount.vol.mrtEntry 2).physicalBlock = 13 ∧
    fileMount.vol.used 2 = true ∧ (fileMount.vol.readAt 1).map (fun x => x.1.objectType) = some .dir ∧
    (fileMount.vol.readAt 2).map (fun x => x.2) = some [] := by
  decide +kernel

theorem fileMount_bound {id : Nat} (h : fileMount.vol.Bound id) : id = 1 ∨ id = 2 := by
  obtain ⟨-, hcap, -, -, -, -, hall, -⟩ := fileMount_facts
  exact hall id (hcap ▸ h.1) h.2.1

theorem fileMount_file {id : Nat} {rec : Record} {attrs : List Attr} (h : fileMount.vol.FileAt id rec attrs) :
    id = 2 ∧ attrs = [] := by
  obtain ⟨-, -, -, -, -, -, -, -, -, -, hroot, hfile⟩ := fileMount_facts
  rcases fileMount_bound h.bound with rfl | rfl
  · rw [h.toRecordAt.readAt, Option.map_some, h.file] at hroot
    cases hroot
  · rw [h.toRecordAt.readAt, Option.map_some] at hfile
    exact ⟨rfl, Option.some.inj hfile⟩

theorem fileMount_ready : fileMount.vol.FilesOk ∧ fileMount.vol.Small := by
  obtain ⟨hlayout, -, hstart, hblocks, hsmall, hring, -, hone, htwo, hused, -⟩ := fileMount_facts
  have hslot : fileMount.vol.InUse (fileMount.vol.mrtEntry 2).physicalBlock := by
    rw [htwo]
    refine ⟨?_, ?_, ?_⟩
    all_goals rw [hstart]
    · decide
    · exact hblocks
    · exact hused
  refine ⟨⟨?_, hring, fun id hb => ?_, fun hf => ?_, fun hf hf' hne => ?_⟩, hsmall⟩
  · rw [hlayout]
    exact (mkfsLayout_facts (by decide) (by decide)).1
  · rcases fileMount_bound hb with rfl | rfl
    · rw [hstart]
      exact hone
    · exact hslot.low
  · obtain ⟨rfl, rfl⟩ := fileMount_file hf
    refine ⟨⟨⟨?_, ?_, List.nodup_nil, ?_⟩, List.nodup_nil, List.nodup_nil⟩, List.nodup_singleton _, ?_⟩
    · intro a ha
      cases ha
    · intro x hx
      cases hx
    · intro x hx
      cases hx
    · intro b hb
      rw [List.mem_singleton.1 hb]
      exact hslot
  · exact absurd ((fileMount_file hf).1.trans (fileMount_file hf').1.symm) hne

/-- One byte written to the file, and nothing fails. -/
theorem extents_oneToOne_byte :
    (run (WriteCall.run (fun _ _ => 0)) fileMount [⟨2, 0, [7], [], []⟩]).2.OneToOne ∧
      (run (WriteCall.run (fun _ _ => 0)) fileMount [⟨2, 0, [7], [], []⟩]).2.AddsExactly := by
  obtain ⟨hs, hsmall⟩ := fileMount_ready
  refine extents_oneToOne (fun _ _ => 0) fileMount [⟨2, 0, [7], [], []⟩] hs hsmall
    (allowed_cons.2 ⟨fun attrs s' hrun => ?_, allowed_nil _⟩) _ [] rfl
  obtain rfl : (writeBegin 2 (fileMount.meet [] [])).2 = s' := by rw [hrun]
  intro _
  refine ⟨fun s₁ hmalloc => ?_, fun r s₁ hwrite => ?_⟩
  · obtain rfl : (malloc (writeBegin 2 (fileMount.meet [] [])).2).2 = s₁ := by rw [hmalloc]
    exact lookupOk_of_faultless (faultless_eq (by decide +kernel) (by decide +kernel))
  · have hone : (blockWriteByte (fun _ _ => 0) 2 (add64 0 0 / blockSize) (add64 0 0 % blockSize)
        (([7] : List UInt8).take (chunkLen (add64 0 0) 1)) (writeBegin 2 (fileMount.meet [] [])).2).1 = .ok 1 := by
      decide +kernel
    obtain rfl : r = 1 := by
      have := (congrArg Prod.fst hwrite).symm.trans hone
      cases this
      rfl
    intro hlt
    exact absurd hlt (by decide)

/-- **The lookup of the second write has no memory**: the block is taken for a hole and gets a second extent. -/
theorem not_oneToOne : ¬∀ (other : BlockData → Nat → UInt8) (s : Mount) (calls : List WriteCall), s.vol.FilesOk →
    s.vol.Small → ∀ before after, calls = before ++ after → (run (WriteCall.run other) s before).2.OneToOne ∧
      (run (WriteCall.run other) s before).2.AddsExactly := by
  intro h
  obtain ⟨hs, hsmall⟩ := fileMount_ready
  have hone := (h (fun _ _ => 0) fileMount [⟨2, 0, [7], [], []⟩, ⟨2, 0, [8], [], [true, true, false]⟩] hs hsmall _ []
    (List.append_nil _).symm).1
  have hread : (run (WriteCall.run (fun _ _ => 0)) fileMount
      [⟨2, 0, [7], [], []⟩, ⟨2, 0, [8], [], [true, true, false]⟩]).2.vol.readAt 2 =
      some (⟨2, .file, 3, 1, 1, false⟩, [⟨.extents, 0, .extent ⟨0, 14, 1⟩⟩, ⟨.fsize, 0, .u64 1⟩,
        ⟨.extents, 1, .extent ⟨0, 15, 1⟩⟩]) := by
    decide +kernel
  have hbound : (run (WriteCall.run (fun _ _ => 0)) fileMount
      [⟨2, 0, [7], [], []⟩, ⟨2, 0, [8], [], [true, true, false]⟩]).2.vol.Bound 2 := by
    unfold Volume.Bound
    decide +kernel
  have hpair := hone.apart ⟨⟨hbound, view_of_readAt hread, by decide +kernel⟩, rfl⟩
  exact absurd hpair (by decide)

end SmkFs
end AmitX
