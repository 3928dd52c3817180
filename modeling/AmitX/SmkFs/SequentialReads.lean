import AmitX.SmkFs.Descriptor
import AmitX.SmkFs.ReadSpec
/-!
# SequentialReads — reads through a descriptor, one after the other (`file.c`)

A read takes a logical block for a hole whenever `extent_resolve` does not return OK, and hands out zeros.  Where no lookup
of a mapped block fails, the reads of a run deliver what one read of all their lengths delivers.
-/
namespace AmitX
namespace SmkFs

open Prog Run

/-! ## The lookups of a read -/

/-- The lookups of the blocks read from byte `done` on. -/
def ReadChunksHeed (other : BlockData → Nat → UInt8) (id offset toRead : Nat) : Nat → Nat → Mount → Prop
  | 0, _, _ => True
  | n + 1, done, s => done < toRead →
    (∀ s', malloc s = (.ok true, s') → LookupOk s' id (add64 offset done / blockSize)) ∧
    ∀ bytes s', blockReadByte other id (add64 offset done / blockSize) (add64 offset done % blockSize)
      (chunkLen (add64 offset done) (toRead - done)) s = (.ok bytes, s') →
        ReadChunksHeed other id offset toRead n (done + bytes.length) s'

def ReadHeeds (other : BlockData → Nat → UInt8) (id offset len : Nat) (s : Mount) : Prop :=
  ∀ rec attrs s', (recordRead id).orThrow .io s = (.ok (rec, attrs), s') →
    let toRead := if fileSize attrs < add64 offset len then fileSize attrs - offset else len
    ReadChunksHeed other id offset toRead (toRead + 1) 0 s'

section

variable {other : BlockData → Nat → UInt8} {s s' : Mount} {id offset toRead len : Nat} {rec : Record}
  {attrs : List Attr}

theorem vol_of_malloc {b : Bool} (h : malloc s = (.ok b, s')) : s'.vol = s.vol := by
  have hspec : vwp True malloc (fun _ v' => v' = s.vol) (fun _ _ => False) s.vol := vwp_malloc rfl (fun _ => rfl)
  have h' := wp_ok (wp_of_vwp hspec) h
  exact h'

theorem wp_blockReadByte (hr : s.vol.RecordAt id rec attrs) (hs : s.vol.sectorOk) {l o n : Nat} (hn : o + n ≤ blockSize)
    (hlook : ∀ s', malloc s = (.ok true, s') → LookupOk s' id l) : wp (blockReadByte other id l o n)
      (fun bytes s' => s'.vol = s.vol ∧ bytes = (List.range n).map (fun i => byteIn other s.vol attrs l (o + i)))
      (fun _ s' => s'.vol = s.vol) s := by
  unfold blockReadByte
  rw [wp_bind, wp_iff]
  constructor
  · intro b s₁ hmalloc
    have hvol := vol_of_malloc hmalloc
    rw [wp_bind, wp_failIf]
    refine ⟨fun _ => hvol, fun hb => ?_⟩
    rw [wp_bind, wp_failIf]
    refine ⟨fun h => absurd hn (Nat.not_le.2 h), fun _ => ?_⟩
    rw [wp_ite]
    refine ⟨fun h0 => ⟨hvol, by rw [h0]; rfl⟩, fun _ => ?_⟩
    have hb : b = true := by simpa using hb
    subst hb
    rw [← hvol] at hr hs
    have hspec := wp_of_vwp (fwp_extentResolve True True s₁.vol id l)
    rw [wp_elseDo, wp_iff]
    constructor
    · intro e s₂ hrun
      have hres := wp_ok hspec hrun
      obtain ⟨hvol₂, rec', attrs', hr', hblock⟩ := hres
      rw [← (hr.unique hr').2] at hblock
      have hread : vwp True (do
          let x ← (readBlock (e.place l)).orThrow .io
          pure ((List.range n).map (fun i => imageBytes other x (o + i)))) (fun bytes w => w = s₂.vol ∧
            bytes = (List.range n).map (fun i => byteIn other s₂.vol attrs l (o + i))) (fun _ w => w = s₂.vol) s₂.vol :=
        wpAbs_bind (wpAbs_orThrow (vwp_readBlock (wpAbs_pure ⟨rfl, by simp only [byteIn, hblock]⟩) (fun _ => rfl)))
      rw [← hvol, ← hvol₂]
      exact wp_of_vwp hread
    · intro e s₂ hrun
      have herr := wp_error hspec hrun
      obtain ⟨hvol₂, herr⟩ := herr
      have hnone : blockOf attrs l = none := by
        rcases herr rec attrs hr hs with ⟨-, h⟩ | ⟨rfl, -⟩ | ⟨rfl, -⟩
        · exact h
        · rw [← resolve_eq hr hs]
          exact hlook s₁ hmalloc _ s₂ hrun (by decide)
        · rw [← resolve_eq hr hs]
          exact hlook s₁ hmalloc _ s₂ hrun (by decide)
      refine ⟨hvol₂.trans hvol, ?_⟩
      simp only [byteIn, hnone]
      rw [List.map_const', List.length_range]
  · intro e s₁ hmalloc
    have hspec : vwp True malloc (fun _ v' => v' = s.vol) (fun _ _ => False) s.vol := vwp_malloc rfl (fun _ => rfl)
    have h := wp_error (wp_of_vwp hspec) hmalloc
    exact h.elim

theorem wp_readChunks (hwrap : offset + toRead < 2 ^ 64) : ∀ (n done : Nat) {s : Mount},
    s.vol.RecordAt id rec attrs → s.vol.sectorOk → done ≤ toRead → ReadChunksHeed other id offset toRead n done s →
    wp (readChunks other id offset toRead n done)
      (fun bytes s' => s'.vol = s.vol ∧
        bytes = (List.range (toRead - done)).map (fun i => byteAt other s.vol attrs (offset + done + i)))
      (fun _ s' => s'.vol = s.vol) s
  | 0, _, _, _, _, _, _ => rfl
  | n + 1, done, s, hr, hs, hle, hheed => by
    have ih := @wp_readChunks hwrap n
    rw [readChunks, wp_ite]
    refine ⟨fun hlt => ?_, fun hge => ?_⟩
    · have hadd : add64 offset done = offset + done := add64_of_lt (by omega)
      obtain ⟨hpos, hmax, hfits⟩ := chunkLen_spec (offset + done) (toRead - done) (by omega)
      obtain ⟨hlook, hnext⟩ := hheed hlt
      rw [hadd] at hlook hnext ⊢
      rw [wp_bind, wp_iff]
      have hbytes := @wp_blockReadByte other _ _ _ _ hr hs _ _ _ hfits hlook
      refine ⟨fun bytes s₁ hrun => ?_, fun e s₁ hrun => (by
        have herr := wp_error hbytes hrun
        exact herr)⟩
      have hgot := wp_ok hbytes hrun
      obtain ⟨hvol, hgot⟩ := hgot
      have hlen : bytes.length = chunkLen (offset + done) (toRead - done) := by
        rw [hgot, List.length_map, List.length_range]
      have hheed' := hnext bytes s₁ hrun
      rw [hlen] at hheed'
      rw [wp_bind, hlen]
      rw [← hvol] at hr hs
      refine wp_mono (ih _ hr hs (by omega) hheed') (fun rest s₂ h => ⟨h.1.trans hvol, ?_⟩)
        (fun _ _ h => h.trans hvol)
      have hsplit : toRead - done = chunkLen (offset + done) (toRead - done) +
          (toRead - (done + chunkLen (offset + done) (toRead - done))) := by omega
      rw [hgot, h.2, hvol]
      conv_rhs => rw [hsplit, List.range_add, List.map_append, List.map_map]
      congr 1
      · apply List.map_congr_left
        intro i hi
        exact byteAt_chunk hfits (List.mem_range.1 hi)
      · apply List.map_congr_left
        intro i _
        rw [Function.comp_apply]
        congr 1
        omega
    · rw [show toRead - done = 0 by omega]
      exact ⟨rfl, rfl⟩

theorem wp_smkfsRead (hf : s.vol.FileAt id rec attrs) (hs : s.vol.sectorOk) (hwrap : offset + len < 2 ^ 64)
    (hheed : ReadHeeds other id offset len s) : wp (smkfsRead other id offset len)
      (fun bytes s' => s'.vol = s.vol ∧ bytes = (List.range (min len (fileSize attrs - offset))).map
        (fun i => byteAt other s.vol attrs (offset + i)))
      (fun _ s' => s'.vol = s.vol) s := by
  have hadd : add64 offset len = offset + len := add64_of_lt hwrap
  have hread : (if fileSize attrs < add64 offset len then fileSize attrs - offset else len) =
      if fileSize attrs ≤ offset then 0 else min len (fileSize attrs - offset) := by
    rw [hadd]
    split <;> split <;> omega
  unfold smkfsRead
  rw [wp_bind, getMem, wp_gets, wp_bind, wp_failIf]
  refine ⟨fun _ => rfl, fun _ => ?_⟩
  rw [wp_bind, wp_iff]
  have hat : vwp True ((recordRead id).orThrow Err.io) (fun x w => w = s.vol ∧ s.vol.RecordAt id x.1 x.2)
      (fun _ w => w = s.vol) s.vol :=
    wpAbs_orThrow (wpAbs_mono (fwp_recordRead_at True True s.vol id) (fun _ _ h => h) (fun _ _ h => h.1))
  have hspec := wp_of_vwp hat
  refine ⟨fun x s₁ hrun => ?_, fun e s₁ hrun => (by
    have herr := wp_error hspec hrun
    exact herr)⟩
  obtain ⟨rec', attrs'⟩ := x
  have hgot := wp_ok hspec hrun
  obtain ⟨hvol, hr⟩ := hgot
  obtain ⟨rfl, rfl⟩ := hf.toRecordAt.unique hr
  have hchunks := hheed rec attrs s₁ hrun
  dsimp only
  rw [wp_bind, wp_failIf]
  refine ⟨fun _ => hvol, fun _ => ?_⟩
  rw [wp_ite]
  refine ⟨fun hpast => ⟨hvol, ?_⟩, fun hin => ?_⟩
  · rw [show fileSize attrs - offset = 0 by omega, Nat.min_zero]
    rfl
  · rw [if_neg hin] at hread
    dsimp only at hchunks
    rw [hread] at hchunks ⊢
    rw [← hvol] at hf hs ⊢
    exact wp_mono (wp_readChunks (by omega) _ 0 hf.toRecordAt hs (Nat.zero_le _) hchunks)
      (fun _ _ h => ⟨h.1, h.2⟩) (fun _ _ h => h)

/-! ### Where nothing fails -/

theorem lookupOk_of_calm (hr : s.vol.RecordAt id rec attrs) (hs : s.vol.sectorOk)
    (hcalm : (faultView False False).inv s) (l : Nat) : LookupOk s id l := by
  intro e s' hrun hne
  have herr := wp_error (fwp_extentResolve False False s.vol id l s hcalm rfl) hrun
  rcases herr.2.2 rec attrs hr hs with ⟨h, -⟩ | ⟨-, h⟩ | ⟨-, h⟩
  · exact absurd h hne
  · exact h.elim
  · exact h.elim

theorem readChunksHeed_of_calm : ∀ (n done : Nat) {s : Mount}, s.vol.RecordAt id rec attrs → s.vol.sectorOk →
    (faultView False False).inv s → ReadChunksHeed other id offset toRead n done s
  | 0, _, _, _, _, _ => trivial
  | n + 1, done, s, hr, hs, hcalm => fun hlt => by
    obtain ⟨hpos, hmax, hfits⟩ := chunkLen_spec (add64 offset done) (toRead - done) (by omega)
    have hspec : fwp False False malloc (fun _ v' => v' = s.vol) (fun _ _ => False) s.vol := vwp_malloc rfl (fun _ => rfl)
    refine ⟨fun s' hmalloc => ?_, fun bytes s' hread => ?_⟩
    · have h := wp_ok (hspec s hcalm rfl) hmalloc
      obtain ⟨hcalm', hvol⟩ := h
      change s'.vol = s.vol at hvol
      rw [← hvol] at hr hs
      exact lookupOk_of_calm hr hs hcalm' _
    · have h := wp_ok (@fwp_blockReadByte other _ _ _ _ hr hs _ _ _ hfits s hcalm rfl) hread
      obtain ⟨hcalm', hvol, -⟩ := h
      change s'.vol = s.vol at hvol
      rw [← hvol] at hr hs
      exact readChunksHeed_of_calm n _ hr hs hcalm'

theorem readHeeds_of_calm (hf : s.vol.FileAt id rec attrs) (hs : s.vol.sectorOk)
    (hcalm : (faultView False False).inv s) : ReadHeeds other id offset len s := by
  intro rec' attrs' s' hrun
  have hspec : fwp False False ((recordRead id).orThrow .io) (fun _ w => w = s.vol) (fun _ w => w = s.vol) s.vol :=
    wpAbs_orThrow (wpAbs_mono (fwp_recordRead_at False False s.vol id) (fun _ _ h => h.1) (fun _ _ h => h.1))
  have h := wp_ok (hspec s hcalm rfl) hrun
  obtain ⟨hcalm', hvol⟩ := h
  change s'.vol = s.vol at hvol
  rw [← hvol] at hf hs
  exact readChunksHeed_of_calm _ _ hf.toRecordAt hs hcalm'

end

/-! ## Reads through a descriptor -/

/-- A call of `smkfs_read_file`, with the outcomes that it meets. -/
structure FdRead where
  len : Nat
  outcomes : List Outcome
  heap : List Bool

def FdMount.meet (f : FdMount) (c : FdRead) : FdMount := { f with mount := f.mount.meet c.outcomes c.heap }

def FdRead.run (other : BlockData → Nat → UInt8) (fd : Int) (f : FdMount) (c : FdRead) :
    Except Err (List UInt8) × FdMount := smkfsReadFile other fd c.len (f.meet c)

/-- The same read with `smkfs_read`, at the offset of the descriptor. -/
def FdRead.whole (other : BlockData → Nat → UInt8) (fd : Int) (f : FdMount) (c : FdRead) :
    Except Err (List UInt8) × Mount :=
  smkfsRead other (f.fdTable fd.toNat).recordId (f.offset fd).toNat c.len (f.meet c).mount

def FdRead.Heeds (other : BlockData → Nat → UInt8) (fd : Int) (f : FdMount) (c : FdRead) : Prop :=
  ReadHeeds other (f.fdTable fd.toNat).recordId (f.offset fd).toNat c.len (f.meet c).mount

/-- No transfer and no `malloc` fails in the call. -/
def FdRead.Calm (c : FdRead) : Prop := (∀ o ∈ c.outcomes, o = .done) ∧ ∀ r ∈ c.heap, r = true

def bytesOf : Except Err (List UInt8) → List UInt8
  | .ok bytes => bytes
  | .error _ => []

def delivered (results : List (Except Err (List UInt8))) : List UInt8 := results.flatMap bytesOf

structure FdMount.OnFile (f : FdMount) (fd : Int) : Prop where
  opened : f.Opened fd
  mounted : f.mount.mounted = true
  sectorOk : f.mount.vol.sectorOk
  record : (f.fdTable fd.toNat).recordId ≠ 0
  file : ∃ rec attrs, f.mount.vol.FileAt (f.fdTable fd.toNat).recordId rec attrs

def totalLen (calls : List FdRead) : Nat := (calls.map FdRead.len).sum

/-- The calls of a run that all return OK deliver what one read of all their lengths delivers, and the descriptor has
moved by that; where nothing fails they do return OK. -/
structure ReadsAsOne (other : BlockData → Nat → UInt8) (f : FdMount) (fd : Int) (calls : List FdRead) (whole : FdRead) :
    Prop where
  same : (∀ r ∈ (run (FdRead.run other fd) f calls).1, ∃ bytes, r = .ok bytes) →
    ∀ bytes, (whole.whole other fd f).1 = .ok bytes →
      delivered (run (FdRead.run other fd) f calls).1 = bytes ∧
      ((run (FdRead.run other fd) f calls).2.offset fd).toNat = (f.offset fd).toNat + bytes.length
  returns : (∀ c ∈ calls, c.Calm) → ∀ r ∈ (run (FdRead.run other fd) f calls).1, ∃ bytes, r = .ok bytes

section

variable {other : BlockData → Nat → UInt8} {f f' : FdMount} {fd : Int} {c whole : FdRead} {rec : Record}
  {attrs : List Attr}

def fileBytes (other : BlockData → Nat → UInt8) (v : Volume) (attrs : List Attr) (start len : Nat) : List UInt8 :=
  (List.range (min len (fileSize attrs - start))).map (fun i => byteAt other v attrs (start + i))

theorem length_fileBytes (v : Volume) (attrs : List Attr) (start len : Nat) :
    (fileBytes other v attrs start len).length = min len (fileSize attrs - start) := by
  rw [fileBytes, List.length_map, List.length_range]

theorem fileBytes_append (v : Volume) (attrs : List Attr) (start n m : Nat) :
    fileBytes other v attrs start n ++
      fileBytes other v attrs (start + (fileBytes other v attrs start n).length) m =
    fileBytes other v attrs start (n + m) := by
  have hlen := @length_fileBytes other v attrs start n
  rw [hlen]
  have hsplit : min (n + m) (fileSize attrs - start) = min n (fileSize attrs - start) +
      min m (fileSize attrs - (start + min n (fileSize attrs - start))) := by omega
  rw [fileBytes, fileBytes, fileBytes, hsplit, List.range_add, List.map_append, List.map_map]
  congr 1
  apply List.map_congr_left
  intro i _
  rw [Function.comp_apply, Nat.add_assoc]

theorem toLong_of_lt {n : Nat} (h : n < 2 ^ 31) : toLong n = n := by
  unfold toLong
  exact (bmod_of_lt (Int.natCast_nonneg n) (by exact_mod_cast h)).1

theorem advanceFd_eq {n : Nat} (h : n < 2 ^ 31) (hoff : (f.offset fd).toNat + n < 2 ^ 64) :
    ∃ f', advanceFd fd (toLong n) f = (.ok (), f') ∧ f'.mount = f.mount ∧ (f'.offset fd).toNat = (f.offset fd).toNat + n ∧
      (f'.fdTable fd.toNat).recordId = (f.fdTable fd.toNat).recordId ∧
      (f'.fdTable fd.toNat).used = (f.fdTable fd.toNat).used := by
  rw [toLong_of_lt h]
  by_cases h0 : n = 0
  · subst h0
    exact ⟨f, rfl, rfl, rfl, rfl, rfl⟩
  · have hpos : (0 : Int) < (n : Int) := by omega
    have hat : (f.setOffset fd ((f.fdTable fd.toNat).offset + UInt64.ofNat n)).fdTable fd.toNat =
        { f.fdTable fd.toNat with offset := (f.fdTable fd.toNat).offset + UInt64.ofNat n } := Function.update_self _ _ _
    refine ⟨f.setOffset fd ((f.fdTable fd.toNat).offset + UInt64.ofNat n), ?_, rfl, ?_, ?_, ?_⟩
    · rw [advanceFd, when, if_pos hpos]
      rfl
    · rw [FdMount.offset] at hoff
      rw [setOffset_offset, UInt64.toNat_add, UInt64.toNat_ofNat', Nat.mod_eq_of_lt (a := n) (by omega),
        Nat.mod_eq_of_lt hoff]
      rfl
    · rw [hat]
    · rw [hat]

theorem fdRead_ok (hf : f.OnFile fd) (hfile : f.mount.vol.FileAt (f.fdTable fd.toNat).recordId rec attrs)
    (hlen : c.len < 2 ^ 31) (hoff : (f.offset fd).toNat + c.len < 2 ^ 64) (hheed : c.Heeds other fd f)
    {bytes : List UInt8} (hrun : (c.run other fd f).1 = .ok bytes) :
    bytes = fileBytes other f.mount.vol attrs (f.offset fd).toNat c.len ∧
      (c.run other fd f).2.mount.vol = f.mount.vol ∧
      ((c.run other fd f).2.offset fd).toNat = (f.offset fd).toNat + bytes.length ∧
      ((c.run other fd f).2.fdTable fd.toNat).recordId = (f.fdTable fd.toNat).recordId ∧
      (c.run other fd f).2.OnFile fd := by
  have hread := @wp_smkfsRead other (f.meet c).mount _ _ _ _ _ (hfile : (f.meet c).mount.vol.FileAt _ _ _)
    (show (f.meet c).mount.vol.sectorOk from hf.sectorOk) hoff hheed
  have hopen := openFd_of_opened (show (f.meet c).Opened fd from hf.opened)
  rcases hr : smkfsRead other (f.fdTable fd.toNat).recordId (f.offset fd).toNat c.len (f.meet c).mount with ⟨e | b, s'⟩
  · exfalso
    have hm : onMount (smkfsRead other (f.fdTable fd.toNat).recordId (f.offset fd).toNat c.len) (f.meet c) =
        (.error e, { f.meet c with mount := s' }) := by
      rw [onMount, Prog.zoom, hr]
    have hfail : c.run other fd f = (.error e, { f.meet c with mount := s' }) := by
      rw [FdRead.run, smkfsReadFile, bind_of_ok hopen]
      exact bind_of_error hm _
    rw [hfail] at hrun
    cases hrun
  · have hgot := wp_ok hread hr
    obtain ⟨hvol, hb⟩ := hgot
    have hblen : b.length ≤ c.len := by
      rw [hb, List.length_map, List.length_range]
      exact Nat.min_le_left _ _
    have hm : onMount (smkfsRead other (f.fdTable fd.toNat).recordId (f.offset fd).toNat c.len) (f.meet c) =
        (.ok b, { f.meet c with mount := s' }) := by
      rw [onMount, Prog.zoom, hr]
    obtain ⟨f', hadv, hmount, hoff', hid, hused⟩ := @advanceFd_eq { f.meet c with mount := s' } fd b.length
      (by omega) (show (f.offset fd).toNat + b.length < 2 ^ 64 by omega)
    have hok : c.run other fd f = (.ok b, f') := by
      rw [FdRead.run, smkfsReadFile, bind_of_ok hopen]
      refine (bind_of_ok hm _).trans ?_
      rw [bind_of_ok hadv]
      rfl
    rw [hok] at hrun ⊢
    obtain rfl : b = bytes := by
      cases hrun
      rfl
    have hvol' : f'.mount.vol = f.mount.vol := by
      rw [hmount]
      exact hvol
    have hid' : (f'.fdTable fd.toNat).recordId = (f.fdTable fd.toNat).recordId := hid
    refine ⟨hb, hvol', hoff', hid', ⟨hf.opened.1, hf.opened.2.1, hused.trans hf.opened.2.2⟩, ?_, ?_, ?_, ?_⟩
    · change f'.mount.vol.mounted = true
      rw [hvol']
      exact hf.mounted
    · rw [hvol']
      exact hf.sectorOk
    · rw [hid']
      exact hf.record
    · rw [hid', hvol']
      exact hf.file

theorem run_reads : ∀ (calls : List FdRead) {f : FdMount}, f.OnFile fd →
    f.mount.vol.FileAt (f.fdTable fd.toNat).recordId rec attrs → totalLen calls < 2 ^ 31 →
    (f.offset fd).toNat + totalLen calls < 2 ^ 64 →
    Allowed (FdRead.run other fd) (fun _ => FdRead.Heeds other fd) f calls →
    (∀ r ∈ (run (FdRead.run other fd) f calls).1, ∃ bytes, r = .ok bytes) →
    delivered (run (FdRead.run other fd) f calls).1 =
      fileBytes other f.mount.vol attrs (f.offset fd).toNat (totalLen calls) ∧
    ((run (FdRead.run other fd) f calls).2.offset fd).toNat = (f.offset fd).toNat +
      (delivered (run (FdRead.run other fd) f calls).1).length
  | [], f, _, _, _, _, _, _ => by
    refine ⟨?_, rfl⟩
    rw [totalLen, List.map_nil, List.sum_nil, fileBytes, Nat.zero_min]
    rfl
  | c :: calls, f, hf, hfile, hlen, hoff, hheed, hok => by
    obtain ⟨hheed, hrest⟩ := allowed_cons.1 hheed
    have htotal : totalLen (c :: calls) = c.len + totalLen calls := by
      rw [totalLen, List.map_cons, List.sum_cons]
      rfl
    obtain ⟨bytes, hbytes⟩ := hok _ List.mem_cons_self
    obtain ⟨hb, hvol, hoff', hid, hf'⟩ := fdRead_ok hf hfile (by omega) (by omega) hheed hbytes
    have hblen : bytes.length ≤ c.len := by
      rw [hb, length_fileBytes]
      exact Nat.min_le_left _ _
    obtain ⟨hdel, hfin⟩ := run_reads calls hf' (by rw [hid, hvol]; exact hfile) (by omega) (by omega) hrest
      (fun r hr => hok r (List.mem_cons_of_mem _ hr))
    have hcons : delivered (run (FdRead.run other fd) f (c :: calls)).1 =
        bytes ++ delivered (run (FdRead.run other fd) (c.run other fd f).2 calls).1 := by
      rw [run, delivered, List.flatMap_cons, hbytes]
      rfl
    rw [hcons]
    refine ⟨?_, ?_⟩
    · rw [hdel, hvol, hoff', htotal, hb, fileBytes_append]
    · rw [run, hfin, hoff', List.length_append, Nat.add_assoc]

theorem fdRead_returns (hf : f.OnFile fd) (hoff : (f.offset fd).toNat + c.len < 2 ^ 64) (hcalm : c.Calm) :
    ∃ bytes, (c.run other fd f).1 = .ok bytes := by
  obtain ⟨rec, attrs, hfile⟩ := hf.file
  have hinv : (faultView False False).inv (f.meet c).mount := by
    refine ⟨?_, fun h => ?_⟩
    · rintro ⟨o, ho, hne⟩
      exact hne (hcalm.1 o ho)
    · exact absurd (hcalm.2 false h) (by decide)
  have hread := (fwp_apply (s := (f.meet c).mount) (P := fun r _ => ∃ bytes, r = .ok bytes)
    (wpAbs_mono (fwp_smkfsRead other (v := (f.meet c).mount.vol) hfile hf.sectorOk hf.mounted hf.record hoff)
      (fun bytes _ _ => ⟨bytes, rfl⟩) (fun _ _ h => h.elim)) hinv).2
  obtain ⟨bytes, hbytes⟩ := hread
  have hopen := openFd_of_opened (show (f.meet c).Opened fd from hf.opened)
  have hm : onMount (smkfsRead other (f.fdTable fd.toNat).recordId (f.offset fd).toNat c.len) (f.meet c) =
      (.ok bytes, { f.meet c with mount :=
        (smkfsRead other (f.fdTable fd.toNat).recordId (f.offset fd).toNat c.len (f.meet c).mount).2 }) := by
    rw [onMount, Prog.zoom]
    exact congrArg (fun r => (r, _)) hbytes
  refine ⟨bytes, ?_⟩
  rw [FdRead.run, smkfsReadFile, bind_of_ok hopen]
  refine (congrArg Prod.fst (bind_of_ok hm _)).trans ?_
  unfold advanceFd when
  split <;> rfl

theorem run_returns : ∀ (calls : List FdRead) {f : FdMount}, f.OnFile fd →
    totalLen calls < 2 ^ 31 → (f.offset fd).toNat + totalLen calls < 2 ^ 64 →
    Allowed (FdRead.run other fd) (fun _ => FdRead.Heeds other fd) f calls → (∀ c ∈ calls, c.Calm) →
    ∀ r ∈ (run (FdRead.run other fd) f calls).1, ∃ bytes, r = .ok bytes
  | [], _, _, _, _, _, _, _, hr => absurd hr List.not_mem_nil
  | c :: calls, f, hf, hlen, hoff, hheed, hcalm, r, hr => by
    obtain ⟨rec, attrs, hfile⟩ := hf.file
    obtain ⟨hheed, hrest⟩ := allowed_cons.1 hheed
    have htotal : totalLen (c :: calls) = c.len + totalLen calls := by
      rw [totalLen, List.map_cons, List.sum_cons]
      rfl
    obtain ⟨bytes, hbytes⟩ := @fdRead_returns other _ _ _ hf (by omega) (hcalm c List.mem_cons_self)
    rcases List.mem_cons.1 hr with rfl | hr
    · exact ⟨bytes, hbytes⟩
    · obtain ⟨hb, -, hoff', -, hf'⟩ := fdRead_ok hf hfile (by omega) (by omega) hheed hbytes
      have hblen : bytes.length ≤ c.len := by
        rw [hb, length_fileBytes]
        exact Nat.min_le_left _ _
      exact run_returns calls hf' (by omega) (by omega) hrest (fun d hd => hcalm d (List.mem_cons_of_mem _ hd)) r hr

theorem offset_of_seek {f₀ : FdMount} {offset : Int64} {whence n : Int}
    (h : smkfsSeek fd offset whence f₀ = (.ok n, f)) : (f.offset fd).toNat < 2 ^ 63 := by
  obtain ⟨e, f₁, -, h₁⟩ := ok_bind h
  obtain ⟨base, f₂, -, h₂⟩ := ok_bind h₁
  obtain ⟨u, f₃, hfail, h₃⟩ := ok_bind h₂
  obtain ⟨u, f₄, hmod, h₄⟩ := ok_bind h₃
  obtain ⟨hpos, rfl⟩ := ok_failIf hfail
  have hset : FdMount.setOffset fd (base.toInt64 + offset).toUInt64 f₃ = f₄ := congrArg Prod.snd hmod
  have hlast : f₄ = f := congrArg Prod.snd h₄
  rw [← hlast, ← hset]
  have hle : 0 ≤ base.toInt64 + offset := by
    rw [Int64.le_iff_toInt_le]
    rw [Int64.lt_iff_toInt_lt] at hpos
    exact Int.not_lt.1 hpos
  rw [setOffset_offset, Int64.toNat_toUInt64_of_le hle]
  exact Int64.toNatClampNeg_lt _

/-- **Sequential reads concatenate**: after a seek, the reads of a run in which no lookup of a mapped block fails deliver
what one read of all their lengths delivers. -/
theorem sequential_reads (other : BlockData → Nat → UInt8) (f₀ f : FdMount) (fd : Int) (offset : Int64) (whence : Whence)
    (n : Int) (calls : List FdRead) (whole : FdRead) (hseek : smkfsSeek fd offset whence.code f₀ = (.ok n, f))
    (hf : f.OnFile fd) (hlen : totalLen calls < 2 ^ 31) (hwhole : whole.len = totalLen calls)
    (hheed : Allowed (FdRead.run other fd) (fun _ => FdRead.Heeds other fd) f calls)
    (hheed' : whole.Heeds other fd f) : ReadsAsOne other f fd calls whole := by
  have hoff := offset_of_seek hseek
  refine ⟨fun hok bytes hbytes => ?_, fun hcalm => run_returns calls hf hlen (by omega) hheed hcalm⟩
  obtain ⟨rec, attrs, hfile⟩ := hf.file
  obtain ⟨hdel, hfin⟩ := run_reads calls hf hfile hlen (by omega) hheed hok
  have hread := @wp_smkfsRead other (f.meet whole).mount _ _ _ _ _
    (show (f.meet whole).mount.vol.FileAt _ _ _ from hfile) hf.sectorOk
    (show (f.offset fd).toNat + whole.len < 2 ^ 64 by omega) hheed'
  have hrun : smkfsRead other (f.fdTable fd.toNat).recordId (f.offset fd).toNat whole.len (f.meet whole).mount =
      (.ok bytes, (whole.whole other fd f).2) := Prod.ext hbytes rfl
  have hgot := wp_ok hread hrun
  have hsame : delivered (run (FdRead.run other fd) f calls).1 = bytes := by
    rw [hdel, ← hwhole]
    exact hgot.2.symm
  rw [hsame] at hfin
  exact ⟨hsame, hfin⟩

/-! ## A file of one byte -/

def byteOpen : FdMount := ⟨(smkfsWrite (fun _ _ => 0) 2 0 [7] fileMount).2,
  fun i => if i = 0 then ⟨true, 2, 0, 0⟩ else ⟨false, 0, 0, 0⟩⟩

def byteStart : FdMount := (smkfsSeek 0 0 Whence.set.code byteOpen).2

theorem byteStart_seek : smkfsSeek 0 0 Whence.set.code byteOpen = (.ok 0, byteStart) := rfl

theorem byteStart_onFile : byteStart.OnFile 0 := by
  have hread : (byteStart.mount.vol.readAt 2).map (fun x => (x.1.objectType, x.1.generation)) =
      some (.file, (byteStart.mount.vol.mrtEntry 2).generation) := by decide +kernel
  refine ⟨⟨by decide, by decide, rfl⟩, by decide +kernel, ?_, by decide, ?_⟩
  · unfold Mem.sectorOk
    decide +kernel
  · rw [Option.map_eq_some_iff] at hread
    obtain ⟨⟨rec, attrs⟩, hread, hrec⟩ := hread
    refine ⟨rec, attrs, ⟨?_, view_of_readAt hread, congrArg Prod.snd hrec⟩, congrArg Prod.fst hrec⟩
    unfold Volume.Bound
    decide +kernel

/-- The byte is read, and nothing fails. -/
theorem sequential_reads_byte : ReadsAsOne (fun _ _ => 0) byteStart 0 [⟨1, [], []⟩] ⟨1, [], []⟩ := by
  obtain ⟨rec, attrs, hfile⟩ := byteStart_onFile.file
  have hheed : FdRead.Heeds (fun _ _ => 0) 0 byteStart ⟨1, [], []⟩ :=
    readHeeds_of_calm (s := (byteStart.meet ⟨1, [], []⟩).mount) hfile byteStart_onFile.sectorOk
      ⟨fun h => (faultless_reliable byteStart.mount).1 h, fun h => (faultless_reliable byteStart.mount).2 h⟩
  exact sequential_reads (fun _ _ => 0) byteOpen byteStart 0 0 .set 0 [⟨1, [], []⟩] ⟨1, [], []⟩ byteStart_seek
    byteStart_onFile (by decide) rfl (allowed_cons.2 ⟨hheed, allowed_nil _⟩) hheed

/-- **The lookup of a read has no memory**: the read delivers a zero in place of the byte. -/
theorem not_sequential_reads : ¬∀ (other : BlockData → Nat → UInt8) (f₀ f : FdMount) (fd : Int) (offset : Int64)
    (whence : Whence) (n : Int) (calls : List FdRead) (whole : FdRead),
    smkfsSeek fd offset whence.code f₀ = (.ok n, f) → f.OnFile fd → totalLen calls < 2 ^ 31 →
    whole.len = totalLen calls → ReadsAsOne other f fd calls whole := by
  intro hall
  have h := (hall (fun _ _ => 0) byteOpen byteStart 0 0 .set 0 [⟨1, [], [true, true, false]⟩] ⟨1, [], []⟩ byteStart_seek
    byteStart_onFile (by decide) rfl).same
  have hone : ((FdRead.run (fun _ _ => 0) 0 byteStart ⟨1, [], [true, true, false]⟩).1) = .ok [0] := by decide +kernel
  have hwhole : (FdRead.whole (fun _ _ => 0) 0 byteStart ⟨1, [], []⟩).1 = .ok [7] := by decide +kernel
  have hrun : (run (FdRead.run (fun _ _ => 0) 0) byteStart [⟨1, [], [true, true, false]⟩]).1 = [.ok [0]] := by
    rw [run, hone]
    rfl
  rw [hrun] at h
  have hbytes := (h (fun r hr => ⟨[0], List.mem_singleton.1 hr⟩) [7] hwhole).1
  exact absurd hbytes (by decide)

end

end SmkFs
end AmitX
