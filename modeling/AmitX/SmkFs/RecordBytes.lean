import AmitX.SmkFs.AttrEdit
import AmitX.SmkFs.Checksum
import AmitX.SmkFs.Record
import AmitX.SmkFs.AllocExact
/-!
# RecordBytes — records as the bytes of their blocks (`record.c`)

A record fills the front of its block: 56 bytes of fields, then its attribute buffer with the `END`, sealed by a
checksum.  A read checks the fields and copies what the stored length says; a write walks the caller's buffer to its
`END`, and the journal takes no record beyond 4032 bytes.
-/
namespace AmitX
namespace SmkFs
namespace RecordBytes

open Bytes Prog AttrBuf Checksum
open Redo (headerValidate headerLength)

/-- The bytes of a block; `other` has those of a block that is known by its content. -/
def blockBytes (other : BlockData → Bytes.Mem) : BlockData → Bytes.Mem
  | .raw f => fun i => (f i).toBitVec
  | x => other x

def ofBytes (x : Bytes.Mem) : BlockData := .raw (fun i => ⟨x i⟩)

@[simp] theorem blockBytes_ofBytes (other : BlockData → Bytes.Mem) (x : Bytes.Mem) :
    blockBytes other (ofBytes x) = x := rfl

def stRecord : Nat := 2

def generation (x : Bytes.Mem) : Nat := load x 48 4

/-- What `record_read` fills: the fields, and the attribute buffer as far as it was copied. -/
structure ReadRecord where
  fields : Bytes.Mem
  attrs : Buf

/-- Read a record into `rec` and into `attrBuf`, which has `bufSize` bytes. -/
def recordRead (other : BlockData → Bytes.Mem) (recordId : Nat) (rec attrBuf : Bytes.Mem) (bufSize : Nat) :
    FsM ReadRecord := do
  let buf ← malloc
  failIf (buf = false) .nomem
  let entry ← mrtResolve recordId
  let x ← (readBlock entry.physicalBlock).orThrow .io
  let block := blockBytes other x
  failIf (headerValidate block stRecord = false) .corrupt
  failIf (headerLength block < recordSize) .corrupt
  failIf (headerChecksumVerify block (headerLength block) = false) .corrupt
  failIf (generation block ≠ entry.generation) .corrupt
  let attrLen := min (headerLength block - recordSize) bufSize
  pure ⟨copy rec 0 block 0 recordSize, ⟨copy attrBuf 0 block recordSize attrLen, attrLen⟩⟩

def attrMax : Nat := blockSize - recordSize

/-- The length of the attributes with their `END`, found by a walk that gives up behind the end of a block. -/
def attrLength (b : Buf) : Option (Except Err Nat) := do
  let visit := fun p (_ : Unit) => do
    let length ← b.field (p + 8) 4
    if attrMax < p + (attrHeaderSize + length) then return .inl ()
    else return .inr ()
  match ← b.walkFrom visit () with
  | .answer _ => return .error .tooBig
  | .ended p _ => return .ok (p + attrHeaderSize)

/-- The image that `record_write` builds. -/
def recordImage (rec attrBuf : Bytes.Mem) (attrLen : Nat) : Bytes.Mem :=
  let x := copy (fun _ => 0) 0 rec 0 recordSize
  let x := store x 8 4 (recordSize + attrLen)
  let x := copy x recordSize attrBuf 0 attrLen
  headerChecksumUpdate x (recordSize + attrLen)

/-- The old image, read and dropped, is what `journal_log_write` ignores. -/
def recordWrite (recordId : Nat) (rec : Bytes.Mem) (attrBuf : Buf) : FsM Unit :=
  match attrLength attrBuf with
  | none => throw .diverge
  | some (.error e) => throw e
  | some (.ok attrLen) => do
    failIf (blockSize < recordSize + attrLen) .tooBig
    let buf ← malloc
    let oldBuf ← malloc
    failIf (buf = false ∨ oldBuf = false) .nomem
    let entry ← mrtResolve recordId
    (readBlock entry.physicalBlock).ignore
    let block := ofBytes (recordImage rec attrBuf.mem attrLen)
    journalLogWrite entry.physicalBlock block (recordSize + attrLen)
    (writeBlock entry.physicalBlock block).orThrow .io

/-! ## Reading -/

section
variable {other : BlockData → Bytes.Mem} {rec attrBuf block : Bytes.Mem} {bufSize id : Nat} {v : Volume}

/-- What `record_read` asks of a block, for a slot of this generation. -/
structure Accepted (block : Bytes.Mem) (gen : Nat) : Prop where
  header : headerValidate block stRecord = true
  length : recordSize ≤ headerLength block
  checksum : headerChecksumVerify block (headerLength block) = true
  generation : generation block = gen

/-- What `record_read` hands out of a block. -/
def readOut (rec attrBuf : Bytes.Mem) (bufSize : Nat) (block : Bytes.Mem) : ReadRecord :=
  let attrLen := min (headerLength block - recordSize) bufSize
  ⟨copy rec 0 block 0 recordSize, ⟨copy attrBuf 0 block recordSize attrLen, attrLen⟩⟩

theorem fwp_mrtResolve (D H : Prop) (v : Volume) (id : Nat) : fwp D H (mrtResolve id)
    (fun entry v' => entry = v.mrtEntry id ∧ v' = v) (fun _ v' => v' = v) v := by
  unfold mrtResolve
  refine wpAbs_bind (vwp_getSb (wpAbs_bind (wpAbs_failIf (fun _ => rfl) (fun _ => ?_))))
  refine wpAbs_bind (vwp_readBlock ?_ (fun _ => rfl))
  refine wpAbs_bind (wpAbs_failIf (fun _ => rfl) (fun _ => ?_))
  exact wpAbs_bind (wpAbs_failIf (fun _ => rfl) (fun _ => wpAbs_pure ⟨rfl, rfl⟩))

theorem fwp_recordRead (other : BlockData → Bytes.Mem) (rec attrBuf : Bytes.Mem) (bufSize : Nat) (D H : Prop)
    (v : Volume) : fwp D H (recordRead other id rec attrBuf bufSize)
    (fun r v' => v' = v ∧ Accepted (blockBytes other (v.view (v.mrtEntry id).physicalBlock)) (v.mrtEntry id).generation ∧
      r = readOut rec attrBuf bufSize (blockBytes other (v.view (v.mrtEntry id).physicalBlock)))
    (fun _ v' => v' = v) v := by
  unfold recordRead
  refine wpAbs_bind (vwp_malloc ?_ (fun _ => wpAbs_bind (wpAbs_failIf (fun _ => rfl) (fun h => absurd rfl h))))
  refine wpAbs_bind (wpAbs_failIf (fun h => by simp at h) (fun _ => ?_))
  refine wpAbs_seq (fwp_mrtResolve D H v id) (fun entry v' h => ?_) (fun _ _ h => h)
  obtain ⟨rfl, rfl⟩ := h
  refine wpAbs_bind (wpAbs_orThrow (vwp_readBlock ?_ (fun _ => rfl)))
  refine wpAbs_bind (wpAbs_failIf (fun _ => rfl) (fun hheader => ?_))
  refine wpAbs_bind (wpAbs_failIf (fun _ => rfl) (fun hlength => ?_))
  refine wpAbs_bind (wpAbs_failIf (fun _ => rfl) (fun hsum => ?_))
  refine wpAbs_bind (wpAbs_failIf (fun _ => rfl) (fun hgen => wpAbs_pure ⟨rfl, ⟨?_, ?_, ?_, ?_⟩, rfl⟩))
  · simpa using hheader
  · exact Nat.le_of_not_lt hlength
  · simpa using hsum
  · simpa using hgen

theorem runs_recordRead (rec attrBuf : Bytes.Mem) (bufSize : Nat) (hs : v.sectorOk) (hb : v.Bound id)
    (hblock : blockBytes other (v.view (v.mrtEntry id).physicalBlock) = block)
    (hacc : Accepted block (v.mrtEntry id).generation) :
    Runs (recordRead other id rec attrBuf bufSize) v (readOut rec attrBuf bufSize block) v := by
  subst hblock
  unfold recordRead
  refine runs_malloc.bind ((runs_failIf (by simp)).bind ((runs_mrtResolve hs hb).bind ?_))
  refine (runs_readBlock hs _).orThrow.bind ?_
  refine (runs_failIf (by simp [hacc.header])).bind ((runs_failIf (by have := hacc.length; omega)).bind ?_)
  refine (runs_failIf (by simp [hacc.checksum])).bind ((runs_failIf (by simp [hacc.generation])).bind ?_)
  exact runs_pure _ _

end

/-! ## The image of a record -/

section
variable {rec attrBuf : Bytes.Mem} {attrLen a n gen : Nat}

theorem recordImage_field {i : Nat} (h : i < recordSize) (hlen : i < 8 ∨ 12 ≤ i) (hsum : i < 16 ∨ 20 ≤ i) :
    recordImage rec attrBuf attrLen i = rec i := by
  unfold recordImage headerChecksumUpdate
  rw [store, if_neg (by omega), store, if_neg (by omega), copy_of_not (Or.inl h), store, if_neg (by omega),
    copy_of_mem (by omega) (by omega)]
  simp

theorem load_recordImage (h : a + n ≤ recordSize) (hlen : a + n ≤ 8 ∨ 12 ≤ a) (hsum : a + n ≤ 16 ∨ 20 ≤ a) :
    load (recordImage rec attrBuf attrLen) a n = load rec a n :=
  load_congr (fun i h1 h2 => recordImage_field (by omega) (by omega) (by omega))

theorem recordImage_attr {i : Nat} (h : i < attrLen) :
    recordImage rec attrBuf attrLen (recordSize + i) = attrBuf i := by
  have hsize : recordSize = 56 := rfl
  unfold recordImage headerChecksumUpdate
  rw [store, if_neg (by omega), store, if_neg (by omega), copy_of_mem (by omega) (by omega)]
  congr 1
  omega

theorem headerLength_recordImage (h : attrLen ≤ attrMax) :
    headerLength (recordImage rec attrBuf attrLen) = recordSize + attrLen := by
  have hsize : recordSize = 56 := rfl
  have hmax : attrMax = 4040 := rfl
  unfold headerLength recordImage headerChecksumUpdate
  rw [load_store_ne (by omega), load_store_ne (by omega), load_copy_ne (by omega), load_store_of_lt (by omega)]

theorem accepted_recordImage (attrBuf : Bytes.Mem) (hheader : headerValidate rec stRecord = true) (hgen : generation rec = gen)
    (h : attrLen ≤ attrMax) : Accepted (recordImage rec attrBuf attrLen) gen := by
  have hsize : recordSize = 56 := rfl
  have hmax : attrMax + recordSize = blockSize := rfl
  have hlength : headerLength (recordImage rec attrBuf attrLen) = recordSize + attrLen := headerLength_recordImage h
  constructor
  · rw [headerValidate, load_recordImage (by omega) (by omega) (by omega), load_recordImage (by omega) (by omega)
      (by omega), load_recordImage (by omega) (by omega) (by omega)]
    exact hheader
  · rw [hlength]
    omega
  · rw [hlength]
    exact headerChecksumVerify_update _ (by omega)
  · rw [generation, load_recordImage (by omega) (by omega) (by omega)]
    exact hgen

end

/-! ## Walks over what was read -/

section
variable {other : BlockData → Bytes.Mem} {rec attrBuf block : Bytes.Mem} {bufSize n : Nat}

/-- Attributes and their `END` lie within the first `n` bytes behind the fields. -/
def EndsWithin (block : Bytes.Mem) (n : Nat) : Prop :=
  ∃ l, At block recordSize (encode l) ∧ load block (recordSize + (encode l).length) 2 = attrtEnd ∧
    (encode l).length + attrHeaderSize ≤ n

theorem ended_readOut : (∃ l, Ended (readOut rec attrBuf bufSize block).attrs l) ↔
    EndsWithin block (min (headerLength block - recordSize) bufSize) := by
  have hcopied : ∀ i, i < min (headerLength block - recordSize) bufSize →
      (readOut rec attrBuf bufSize block).attrs.mem i = block (recordSize + i) := by
    intro i hi
    exact copy_of_mem (by omega) (by omega)
  have hat : ∀ {l : List Tlv}, (encode l).length + attrHeaderSize ≤ min (headerLength block - recordSize) bufSize →
      (At (readOut rec attrBuf bufSize block).attrs.mem 0 (encode l) ↔ At block recordSize (encode l)) ∧
      load (readOut rec attrBuf bufSize block).attrs.mem (encode l).length 2 =
        load block (recordSize + (encode l).length) 2 := by
    intro l hl
    have hheader : attrHeaderSize = 12 := rfl
    refine ⟨⟨fun h => h.carry (fun i hi => ?_), fun h => h.carry (fun i hi => ?_)⟩, ?_⟩
    · rw [Nat.zero_add]
      exact (hcopied i (by omega)).symm
    · rw [Nat.zero_add]
      exact hcopied i (by omega)
    · have hload : load (copy attrBuf 0 block recordSize (min (headerLength block - recordSize) bufSize))
          (0 + (encode l).length) 2 = load block (recordSize + (encode l).length) 2 := load_copy (by omega)
      rwa [Nat.zero_add] at hload
  constructor
  · rintro ⟨l, h⟩
    obtain ⟨hb, ht⟩ := hat h.inside
    exact ⟨l, hb.1 h.bytes, ht ▸ h.type, h.inside⟩
  · rintro ⟨l, h, ht, hin⟩
    obtain ⟨hb, ht'⟩ := hat hin
    exact ⟨l, hb.2 h, ht'.trans ht, hin⟩

/-- **The walks over a record that was read stay within what was copied exactly where its block has an `END` there.** -/
theorem record_walks_iff (other : BlockData → Bytes.Mem) (id : Nat) (rec attrBuf : Bytes.Mem) (bufSize : Nat)
    (s s' : Mount) (r : ReadRecord) (h : recordRead other id rec attrBuf bufSize s = (.ok r, s')) :
    WalksInside r.attrs ↔
    EndsWithin (blockBytes other (s.vol.view (s.vol.mrtEntry id).physicalBlock))
      (min (headerLength (blockBytes other (s.vol.view (s.vol.mrtEntry id).physicalBlock)) - recordSize) bufSize) := by
  have hread := (fwp_apply (P := fun x _ => ∀ r, x = .ok r →
      r = readOut rec attrBuf bufSize (blockBytes other (s.vol.view (s.vol.mrtEntry id).physicalBlock)))
    (wpAbs_mono (fwp_recordRead other rec attrBuf bufSize True True s.vol)
      (fun x _ hx r hr => by cases hr; exact hx.2.2) (fun _ _ _ r hr => by cases hr)) ⟨fun _ => trivial, fun _ => trivial⟩).2
  rw [h] at hread
  rw [hread r rfl, walksInside_iff, ended_readOut]

/-! ### A mount with a record -/

def boundMount : Mount := (SmkFs.recordAlloc .file smallTransaction).2

theorem boundMount_facts : boundMount.vol.sb.toLayout = mkfsLayout 16 512 ∧
    boundMount.vol.sb.journalHead < boundMount.vol.sb.journalLength ∧ boundMount.journalInTransaction = true ∧
    journalIsFull boundMount.sb = false ∧ boundMount.dev.1.outcomes = [] ∧ boundMount.heap = [] ∧
    2 < boundMount.vol.sb.mrtCapacity ∧ boundMount.vol.mrtEntry 2 = ⟨13, mrtfAllocated, 1⟩ ∧
    boundMount.vol.mrtBlock 2 ≠ 13 := by
  decide +kernel

theorem boundMount_ready : boundMount.Reliable ∧ boundMount.vol.sb.toLayout.WF ∧ boundMount.vol.RingOk ∧
    boundMount.journalInTransaction = true ∧ journalIsFull boundMount.sb = false := by
  obtain ⟨hl, hring, htxn, hfree, houtcomes, hheap, -⟩ := boundMount_facts
  refine ⟨⟨?_, ?_⟩, ?_, hring, htxn, hfree⟩
  · rintro ⟨o, ho, -⟩
    rw [houtcomes] at ho
    cases ho
  · simp [Mount.HeapFaulty, hheap]
  · rw [hl]
    exact (mkfsLayout_facts (by decide) (by decide)).1

theorem boundMount_entry : boundMount.vol.mrtEntry 2 = ⟨13, mrtfAllocated, 1⟩ := boundMount_facts.2.2.2.2.2.2.2.1

theorem boundMount_bound : boundMount.vol.Bound 2 := by
  obtain ⟨-, -, -, -, -, -, hcap, -⟩ := boundMount_facts
  unfold Volume.Bound
  rw [boundMount_entry]
  exact ⟨hcap, by decide⟩

theorem boundMount_apart : boundMount.vol.mrtBlock 2 ≠ 13 := boundMount_facts.2.2.2.2.2.2.2.2

def fileFields : Bytes.Mem := store (store (Redo.headerInit stRecord recordSize (fun _ => 0)) 32 8 2) 48 4 1

theorem fileFields_ok : headerValidate fileFields stRecord = true ∧ generation fileFields = 1 := by
  decide

def rawMount (x : Bytes.Mem) : Mount := (writeBlock 13 (ofBytes x) boundMount).2

theorem rawMount_reads {x : Bytes.Mem} (hx : Accepted x 1) (other : BlockData → Bytes.Mem) (rec attrBuf : Bytes.Mem)
    (bufSize : Nat) : (∃ s', recordRead other 2 rec attrBuf bufSize (rawMount x) =
      (.ok (readOut rec attrBuf bufSize x), s')) ∧
    (rawMount x).vol.view ((rawMount x).vol.mrtEntry 2).physicalBlock = ofBytes x := by
  obtain ⟨hs, hl, -⟩ := boundMount_ready
  obtain ⟨s₁, hrun, hvol, hs₁⟩ := (runs_writeBlock (show boundMount.vol.sectorOk from hl.sector) 13 (ofBytes x)).apply' hs
  have hmount : rawMount x = s₁ := by rw [rawMount, hrun]
  have hentry : s₁.vol.mrtEntry 2 = boundMount.vol.mrtEntry 2 := by
    rw [hvol]
    show ((boundMount.vol.write 13 (ofBytes x)).view (boundMount.vol.mrtBlock 2)).mrtEntries _ = _
    rw [Volume.write_view, Function.update_of_ne boundMount_apart]
    rfl
  have hbound : s₁.vol.Bound 2 := by
    have hb := boundMount_bound
    unfold Volume.Bound at hb ⊢
    rw [hentry, hvol]
    exact hb
  have hview : s₁.vol.view (s₁.vol.mrtEntry 2).physicalBlock = ofBytes x := by
    rw [hentry, boundMount_entry, hvol, Volume.write_view, Function.update_self]
  have hsec : s₁.vol.sectorOk := by rw [hvol]; exact hl.sector
  rw [hmount]
  refine ⟨?_, hview⟩
  obtain ⟨s₂, hread, -⟩ := (runs_recordRead rec attrBuf bufSize hsec hbound
    (show blockBytes other _ = x by rw [hview, blockBytes_ofBytes]) (by rw [hentry, boundMount_entry]; exact hx)).apply' hs₁
  exact ⟨s₂, hread⟩

/-- An attribute that ends far behind its record, and no `END`. -/
def endlessImage : Bytes.Mem := recordImage fileFields (ofList (attrHeader 1 0 0 0xFFFF)) attrHeaderSize

theorem accepted_endlessImage : Accepted endlessImage 1 :=
  accepted_recordImage _ fileFields_ok.1 fileFields_ok.2 (by decide)

theorem endlessImage_length : min (headerLength endlessImage - recordSize) attrMax = attrHeaderSize := by
  rw [endlessImage, headerLength_recordImage (by decide)]
  rfl

theorem endlessImage_open : ¬EndsWithin endlessImage attrHeaderSize := by
  rintro ⟨l, -, hend, hin⟩
  have hnil : (encode l).length = 0 := by omega
  have hat : At (ofList (attrHeader 1 0 0 0xFFFF)) 0 (attrHeader 1 0 0 0xFFFF) := fun i _ => by rw [Nat.zero_add]
  have hfirst : load endlessImage recordSize 2 = load (ofList (attrHeader 1 0 0 0xFFFF)) 0 2 := by
    have hbyte : ∀ i, i < 2 → endlessImage (recordSize + i) = ofList (attrHeader 1 0 0 0xFFFF) i :=
      fun i hi => recordImage_attr (by unfold attrHeaderSize; omega)
    rw [load, load, load, load, load, load, ← Nat.add_zero recordSize, hbyte 0 (by decide), hbyte 1 (by decide)]
  rw [hnil, Nat.add_zero, hfirst, (at_attrHeader hat).1.load (by decide)] at hend
  exact absurd hend (by decide)

/-- **A record without an `END` is read**, and the walks over it leave what was copied. -/
theorem endless_record_read : ∃ s' r,
    recordRead (fun _ _ => 0) 2 (fun _ => 0) (fun _ => 0) attrMax (rawMount endlessImage) = (.ok r, s') ∧
    ¬WalksInside r.attrs := by
  obtain ⟨s', hread⟩ := (rawMount_reads accepted_endlessImage (fun _ _ => 0) (fun _ => 0) (fun _ => 0) attrMax).1
  refine ⟨s', _, hread, ?_⟩
  rw [walksInside_iff, ended_readOut, endlessImage_length]
  exact endlessImage_open

/-- A record whose attributes are an `END` alone. -/
theorem record_walks_iff_empty : ∃ s' r, recordRead (fun _ _ => 0) 2 (fun _ => 0) (fun _ => 0) attrMax
      (rawMount (recordImage fileFields (fun _ => 0) attrHeaderSize)) = (.ok r, s') ∧
    (WalksInside r.attrs ↔ EndsWithin (blockBytes (fun _ _ => 0)
        ((rawMount (recordImage fileFields (fun _ => 0) attrHeaderSize)).vol.view
          ((rawMount (recordImage fileFields (fun _ => 0) attrHeaderSize)).vol.mrtEntry 2).physicalBlock))
      (min (headerLength (blockBytes (fun _ _ => 0)
        ((rawMount (recordImage fileFields (fun _ => 0) attrHeaderSize)).vol.view
          ((rawMount (recordImage fileFields (fun _ => 0) attrHeaderSize)).vol.mrtEntry 2).physicalBlock)) - recordSize)
        attrMax)) := by
  obtain ⟨s', hread⟩ := (rawMount_reads (accepted_recordImage (fun _ => 0) fileFields_ok.1 fileFields_ok.2
    (show attrHeaderSize ≤ attrMax by decide)) (fun _ _ => 0) (fun _ => 0) (fun _ => 0) attrMax).1
  exact ⟨s', _, hread, record_walks_iff (fun _ _ => 0) 2 (fun _ => 0) (fun _ => 0) attrMax _ s' _ hread⟩

end

/-! ## Writing -/

section
variable {b : Buf} {l : List Tlv} {rec : Bytes.Mem} {id : Nat} {v : Volume}

/-- The walk of `record_write`, at an attribute. -/
def boundStep (p : Nat) (a : Tlv) (_ : Unit) : Unit ⊕ Unit :=
  if attrMax < p + (attrHeaderSize + a.data.length) then .inl () else .inr ()

theorem walkList_boundStep : ∀ (l : List Tlv) (p : Nat), p ≤ attrMax → walkList boundStep p l () =
    if p + (encode l).length ≤ attrMax then .ended (p + (encode l).length) () else .answer ()
  | [], p, h => by rw [encode_nil, List.length_nil, Nat.add_zero, if_pos h, walkList]
  | a :: l, p, h => by
    rw [encode_cons, List.length_append, Tlv.length_encode, ← Nat.add_assoc, walkList, boundStep]
    by_cases hp : attrMax < p + (attrHeaderSize + a.data.length)
    · rw [if_pos hp, if_neg (by omega)]
    · rw [if_neg hp]
      exact walkList_boundStep l _ (by omega)

theorem attrLength_ended (h : Ended b l) : attrLength b =
    some (if (encode l).length ≤ attrMax then .ok ((encode l).length + attrHeaderSize) else .error .tooBig) := by
  have hv : Visits b (fun p (_ : Unit) => do
      let length ← b.field (p + 8) 4
      if attrMax < p + (attrHeaderSize + length) then return .inl ()
      else return .inr ()) boundStep := by
    intro p a s ha
    simp only [ha.length, Option.bind_eq_bind, Option.bind_some, boundStep, pure]
    split <;> rfl
  rw [attrLength, h.walkFrom hv, walkList_boundStep l 0 (Nat.zero_le _), Nat.zero_add]
  split <;> rfl

/-- The volume after a record was logged and written to `phys`. -/
def putImage (phys : Nat) (image : Bytes.Mem) (len : Nat) (v : Volume) : Volume :=
  (v.logEntry .write phys len 0 (ofBytes image)).write phys (ofBytes image)

theorem runs_recordWrite (rec : Bytes.Mem) (hs : v.sectorOk) (hb : v.Bound id) (h : Ended b l)
    (hfit : recordSize + ((encode l).length + attrHeaderSize) ≤ 4032)
    (hacc : journalAccepts v.toMem (recordSize + ((encode l).length + attrHeaderSize)) = true) :
    Runs (recordWrite id rec b) v () (putImage (v.mrtEntry id).physicalBlock
      (recordImage rec b.mem ((encode l).length + attrHeaderSize))
      (recordSize + ((encode l).length + attrHeaderSize)) v) := by
  have hmax : attrMax = 4040 := rfl
  have hblock : blockSize = 4096 := rfl
  rw [recordWrite, attrLength_ended h, if_pos (by omega)]
  refine (runs_failIf (by omega)).bind (runs_malloc.bind (runs_malloc.bind ((runs_failIf (by simp)).bind ?_)))
  refine (runs_mrtResolve hs hb).bind ((runs_readBlock hs _).ignore.bind ?_)
  refine (runs_journalWriteEntry hs hacc _ _ _ _).bind ?_
  exact (runs_writeBlock (show (v.logEntry _ _ _ _ _).sectorOk from hs) _ _).orThrow

theorem fwp_recordWrite_long (D H : Prop) (v : Volume) (id : Nat) (rec : Bytes.Mem) (h : Ended b l)
    (hlong : 4032 < recordSize + ((encode l).length + attrHeaderSize)) :
    fwp D H (recordWrite id rec b) (fun _ _ => False) (fun _ v' => v'.view = v.view) v := by
  have hjournal : journalDataMax = 4032 := rfl
  rw [recordWrite, attrLength_ended h]
  by_cases hwalk : (encode l).length ≤ attrMax
  · rw [if_pos hwalk]
    refine wpAbs_bind (wpAbs_failIf (fun _ => rfl) (fun _ => ?_))
    have hrest : ∀ r r' : Bool, fwp D H (do
        failIf (r = false ∨ r' = false) .nomem
        let entry ← mrtResolve id
        (readBlock entry.physicalBlock).ignore
        let block := ofBytes (recordImage rec b.mem ((encode l).length + attrHeaderSize))
        journalLogWrite entry.physicalBlock block (recordSize + ((encode l).length + attrHeaderSize))
        (writeBlock entry.physicalBlock block).orThrow .io) (fun _ _ => False) (fun _ v' => v'.view = v.view) v := by
      intro r r'
      refine wpAbs_bind (wpAbs_failIf (fun _ => rfl) (fun _ => ?_))
      refine wpAbs_seq (fwp_mrtResolve D H v id) (fun entry v' he => ?_) (fun _ _ he => by rw [he])
      obtain ⟨rfl, rfl⟩ := he
      refine wpAbs_bind (wpAbs_ignore (vwp_readBlock ?_ (fun _ => ?_)))
      all_goals
        refine wpAbs_seq (fwp_journalWriteEntry D H _ .write _ _ 0 _) (fun _ v' hv => ?_) (fun _ v' hv => ?_)
        · have hacc := hv.1
          simp only [journalAccepts, Bool.and_eq_true, decide_eq_true_eq] at hacc
          omega
        · rcases hv with ⟨_, rfl⟩ | ⟨_, rfl⟩ | ⟨_, rfl⟩ <;> rfl
    exact wpAbs_bind (vwp_malloc (wpAbs_bind (vwp_malloc (hrest _ _) (fun _ => hrest _ _)))
      (fun _ => wpAbs_bind (vwp_malloc (hrest _ _) (fun _ => hrest _ _))))
  · rw [if_neg hwalk]
    exact wpAbs_throw rfl

/-- **A record is read as it was written**, and one that is too long is refused and changes nothing. -/
theorem record_round_trip (other : BlockData → Bytes.Mem) (id : Nat) (rec : Bytes.Mem) (h : Holds b l) :
    (∀ s : Mount, s.Reliable → s.vol.sb.toLayout.WF → s.vol.RingOk → s.journalInTransaction = true →
      journalIsFull s.sb = false → s.vol.Bound id → (s.vol.mrtEntry id).physicalBlock ≠ s.vol.mrtBlock id →
      headerValidate rec stRecord = true → generation rec = (s.vol.mrtEntry id).generation →
      recordSize + ((encode l).length + attrHeaderSize) ≤ 4032 →
      ∀ (recBuf attrBuf : Bytes.Mem) (bufSize : Nat), (encode l).length + attrHeaderSize ≤ bufSize →
        ∃ s₁ s₂ r, recordWrite id rec b s = (.ok (), s₁) ∧
          recordRead other id recBuf attrBuf bufSize s₁ = (.ok r, s₂) ∧
          (∀ i, i < recordSize → i < 8 ∨ 12 ≤ i → i < 16 ∨ 20 ≤ i → r.fields i = rec i) ∧
          headerLength r.fields = recordSize + ((encode l).length + attrHeaderSize) ∧
          ∀ i, i < (encode l).length + attrHeaderSize → r.attrs.mem i = b.mem i) ∧
    (4032 < recordSize + ((encode l).length + attrHeaderSize) →
      ∀ s : Mount, ∃ e s', recordWrite id rec b s = (.error e, s') ∧ s'.vol.view = s.vol.view) := by
  constructor
  · intro s hs hl hring htxn hfree hb hphys hheader hgen hfit recBuf attrBuf bufSize hbuf
    have hsize : recordSize = 56 := rfl
    have hmax : attrMax = 4040 := rfl
    let attrLen := (encode l).length + attrHeaderSize
    let image := recordImage rec b.mem attrLen
    obtain ⟨s₁, hwrite, hvol, hs₁⟩ := (runs_recordWrite rec (show s.vol.sectorOk from hl.sector) hb h.toEnded hfit
      (accepts_of htxn hfree hfit)).apply' hs
    have hslot : s.vol.mrtBlock id ≠ s.vol.sb.journalStart + s.vol.sb.journalHead := by
      intro heq
      refine hl.mrt_not_inJournal (hl.inMrt hb.1) (Or.inr ?_)
      rw [heq]
      exact ⟨Nat.le_add_right _ _, Nat.add_lt_add_left hring _⟩
    have hentry : s₁.vol.mrtEntry id = s.vol.mrtEntry id := by
      rw [hvol]
      show ((putImage _ image _ s.vol).view (s.vol.mrtBlock id)).mrtEntries _ = _
      rw [putImage, Volume.write_view, Function.update_of_ne (Ne.symm hphys)]
      show (Function.update s.vol.view _ _ (s.vol.mrtBlock id)).mrtEntries _ = _
      rw [Function.update_of_ne hslot]
      rfl
    have hbound : s₁.vol.Bound id := by
      unfold Volume.Bound at hb ⊢
      rw [hentry, hvol]
      exact hb
    have hview : s₁.vol.view (s₁.vol.mrtEntry id).physicalBlock = ofBytes image := by
      rw [hentry, hvol, putImage, Volume.write_view, Function.update_self]
    have hsec : s₁.vol.sectorOk := by rw [hvol]; exact hl.sector
    have haccepted : Accepted image (s₁.vol.mrtEntry id).generation := by
      rw [hentry]
      exact accepted_recordImage b.mem hheader hgen (by show (encode l).length + attrHeaderSize ≤ _; omega)
    obtain ⟨s₂, hread, -⟩ := (runs_recordRead recBuf attrBuf bufSize hsec hbound
      (show blockBytes other _ = image by rw [hview, blockBytes_ofBytes]) haccepted).apply' hs₁
    have hlength : headerLength image = recordSize + attrLen :=
      headerLength_recordImage (by show (encode l).length + attrHeaderSize ≤ _; omega)
    refine ⟨s₁, s₂, _, hwrite, hread, fun i hi h1 h2 => ?_, ?_, fun i hi => ?_⟩
    · show copy recBuf 0 image 0 recordSize i = _
      rw [copy_of_mem (by omega) (by omega), Nat.zero_add, Nat.sub_zero]
      exact recordImage_field hi h1 h2
    · show load (copy recBuf 0 image 0 recordSize) (0 + 8) 4 = _
      rw [load_copy (by omega)]
      exact hlength
    · show copy attrBuf 0 image recordSize (min (headerLength image - recordSize) bufSize) i = _
      rw [hlength, copy_of_mem (by omega) (by omega), Nat.sub_zero]
      exact recordImage_attr hi
  · intro hlong s
    have hpost := (fwp_apply (P := fun x v => (∃ e, x = .error e) ∧ v.view = s.vol.view)
      (wpAbs_mono (fwp_recordWrite_long True True s.vol id rec h.toEnded hlong) (fun _ _ hf => hf.elim)
        (fun e _ hv => ⟨⟨e, rfl⟩, hv⟩)) ⟨fun _ => trivial, fun _ => trivial⟩).2
    obtain ⟨⟨e, he⟩, hv⟩ := hpost
    exact ⟨e, (recordWrite id rec b s).2, Prod.ext he rfl, hv⟩

def longAttr : Tlv := ⟨9, 0, 0, List.replicate 3953 1#8, linkAttr.type_ne, linkAttr.type_lt, linkAttr.flags_lt,
  linkAttr.id_lt, by rw [List.length_replicate]; decide⟩

theorem holds_longBuf : Holds (bufOf [longAttr] attrMax) [longAttr] := by
  apply holds_bufOf
  rw [encode_cons, encode_nil, List.append_nil, Tlv.length_encode, longAttr, List.length_replicate]
  decide

/-- A record without attributes comes back; the long link is refused. -/
theorem record_round_trip_bound :
    (∃ s₁ s₂ r, recordWrite 2 fileFields blankBuf boundMount = (.ok (), s₁) ∧
      recordRead (fun _ _ => 0) 2 (fun _ => 0) (fun _ => 0) attrMax s₁ = (.ok r, s₂) ∧
      (∀ i, i < recordSize → i < 8 ∨ 12 ≤ i → i < 16 ∨ 20 ≤ i → r.fields i = fileFields i) ∧
      headerLength r.fields = recordSize + ((encode []).length + attrHeaderSize) ∧
      ∀ i, i < (encode []).length + attrHeaderSize → r.attrs.mem i = blankBuf.mem i) ∧
    ∃ e s', recordWrite 2 fileFields (bufOf [longAttr] attrMax) boundMount = (.error e, s') ∧
      s'.vol.view = boundMount.vol.view := by
  obtain ⟨hs, hl, hring, htxn, hfree⟩ := boundMount_ready
  have hmrt : (boundMount.vol.mrtEntry 2).physicalBlock ≠ boundMount.vol.mrtBlock 2 := by
    rw [boundMount_entry]
    exact boundMount_apart.symm
  have hgen : (boundMount.vol.mrtEntry 2).generation = 1 := by rw [boundMount_entry]
  have hlong : 4032 < recordSize + ((encode [longAttr]).length + attrHeaderSize) := by
    rw [encode_cons, encode_nil, List.append_nil, Tlv.length_encode, longAttr, List.length_replicate]
    decide
  exact ⟨(record_round_trip (fun _ _ => 0) 2 fileFields holds_blankBuf).1 boundMount hs hl hring htxn hfree
    boundMount_bound hmrt fileFields_ok.1 (fileFields_ok.2.trans hgen.symm) (by decide) (fun _ => 0) (fun _ => 0) attrMax
    (by decide), (record_round_trip (fun _ _ => 0) 2 fileFields holds_longBuf).2 hlong boundMount⟩

end

end RecordBytes
end SmkFs
end AmitX
