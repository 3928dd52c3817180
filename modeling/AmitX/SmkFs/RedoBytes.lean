import AmitX.SmkFs.ReplayEnds
import AmitX.SmkFs.RedoTwice
/-!
# RedoBytes — where recovery takes its bytes from (`journal.c`)

Recovery of a ring of logged entries redoes those up to the last `COMMIT`.  The block that it writes for a `WRITE` entry
begins behind the header of the entry and is as long as the whole buffer, so that its end is taken from behind the
buffer.
-/
namespace AmitX
namespace SmkFs
namespace Redo

open Bytes Prog

/-! ## Rings -/

/-- The position of the `i`-th entry of the ring. -/
def slot (sb : Superblock) (i : Nat) : Nat := (journalNextPos sb)^[i] sb.journalTail

/-- The blocks of the ring from the tail to the head hold the entries `es`. -/
structure RingHolds (s : State) (es : List (Nat × Logged)) : Prop where
  tail : s.sb.journalTail < s.sb.journalLength
  room : es.length < s.sb.journalLength
  blocks : ∀ i (h : i < es.length), ∀ j < blockSize,
    s.disk (s.sb.journalStart + slot s.sb i) j = (es.get ⟨i, h⟩).2.block (es.get ⟨i, h⟩).1 j
  head : slot s.sb es.length = s.sb.journalHead
  before : ∀ i < es.length, slot s.sb i ≠ s.sb.journalHead

def Logged.Promised (l : Layout) : Logged → Prop
  | .write block _ _ => l.dataStart ≤ block
  | .mrtUpdate recordId _ => recordId < l.mrtCapacity
  | _ => True

/-- The sequence of the last `COMMIT`, as pass 1 finds it. -/
def lastCommit : List (Nat × Logged) → Option Nat → Option Nat
  | [], last => last
  | e :: es, last =>
    let ent := e.2.entry e.1
    lastCommit es (if ent.operation = jopCommit ∧ last.getD 0 ≤ ent.sequence then some ent.sequence else last)

def Committed (es : List (Nat × Logged)) (e : Nat × Logged) : Prop := ∃ last, lastCommit es none = some last ∧ e.1 ≤ last

/-- The blocks that the redo of an entry writes as a `WRITE`. -/
def Logged.writes : Logged → List BlockWrite
  | .write block len _ => if 0 < len then [⟨block, journalEntrySize⟩] else []
  | _ => []

section

variable {s s' : State} {es : List (Nat × Logged)} {behind : Nat → Bytes.Mem}

/-- What a redo leaves alone: the fields that place the ring, and its blocks. -/
structure KeepsJournal (s s' : State) : Prop where
  layout : s'.sb.toLayout = s.sb.toLayout
  ring : s'.sb.toRing = s.sb.toRing
  blocks : ∀ b < s.sb.bitmapStart, s'.disk b = s.disk b

theorem KeepsJournal.refl (s : State) : KeepsJournal s s := ⟨rfl, rfl, fun _ _ => rfl⟩

theorem KeepsJournal.trans {s'' : State} (h : KeepsJournal s s') (h' : KeepsJournal s' s'') : KeepsJournal s s'' := by
  refine ⟨h'.layout.trans h.layout, h'.ring.trans h.ring, fun b hb => ?_⟩
  have hstart : s'.sb.bitmapStart = s.sb.bitmapStart := congrArg Layout.bitmapStart h.layout
  rw [h'.blocks b (by rw [hstart]; exact hb), h.blocks b hb]

theorem keepsJournal_writeBlock {t : Nat} (ht : s.sb.bitmapStart ≤ t) (x : Bytes.Mem) : KeepsJournal s (s.writeBlock t x) :=
  ⟨rfl, rfl, fun b hb => by
    have hne : b ≠ t := by omega
    rw [writeBlock_disk, Function.update_of_ne hne]⟩

theorem keepsJournal_putBit {count : Nat → SmkFs.Mem → SmkFs.Mem} (hl : ∀ i m, (count i m).sb.toLayout = m.sb.toLayout)
    (hr : ∀ i m, (count i m).sb.toRing = m.sb.toRing) (b : Bool) (block : Nat) (s : State) :
    KeepsJournal s (s.putBit b count block) ∧ (s.putBit b count block).writes = s.writes := by
  refine ⟨⟨layout_putBit hl b block s, ?_, fun c hc => ?_⟩, ?_⟩
  · unfold State.putBit
    split
    · rfl
    · rw [writeBlock_toMem]
      split
      · rfl
      · exact hr _ _
  · unfold State.putBit
    split
    · rfl
    · have hne : c ≠ s.sb.bitmapStart + (block - s.sb.dataStart) / 8 / blockSize :=
        Nat.ne_of_lt (Nat.lt_of_lt_of_le hc (Nat.le_add_right _ _))
      exact Function.update_of_ne hne _ _
  · unfold State.putBit
    split <;> rfl

theorem forRange_keepsJournal (body : Nat → State → State) (hbody : ∀ i s, KeepsJournal s (body i s) ∧
    (body i s).writes = s.writes) : ∀ (n i : Nat) (s : State), ∃ s',
    forRange (fun j => (modify (body j) : RedoM Unit)) i n s = (.ok (), s') ∧ KeepsJournal s s' ∧ s'.writes = s.writes
  | 0, _, s => ⟨s, rfl, KeepsJournal.refl s, rfl⟩
  | n + 1, i, s => by
    obtain ⟨s', hrun, hk, hw⟩ := forRange_keepsJournal body hbody n (i + 1) (body i s)
    exact ⟨s', hrun, (hbody i s).1.trans hk, hw.trans (hbody i s).2⟩

theorem journalRedoEntry_logged (hl : s.sb.toLayout.WF) (seq : Nat) {e : Logged} (hp : e.Promised s.sb.toLayout)
    (mem : Bytes.Mem) : ∃ s', journalRedoEntry (e.entry seq) mem s = (.ok (), s') ∧ KeepsJournal s s' ∧
      s'.writes = s.writes ++ e.writes := by
  have hbitmap := hl.bitmap
  have hmrt := hl.mrt
  rcases redo_cases (e.entry seq) mem s with ⟨hop, h⟩ | ⟨hop, h⟩ | ⟨hop, h⟩ | ⟨hop, h⟩ | ⟨hop, h⟩ | ⟨hop, h⟩
  · cases e with
    | write block len newData =>
      have hstart : s.sb.bitmapStart ≤ block := by
        have : s.sb.dataStart ≤ block := hp
        omega
      have hdata : ((Logged.write block len newData).entry seq).dataLength = len := rfl
      rw [hdata] at h
      by_cases hlen : 0 < len
      · rw [h, if_pos hlen]
        have hkeep : KeepsJournal s (s.writeBlock block (fun j => mem (journalEntrySize + j))) :=
          keepsJournal_writeBlock hstart _
        refine ⟨_, rfl, ⟨hkeep.layout, hkeep.ring, hkeep.blocks⟩, ?_⟩
        rw [Logged.writes, if_pos hlen]
        rfl
      · rw [h, if_neg hlen]
        exact ⟨s, rfl, KeepsJournal.refl s, by rw [Logged.writes, if_neg hlen, List.append_nil]⟩
    | _ => simp [Logged.entry, jopWrite, jopAlloc, jopFree, jopMrtUpdate, jopCommit, jopCheckpoint] at hop
  · have hw : e.writes = [] := by
      cases e <;> first | rfl | simp [Logged.entry, jopWrite, jopAlloc] at hop
    obtain ⟨s', hrun, hk, hwrites⟩ := forRange_keepsJournal (fun i => State.bitmapSet
      (add64 (e.entry seq).targetBlock i)) (fun i s => keepsJournal_putBit countTaken_layout countTaken_ring true _ s)
      (e.entry seq).dataLength 0 s
    exact ⟨s', h.trans hrun, hk, by rw [hwrites, hw, List.append_nil]⟩
  · have hw : e.writes = [] := by
      cases e <;> first | rfl | simp [Logged.entry, jopWrite, jopFree] at hop
    obtain ⟨s', hrun, hk, hwrites⟩ := forRange_keepsJournal (fun i => State.bitmapClear
      (add64 (e.entry seq).targetBlock i)) (fun i s => keepsJournal_putBit countFreed_layout countFreed_ring false _ s)
      (e.entry seq).dataLength 0 s
    exact ⟨s', h.trans hrun, hk, by rw [hwrites, hw, List.append_nil]⟩
  · have hw : e.writes = [] := by
      cases e <;> first | rfl | simp [Logged.entry, jopWrite, jopCommit, jopCheckpoint] at hop
    exact ⟨s, h, KeepsJournal.refl s, by rw [hw, List.append_nil]⟩
  · cases e with
    | mrtUpdate recordId entry =>
      have hok : redoOk s.sb.toLayout ((Logged.mrtUpdate recordId entry).entry seq) = true := by
        have hid : recordId < s.sb.mrtCapacity := hp
        simp [redoOk, Logged.entry, hid]
      rw [h, if_pos hok]
      have hstart : s.sb.bitmapStart ≤ s.sb.mrtStart := by omega
      exact ⟨_, rfl, keepsJournal_writeBlock (Nat.le_trans hstart (Nat.le_add_right _ _)) _, (List.append_nil _).symm⟩
    | _ => simp [Logged.entry, jopWrite, jopAlloc, jopFree, jopMrtUpdate, jopCommit, jopCheckpoint] at hop
  · exfalso
    cases e with
    | mrtUpdate recordId entry =>
      have hid : recordId < s.sb.mrtCapacity := hp
      simp [redoOk, Logged.entry, hid] at hop
    | _ => simp [redoOk, Logged.entry, jopWrite, jopAlloc, jopFree, jopMrtUpdate, jopCommit, jopCheckpoint] at hop

/-! ## Recovery of a ring -/

theorem slot_lt (hring : RingHolds s es) (i : Nat) : slot s.sb i < s.sb.journalLength := by
  cases i with
  | zero => exact hring.tail
  | succ i =>
    have hnext := nextPos_lt s.sb (slot s.sb i)
    have hlen := hring.tail
    rw [slot, Function.iterate_succ_apply']
    change journalNextPos s.sb (slot s.sb i) < _
    omega

theorem slot_block (hl : s.sb.toLayout.WF) (hring : RingHolds s es) (i : Nat) :
    add64 s.sb.journalStart (slot s.sb i) = s.sb.journalStart + slot s.sb i ∧
      s.sb.journalStart + slot s.sb i < s.sb.bitmapStart := by
  have hi := slot_lt hring i
  have hj := hl.journal
  have hb := hl.bitmap
  have hm := hl.mrt
  have hd := hl.data
  have ht := hl.total
  refine ⟨?_, by omega⟩
  unfold add64
  exact Nat.mod_eq_of_lt (by omega)

theorem load_block_congr {x y : Bytes.Mem} (h : ∀ j < blockSize, x j = y j) {a n : Nat} (hn : a + n ≤ blockSize) :
    load x a n = load y a n := load_congr (fun i _ hi => h i (by omega))

theorem readEntry_congr {x y : Bytes.Mem} (h : ∀ j < blockSize, x j = y j) : readEntry x = readEntry y := by
  have hsize : blockSize = 4096 := rfl
  unfold readEntry
  rw [load_block_congr h (by omega), load_block_congr h (by omega), load_block_congr h (by omega),
    load_block_congr h (by omega), load_block_congr h (by omega)]

theorem crcBytes_congr {x y : Bytes.Mem} : ∀ {n a : Nat} {crc : BitVec 32}, (∀ j, a ≤ j → j < a + n → x j = y j) →
    crcBytes x a n crc = crcBytes y a n crc
  | 0, _, _, _ => rfl
  | n + 1, a, crc, h => by
    rw [crcBytes, crcBytes, h a (Nat.le_refl a) (by omega)]
    exact crcBytes_congr (fun j hj hj' => h j (by omega) (by omega))

theorem entryValid_congr {x y : Bytes.Mem} (h : ∀ j < blockSize, x j = y j) : entryValid x = entryValid y := by
  have hsize : blockSize = 4096 := rfl
  have hstore : ∀ j < blockSize, store x 16 4 0 j = store y 16 4 0 j := by
    intro j hj
    unfold store
    split
    · rfl
    · exact h j hj
  have hsum : headerChecksumVerify x (headerLength x) = headerChecksumVerify y (headerLength x) := by
    unfold headerChecksumVerify
    by_cases hlen : headerLength x ≤ blockSize
    · rw [checksumCompute, checksumCompute, crcBytes_congr (fun j _ hj => hstore j (by omega)),
        load_block_congr h (by omega)]
    · rw [decide_eq_false hlen, Bool.false_and, Bool.false_and]
  have hlength : headerLength x = headerLength y := load_block_congr h (by omega)
  rw [entryValid, entryValid, hsum, hlength, headerValidate, headerValidate, load_block_congr h (by omega),
    load_block_congr h (by omega), load_block_congr h (by omega)]

theorem ringEntry (hl : s.sb.toLayout.WF) (hring : RingHolds s es) (hfit : ∀ e ∈ es, e.2.Fits e.1) {i : Nat}
    (hi : i < es.length) : entryValid (s.disk (add64 s.sb.journalStart (slot s.sb i))) = true ∧
      readEntry (s.disk (add64 s.sb.journalStart (slot s.sb i))) = (es.get ⟨i, hi⟩).2.entry (es.get ⟨i, hi⟩).1 := by
  have hmem := hfit (es.get ⟨i, hi⟩) (List.get_mem es ⟨i, hi⟩)
  rw [(slot_block hl hring i).1, entryValid_congr (hring.blocks i hi), readEntry_congr (hring.blocks i hi)]
  refine ⟨entryValid_entryBlock hmem.length, ?_⟩
  have := hmem.readEntry (fun _ => 0)
  rwa [readEntry_frame] at this

theorem findCommit_ring (hl : s.sb.toLayout.WF) (hring : RingHolds s es) (hfit : ∀ e ∈ es, e.2.Fits e.1) :
    ∀ (n i : Nat) (last : Option Nat), i ≤ es.length → es.length - i < n →
    findCommit n (slot s.sb i) last s = (.ok (lastCommit (es.drop i) last), s)
  | n + 1, i, last, hi, hn => by
    rw [findCommit, get_bind]
    by_cases hend : i = es.length
    · rw [hend, if_pos hring.head, List.drop_length]
      rfl
    · have hlt : i < es.length := by omega
      obtain ⟨hvalid, hentry⟩ := ringEntry hl hring hfit hlt
      have hnext : journalNextPos s.sb (slot s.sb i) = slot s.sb (i + 1) :=
        (Function.iterate_succ_apply' (journalNextPos s.sb) i s.sb.journalTail).symm
      have hdrop : es.drop i = es.get ⟨i, hlt⟩ :: es.drop (i + 1) := List.drop_eq_getElem_cons hlt
      rw [if_neg (hring.before i hlt), hvalid, hentry, hnext, hdrop, lastCommit]
      exact findCommit_ring hl hring hfit n (i + 1) _ (by omega) (by omega)

theorem redoPass_ring (behind : Nat → Bytes.Mem) (hl : s.sb.toLayout.WF) (hring : RingHolds s es) (hfit : ∀ e ∈ es, e.2.Fits e.1)
    (hpromise : ∀ e ∈ es, e.2.Promised s.sb.toLayout) (last : Nat) : ∀ (n i : Nat) (s1 : State), KeepsJournal s s1 →
    i ≤ es.length → es.length - i < n → ∃ s2, redoPass behind last n (slot s.sb i) s1 = (.ok (), s2) ∧
      s2.writes = s1.writes ++ ((es.drop i).filter (fun e => decide (e.1 ≤ last))).flatMap (fun e => e.2.writes)
  | n + 1, i, s1, hk, hi, hn => by
    have hhead : s1.sb.journalHead = s.sb.journalHead := congrArg Ring.journalHead hk.ring
    have hstart : s1.sb.journalStart = s.sb.journalStart := congrArg Layout.journalStart hk.layout
    rw [redoPass, get_bind]
    by_cases hend : i = es.length
    · rw [hhead, hend, if_pos hring.head, List.drop_length]
      exact ⟨s1, rfl, (List.append_nil _).symm⟩
    · have hlt : i < es.length := by omega
      obtain ⟨hvalid, hentry⟩ := ringEntry hl hring hfit hlt
      have hblock : s1.disk (add64 s1.sb.journalStart (slot s.sb i)) = s.disk (add64 s.sb.journalStart (slot s.sb i)) := by
        rw [hstart, (slot_block hl hring i).1]
        exact hk.blocks _ (slot_block hl hring i).2
      have hnext : journalNextPos s1.sb (slot s.sb i) = slot s.sb (i + 1) := by
        rw [nextPos_congr hk.layout]
        exact (Function.iterate_succ_apply' (journalNextPos s.sb) i s.sb.journalTail).symm
      have hseq : ((es.get ⟨i, hlt⟩).2.entry (es.get ⟨i, hlt⟩).1).sequence = (es.get ⟨i, hlt⟩).1 := by
        cases (es.get ⟨i, hlt⟩).2 <;> rfl
      have hdrop : es.drop i = es.get ⟨i, hlt⟩ :: es.drop (i + 1) := List.drop_eq_getElem_cons hlt
      have hprom := hpromise (es.get ⟨i, hlt⟩) (List.get_mem es ⟨i, hlt⟩)
      rw [← hk.layout] at hprom hl
      rw [hhead, if_neg (hring.before i hlt), hblock, hvalid, hentry, hnext, hseq, hdrop]
      generalize es.get ⟨i, hlt⟩ = e at hprom
      by_cases hle : e.1 ≤ last
      · obtain ⟨s2, hrun, hk2, hw2⟩ := journalRedoEntry_logged hl e.1 hprom
          (frame (s.disk (add64 s.sb.journalStart (slot s.sb i))) (behind n))
        rw [hk.layout] at hl
        obtain ⟨s3, hrun3, hw3⟩ := redoPass_ring behind hl hring hfit hpromise last n (i + 1) s2 (hk.trans hk2) (by omega) (by omega)
        refine ⟨s3, ?_, ?_⟩
        · rw [when, if_pos hle]
          exact (bind_of_ok (m := failIf ((true : Bool) = false) Err.corrupt) rfl _).trans ((bind_of_ok hrun _).trans hrun3)
        · rw [hw3, hw2, List.filter_cons_of_pos (by simpa using hle), List.flatMap_cons, List.append_assoc]
      · rw [hk.layout] at hl
        obtain ⟨s3, hrun3, hw3⟩ := redoPass_ring behind hl hring hfit hpromise last n (i + 1) s1 hk (by omega) (by omega)
        refine ⟨s3, ?_, ?_⟩
        · rw [when, if_neg hle]
          exact hrun3
        · rw [hw3, List.filter_cons_of_neg (by simpa using hle)]

theorem writes_journalReplay (hl : s.sb.toLayout.WF) (hring : RingHolds s es) (hfit : ∀ e ∈ es, e.2.Fits e.1)
    (hpromise : ∀ e ∈ es, e.2.Promised s.sb.toLayout) : (journalReplay behind s).2.writes = s.writes ++
      ((lastCommit es none).elim [] (fun last => (es.filter (fun e => decide (e.1 ≤ last))).flatMap (fun e => e.2.writes))) := by
  have hroom := hring.room
  rw [journalReplay, get_bind, journalReplayWithin, get_bind]
  have htail : slot s.sb 0 = s.sb.journalTail := rfl
  by_cases hempty : s.sb.journalHead = s.sb.journalTail
  · have hnil : es = [] := by
      by_contra hne
      exact hring.before 0 (List.length_pos_iff.2 hne) (htail.trans hempty.symm)
    subst hnil
    rw [if_pos hempty]
    exact (List.append_nil _).symm
  · have hfind := findCommit_ring hl hring hfit (s.sb.journalLength + 1) 0 none (Nat.zero_le _) (by omega)
    rw [htail, List.drop_zero] at hfind
    rw [if_neg hempty, bind_of_ok hfind]
    cases hlast : lastCommit es none with
    | none => exact (List.append_nil _).symm
    | some last =>
      obtain ⟨s2, hrun, hw⟩ := redoPass_ring behind hl hring hfit hpromise last (s.sb.journalLength + 1) 0 s
        (KeepsJournal.refl s) (Nat.zero_le _) (by omega)
      rw [htail] at hrun
      rw [List.drop_zero] at hw
      change ((redoPass behind last (s.sb.journalLength + 1) s.sb.journalTail >>= fun _ => modify State.cleanRing) s).2.writes = _
      rw [bind_of_ok hrun]
      exact hw

end

/-! ## Where the bytes come from -/

/-- Every byte of the block comes from inside the buffer that the entry was read into. -/
def BlockWrite.Inside (w : BlockWrite) : Prop := ∀ j < blockSize, w.source + j < blockSize

/-- **Recovery writes logged bytes only where it writes none.**  Every block that it writes for a `WRITE` entry begins
64 bytes into a buffer of its own size. -/
theorem replay_writes_inside_iff (s : State) (es : List (Nat × Logged)) (behind : Nat → Bytes.Mem)
    (hl : s.sb.toLayout.WF) (hring : RingHolds s es) (hfit : ∀ e ∈ es, e.2.Fits e.1)
    (hpromise : ∀ e ∈ es, e.2.Promised s.sb.toLayout) (hw : s.writes = []) :
    (∀ w ∈ (journalReplay behind s).2.writes, w.Inside) ↔
      ∀ e ∈ es, Committed es e → ∀ block len newData, e.2 = .write block len newData → len = 0 := by
  rw [writes_journalReplay hl hring hfit hpromise, hw, List.nil_append]
  constructor
  · intro hall e he hcom block len newData hev
    obtain ⟨last, hlast, hle⟩ := hcom
    by_contra hlen
    rw [hlast] at hall
    have hmem : (⟨block, journalEntrySize⟩ : BlockWrite) ∈ e.2.writes := by
      rw [hev, Logged.writes, if_pos (Nat.pos_of_ne_zero hlen)]
      exact List.mem_singleton.2 rfl
    have hin := hall ⟨block, journalEntrySize⟩ (List.mem_flatMap.2 ⟨e, List.mem_filter.2 ⟨he, by simpa using hle⟩, hmem⟩)
    have hlast : journalEntrySize + 4032 < blockSize := hin 4032 (by decide)
    exact absurd hlast (by decide)
  · intro hnone w hmem
    cases hlast : lastCommit es none with
    | none =>
      rw [hlast] at hmem
      cases hmem
    | some last =>
      rw [hlast] at hmem
      obtain ⟨e, he, hwe⟩ := List.mem_flatMap.1 hmem
      obtain ⟨hes, hle⟩ := List.mem_filter.1 he
      cases hev : e.2 with
      | write block len newData =>
        have h0 := hnone e hes ⟨last, hlast, by simpa using hle⟩ block len newData hev
        rw [hev, Logged.writes, h0, if_neg (Nat.lt_irrefl 0)] at hwe
        cases hwe
      | _ =>
        rw [hev] at hwe
        cases hwe

/-- A disk of zeros but for the ring, which holds a committed transaction that logged the write of a block. -/
def writtenState : State :=
  { smallState with
    sb := { smallState.sb with journalHead := 2 }
    disk := fun b => if b = 1 then Logged.block 1 (.write 14 100 (fun _ => 7)) else if b = 2 then Logged.block 2 .commit
      else fun _ => 0 }

def writtenRing : List (Nat × Logged) := [(1, .write 14 100 (fun _ => 7)), (2, .commit)]

theorem writtenState_ready : writtenState.sb.toLayout.WF ∧ RingHolds writtenState writtenRing ∧
    (∀ e ∈ writtenRing, e.2.Fits e.1) ∧ (∀ e ∈ writtenRing, e.2.Promised writtenState.sb.toLayout) ∧
    writtenState.writes = [] := by
  refine ⟨mkfsLayout_wf (by decide) (by decide), ⟨by decide +kernel, by decide +kernel, fun i hi j _ => ?_, by decide +kernel,
    fun i hi => ?_⟩, fun e he => ?_, fun e he => ?_, rfl⟩
  · have hi2 : i < 2 := hi
    obtain rfl | rfl : i = 0 ∨ i = 1 := by omega
    · rfl
    · have hblock : writtenState.sb.journalStart + slot writtenState.sb 1 = 2 := by decide +kernel
      rw [hblock]
      rfl
  · have hi2 : i < 2 := hi
    obtain rfl | rfl : i = 0 ∨ i = 1 := by omega
    · decide
    · decide +kernel
  · simp only [writtenRing, List.mem_cons, List.not_mem_nil, or_false] at he
    rcases he with rfl | rfl <;> exact ⟨by decide, by decide, by decide, by decide⟩
  · simp only [writtenRing, List.mem_cons, List.not_mem_nil, or_false] at he
    rcases he with rfl | rfl
    · exact (by decide +kernel : writtenState.sb.dataStart ≤ 14)
    · trivial

theorem replay_writes_inside_small : (∀ w ∈ (journalReplay (fun _ _ => 9) writtenState).2.writes, w.Inside) ↔
    ∀ e ∈ writtenRing, Committed writtenRing e → ∀ block len newData, e.2 = .write block len newData → len = 0 := by
  obtain ⟨hl, hring, hfit, hpromise, hw⟩ := writtenState_ready
  exact replay_writes_inside_iff writtenState writtenRing (fun _ _ => 9) hl hring hfit hpromise hw

/-- **A write that is recovered.**  The last 64 bytes of the block are taken from behind the buffer. -/
theorem not_replay_writes_inside : ¬∀ (s : State) (es : List (Nat × Logged)) (behind : Nat → Bytes.Mem),
    s.sb.toLayout.WF → RingHolds s es → (∀ e ∈ es, e.2.Fits e.1) → (∀ e ∈ es, e.2.Promised s.sb.toLayout) →
    s.writes = [] → ∀ w ∈ (journalReplay behind s).2.writes, w.Inside := by
  intro hall
  obtain ⟨hl, hring, hfit, hpromise, hw⟩ := writtenState_ready
  have hin := hall writtenState writtenRing (fun _ _ => 9) hl hring hfit hpromise hw ⟨14, journalEntrySize⟩ (by
    rw [writes_journalReplay hl hring hfit hpromise, hw]
    decide)
  have hlast : journalEntrySize + 4032 < blockSize := hin 4032 (by decide)
  exact absurd hlast (by decide)

end Redo
end SmkFs
end AmitX
