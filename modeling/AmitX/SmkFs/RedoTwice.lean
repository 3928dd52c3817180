import AmitX.SmkFs.Format
import AmitX.SmkFs.Redo
import AmitX.Lib.Patch
/-!
# RedoTwice — redoing a journal more than once (`journal.c`)

What the redo of an entry writes does not depend on the disk: it assigns constants to bits of the disk, and a sequence of
entries is one patch.  Only the last 64 bytes of a block written for a `WRITE` entry differ from one redo to the next.
A patch that is applied to what a prefix of it left behind gives what it gives alone.
-/
namespace AmitX
namespace SmkFs
namespace Redo

open Bytes Prog Patch

/-! ## The bits of the disk -/

/-- A bit of the disk: its block, its byte and its place in the byte. -/
abbrev Place := Nat × Nat × Nat

def bits (d : Nat → Bytes.Mem) : Place → Bool := fun p => (d p.1 p.2.1).getLsbD p.2.2

/-- The place of the bitmap bit of data block `idx`. -/
def bitPlace (l : Layout) (idx : Nat) : Place := (l.bitmapStart + idx / 8 / blockSize, idx / 8 % blockSize, idx % 8)

def bitPatch (l : Layout) (b : Bool) (block : Nat) : Place → Option Bool :=
  if block < l.dataStart then nothing else fun p => if p = bitPlace l (block - l.dataStart) then some b else none

/-- The bits of the blocks `block + i` on, `n` of them, are assigned. -/
def rangePatch (l : Layout) (b : Bool) (block i n : Nat) : Place → Option Bool :=
  all ((List.range' i n).map (fun j => bitPatch l b (add64 block j)))

/-- The bytes of a block from `offset` on, `n` of them, are those of `mem` from `source` on. -/
def bytesPatch (block offset n : Nat) (mem : Bytes.Mem) (source : Nat) : Place → Option Bool := fun p =>
  if p.1 = block ∧ offset ≤ p.2.1 ∧ p.2.1 < offset + n then some ((mem (source + (p.2.1 - offset))).getLsbD p.2.2) else none

/-- Every byte of a block is one of `mem` from `source` on. -/
def blockPatch (block : Nat) (mem : Bytes.Mem) (source : Nat) : Place → Option Bool := fun p =>
  if p.1 = block then some ((mem (source + p.2.1)).getLsbD p.2.2) else none

def redoPatch (l : Layout) (ent : Entry) (mem : Bytes.Mem) : Place → Option Bool :=
  if ent.operation = jopWrite then
    if 0 < ent.dataLength then blockPatch ent.targetBlock mem journalEntrySize else nothing
  else if ent.operation = jopAlloc then rangePatch l true ent.targetBlock 0 ent.dataLength
  else if ent.operation = jopFree then rangePatch l false ent.targetBlock 0 ent.dataLength
  else if ent.operation = jopMrtUpdate then
    bytesPatch (l.mrtStart + ent.recordId / entriesPerBlock) (mrtEntrySize * (ent.recordId % entriesPerBlock)) mrtEntrySize
      mem journalEntrySize
  else nothing

def redoOk (l : Layout) (ent : Entry) : Bool :=
  if ent.operation = jopMrtUpdate then ent.dataLength == mrtEntrySize && decide (ent.recordId < l.mrtCapacity)
  else decide (ent.operation ∈ [jopWrite, jopAlloc, jopFree, jopCommit, jopCheckpoint])

section

variable {s s' : State} {l : Layout}

/-! ## The redo of an entry is a patch -/

theorem bit_one_shift {j k : Nat} (hj : j < 8) : (1#8 <<< k).getLsbD j = decide (j = k) := by
  rw [BitVec.getLsbD_shiftLeft, BitVec.getLsbD_one]
  by_cases h : j = k
  · subst h
    simp [hj]
  · simp only [hj, h, decide_true, decide_false, Bool.true_and, Bool.and_eq_false_iff, Bool.not_eq_eq_eq_not,
      Bool.not_false, decide_eq_true_eq, decide_eq_false_iff_not]
    omega

theorem byteBit_getLsbD (x : Byte) {k j : Nat} (hk : k < 8) (b : Bool) :
    (byteBit x k b).getLsbD j = if j = k then b else x.getLsbD j := by
  by_cases hj : j < 8
  · cases b with
    | true =>
      rw [byteBit, if_pos rfl, BitVec.getLsbD_or, bit_one_shift hj]
      by_cases h : j = k <;> simp [h]
    | false =>
      rw [byteBit, if_neg (by simp), BitVec.getLsbD_and, BitVec.getLsbD_not, bit_one_shift hj]
      by_cases h : j = k <;> simp [h, hj]
  · have hhigh : ∀ y : Byte, y.getLsbD j = false := fun y => BitVec.getLsbD_of_ge y j (by omega)
    rw [hhigh, if_neg (by omega), hhigh]

@[simp] theorem writeBlock_toMem (t : Nat) (x : Bytes.Mem) (s : State) : (s.writeBlock t x).toMem = s.toMem := rfl
@[simp] theorem writeBlock_disk (t : Nat) (x : Bytes.Mem) (s : State) :
    (s.writeBlock t x).disk = Function.update s.disk t x := rfl
theorem bits_update_byte (d : Nat → Bytes.Mem) (t o k : Nat) (hk : k < 8) (b : Bool) :
    bits (Function.update d t (Function.update (d t) o (byteBit (d t o) k b))) =
      apply (fun p => if p = (t, o, k) then some b else none) (bits d) := by
  funext ⟨t', o', k'⟩
  unfold bits
  by_cases ht : t' = t
  · subst ht
    by_cases ho : o' = o
    · subst ho
      simp only [Function.update_self, byteBit_getLsbD _ hk, apply]
      by_cases hk' : k' = k <;> simp [hk']
    · simp [apply, ho]
  · simp [apply, ht]

theorem bits_putBit (b : Bool) (count : Nat → SmkFs.Mem → SmkFs.Mem) (block : Nat) (s : State) :
    bits (s.putBit b count block).disk = apply (bitPatch s.sb.toLayout b block) (bits s.disk) := by
  unfold State.putBit bitPatch
  split
  · rfl
  · exact bits_update_byte s.disk _ _ _ (Nat.mod_lt _ (by decide)) b

theorem layout_putBit {count : Nat → SmkFs.Mem → SmkFs.Mem} (hcount : ∀ i m, (count i m).sb.toLayout = m.sb.toLayout)
    (b : Bool) (block : Nat) (s : State) : (s.putBit b count block).sb.toLayout = s.sb.toLayout := by
  unfold State.putBit
  split
  · rfl
  · rw [writeBlock_toMem]
    split
    · rfl
    · exact hcount _ _

theorem forRange_putBit {count : Nat → SmkFs.Mem → SmkFs.Mem} (hcount : ∀ i m, (count i m).sb.toLayout = m.sb.toLayout)
    (b : Bool) (block : Nat) : ∀ (n i : Nat) (s : State), ∃ s',
    forRange (fun j => (modify (State.putBit b count (add64 block j)) : RedoM Unit)) i n s = (.ok (), s') ∧
      s'.sb.toLayout = s.sb.toLayout ∧ bits s'.disk = apply (rangePatch s.sb.toLayout b block i n) (bits s.disk)
  | 0, i, s => ⟨s, rfl, rfl, rfl⟩
  | n + 1, i, s => by
    obtain ⟨s', hrun, hl, hbits⟩ := forRange_putBit hcount b block n (i + 1) (s.putBit b count (add64 block i))
    have hl1 := layout_putBit hcount b (add64 block i) s
    refine ⟨s', hrun, hl.trans hl1, ?_⟩
    rw [hbits, bits_putBit, hl1, rangePatch, rangePatch, List.range'_succ, List.map_cons, all, apply_andThen]

theorem bits_writeBlock (t : Nat) (mem : Bytes.Mem) (a : Nat) (d : Nat → Bytes.Mem) :
    bits (Function.update d t (fun j => mem (a + j))) = apply (blockPatch t mem a) (bits d) := by
  funext ⟨t', o, k⟩
  unfold bits blockPatch apply
  by_cases ht : t' = t
  · subst ht
    simp
  · simp [ht]

theorem bits_copy (t o n a : Nat) (mem : Bytes.Mem) (d : Nat → Bytes.Mem) :
    bits (Function.update d t (copy (d t) o mem a n)) = apply (bytesPatch t o n mem a) (bits d) := by
  funext ⟨t', o', k⟩
  unfold bits bytesPatch apply
  by_cases ht : t' = t
  · subst ht
    by_cases ho : o ≤ o' ∧ o' < o + n
    · simp [ho, copy_of_mem ho.1 ho.2]
    · have hout : o' < o ∨ o + n ≤ o' := by omega
      simp [ho, copy_of_not hout]
  · simp [ht]

theorem redo_cases (ent : Entry) (mem : Bytes.Mem) (s : State) :
    (ent.operation = jopWrite ∧ journalRedoEntry ent mem s = if 0 < ent.dataLength then
      (.ok (), (s.writeBlock ent.targetBlock (fun j => mem (journalEntrySize + j))).note
        ⟨ent.targetBlock, journalEntrySize⟩) else (.ok (), s)) ∨
    (ent.operation = jopAlloc ∧ journalRedoEntry ent mem s = forRange (fun i =>
      modify (State.bitmapSet (add64 ent.targetBlock i))) 0 ent.dataLength s) ∨
    (ent.operation = jopFree ∧ journalRedoEntry ent mem s = forRange (fun i =>
      modify (State.bitmapClear (add64 ent.targetBlock i))) 0 ent.dataLength s) ∨
    ((ent.operation = jopCommit ∨ ent.operation = jopCheckpoint) ∧
      journalRedoEntry ent mem s = (.ok (), s)) ∨
    (ent.operation = jopMrtUpdate ∧ journalRedoEntry ent mem s = if redoOk s.sb.toLayout ent then
      (.ok (), s.writeBlock (s.sb.mrtStart + ent.recordId / entriesPerBlock)
        (copy (s.disk (s.sb.mrtStart + ent.recordId / entriesPerBlock))
          (mrtEntrySize * (ent.recordId % entriesPerBlock)) mem journalEntrySize mrtEntrySize))
      else (.error .corrupt, s)) ∨
    (redoOk s.sb.toLayout ent = false ∧ journalRedoEntry ent mem s = (.error .corrupt, s)) := by
  by_cases hwrite : ent.operation = jopWrite
  · refine .inl ⟨hwrite, ?_⟩
    rw [journalRedoEntry, if_pos hwrite]
    by_cases hlen : 0 < ent.dataLength
    · rw [if_pos hlen, when, if_pos hlen]
      rfl
    · rw [if_neg hlen, when, if_neg hlen]
      rfl
  by_cases halloc : ent.operation = jopAlloc
  · refine .inr (.inl ⟨halloc, ?_⟩)
    rw [journalRedoEntry, if_neg hwrite, if_pos halloc]
  by_cases hfree : ent.operation = jopFree
  · refine .inr (.inr (.inl ⟨hfree, ?_⟩))
    rw [journalRedoEntry, if_neg hwrite, if_neg halloc, if_pos hfree]
  by_cases hmark : ent.operation = jopCommit ∨ ent.operation = jopCheckpoint
  · refine .inr (.inr (.inr (.inl ⟨hmark, ?_⟩)))
    rw [journalRedoEntry, if_neg hwrite, if_neg halloc, if_neg hfree, if_pos hmark]
    rfl
  by_cases hmrt : ent.operation = jopMrtUpdate
  · refine .inr (.inr (.inr (.inr (.inl ⟨hmrt, ?_⟩))))
    rw [journalRedoEntry, if_neg hwrite, if_neg halloc, if_neg hfree, if_neg hmark, if_pos hmrt]
    rw [get_bind]
    by_cases hlen : ent.dataLength = mrtEntrySize
    · by_cases hid : ent.recordId < s.sb.mrtCapacity
      · rw [if_pos (by simp [redoOk, hmrt, hlen, hid])]
        simp only [failIf, hlen, not_true_eq_false, if_neg (Nat.not_le.2 hid), ne_eq, if_false]
        rfl
      · rw [if_neg (by simp [redoOk, hmrt, hlen, hid])]
        simp only [failIf, hlen, not_true_eq_false, if_pos (Nat.not_lt.1 hid), ne_eq, if_false]
        rfl
    · rw [if_neg (by simp [redoOk, hmrt, hlen])]
      simp only [failIf, ne_eq, hlen, not_false_eq_true, if_true]
      rfl
  · refine .inr (.inr (.inr (.inr (.inr ⟨?_, ?_⟩))))
    · rw [redoOk, if_neg hmrt]
      simp only [List.mem_cons, List.not_mem_nil, or_false, decide_eq_false_iff_not]
      tauto
    · rw [journalRedoEntry, if_neg hwrite, if_neg halloc, if_neg hfree, if_neg hmark, if_neg hmrt]
      rfl

/-- How the redo of one entry ends: it assigns its constants, or fails and changes nothing. -/
structure Redone (ent : Entry) (mem : Bytes.Mem) (s : State) (r : Except Err Unit) (s' : State) : Prop where
  result : r = if redoOk s.sb.toLayout ent then .ok () else .error .corrupt
  layout : s'.sb.toLayout = s.sb.toLayout
  bits : bits s'.disk = if redoOk s.sb.toLayout ent then apply (redoPatch s.sb.toLayout ent mem) (bits s.disk)
    else bits s.disk

theorem journalRedoEntry_redone (ent : Entry) (mem : Bytes.Mem) (s : State) :
    Redone ent mem s (journalRedoEntry ent mem s).1 (journalRedoEntry ent mem s).2 := by
  have hrange : ∀ {count : Nat → SmkFs.Mem → SmkFs.Mem} (b : Bool),
      (∀ i m, (count i m).sb.toLayout = m.sb.toLayout) → redoOk s.sb.toLayout ent = true →
      redoPatch s.sb.toLayout ent mem =
        rangePatch s.sb.toLayout b ent.targetBlock 0 ent.dataLength →
      journalRedoEntry ent mem s = forRange (fun j =>
        (modify (State.putBit b count (add64 ent.targetBlock j)) : RedoM Unit)) 0 ent.dataLength s →
      Redone ent mem s (journalRedoEntry ent mem s).1 (journalRedoEntry ent mem s).2 := by
    intro count b hcount hok hpatch heq
    obtain ⟨s', hrun, hl, hbits⟩ := forRange_putBit hcount b ent.targetBlock ent.dataLength 0 s
    rw [heq, hrun]
    exact ⟨by rw [if_pos hok], hl, by rw [if_pos hok, hpatch, hbits]⟩
  have hplain : redoOk s.sb.toLayout ent = true → redoPatch s.sb.toLayout ent mem = nothing →
      journalRedoEntry ent mem s = (.ok (), s) → Redone ent mem s (journalRedoEntry ent mem s).1 (journalRedoEntry ent mem s).2 := by
    intro hok hpatch heq
    rw [heq]
    exact ⟨by rw [if_pos hok], rfl, by rw [if_pos hok, hpatch, apply_nothing]⟩
  rcases redo_cases ent mem s with ⟨hop, h⟩ | ⟨hop, h⟩ | ⟨hop, h⟩ | ⟨hop, h⟩ | ⟨hop, h⟩ | ⟨hop, h⟩
  · by_cases hlen : 0 < ent.dataLength
    · rw [h, if_pos hlen]
      refine ⟨by simp [redoOk, hop, jopWrite, jopMrtUpdate], rfl, ?_⟩
      rw [if_pos (by simp [redoOk, hop, jopWrite, jopMrtUpdate]), redoPatch, if_pos hop, if_pos hlen]
      exact bits_writeBlock _ _ _ _
    · refine hplain (by simp [redoOk, hop, jopWrite, jopMrtUpdate]) ?_ (by rw [h, if_neg hlen])
      rw [redoPatch, if_pos hop, if_neg hlen]
  · refine hrange true countTaken_layout (by simp [redoOk, hop, jopAlloc, jopMrtUpdate]) ?_ h
    rw [redoPatch, hop, if_neg (by decide), if_pos rfl]
  · refine hrange false countFreed_layout (by simp [redoOk, hop, jopFree, jopMrtUpdate]) ?_ h
    rw [redoPatch, hop, if_neg (by decide), if_neg (by decide), if_pos rfl]
  · rcases hop with hop | hop
    · refine hplain (by simp [redoOk, hop, jopCommit, jopMrtUpdate]) ?_ h
      rw [redoPatch, hop, if_neg (by decide), if_neg (by decide), if_neg (by decide), if_neg (by decide)]
    · refine hplain (by simp [redoOk, hop, jopCheckpoint, jopMrtUpdate]) ?_ h
      rw [redoPatch, hop, if_neg (by decide), if_neg (by decide), if_neg (by decide), if_neg (by decide)]
  · by_cases hok : redoOk s.sb.toLayout ent = true
    · rw [h, if_pos hok]
      refine ⟨by rw [if_pos hok], rfl, ?_⟩
      rw [if_pos hok, redoPatch, hop, if_neg (by decide), if_neg (by decide), if_neg (by decide), if_pos rfl]
      exact bits_copy _ _ _ _ _ _
    · rw [h, if_neg hok]
      exact ⟨by rw [if_neg hok], rfl, by rw [if_neg hok]⟩
  · rw [h]
    exact ⟨by rw [if_neg (by simp [hop])], rfl, by rw [if_neg (by simp [hop])]⟩

end

/-! ## Sequences of entries -/

/-- Redo the entries of a sequence in order, each from the buffer that its block was read into. -/
def redoAll (behind : Nat → Bytes.Mem) : Nat → List (Nat × Logged) → RedoM Unit
  | _, [] => pure ()
  | k, e :: es => do
    let mem := frame (e.2.block e.1) (behind k)
    journalRedoEntry (readEntry mem) mem
    redoAll behind (k + 1) es

/-- What the entries of a sequence assign, up to the first one whose redo fails. -/
def patches (l : Layout) (behind : Nat → Bytes.Mem) : Nat → List (Nat × Logged) → List (Place → Option Bool)
  | _, [] => []
  | k, e :: es =>
    if redoOk l (e.2.entry e.1) then
      redoPatch l (e.2.entry e.1) (frame (e.2.block e.1) (behind k)) :: patches l behind (k + 1) es
    else []

section

variable {l : Layout} {b b' : Nat → Bytes.Mem} {es pre post : List (Nat × Logged)} {p : Place}

theorem Logged.Fits.readEntry {seq : Nat} {e : Logged} (h : e.Fits seq) (behind : Bytes.Mem) :
    readEntry (frame (e.block seq) behind) = e.entry seq := by
  have hblock : blockSize = 4096 := rfl
  have hlen := h.length
  rw [readEntry_frame, Logged.block]
  refine readEntry_entryBlock ?_ h.target ?_ (by omega) h.record
  · cases e <;> exact h.sequence
  · cases e <;> simp [Logged.entry, jopWrite, jopAlloc, jopFree, jopMrtUpdate, jopCommit, jopCheckpoint]

theorem sequence_patch : ∀ (es : List (Nat × Logged)) (k : Nat) (s : State), (∀ e ∈ es, e.2.Fits e.1) →
    ((redoAll b k es s).1 = if es.all (fun e => redoOk s.sb.toLayout (e.2.entry e.1)) then .ok () else .error .corrupt) ∧
      (redoAll b k es s).2.sb.toLayout = s.sb.toLayout ∧
      bits (redoAll b k es s).2.disk = apply (all (patches s.sb.toLayout b k es)) (bits s.disk)
  | [], k, s, _ => ⟨rfl, rfl, rfl⟩
  | e :: es, k, s, hfit => by
    have hread := (hfit e List.mem_cons_self).readEntry (b k)
    have hredo := journalRedoEntry_redone (e.2.entry e.1) (frame (e.2.block e.1) (b k)) s
    obtain ⟨hresult, hlayout, hbits⟩ := hredo
    have hrun : redoAll b k (e :: es) s = (journalRedoEntry (e.2.entry e.1) (frame (e.2.block e.1) (b k)) >>=
        fun _ => redoAll b (k + 1) es) s := by
      rw [redoAll, hread]
    rw [hrun, List.all_cons, patches]
    cases hm : journalRedoEntry (e.2.entry e.1) (frame (e.2.block e.1) (b k)) s with
    | mk r s1 =>
      rw [hm] at hresult hlayout hbits
      simp only at hresult hlayout hbits
      by_cases hok : redoOk s.sb.toLayout (e.2.entry e.1) = true
      · rw [if_pos hok] at hresult hbits
        subst hresult
        obtain ⟨hr, hl, hb⟩ := sequence_patch es (k + 1) s1 (fun e' he' => hfit e' (List.mem_cons_of_mem _ he'))
        have hstep : (journalRedoEntry (e.2.entry e.1) (frame (e.2.block e.1) (b k)) >>= fun _ => redoAll b (k + 1) es) s =
            redoAll b (k + 1) es s1 := bind_of_ok hm _
        rw [hstep, if_pos hok, hok, Bool.true_and, all, apply_andThen, ← hbits]
        rw [hlayout] at hr hl hb
        exact ⟨hr, hl, hb⟩
      · rw [if_neg hok] at hresult hbits
        subst hresult
        have hstep : (journalRedoEntry (e.2.entry e.1) (frame (e.2.block e.1) (b k)) >>= fun _ => redoAll b (k + 1) es) s =
            (.error .corrupt, s1) := bind_of_error hm _
        rw [hstep, if_neg hok, Bool.eq_false_iff.2 hok, Bool.false_and]
        exact ⟨rfl, hlayout, hbits⟩

theorem samePlaces_redoPatch (l : Layout) (ent : Entry) (mem mem' : Bytes.Mem) :
    SamePlaces (redoPatch l ent mem) (redoPatch l ent mem') := by
  intro p
  unfold redoPatch
  split
  · split
    · unfold blockPatch
      split <;> rfl
    · rfl
  · split
    · rfl
    · split
      · rfl
      · split
        · unfold bytesPatch
          split <;> rfl
        · rfl

theorem covers_patches : ∀ (pre : List (Nat × Logged)) (k k' : Nat),
    Covers (all (patches l b k pre)) (all (patches l b' k' (pre ++ post)))
  | [], _, _ => fun _ h => by cases h
  | e :: pre, k, k' => by
    rw [List.cons_append, patches, patches]
    split
    · rw [all, all]
      intro p hp
      have hsame := samePlaces_redoPatch l (e.2.entry e.1) (frame (e.2.block e.1) (b k)) (frame (e.2.block e.1) (b' k')) p
      have hrest := covers_patches pre (k + 1) (k' + 1) p
      unfold andThen at hp ⊢
      rw [Option.isSome_or, Bool.or_eq_true] at hp ⊢
      exact hp.imp hrest (fun h => hsame ▸ h)
    · exact fun _ h => by cases h

def Logged.Settled (p : Place) : Logged → Prop
  | .write block _ _ => p.1 ≠ block ∨ p.2.1 < blockSize - journalEntrySize
  | _ => True

theorem redoPatch_write (seq block len : Nat) (newData mem : Bytes.Mem) :
    redoPatch l ((Logged.write block len newData).entry seq) mem =
      if 0 < len then blockPatch block mem journalEntrySize else nothing := if_pos rfl

theorem redoPatch_mrtUpdate (seq recordId : Nat) (entry mem : Bytes.Mem) :
    redoPatch l ((Logged.mrtUpdate recordId entry).entry seq) mem =
      bytesPatch (l.mrtStart + recordId / entriesPerBlock) (mrtEntrySize * (recordId % entriesPerBlock)) mrtEntrySize
        mem journalEntrySize := by
  have hop : ((Logged.mrtUpdate recordId entry).entry seq).operation = jopMrtUpdate := rfl
  rw [redoPatch, hop, if_neg (by decide), if_neg (by decide), if_neg (by decide), if_pos rfl]
  rfl

theorem redoPatch_settled {seq : Nat} {e : Logged} (x c c' : Bytes.Mem) (h : e.Settled p) :
    redoPatch l (e.entry seq) (frame x c) p = redoPatch l (e.entry seq) (frame x c') p := by
  have hblock : blockSize = 4096 := rfl
  have hentry : journalEntrySize = 64 := rfl
  have hmrt : mrtEntrySize = 16 := rfl
  cases e with
  | write block len newData =>
    rw [redoPatch_write, redoPatch_write]
    by_cases hlen : 0 < len
    · rw [if_pos hlen, if_pos hlen]
      unfold blockPatch
      by_cases hp : p.1 = block
      · have hin : p.2.1 < blockSize - journalEntrySize := h.resolve_left (fun hne => hne hp)
        rw [if_pos hp, if_pos hp, frame_of_lt (by omega), frame_of_lt (by omega)]
      · rw [if_neg hp, if_neg hp]
    · rw [if_neg hlen, if_neg hlen]
  | mrtUpdate recordId entry =>
    rw [redoPatch_mrtUpdate, redoPatch_mrtUpdate]
    unfold bytesPatch
    by_cases hp : p.1 = l.mrtStart + recordId / entriesPerBlock ∧ mrtEntrySize * (recordId % entriesPerBlock) ≤ p.2.1 ∧
        p.2.1 < mrtEntrySize * (recordId % entriesPerBlock) + mrtEntrySize
    · rw [if_pos hp, if_pos hp, frame_of_lt (by omega), frame_of_lt (by omega)]
    · rw [if_neg hp, if_neg hp]
  | alloc | free | commit | checkpoint => rfl

theorem all_patches_settled (b b' : Nat → Bytes.Mem) : ∀ (es : List (Nat × Logged)) (k : Nat),
    (∀ e ∈ es, e.2.Settled p) → all (patches l b k es) p = all (patches l b' k es) p
  | [], _, _ => rfl
  | e :: es, k, h => by
    rw [patches, patches]
    split
    · have hrest := all_patches_settled b b' es (k + 1) (fun e' he' => h e' (List.mem_cons_of_mem _ he'))
      rw [all, all, andThen, andThen, hrest, redoPatch_settled _ _ (b' k) (h e List.mem_cons_self)]
    · rfl

end

/-! ## Recovery that is interrupted -/

def sameByte (s s' : State) (block i : Nat) : Prop := s.disk block i = s'.disk block i

/-- The two disks have the same bitmap, the same table of records and the same logged bytes of the `WRITE` entries. -/
structure SameRedo (l : Layout) (es : List (Nat × Logged)) (s s' : State) : Prop where
  bitmap : ∀ idx < l.dataBlocks, bits s.disk (bitPlace l idx) = bits s'.disk (bitPlace l idx)
  mrt : ∀ id < l.mrtCapacity, ∀ j < mrtEntrySize, sameByte s s' (l.mrtStart + id / entriesPerBlock)
    (mrtEntrySize * (id % entriesPerBlock) + j)
  logged : ∀ e ∈ es, ∀ block len newData, e.2 = .write block len newData → ∀ j < len, sameByte s s' block j

/-- The blocks that are logged with their new data are blocks of the data area. -/
def Logged.InDataArea (l : Layout) : Logged → Prop
  | .write block _ _ => l.dataStart ≤ block
  | _ => True

theorem bitPlace_block_lt {l : Layout} (hl : l.WF) {idx : Nat} (hi : idx < l.dataBlocks) : (bitPlace l idx).1 < l.dataStart := by
  have hcov := hl.covers
  have hmrt := hl.mrt
  have hbitmap := hl.bitmap
  rw [hl.dataBlocks_eq] at hi
  have hbits : bitsPerBlock = 32768 := by unfold bitsPerBlock; rfl
  have hsize : blockSize = 4096 := rfl
  rw [hbits] at hcov
  have : idx / 8 / blockSize < l.bitmapLength := by
    rw [hsize, Nat.div_div_eq_div_mul]
    omega
  simp only [bitPlace]
  omega

/-- **Redo is idempotent.**  A prefix of a sequence of logged entries and then the whole sequence, redone from what the
prefix left behind, end as the sequence alone does and leave the same bitmap bits, the same table of records and the
same logged bytes, whatever lies behind the buffers. -/
theorem redo_prefix_then_whole (s : State) (pre post : List (Nat × Logged)) (b b1 b2 : Nat → Bytes.Mem)
    (hl : s.sb.toLayout.WF) (hfit : ∀ e ∈ pre ++ post, e.2.Fits e.1)
    (hdata : ∀ e ∈ pre ++ post, e.2.InDataArea s.sb.toLayout) :
    (redoAll b2 0 (pre ++ post) (redoAll b1 0 pre s).2).1 = (redoAll b 0 (pre ++ post) s).1 ∧
      SameRedo s.sb.toLayout (pre ++ post) (redoAll b2 0 (pre ++ post) (redoAll b1 0 pre s).2).2
        (redoAll b 0 (pre ++ post) s).2 := by
  obtain ⟨-, hl1, hbits1⟩ := @sequence_patch b1 pre 0 s (fun e he => hfit e (List.mem_append_left _ he))
  obtain ⟨hr2, -, hbits2⟩ := @sequence_patch b2 (pre ++ post) 0 (redoAll b1 0 pre s).2 hfit
  obtain ⟨hr, -, hbits⟩ := @sequence_patch b (pre ++ post) 0 s hfit
  rw [hl1] at hr2 hbits2
  rw [hbits1, apply_apply_of_covers (covers_patches pre 0 0)] at hbits2
  have hsame : ∀ p : Place, p.1 < s.sb.dataStart ∨ p.2.1 < blockSize - journalEntrySize →
      bits (redoAll b2 0 (pre ++ post) (redoAll b1 0 pre s).2).2.disk p = bits (redoAll b 0 (pre ++ post) s).2.disk p := by
    intro p hp
    rw [hbits2, hbits, apply, apply, all_patches_settled b2 b]
    intro e he
    have hin := hdata e he
    cases hev : e.2 with
    | write block len newData =>
      rw [hev] at hin
      refine hp.imp (fun hlt heq => ?_) id
      rw [heq] at hlt
      exact absurd hlt (Nat.not_lt.2 hin)
    | _ => trivial
  have hbyte : ∀ block i, block < s.sb.dataStart ∨ i < blockSize - journalEntrySize →
      sameByte (redoAll b2 0 (pre ++ post) (redoAll b1 0 pre s).2).2 (redoAll b 0 (pre ++ post) s).2 block i :=
    fun block i h => BitVec.eq_of_getLsbD_eq (fun k _ => hsame (block, i, k) h)
  refine ⟨hr2.trans hr.symm, fun idx hi => hsame _ (Or.inl (bitPlace_block_lt hl hi)), fun id hid j _ => ?_, ?_⟩
  · refine hbyte _ _ (Or.inl ?_)
    have hcap := hl.capacity
    have hmrt := hl.mrt
    have hper : entriesPerBlock = 256 := by unfold entriesPerBlock; rfl
    rw [hper] at hcap ⊢
    omega
  · intro e he block len newData hev j hj
    have hlen := (hfit e he).length
    rw [hev] at hlen
    exact hbyte _ _ (Or.inr (Nat.lt_of_lt_of_le hj hlen))

def smallState : State :=
  { sb := ⟨mkfsLayout 16 512, ⟨0, 0, 0, 0, false, 0⟩, ⟨0, 0, 1⟩⟩, journalNextSequence := 1, journalInTransaction := false,
    regions := none, regionCount := 0, allocHintRegion := 0, mounted := false, disk := fun _ _ => 0, writes := [] }

/-- A block is allocated, written and freed in one transaction, and the redo is interrupted before the write. -/
theorem redo_prefix_then_whole_small :
    SameRedo smallState.sb.toLayout [(1, .alloc 14 1), (2, .write 14 100 (fun _ => 7)), (3, .free 14 1), (4, .commit)]
      (redoAll (fun _ _ => 1) 0 [(1, .alloc 14 1), (2, .write 14 100 (fun _ => 7)), (3, .free 14 1), (4, .commit)]
        (redoAll (fun _ _ => 2) 0 [(1, .alloc 14 1)] smallState).2).2
      (redoAll (fun _ _ => 3) 0 [(1, .alloc 14 1), (2, .write 14 100 (fun _ => 7)), (3, .free 14 1), (4, .commit)]
        smallState).2 := by
  refine (redo_prefix_then_whole smallState [(1, .alloc 14 1)]
    [(2, .write 14 100 (fun _ => 7)), (3, .free 14 1), (4, .commit)] (fun _ _ => 3) (fun _ _ => 2) (fun _ _ => 1)
    (mkfsLayout_wf (by decide) (by decide)) (fun e he => ?_) (fun e he => ?_)).2
  · simp only [List.cons_append, List.nil_append, List.mem_cons, List.not_mem_nil, or_false] at he
    rcases he with rfl | rfl | rfl | rfl <;> exact ⟨by decide, by decide, by decide, by decide⟩
  · simp only [List.cons_append, List.nil_append, List.mem_cons, List.not_mem_nil, or_false] at he
    rcases he with rfl | rfl | rfl | rfl
    · trivial
    · exact (by decide +kernel : smallState.sb.dataStart ≤ 14)
    · trivial
    · trivial

end Redo
end SmkFs
end AmitX
