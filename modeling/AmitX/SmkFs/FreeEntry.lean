import AmitX.SmkFs.AllocExact
/-!
# FreeEntry — the log entry of a free and its undo

`bitmap_free_range` clears the blocks of a range that are in use and logs the start of the range with their number.
The entry, and the undo where it is refused, go over that many blocks from the start on: they are the blocks that were
cleared only if the used blocks of the range are its first ones.
-/
namespace AmitX
namespace SmkFs

open Prog Volume

def FrontUsed (f : Nat → Bool) (s n : Nat) : Prop := ∀ j < usedIn f s n, f (s + j) = true

section
variable {f g : Nat → Bool} {s n N : Nat}

theorem usedIn_le (f : Nat → Bool) (s n : Nat) : usedIn f s n ≤ n := Nat.count_le _

theorem usedIn_mono {m : Nat} (h : m ≤ n) : usedIn f s m ≤ usedIn f s n := Nat.count_monotone _ h

theorem exists_behind (h : ¬FrontUsed f s n) : ∃ j, usedIn f s n ≤ j ∧ j < n ∧ f (s + j) = true := by
  by_contra hno
  have hclear : ∀ j, usedIn f s n ≤ j → j < n → f (s + j) = false := by
    intro j h1 h2
    cases hf : f (s + j) with
    | false => rfl
    | true => exact absurd ⟨j, h1, h2, hf⟩ hno
  have hcount : ∀ m, usedIn f s n ≤ m → m ≤ n → usedIn f s m = usedIn f s (usedIn f s n) := by
    intro m hm
    induction m, hm using Nat.le_induction with
    | base => exact fun _ => rfl
    | succ m hm ih =>
      intro hn
      rw [usedIn_succ, hclear m hm (by omega), ih (by omega)]
      simp
  have hall := Nat.count_iff_forall.1 (hcount n (usedIn_le f s n) (Nat.le_refl n)).symm
  exact h (fun j hj => hall j hj)

theorem not_behind (h : FrontUsed f s n) {j : Nat} (h1 : usedIn f s n ≤ j) (h2 : j < n) : f (s + j) = false := by
  cases hf : f (s + j) with
  | false => rfl
  | true =>
    have hfront : usedIn f s (usedIn f s n) = usedIn f s n := Nat.count_iff_forall.2 (fun j hj => h j hj)
    have hj := usedIn_succ f s j
    have hle := usedIn_mono (f := f) (s := s) h1
    have htotal := usedIn_mono (f := f) (s := s) (show j + 1 ≤ n by omega)
    rw [if_pos hf] at hj
    omega

theorem clearFront_iff (hN : s + n ≤ N) :
    (∀ j < N, fill f s (usedIn f s n) false j = fill f s n false j) ↔ FrontUsed f s n := by
  constructor
  · intro h
    by_contra hno
    obtain ⟨j, h1, h2, hf⟩ := exists_behind hno
    have hj := h (s + j) (by omega)
    rw [fill, fill, if_neg (by omega), if_pos (by omega), hf] at hj
    cases hj
  · intro h j _
    have hle := usedIn_le f s n
    by_cases hin : s ≤ j ∧ j < s + n
    · rw [fill, fill, if_pos hin]
      by_cases hj : s ≤ j ∧ j < s + usedIn f s n
      · rw [if_pos hj]
      · have hback := not_behind h (j := j - s) (by omega) (by omega)
        rw [show s + (j - s) = j by omega] at hback
        rw [if_neg hj, hback]
    · rw [fill, fill, if_neg hin, if_neg (by omega)]

theorem setFront_iff (hN : s + n ≤ N) :
    (∀ j < N, fill (fill f s n false) s (usedIn f s n) true j = f j) ↔ FrontUsed f s n := by
  have hle := usedIn_le f s n
  constructor
  · intro h j hj
    have hset := h (s + j) (by omega)
    rw [fill, if_pos (by omega)] at hset
    exact hset.symm
  · intro h j _
    by_cases hfront : s ≤ j ∧ j < s + usedIn f s n
    · have hset := h (j - s) (by omega)
      rw [show s + (j - s) = j by omega] at hset
      rw [fill, if_pos hfront, hset]
    · rw [fill, if_neg hfront, fill]
      by_cases hin : s ≤ j ∧ j < s + n
      · have hback := not_behind h (j := j - s) (by omega) (by omega)
        rw [show s + (j - s) = j by omega] at hback
        rw [if_pos hin, hback]
      · rw [if_neg hin]

theorem frontUsed_of_back (hN : s + n ≤ N)
    (hg : ∀ j < N, ¬(s ≤ j ∧ j < s + usedIn f s n) → g j = fill f s n false j) (h : ∀ j < N, g j = f j) :
    FrontUsed f s n := by
  by_contra hno
  obtain ⟨j, h1, h2, hf⟩ := exists_behind hno
  have hj := hg (s + j) (by omega) (by omega)
  rw [h _ (by omega), fill, if_pos (by omega), hf] at hj
  cases hj

end

/-! ## Redo and undo -/

section
variable {v : Volume} {s n k : Nat}

/-- Nothing but the bitmap, the counters and the blocks of the disk has changed. -/
structure SameJournal (v v' : Volume) : Prop where
  layout : v'.sb.toLayout = v.sb.toLayout
  ring : v'.sb.toRing = v.sb.toRing
  inTransaction : v'.journalInTransaction = v.journalInTransaction

theorem SameJournal.refl (v : Volume) : SameJournal v v := ⟨rfl, rfl, rfl⟩

theorem SameJournal.bitmapSet {v w : Volume} (h : SameJournal v w) (idx : Nat) : SameJournal v (w.bitmapSet idx) := by
  refine ⟨layout_bitmapSet.trans h.layout, ?_, ?_⟩
  · rw [← h.ring]
    cases hu : w.used idx with
    | true => rw [bitmapSet_of_used hu, setUsed_toMem]
    | false => rw [bitmapSet_of_clear hu, mapMem_toMem, countTaken_ring, setUsed_toMem]
  · rw [← h.inTransaction]
    cases hu : w.used idx with
    | true => rw [bitmapSet_of_used hu, setUsed_toMem]
    | false =>
      rw [bitmapSet_of_clear hu]
      exact (allocFrame_countTaken (w.setUsed idx true) idx).inTransaction

theorem vwp_setRun (F : Prop) (hl : v.sb.toLayout.WF) (s : Nat) (k : Nat) :
    vwp F (forRange (fun j => (bitmapSet (v.sb.dataStart + s + j)).ignore) 0 k)
      (fun _ v' => SameJournal v v' ∧ (∀ i, ¬(s ≤ i ∧ i < s + k) → v'.used i = v.used i) ∧
        (¬F → v'.used = fill v.used s k true)) (fun _ _ => False) v := by
  have h := wpAbs_forRange (π := faultView F F) (F := fun _ _ => False)
    (b := fun j => (bitmapSet (v.sb.dataStart + s + j)).ignore)
    (I := fun j w => SameJournal v w ∧ (∀ i, ¬(s ≤ i ∧ i < s + j) → w.used i = v.used i) ∧
      (¬F → w.used = fill v.used s j true)) k 0 (a := v)
    ⟨.refl v, fun _ _ => rfl, fun _ => (fill_zero _ _ _).symm⟩ (fun j w _ _ hw => ?_)
  · rwa [Nat.zero_add] at h
  · obtain ⟨hsame, hout, hin⟩ := hw
    have hstart : w.sb.dataStart = v.sb.dataStart := congrArg Layout.dataStart hsame.layout
    have hsec : w.sectorOk := by rw [← hsame.layout] at hl; exact hl.sector
    refine wpAbs_ignore (wpAbs_mono (vwp_bitmapSet F w _) (fun _ w' h => ?_) (fun _ w' h => ?_))
    · obtain ⟨-, rfl⟩ := h
      rw [hstart, show v.sb.dataStart + s + j - v.sb.dataStart = s + j by omega]
      refine ⟨hsame.bitmapSet _, fun i hi => ?_, fun hF => ?_⟩
      · rw [used_bitmapSet, Function.update_of_ne (by omega), hout i (by omega)]
      · rw [used_bitmapSet, hin hF, fill_succ]
    · obtain ⟨rfl, hfail⟩ := h
      refine ⟨hsame, fun i hi => hout i (by omega), fun hF => ?_⟩
      exact absurd (hfail (by omega)) (fun h => h.elim hF (fun h => h hsec))

theorem fwp_redoFree (hl : v.sb.toLayout.WF) (hk : s + k ≤ v.sb.dataBlocks) (seq rid : Nat) (x : BlockData) :
    fwp False False (journalRedoEntry ⟨seq, v.sb.dataStart + s, .free, k, rid⟩ x)
      (fun _ v' => v'.used = fill v.used s k false) (fun _ _ => False) v := by
  have h := wpAbs_forRange (π := faultView False False) (F := fun _ _ => False)
    (b := fun i => (bitmapClear (add64 (v.sb.dataStart + s) i)).ignore)
    (I := fun i w => w.sb.toLayout = v.sb.toLayout ∧ w.used = fill v.used s i false) k 0 (a := v)
    ⟨rfl, (fill_zero _ _ _).symm⟩ (fun i w _ hi hw => ?_)
  · rw [Nat.zero_add] at h
    exact wpAbs_mono h (fun _ _ h => h.2) (fun _ _ h => h)
  · obtain ⟨hlay, hused⟩ := hw
    have hstart : w.sb.dataStart = v.sb.dataStart := congrArg Layout.dataStart hlay
    have hsec : w.sectorOk := by rw [← hlay] at hl; exact hl.sector
    have hadd : add64 (v.sb.dataStart + s) i = v.sb.dataStart + s + i := by
      have htotal := hl.total
      have hdata := hl.data
      rw [hl.dataBlocks_eq] at hk
      exact add64_of_lt (by omega)
    rw [hadd]
    refine wpAbs_ignore (wpAbs_mono (vwp_bitmapClear False w _) (fun _ w' h => ?_) (fun _ w' h => ?_))
    · obtain ⟨-, rfl⟩ := h
      rw [hstart, show v.sb.dataStart + s + i - v.sb.dataStart = s + i by omega]
      exact ⟨layout_bitmapClear.trans hlay, by rw [used_bitmapClear, hused, fill_succ]⟩
    · exact absurd (h.2 (by omega)) (fun h => h.elim id (fun h => h hsec))

/-- The blocks of the range are clear, and the journal has its start with the number of the used ones, if any was. -/
def ClearedAndLogged (v : Volume) (s n : Nat) (v' : Volume) : Prop :=
  (∀ j < v.sb.dataBlocks, v'.used j = fill v.used s n false j) ∧
    (usedIn v.used s n = 0 ∧ v'.journalNextSequence = v.journalNextSequence ∨
      0 < usedIn v.used s n ∧ v'.journalNextSequence = add64 v.journalNextSequence 1 ∧
      v'.view (v.sb.journalStart + v.sb.journalHead) =
        .journal ⟨v.journalNextSequence, v.sb.dataStart + s, .free, usedIn v.used s n, 0⟩ .zero)

/-- **What `bitmap_free_range` comes to**, whatever transfers and `malloc` calls fail: it clears the range and logs its
start with the number of used blocks, or nothing where none is used; where the entry is refused, the undo has set some of
as many blocks, and all of them if nothing failed. -/
theorem vwp_bitmapFreeRange (F : Prop) (hl : v.sb.toLayout.WF) (hring : v.RingOk) (hn : s + n ≤ v.sb.dataBlocks) :
    vwp F (bitmapFreeRange (v.sb.dataStart + s) n)
      (fun _ v' => ClearedAndLogged v s n v')
      (fun e v' => e = .journal →
        (∀ j < v.sb.dataBlocks, ¬(s ≤ j ∧ j < s + usedIn v.used s n) → v'.used j = fill v.used s n false j) ∧
        (¬F → ∀ j < v.sb.dataBlocks, v'.used j = fill (fill v.used s n false) s (usedIn v.used s n) true j)) v := by
  unfold bitmapFreeRange
  refine wpAbs_bind (wpAbs_failIf (fun _ he => by cases he) (fun _ => wpAbs_bind (vwp_malloc ?_ (fun _ => ?_))))
  · refine wpAbs_bind (wpAbs_failIf (fun h => by simp at h) (fun _ => ?_))
    have hloop := @fwp_bitmapFreeLoop F F v s hl n 0 v (by omega) (Cleared.refl v s)
    rw [Nat.zero_add, usedIn_zero] at hloop
    refine wpAbs_seq hloop (fun freed v1 h => ?_) (fun e _ h he => by rw [h.1] at he; cases he)
    obtain ⟨rfl, h, hseq⟩ := h
    refine wpAbs_when (fun hpos => ?_) (fun hz => ⟨h.used, Or.inl ⟨by omega, hseq⟩⟩)
    have hl1 : v1.sb.toLayout.WF := h.frame.wf hl
    have hstep := journalSteps_logEntry v1 .free (v.sb.dataStart + s) (usedIn v.used s n) 0 .zero (h.frame.ring hring)
    refine wpAbs_elseDo (wpAbs_mono (fwp_journalWriteEntry F F v1 .free _ _ 0 .zero) (fun _ v2 h2 => ?_)
      (fun _ v2 h2 => ?_))
    · obtain ⟨_, rfl⟩ := h2
      refine vwp_modifyMem ⟨fun j hj => ?_, Or.inr ⟨hpos, ?_, ?_⟩⟩
      · rw [used_mapFreeBlocks, sameUsed_of_view hl1 hstep.layout hstep.view j (by rw [h.sb]; exact hj), h.used j hj]
      · show add64 v1.journalNextSequence 1 = _
        rw [hseq]
      · show Function.update v1.view _ _ _ = _
        rw [h.sb, hseq, Function.update_self]
    · have hsame : v2.sb.toLayout = v.sb.toLayout ∧ v2.used = v1.used := by
        rcases h2 with ⟨_, rfl⟩ | ⟨_, rfl⟩ | ⟨_, rfl⟩
        · exact ⟨h.frame.layout, rfl⟩
        · exact ⟨h.frame.layout, rfl⟩
        · exact ⟨h.frame.layout, rfl⟩
      have hstart : v2.sb.dataStart = v.sb.dataStart := congrArg Layout.dataStart hsame.1
      have hundo := vwp_setRun F (v := v2) (by rw [hsame.1]; exact hl) s (usedIn v.used s n)
      rw [hstart] at hundo
      refine wpAbs_seq hundo (fun _ v3 h3 => wpAbs_throw (fun _ => ⟨fun j hj hout => ?_, fun hF j hj => ?_⟩))
        (fun _ _ h => h.elim)
      · rw [h3.2.1 j hout, hsame.2, h.used j hj]
      · rw [h3.2.2 hF, hsame.2, fill, fill]
        split
        · rfl
        · exact h.used j hj
  · exact wpAbs_bind (wpAbs_failIf (fun _ he => by cases he) (fun h => absurd rfl h))

theorem usedIn_of_all (hused : ∀ j < n, v.used (s + j) = true) : usedIn v.used s n = n :=
  Nat.count_iff_forall.2 (fun j hj => hused j hj)

theorem fwp_bitmapFreeRange_used (hl : v.sb.toLayout.WF) (hn : s + n ≤ v.sb.dataBlocks) (hpos : 0 < n)
    (hused : ∀ j < n, v.used (s + j) = true) :
    fwp False False (bitmapFreeRange (v.sb.dataStart + s) n)
      (fun _ v' => v'.journalInTransaction = v.journalInTransaction ∧ journalAccepts v.toMem n = true)
      (fun _ v' => SameJournal v v' ∧ journalAccepts v.toMem n = false ∧
        ∀ j < v.sb.dataBlocks, v'.used j = v.used j) v := by
  unfold bitmapFreeRange
  refine wpAbs_bind (wpAbs_failIf (fun h0 => absurd h0 (by omega)) (fun _ => wpAbs_bind (vwp_malloc ?_ False.elim)))
  refine wpAbs_bind (wpAbs_failIf (fun h => by simp at h) (fun _ => ?_))
  have hloop := @fwp_bitmapFreeLoop False False v s hl n 0 v (by omega) (Cleared.refl v s)
  rw [Nat.zero_add, usedIn_zero, usedIn_of_all hused] at hloop
  refine wpAbs_seq hloop (fun freed v1 h => ?_) (fun _ _ h => h.2.1.elim)
  obtain ⟨rfl, h, -⟩ := h
  have hacc : journalAccepts v1.toMem freed = journalAccepts v.toMem freed :=
    accepts_congr (by rw [h.sb]) (by rw [h.sb]) h.frame.inTransaction freed
  refine wpAbs_when (fun _ => ?_) (fun h0 => absurd hpos h0)
  refine wpAbs_elseDo (wpAbs_mono (fwp_journalWriteEntry False False v1 .free _ _ 0 .zero) (fun _ v2 h2 => ?_)
    (fun _ v2 h2 => ?_))
  · obtain ⟨htaken, rfl⟩ := h2
    exact vwp_modifyMem ⟨h.frame.inTransaction, hacc.symm.trans htaken⟩
  · have hsame : v2 = v1 ∧ journalAccepts v1.toMem freed = false := by
      rcases h2 with ⟨hno, rfl⟩ | ⟨hno, -⟩ | ⟨hno | hno, -⟩
      · exact ⟨rfl, hno⟩
      · exact hno.elim
      · exact hno.elim
      · exact absurd (sectorOk_of_wf (h.frame.wf hl)) hno
    obtain ⟨rfl, hrefused⟩ := hsame
    have hundo := vwp_setRun False (v := v2) (h.frame.wf hl) s freed
    rw [show v2.sb.dataStart = v.sb.dataStart by rw [h.sb]] at hundo
    refine wpAbs_seq hundo (fun _ v3 h3 => wpAbs_throw ?_) (fun _ _ hf => hf.elim)
    obtain ⟨hsame, -, hset⟩ := h3
    refine ⟨⟨hsame.layout.trans h.frame.layout, hsame.ring.trans (by rw [h.sb]),
      hsame.inTransaction.trans h.frame.inTransaction⟩, hacc.symm.trans hrefused, fun j hj => ?_⟩
    rw [hset id]
    by_cases hin : s ≤ j ∧ j < s + freed
    · have hbit := hused (j - s) (by omega)
      rw [show s + (j - s) = j by omega] at hbit
      rw [fill, if_pos hin, hbit]
    · rw [fill, if_neg hin, h.used j hj, fill, if_neg hin]

end

/-! ## The entry and the call -/

def Mount.faultless (s : Mount) : Mount := s.meet [] []

theorem faultless_reliable (s : Mount) : s.faultless.Reliable := by
  constructor
  · rintro ⟨o, ho, -⟩
    cases ho
  · intro h
    cases h

/-- The call of `s` that led to `s'` has logged this entry. -/
def HasLogged (s s' : Mount) (ent : JournalEntry) (payload : BlockData) : Prop :=
  s'.journalNextSequence ≠ s.journalNextSequence ∧
    s'.vol.view (s.sb.journalStart + s.sb.journalHead) = .journal ent payload

/-- The entry that a call logged, replayed on the volume as it was before, gives the bitmap after the call. -/
def RedoSame (s s' : Mount) : Prop :=
  ∀ ent payload, HasLogged s s' ent payload → ∃ r, journalRedoEntry ent payload s.faultless = (.ok (), r) ∧
    ∀ j < s.sb.dataBlocks, r.vol.used j = s'.vol.used j

def SameBits (s s' : Mount) : Prop := ∀ j < s.sb.dataBlocks, s'.vol.used j = s.vol.used j

theorem add64_one_ne (x : Nat) : add64 x 1 ≠ x := by
  unfold add64
  omega

theorem redoFree_run {s : Mount} {idx k : Nat} (hl : s.vol.sb.toLayout.WF) (hk : idx + k ≤ s.vol.sb.dataBlocks)
    (seq rid : Nat) (x : BlockData) :
    ∃ r, journalRedoEntry ⟨seq, s.vol.sb.dataStart + idx, .free, k, rid⟩ x s.faultless = (.ok (), r) ∧
      r.vol.used = fill s.vol.used idx k false := by
  obtain ⟨hd, hh⟩ := faultless_reliable s
  have hredo : fwp False False (journalRedoEntry ⟨seq, s.vol.sb.dataStart + idx, .free, k, rid⟩ x)
      (fun _ v' => v'.used = fill s.vol.used idx k false) (fun _ _ => False) s.faultless.vol :=
    fwp_redoFree hl hk seq rid x
  have hpost := (fwp_apply (P := fun r v => r = .ok () ∧ v.used = fill s.vol.used idx k false)
    (wpAbs_mono hredo (fun _ _ h => ⟨rfl, h⟩) (fun _ _ h => h.elim)) ⟨fun h => hd h, fun h => hh h⟩).2
  exact ⟨_, Prod.ext hpost.1 rfl, hpost.2⟩

theorem redoSame_iff {s s' : Mount} {idx n : Nat} (hl : s.vol.sb.toLayout.WF) (hn : idx + n ≤ s.vol.sb.dataBlocks)
    (h : ClearedAndLogged s.vol idx n s'.vol) : RedoSame s s' ↔ FrontUsed s.vol.used idx n := by
  obtain ⟨hused, ⟨hzero, hseq⟩ | ⟨hpos, hseq, hview⟩⟩ := h
  · refine iff_of_true (fun ent payload h => absurd hseq h.1) (fun j hj => ?_)
    rw [hzero] at hj
    exact absurd hj (Nat.not_lt_zero j)
  · have hle := usedIn_le s.vol.used idx n
    obtain ⟨r, hredo, hr⟩ := redoFree_run hl (show idx + usedIn s.vol.used idx n ≤ _ by omega)
      s.vol.journalNextSequence 0 .zero
    have hlogged : HasLogged s s' ⟨s.vol.journalNextSequence, s.vol.sb.dataStart + idx, .free,
        usedIn s.vol.used idx n, 0⟩ .zero :=
      ⟨fun h => add64_one_ne _ (hseq.symm.trans h), hview⟩
    rw [← clearFront_iff hn]
    constructor
    · intro hsame j hj
      obtain ⟨r', hr', hbits⟩ := hsame _ _ hlogged
      rw [hredo] at hr'
      obtain rfl : r = r' := (Prod.ext_iff.1 hr').2
      rw [← hr, hbits j hj, hused j hj]
    · intro hfill ent payload hent
      have heq := hlogged.2.symm.trans hent.2
      injection heq with h1 h2
      subst h1 h2
      exact ⟨r, hredo, fun j hj => by rw [hr, hfill j hj, hused j hj]⟩

theorem clearedAndLogged_of_ok {s s' : Mount} {idx n : Nat} (hl : s.vol.sb.toLayout.WF) (hring : s.vol.RingOk)
    (hn : idx + n ≤ s.vol.sb.dataBlocks) (hrun : bitmapFreeRange (s.vol.sb.dataStart + idx) n s = (.ok (), s')) :
    ClearedAndLogged s.vol idx n s'.vol := by
  have hpost := (fwp_apply (P := fun r v => r = .ok () → ClearedAndLogged s.vol idx n v)
    (wpAbs_mono (vwp_bitmapFreeRange True hl hring hn) (fun _ _ h _ => h) (fun _ _ _ he => by cases he))
    ⟨fun _ => trivial, fun _ => trivial⟩).2
  rw [hrun] at hpost
  exact hpost rfl

/-- **When the entry of a free describes it**: exactly where the used blocks of the range are its first ones; and there
the undo of a refused free gives the bitmap back, if nothing fails in it. -/
theorem free_entry_iff (s : Mount) (start n : Nat) (hl : s.vol.sb.toLayout.WF) (hring : s.vol.RingOk)
    (hlow : s.sb.dataStart ≤ start) (hhigh : start + n ≤ s.sb.totalBlocks) (s' : Mount) :
    (bitmapFreeRange start n s = (.ok (), s') →
      (RedoSame s s' ↔ FrontUsed s.vol.used (start - s.sb.dataStart) n)) ∧
    (bitmapFreeRange start n s = (.error .journal, s') →
      (SameBits s s' → FrontUsed s.vol.used (start - s.sb.dataStart) n) ∧
      (s.Reliable → FrontUsed s.vol.used (start - s.sb.dataStart) n → SameBits s s')) := by
  obtain ⟨idx, rfl⟩ : ∃ idx, start = s.vol.sb.dataStart + idx :=
    ⟨start - s.sb.dataStart, by show _ = s.sb.dataStart + _; omega⟩
  have hidx : s.vol.sb.dataStart + idx - s.sb.dataStart = idx := Nat.add_sub_cancel_left _ _
  have hn : idx + n ≤ s.vol.sb.dataBlocks := by
    rw [hl.dataBlocks_eq]
    show idx + n ≤ s.sb.totalBlocks - s.vol.sb.dataStart
    omega
  rw [hidx]
  refine ⟨fun hrun => redoSame_iff hl hn (clearedAndLogged_of_ok hl hring hn hrun), fun hrun => ⟨fun hsame => ?_, ?_⟩⟩
  · have hpost := (fwp_apply (P := fun r v => r = .error .journal → ∀ j < s.vol.sb.dataBlocks,
      ¬(idx ≤ j ∧ j < idx + usedIn s.vol.used idx n) → v.used j = fill s.vol.used idx n false j)
      (wpAbs_mono (vwp_bitmapFreeRange True hl hring hn) (fun _ _ _ he => by cases he)
        (fun _ _ h he => (h (by cases he; rfl)).1)) ⟨fun _ => trivial, fun _ => trivial⟩).2
    rw [hrun] at hpost
    exact frontUsed_of_back hn (hpost rfl) hsame
  · intro hs hfront j hj
    have hpost := (fwp_apply (P := fun r v => r = .error .journal → ∀ j < s.vol.sb.dataBlocks,
      v.used j = fill (fill s.vol.used idx n false) idx (usedIn s.vol.used idx n) true j)
      (wpAbs_mono (vwp_bitmapFreeRange False hl hring hn) (fun _ _ _ he => by cases he)
        (fun _ _ h he => (h (by cases he; rfl)).2 id)) ⟨fun h => hs.1 h, fun h => hs.2 h⟩).2
    rw [hrun] at hpost
    rw [hpost rfl j hj]
    exact (setFront_iff hn).2 hfront j hj

/-- The first two blocks of a full volume, freed. -/
theorem free_entry_iff_full : RedoSame fullMount (bitmapFreeRange 170 2 fullMount).2 ↔
    FrontUsed fullMount.vol.used (170 - fullMount.sb.dataStart) 2 := by
  obtain ⟨-, hl, hring, -⟩ := fullMount_ready
  have hok : (bitmapFreeRange 170 2 fullMount).1 = .ok () := by decide +kernel
  exact (free_entry_iff fullMount 170 2 hl hring (by decide +kernel) (by decide +kernel)
    (bitmapFreeRange 170 2 fullMount).2).1 (Prod.ext hok rfl)

def gapMount : Mount := (bitmapClear 170 fullMount).2

/-- **A range with a free block in front**: the entry counts the one block behind it that was freed, and its redo
clears the free one. -/
theorem not_redoSame_gap : (bitmapFreeRange 170 2 gapMount).1 = .ok () ∧
    ¬RedoSame gapMount (bitmapFreeRange 170 2 gapMount).2 := by
  have hok : (bitmapFreeRange 170 2 gapMount).1 = .ok () := by decide +kernel
  have hlayout : gapMount.vol.sb.toLayout = mkfsLayout 8192 512 := by decide +kernel
  have hl : gapMount.vol.sb.toLayout.WF := by
    rw [hlayout]
    exact (mkfsLayout_facts (by decide) (by decide)).1
  have hring : gapMount.vol.RingOk := by
    unfold RingOk
    decide +kernel
  have hstart : gapMount.vol.sb.dataStart + 0 = 170 := by decide +kernel
  have hn : 0 + 2 ≤ gapMount.vol.sb.dataBlocks := by decide +kernel
  have hgap : ¬FrontUsed gapMount.vol.used 0 2 := by
    unfold FrontUsed
    decide +kernel
  refine ⟨hok, fun hsame => hgap ((redoSame_iff hl hn (clearedAndLogged_of_ok hl hring hn ?_)).1 hsame)⟩
  rw [hstart]
  exact Prod.ext hok rfl

end SmkFs
end AmitX
