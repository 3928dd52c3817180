import AmitX.SmkFs.Mounting
import Mathlib.Logic.Function.Iterate
/-!
# ReplayEnds — when recovery returns (`journal.c`)

Both passes of `journal_replay` walk the ring from the tail to the head.  A superblock is only checksummed: its head may
lie where no position of the ring is, and then the walk goes round the ring for ever, unless it meets a block that is no
journal entry.
-/
namespace AmitX
namespace SmkFs

open Prog Volume

/-! ## The positions of the ring -/

section

variable {sb : Superblock} {pos q : Nat}

theorem nextPos_lt (sb : Superblock) (pos : Nat) : journalNextPos sb pos < max sb.journalLength 1 := by
  unfold journalNextPos
  split <;> omega

theorem iterate_nextPos (hq : pos + q < sb.journalLength) : (journalNextPos sb)^[q] pos = pos + q := by
  induction q with
  | zero => rfl
  | succ q ih =>
    rw [Function.iterate_succ_apply', ih (by omega), journalNextPos, if_neg (by omega)]
    rfl

theorem reaches_zero (sb : Superblock) (pos : Nat) : ∃ d, (journalNextPos sb)^[d] pos = 0 := by
  by_cases hlast : sb.journalLength ≤ pos + 1
  · exact ⟨1, if_pos hlast⟩
  · have hwalk := @iterate_nextPos sb pos (sb.journalLength - 1 - pos) (by omega)
    refine ⟨sb.journalLength - 1 - pos + 1, ?_⟩
    rw [Function.iterate_succ_apply', hwalk, journalNextPos, if_pos (by omega)]

theorem reaches_inside (pos : Nat) (hq : q < max sb.journalLength 1) : ∃ d, (journalNextPos sb)^[d] pos = q := by
  obtain ⟨d, hd⟩ := reaches_zero sb pos
  by_cases h0 : q = 0
  · exact ⟨d, hd.trans h0.symm⟩
  · have hwalk := @iterate_nextPos sb 0 q (by omega)
    refine ⟨q + d, ?_⟩
    rw [Function.iterate_add_apply, hd, hwalk, Nat.zero_add]

theorem nextPos_congr {sb' : Superblock} (h : sb'.toLayout = sb.toLayout) : journalNextPos sb' = journalNextPos sb := by
  have hlen : sb'.journalLength = sb.journalLength := congrArg Layout.journalLength h
  funext pos
  rw [journalNextPos, journalNextPos, hlen]

end

/-! ## Reading an entry -/

def ReadsEntry (v : Volume) (pos : Nat) : Prop :=
  ∃ ent payload, v.view (add64 v.sb.journalStart pos) = .journal ent payload

section

variable {D H : Prop} {v : Volume} {pos : Nat}

theorem fwp_journalReadEntry {Q : JournalEntry × BlockData → Volume → Prop} {E : Err → Volume → Prop}
    (hok : ∀ ent payload, v.view (add64 v.sb.journalStart pos) = .journal ent payload → Q (ent, payload) v)
    (hio : D ∨ ¬v.sectorOk → E .io v)
    (hbad : (∀ ent payload, v.view (add64 v.sb.journalStart pos) ≠ .journal ent payload) → E .corrupt v) :
    fwp D H (journalReadEntry pos) Q E v := by
  unfold journalReadEntry
  refine wpAbs_bind (vwp_getSb (wpAbs_bind (vwp_readBlock ?_ hio)))
  cases hx : v.view (add64 v.sb.journalStart pos) with
  | journal ent payload => exact wpAbs_pure (hok ent payload hx)
  | raw _ | super _ | node _ | record _ _ | mrt _ | bitmap _ =>
    exact wpAbs_throw (hbad (fun ent payload h => by
      rw [hx] at h
      cases h))

/-- The fields that place the ring and its head are those before. -/
structure KeepsRing (v v' : Volume) : Prop where
  layout : v'.sb.toLayout = v.sb.toLayout
  ring : v'.sb.toRing = v.sb.toRing

theorem KeepsRing.refl (v : Volume) : KeepsRing v v := ⟨rfl, rfl⟩

theorem KeepsRing.trans {v v' v'' : Volume} (h : KeepsRing v v') (h' : KeepsRing v' v'') : KeepsRing v v'' :=
  ⟨h'.layout.trans h.layout, h'.ring.trans h.ring⟩

theorem keepsRing_bitmapSet (v : Volume) (idx : Nat) : KeepsRing v (v.bitmapSet idx) := by
  refine ⟨layout_bitmapSet, ?_⟩
  unfold Volume.bitmapSet
  split <;> simp [Volume.setUsed_toMem]

theorem keepsRing_bitmapClear (v : Volume) (idx : Nat) : KeepsRing v (v.bitmapClear idx) := by
  refine ⟨layout_bitmapClear, ?_⟩
  unfold Volume.bitmapClear
  split <;> simp [Volume.setUsed_toMem]

theorem fwp_journalRedoEntry_ends (ent : JournalEntry) (payload : BlockData) :
    fwp True True (journalRedoEntry ent payload) (fun _ v' => KeepsRing v v') (fun e _ => e ≠ .diverge) v := by
  have hloop : ∀ {body : Nat → FsM Unit}, (∀ i w, fwp True True (body i) (fun _ w' => KeepsRing w w')
      (fun _ w' => KeepsRing w w') w) → fwp True True (forRange (fun i => (body i).ignore) 0 ent.dataLength)
      (fun _ v' => KeepsRing v v') (fun e _ => e ≠ .diverge) v := fun {body} hbody =>
    wpAbs_forRange (I := fun _ w => KeepsRing v w) ent.dataLength 0 (KeepsRing.refl v) (fun i w _ _ hw =>
      wpAbs_ignore (wpAbs_mono (hbody i w) (fun _ _ h => hw.trans h) (fun _ _ h => hw.trans h)))
  unfold journalRedoEntry
  cases ent.operation with
  | write =>
    refine wpAbs_ite (fun _ => wpAbs_pure (KeepsRing.refl v)) (fun _ => ?_)
    exact vwp_writeBlock ⟨rfl, rfl⟩ (fun _ => by simp)
  | alloc =>
    refine hloop (fun i w => wpAbs_mono (vwp_bitmapSet True w _) (fun _ w' h => ?_) (fun _ w' h => ?_))
    · rw [h.2]
      exact keepsRing_bitmapSet w _
    · rw [h.1]
      exact KeepsRing.refl w
  | free =>
    refine hloop (fun i w => wpAbs_mono (vwp_bitmapClear True w _) (fun _ w' h => ?_) (fun _ w' h => ?_))
    · rw [h.2]
      exact keepsRing_bitmapClear w _
    · rw [h.1]
      exact KeepsRing.refl w
  | commit => exact wpAbs_pure (KeepsRing.refl v)
  | checkpoint => exact wpAbs_pure (KeepsRing.refl v)
  | mrtUpdate entry =>
    refine wpAbs_bind (vwp_getSb (wpAbs_bind (wpAbs_failIf (fun _ => by simp) (fun _ => ?_))))
    refine wpAbs_bind (wpAbs_failIf (fun _ => by simp) (fun _ => wpAbs_bind (vwp_readBlock ?_ (fun _ => by simp))))
    exact vwp_writeBlock ⟨rfl, rfl⟩ (fun _ => by simp)
  | unknown _ => exact wpAbs_throw (by simp)

/-! ## The passes -/

theorem fwp_journalFindCommit_ends {q : Nat} (hq : q = v.sb.journalHead ∨ ¬ReadsEntry v q) : ∀ (n d pos : Nat)
    (last : Option Nat), (journalNextPos v.sb)^[d] pos = q → d < n →
    fwp True True (journalFindCommit n pos last)
      (fun _ v' => v' = v ∧ ∃ d < n, (journalNextPos v.sb)^[d] pos = v.sb.journalHead) (fun e _ => e ≠ .diverge) v
  | n + 1, d, pos, last, hd, hn => by
    rw [journalFindCommit]
    refine wpAbs_bind (vwp_getSb (wpAbs_ite (fun hhead => ?_) (fun hhead => ?_)))
    · exact wpAbs_pure ⟨rfl, 0, Nat.succ_pos n, hhead⟩
    · refine wpAbs_bind (fwp_journalReadEntry (fun ent payload hent => ?_) (fun _ => by simp) (fun _ => by simp))
      cases d with
      | zero =>
        rw [Function.iterate_zero_apply] at hd
        subst hd
        exact hq.elim (fun h => absurd h hhead) (fun h => absurd ⟨ent, payload, hent⟩ h)
      | succ d =>
        refine wpAbs_mono (fwp_journalFindCommit_ends hq n d _ _ hd (by omega)) (fun _ v' h => ?_) (fun _ _ h => h)
        obtain ⟨rfl, d', hd', hr⟩ := h
        exact ⟨rfl, d' + 1, by omega, hr⟩

theorem fwp_journalRedo_ends {v0 : Volume} (last : Nat) : ∀ (n d pos : Nat) {v : Volume}, KeepsRing v0 v →
    (journalNextPos v0.sb)^[d] pos = v0.sb.journalHead → d < n →
    fwp True True (journalRedo last n pos) (fun _ _ => True) (fun e _ => e ≠ .diverge) v
  | n + 1, d, pos, v, hv, hd, hn => by
    have hhead : v.sb.journalHead = v0.sb.journalHead := congrArg Ring.journalHead hv.ring
    rw [journalRedo]
    refine wpAbs_bind (vwp_getSb (wpAbs_ite (fun _ => wpAbs_pure trivial) (fun hne => ?_)))
    refine wpAbs_bind (fwp_journalReadEntry (fun ent payload _ => ?_) (fun _ => by simp) (fun _ => by simp))
    have hredo : fwp True True (when (ent.sequence ≤ last) (journalRedoEntry ent payload))
        (fun _ v' => KeepsRing v v') (fun e _ => e ≠ .diverge) v :=
      wpAbs_when (fun _ => fwp_journalRedoEntry_ends ent payload) (fun _ => KeepsRing.refl v)
    refine wpAbs_seq hredo (fun _ v' h => ?_) (fun _ _ h => h)
    cases d with
    | zero => exact absurd (hd.trans hhead.symm) hne
    | succ d =>
      rw [nextPos_congr hv.layout]
      exact fwp_journalRedo_ends last n d _ (hv.trans h) hd (by omega)

theorem fwp_journalFindCommit_diverges (hhead : max v.sb.journalLength 1 ≤ v.sb.journalHead)
    (hs : v.sectorOk) (hall : ∀ pos < max v.sb.journalLength 1, ReadsEntry v pos) : ∀ (n pos : Nat) (last : Option Nat),
    pos ≠ v.sb.journalHead → ReadsEntry v pos →
    fwp False True (journalFindCommit n pos last) (fun _ _ => False) (fun e _ => e = .diverge) v
  | 0, _, _, _, _ => wpAbs_throw rfl
  | n + 1, pos, last, hne, hread => by
    have hnext := nextPos_lt v.sb pos
    rw [journalFindCommit]
    refine wpAbs_bind (vwp_getSb (wpAbs_ite (fun h => absurd h hne) (fun _ => ?_)))
    refine wpAbs_bind (fwp_journalReadEntry (fun ent payload _ => ?_) (fun h => ?_) (fun h => ?_))
    · exact fwp_journalFindCommit_diverges hhead hs hall n _ _ (by omega) (hall _ hnext)
    · exact (h.elim id (fun h => h hs)).elim
    · obtain ⟨ent, payload, hent⟩ := hread
      exact absurd hent (h ent payload)

end

/-! ## Recovery -/

def ReplayReturns (s : Mount) : Prop := ∃ n, (journalReplayWithin n s).1 ≠ .error .diverge

/-- The ring is empty, or the head is a position of the ring, or the walk meets a block that is no entry. -/
def ReplayEnds (v : Volume) : Prop :=
  v.sb.journalHead = v.sb.journalTail ∨ v.sb.journalHead < max v.sb.journalLength 1 ∨
    ∃ pos, (pos = v.sb.journalTail ∨ pos < max v.sb.journalLength 1) ∧ ¬ReadsEntry v pos

theorem fwp_journalReplayWithin_ends {v : Volume} {q d n : Nat} (hq : q = v.sb.journalHead ∨ ¬ReadsEntry v q)
    (hd : (journalNextPos v.sb)^[d] v.sb.journalTail = q) (hn : d < n) :
    fwp True True (journalReplayWithin n) (fun _ _ => True) (fun e _ => e ≠ .diverge) v := by
  unfold journalReplayWithin
  refine wpAbs_bind (vwp_getSb (wpAbs_ite (fun _ => vwp_modifyMem trivial) (fun _ => ?_)))
  refine wpAbs_seq (fwp_journalFindCommit_ends hq n d _ none hd hn) (fun last v' h => ?_) (fun _ _ h => h)
  obtain ⟨rfl, d', hd', hreach⟩ := h
  refine wpAbs_seq (R := fun _ _ => True) (G := fun e _ => e ≠ .diverge) ?_ (fun _ v1 _ => wpAbs_bind (vwp_modifyMem ?_))
    (fun _ _ h => h)
  · cases last with
    | none => exact wpAbs_pure trivial
    | some last => exact fwp_journalRedo_ends last n d' _ (KeepsRing.refl v') hreach hd'
  · exact wpAbs_ignore (vwp_blockCacheFlush trivial (fun _ => trivial))

theorem replayReturns_of_ends {s : Mount} (h : ReplayEnds s.vol) : ReplayReturns s := by
  have hreturns : ∀ q d, q = s.vol.sb.journalHead ∨ ¬ReadsEntry s.vol q →
      (journalNextPos s.vol.sb)^[d] s.vol.sb.journalTail = q → ReplayReturns s := fun q d hq hd => by
    have hpost := (fwp_apply (P := fun r _ => r ≠ .error .diverge) (wpAbs_mono (fwp_journalReplayWithin_ends hq hd
      (Nat.lt_succ_self d)) (fun _ _ _ => by simp) (fun e _ he => by simpa using he))
      ⟨fun _ => trivial, fun _ => trivial⟩).2
    exact ⟨d + 1, hpost⟩
  rcases h with h | h | ⟨pos, hpos | hpos, hbad⟩
  · exact hreturns _ 0 (Or.inl h.symm) rfl
  · obtain ⟨d, hd⟩ := reaches_inside s.vol.sb.journalTail h
    exact hreturns _ d (Or.inl rfl) hd
  · exact hreturns pos 0 (Or.inr hbad) hpos.symm
  · obtain ⟨d, hd⟩ := reaches_inside s.vol.sb.journalTail hpos
    exact hreturns pos d (Or.inr hbad) hd

theorem replayReturns_ends {s : Mount} (hdisk : ¬s.DiskFaulty) (hs : s.vol.sectorOk) (h : ReplayReturns s) :
    ReplayEnds s.vol := by
  obtain ⟨n, hn⟩ := h
  by_contra hends
  simp only [ReplayEnds, not_or, not_exists, not_and, not_not, Nat.not_lt] at hends
  obtain ⟨hne, hhead, hall⟩ := hends
  have hdiv : fwp False True (journalReplayWithin n) (fun _ _ => False) (fun e _ => e = .diverge) s.vol := by
    unfold journalReplayWithin
    refine wpAbs_bind (vwp_getSb (wpAbs_ite (fun h => absurd h hne) (fun _ => ?_)))
    exact wpAbs_seq (fwp_journalFindCommit_diverges hhead hs (fun pos hpos => hall pos (Or.inr hpos)) n _ none
      (Ne.symm hne) (hall _ (Or.inl rfl))) (fun _ _ h => h.elim) (fun _ _ h => h)
  exact hn (fwp_apply (P := fun r _ => r = .error .diverge) (wpAbs_mono hdiv (fun _ _ h => h.elim)
    (fun e _ he => by rw [he])) ⟨fun hf => hdisk hf, fun _ => trivial⟩).2

/-- **When recovery returns.**  It returns where the ring is empty, the head is a position of the ring or a block met is
no entry, whatever fails; where no transfer fails it returns nowhere else. -/
theorem journal_replay_returns_iff (s : Mount) : (ReplayEnds s.vol → ReplayReturns s) ∧
    (¬s.DiskFaulty → s.vol.sectorOk → (ReplayReturns s ↔ ReplayEnds s.vol)) :=
  ⟨replayReturns_of_ends, fun hdisk hs => ⟨replayReturns_ends hdisk hs, replayReturns_of_ends⟩⟩

/-- A disk whose superblock has a ring of one position and its head at the fifth, and that holds journal entries. -/
def strayHead : Superblock := ⟨⟨64, 512, 1, 1, 2, 1, 3, 1, 256, 4⟩, ⟨60, 0, 255, 1, true, 0⟩, ⟨5, 0, 1⟩⟩

def strayDisk (b : Nat) : BlockData :=
  if b = 0 then .super strayHead else .journal ⟨0, 0, .commit, 0, 0⟩ .zero

/-- The mount in which `smkfs_mount` has read the superblock. -/
def strayMount : Mount :=
  { blankMount strayHead with dev := ⟨cacheInit { blankDrive with base := strayDisk }, cacheInit_wf _⟩ }

theorem view_strayMount (b : Nat) : strayMount.vol.view b = strayDisk b := by
  have hcold : ¬strayMount.dev.1.Cached b := by
    rintro ⟨j, hj, -⟩
    cases hj
  exact Drive.content_of_uncached hcold

/-- **A head that is no position of the ring.**  The superblock is the one that `smkfs_mount` has read. -/
theorem not_journal_replay_returns : ¬∀ s : Mount, s.vol.view 0 = .super s.sb → ReplayReturns s := by
  intro hall
  have hdisk : ¬strayMount.DiskFaulty := by
    rintro ⟨o, ho, -⟩
    simp [strayMount, blankMount, cacheInit, blankDrive] at ho
  have hends := replayReturns_ends hdisk (by decide : blockSize % 512 = 0) (hall strayMount (view_strayMount 0))
  have hentry : ReadsEntry strayMount.vol 0 := ⟨⟨0, 0, .commit, 0, 0⟩, .zero, by
    rw [view_strayMount, strayDisk, if_neg (by decide +kernel)]⟩
  rcases hends with h | h | ⟨pos, hpos, hbad⟩
  · exact absurd h (by decide)
  · exact absurd h (by decide)
  · have h0 : pos = 0 := hpos.elim id Nat.lt_one_iff.1
    rw [h0] at hbad
    exact hbad hentry

end SmkFs
end AmitX
