import AmitX.SmkFs.File
import AmitX.SmkFs.FreeEntry
/-!
# Descriptor — reading, writing and seeking through a descriptor (`file.c`)

A descriptor holds the record it was opened for and a byte offset of 64 bits.  `smkfs_seek` adds with signed 64-bit
numbers, which wrap, and returns the new offset through 32 bits.
-/
namespace AmitX
namespace SmkFs

open Prog

def Err.status : Err → Int
  | .io => -1
  | .nomem => -2
  | .notfound => -3
  | .exists_ => -4
  | .nospc => -5
  | .inval => -6
  | .corrupt => -7
  | .notempty => -8
  | .rofs => -9
  | .journal => -10
  | .tooBig => -11
  | .notYetBound => -12
  | .diverge => -13

def smkfsFdMax : Nat := 16
def smkfsOCreate : Nat := 0x4
def smkfsOAppend : Nat := 0x10
def smkfsSeekSet : Int := 0
def smkfsSeekCur : Int := 1
def smkfsSeekEnd : Int := 2

structure Fd where
  used : Bool
  recordId : Nat
  offset : UInt64
  flags : Nat
  deriving DecidableEq

structure FdMount where
  mount : Mount
  fdTable : Nat → Fd

abbrev FdM := Prog FdMount Err

def onMount {α : Type} (m : FsM α) : FdM α := zoom FdMount.mount (fun s f => { f with mount := s }) m

def openFd (fd : Int) : FdM Fd := do
  failIf (fd < 0 ∨ (smkfsFdMax : Int) ≤ fd) .inval
  let f ← get
  failIf ((f.fdTable fd.toNat).used = false) .inval
  pure (f.fdTable fd.toNat)

def FdMount.setFd (fd : Int) (e : Fd) (f : FdMount) : FdMount :=
  { f with fdTable := Function.update f.fdTable fd.toNat e }

def FdMount.setOffset (fd : Int) (offset : UInt64) (f : FdMount) : FdMount :=
  f.setFd fd { f.fdTable fd.toNat with offset := offset }

/-- A length as a `LONG`. -/
def toLong (n : Nat) : Int := (n : Int).bmod (2 ^ 32)

def advanceFd (fd ret : Int) : FdM Unit :=
  when (0 < ret) (modify (fun f => f.setOffset fd ((f.fdTable fd.toNat).offset + UInt64.ofNat ret.toNat)))

def smkfsReadFile (other : BlockData → Nat → UInt8) (fd : Int) (len : Nat) : FdM (List UInt8) := do
  let e ← openFd fd
  let bytes ← onMount (smkfsRead other e.recordId e.offset.toNat len)
  advanceFd fd (toLong bytes.length)
  pure bytes

def smkfsWriteFile (other : BlockData → Nat → UInt8) (fd : Int) (buf : List UInt8) : FdM Nat := do
  let e ← openFd fd
  let done ← onMount (smkfsWrite other e.recordId e.offset.toNat buf)
  advanceFd fd (toLong done)
  pure done

def smkfsClose (fd : Int) : FdM Unit := do
  let _ ← openFd fd
  modify (FdMount.setFd fd ⟨false, 0, 0, 0⟩)

/-- The size of the file of a descriptor; of a record that cannot be read it is 0. -/
def seekSize (recordId : Nat) : FsM UInt64 :=
  (recordRead recordId).elseDo (pure 0) (fun x => pure (UInt64.ofNat (fileSize x.2)))

def seekBase (e : Fd) (whence : Int) : FdM UInt64 :=
  if whence = smkfsSeekEnd then onMount (seekSize e.recordId)
  else if whence = smkfsSeekCur then pure e.offset
  else if whence = smkfsSeekSet then pure 0
  else throw .inval

def smkfsSeek (fd : Int) (offset : Int64) (whence : Int) : FdM Int := do
  let e ← openFd fd
  let base ← seekBase e whence
  let newOffset := base.toInt64 + offset
  failIf (newOffset < 0) .inval
  modify (FdMount.setOffset fd newOffset.toUInt64)
  pure newOffset.toInt32.toInt

/-! ## What a seek returns -/

/-- The `LONG` that a call returns. -/
def returned : Except Err Int → Int
  | .ok n => n
  | .error e => e.status

theorem Err.status_neg (e : Err) : e.status < 0 := by
  cases e <;> decide

def FdMount.Opened (f : FdMount) (fd : Int) : Prop :=
  0 ≤ fd ∧ fd < smkfsFdMax ∧ (f.fdTable fd.toNat).used = true

instance (f : FdMount) (fd : Int) : Decidable (f.Opened fd) := inferInstanceAs (Decidable (_ ∧ _ ∧ _))

def FdMount.offset (f : FdMount) (fd : Int) : UInt64 := (f.fdTable fd.toNat).offset

def FdMount.size (f : FdMount) (fd : Int) : UInt64 :=
  match (seekSize (f.fdTable fd.toNat).recordId f.mount.faultless).1 with
  | .ok size => size
  | .error _ => 0

def FdMount.sizeRead (f : FdMount) (fd : Int) : UInt64 :=
  match (seekSize (f.fdTable fd.toNat).recordId f.mount).1 with
  | .ok size => size
  | .error _ => 0

inductive Whence
  | set | cur | end_
  deriving DecidableEq

def Whence.code : Whence → Int
  | .set => smkfsSeekSet
  | .cur => smkfsSeekCur
  | .end_ => smkfsSeekEnd

/-- The base of a seek, where the size of the file is `size`. -/
def FdMount.base (f : FdMount) (fd : Int) (size : UInt64) : Whence → UInt64
  | .set => 0
  | .cur => f.offset fd
  | .end_ => size

/-- A seek that returns a negative value has left the offset alone, and one that does not returns the new offset, the sum
of the base and the argument. -/
structure ReportsSeek (f : FdMount) (fd : Int) (offset : Int64) (whence : Whence) : Prop where
  refused : returned (smkfsSeek fd offset whence.code f).1 < 0 →
    (smkfsSeek fd offset whence.code f).2.offset fd = f.offset fd
  moved : 0 ≤ returned (smkfsSeek fd offset whence.code f).1 →
    returned (smkfsSeek fd offset whence.code f).1 =
      ((smkfsSeek fd offset whence.code f).2.offset fd).toNat ∧
    returned (smkfsSeek fd offset whence.code f).1 = (f.base fd (f.size fd) whence).toNat + offset.toInt

/-- The sum is refused, or it is below `2 ^ 31` and counted from the size that the record holds, or the descriptor is
there already, at an offset whose bit 31 is set. -/
def SeekFits (f : FdMount) (fd : Int) (offset : Int64) (whence : Whence) : Prop :=
  let sum := ((f.base fd (f.sizeRead fd) whence).toNat : Int) + offset.toInt
  sum.bmod (2 ^ 64) < 0 ∨
  0 ≤ sum ∧ sum < 2 ^ 31 ∧ f.base fd (f.sizeRead fd) whence = f.base fd (f.size fd) whence ∨
  sum.bmod (2 ^ 64) = (f.offset fd).toNat ∧ sum.bmod (2 ^ 32) < 0

section

variable {f : FdMount} {fd : Int} {offset : Int64} {whence : Whence}

@[simp] theorem setOffset_offset (x : UInt64) : (f.setOffset fd x).offset fd = x := by
  have h : (f.setOffset fd x).fdTable fd.toNat = { f.fdTable fd.toNat with offset := x } := Function.update_self _ _ _
  rw [FdMount.offset, h]

theorem openFd_of_opened (h : f.Opened fd) : openFd fd f = (.ok (f.fdTable fd.toNat), f) := by
  obtain ⟨h0, hmax, hused⟩ := h
  have hrange : failIf (fd < 0 ∨ (smkfsFdMax : Int) ≤ fd) Err.inval f = (.ok (), f) := by
    rw [failIf, if_neg (by omega)]
    rfl
  have hopen : failIf ((f.fdTable fd.toNat).used = false) Err.inval f = (.ok (), f) := by
    rw [failIf, if_neg (by rw [hused]; decide)]
    rfl
  rw [openFd, bind_of_ok hrange, get_bind, bind_of_ok hopen]
  rfl

theorem seekBase_eq (whence : Whence) : ∃ s, seekBase (f.fdTable fd.toNat) whence.code f =
    (.ok (f.base fd (f.sizeRead fd) whence), { f with mount := s }) := by
  cases whence with
  | set => exact ⟨f.mount, rfl⟩
  | cur => exact ⟨f.mount, rfl⟩
  | end_ =>
    have hok : ∃ x, (seekSize (f.fdTable fd.toNat).recordId f.mount).1 = .ok x := by
      unfold seekSize Prog.elseDo
      rcases recordRead (f.fdTable fd.toNat).recordId f.mount with ⟨e | x, s⟩
      · exact ⟨0, rfl⟩
      · exact ⟨_, rfl⟩
    obtain ⟨x, hx⟩ := hok
    refine ⟨(seekSize (f.fdTable fd.toNat).recordId f.mount).2, ?_⟩
    change (onMount (seekSize (f.fdTable fd.toNat).recordId)) f = _
    rw [FdMount.base, FdMount.sizeRead, hx, onMount, Prog.zoom, hx]

theorem toInt_newOffset (base : UInt64) (offset : Int64) :
    (base.toInt64 + offset).toInt = ((base.toNat : Int) + offset.toInt).bmod (2 ^ 64) := by
  have hbase : base.toInt64.toInt = (base.toNat : Int).bmod (2 ^ 64) := by
    have h := BitVec.toInt_eq_toNat_bmod base.toBitVec
    exact h
  rw [Int64.toInt_add, hbase, Int.bmod_add_bmod]

theorem smkfsSeek_spec (h : f.Opened fd) (offset : Int64) (whence : Whence) :
    let sum := ((f.base fd (f.sizeRead fd) whence).toNat : Int) + offset.toInt
    (sum.bmod (2 ^ 64) < 0 → ∃ f', smkfsSeek fd offset whence.code f = (.error .inval, f') ∧
      f'.offset fd = f.offset fd) ∧
    (0 ≤ sum.bmod (2 ^ 64) → ∃ f', smkfsSeek fd offset whence.code f = (.ok (sum.bmod (2 ^ 32)), f') ∧
      ((f'.offset fd).toNat : Int) = sum.bmod (2 ^ 64)) := by
  intro sum
  obtain ⟨s, hbase⟩ := @seekBase_eq f fd whence
  have hnew := toInt_newOffset (f.base fd (f.sizeRead fd) whence) offset
  rw [smkfsSeek, bind_of_ok (openFd_of_opened h), bind_of_ok hbase]
  generalize (f.base fd (f.sizeRead fd) whence).toInt64 + offset = newOffset at hnew ⊢
  change newOffset.toInt = sum.bmod (2 ^ 64) at hnew
  have hneg : newOffset < 0 ↔ newOffset.toInt < 0 := Int64.lt_iff_toInt_lt
  constructor
  · intro hsum
    refine ⟨{ f with mount := s }, ?_, rfl⟩
    have hfail : failIf (newOffset < 0) Err.inval { f with mount := s } =
        (.error .inval, ({ f with mount := s } : FdMount)) := by
      rw [failIf, if_pos (hneg.2 (by omega))]
      rfl
    exact bind_of_error hfail _
  · intro hsum
    refine ⟨({ f with mount := s } : FdMount).setOffset fd newOffset.toUInt64, ?_, ?_⟩
    · have hpass : failIf (newOffset < 0) Err.inval { f with mount := s } =
          (.ok (), ({ f with mount := s } : FdMount)) := by
        rw [failIf, if_neg (by rw [hneg]; omega)]
        rfl
      have hret : newOffset.toInt32.toInt = sum.bmod (2 ^ 32) := by
        rw [Int64.toInt_toInt32, hnew, Int.bmod_bmod_of_dvd (by decide)]
      rw [← hret]
      exact bind_of_ok hpass _
    · have hle : (0 : Int64) ≤ newOffset := by
        rw [Int64.le_iff_toInt_le, hnew]
        exact hsum
      rw [setOffset_offset, Int64.toNat_toUInt64_of_le hle, ← hnew]
      exact Int.toNat_of_nonneg (by rw [hnew]; exact hsum)

theorem bmod_of_lt {n : Int} (h0 : 0 ≤ n) (h : n < 2 ^ 31) : n.bmod (2 ^ 32) = n ∧ n.bmod (2 ^ 64) = n := by
  simp only [Int.bmod_def]
  omega

theorem base_unique {base base' : Nat} {d : Int} (hb : base < 2 ^ 64) (hb' : base' < 2 ^ 64)
    (h32 : ((base : Int) + d).bmod (2 ^ 32) = ((base : Int) + d).bmod (2 ^ 64))
    (h0 : 0 ≤ ((base : Int) + d).bmod (2 ^ 64)) (h : ((base : Int) + d).bmod (2 ^ 32) = base' + d) :
    base = base' ∧ 0 ≤ (base : Int) + d ∧ (base : Int) + d < 2 ^ 31 := by
  simp only [Int.bmod_def] at *
  omega

/-- **Seek reports what it did**, exactly where the sum is refused, or is below `2 ^ 31` and counted from the size that
the record holds, or moves nothing and has bit 31 set. -/
theorem reportsSeek_iff (f : FdMount) (fd : Int) (offset : Int64) (whence : Whence) (h : f.Opened fd) :
    ReportsSeek f fd offset whence ↔ SeekFits f fd offset whence := by
  obtain ⟨hneg, hpos⟩ := smkfsSeek_spec h offset whence
  have hread := (f.base fd (f.sizeRead fd) whence).toNat_lt
  have hheld := (f.base fd (f.size fd) whence).toNat_lt
  by_cases hn : (((f.base fd (f.sizeRead fd) whence).toNat : Int) + offset.toInt).bmod (2 ^ 64) < 0
  · refine iff_of_true ?_ (Or.inl hn)
    obtain ⟨f', hrun, hsame⟩ := hneg hn
    constructor
    · intro _
      rw [hrun]
      exact hsame
    · intro h0
      rw [hrun] at h0
      exact absurd h0 (Int.not_le.2 (Err.status_neg .inval))
  · have hn := Int.not_lt.1 hn
    obtain ⟨f', hrun, hmoved⟩ := hpos hn
    rw [SeekFits]
    constructor
    · intro hr
      by_cases hret : (((f.base fd (f.sizeRead fd) whence).toNat : Int) + offset.toInt).bmod (2 ^ 32) < 0
      · have hsame := hr.refused (by rw [hrun]; exact hret)
        rw [hrun] at hsame
        refine Or.inr (Or.inr ⟨?_, hret⟩)
        rw [← hmoved, ← hsame]
      · have heq := hr.moved (by rw [hrun]; exact Int.not_lt.1 hret)
        rw [hrun] at heq
        obtain ⟨hoff, hsum⟩ := heq
        obtain ⟨hbase, h0, hlt⟩ := base_unique hread hheld (hoff.trans hmoved) hn hsum
        exact Or.inr (Or.inl ⟨h0, hlt, UInt64.toNat_inj.1 hbase⟩)
    · rintro (h1 | ⟨h0, hlt, hb⟩ | ⟨hsame, hret⟩)
      · exact absurd h1 (Int.not_lt.2 hn)
      · obtain ⟨h32, h64⟩ := bmod_of_lt h0 hlt
        constructor
        · intro hret
          rw [hrun] at hret
          change (((f.base fd (f.sizeRead fd) whence).toNat : Int) + offset.toInt).bmod (2 ^ 32) < 0 at hret
          omega
        · intro _
          rw [hrun]
          refine ⟨?_, ?_⟩
          · change (((f.base fd (f.sizeRead fd) whence).toNat : Int) + offset.toInt).bmod (2 ^ 32) = _
            rw [hmoved, h32, h64]
          · change (((f.base fd (f.sizeRead fd) whence).toNat : Int) + offset.toInt).bmod (2 ^ 32) = _
            rw [h32, hb]
      · constructor
        · intro _
          rw [hrun]
          apply UInt64.toNat_inj.1
          have := hmoved.trans hsame
          exact Int.natCast_inj.1 this
        · intro h0
          rw [hrun] at h0
          exact absurd hret (Int.not_lt.2 h0)

def firstOpen (s : Mount) : FdMount := ⟨s, fun i => if i = 0 then ⟨true, 1, 0, 0⟩ else ⟨false, 0, 0, 0⟩⟩

theorem reportsSeek_start : ReportsSeek (firstOpen (blankMount zeroMem.sb)) 0 7 .set :=
  (reportsSeek_iff (firstOpen (blankMount zeroMem.sb)) 0 7 .set ⟨by decide, by decide, rfl⟩).2
    (Or.inr (Or.inl ⟨by decide, by decide, rfl⟩))

/-- **A seek to 2 GiB returns a negative value**, and the offset has moved. -/
theorem not_reportsSeek : ¬∀ (f : FdMount) (fd : Int) (offset : Int64) (whence : Whence), f.Opened fd →
    ReportsSeek f fd offset whence := by
  intro hall
  have h := (hall (firstOpen (blankMount zeroMem.sb)) 0 (2 ^ 31) .set ⟨by decide, by decide, rfl⟩).refused (by decide)
  exact absurd h (by decide)

end

end SmkFs
end AmitX
