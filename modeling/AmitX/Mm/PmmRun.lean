import AmitX.Lib.Run
import AmitX.Mm.PmmSpec
/-!
# PmmRun — the frame allocator over whole runs

A run is any sequence of calls after `pmm_init`; arguments are converted to the types of the functions.  The events of a
run keep what a call answers and the allocator before and after it; `held` is what the callers hold of their
allocations, frame by frame.
-/
namespace AmitX
namespace Mm

open Bits
open Run (run Allowed)

inductive PmmCall
  | allocFrame
  | allocFrames (count : BitVec 32)
  | allocAligned (count alignFrames : BitVec 32)
  | allocAt (addr : Nat) (count : BitVec 32)
  | freeFrame (frame : Nat)
  | freeFrames (frame : Nat) (count : BitVec 32)
  | reserveRegion (start length : Nat)
  | unreserveRegion (start length : Nat)

/-- A call, the address or the status it answers, and the allocator before and after it. -/
structure PmmEvent where
  call : PmmCall
  result : Int
  before : Pmm
  after : Pmm

/-- The answer of a call and the allocator after it; calls that answer nothing answer 0 here. -/
def PmmCall.answer (a : Arch) (m : Pmm) : PmmCall → Int × Pmm
  | .allocFrame => ((pmmAllocFrame a m).1, (pmmAllocFrame a m).2)
  | .allocFrames count => ((pmmAllocFrames a count.toNat m).1, (pmmAllocFrames a count.toNat m).2)
  | .allocAligned count alignFrames =>
    ((pmmAllocAligned a count.toNat alignFrames.toNat m).1, (pmmAllocAligned a count.toNat alignFrames.toNat m).2)
  | .allocAt addr count => pmmAllocAt a (a.word addr) count.toNat m
  | .freeFrame frame => (0, pmmFreeFrame a (a.word frame) m)
  | .freeFrames frame count => (0, pmmFreeFrames a (a.word frame) count.toNat m)
  | .reserveRegion start length => (0, pmmReserveRegion a (a.word start) (a.word length) m)
  | .unreserveRegion start length => (0, pmmUnreserveRegion a (a.word start) (a.word length) m)

def pmmStep (a : Arch) (m : Pmm) (c : PmmCall) : PmmEvent × Pmm :=
  (⟨c, (c.answer a m).1, m, (c.answer a m).2⟩, (c.answer a m).2)

def frames (frame count : Nat) : List Nat := List.range' frame count

theorem nodup_frames (frame count : Nat) : (frames frame count).Nodup := List.nodup_range' ..

theorem mem_frames {f frame count : Nat} : f ∈ frames frame count ↔ frame ≤ f ∧ f < frame + count := mem_range'_iff

/-- The frames that an allocation returns; an address of 0 says that there are none. -/
def PmmEvent.allocated (a : Arch) (e : PmmEvent) : Option (List Nat) :=
  match e.call with
  | .allocFrame => if e.result = 0 then none else some (frames (e.result.toNat / frameSize) 1)
  | .allocFrames count | .allocAligned count _ =>
    if e.result = 0 then none else some (frames (e.result.toNat / frameSize) count.toNat)
  | .allocAt addr count => if e.result = 0 then some (frames (a.word addr / frameSize) count.toNat) else none
  | _ => none

/-- The frames that a call gives back: those of its range, where the function does not refuse it. -/
def PmmEvent.Frees (a : Arch) (e : PmmEvent) (f : Nat) : Prop :=
  match e.call with
  | .freeFrame frame => a.word frame ≠ 0 ∧ f = a.word frame / frameSize ∧ f < e.before.totalFrames
  | .freeFrames frame count => a.word frame ≠ 0 ∧ a.word frame / frameSize + count.toNat ≤ e.before.totalFrames ∧
      f ∈ frames (a.word frame / frameSize) count.toNat
  | .unreserveRegion start length => RegionFrame a e.before.totalFrames (a.word start) (a.word length) f
  | _ => False

instance (a : Arch) (e : PmmEvent) (f : Nat) : Decidable (e.Frees a f) := by
  unfold PmmEvent.Frees
  split <;> infer_instance

def holdStep (a : Arch) (ledger : List (List Nat)) (e : PmmEvent) : List (List Nat) :=
  match e.allocated a with
  | some fs => fs :: ledger
  | none => ledger.map (fun fs => fs.filter (fun f => ¬ e.Frees a f))

def held (a : Arch) (es : List PmmEvent) : List (List Nat) := es.foldl (holdStep a) []

/-- An allocation returns frames below the last one that were free, and sets their bits and no others. -/
def PmmEvent.Sound (a : Arch) (e : PmmEvent) : Prop :=
  ∀ fs, e.allocated a = some fs → (∀ f ∈ fs, f < e.before.totalFrames ∧ e.before.bitmap f = false) ∧
    ∀ f, e.after.bitmap f = true ↔ e.before.bitmap f = true ∨ f ∈ fs

/-- The sums of frame numbers that a call computes are words of the build, and it frees no frame without an address. -/
def PmmCall.Fits (a : Arch) (m : Pmm) : PmmCall → Prop
  | .allocAligned count alignFrames => 1 < alignFrames.toNat → alignFrames.toNat &&& (alignFrames.toNat - 1) = 0 →
      ∀ i < m.totalFrames, m.bitmap i = false → alignUp a i alignFrames.toNat + count.toNat < 2 ^ a.bits
  | .allocAt addr count => a.word addr / frameSize + count.toNat < 2 ^ a.bits
  | .freeFrames frame count => a.word frame / frameSize + count.toNat < 2 ^ a.bits ∧
      (a.word frame / frameSize + count.toNat ≤ m.totalFrames →
        a.word frame / frameSize + count.toNat ≤ 2 ^ a.bits / frameSize)
  | _ => True

/-! ## What a call keeps -/

theorem frameNumber_lt (a : Arch) (n : Nat) : a.word n / frameSize < 2 ^ a.bits / frameSize := by
  have hdvd : 2 ^ a.bits / frameSize * frameSize = 2 ^ a.bits := by cases a <;> decide
  rw [Nat.div_lt_iff_lt_mul (by decide), hdvd]
  exact word_lt a n

/-- The counter is exact, and a frame without an address is never free. -/
structure PmmInv (a : Arch) (m : Pmm) : Prop extends Counted a m where
  high : ∀ f < m.totalFrames, 2 ^ a.bits / frameSize ≤ f → m.bitmap f = true

theorem PmmInv.addr {a : Arch} {m : Pmm} (h : PmmInv a m) {f : Nat} (hf : f < m.totalFrames) (hb : m.bitmap f = false) :
    frameAddr a f / frameSize = f := by
  have hlt : f < 2 ^ a.bits / frameSize := by
    by_contra hge
    rw [h.high f hf (Nat.le_of_not_lt hge)] at hb
    cases hb
  rw [frameAddr, word_of_lt]
  · exact Nat.mul_div_cancel f (by decide)
  · calc f * frameSize < 2 ^ a.bits / frameSize * frameSize := (Nat.mul_lt_mul_right (by decide)).2 hlt
      _ ≤ 2 ^ a.bits := Nat.div_mul_le_self ..

theorem PmmInv.takeAll {a : Arch} {m : Pmm} (h : PmmInv a m) {frame count : Nat}
    (hf : ∀ k < count, frame + k < m.totalFrames ∧ m.bitmap (frame + k) = false) :
    PmmInv a ((frames frame count).foldl (takeFrame a) m) ∧
      (∀ f ∈ frames frame count, f < m.totalFrames ∧ m.bitmap f = false) ∧
      ((frames frame count).foldl (takeFrame a) m).totalFrames = m.totalFrames ∧
      ∀ f, ((frames frame count).foldl (takeFrame a) m).bitmap f = true ↔ m.bitmap f = true ∨ f ∈ frames frame count := by
  have hfree : ∀ f ∈ frames frame count, f < m.totalFrames ∧ m.bitmap f = false := by
    intro f hmem
    have hm := mem_frames.1 hmem
    obtain ⟨k, rfl⟩ := Nat.exists_eq_add_of_le hm.1
    exact hf k (by omega)
  obtain ⟨hb, ht, _⟩ := foldl_fill (takeFrame_bitmap a) (frames frame count) m
  have hbits : ∀ f, ((frames frame count).foldl (takeFrame a) m).bitmap f = true ↔
      m.bitmap f = true ∨ f ∈ frames frame count := by
    intro f
    rw [hb, fill]
    split <;> simp [*]
  refine ⟨⟨h.toCounted.takeAll _ _ (nodup_frames ..) hfree, fun f hlt hhigh => ?_⟩, hfree, ht, hbits⟩
  rw [ht] at hlt
  exact (hbits f).2 (.inl (h.high f hlt hhigh))

structure PmmEvent.Spec (a : Arch) (e : PmmEvent) : Prop where
  inv : PmmInv a e.after
  total : e.after.totalFrames = e.before.totalFrames
  sound : e.Sound a
  kept : ∀ f, e.before.bitmap f = true → ¬ e.Frees a f → e.after.bitmap f = true
  nodup : ∀ fs, e.allocated a = some fs → fs.Nodup

/-- A function that allocates fails and changes nothing, or takes `count` free frames in a row. -/
def Allocates (a : Arch) (m : Pmm) (count : Nat) (r : Nat × Pmm) : Prop :=
  r = (physAddrInvalid, m) ∨ ∃ f, 0 < count ∧ (∀ k < count, f + k < m.totalFrames ∧ m.bitmap (f + k) = false) ∧
    r = (frameAddr a f, (frames f count).foldl (takeFrame a) m)

theorem Allocates.spec {a : Arch} {m : Pmm} {count : Nat} {r : Nat × Pmm} (h : PmmInv a m) (hr : Allocates a m count r)
    {c : PmmCall} (hc : PmmEvent.allocated a ⟨c, r.1, m, r.2⟩ =
      if (r.1 : Int) = 0 then none else some (frames ((r.1 : Int).toNat / frameSize) count)) :
    PmmEvent.Spec a ⟨c, r.1, m, r.2⟩ := by
  rcases hr with rfl | ⟨f, hcount, hf, rfl⟩
  · have hnone : PmmEvent.allocated a ⟨c, (physAddrInvalid : Nat), m, m⟩ = none := hc
    exact ⟨h, rfl, fun _ hfs => (nomatch hnone.symm.trans hfs), fun _ hb _ => hb,
      fun _ hfs => (nomatch hnone.symm.trans hfs)⟩
  · obtain ⟨hinv, hfree, ht, hbits⟩ := h.takeAll hf
    have hfirst := hf 0 hcount
    rw [Nat.add_zero] at hfirst
    rw [Int.toNat_natCast, h.addr hfirst.1 hfirst.2] at hc
    have hfs : ∀ fs, PmmEvent.allocated a ⟨c, (frameAddr a f : Nat), m, (frames f count).foldl (takeFrame a) m⟩ =
        some fs → fs = frames f count := by
      intro fs hfs
      rw [hc] at hfs
      split at hfs
      · cases hfs
      · exact (Option.some.inj hfs).symm
    refine ⟨hinv, ht, fun fs hall => ?_, fun g hb _ => (hbits g).2 (.inl hb), fun fs hall => ?_⟩
    · rw [hfs fs hall]
      exact ⟨hfree, hbits⟩
    · rw [hfs fs hall]
      exact nodup_frames ..

theorem frameRange_of_lt {a : Arch} {m : Pmm} (h : m.totalFrames < 2 ^ a.bits) {frame count : Nat} (hc : 0 < count)
    (hf : ∀ k < count, frame + k < m.totalFrames) : frameRange a frame count = frames frame count := by
  have := hf (count - 1) (by omega)
  exact frameRange_eq (by omega)

theorem pmmAllocFrames_allocates {a : Arch} {m : Pmm} (h : PmmInv a m) (count : Nat) :
    Allocates a m count (pmmAllocFrames a count m) := by
  unfold pmmAllocFrames
  split
  · exact .inl rfl
  · next f hfind =>
    obtain ⟨hc, hf⟩ := findFirstFreeN_sound hfind
    refine .inr ⟨f, hc, hf, ?_⟩
    rw [frameRange_of_lt h.small hc (fun k hk => (hf k hk).1)]

theorem pmmAllocFrame_allocates {a : Arch} {m : Pmm} : Allocates a m 1 (pmmAllocFrame a m) := by
  unfold pmmAllocFrame
  split
  · exact .inl rfl
  · next f hfind =>
    refine .inr ⟨f, by omega, fun k hk => ?_, rfl⟩
    obtain rfl : k = 0 := by omega
    exact findFirstFree_sound hfind

theorem pmmAllocAligned_allocates {a : Arch} {m : Pmm} (h : PmmInv a m) {count align : Nat}
    (hfit : 1 < align → align &&& (align - 1) = 0 → ∀ i < m.totalFrames, m.bitmap i = false →
      alignUp a i align + count < 2 ^ a.bits) : Allocates a m count (pmmAllocAligned a count align m) := by
  unfold pmmAllocAligned
  split
  · exact .inl rfl
  · next hzero =>
    split
    · exact .inl rfl
    · next hpow =>
      split
      · exact pmmAllocFrames_allocates h count
      · next hone =>
        split
        · exact .inl rfl
        · next f hfind =>
          obtain ⟨⟨i, hi, hfree, hf⟩, hsum, hbits⟩ := findAligned_sound hfind
          have hlt : f + count < 2 ^ a.bits := by
            rw [hf]
            exact hfit (by omega) (not_not.1 hpow) i hi hfree
          have hc : 0 < count := by omega
          rw [word_of_lt hlt] at hsum
          refine .inr ⟨f, hc, fun k hk => ⟨by omega, ?_⟩, ?_⟩
          · have := hbits k hk
            rwa [word_of_lt (by omega)] at this
          · rw [frameRange_eq (by omega)]
            rfl

theorem PmmInv.free {a : Arch} {m : Pmm} (h : PmmInv a m) (fs : List Nat)
    (hf : ∀ f ∈ fs, f < m.totalFrames ∧ f < 2 ^ a.bits / frameSize) :
    PmmInv a (fs.foldl (releaseFrame a) m) ∧ (fs.foldl (releaseFrame a) m).totalFrames = m.totalFrames ∧
      ∀ f, m.bitmap f = true → f ∉ fs → (fs.foldl (releaseFrame a) m).bitmap f = true := by
  obtain ⟨hb, ht, _⟩ := foldl_fill (releaseFrame_bitmap a) fs m
  have hkept : ∀ f, m.bitmap f = true → f ∉ fs → (fs.foldl (releaseFrame a) m).bitmap f = true := by
    intro f hset hn
    rw [hb, fill, if_neg hn]
    exact hset
  refine ⟨⟨?_, fun f hlt hhigh => ?_⟩, ht, hkept⟩
  · exact Counted.foldl (fun m f => (releaseFrame_bitmap a m f).2.1) (fun m f hm hf => hm.release hf) fs m
      (fun f hmem => (hf f hmem).1) h.toCounted
  · rw [ht] at hlt
    exact hkept f (h.high f hlt hhigh) (fun hmem => absurd (hf f hmem).2 (Nat.not_lt.2 hhigh))

theorem PmmEvent.Spec.of_none {a : Arch} {e : PmmEvent} (hnone : e.allocated a = none) (hinv : PmmInv a e.after)
    (ht : e.after.totalFrames = e.before.totalFrames)
    (hkept : ∀ f, e.before.bitmap f = true → ¬ e.Frees a f → e.after.bitmap f = true) : e.Spec a :=
  ⟨hinv, ht, fun _ hfs => (nomatch hnone.symm.trans hfs), hkept, fun _ hfs => (nomatch hnone.symm.trans hfs)⟩

theorem PmmInv.same {a : Arch} {c : PmmCall} {r : Int} {m : Pmm} (h : PmmInv a m)
    (hnone : PmmEvent.allocated a ⟨c, r, m, m⟩ = none) : PmmEvent.Spec a ⟨c, r, m, m⟩ :=
  .of_none hnone h rfl (fun _ hb _ => hb)

theorem pmmAllocAt_spec {a : Arch} {m : Pmm} (h : PmmInv a m) {addr : Nat} {count : BitVec 32}
    (hfit : a.word addr / frameSize + count.toNat < 2 ^ a.bits) :
    PmmEvent.Spec a ⟨.allocAt addr count, (pmmAllocAt a (a.word addr) count.toNat m).1, m,
      (pmmAllocAt a (a.word addr) count.toNat m).2⟩ := by
  unfold pmmAllocAt
  rw [word_of_lt hfit, frameRange_eq (Nat.le_of_lt hfit)]
  split
  · exact h.same rfl
  · next hsum =>
    split
    · exact h.same rfl
    · next hany =>
      have hf : ∀ k < count.toNat, a.word addr / frameSize + k < m.totalFrames ∧
          m.bitmap (a.word addr / frameSize + k) = false := by
        intro k hk
        refine ⟨by omega, Bool.eq_false_iff.2 (fun hb => hany ?_)⟩
        exact List.any_eq_true.2 ⟨_, mem_frames.2 ⟨by omega, by omega⟩, hb⟩
      obtain ⟨hinv, hfree, ht, hbits⟩ := h.takeAll hf
      refine ⟨hinv, ht, fun fs hfs => ?_, fun g hb _ => (hbits g).2 (.inl hb), fun fs hfs => ?_⟩ <;>
        obtain rfl : frames (a.word addr / frameSize) count.toNat = fs := Option.some.inj hfs
      · exact ⟨hfree, hbits⟩
      · exact nodup_frames ..

theorem pmmFreeFrame_spec {a : Arch} {m : Pmm} (h : PmmInv a m) (frame : Nat) :
    PmmEvent.Spec a ⟨.freeFrame frame, 0, m, pmmFreeFrame a (a.word frame) m⟩ := by
  unfold pmmFreeFrame
  split
  · exact h.same rfl
  · next hzero =>
    split
    · exact h.same rfl
    · next hlt =>
      have hlt' : a.word frame / frameSize < m.totalFrames := Nat.lt_of_not_le hlt
      have haddr := frameNumber_lt a frame
      obtain ⟨hinv, ht, hkept⟩ := h.free [a.word frame / frameSize] (by simpa using ⟨hlt', haddr⟩)
      refine .of_none rfl hinv ht (fun f hb hn => hkept f hb ?_)
      rw [List.mem_singleton]
      rintro rfl
      exact hn ⟨hzero, rfl, hlt'⟩

theorem pmmFreeFrames_spec {a : Arch} {m : Pmm} (h : PmmInv a m) {frame : Nat} {count : BitVec 32}
    (hfit : PmmCall.Fits a m (.freeFrames frame count)) :
    PmmEvent.Spec a ⟨.freeFrames frame count, 0, m, pmmFreeFrames a (a.word frame) count.toNat m⟩ := by
  obtain ⟨hsum, haddr⟩ := hfit
  unfold pmmFreeFrames
  rw [word_of_lt hsum, frameRange_eq (Nat.le_of_lt hsum)]
  split
  · exact h.same rfl
  · next hzero =>
    split
    · exact h.same rfl
    · next hle =>
      have hle' := Nat.le_of_not_lt hle
      obtain ⟨hinv, ht, hkept⟩ := h.free (frames (a.word frame / frameSize) count.toNat) (fun f hmem => by
        have := mem_frames.1 hmem
        have := haddr hle'
        omega)
      refine .of_none rfl hinv ht (fun f hb hn => hkept f hb (fun hmem => hn ⟨?_, hle', hmem⟩))
      exact fun h0 => hzero (.inl h0)

theorem pmmReserveRegion_spec {a : Arch} {m : Pmm} (h : PmmInv a m) (start length : Nat) :
    PmmEvent.Spec a ⟨.reserveRegion start length, 0, m, pmmReserveRegion a (a.word start) (a.word length) m⟩ := by
  obtain ⟨hb, ht, _⟩ := pmmReserveRegion_bitmap a (a.word start) (a.word length) m
  have hkept : ∀ f, m.bitmap f = true → (pmmReserveRegion a (a.word start) (a.word length) m).bitmap f = true := by
    intro f hset
    rw [hb]
    dsimp only
    split
    · rfl
    · exact hset
  refine .of_none rfl ⟨h.toCounted.reserveRegion _ _, fun f hlt hhigh => ?_⟩ ht (fun f hset _ => hkept f hset)
  change f < (pmmReserveRegion a (a.word start) (a.word length) m).totalFrames at hlt
  rw [ht] at hlt
  exact hkept f (h.high f hlt hhigh)

theorem pmmUnreserveRegion_spec {a : Arch} {m : Pmm} (h : PmmInv a m) (start length : Nat) :
    PmmEvent.Spec a ⟨.unreserveRegion start length, 0, m, pmmUnreserveRegion a (a.word start) (a.word length) m⟩ := by
  obtain ⟨hb, ht, _⟩ := pmmUnreserveRegion_bitmap a (a.word start) (a.word length) m
  have hkept : ∀ f, m.bitmap f = true → ¬ RegionFrame a m.totalFrames (a.word start) (a.word length) f →
      (pmmUnreserveRegion a (a.word start) (a.word length) m).bitmap f = true := by
    intro f hset hn
    rw [hb]
    dsimp only
    rw [if_neg hn]
    exact hset
  refine .of_none rfl ⟨h.toCounted.unreserveRegion _ _, fun f hlt hhigh => ?_⟩ ht (fun f hset hn => hkept f hset hn)
  change f < (pmmUnreserveRegion a (a.word start) (a.word length) m).totalFrames at hlt
  rw [ht] at hlt
  exact hkept f (h.high f hlt hhigh) (fun hr => absurd hr.lt.1 (Nat.not_lt.2 hhigh))

theorem pmmStep_spec {a : Arch} {m : Pmm} (h : PmmInv a m) (c : PmmCall) (hfit : c.Fits a m) :
    (pmmStep a m c).1.Spec a := by
  cases c with
  | allocFrame => exact pmmAllocFrame_allocates.spec h rfl
  | allocFrames count => exact (pmmAllocFrames_allocates h count.toNat).spec h rfl
  | allocAligned count align => exact (pmmAllocAligned_allocates h hfit).spec h rfl
  | allocAt addr count => exact pmmAllocAt_spec h hfit
  | freeFrame frame => exact pmmFreeFrame_spec h frame
  | freeFrames frame count => exact pmmFreeFrames_spec h hfit
  | reserveRegion start length => exact pmmReserveRegion_spec h start length
  | unreserveRegion start length => exact pmmUnreserveRegion_spec h start length

/-! ## Runs -/

/-- The allocator after `kernel_early_init` and `pmm_init`. -/
def bootPmm (a : Arch) (magicOk : Bool) (l : Loader) : Pmm := pmmInit a l (kernelEarlyInit magicOk l.tags).2

def bootFrames (a : Arch) (magicOk : Bool) (l : Loader) : Nat := initFrames a (kernelEarlyInit magicOk l.tags).2

/-- What holds after any calls: what is held is held once, and its bits are set. -/
structure RunInv (a : Arch) (es : List PmmEvent) (m : Pmm) : Prop where
  inv : PmmInv a m
  sound : ∀ e ∈ es, e.Sound a
  once : (held a es).flatten.Nodup
  taken : ∀ f ∈ (held a es).flatten, m.bitmap f = true

theorem held_concat (a : Arch) (es : List PmmEvent) (e : PmmEvent) : held a (es ++ [e]) = holdStep a (held a es) e := by
  rw [held, List.foldl_append]
  rfl

theorem runInv_boot {a : Arch} {magicOk : Bool} {l : Loader} (h : bootFrames a magicOk l + 7 < 2 ^ a.bits) :
    RunInv a [] (bootPmm a magicOk l) := by
  unfold bootFrames at h
  unfold bootPmm
  generalize (kernelEarlyInit magicOk l.tags).2 = info at h
  obtain ⟨hb, ht⟩ := pmmInit_bitmap a l info
  refine ⟨⟨counted_pmmInit l h, fun f hlt hhigh => ?_⟩, by simp, List.nodup_nil, by simp [held]⟩
  rw [ht] at hlt
  have htouched : ¬ InitTouched a l info f := fun ⟨r, _, hr⟩ => absurd hr.lt.1 (Nat.not_lt.2 hhigh)
  rw [hb]
  simp only [htouched, if_false, decide_eq_true (Nat.lt_of_lt_of_le hlt (initFrames_le h)), Bool.true_or, ite_self]

theorem RunInv.step {a : Arch} {es : List PmmEvent} {m : Pmm} (h : RunInv a es m) {c : PmmCall} (hfit : c.Fits a m) :
    RunInv a (es ++ [(pmmStep a m c).1]) (pmmStep a m c).2 := by
  have hs := pmmStep_spec h.inv c hfit
  change RunInv a (es ++ [(pmmStep a m c).1]) (pmmStep a m c).1.after
  have hbefore : (pmmStep a m c).1.before = m := rfl
  generalize (pmmStep a m c).1 = e at hs hbefore
  refine ⟨hs.inv, fun e' he' => ?_, ?_, fun f hf => ?_⟩
  · rcases List.mem_append.1 he' with he' | he'
    · exact h.sound e' he'
    · rw [List.mem_singleton.1 he']
      exact hs.sound
  · rw [held_concat]
    unfold holdStep
    split
    · next fs hfs =>
      rw [List.flatten_cons]
      refine List.nodup_append.2 ⟨hs.nodup fs hfs, h.once, ?_⟩
      -- a new frame was free, one that is held was not
      rintro f hf g hg rfl
      have hfree := ((hs.sound fs hfs).1 f hf).2
      rw [hbefore, h.taken f hg] at hfree
      cases hfree
    · rw [← List.filter_flatten]
      exact h.once.filter _
  · rw [held_concat] at hf
    unfold holdStep at hf
    split at hf
    · next fs hfs =>
      rw [List.flatten_cons, List.mem_append] at hf
      refine ((hs.sound fs hfs).2 f).2 (hf.symm.imp (fun hf => ?_) id)
      rw [hbefore]
      exact h.taken f hf
    · rw [← List.filter_flatten, List.mem_filter] at hf
      refine hs.kept f ?_ (of_decide_eq_true hf.2)
      rw [hbefore]
      exact h.taken f hf.1

theorem runInv_run {a : Arch} {magicOk : Bool} {l : Loader} (h : bootFrames a magicOk l + 7 < 2 ^ a.bits)
    {calls : List PmmCall}
    (hA : Allowed (pmmStep a) (fun _ m c => c.Fits a m) (bootPmm a magicOk l) calls) :
    RunInv a (run (pmmStep a) (bootPmm a magicOk l) calls).1 (run (pmmStep a) (bootPmm a magicOk l) calls).2 :=
  Run.run_keeps (A := fun _ m c => c.Fits a m) (fun _ _ _ hI hfit => hI.step hfit) (runInv_boot h) calls hA

/-- **The frame allocator**: over any run whose sums of frame numbers fit the words of the build, the counter is exact,
every allocation returns frames that were free and sets their bits and no others, and what is allocated and not yet
given back is disjoint. -/
theorem frames_sound (a : Arch) (magicOk : Bool) (l : Loader) (h : bootFrames a magicOk l + 7 < 2 ^ a.bits)
    (calls : List PmmCall)
    (hA : Allowed (pmmStep a) (fun _ m c => c.Fits a m) (bootPmm a magicOk l) calls) :
    (run (pmmStep a) (bootPmm a magicOk l) calls).2.usedFrames =
        sets (run (pmmStep a) (bootPmm a magicOk l) calls).2.bitmap
          (run (pmmStep a) (bootPmm a magicOk l) calls).2.totalFrames ∧
      (∀ e ∈ (run (pmmStep a) (bootPmm a magicOk l) calls).1, e.Sound a) ∧
      (∀ fs ∈ held a (run (pmmStep a) (bootPmm a magicOk l) calls).1, fs.Nodup) ∧
      (held a (run (pmmStep a) (bootPmm a magicOk l) calls).1).Pairwise List.Disjoint := by
  have hI := runInv_run h hA
  obtain ⟨hnodup, hdisjoint⟩ := List.nodup_flatten.1 hI.once
  exact ⟨hI.inv.used, hI.sound, hnodup, hdisjoint⟩

/-! ## The build for 64 bits -/

theorem countRam_lt {s : Nat × Bool} (h : s.1 < 2 ^ 64) (t : Tag) : (countRam s t).1 < 2 ^ 64 := by
  cases t with
  | mmap entries =>
    have hfold : ∀ (entries : List Entry) (ram : Nat), ram < 2 ^ 64 →
        entries.foldl (fun ram e => if e.available then (ram + e.length.toNat) % 2 ^ 64 else ram) ram < 2 ^ 64 := by
      intro entries
      induction entries with
      | nil => exact fun _ hr => hr
      | cons e entries ih =>
        intro ram hr
        refine ih _ ?_
        dsimp only
        split
        · exact Nat.mod_lt _ (Nat.two_pow_pos _)
        · exact hr
    exact hfold entries s.1 h
  | basicMem lower upper =>
    unfold countRam
    dsimp only
    split
    · exact h
    · exact Nat.mod_lt _ (Nat.two_pow_pos _)
  | other => exact h

theorem availableRam_lt (tags : List Tag) : availableRam tags < 2 ^ 64 := by
  have hfold : ∀ (tags : List Tag) (s : Nat × Bool), s.1 < 2 ^ 64 → (tags.foldl countRam s).1 < 2 ^ 64 := by
    intro tags
    induction tags with
    | nil => exact fun _ hs => hs
    | cons t tags ih => exact fun s hs => ih _ (countRam_lt hs t)
  unfold availableRam
  dsimp only
  split
  · decide
  · exact hfold tags (0, false) (by decide)

theorem bootFrames_x64_le (magicOk : Bool) (l : Loader) : bootFrames .x64 magicOk l ≤ 2 ^ 52 := by
  have hram : initRam .x64 (kernelEarlyInit magicOk l.tags).2 < 2 ^ 64 := by
    have hav : (kernelEarlyInit magicOk l.tags).2.totalRam < 2 ^ 64 := by
      unfold kernelEarlyInit
      split
      · decide
      · split <;> exact availableRam_lt l.tags
    have hvalid : (if (kernelEarlyInit magicOk l.tags).2.valid then (kernelEarlyInit magicOk l.tags).2.totalRam
        else 16 * mib) < 2 ^ 64 := by
      split
      · exact hav
      · decide
    unfold initRam
    dsimp only
    generalize (if (kernelEarlyInit magicOk l.tags).2.valid then (kernelEarlyInit magicOk l.tags).2.totalRam
        else 16 * mib) = ram at hvalid
    split
    · decide
    · exact hvalid
  unfold bootFrames initFrames
  refine Nat.le_trans (Nat.mod_le _ _) ?_
  rw [frameSize]
  omega

theorem fits_x64 {m : Pmm} (h : m.totalFrames ≤ 2 ^ 52) (c : PmmCall) : c.Fits .x64 m := by
  have hword : ∀ n, Arch.word .x64 n / frameSize < 2 ^ 52 := fun n => frameNumber_lt .x64 n
  have hcount : ∀ n : BitVec 32, n.toNat < 2 ^ 32 := fun n => n.isLt
  have hbits : Arch.bits .x64 = 64 := rfl
  cases c with
  | allocAligned count align =>
    intro _ _ i hi _
    have h1 : alignUp .x64 i align.toNat ≤ i + (align.toNat - 1) := by
      unfold alignUp
      exact Nat.le_trans (Nat.sub_le _ _) (Nat.mod_le _ _)
    have h2 := hcount count
    have h3 := hcount align
    rw [hbits]
    omega
  | allocAt addr count =>
    change Arch.word .x64 addr / frameSize + count.toNat < 2 ^ Arch.bits .x64
    have h1 := hword addr
    have h2 := hcount count
    rw [hbits]
    omega
  | freeFrames frame count =>
    have h1 := hword frame
    have h2 := hcount count
    refine ⟨?_, fun hle => Nat.le_trans hle h⟩
    rw [hbits]
    omega
  | _ => trivial

theorem allowed_x64 (magicOk : Bool) (l : Loader) (calls : List PmmCall) :
    Allowed (pmmStep .x64) (fun _ m c => c.Fits .x64 m) (bootPmm .x64 magicOk l) calls := by
  rintro before c after rfl
  have h : bootFrames .x64 magicOk l + 7 < 2 ^ Arch.bits .x64 := by
    have := bootFrames_x64_le magicOk l
    change _ < 2 ^ 64
    omega
  have hI := @Run.run_keeps _ _ _ (pmmStep .x64) (fun _ _ _ => True)
    (fun es m => RunInv .x64 es m ∧ m.totalFrames ≤ 2 ^ 52)
    (fun es m c hm _ => ⟨hm.1.step (fits_x64 hm.2 c), by
      change (pmmStep .x64 m c).1.after.totalFrames ≤ 2 ^ 52
      rw [(pmmStep_spec hm.1.inv c (fits_x64 hm.2 c)).total]
      exact hm.2⟩)
    _ ⟨runInv_boot h, by
      rw [bootPmm, (pmmInit_bitmap ..).2]
      exact bootFrames_x64_le magicOk l⟩ before (fun _ _ _ _ => trivial)
  exact fits_x64 hI.2 c

/-! ## A range past the end of the frames -/

theorem releaseAll_used {a : Arch} : ∀ (fs : List Nat) (m : Pmm), fs.Nodup → fs.countP m.bitmap ≤ m.usedFrames →
    m.usedFrames < 2 ^ a.bits → (fs.foldl (releaseFrame a) m).usedFrames + fs.countP m.bitmap = m.usedFrames
  | [], _, _, _, _ => rfl
  | f :: fs, m, hn, hle, hlt => by
    obtain ⟨hnf, hn⟩ := List.nodup_cons.1 hn
    have hsame : fs.countP (releaseFrame a m f).bitmap = fs.countP m.bitmap := by
      refine List.countP_congr (fun g hg => ?_)
      rw [(releaseFrame_bitmap a m f).1, Function.update_of_ne (by rintro rfl; exact hnf hg)]
    cases hb : m.bitmap f with
    | false =>
      have hm : releaseFrame a m f = m := by simp [releaseFrame, bitmapTest, hb]
      rw [List.countP_cons_of_neg (by simp [hb])] at hle ⊢
      rw [List.foldl_cons, hm]
      exact releaseAll_used fs m hn hle hlt
    | true =>
      rw [List.countP_cons_of_pos hb] at hle ⊢
      have hu : (releaseFrame a m f).usedFrames = m.usedFrames - 1 := by
        unfold releaseFrame bitmapTest
        rw [if_pos hb]
        change a.word (m.usedFrames + 2 ^ a.bits - 1) = m.usedFrames - 1
        rw [show m.usedFrames + 2 ^ a.bits - 1 = m.usedFrames - 1 + 2 ^ a.bits by omega, Arch.word, Nat.add_mod_right]
        exact Nat.mod_eq_of_lt (by omega)
      have ih := releaseAll_used (a := a) fs (releaseFrame a m f) hn (by rw [hsame, hu]; omega) (by rw [hu]; omega)
      rw [hsame, hu] at ih
      rw [List.foldl_cons]
      omega

theorem release_outside {a : Arch} {m : Pmm} {fs : List Nat} {x : Nat} (hc : Counted a m) (hn : fs.Nodup)
    (hx : x ∈ fs) (hout : m.totalFrames ≤ x) (hset : ∀ f ∈ fs, (m.bitmap f = true ↔ f = x)) (hpos : 0 < m.usedFrames) :
    (fs.foldl (releaseFrame a) m).usedFrames + 1 =
      sets (fs.foldl (releaseFrame a) m).bitmap (fs.foldl (releaseFrame a) m).totalFrames := by
  obtain ⟨hb, ht, _⟩ := foldl_fill (releaseFrame_bitmap a) fs m
  have hone : fs.countP m.bitmap = 1 := by
    have hcount : fs.countP m.bitmap = fs.count x :=
      List.countP_congr (fun f hf => by rw [hset f hf, beq_iff_eq])
    rw [hcount]
    exact List.count_eq_one_of_mem hn hx
  have hused := releaseAll_used (a := a) fs m hn (by omega)
    (by rw [hc.used]; exact Nat.lt_of_le_of_lt (sets_le _ _) hc.small)
  rw [hone] at hused
  rw [hused, hc.used, ht, hb]
  refine sets_congr (fun i hi => ?_)
  unfold fill
  split
  · next hmem =>
    have : i ≠ x := by omega
    exact Bool.eq_false_iff.2 (mt (hset i hmem).1 this)
  · rfl

/-- 16 MiB of memory from 1 MiB on; the memory behind the bitmap is zero but for one bit. -/
def smallLoader : Loader :=
  ⟨[.mmap [⟨0x100000, 0x1000000, mb2MmapAvailable⟩]], 0x9000, 0x400, 0x300000, fun f => f == 5000⟩

theorem smallLoader_bitmap : (bootPmm .x86 true smallLoader).totalFrames = 4096 ∧
    (bootPmm .x86 true smallLoader).bitmap 0 = true ∧
    ∀ f, 4095 ≤ f → ((bootPmm .x86 true smallLoader).bitmap f = true ↔ f = 5000) := by
  obtain ⟨hb, ht⟩ := pmmInit_bitmap .x86 smallLoader (kernelEarlyInit true smallLoader.tags).2
  have htotal : initFrames .x86 (kernelEarlyInit true smallLoader.tags).2 = 4096 := by decide
  have hsize : initBitmapSize .x86 (kernelEarlyInit true smallLoader.tags).2 = 512 := by decide
  refine ⟨ht.trans htotal, ?_, fun f hf => ?_⟩
  · rw [bootPmm, hb]
    decide
  · rw [bootPmm, hb]
    dsimp only
    rcases Nat.lt_or_eq_of_le hf with hf | rfl
    · -- behind the bitmap
      have hregion : ∀ start length, ¬ RegionFrame .x86 4096 start length f := fun start length hr =>
        absurd hr.lt.2 (by omega)
      have hres : ¬ InitReserved .x86 smallLoader (kernelEarlyInit true smallLoader.tags).2 f := by
        unfold InitReserved
        rw [htotal]
        rintro (h | h | h) <;> exact hregion _ _ h
      have htouched : ¬ InitTouched .x86 smallLoader (kernelEarlyInit true smallLoader.tags).2 f := by
        unfold InitTouched
        rw [htotal]
        rintro ⟨r, _, h⟩
        exact hregion _ _ h
      rw [if_neg hres, if_neg htouched, hsize, decide_eq_false (by omega)]
      simp [smallLoader]
    · have hres : ¬ InitReserved .x86 smallLoader (kernelEarlyInit true smallLoader.tags).2 4095 := by decide
      have htouched : InitTouched .x86 smallLoader (kernelEarlyInit true smallLoader.tags).2 4095 := by decide
      rw [if_neg hres, if_pos htouched]
      decide

theorem run_freeFrames (a : Arch) (m : Pmm) (frame : Nat) (count : BitVec 32) :
    (run (pmmStep a) m [.freeFrames frame count]).2 = pmmFreeFrames a (a.word frame) count.toNat m := rfl

/-- **A range whose end overflows 32 bits** is not refused, and takes what lies behind the bitmap off the counter. -/
theorem not_frames_sound :
    (run (pmmStep .x86) (bootPmm .x86 true smallLoader) [.freeFrames 0xFFF000 0xFFFFF001]).2.usedFrames ≠
      sets (run (pmmStep .x86) (bootPmm .x86 true smallLoader) [.freeFrames 0xFFF000 0xFFFFF001]).2.bitmap
        (run (pmmStep .x86) (bootPmm .x86 true smallLoader) [.freeFrames 0xFFF000 0xFFFFF001]).2.totalFrames := by
  obtain ⟨ht, h0, hbits⟩ := smallLoader_bitmap
  have hc : Counted .x86 (bootPmm .x86 true smallLoader) := counted_pmmInit smallLoader (by decide)
  generalize bootPmm .x86 true smallLoader = m at ht h0 hbits hc
  rw [run_freeFrames, show Arch.word .x86 0xFFF000 = 0xFFF000 by decide, show (0xFFFFF001 : BitVec 32).toNat = 0xFFFFF001 by decide]
  have hpos : 0 < m.usedFrames := by
    rw [hc.used]
    exact sets_pos (by omega) h0
  have hfree : pmmFreeFrames .x86 0xFFF000 0xFFFFF001 m = (frames 4095 0xFFFFF001).foldl (releaseFrame .x86) m := by
    have hsum : Arch.word .x86 (0xFFF000 / frameSize + 0xFFFFF001) = 0 := by decide
    unfold pmmFreeFrames
    rw [hsum, if_neg (by decide), if_neg (Nat.not_lt_zero _), show 0xFFF000 / frameSize = 4095 from rfl,
      frameRange_eq (by decide)]
    rfl
  rw [hfree]
  have hmem : 5000 ∈ frames 4095 0xFFFFF001 := mem_frames.2 ⟨by decide, by decide⟩
  have := release_outside hc (nodup_frames ..) hmem (by omega) (fun f hf => hbits f (mem_frames.1 hf).1) hpos
  omega

/-- Three calls of the 64-bit build: two frames, one of them given back. -/
theorem frames_sound_small :
    (run (pmmStep .x64) (bootPmm .x64 true smallLoader) [.allocFrame, .allocFrames 2, .freeFrame 0x301000]).2.usedFrames
      = sets (run (pmmStep .x64) (bootPmm .x64 true smallLoader)
          [.allocFrame, .allocFrames 2, .freeFrame 0x301000]).2.bitmap
        (run (pmmStep .x64) (bootPmm .x64 true smallLoader)
          [.allocFrame, .allocFrames 2, .freeFrame 0x301000]).2.totalFrames :=
  (frames_sound .x64 true smallLoader (by decide) _ (allowed_x64 true smallLoader _)).1

end Mm
end AmitX
