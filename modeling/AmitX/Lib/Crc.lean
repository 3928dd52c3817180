import Mathlib.Logic.Function.Iterate
/-!
# Crc — reflected cyclic redundancy checks

A remainder of `w` bits is a polynomial over two elements with its coefficients reflected: one step takes in a bit at
the low end and divides by the polynomial.  The step is linear and, for a polynomial with its top bit set, one-to-one;
so a chunk of bits can be taken in by a table, and two messages that differ in one chunk never have one remainder.
-/
namespace AmitX
namespace Crc

variable {w n : Nat} {p : BitVec w}

def shift (p c : BitVec w) : BitVec w := if c.getLsbD 0 then c >>> 1 ^^^ p else c >>> 1

def step (p c : BitVec w) (b : Bool) : BitVec w := shift p (c ^^^ (BitVec.ofBool b).setWidth w)

/-- The bits of a message of chunks, each with its least significant bit first. -/
def bitsOf (l : List (BitVec n)) : List Bool := l.flatMap (fun d => (List.range n).map d.getLsbD)

/-- A chunk of `n` bits taken in at once. -/
def chunk (p : BitVec w) (c : BitVec w) (d : BitVec n) : BitVec w := (shift p)^[n] (c ^^^ d.setWidth w)

/-! ## One shift -/

theorem shift_of_even {c : BitVec w} (h : c.getLsbD 0 = false) : shift p c = c >>> 1 := by
  simp [shift, h]

theorem shift_xor (a b : BitVec w) : shift p (a ^^^ b) = shift p a ^^^ shift p b := by
  unfold shift
  simp only [BitVec.getLsbD_xor, BitVec.ushiftRight_xor_distrib]
  cases a.getLsbD 0 <;> cases b.getLsbD 0 <;> simp only [Bool.xor_true, Bool.xor_false, Bool.not_true,
    Bool.not_false, if_true, if_false, Bool.false_eq_true]
  · ac_rfl
  · ac_rfl
  · rw [BitVec.xor_comm (b >>> 1) p, BitVec.xor_assoc, ← BitVec.xor_assoc p p, BitVec.xor_self, BitVec.zero_xor]

theorem eq_zero_of_shift (hp : p.msb = true) {c : BitVec w} (h : shift p c = 0#w) : c = 0#w := by
  unfold shift at h
  split at h
  · have hc : c >>> 1 = p := by
      have := congrArg (· ^^^ p) h
      simpa [BitVec.xor_assoc] using this
    rw [← hc] at hp
    simp [BitVec.msb_ushiftRight] at hp
  case isFalse h0 =>
    apply BitVec.eq_of_getLsbD_eq
    intro i hi
    cases i with
    | zero => simpa using h0
    | succ i =>
      have := congrArg (·.getLsbD i) h
      simpa [Nat.add_comm] using this

theorem iterate_xor (a b : BitVec w) : ∀ n, (shift p)^[n] (a ^^^ b) = (shift p)^[n] a ^^^ (shift p)^[n] b
  | 0 => rfl
  | n + 1 => by simp only [Function.iterate_succ_apply', iterate_xor a b n, shift_xor]

theorem iterate_of_clear {c : BitVec w} : ∀ {n}, (∀ i, i < n → c.getLsbD i = false) → (shift p)^[n] c = c >>> n
  | 0, _ => by simp
  | n + 1, h => by
    rw [Function.iterate_succ_apply', iterate_of_clear (fun i hi => h i (by omega)), shift_of_even, BitVec.shiftRight_add]
    simpa using h n (by omega)

theorem shift_injective (hp : p.msb = true) : Function.Injective (shift p) := by
  intro a b h
  have h0 : shift p (a ^^^ b) = 0#w := by rw [shift_xor, h, BitVec.xor_self]
  exact BitVec.xor_eq_zero_iff.1 (eq_zero_of_shift hp h0)

/-! ## Chunks -/

theorem foldl_step_chunk (c : BitVec w) (d : BitVec n) (hn : n ≤ w) : ∀ j, j ≤ n →
    ((List.range j).map d.getLsbD).foldl (step p) c ^^^ (d.setWidth w) >>> j = (shift p)^[j] (c ^^^ d.setWidth w)
  | 0, _ => by simp
  | j + 1, hj => by
    let x := ((List.range j).map d.getLsbD).foldl (step p) c
    let bit := (BitVec.ofBool (d.getLsbD j)).setWidth w
    let rest := (d.setWidth w) >>> j
    have hrest : (bit ^^^ rest).getLsbD 0 = false := by
      have : j < w := by omega
      simp [bit, rest, this, show 0 < w by omega]
    have hdown : (bit ^^^ rest) >>> 1 = (d.setWidth w) >>> (j + 1) := by
      apply BitVec.eq_of_getLsbD_eq
      intro i hi
      simp [bit, rest, Nat.add_assoc]
    have hsplit : x ^^^ rest = (x ^^^ bit) ^^^ (bit ^^^ rest) := by
      rw [BitVec.xor_assoc, ← BitVec.xor_assoc bit, BitVec.xor_self, BitVec.zero_xor]
    calc ((List.range (j + 1)).map d.getLsbD).foldl (step p) c ^^^ (d.setWidth w) >>> (j + 1)
        = shift p (x ^^^ bit) ^^^ (d.setWidth w) >>> (j + 1) := by
          rw [List.range_succ, List.map_append, List.foldl_append]
          rfl
      _ = shift p (x ^^^ rest) := by rw [hsplit, shift_xor (x ^^^ bit), shift_of_even hrest, hdown]
      _ = (shift p)^[j + 1] (c ^^^ d.setWidth w) := by
          rw [Function.iterate_succ_apply', ← foldl_step_chunk c d hn j (by omega)]

theorem foldl_chunk (hn : n ≤ w) : ∀ (l : List (BitVec n)) (c : BitVec w),
    (bitsOf l).foldl (step p) c = l.foldl (chunk p) c
  | [], _ => rfl
  | d :: l, c => by
    have hd := foldl_step_chunk (p := p) c d hn n (Nat.le_refl n)
    have hz : (d.setWidth w) >>> n = 0#w := by
      apply BitVec.eq_of_getLsbD_eq
      intro i hi
      simp
    rw [hz, BitVec.xor_zero] at hd
    rw [bitsOf, List.flatMap_cons, List.foldl_append, hd, List.foldl_cons]
    exact foldl_chunk hn l _

theorem chunk_eq (c : BitVec w) (d : BitVec n) :
    chunk p c d = c >>> n ^^^ (shift p)^[n] ((c.setWidth n ^^^ d).setWidth w) := by
  have hsplit : c ^^^ d.setWidth w = (c >>> n <<< n) ^^^ (c.setWidth n ^^^ d).setWidth w := by
    apply BitVec.eq_of_getLsbD_eq
    intro i hi
    by_cases h : i < n
    · simp [h, hi]
    · have hd : d.getLsbD i = false := BitVec.getLsbD_of_ge _ _ (by omega)
      simp [h, hi, hd, show n + (i - n) = i by omega]
  rw [chunk, hsplit, iterate_xor, iterate_of_clear]
  · congr 1
    apply BitVec.eq_of_getLsbD_eq
    intro i hi
    by_cases h : n + i < w
    · simp [h]
    · simp [h, BitVec.getLsbD_of_ge c (n + i) (by omega)]
  · intro i hi
    simp [hi]

theorem chunk_left_injective (hp : p.msb = true) (d : BitVec n) : Function.Injective (chunk p · d) := by
  intro a b h
  have := (shift_injective hp).iterate n h
  simpa using congrArg (· ^^^ d.setWidth w) this

theorem chunk_right_injective (hp : p.msb = true) (hn : n ≤ w) (c : BitVec w) :
    Function.Injective (chunk (n := n) p c) := by
  intro a b h
  have hx := congrArg (c ^^^ ·) ((shift_injective hp).iterate n h)
  have hw : a.setWidth w = b.setWidth w := by simpa [← BitVec.xor_assoc] using hx
  apply BitVec.eq_of_getLsbD_eq
  intro i hi
  simpa [show i < w by omega] using congrArg (·.getLsbD i) hw

theorem foldl_chunk_injective (hp : p.msb = true) : ∀ l : List (BitVec n), Function.Injective (l.foldl (chunk p))
  | [] => fun _ _ h => h
  | d :: l => fun _ _ h => chunk_left_injective hp d (foldl_chunk_injective hp l h)

theorem foldl_chunk_ne (hp : p.msb = true) (hn : n ≤ w) (l l' : List (BitVec n)) {d d' : BitVec n} (hd : d ≠ d')
    (c : BitVec w) : (l ++ d :: l').foldl (chunk p) c ≠ (l ++ d' :: l').foldl (chunk p) c := by
  rw [List.foldl_append, List.foldl_append, List.foldl_cons, List.foldl_cons]
  intro h
  exact hd (chunk_right_injective hp hn _ (foldl_chunk_injective hp l' h))

end Crc
end AmitX
