import AmitX.Lib.DList
import AmitX.Mm.HeapRun
/-!
# HeapSizes — requests of any size

A request is rounded up to 16 bytes, a header is added and the sum goes to `sbrk` as a signed increment; near the top of
the numbers each of the three wraps.  What is granted then is a payload that is not there.
-/
namespace AmitX
namespace Mm

open Run Loop Bytes Tiling Links

def nonNull (p : Nat) : Option Nat := if p = 0 then none else some p

def OnList (a : Arch) (m : Mem) (head b : Nat) : Prop := Reach (fun c => nonNull (nextAt a m c)) (nonNull head) b

/-- No free block has `size` bytes. -/
def NoneFits (a : Arch) (m : Mem) (head size : Nat) : Prop :=
  ∀ b, OnList a m head b → freeAt a m b ≠ 0 → sizeAt a m b < size

/-- `sbrk` refuses the increment whose word is `t`: a positive one leads out of the arena, or to a page for which there
is no frame, and a negative one below the base. -/
def GrowRefused (a : Arch) (frames : Nat → Option Mem) (t : Nat) (h : Heap) : Prop :=
  if t < 2 ^ (a.bits - 1) then
    t ≠ 0 ∧ (a.heapBase + heapSize < h.heapBreak + t ∨ h.heapEnd < h.heapBreak + t ∧ frames 0 = none)
  else h.heapBreak + t < a.heapBase + 2 ^ a.bits

/-- The request is not larger than the arena, or it is refused although its rounded size or its increment has wrapped. -/
def RequestFits (a : Arch) (frames : Nat → Option Mem) (n : Nat) (h : Heap) : Prop :=
  n ≤ heapSize ∨
    NoneFits a h.mem h.head (align16 a n) ∧ GrowRefused a frames (a.word (a.blockSize + align16 a n)) h

/-- A `realloc` of a block, besides, does not wrap to size 0, which any block has. -/
def HeapCall.SizeFits (a : Arch) (h : Heap) : HeapCall → Prop
  | .malloc n frames => RequestFits a frames n h
  | .calloc num size frames => num * size < 2 ^ a.bits → RequestFits a frames (num * size) h
  | .realloc ptr n frames => (ptr ≠ 0 → n + 15 < 2 ^ a.bits) ∧ RequestFits a frames n h
  | _ => True

/-- **The pointer `r` for `n` bytes is served**: the payload has them inside the heap, the break has not decreased, and no
other payload that is held overlaps it. -/
structure Served (a : Arch) (s s' : HeapState) (n r : Nat) : Prop where
  large : n ≤ sizeAt a s'.heap.mem (r - a.blockSize)
  low : a.heapBase ≤ r
  inside : r + n ≤ s'.heap.heapBreak
  kept : s.heap.heapBreak ≤ s'.heap.heapBreak
  apart : ∀ x ∈ s'.live, x.ptr ≠ r → x.ptr + x.payload a s'.heap.mem ≤ r ∨ r + n ≤ x.ptr

def HeapCall.request : HeapCall → Option Nat
  | .malloc n _ => some n
  | .calloc num size _ => some (num * size)
  | .realloc _ n _ => some n
  | _ => none

/-- **Sizes do not wrap**: a pointer that is returned for a request is served. -/
def HeapCall.SizeRight (a : Arch) (s : HeapState) (c : HeapCall) : Prop :=
  ∀ n, c.request = some n → ∀ r, (c.step a s).1 = some r → r ≠ 0 → Served a s (c.step a s).2 n r

/-- Pointers are live or NULL, sizes are words, and a holder writes into its own payload. -/
def HeapCall.Takes (a : Arch) (s : HeapState) : HeapCall → Prop
  | .malloc size _ => size < 2 ^ a.bits
  | .free ptr => ptr = 0 ∨ ∃ x ∈ s.live, x.ptr = ptr
  | .calloc num size _ => num < 2 ^ a.bits ∧ size < 2 ^ a.bits
  | .realloc ptr size _ => size < 2 ^ a.bits ∧ (ptr = 0 ∨ ∃ x ∈ s.live, x.ptr = ptr)
  | .write addr _ => ∃ x ∈ s.live, x.ptr ≤ addr ∧ addr < x.ptr + x.size

section

variable {a : Arch} {s : HeapState} {h h' : Heap} {l : List Nat} {frames : Nat → Option Mem} {b n r size t : Nat} {m : Mem}

/-! ## The list of the blocks -/

theorem nonNull_of_ne (hb : b ≠ 0) : nonNull b = some b := if_neg hb

theorem along_of_tiles {len : Nat → Nat} : ∀ {l : List Nat} {k p q : Nat}, Tiles (nextAt a m) len k p l 0 q →
    (∀ b ∈ l, b ≠ 0) → Along (fun c => nonNull (nextAt a m c)) (nonNull k) l
  | [], k, _, _, ht, _ => by
    rw [show k = 0 from ht.1]
    rfl
  | b :: l, k, _, _, ht, hne => by
    obtain ⟨rfl, -, ht⟩ := ht
    exact ⟨nonNull_of_ne (hne k List.mem_cons_self), along_of_tiles ht (fun c hc => hne c (List.mem_cons_of_mem k hc))⟩

theorem onList_iff {head brk : Nat} (hb : Blocks a m head brk l) : OnList a m head b ↔ b ∈ l :=
  (along_of_tiles hb.tiles (fun _ hc => hb.ne_zero hc)).reach_iff

/-! ## The break -/

theorem newBreak_eq (a : Arch) (brk n : Nat) :
    (((brk : Int) + a.signed n) % 2 ^ a.bits).toNat = (brk + a.word n) % 2 ^ a.bits := by
  have hcast : ((brk : Int) + (a.word n : Int)) % 2 ^ a.bits = ((brk + a.word n) % 2 ^ a.bits : Nat) := by
    push_cast
    rfl
  unfold Arch.signed
  split
  · rw [hcast, Int.toNat_natCast]
  · have hsub : (brk : Int) + ((a.word n : Int) - 2 ^ a.bits) = (brk + a.word n) + 2 ^ a.bits * (-1) := by ring
    rw [hsub, Int.add_mul_emod_self_left, hcast, Int.toNat_natCast]

theorem Arch.base_half (a : Arch) : 2 ^ (a.bits - 1) ≤ a.heapBase ∧ 2 * 2 ^ (a.bits - 1) = 2 ^ a.bits ∧
    heapSize + 64 < 2 ^ (a.bits - 1) := by cases a <;> decide

theorem signed_eq_zero (h : a.word n = 0) : a.signed n = 0 := by
  unfold Arch.signed
  rw [h, if_pos (Nat.two_pow_pos _)]
  rfl

theorem signed_ne_zero (h : a.word n ≠ 0) : a.signed n ≠ 0 := by
  have hlt := Nat.mod_lt n (Nat.two_pow_pos a.bits)
  have hlt : a.word n < 2 ^ a.bits := hlt
  have hcast : ((2 : Int) ^ a.bits) = ((2 ^ a.bits : Nat) : Int) := by push_cast; rfl
  unfold Arch.signed
  split
  · omega
  · rw [hcast]
    omega

theorem commit_one (frames : Nat → Option Mem) (h : Heap) : heapCommitTo frames (h.heapEnd + pageSize) h =
    match frames 0 with
    | none => some (false, h)
    | some frame => some (true, { h with
        mem := copy h.mem h.heapEnd frame 0 pageSize
        heapEnd := h.heapEnd + pageSize }) := by
  have hpos : 0 < pageSize := by decide
  unfold heapCommitTo
  cases hf : frames 0 with
  | none =>
    refine loop_inr (n := heapSize) ?_
    unfold commitTurn
    dsimp only
    rw [if_pos (by omega), hf]
  | some frame =>
    have h1 : commitTurn frames (h.heapEnd + pageSize) (0, h) = .inl (1, { h with
        mem := copy h.mem h.heapEnd frame 0 pageSize
        heapEnd := h.heapEnd + pageSize }) := by
      unfold commitTurn
      dsimp only
      rw [if_pos (by omega), hf]
    refine (loop_inl h1 heapSize).trans (loop_inr (n := heapSize - 1) ?_)
    unfold commitTurn
    dsimp only
    rw [if_neg (Nat.lt_irrefl _)]

/-- `sbrk` has moved the break, up or down. -/
structure BreakMoved (a : Arch) (h h' : Heap) : Prop where
  head : h'.head = h.head
  inside : h'.heapBreak ≤ a.heapBase + heapSize
  mem : ∀ i, i < h.heapEnd → h'.mem i = h.mem i

/-- **`sbrk` of a request that is larger than the arena**: what is left of the increment is a header or less, or it is
refused. -/
theorem sbrk_word (hg : Good a h l) (ht : t = a.word n) (hsmall : t ≤ 32 ∨ heapSize < t) :
    GrowRefused a frames t h ∧ sbrkLocked a frames (a.signed n) h = some (a.noBreak, h) ∨
    ¬GrowRefused a frames t h ∧ ∃ h', sbrkLocked a frames (a.signed n) h = some (h.heapBreak, h') ∧
      BreakMoved a h h' := by
  have hbase := hg.base_le
  have hmap := hg.mapped
  have hend := hg.ending
  have harena := a.arena_lt
  obtain ⟨hhalf, htwo, hfit⟩ := a.base_half
  have hlt : t < 2 ^ a.bits := ht ▸ Nat.mod_lt n (Nat.two_pow_pos _)
  have hpages : pageSize = 4096 := rfl
  unfold sbrkLocked GrowRefused
  by_cases h0 : t = 0
  · -- the increment is 0
    rw [if_pos (signed_eq_zero (ht ▸ h0))]
    refine Or.inr ⟨?_, h, rfl, rfl, by omega, fun _ _ => rfl⟩
    rw [h0, if_pos (Nat.two_pow_pos _)]
    exact fun hc => hc.1 rfl
  · rw [if_neg (signed_ne_zero (ht ▸ h0))]
    dsimp only
    rw [newBreak_eq, ← ht]
    by_cases hpos : t < 2 ^ (a.bits - 1)
    · rw [if_pos hpos]
      by_cases hout : a.heapBase + heapSize < h.heapBreak + t
      · -- out of the arena, or around to numbers below the base
        refine Or.inl ⟨⟨h0, Or.inl hout⟩, ?_⟩
        rcases Nat.lt_or_ge (h.heapBreak + t) (2 ^ a.bits) with hno | hwrap
        · rw [Nat.mod_eq_of_lt hno, if_neg (by omega), if_pos hout]
        · rw [Nat.mod_eq_sub_mod hwrap, Nat.mod_eq_of_lt (by omega), if_pos (by omega)]
      · have ht32 : t ≤ 32 := by
          rcases hsmall with h32 | hbig
          · exact h32
          · omega
        rw [Nat.mod_eq_of_lt (by omega), if_neg (by omega), if_neg hout]
        by_cases hgrow : h.heapEnd < h.heapBreak + t
        · obtain ⟨k, hk⟩ := hg.page
          have htarget : a.word (h.heapBreak + t + pageSize - 1) / pageSize * pageSize = h.heapEnd + pageSize := by
            have hsize : pageSize ≤ heapSize := by decide
            have hno : h.heapBreak + t + pageSize - 1 < 2 ^ a.bits := by omega
            rw [a.word_of_lt hno]
            have hdiv : (h.heapBreak + t + pageSize - 1) / pageSize = k + 1 := by
              rw [hpages] at hk ⊢
              omega
            rw [hdiv, Nat.succ_mul, Nat.mul_comm k, ← hk]
          rw [if_pos hgrow, htarget, commit_one]
          cases hf : frames 0 with
          | none => exact Or.inl ⟨⟨h0, Or.inr ⟨hgrow, rfl⟩⟩, rfl⟩
          | some frame =>
            refine Or.inr ⟨?_, _, rfl, rfl, by dsimp only; omega, fun i hi => copy_of_not (Or.inl hi)⟩
            rintro ⟨-, ho | ⟨-, hn⟩⟩
            · exact hout ho
            · cases hn
        · rw [if_neg hgrow]
          refine Or.inr ⟨?_, _, rfl, rfl, by dsimp only; omega, fun _ _ => rfl⟩
          rintro ⟨-, ho | ⟨hg', -⟩⟩
          · exact hout ho
          · exact hgrow hg'
    · -- a negative increment
      rw [if_neg hpos]
      have hwrap : 2 ^ a.bits ≤ h.heapBreak + t := by omega
      rw [Nat.mod_eq_sub_mod hwrap, Nat.mod_eq_of_lt (by omega)]
      by_cases hlow : h.heapBreak + t < a.heapBase + 2 ^ a.bits
      · exact Or.inl ⟨hlow, if_pos (by omega)⟩
      · rw [if_neg (by omega), if_neg (by omega), if_neg (by omega)]
        exact Or.inr ⟨hlow, _, rfl, rfl, by dsimp only; omega, fun _ _ => rfl⟩

/-! ## A request that is larger than the arena -/

theorem align16_large (hn : heapSize < n) (hlt : n < 2 ^ a.bits) : 16 ∣ align16 a n ∧ align16 a n + 16 ≤ 2 ^ a.bits ∧
    (2 ^ a.bits ≤ n + 15 ∧ align16 a n = 0 ∨ n + 15 < 2 ^ a.bits ∧ n ≤ align16 a n) := by
  have hdvd : 16 * (2 ^ a.bits / 16) = 2 ^ a.bits := by cases a <;> decide
  unfold align16
  refine ⟨Nat.dvd_mul_left 16 _, ?_⟩
  rcases Nat.lt_or_ge (n + 15) (2 ^ a.bits) with hno | hwrap
  · rw [a.word_of_lt hno]
    refine ⟨?_, Or.inr ⟨hno, by omega⟩⟩
    omega
  · have hword : a.word (n + 15) = n + 15 - 2 ^ a.bits := by
      unfold Arch.word
      rw [Nat.mod_eq_sub_mod hwrap, Nat.mod_eq_of_lt (by omega)]
    rw [hword]
    omega

theorem word_large (hn : heapSize < n) (hlt : n < 2 ^ a.bits) :
    a.word (a.blockSize + align16 a n) ≤ 32 ∨ heapSize < a.word (a.blockSize + align16 a n) := by
  have hbs := a.blockSize_le
  obtain ⟨-, htwo, hfit⟩ := a.base_half
  obtain ⟨-, hmax, ⟨-, h0⟩ | ⟨-, hle⟩⟩ := align16_large hn hlt
  · rw [h0, Nat.add_zero, a.word_of_lt (by omega)]
    exact Or.inl hbs.2
  · rcases Nat.lt_or_ge (a.blockSize + align16 a n) (2 ^ a.bits) with hno | hwrap
    · rw [a.word_of_lt hno]
      exact Or.inr (by omega)
    · left
      unfold Arch.word
      rw [Nat.mod_eq_sub_mod hwrap, Nat.mod_eq_of_lt (by omega)]
      omega

theorem fit_none {head brk : Nat} (hb : Blocks a m head brk l) (hne : l ≠ [])
    (hfit : loop (fitTurn a m size) walkBound head = some (false, b)) :
    ∀ x ∈ l, freeAt a m x ≠ 0 → sizeAt a m x < size := by
  obtain ⟨xs, hl, -⟩ := (hb.head_eq).resolve_left (fun hnil => hne hnil.1)
  have hhead : head ∈ l ∧ ∀ x ∈ l, head ≤ x := by
    refine ⟨by rw [hl]; exact List.mem_cons_self, fun x hx => ?_⟩
    have hbase := ((hb.head_eq).resolve_left (fun hnil => hne hnil.1))
    obtain ⟨-, -, hbase⟩ := hbase
    rw [hbase]
    exact (hb.le_break hx).1
  refine loop_post (I := fun q => q ∈ l ∧ ∀ x ∈ l, x < q → freeAt a m x ≠ 0 → sizeAt a m x < size)
    (Q := fun r => r.1 = false → ∀ x ∈ l, freeAt a m x ≠ 0 → sizeAt a m x < size) ?_ ?_
    ⟨hhead.1, fun x hx hlt => absurd (hhead.2 x hx) (Nat.not_le.2 hlt)⟩ hfit rfl
  · rintro q r ⟨hq, hbefore⟩ hstep
    refine ⟨(fitTurn_inl hb hq hstep).1, fun x hx hlt hf => ?_⟩
    unfold fitTurn at hstep
    rw [if_neg (hb.ne_zero hq)] at hstep
    split at hstep
    case isTrue => cases hstep
    case isFalse hnofit =>
      split at hstep
      case isTrue => cases hstep
      case isFalse hnext =>
        injection hstep with hstep
        rcases hb.tiles.next_cases hq with ⟨-, -, h0, -⟩ | ⟨ws, d, ys, hl', hd, -⟩
        · exact absurd h0 hnext
        · have hr : r = d := hstep.symm.trans hd
          rw [hr] at hlt
          rcases Nat.lt_trichotomy x q with hxq | rfl | hxq
          · exact hbefore x hx hxq hf
          · exact Nat.lt_of_not_le (fun hle => hnofit ⟨hf, hle⟩)
          · -- between two neighbours there is no block
            exfalso
            have hb' := hb
            rw [hl'] at hb' hx
            rcases List.mem_append.1 hx with hxs | hxs
            · have := hb'.tiles.before hxs
              have := lenAt_pos a m x
              omega
            · rcases List.mem_cons.1 hxs with rfl | hxs
              · exact Nat.lt_irrefl _ hxq
              · rcases List.mem_cons.1 hxs with rfl | hxs
                · exact Nat.lt_irrefl _ hlt
                · have hb'' := hb'
                  rw [List.append_cons] at hb''
                  have := hb''.tiles.behind hxs
                  have := lenAt_pos a m d
                  omega
  · rintro q r ⟨hq, hbefore⟩ hstep hfalse x hx hf
    obtain ⟨hr, -, hlast⟩ := fitTurn_inr hb hq hstep
    obtain ⟨ws, hl', -⟩ := hlast hfalse
    unfold fitTurn at hstep
    rw [if_neg (hb.ne_zero hq)] at hstep
    split at hstep
    case isTrue =>
      injection hstep with hstep
      rw [← hstep] at hfalse
      cases hfalse
    case isFalse hnofit =>
      split at hstep
      case isFalse => cases hstep
      case isTrue =>
        injection hstep with hstep
        subst hstep
        rw [hl'] at hx
        rcases List.mem_append.1 hx with hxs | hxs
        · have hb' := hb
          rw [hl'] at hb'
          have h1 := hb'.tiles.before hxs
          have h2 := lenAt_pos a m x
          have h3 := a.blockSize_le
          exact hbefore x (by rw [hl']; exact List.mem_append_left _ hxs) (by dsimp only at h1; omega) hf
        · rw [List.mem_singleton.1 hxs] at hf ⊢
          exact Nat.lt_of_not_le (fun hle => hnofit ⟨hf, hle⟩)

/-- **What `malloc` answers to a request that is larger than the arena.** -/
inductive LargeAnswer (a : Arch) (frames : Nat → Option Mem) (h : Heap) (l : List Nat) (size : Nat) : Nat → Heap → Prop
  /-- NULL, and nothing has changed. -/
  | refused (hno : ∀ x ∈ l, freeAt a h.mem x ≠ 0 → sizeAt a h.mem x < size)
      (hgrow : GrowRefused a frames (a.word (a.blockSize + size)) h) : LargeAnswer a frames h l size 0 h
  /-- The first block. -/
  | first (h' : Heap) (hl : l = []) (hgrow : ¬GrowRefused a frames (a.word (a.blockSize + size)) h)
      (hin : h'.heapBreak ≤ a.heapBase + heapSize) : LargeAnswer a frames h l size (a.heapBase + a.blockSize) h'
  /-- A free block, whatever its size. -/
  | taken (b : Nat) (hb : b ∈ l) (hf : freeAt a h.mem b ≠ 0) (hsize : size ≤ sizeAt a h.mem b) :
      LargeAnswer a frames h l size (b + a.blockSize) { h with mem := takeBlock a b size h.mem }
  /-- A block behind the last one, where the break was. -/
  | behind (b : Nat) (h' : Heap) (hb : b ∈ l) (hmove : BreakMoved a h h')
      (hgrow : ¬GrowRefused a frames (a.word (a.blockSize + size)) h) :
      LargeAnswer a frames h l size (h.heapBreak + a.blockSize)
        { h' with mem := setNext a b h.heapBreak (newLast a h.heapBreak size h'.mem) }

theorem malloc_large (frames : Nat → Option Mem) (hg : Good a h l) (hn : heapSize < n) (hlt : n < 2 ^ a.bits) :
    ∃ r h', malloc a frames n h = some (r, h') ∧ LargeAnswer a frames h l (align16 a n) r h' := by
  have hnb : h.heapBreak ≠ a.noBreak := by
    have := hg.mapped
    have := hg.ending
    have := a.arena_lt
    unfold Arch.noBreak
    omega
  have hsbrk := @sbrk_word a h l frames _ _ hg rfl (word_large hn hlt)
  unfold malloc
  rw [if_neg (by omega)]
  dsimp only
  rcases hg.blocks.head_eq with ⟨rfl, hhead, -⟩ | ⟨xs, hl, hbase⟩
  · rw [if_pos hhead]
    rcases hsbrk with ⟨hgrow, hr⟩ | ⟨hgrow, h', hr, hmove⟩
    · rw [hr]
      dsimp only
      rw [if_pos rfl]
      exact ⟨0, h, rfl, .refused (fun x hx => by cases hx) hgrow⟩
    · rw [hr]
      dsimp only
      rw [if_neg hnb]
      exact ⟨_, _, rfl, .first _ rfl hgrow hmove.inside⟩
  · have hhead : h.head ≠ 0 := by
      rw [hbase]
      exact Nat.ne_of_gt a.heapBase_pos
    have hne : l ≠ [] := by
      rw [hl]
      exact List.cons_ne_nil _ _
    rw [if_neg hhead]
    obtain ⟨found, b, hfit, hb, hyes, hno⟩ := fit_spec (n := align16 a n) hg.blocks hne
    rw [hfit]
    cases found with
    | true =>
      obtain ⟨hf, hle⟩ := hyes rfl
      exact ⟨_, _, rfl, .taken b hb hf hle⟩
    | false =>
      obtain ⟨-, -, hend⟩ := hno rfl
      have haddr : b + a.blockSize + sizeAt a h.mem b = h.heapBreak := by
        unfold lenAt at hend
        omega
      dsimp only
      rcases hsbrk with ⟨hgrow, hr⟩ | ⟨hgrow, h', hr, hmove⟩
      · rw [hr]
        dsimp only
        rw [if_pos (Or.inl rfl)]
        exact ⟨0, h, rfl, .refused (fit_none hg.blocks hne hfit) hgrow⟩
      · rw [hr, haddr]
        dsimp only
        rw [if_neg (by rintro (h' | h') <;> contradiction)]
        exact ⟨_, _, rfl, .behind b h' hb hmove hgrow⟩

theorem malloc_cases (frames : Nat → Option Mem) (hg : Good a h l) (hn : heapSize < n) (hlt : n < 2 ^ a.bits) :
    RequestFits a frames n h ∧ malloc a frames n h = some (0, h) ∨
      ¬RequestFits a frames n h ∧ ∃ r h', malloc a frames n h = some (r, h') ∧ r ≠ 0 ∧
        h'.heapBreak ≤ a.heapBase + heapSize := by
  have hbs := a.blockSize_le
  obtain ⟨r, h', hmalloc, hanswer⟩ := malloc_large frames hg hn hlt
  have hno : ∀ {P : Prop}, n ≤ heapSize → P := fun hle => absurd hn (Nat.not_lt.2 hle)
  cases hanswer with
  | refused hfree hgrow =>
    exact Or.inl ⟨Or.inr ⟨fun b hb hf => hfree b ((onList_iff hg.blocks).1 hb) hf, hgrow⟩, hmalloc⟩
  | first h' hl hgrow hin =>
    exact Or.inr ⟨fun hfit => hfit.elim hno (fun hr => hgrow hr.2), _, _, hmalloc, by omega, hin⟩
  | taken b hb hf hsize =>
    refine Or.inr ⟨fun hfit => hfit.elim hno (fun hr => ?_), _, _, hmalloc, by omega, hg.blocks.inside⟩
    have hlt := hr.1 b ((onList_iff hg.blocks).2 hb) hf
    exact absurd hsize (Nat.not_le.2 hlt)
  | behind b h' hb hmove hgrow =>
    exact Or.inr ⟨fun hfit => hfit.elim hno (fun hr => hgrow hr.2), _, _, hmalloc, by omega, hmove.inside⟩

/-! ## `free` behind such a request -/

/-- **The links of the blocks of `l` lead upwards**, and no header lies in another; the sizes may be anything. -/
structure Upward (a : Arch) (m : Mem) (l : List Nat) : Prop where
  next : ∀ b ∈ l, nextAt a m b = 0 ∨ nextAt a m b ∈ l ∧ b + a.blockSize ≤ nextAt a m b
  apart : ∀ b ∈ l, ∀ c ∈ l, c ≠ b → c + a.blockSize ≤ b ∨ b + a.blockSize ≤ c

theorem Blocks.upward {head brk : Nat} (hb : Blocks a m head brk l) : Upward a m l := by
  refine ⟨fun b hmem => ?_, fun b hmem c hc hne => ?_⟩
  · rcases hb.tiles.next_cases hmem with ⟨-, -, h0, -⟩ | ⟨xs, c, ys, hl, hn, hlen⟩
    · exact Or.inl h0
    · have hpos := lenAt_pos a m b
      refine Or.inr ⟨?_, by omega⟩
      rw [hn, hl]
      simp
  · have hap := hb.apart hmem hc hne
    have h1 := lenAt_pos a m b
    have h2 := lenAt_pos a m c
    omega

theorem Upward.header {m' : Mem} (hu : Upward a m l) (hb : b ∈ l) (hw : Within b (b + a.blockSize) m m')
    (hn : nextAt a m' b = 0 ∨ nextAt a m' b ∈ l ∧ b + a.blockSize ≤ nextAt a m' b) : Upward a m' l := by
  refine ⟨fun c hc => ?_, hu.apart⟩
  by_cases hcb : c = b
  · subst hcb
    exact hn
  · rw [(header_within hw (hu.apart b hb c hc hcb)).2.1]
    exact hu.next c hc

theorem Upward.absorb {c : Nat} (hu : Upward a m l) (hb : b ∈ l) (hc : c ∈ l) (hbc : b + a.blockSize ≤ c) :
    Upward a (absorb a b c m) l := by
  have hlt : nextAt a m c < 2 ^ a.bits := a.pow_wordBytes ▸ load_lt _ _ _
  have hnext : nextAt a (setSize a b (sizeAt a m b + a.blockSize + sizeAt a m c) m) c = nextAt a m c :=
    (header_within (within_setSize (m := m)) (Or.inr hbc)).2.1
  refine hu.header hb (within_setSize.trans within_setNext) ?_
  unfold Mm.absorb
  dsimp only
  rw [hnext, nextAt_setNext hlt]
  rcases hu.next c hc with h0 | ⟨hmem, hle⟩
  · exact Or.inl h0
  · exact Or.inr ⟨hmem, by omega⟩

theorem Upward.freeBlock (hu : Upward a m l) (hb : b ∈ l) : Upward a (freeBlock a b m) l := by
  have hset : Upward a (setFree a b 1 m) l := hu.header hb within_setFree (by
    rw [nextAt_setFree]
    exact hu.next b hb)
  unfold Mm.freeBlock
  dsimp only
  split
  case isTrue hfree =>
    obtain ⟨hmem, hle⟩ := (hset.next b hb).resolve_left hfree.1
    exact hset.absorb hb hmem hle
  case isFalse => exact hset

theorem Upward.snoc {m' : Mem} {brk : Nat} (hu : Upward a m l) (hin : ∀ b ∈ l, b + a.blockSize ≤ brk)
    (hlow : ∀ i, i < brk → m' i = m i) (hn : nextAt a m' brk = 0) : Upward a m' (l ++ [brk]) := by
  have hbs := a.header_le
  refine ⟨fun b hb => ?_, fun b hb c hc hne => ?_⟩
  · rcases List.mem_append.1 hb with hb | hb
    · have hsame : nextAt a m' b = nextAt a m b := load_congr (fun i _ _ => hlow i (by have := hin b hb; omega))
      rw [hsame]
      exact (hu.next b hb).imp id (fun hc => ⟨List.mem_append_left _ hc.1, hc.2⟩)
    · rw [List.mem_singleton.1 hb]
      exact Or.inl hn
  · rcases List.mem_append.1 hb with hb | hb <;> rcases List.mem_append.1 hc with hc | hc
    · exact hu.apart b hb c hc hne
    · rw [List.mem_singleton.1 hc]
      exact Or.inr (hin b hb)
    · rw [List.mem_singleton.1 hb]
      exact Or.inl (hin c hc)
    · exact absurd ((List.mem_singleton.1 hc).trans (List.mem_singleton.1 hb).symm) hne

theorem free_answers {ptr : Nat} (hu : Upward a h.mem l) (hin : ∀ b ∈ l, a.heapBase ≤ b ∧ b ≤ a.heapBase + heapSize)
    (hhead : h.head ∈ l) (hptr : ptr - a.blockSize ∈ l) :
    ∃ h', free a ptr h = some h' ∧ h'.heapBreak = h.heapBreak := by
  have hbs := a.blockSize_le
  have hpos := a.heapBase_pos
  have hfree := hu.freeBlock hptr
  have hbig : heapSize / 16 + 1 < walkBound := by decide
  obtain ⟨prev, hprev⟩ : ∃ r, loop (prevTurn a (freeBlock a (ptr - a.blockSize) h.mem) (ptr - a.blockSize)) walkBound
      h.head = some r := by
    refine loop_total (I := fun q => q = 0 ∨ q ∈ l)
      (μ := fun q => if q = 0 then 0 else (a.heapBase + heapSize - q) / 16 + 1) (fun q r hq hstep => ?_)
      (Or.inr hhead) ?_
    · unfold prevTurn at hstep
      split at hstep
      case isFalse => cases hstep
      case isTrue hne =>
        injection hstep with hstep
        subst hstep
        have hq := hq.resolve_left hne.1
        have hqin := hin q hq
        rcases hfree.next q hq with h0 | ⟨hmem, hle⟩
        · rw [h0, if_pos rfl, if_neg hne.1]
          exact ⟨Or.inl rfl, by omega⟩
        · have hnin := hin _ hmem
          rw [if_neg (by omega), if_neg hne.1]
          exact ⟨Or.inr hmem, by omega⟩
    · have := hin _ hhead
      rw [if_neg (by omega)]
      omega
  unfold free
  dsimp only
  rw [hprev]
  split
  case isTrue => exact ⟨h, rfl, rfl⟩
  case isFalse =>
    split
    case isTrue => exact ⟨h, rfl, rfl⟩
    case isFalse =>
      split
      case isTrue => exact ⟨h, rfl, rfl⟩
      case isFalse =>
        split
        case isTrue => exact ⟨h, rfl, rfl⟩
        case isFalse => exact ⟨_, rfl, rfl⟩

theorem Upward.behind {m' : Mem} {lo hi : Nat} (hu : Upward a m l) (hin : ∀ b ∈ l, b + a.blockSize ≤ lo)
    (hw : Within lo hi m m') : Upward a m' l := by
  refine ⟨fun b hb => ?_, hu.apart⟩
  rw [(header_within hw (Or.inl (hin b hb))).2.1]
  exact hu.next b hb

theorem BreakMoved.upward (hg : Good a h l) (hmove : BreakMoved a h h') (hb : b ∈ l) (hsize : size < 2 ^ a.bits) :
    Upward a (setNext a b h.heapBreak (newLast a h.heapBreak size h'.mem)) (l ++ [h.heapBreak]) := by
  have hpos := lenAt_pos a h.mem
  have hin : ∀ x ∈ l, x + a.blockSize ≤ h.heapBreak := fun x hx => by
    have := hg.blocks.le_break hx
    have := hpos x
    omega
  have hlt : h.heapBreak < 2 ^ a.bits := by
    have := hg.blocks.inside
    have := a.arena_lt
    omega
  obtain ⟨hw, -, hn, -⟩ := newLast_spec (m := h'.mem) (c := h.heapBreak) hsize
  have hsnoc : Upward a (newLast a h.heapBreak size h'.mem) (l ++ [h.heapBreak]) :=
    hg.blocks.upward.snoc hin
      (fun i hi => (hw i (Or.inl hi)).trans (hmove.mem i (Nat.lt_of_lt_of_le hi hg.mapped))) hn
  refine hsnoc.header (List.mem_append_left _ hb) within_setNext (Or.inr ?_)
  rw [nextAt_setNext hlt]
  exact ⟨List.mem_append_right _ (List.mem_singleton_self _), hin b hb⟩

theorem BreakMoved.freed {c : Nat} (hg : Good a h l) (hmove : BreakMoved a h h') (hc : c ∈ l) (hb : b ∈ l)
    (hsize : size < 2 ^ a.bits) :
    let m := setNext a c h.heapBreak (newLast a h.heapBreak size h'.mem)
    ∃ h2, free a (b + a.blockSize)
      { h' with mem := copy m (h.heapBreak + a.blockSize) m (b + a.blockSize) (sizeAt a h.mem b) } = some h2 ∧
        h2.heapBreak = h'.heapBreak := by
  intro m
  have hpos := lenAt_pos a h.mem
  have hup : Upward a m (l ++ [h.heapBreak]) := hmove.upward hg hc hsize
  have hmem : ∀ x ∈ l ++ [h.heapBreak], a.heapBase ≤ x ∧ x ≤ h.heapBreak := by
    intro x hx
    rcases List.mem_append.1 hx with hx | hx
    · have := hg.blocks.le_break hx
      omega
    · rw [List.mem_singleton.1 hx]
      exact ⟨hg.base_le, Nat.le_refl _⟩
  have hinside := hg.blocks.inside
  refine @free_answers _ _ (l ++ [h.heapBreak]) _ (@Upward.behind _ _ _ _ (h.heapBreak + a.blockSize) _ hup
    (fun x hx => Nat.add_le_add_right (hmem x hx).2 _) (within_copy (Nat.le_refl _) (Nat.le_refl _)))
    (fun x hx => ⟨(hmem x hx).1, Nat.le_trans (hmem x hx).2 hinside⟩) ?_ ?_
  · refine List.mem_append_left _ ?_
    show h'.head ∈ l
    rw [hmove.head]
    rcases hg.blocks.head_eq with ⟨rfl, -⟩ | ⟨xs, hl, -⟩
    · cases hb
    · rw [hl]
      exact List.mem_cons_self
  · rw [Nat.add_sub_cancel]
    exact List.mem_append_left _ hb

theorem align16_again (h16 : 16 ∣ size) (hmax : size + 16 ≤ 2 ^ a.bits) : align16 a size = size := by
  unfold align16
  rw [a.word_of_lt (by omega)]
  omega

/-- **A `realloc` to more than the arena** is refused, or a pointer comes back although the break is inside it: the size
has wrapped to 0, or the block was moved to one that is not there. -/
theorem realloc_cases (frames : Nat → Option Mem) (hg : Good a h l) (hu : Used a h.mem l b) (hn : heapSize < n)
    (hlt : n < 2 ^ a.bits) :
    (n + 15 < 2 ^ a.bits ∧ RequestFits a frames n h) ∧ realloc a frames (b + a.blockSize) n h = some (0, h) ∨
      ¬(n + 15 < 2 ^ a.bits ∧ RequestFits a frames n h) ∧ ∃ r h', realloc a frames (b + a.blockSize) n h = some (r, h') ∧
        r ≠ 0 ∧ h'.heapBreak ≤ a.heapBase + heapSize := by
  have hbs := a.blockSize_le
  obtain ⟨hp0, -, hpb, hin⟩ := hg.ptr_ok hu.mem
  obtain ⟨h16, hmax, hcase⟩ := align16_large hn hlt
  have hinside := hg.blocks.inside
  have hb := hg.blocks.le_break hu.mem
  have hlen : lenAt a h.mem b = a.blockSize + sizeAt a h.mem b := rfl
  unfold realloc
  rw [if_neg hp0, if_neg (by omega), hpb]
  dsimp only
  rw [if_neg hin]
  rcases hcase with ⟨hwrap, h0⟩ | ⟨hno, hle⟩
  · -- the size has wrapped to 0
    rw [h0, if_pos (Nat.zero_le _)]
    exact Or.inr ⟨fun hfit => by omega, _, _, rfl, hp0, hinside⟩
  · have hcomb : ¬(nextAt a h.mem b ≠ 0 ∧ freeAt a h.mem (nextAt a h.mem b) ≠ 0 ∧
        align16 a n ≤ a.word (sizeAt a h.mem b + a.blockSize + sizeAt a h.mem (nextAt a h.mem b))) := by
      rintro ⟨hnext, -, hsum⟩
      rcases hg.blocks.tiles.next_cases hu.mem with ⟨-, -, hz, -⟩ | ⟨xs, c, ys, hl, hc, hbc⟩
      · exact hnext hz
      · have hcin := hg.blocks.le_break (b := c) (by rw [hl]; simp)
        have hclen : lenAt a h.mem c = a.blockSize + sizeAt a h.mem c := rfl
        have hword : a.word (sizeAt a h.mem b + a.blockSize + sizeAt a h.mem c) ≤
            sizeAt a h.mem b + a.blockSize + sizeAt a h.mem c := Nat.mod_le _ _
        rw [hc] at hsum
        omega
    rw [if_neg (by omega), if_neg hcomb]
    have hagain : align16 a (align16 a n) = align16 a n := align16_again h16 hmax
    obtain ⟨r, h', hmalloc, hanswer⟩ := malloc_large frames hg (n := align16 a n) (by omega) (by omega)
    rw [hagain] at hanswer
    rw [hmalloc]
    dsimp only
    cases hanswer with
    | refused hfree hgrow =>
      refine Or.inl ⟨⟨hno, Or.inr ⟨fun x hx hf => hfree x ((onList_iff hg.blocks).1 hx) hf, hgrow⟩⟩, ?_⟩
      rw [if_pos rfl]
    | first h' hl =>
      have hmem := hu.mem
      rw [hl] at hmem
      cases hmem
    | taken c hc hf hsize =>
      have hcin := hg.blocks.le_break hc
      have hclen : lenAt a h.mem c = a.blockSize + sizeAt a h.mem c := rfl
      omega
    | behind c h' hc hmove hgrow =>
      right
      refine ⟨fun hfit => hfit.2.elim (fun hle => by omega) (fun hr => hgrow hr.2), ?_⟩
      obtain ⟨h2, hfree, hbreak⟩ := hmove.freed hg hc hu.mem (show align16 a n < 2 ^ a.bits by omega)
      rw [if_neg (by omega), hfree]
      exact ⟨_, _, rfl, by omega, hbreak ▸ hmove.inside⟩

/-! ## The break after a legal call -/

theorem malloc_break (hg : Good a h l) (hn : n ≤ heapSize) (hmalloc : malloc a frames n h = some (r, h')) :
    h.heapBreak ≤ h'.heapBreak := by
  have hbs := a.blockSize_le
  have hsize : 32 ≤ heapSize := by decide
  obtain ⟨-, -, hmax⟩ := align16_spec (a := a) hn
  obtain ⟨h1, hgrown, hsbrk⟩ := sbrkLocked_spec frames (n := a.blockSize + align16 a n) hg.base_le hg.mapped
    hg.ending hg.page (by omega) (by omega)
  have hmoved : ∀ {q h2}, sbrkLocked a frames (a.signed (a.blockSize + align16 a n)) h = some (q, h2) →
      h.heapBreak ≤ h2.heapBreak := by
    intro q h2 hs
    rcases hsbrk with hfail | ⟨-, hok⟩
    · rw [hfail] at hs
      injection hs with hs
      injection hs with _ hs
      exact hs ▸ Nat.le_of_eq hgrown.heapBreak.symm
    · rw [hok] at hs
      injection hs with hs
      injection hs with _ hs
      subst hs
      exact Nat.le_add_right _ _
  unfold malloc at hmalloc
  dsimp only at hmalloc
  split at hmalloc
  case isTrue =>
    injection hmalloc with he
    injection he with _ he
    exact he ▸ Nat.le_refl _
  case isFalse =>
    split at hmalloc
    case isTrue =>
      -- the first block
      split at hmalloc
      case h_1 => cases hmalloc
      case h_2 q h2 hs =>
        have hle := hmoved hs
        split at hmalloc
        all_goals
          injection hmalloc with he
          injection he with _ he
          subst he
          exact hle
    case isFalse =>
      split at hmalloc
      case h_1 => cases hmalloc
      case h_2 =>
        injection hmalloc with he
        injection he with _ he
        subst he
        exact Nat.le_refl _
      case h_3 =>
        -- a block behind the last one
        split at hmalloc
        case h_1 => cases hmalloc
        case h_2 q h2 hs =>
          have hle := hmoved hs
          split at hmalloc
          all_goals
            injection hmalloc with he
            injection he with _ he
            subst he
            exact hle

theorem free_break {ptr : Nat} (hfree : free a ptr h = some h') : h'.heapBreak = h.heapBreak := by
  unfold free at hfree
  dsimp only at hfree
  split at hfree
  case isTrue =>
    injection hfree with he
    exact he ▸ rfl
  case isFalse =>
    split at hfree
    case isTrue =>
      injection hfree with he
      exact he ▸ rfl
    case isFalse =>
      split at hfree
      case isTrue =>
        injection hfree with he
        exact he ▸ rfl
      case isFalse =>
        split at hfree
        case isTrue =>
          injection hfree with he
          exact he ▸ rfl
        case isFalse =>
          split at hfree
          case h_1 => cases hfree
          case h_2 =>
            injection hfree with he
            exact he ▸ rfl

theorem calloc_break {num size : Nat} (hg : Good a h l) (hn : num * size ≤ heapSize ∨ 2 ^ a.bits ≤ num * size)
    (hcalloc : calloc a frames num size h = some (r, h')) : h.heapBreak ≤ h'.heapBreak := by
  have hself : ∀ {q : Nat}, some (q, h) = some (r, h') → h.heapBreak ≤ h'.heapBreak := by
    intro q he
    injection he with he
    injection he with _ he
    exact he ▸ Nat.le_refl _
  unfold calloc at hcalloc
  split at hcalloc
  case isTrue => exact hself hcalloc
  case isFalse h0 =>
    split at hcalloc
    case isTrue => exact hself hcalloc
    case isFalse hdiv =>
      have hlt : num * size < 2 ^ a.bits := by
        rw [Nat.div_lt_iff_lt_mul (by omega), Nat.mul_comm size num] at hdiv
        have := Nat.two_pow_pos a.bits
        omega
      dsimp only at hcalloc
      split at hcalloc
      case h_1 => cases hcalloc
      case h_2 q h2 hs =>
        have hle := malloc_break hg (hn.resolve_right (Nat.not_le.2 hlt)) hs
        split at hcalloc
        all_goals
          injection hcalloc with he
          injection he with _ he
          subst he
          exact hle

theorem realloc_break {ptr : Nat} (hg : Good a h l) (hn : n ≤ heapSize)
    (hrealloc : realloc a frames ptr n h = some (r, h')) : h.heapBreak ≤ h'.heapBreak := by
  unfold realloc at hrealloc
  dsimp only at hrealloc
  split at hrealloc
  case isTrue => exact malloc_break hg hn hrealloc
  case isFalse =>
    split at hrealloc
    case isTrue =>
      obtain ⟨h2, hfree, he⟩ := Option.map_eq_some_iff.1 hrealloc
      injection he with _ he
      exact he ▸ Nat.le_of_eq (free_break hfree).symm
    case isFalse =>
      split at hrealloc
      case isTrue =>
        injection hrealloc with he
        injection he with _ he
        exact he ▸ Nat.le_refl _
      case isFalse =>
        split at hrealloc
        case isTrue =>
          injection hrealloc with he
          injection he with _ he
          exact he ▸ Nat.le_refl _
        case isFalse =>
          split at hrealloc
          case isTrue =>
            injection hrealloc with he
            injection he with _ he
            exact he ▸ Nat.le_refl _
          case isFalse =>
            -- the block is moved
            split at hrealloc
            case h_1 => cases hrealloc
            case h_2 q h2 hs =>
              have hle := malloc_break hg (align16_spec hn).2.2 hs
              split at hrealloc
              case isTrue =>
                injection hrealloc with he
                injection he with _ he
                exact he ▸ hle
              case isFalse =>
                obtain ⟨h3, hfree, he⟩ := Option.map_eq_some_iff.1 hrealloc
                injection he with _ he
                exact he ▸ Nat.le_trans hle (Nat.le_of_eq (free_break hfree).symm)

theorem exec_break {c : HeapCall} (hs : Held a s l) (hc : c.Legal a s) (hexec : c.exec a s.heap = some (r, h)) :
    s.heap.heapBreak ≤ h.heapBreak := by
  cases c with
  | malloc size frames => exact malloc_break hs.good hc hexec
  | free ptr =>
    obtain ⟨h2, hfree, he⟩ := Option.map_eq_some_iff.1 hexec
    injection he with _ he
    exact he ▸ Nat.le_of_eq (free_break hfree).symm
  | calloc num size frames => exact calloc_break hs.good hc.2.2 hexec
  | realloc ptr size frames => exact realloc_break hs.good hc.1 hexec
  | write addr x =>
    injection hexec with he
    injection he with _ he
    exact he ▸ Nat.le_refl _

/-! ## One call -/

theorem Held.served {s' : HeapState} (hs : Held a s' l) (hlive : ⟨r, n⟩ ∈ s'.live)
    (hbrk : s.heap.heapBreak ≤ s'.heap.heapBreak) : Served a s s' n r := by
  obtain ⟨b, hr, hu, hn⟩ := hs.block _ hlive
  have hr : r = b + a.blockSize := hr
  have hn : n ≤ sizeAt a s'.heap.mem b := hn
  have hb := hs.good.blocks.le_break hu.mem
  have hlen : lenAt a s'.heap.mem b = a.blockSize + sizeAt a s'.heap.mem b := rfl
  refine ⟨?_, by omega, by omega, hbrk, fun x hx hne => ?_⟩
  · rw [hr, Nat.add_sub_cancel]
    exact hn
  · obtain ⟨c, hxc, huc, -⟩ := hs.block x hx
    have hcb : c ≠ b := fun he => hne (by rw [hxc, hr, he])
    have hap := hs.good.blocks.apart hu.mem huc.mem hcb
    have hclen : lenAt a s'.heap.mem c = a.blockSize + sizeAt a s'.heap.mem c := rfl
    unfold Alloc.payload
    rw [hxc, Nat.add_sub_cancel]
    omega

theorem mem_hold {c : HeapCall} {live : List Alloc} (hn : c.request = some n) (hr : r ≠ 0) : ⟨r, n⟩ ∈ c.hold r live := by
  have hgain : ∀ live : List Alloc, ⟨r, n⟩ ∈ gain r n live := fun live => by
    unfold gain
    rw [if_neg hr]
    exact List.mem_cons_self
  cases c with
  | malloc size frames =>
    injection hn with hn
    exact hn ▸ hgain live
  | free ptr => cases hn
  | calloc num size frames =>
    injection hn with hn
    subst hn
    exact hgain live
  | realloc ptr size frames =>
    injection hn with hn
    subst hn
    show (⟨r, size⟩ : Alloc) ∈ if r = 0 ∧ size ≠ 0 then live else gain r size (dropPtr ptr live)
    rw [if_neg (fun h' => hr h'.1)]
    exact hgain _
  | write addr x => cases hn

theorem legal_right {c : HeapCall} (hs : Held a s l) (hc : c.Legal a s) :
    c.SizeFits a s.heap ∧ c.SizeRight a s := by
  have hword : heapSize + 15 < 2 ^ a.bits := by
    have := a.base_half
    omega
  refine ⟨?_, fun n hn r hr h0 => ?_⟩
  · cases c with
    | malloc size frames => exact Or.inl hc
    | free ptr => trivial
    | calloc num size frames => exact fun hlt => Or.inl (hc.2.2.resolve_right (Nat.not_le.2 hlt))
    | realloc ptr size frames =>
      have hsize : size ≤ heapSize := hc.1
      exact ⟨fun _ => by omega, Or.inl hsize⟩
    | write addr x => trivial
  · obtain ⟨⟨l', hs'⟩, hkeeps⟩ := call_ok hs hc
    obtain ⟨q, hq⟩ := hkeeps.answers
    cases hexec : c.exec a s.heap with
    | none =>
      unfold HeapCall.step at hq
      rw [hexec] at hq
      cases hq
    | some p =>
      obtain ⟨r', h⟩ := p
      have hstep := step_of_exec (s := s) hexec
      have hbrk := exec_break hs hc hexec
      rw [hstep] at hr hs' ⊢
      injection hr with hr
      subst hr
      exact hs'.served (mem_hold hn h0) hbrk

/-- **A call that is not legal** asks for more than the arena: either it is refused and nothing has changed, or a pointer
comes back although the break is inside the arena. -/
theorem illegal_step {c : HeapCall} (hs : Held a s l) (hc : c.Takes a s) (hno : ¬c.Legal a s) :
    c.SizeFits a s.heap ∧ c.step a s = (some 0, s) ∨
      ¬c.SizeFits a s.heap ∧ ∃ n r s', c.request = some n ∧ heapSize < n ∧ c.step a s = (some r, s') ∧ r ≠ 0 ∧
        s'.heap.heapBreak ≤ a.heapBase + heapSize := by
  cases c with
  | malloc n frames =>
    have hn : heapSize < n := Nat.lt_of_not_le hno
    rcases malloc_cases frames hs.good hn hc with ⟨hfit, hr⟩ | ⟨hfit, r, h', hr, h0, hin⟩
    · exact Or.inl ⟨hfit, step_of_exec (c := .malloc n frames) hr⟩
    · exact Or.inr ⟨hfit, n, r, _, rfl, hn, step_of_exec (c := .malloc n frames) hr, h0, hin⟩
  | free ptr => exact absurd hc hno
  | calloc num size frames =>
    obtain ⟨h1, h2⟩ := hc
    have hboth : heapSize < num * size ∧ num * size < 2 ^ a.bits := by
      by_contra hcon
      exact hno ⟨h1, h2, by omega⟩
    obtain ⟨hn, hlt⟩ := hboth
    have h0 : ¬(num = 0 ∨ size = 0) := by
      rintro (rfl | rfl) <;> simp at hn
    have hdiv : ¬(2 ^ a.bits - 1) / num < size := by
      rw [Nat.div_lt_iff_lt_mul (by omega), Nat.mul_comm size num]
      omega
    rcases malloc_cases frames hs.good hn hlt with ⟨hfit, hr⟩ | ⟨hfit, r, h', hr, hr0, hin⟩
    · have hexec : (HeapCall.calloc num size frames).exec a s.heap = some (0, s.heap) := by
        show calloc a frames num size s.heap = _
        unfold calloc
        rw [if_neg h0, if_neg hdiv]
        dsimp only
        rw [hr]
        rfl
      exact Or.inl ⟨fun _ => hfit, step_of_exec hexec⟩
    · have hexec : (HeapCall.calloc num size frames).exec a s.heap =
          some (r, { h' with mem := Bytes.fill h'.mem r (num * size) 0 }) := by
        show calloc a frames num size s.heap = _
        unfold calloc
        rw [if_neg h0, if_neg hdiv]
        dsimp only
        rw [hr]
        dsimp only
        rw [if_neg hr0]
      exact Or.inr ⟨fun hf => hfit (hf hlt), _, r, _, rfl, hn, step_of_exec hexec, hr0, hin⟩
  | realloc ptr n frames =>
    obtain ⟨hlt, hptr⟩ := hc
    have hn : heapSize < n := Nat.lt_of_not_le (fun hle => hno ⟨hle, hptr⟩)
    rcases hptr with rfl | ⟨x, hx, rfl⟩
    · rcases malloc_cases frames hs.good hn hlt with ⟨hfit, hr⟩ | ⟨hfit, r, h', hr, h0, hin⟩
      · have hstep := step_of_exec (s := s) (c := .realloc 0 n frames) hr
        refine Or.inl ⟨⟨fun hne => absurd rfl hne, hfit⟩, hstep.trans ?_⟩
        show (some 0, (⟨s.heap, if (0 : Nat) = 0 ∧ n ≠ 0 then s.live else gain 0 n (dropPtr 0 s.live)⟩ : HeapState)) = _
        rw [if_pos ⟨rfl, by omega⟩]
      · exact Or.inr ⟨fun hf => hfit hf.2, n, r, _, rfl, hn, step_of_exec (c := .realloc 0 n frames) hr, h0, hin⟩
    · obtain ⟨b, hpb, hu, -⟩ := hs.block x hx
      have hx0 : x.ptr ≠ 0 := by
        have := hs.good.blocks.ne_zero hu.mem
        omega
      rcases realloc_cases frames hs.good hu hn hlt with ⟨hfit, hr⟩ | ⟨hfit, r, h', hr, h0, hin⟩
      · rw [← hpb] at hr
        have hstep := step_of_exec (s := s) (c := .realloc x.ptr n frames) hr
        refine Or.inl ⟨⟨fun _ => hfit.1, hfit.2⟩, hstep.trans ?_⟩
        show (some 0, (⟨s.heap, if (0 : Nat) = 0 ∧ n ≠ 0 then s.live else gain 0 n (dropPtr x.ptr s.live)⟩ :
          HeapState)) = _
        rw [if_pos ⟨rfl, by omega⟩]
      · rw [← hpb] at hr
        exact Or.inr ⟨fun hf => hfit ⟨hf.1 hx0, hf.2⟩, n, r, _, rfl, hn,
          step_of_exec (c := .realloc x.ptr n frames) hr, h0, hin⟩
  | write addr x => exact absurd hc hno

theorem fits_held {c : HeapCall} (hs : Held a s l) (hc : c.Takes a s) (hf : c.SizeFits a s.heap) :
    ∃ l', Held a (c.step a s).2 l' := by
  by_cases hl : c.Legal a s
  · exact (call_ok hs hl).1
  · rcases illegal_step hs hc hl with ⟨-, hstep⟩ | ⟨hfit, -⟩
    · rw [hstep]
      exact ⟨l, hs⟩
    · exact absurd hf hfit

theorem sizeRight_iff {c : HeapCall} (hs : Held a s l) (hc : c.Takes a s) : c.SizeRight a s ↔ c.SizeFits a s.heap := by
  by_cases hl : c.Legal a s
  · obtain ⟨hf, hr⟩ := legal_right hs hl
    exact ⟨fun _ => hf, fun _ => hr⟩
  · rcases illegal_step hs hc hl with ⟨hfit, hstep⟩ | ⟨hfit, n, r, s', hn, hbig, hstep, h0, hin⟩
    · refine ⟨fun _ => hfit, fun _ n _ r hr h0 => absurd ?_ h0⟩
      rw [hstep] at hr
      injection hr with hr
      exact hr.symm
    · refine ⟨fun hright => ?_, fun hf => absurd hf hfit⟩
      have hserved := hright n hn r (by rw [hstep]) h0
      rw [hstep] at hserved
      have hinside : r + n ≤ s'.heap.heapBreak := hserved.inside
      have := hserved.low
      omega

/-! ## Every run -/

theorem heapAfter_fits {m : Mem} (h0 : heapInit a frames m = some h) {calls : List HeapCall}
    (hcalls : Allowed (HeapCall.step a) (fun _ s c => c.Takes a s ∧ c.SizeFits a s.heap) ⟨h, []⟩ calls) :
    ∃ l, Held a (heapAfter a h calls) l :=
  run_keeps (I := fun _ s => ∃ l, Held a s l)
    (fun _ s c ⟨_, hs⟩ hc => show ∃ l, Held a (HeapCall.step a s c).2 l from fits_held hs hc.1 hc.2)
    ⟨[], heapInit_held h0⟩ calls hcalls

/-- **Sizes do not wrap exactly when they fit**: in a run of calls whose sizes fit every pointer that is returned is
served, and in the state behind it a call serves what it returns if and only if its sizes fit too. -/
theorem sizes_right_iff {m : Mem} (h0 : heapInit a frames m = some h) {calls : List HeapCall}
    (hcalls : Allowed (HeapCall.step a) (fun _ s c => c.Takes a s ∧ c.SizeFits a s.heap) ⟨h, []⟩ calls) :
    (∀ before c after, calls = before ++ c :: after → c.SizeRight a (heapAfter a h before)) ∧
      ∀ c : HeapCall, c.Takes a (heapAfter a h calls) →
        (c.SizeRight a (heapAfter a h calls) ↔ c.SizeFits a (heapAfter a h calls).heap) := by
  constructor
  · rintro before c after rfl
    obtain ⟨l, hs⟩ := heapAfter_fits h0 hcalls.left
    exact (sizeRight_iff hs hcalls.last.1).2 hcalls.last.2
  · intro c hc
    obtain ⟨l, hs⟩ := heapAfter_fits h0 hcalls
    exact sizeRight_iff hs hc

end

/-- The heap of a build with 64-bit words after `heap_init`. -/
def bootHeap : Heap := (heapInit .x64 zeroFrames fun _ => 0).get heapInit_zeroFrames

theorem heapInit_bootHeap : heapInit .x64 zeroFrames (fun _ => 0) = some bootHeap := (Option.some_get _).symm

theorem sizes_right_iff_boot :
    (∀ before c after, [HeapCall.malloc 100 zeroFrames, .calloc 4 10 zeroFrames] = before ++ c :: after →
      c.SizeRight .x64 (heapAfter .x64 bootHeap before)) ∧
      ∀ c : HeapCall, c.Takes .x64 (heapAfter .x64 bootHeap [.malloc 100 zeroFrames, .calloc 4 10 zeroFrames]) →
        (c.SizeRight .x64 (heapAfter .x64 bootHeap [.malloc 100 zeroFrames, .calloc 4 10 zeroFrames]) ↔
          c.SizeFits .x64 (heapAfter .x64 bootHeap [.malloc 100 zeroFrames, .calloc 4 10 zeroFrames]).heap) := by
  refine sizes_right_iff heapInit_bootHeap (allowed_cons.2 ⟨⟨?_, Or.inl (by decide)⟩,
    allowed_cons.2 ⟨⟨⟨?_, ?_⟩, fun _ => Or.inl (by decide)⟩, allowed_nil _⟩⟩)
  · exact (by decide : 100 < 2 ^ Arch.bits .x64)
  · exact (by decide : 4 < 2 ^ Arch.bits .x64)
  · exact (by decide : 10 < 2 ^ Arch.bits .x64)

/-- **Sizes wrap**: right after `heap_init`, `malloc` of the largest size grants a block whose payload is empty. -/
theorem not_sizes_right : ¬∀ (a : Arch) (frames : Nat → Option Mem) (m : Mem) (h : Heap) (calls : List HeapCall)
    (c : HeapCall), heapInit a frames m = some h →
      Allowed (HeapCall.step a) (fun _ s c => c.Takes a s) ⟨h, []⟩ calls → c.Takes a (heapAfter a h calls) →
        c.SizeRight a (heapAfter a h calls) := by
  intro hall
  have hright := hall .x64 zeroFrames (fun _ => 0) bootHeap [] (.malloc (2 ^ 64 - 1) zeroFrames) heapInit_bootHeap
    (allowed_nil _) (by decide : 2 ^ 64 - 1 < 2 ^ Arch.bits .x64)
  have hr : (HeapCall.step .x64 (heapAfter .x64 bootHeap []) (.malloc (2 ^ 64 - 1) zeroFrames)).1 =
      some (Arch.heapBase .x64 + 32) := by decide
  have hbrk : (HeapCall.step .x64 (heapAfter .x64 bootHeap []) (.malloc (2 ^ 64 - 1) zeroFrames)).2.heap.heapBreak =
      Arch.heapBase .x64 + 32 := by decide
  have hinside := (hright _ rfl _ hr (by decide)).inside
  rw [hbrk] at hinside
  exact absurd hinside (by decide)

end Mm
end AmitX
