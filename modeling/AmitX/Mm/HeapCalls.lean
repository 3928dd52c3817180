import AmitX.Mm.HeapSpec
/-!
# HeapCalls — what each call of the heap does

`Good` is the invariant of the heap between two calls.  For `sbrk`, `malloc`, `free` and `realloc` there is one lemma
each: the call has an answer, the invariant holds again, and the blocks in use are kept.
-/
namespace AmitX
namespace Mm

open Loop Bytes Tiling

variable {a : Arch}

/-- **The invariant of the heap**: the blocks tile the arena up to the break, no two neighbours are both free, and the
break is in the pages that are mapped. -/
structure Good (a : Arch) (h : Heap) (l : List Nat) : Prop where
  blocks : Blocks a h.mem h.head h.heapBreak l
  joined : Joined a h.mem l
  mapped : h.heapBreak ≤ h.heapEnd
  ending : h.heapEnd ≤ a.heapBase + heapSize
  page : pageSize ∣ h.heapEnd

/-! ## The break -/

structure Grown (a : Arch) (h h' : Heap) : Prop where
  head : h'.head = h.head
  heapBreak : h'.heapBreak = h.heapBreak
  mono : h.heapEnd ≤ h'.heapEnd
  ending : h'.heapEnd ≤ a.heapBase + heapSize
  page : pageSize ∣ h'.heapEnd
  mem : ∀ i, i < h.heapEnd → h'.mem i = h.mem i

section

variable {h h' : Heap} {frames : Nat → Option Mem} {target n b : Nat} {l l' : List Nat}

theorem page_le {e : Nat} (he : pageSize ∣ e) (ht : pageSize ∣ target) (hlt : e < target) : e + pageSize ≤ target := by
  obtain ⟨i, rfl⟩ := he
  obtain ⟨j, rfl⟩ := ht
  have hij : i + 1 ≤ j := lt_of_mul_lt_mul_left hlt (Nat.zero_le _)
  calc pageSize * i + pageSize = pageSize * (i + 1) := (Nat.mul_succ _ _).symm
    _ ≤ pageSize * j := Nat.mul_le_mul_left _ hij

theorem commitTurn_grown {s s' : Nat × Heap} (hpage : pageSize ∣ target) (hin : target ≤ a.heapBase + heapSize)
    (hs : Grown a h s.2) (hstep : commitTurn frames target s = .inl s') :
    Grown a h s'.2 ∧ target - s'.2.heapEnd < target - s.2.heapEnd := by
  unfold commitTurn at hstep
  split at hstep
  case isTrue hlt =>
    have hle := page_le hs.page hpage hlt
    have hpos : 0 < pageSize := by decide
    split at hstep
    case h_1 => cases hstep
    case h_2 frame _ =>
      injection hstep with hstep
      subst hstep
      refine ⟨⟨hs.head, hs.heapBreak, ?_, ?_, Nat.dvd_add hs.page (Nat.dvd_refl _), fun i hi => ?_⟩, ?_⟩
      · exact Nat.le_trans hs.mono (Nat.le_add_right _ _)
      · exact Nat.le_trans hle hin
      · rw [← hs.mem i hi]
        exact copy_of_not (Or.inl (Nat.lt_of_lt_of_le hi hs.mono))
      · dsimp only
        omega
  case isFalse => cases hstep

theorem commitTurn_done {s : Nat × Heap} {r : Bool × Heap} (hstep : commitTurn frames target s = .inr r) :
    r.2 = s.2 ∧ (r.1 = true → target ≤ s.2.heapEnd) := by
  unfold commitTurn at hstep
  split at hstep
  case isTrue hlt =>
    split at hstep
    case h_1 =>
      injection hstep with hstep
      subst hstep
      exact ⟨rfl, fun he => by cases he⟩
    case h_2 => cases hstep
  case isFalse hge =>
    injection hstep with hstep
    subst hstep
    exact ⟨rfl, fun _ => Nat.le_of_not_lt hge⟩

theorem heapCommitTo_spec (frames : Nat → Option Mem) (hend : a.heapBase ≤ h.heapEnd) (hle : h.heapEnd ≤ a.heapBase + heapSize)
    (hp : pageSize ∣ h.heapEnd) (ht : pageSize ∣ target) (hin : target ≤ a.heapBase + heapSize) :
    ∃ ok h', heapCommitTo frames target h = some (ok, h') ∧ Grown a h h' ∧ (ok = true → target ≤ h'.heapEnd) := by
  have h0 : Grown a h (0, h).2 := ⟨rfl, rfl, Nat.le_refl _, hle, hp, fun _ _ => rfl⟩
  have hμ : target - (0, h).2.heapEnd < walkBound := by
    unfold walkBound
    dsimp only
    omega
  obtain ⟨⟨ok, h'⟩, hr⟩ : ∃ r, loop (commitTurn frames target) walkBound (0, h) = some r :=
    loop_total (I := fun s => Grown a h s.2) (fun s s' hs hstep => commitTurn_grown ht hin hs hstep) h0 hμ
  have hpost := loop_post (I := fun s => Grown a h s.2)
    (Q := fun r => Grown a h r.2 ∧ (r.1 = true → target ≤ r.2.heapEnd))
    (fun s s' hs hstep => (commitTurn_grown ht hin hs hstep).1) (fun s r hs hstep => ?_) h0 hr
  · exact ⟨ok, h', hr, hpost⟩
  · obtain ⟨he, hdone⟩ := commitTurn_done hstep
    rw [he]
    exact ⟨hs, hdone⟩

theorem signed_of_lt {n : Nat} (h : n < 2 ^ (a.bits - 1)) : a.signed n = n := by
  have hle : 2 ^ (a.bits - 1) ≤ 2 ^ a.bits := Nat.pow_le_pow_right (by decide) (Nat.sub_le _ _)
  unfold Arch.signed
  rw [a.word_of_lt (Nat.lt_of_lt_of_le h hle), if_pos h]

theorem Arch.half_lt (a : Arch) : 3 * heapSize < 2 ^ (a.bits - 1) := by cases a <;> decide

theorem sbrkLocked_spec (frames : Nat → Option Mem) (hbase : a.heapBase ≤ h.heapBreak) (hmap : h.heapBreak ≤ h.heapEnd)
    (hle : h.heapEnd ≤ a.heapBase + heapSize) (hp : pageSize ∣ h.heapEnd) (hn : 0 < n) (hn' : n ≤ 2 * heapSize) :
    ∃ h', Grown a h h' ∧ (sbrkLocked a frames (a.signed n) h = some (a.noBreak, h') ∨
      h.heapBreak + n ≤ h'.heapEnd ∧
        sbrkLocked a frames (a.signed n) h = some (h.heapBreak, { h' with heapBreak := h.heapBreak + n })) := by
  have hself : Grown a h h := ⟨rfl, rfl, Nat.le_refl _, hle, hp, fun _ _ => rfl⟩
  have harena := a.arena_lt
  have hhalf := a.half_lt
  have hpages : pageSize ≤ heapSize := by decide
  have hsigned : a.signed n = n := signed_of_lt (by omega)
  have hne : ¬((n : Int) = 0) := by omega
  have hnew : (((h.heapBreak : Int) + (n : Int)) % 2 ^ a.bits).toNat = h.heapBreak + n := by
    have hlt : h.heapBreak + n < 2 ^ a.bits := by omega
    have hcast : ((h.heapBreak : Int) + (n : Int)) % 2 ^ a.bits = ((h.heapBreak + n) % 2 ^ a.bits : Nat) := by
      push_cast
      rfl
    rw [hcast, Int.toNat_natCast, Nat.mod_eq_of_lt hlt]
  unfold sbrkLocked
  rw [hsigned, if_neg hne]
  dsimp only
  rw [hnew, if_neg (by omega)]
  by_cases hout : a.heapBase + heapSize < h.heapBreak + n
  · rw [if_pos hout]
    exact ⟨h, hself, Or.inl rfl⟩
  · rw [if_neg hout]
    by_cases hgrow : h.heapEnd < h.heapBreak + n
    · rw [if_pos hgrow, a.word_of_lt (by omega)]
      have hpage : pageSize ∣ a.heapBase + heapSize := Nat.dvd_add a.heapBase_dvd (by decide)
      have htarget : (h.heapBreak + n + pageSize - 1) / pageSize * pageSize ≤ a.heapBase + heapSize := by
        have hmul := Nat.div_mul_cancel hpage
        have hdiv : (h.heapBreak + n + pageSize - 1) / pageSize ≤ (a.heapBase + heapSize) / pageSize := by
          refine Nat.le_of_lt_succ ((Nat.div_lt_iff_lt_mul (by decide)).2 ?_)
          rw [Nat.succ_mul, hmul]
          unfold pageSize
          omega
        calc _ ≤ (a.heapBase + heapSize) / pageSize * pageSize := Nat.mul_le_mul_right _ hdiv
          _ = _ := hmul
      have hreach : h.heapBreak + n ≤ (h.heapBreak + n + pageSize - 1) / pageSize * pageSize := by
        unfold pageSize
        omega
      obtain ⟨ok, h', hc, hg, hok⟩ := heapCommitTo_spec frames (by omega) hle hp
        (Nat.dvd_mul_left pageSize _) htarget
      rw [hc]
      refine ⟨h', hg, ?_⟩
      cases ok with
      | false => exact Or.inl rfl
      | true => exact Or.inr ⟨Nat.le_trans hreach (hok rfl), by rw [← hg.heapBreak]⟩
    · rw [if_neg hgrow]
      exact ⟨h, hself, Or.inr ⟨by omega, rfl⟩⟩

theorem Good.base_le (h : Good a h' l) : a.heapBase ≤ h'.heapBreak := h.blocks.tiles.le

theorem Good.block_lt (hg : Good a h l) (hb : b ∈ l) : a.heapBase ≤ b ∧ b + lenAt a h.mem b ≤ h.heapEnd := by
  have := hg.blocks.le_break hb
  have := hg.mapped
  omega

theorem Good.grown (hg : Good a h l) (hgr : Grown a h h') : Good a h' l ∧ ∀ p, Kept a p h.mem l h'.mem l := by
  have hsame : ∀ x ∈ l, sizeAt a h'.mem x = sizeAt a h.mem x ∧ nextAt a h'.mem x = nextAt a h.mem x ∧
      freeAt a h'.mem x = freeAt a h.mem x := by
    intro x hx
    have hlt := hg.block_lt hx
    have hlen := lenAt_pos a h.mem x
    have hH := a.header_le
    exact ⟨load_congr (fun i _ _ => hgr.mem i (by omega)), load_congr (fun i _ _ => hgr.mem i (by omega)),
      load_congr (fun i _ _ => hgr.mem i (by omega))⟩
  have hblocks : Blocks a h'.mem h'.head h'.heapBreak l := by
    rw [hgr.head, hgr.heapBreak]
    refine ⟨hg.blocks.tiles.congr (fun x hx => ⟨(hsame x hx).2.1, congrArg (a.blockSize + ·) (hsame x hx).1⟩),
      fun x hx => ?_, hg.blocks.inside⟩
    rw [(hsame x hx).1]
    exact hg.blocks.aligned x hx
  refine ⟨⟨hblocks, hg.joined.congr (fun x hx => (hsame x hx).2.2), ?_, hgr.ending, hgr.page⟩, fun p x hx _ => ?_⟩
  · rw [hgr.heapBreak]
    exact Nat.le_trans hg.mapped hgr.mono
  · have hlt := hg.block_lt hx.mem
    obtain ⟨hs, -, hf⟩ := hsame x hx.mem
    exact ⟨⟨hx.mem, hf.trans hx.used⟩, hs, fun i _ h2 => hgr.mem i (by omega)⟩

/-! ## `malloc` -/

theorem align16_eq (hn : n ≤ heapSize) : align16 a n = (n + 15) / 16 * 16 := by
  have harena := a.arena_lt
  have hsize : 15 ≤ heapSize := by decide
  unfold align16
  rw [a.word_of_lt (by omega)]

theorem align16_spec (hn : n ≤ heapSize) : 16 ∣ align16 a n ∧ n ≤ align16 a n ∧ align16 a n ≤ heapSize := by
  have hsize : heapSize = 2097152 * 16 := rfl
  rw [align16_eq hn]
  omega

theorem align16_align16 (hn : n ≤ heapSize) : align16 a (align16 a n) = align16 a n := by
  obtain ⟨hd, -, hle⟩ := align16_spec (a := a) hn
  rw [align16_eq hle]
  omega

section

variable {m : Mem} {head brk : Nat}

theorem Blocks.head_eq (hb : Blocks a m head brk l) : l = [] ∧ head = 0 ∧ brk = a.heapBase ∨
    ∃ xs, l = head :: xs ∧ head = a.heapBase := by
  have ht := hb.tiles
  cases l with
  | nil => exact Or.inl ⟨rfl, ht.1, ht.2.symm⟩
  | cons b xs =>
    obtain ⟨rfl, hbase, -⟩ := ht
    exact Or.inr ⟨xs, rfl, hbase.symm⟩

theorem fitTurn_inl {b c : Nat} (hb : Blocks a m head brk l) (hmem : b ∈ l) (hstep : fitTurn a m n b = .inl c) :
    c ∈ l ∧ brk - c < brk - b := by
  unfold fitTurn at hstep
  rw [if_neg (hb.ne_zero hmem)] at hstep
  split at hstep
  case isTrue => cases hstep
  case isFalse =>
    split at hstep
    case isTrue => cases hstep
    case isFalse hnext =>
      injection hstep with hstep
      have hlen := lenAt_pos a m b
      have hH := a.blockSize_le
      have hle := hb.le_break hmem
      rcases hb.tiles.next_cases hmem with ⟨_, _, h0, _⟩ | ⟨xs, d, ys, hl, hd, hbd⟩
      · exact absurd h0 hnext
      · have hc : c = d := hstep.symm.trans hd
        rw [hl, hc]
        exact ⟨by simp, by omega⟩

theorem fitTurn_inr {b : Nat} {r : Bool × Nat} (hb : Blocks a m head brk l) (hmem : b ∈ l)
    (hstep : fitTurn a m n b = .inr r) : r.2 ∈ l ∧ (r.1 = true → freeAt a m r.2 ≠ 0 ∧ n ≤ sizeAt a m r.2) ∧
      (r.1 = false → ∃ xs, l = xs ++ [r.2] ∧ r.2 + lenAt a m r.2 = brk) := by
  unfold fitTurn at hstep
  rw [if_neg (hb.ne_zero hmem)] at hstep
  split at hstep
  case isTrue hfit =>
    injection hstep with hstep
    subst hstep
    exact ⟨hmem, fun _ => hfit, fun he => by cases he⟩
  case isFalse =>
    split at hstep
    case isFalse => cases hstep
    case isTrue hnext =>
      injection hstep with hstep
      subst hstep
      refine ⟨hmem, (fun he => by cases he), fun _ => ?_⟩
      rcases hb.tiles.next_cases hmem with ⟨xs, hl, -, hend⟩ | ⟨xs, d, ys, hl, hd, -⟩
      · exact ⟨xs, hl, hend⟩
      · have hd0 : d ≠ 0 := hb.ne_zero (by rw [hl]; simp)
        exact absurd (hd.symm.trans hnext) hd0

theorem fit_spec (hb : Blocks a m head brk l) (hne : l ≠ []) : ∃ found b,
    loop (fitTurn a m n) walkBound head = some (found, b) ∧ b ∈ l ∧
      (found = true → freeAt a m b ≠ 0 ∧ n ≤ sizeAt a m b) ∧
      (found = false → ∃ xs, l = xs ++ [b] ∧ b + lenAt a m b = brk) := by
  have hhead : head ∈ l := by
    rcases hb.head_eq with ⟨h0, -⟩ | ⟨xs, hl, -⟩
    · exact absurd h0 hne
    · rw [hl]
      exact List.mem_cons_self
  have hμ : brk - head < walkBound := by
    have := hb.inside
    have := hb.le_break hhead
    unfold walkBound
    omega
  obtain ⟨⟨found, b⟩, hr⟩ : ∃ r, loop (fitTurn a m n) walkBound head = some r :=
    loop_total (I := fun b => b ∈ l) (μ := fun b => brk - b) (fun b c hmem hstep => fitTurn_inl hb hmem hstep) hhead hμ
  exact ⟨found, b, hr, loop_post (I := fun b => b ∈ l) (fun b c hmem hstep => (fitTurn_inl hb hmem hstep).1)
    (fun b r hmem hstep => fitTurn_inr hb hmem hstep) hhead hr⟩

end

/-- `r` is NULL, or the payload of a block of `n` bytes or more that was not in use before. -/
def Granted (a : Arch) (m : Mem) (l : List Nat) (m' : Mem) (l' : List Nat) (n r : Nat) : Prop :=
  r = 0 ∨ ∃ b, r = b + a.blockSize ∧ Used a m' l' b ∧ n ≤ sizeAt a m' b ∧ ¬Used a m l b

theorem Good.not_used_break (hg : Good a h l) : ¬Used a h.mem l h.heapBreak := by
  intro hu
  have := hg.blocks.le_break hu.mem
  have := lenAt_pos a h.mem h.heapBreak
  have := a.blockSize_le
  omega

theorem Good.first (hg : Good a h []) (hn : 16 ∣ n) (hle : h.heapBreak + (a.blockSize + n) ≤ h.heapEnd) :
    Good a ⟨newLast a a.heapBase n h.mem, a.heapBase, h.heapEnd, h.heapBreak + (a.blockSize + n)⟩ [a.heapBase] ∧
      Used a (newLast a a.heapBase n h.mem) [a.heapBase] a.heapBase ∧
      sizeAt a (newLast a a.heapBase n h.mem) a.heapBase = n := by
  have hbrk : h.heapBreak = a.heapBase := hg.blocks.tiles.2.symm
  have hend := hg.ending
  have harena := a.arena_lt
  have hlt : n < 2 ^ a.bits := by omega
  obtain ⟨-, hs, hnx, hf⟩ := newLast_spec (a := a) (m := h.mem) (c := a.heapBase) hlt
  refine ⟨⟨?_, List.IsChain.singleton _, hle, hend, hg.page⟩, ⟨by simp, hf⟩, hs⟩
  dsimp only
  rw [hbrk]
  exact Blocks.first hs hnx hn (by omega)

theorem Good.snoc {xs : List Nat} (hg : Good a h (xs ++ [b])) (hb : b + lenAt a h.mem b = h.heapBreak) (hn : 16 ∣ n)
    (hle : h.heapBreak + (a.blockSize + n) ≤ h.heapEnd) {m : Mem}
    (hm : m = setNext a b h.heapBreak (newLast a h.heapBreak n h.mem)) :
    Good a ⟨m, h.head, h.heapEnd, h.heapBreak + (a.blockSize + n)⟩ (xs ++ [b, h.heapBreak]) ∧
      Kept a 0 h.mem (xs ++ [b]) m (xs ++ [b, h.heapBreak]) ∧ Used a m (xs ++ [b, h.heapBreak]) h.heapBreak ∧
      sizeAt a m h.heapBreak = n := by
  have hend := hg.ending
  have harena := a.arena_lt
  have hH := a.header_le
  have hlen := lenAt_pos a h.mem b
  have hblocks := hg.blocks
  generalize hbrk : h.heapBreak = brk at *
  have hlt : n < 2 ^ a.bits := by omega
  obtain ⟨hw1, hs1, hn1, hf1⟩ := newLast_spec (a := a) (m := h.mem) (c := brk) hlt
  have hw2 : Within b (b + a.blockSize) (newLast a brk n h.mem) m := hm ▸ within_setNext
  obtain ⟨hs2, hn2, hf2⟩ := header_within (a := a) hw2 (b := brk) (Or.inr (by omega))
  obtain ⟨hs3, -, hf3⟩ := header_within (a := a) hw1 (b := b) (Or.inl (by omega))
  have hsb : sizeAt a m b = sizeAt a h.mem b := by rw [hm, sizeAt_setNext, hs3]
  have hnb : nextAt a m b = brk := by rw [hm, nextAt_setNext (by omega)]
  have hfb : freeAt a m b = freeAt a h.mem b := by rw [hm, freeAt_setNext, hf3]
  have hlow : ∀ i, i < b ∨ b + a.blockSize ≤ i ∧ i < brk → m i = h.mem i := by
    intro i hi
    rw [hw2 i (by omega), hw1 i (by omega)]
  -- the blocks before the last one
  have hleft : ∀ x ∈ xs, x + a.blockSize ≤ b ∧ freeAt a m x = freeAt a h.mem x ∧
      sizeAt a m x = sizeAt a h.mem x := by
    intro x hx
    have hxb := hblocks.tiles.before hx
    have hxl := lenAt_pos a h.mem x
    exact ⟨by omega, load_congr (fun i _ _ => hlow i (by omega)), load_congr (fun i _ _ => hlow i (by omega))⟩
  have hall : ∀ x ∈ xs ++ [b], freeAt a m x = freeAt a h.mem x ∧ sizeAt a m x = sizeAt a h.mem x := by
    intro x hx
    rcases List.mem_append.1 hx with hx | hx
    · exact (hleft x hx).2
    · rw [List.mem_singleton.1 hx]
      exact ⟨hfb, hsb⟩
  have hfbrk : freeAt a m brk = 0 := hf2.trans hf1
  refine ⟨⟨?_, ?_, hle, hg.ending, hg.page⟩, fun x hx _ => ?_, ⟨by simp, hfbrk⟩, hs2.trans hs1⟩
  · exact hblocks.snoc (fun i hi => hlow i (Or.inl hi)) hsb hnb (hs2.trans hs1) (hn2.trans hn1) hn (by omega)
  · have hj : Joined a m (xs ++ [b]) := hg.joined.congr (fun x hx => (hall x hx).1)
    have hjoin : Joined a m ((xs ++ [b]) ++ [brk]) := noTwo_of_not (fun h' => h' hfbrk) hj List.IsChain.nil
    rw [List.append_assoc] at hjoin
    exact hjoin
  · obtain ⟨hf, hs⟩ := hall x hx.mem
    have hxl := hblocks.le_break hx.mem
    refine ⟨⟨?_, hf.trans hx.used⟩, hs, fun i h1 h2 => ?_⟩
    · have := hx.mem
      simp only [List.mem_append, List.mem_cons, List.not_mem_nil, or_false] at this ⊢
      tauto
    · rcases List.mem_append.1 hx.mem with hxs | hxs
      · have hxb := hblocks.tiles.before hxs
        exact hlow i (by omega)
      · rw [List.mem_singleton.1 hxs] at h1 h2
        exact hlow i (by omega)

theorem malloc_spec (frames : Nat → Option Mem) (hg : Good a h l) (hn : n ≤ heapSize) : ∃ r h' l',
    malloc a frames n h = some (r, h') ∧
    Good a h' l' ∧ Kept a 0 h.mem l h'.mem l' ∧ Granted a h.mem l h'.mem l' (align16 a n) r := by
  unfold malloc
  by_cases h0 : n = 0
  · rw [if_pos h0]
    exact ⟨0, h, l, rfl, hg, Kept.refl _ _ _, Or.inl rfl⟩
  · rw [if_neg h0]
    dsimp only
    obtain ⟨h16, -, hmax⟩ := align16_spec (a := a) hn
    generalize align16 a n = size at h16 hmax ⊢
    have hbs := a.blockSize_le
    have hsize : 32 ≤ heapSize := by decide
    have hnb : h.heapBreak ≠ a.noBreak := by
      have := hg.mapped
      have := hg.ending
      have := a.arena_lt
      unfold Arch.noBreak
      omega
    obtain ⟨h1, hgrown, hsbrk⟩ := sbrkLocked_spec frames (n := a.blockSize + size) hg.base_le hg.mapped
      hg.ending hg.page (by omega) (by omega)
    obtain ⟨hg1, hkept⟩ := hg.grown hgrown
    rcases hg.blocks.head_eq with ⟨rfl, hhead, -⟩ | ⟨xs, hl, hbase⟩
    · rw [if_pos hhead]
      rcases hsbrk with hfail | ⟨hle, hok⟩
      · rw [hfail]
        dsimp only
        rw [if_pos rfl]
        exact ⟨0, h1, [], rfl, hg1, hkept 0, Or.inl rfl⟩
      · rw [hok]
        dsimp only
        rw [if_neg hnb]
        rw [← hgrown.heapBreak] at hle ⊢
        obtain ⟨hgood, hused, hs⟩ := hg1.first h16 hle
        exact ⟨_, _, [a.heapBase], rfl, hgood, (fun x hx => by cases hx.mem),
          Or.inr ⟨a.heapBase, rfl, hused, Nat.le_of_eq hs.symm, fun hu => by cases hu.mem⟩⟩
    · have hhead : h.head ≠ 0 := by
        rw [hbase]
        exact Nat.ne_of_gt a.heapBase_pos
      rw [if_neg hhead]
      obtain ⟨found, b, hfit, hb, hyes, hno⟩ := fit_spec (n := size) hg.blocks (by rw [hl]; simp)
      rw [hfit]
      cases found with
      | true =>
        obtain ⟨hf, hle⟩ := hyes rfl
        obtain ⟨l', hblocks, hjoin, hused, hsz, hk⟩ := takeBlock_spec hg.blocks hg.joined hb hf h16 hle
        exact ⟨_, _, l', rfl, ⟨hblocks, hjoin, hg.mapped, hg.ending, hg.page⟩, hk,
          Or.inr ⟨b, rfl, hused, hsz, fun hu => hf hu.used⟩⟩
      | false =>
        obtain ⟨ys, hys, hend⟩ := hno rfl
        dsimp only
        rcases hsbrk with hfail | ⟨hle, hok⟩
        · rw [hfail]
          dsimp only
          rw [if_pos (Or.inl rfl)]
          exact ⟨0, h1, l, rfl, hg1, hkept 0, Or.inl rfl⟩
        · have haddr : b + a.blockSize + sizeAt a h.mem b = h.heapBreak := by
            unfold lenAt at hend
            omega
          rw [hok, haddr]
          dsimp only
          rw [if_neg (by rintro (h' | h') <;> contradiction)]
          have hlen : b + lenAt a h1.mem b = h1.heapBreak := by
            obtain ⟨xs', hl', -, he⟩ | ⟨xs', c, ys', hl', -⟩ := hg1.blocks.tiles.next_cases hb
            · exact he
            · have hlast := congrArg List.getLast? (hys.symm.trans hl')
              rw [List.getLast?_concat, List.getLast?_append_of_ne_nil _ (by simp), List.getLast?_cons_cons] at hlast
              have hmem : b ∈ c :: ys' := List.mem_of_getLast? hlast.symm
              exact absurd rfl ((hl' ▸ hg1.blocks).ne_of_right hmem)
          subst hys
          rw [← hgrown.heapBreak] at hle ⊢
          obtain ⟨hgood, hk, hused, hs⟩ := hg1.snoc hlen h16 hle rfl
          refine ⟨_, _, _, rfl, hgood, (hkept 0).trans hk,
            Or.inr ⟨h1.heapBreak, rfl, hused, Nat.le_of_eq hs.symm, fun hu => ?_⟩⟩
          exact hg.not_used_break (hgrown.heapBreak ▸ hu)

/-! ## `free` -/

section

variable {m : Mem} {head brk : Nat} {xs ys : List Nat}

theorem prevTurn_inl {q r : Nat} (hb : Blocks a m head brk (xs ++ b :: ys)) (hq : q = 0 ∨ q ∈ xs ++ b :: ys)
    (hstep : prevTurn a m b q = .inl r) : (r = 0 ∨ r ∈ xs ++ b :: ys) ∧
      (if r = 0 then 0 else brk - r) < (if q = 0 then 0 else brk - q) := by
  unfold prevTurn at hstep
  split at hstep
  case isFalse => cases hstep
  case isTrue hne =>
    injection hstep with hstep
    have hmem := hq.resolve_left hne.1
    have hle := hb.le_break hmem
    have hlen := lenAt_pos a m q
    have hH := a.blockSize_le
    rw [if_neg hne.1]
    rcases hb.tiles.next_cases hmem with ⟨_, _, h0, _⟩ | ⟨ws, d, zs, hl, hd, hqd⟩
    · rw [← hstep, if_pos h0]
      exact ⟨Or.inl h0, by omega⟩
    · have hd' : d ∈ xs ++ b :: ys := by rw [hl]; simp
      have hdr : r = d := hstep.symm.trans hd
      rw [hdr, if_neg (hb.ne_zero hd')]
      exact ⟨Or.inr hd', by omega⟩

theorem prevTurn_before {ws : List Nat} {p q r : Nat} (hb : Blocks a m head brk ((ws ++ [p]) ++ b :: ys))
    (hq : q ∈ (ws ++ [p]) ++ b :: ys ∧ q ≤ p) (hstep : prevTurn a m b q = .inl r) :
    r ∈ (ws ++ [p]) ++ b :: ys ∧ r ≤ p := by
  have hpb : nextAt a m p = b := by
    have ht := hb.tiles
    rw [List.append_assoc] at ht
    exact (tiles_mid.1 ht).2.1
  have hp : p ∈ (ws ++ [p]) ++ b :: ys := by simp
  unfold prevTurn at hstep
  split at hstep
  case isFalse => cases hstep
  case isTrue hne =>
    injection hstep with hstep
    have hqp : p ≠ q := fun he => hne.2 (he ▸ hpb)
    have hH := a.blockSize_le
    have hlenp := lenAt_pos a m p
    have hlep := hb.le_break hp
    have hap := hb.apart hq.1 hp hqp
    rcases hb.tiles.next_cases hq.1 with ⟨_, _, _, hend⟩ | ⟨_, d, _, hl, hd, hqd⟩
    · omega
    · have hdr : r = d := hstep.symm.trans hd
      rw [hdr, hl]
      exact ⟨by simp, by omega⟩

theorem prev_spec (hb : Blocks a m head brk (xs ++ b :: ys)) : ∃ prev,
    loop (prevTurn a m b) walkBound head = some prev ∧ (xs = [] ∧ prev = 0 ∨ prev ≠ 0 ∧ ∃ ws, xs = ws ++ [prev]) := by
  have hb0 : b ≠ 0 := hb.ne_zero (by simp)
  have hhead : head ∈ xs ++ b :: ys ∧ head = a.heapBase := by
    rcases hb.head_eq with ⟨h0, -⟩ | ⟨zs, hl, hbase⟩
    · exact absurd h0 (by simp)
    · exact ⟨by rw [hl]; exact List.mem_cons_self, hbase⟩
  have hμ : (if head = 0 then 0 else brk - head) < walkBound := by
    have := hb.inside
    have := hb.le_break hhead.1
    have := lenAt_pos a m head
    have := a.blockSize_le
    have := hhead.2
    unfold walkBound
    split <;> omega
  obtain ⟨prev, hr⟩ : ∃ r, loop (prevTurn a m b) walkBound head = some r :=
    loop_total (I := fun q => q = 0 ∨ q ∈ xs ++ b :: ys) (μ := fun q => if q = 0 then 0 else brk - q)
      (fun q r hq hstep => prevTurn_inl hb hq hstep) (Or.inr hhead.1) hμ
  have hfound : prev = 0 ∨ prev ∈ xs ++ b :: ys ∧ nextAt a m prev = b := by
    refine loop_post (I := fun q => q = 0 ∨ q ∈ xs ++ b :: ys)
      (Q := fun r => r = 0 ∨ r ∈ xs ++ b :: ys ∧ nextAt a m r = b)
      (fun q r hq hstep => (prevTurn_inl hb hq hstep).1) (fun q r hq hstep => ?_) (Or.inr hhead.1) hr
    unfold prevTurn at hstep
    split at hstep
    case isTrue => cases hstep
    case isFalse hend =>
      injection hstep with hstep
      subst hstep
      by_cases hq0 : q = 0
      · exact Or.inl hq0
      · exact Or.inr ⟨hq.resolve_left hq0, by_contra fun hne => hend ⟨hq0, hne⟩⟩
  refine ⟨prev, hr, ?_⟩
  rcases List.eq_nil_or_concat xs with rfl | ⟨ws, p, rfl⟩
  · rcases hfound with h0 | ⟨hmem, hn⟩
    · exact Or.inl ⟨rfl, h0⟩
    · obtain ⟨ws, hws⟩ := hb.prev_eq hmem hn
      exact absurd hws (by simp)
  · rw [List.concat_eq_append] at *
    right
    have hp : p ∈ (ws ++ [p]) ++ b :: ys := by simp
    have hstay : prev ∈ (ws ++ [p]) ++ b :: ys := by
      refine loop_post (I := fun q => q ∈ (ws ++ [p]) ++ b :: ys ∧ q ≤ p)
        (fun q r hq hstep => prevTurn_before hb hq hstep) (fun q r hq hstep => ?_)
        ⟨hhead.1, hhead.2 ▸ (hb.le_break hp).1⟩ hr
      unfold prevTurn at hstep
      split at hstep
      case isTrue => cases hstep
      case isFalse =>
        injection hstep with hstep
        exact hstep ▸ hq.1
    have h0 := hb.ne_zero hstay
    exact ⟨h0, hb.prev_eq hstay (hfound.resolve_left h0).2⟩

end

theorem Good.ptr_ok (hg : Good a h l) (hb : b ∈ l) : b + a.blockSize ≠ 0 ∧ ¬(b + a.blockSize) % 16 ≠ 0 ∧
    b + a.blockSize - a.blockSize = b ∧ ¬(b < a.heapBase ∨ h.heapEnd ≤ b) := by
  have h0 := hg.blocks.ne_zero hb
  have hd := Nat.dvd_add (hg.blocks.dvd.2 b hb) a.blockSize_dvd
  have hlt := hg.block_lt hb
  have hlen := lenAt_pos a h.mem b
  have hH := a.blockSize_le
  exact ⟨by omega, fun hne => hne (Nat.mod_eq_zero_of_dvd hd), Nat.add_sub_cancel _ _, by omega⟩

theorem free_spec (hg : Good a h l) (hu : Used a h.mem l b) : ∃ h' l', free a (b + a.blockSize) h = some h' ∧
    Good a h' l' ∧ Kept a b h.mem l h'.mem l' := by
  obtain ⟨hp0, hp16, hpb, hin⟩ := hg.ptr_ok hu.mem
  unfold free
  rw [if_neg hp0, if_neg hp16]
  dsimp only
  rw [hpb, if_neg hin, if_neg (fun hne => hne hu.used)]
  have hmem := hu.mem
  obtain ⟨xs, ys, rfl⟩ := List.append_of_mem hmem
  obtain ⟨ys', hblocks, hjoin, hfb, hjx, hk⟩ := freeBlock_spec hg.blocks hg.joined
  generalize freeBlock a b h.mem = m at hblocks hjoin hfb hjx hk ⊢
  obtain ⟨prev, hprev, hcase⟩ := prev_spec hblocks
  rw [hprev]
  dsimp only
  rcases hcase with ⟨rfl, rfl⟩ | ⟨hne, ws, rfl⟩
  · rw [if_neg (by simp)]
    exact ⟨_, b :: ys', rfl, ⟨hblocks, hjoin, hg.mapped, hg.ending, hg.page⟩, hk⟩
  · by_cases hfree : freeAt a m prev = 0
    · rw [if_neg (by simp [hfree])]
      refine ⟨_, (ws ++ [prev]) ++ b :: ys', rfl, ⟨hblocks, ?_, hg.mapped, hg.ending, hg.page⟩, hk⟩
      show Joined a m _
      rw [List.append_assoc]
      exact noTwo_of_not (fun h' => h' hfree) (NoTwo.left hjx) hjoin
    · rw [if_pos ⟨hne, hfree⟩]
      rw [List.append_assoc, List.singleton_append] at hblocks
      -- the block before takes in `b`
      obtain ⟨hw, -, -, hfp⟩ := hblocks.absorb_header
      obtain ⟨hfx, hfy⟩ := hblocks.flags (within_block hw)
      have hfp' : freeAt a (absorb a prev b m) prev ≠ 0 := fun he => hfree (hfp.symm.trans he)
      have hleft : Joined a (absorb a prev b m) (ws ++ [prev]) := by
        refine hjx.congr (fun x hx => ?_)
        rcases List.mem_append.1 hx with hx | hx
        · exact hfx x hx
        · rw [List.mem_singleton.1 hx]
          exact hfp
      have hright : Joined a (absorb a prev b m) (prev :: ys') :=
        noTwo_head hjoin hfb (fun y hy h' he => h' ((hfy y (by simp [hy])).trans he)) prev
      refine ⟨_, ws ++ prev :: ys', rfl, ⟨hblocks.absorb, noTwo_mid.2 ⟨hleft, hright⟩, hg.mapped, hg.ending, hg.page⟩,
        ?_⟩
      rw [List.append_assoc, List.singleton_append] at hk
      have hk2 : Kept a prev m (ws ++ prev :: b :: ys') (absorb a prev b m) (ws ++ prev :: ys') := by
        refine hblocks.kept (by simp) (within_block hw) (fun x hx hxp hx0 => ?_)
        simp only [List.mem_append, List.mem_cons] at hx ⊢
        rcases hx with hx | rfl | rfl | hx
        · exact Or.inl hx
        · exact Or.inr (Or.inl rfl)
        · exact absurd hx0 hfb
        · exact Or.inr (Or.inr hx)
      have hk3 := hk2.of_free (q := b) (fun hup => hfree hup.used)
      rw [List.append_assoc] at *
      exact hk.trans hk3

/-! ## `realloc` -/

theorem Good.payload {m : Mem} (hg : Good a h l) (hb : b ∈ l)
    (hw : Within (b + a.blockSize) (b + lenAt a h.mem b) h.mem m) :
    Good a { h with mem := m } l ∧ Kept a b h.mem l m l ∧ sizeAt a m b = sizeAt a h.mem b ∧
      freeAt a m b = freeAt a h.mem b := by
  have hlen := lenAt_pos a h.mem b
  have hwb : Within b (b + lenAt a h.mem b) h.mem m := hw.mono (by omega) (Nat.le_refl _)
  have hsame : ∀ x ∈ l, sizeAt a m x = sizeAt a h.mem x ∧ nextAt a m x = nextAt a h.mem x ∧
      freeAt a m x = freeAt a h.mem x := by
    intro x hx
    by_cases hxb : x = b
    · subst hxb
      exact header_within hw (Or.inl (Nat.le_refl _))
    · exact (hg.blocks.other hb hwb hx hxb).1
  refine ⟨⟨⟨?_, fun x hx => ?_, hg.blocks.inside⟩, hg.joined.congr (fun x hx => (hsame x hx).2.2), hg.mapped, hg.ending,
    hg.page⟩, hg.blocks.kept hb hwb (fun x hx _ _ => hx), (hsame b hb).1, (hsame b hb).2.2⟩
  · exact hg.blocks.tiles.congr (fun x hx => ⟨(hsame x hx).2.1, congrArg (a.blockSize + ·) (hsame x hx).1⟩)
  · show 16 ∣ sizeAt a m x
    rw [(hsame x hx).1]
    exact hg.blocks.aligned x hx

/-- `r` is the payload of a block of `n` bytes or more, `b` itself or a block that was not in use, that starts with the
bytes of `b`. -/
def Moved (a : Arch) (b : Nat) (m : Mem) (l : List Nat) (m' : Mem) (l' : List Nat) (n r : Nat) : Prop :=
  ∃ c, r = c + a.blockSize ∧ Used a m' l' c ∧ n ≤ sizeAt a m' c ∧ (c = b ∨ ¬Used a m l c) ∧
    ∀ i, i < sizeAt a m b → i < n → m' (c + a.blockSize + i) = m (b + a.blockSize + i)

theorem Good.grow (hg : Good a h l) (hu : Used a h.mem l b) (hnext : nextAt a h.mem b ≠ 0)
    (hf : freeAt a h.mem (nextAt a h.mem b) ≠ 0) : ∃ l',
    Good a { h with mem := absorb a b (nextAt a h.mem b) h.mem } l' ∧
      Kept a b h.mem l (absorb a b (nextAt a h.mem b) h.mem) l' ∧
      Used a (absorb a b (nextAt a h.mem b) h.mem) l' b ∧
      sizeAt a (absorb a b (nextAt a h.mem b) h.mem) b =
        a.word (sizeAt a h.mem b + a.blockSize + sizeAt a h.mem (nextAt a h.mem b)) ∧
      Within b (b + a.blockSize) h.mem (absorb a b (nextAt a h.mem b) h.mem) := by
  have hmem := hu.mem
  rcases hg.blocks.tiles.next_cases hmem with ⟨_, _, h0, _⟩ | ⟨xs, c, ys, rfl, hc, hbc⟩
  · exact absurd h0 hnext
  · rw [hc] at hf ⊢
    have hblocks := hg.blocks
    obtain ⟨hw, hs, -, hfb⟩ := hblocks.absorb_header
    obtain ⟨hfx, hfy⟩ := hblocks.flags (within_block hw)
    have hfb0 : freeAt a (absorb a b c h.mem) b = 0 := hfb.trans hu.used
    have hsum : a.word (sizeAt a h.mem b + a.blockSize + sizeAt a h.mem c) =
        lenAt a h.mem b + sizeAt a h.mem c := by
      have hlt := hblocks.lt_word (b := c) (by simp)
      unfold lenAt at *
      rw [a.word_of_lt (by omega)]
      omega
    refine ⟨xs ++ b :: ys, ⟨hblocks.absorb, ?_, hg.mapped, hg.ending, hg.page⟩, ?_, ⟨by simp, hfb0⟩, hs.trans hsum.symm,
      hw⟩
    · exact noTwo_of_not (fun h' => h' hfb0) (Joined.congr (NoTwo.left hg.joined) hfx)
        (Joined.congr (NoTwo.tail (NoTwo.tail (NoTwo.right hg.joined))) (fun y hy => hfy y (by simp [hy])))
    · refine hblocks.kept hmem (within_block hw) (fun x hx hne hx0 => ?_)
      simp only [List.mem_append, List.mem_cons] at hx ⊢
      rcases hx with hx | rfl | rfl | hx
      · exact Or.inl hx
      · exact absurd rfl hne
      · exact absurd hx0 hf
      · exact Or.inr (Or.inr hx)

theorem realloc_spec (frames : Nat → Option Mem) (hg : Good a h l) (hu : Used a h.mem l b) (hn : n ≤ heapSize)
    (hn0 : n ≠ 0) : ∃ r h' l',
    realloc a frames (b + a.blockSize) n h = some (r, h') ∧ Good a h' l' ∧ Kept a b h.mem l h'.mem l' ∧
      (r = 0 ∧ Kept a 0 h.mem l h'.mem l' ∨ Moved a b h.mem l h'.mem l' (align16 a n) r) := by
  obtain ⟨hp0, -, hpb, hin⟩ := hg.ptr_ok hu.mem
  obtain ⟨h16, -, hmax⟩ := align16_spec (a := a) hn
  have hagain := align16_align16 (a := a) hn
  unfold realloc
  rw [if_neg hp0, if_neg hn0]
  dsimp only
  rw [hpb, if_neg hin]
  generalize align16 a n = size at h16 hmax hagain ⊢
  by_cases hfits : size ≤ sizeAt a h.mem b
  · rw [if_pos hfits]
    obtain ⟨l', hblocks, hjoin, hused, hs, hk, hbytes⟩ := shrinkBlock_spec hg.blocks hg.joined hu h16 hfits
    exact ⟨_, _, l', rfl, ⟨hblocks, hjoin, hg.mapped, hg.ending, hg.page⟩, hk,
      Or.inr ⟨b, rfl, hused, hs, Or.inl rfl, fun i _ hi => hbytes i hi⟩⟩
  · rw [if_neg hfits]
    by_cases hgrow : nextAt a h.mem b ≠ 0 ∧ freeAt a h.mem (nextAt a h.mem b) ≠ 0 ∧
        size ≤ a.word (sizeAt a h.mem b + a.blockSize + sizeAt a h.mem (nextAt a h.mem b))
    · rw [if_pos hgrow]
      obtain ⟨l', hgood, hk, hused, hs, hw⟩ := hg.grow hu hgrow.1 hgrow.2.1
      exact ⟨_, _, l', rfl, hgood, hk, Or.inr ⟨b, rfl, hused, hs ▸ hgrow.2.2, Or.inl rfl,
        fun i _ _ => hw _ (Or.inr (by omega))⟩⟩
    · rw [if_neg hgrow]
      obtain ⟨r, h1, l1, hmalloc, hg1, hk1, hgrant⟩ := malloc_spec frames hg hmax
      rw [hmalloc]
      dsimp only
      have hb0 := hg.blocks.ne_zero hu.mem
      rcases hgrant with rfl | ⟨c, rfl, hused, hs, hnot⟩
      · rw [if_pos rfl]
        exact ⟨0, h1, l1, rfl, hg1, hk1.except (fun x hx => hg.blocks.ne_zero hx), Or.inl ⟨rfl, hk1⟩⟩
      · have hc0 := hg1.blocks.ne_zero hused.mem
        rw [if_neg (by omega)]
        rw [hagain] at hs
        obtain ⟨hub, hsb, hbytes⟩ := hk1 b hu hb0
        have hcb : b ≠ c := fun he => hnot (he ▸ hu)
        have hlen : lenAt a h1.mem c = a.blockSize + sizeAt a h1.mem c := rfl
        -- the bytes go into the payload of `c`, which is beside `b`
        obtain ⟨hg2, hk2, hs2, hf2⟩ := hg1.payload (b := c) hused.mem (m := copy h1.mem (c + a.blockSize) h1.mem
          (b + a.blockSize) (sizeAt a h.mem b)) (within_copy (Nat.le_refl _) (by omega))
        obtain ⟨hub2, -, -⟩ := hk2 b hub hcb
        obtain ⟨h3, l3, hfree, hg3, hk3⟩ := free_spec hg2 hub2
        rw [hfree]
        have hused2 : Used a (copy h1.mem (c + a.blockSize) h1.mem (b + a.blockSize) (sizeAt a h.mem b)) l1 c :=
          ⟨hused.mem, hf2.trans hused.used⟩
        obtain ⟨hused3, hs3, hbytes3⟩ := hk3 c hused2 (Ne.symm hcb)
        have hkb : Kept a b h.mem l h3.mem l3 :=
          (((hk1.except (q := c) (fun x hx => hg.blocks.ne_zero hx)).trans hk2).of_free hnot).trans hk3
        refine ⟨_, h3, l3, rfl, hg3, hkb, Or.inr ⟨c, rfl, hused3, ?_, Or.inr hnot, fun i hi hi' => ?_⟩⟩
        · rw [hs3.trans hs2]
          exact hs
        · have hlen2 : lenAt a (copy h1.mem (c + a.blockSize) h1.mem (b + a.blockSize) (sizeAt a h.mem b)) c =
              a.blockSize + sizeAt a h1.mem c := congrArg (a.blockSize + ·) hs2
          have hlenb : lenAt a h.mem b = a.blockSize + sizeAt a h.mem b := rfl
          rw [hbytes3 _ (by omega) (by dsimp only; omega)]
          dsimp only
          rw [copy_of_mem (by omega) (by omega), Nat.add_sub_cancel_left]
          exact hbytes _ (by omega) (by omega)

end

end Mm
end AmitX
