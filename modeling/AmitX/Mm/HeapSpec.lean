import AmitX.Mm.Heap
/-!
# HeapSpec — what the calls do to the blocks

`Blocks` says that the blocks of the heap tile the arena up to the break.  Each way to write headers (a flag, a block
split off, a block taken in, a block at the end) changes the memory of one block only and is followed by a lemma about
the new list.  `Kept` is what a call owes to the blocks in use.
-/
namespace AmitX
namespace Mm

open Loop Bytes Tiling

variable {a : Arch}

/-! ## Words and headers -/

theorem Arch.pow_wordBytes (a : Arch) : 256 ^ a.wordBytes = 2 ^ a.bits := by cases a <;> rfl

theorem Arch.header_le (a : Arch) : 2 * a.wordBytes + 4 ≤ a.blockSize := by cases a <;> decide

theorem Arch.blockSize_dvd (a : Arch) : 16 ∣ a.blockSize := by cases a <;> decide

theorem Arch.blockSize_le (a : Arch) : 16 ≤ a.blockSize ∧ a.blockSize ≤ 32 := by cases a <;> decide

theorem Arch.heapBase_dvd (a : Arch) : pageSize ∣ a.heapBase := by cases a <;> decide

theorem Arch.heapBase_pos (a : Arch) : 0 < a.heapBase := by cases a <;> decide

theorem Arch.arena_lt (a : Arch) : a.heapBase + 3 * heapSize < 2 ^ a.bits - 1 := by cases a <;> decide

theorem Arch.word_of_lt {n : Nat} (h : n < 2 ^ a.bits) : a.word n = n := Nat.mod_eq_of_lt h

/-- `sizeof(Block) + block->size`. -/
def lenAt (a : Arch) (m : Mem) (b : Nat) : Nat := a.blockSize + sizeAt a m b

section

variable {m m' : Mem} {b c v lo hi : Nat}

theorem sizeAt_setSize (h : v < 2 ^ a.bits) : sizeAt a (setSize a b v m) b = v :=
  load_store_of_lt (by rw [a.pow_wordBytes]; exact h)

theorem freeAt_setSize : freeAt a (setSize a b v m) b = freeAt a m b := load_store_ne (by omega)

theorem sizeAt_setNext : sizeAt a (setNext a b v m) b = sizeAt a m b := load_store_ne (by omega)

theorem nextAt_setNext (h : v < 2 ^ a.bits) : nextAt a (setNext a b v m) b = v :=
  load_store_of_lt (by rw [a.pow_wordBytes]; exact h)

theorem freeAt_setNext : freeAt a (setNext a b v m) b = freeAt a m b := load_store_ne (by omega)

theorem sizeAt_setFree : sizeAt a (setFree a b v m) b = sizeAt a m b := load_store_ne (by omega)

theorem nextAt_setFree : nextAt a (setFree a b v m) b = nextAt a m b := load_store_ne (by omega)

theorem freeAt_setFree (h : v < 256 ^ 4) : freeAt a (setFree a b v m) b = v := load_store_of_lt h

theorem within_setSize : Within b (b + a.blockSize) m (setSize a b v m) :=
  within_store (by omega) (by have := a.header_le; omega)

theorem within_setNext : Within b (b + a.blockSize) m (setNext a b v m) :=
  within_store (by omega) (by have := a.header_le; omega)

theorem within_setFree : Within b (b + a.blockSize) m (setFree a b v m) :=
  within_store (by omega) (by have := a.header_le; omega)

theorem header_within (h : Within lo hi m m') (hb : b + a.blockSize ≤ lo ∨ hi ≤ b) :
    sizeAt a m' b = sizeAt a m b ∧ nextAt a m' b = nextAt a m b ∧ freeAt a m' b = freeAt a m b := by
  have hH := a.header_le
  exact ⟨h.load (by omega), h.load (by omega), h.load (by omega)⟩

theorem newFree_spec {size next : Nat} (hs : size < 2 ^ a.bits) (hn : next < 2 ^ a.bits) :
    Within c (c + a.blockSize) m (newFree a c size next m) ∧ sizeAt a (newFree a c size next m) c = size ∧
      nextAt a (newFree a c size next m) c = next ∧ freeAt a (newFree a c size next m) c = 1 := by
  unfold newFree
  refine ⟨(within_setSize.trans within_setFree).trans within_setNext, ?_, nextAt_setNext hn, ?_⟩
  · rw [sizeAt_setNext, sizeAt_setFree, sizeAt_setSize hs]
  · rw [freeAt_setNext, freeAt_setFree (by decide)]

theorem newLast_spec {size : Nat} (hs : size < 2 ^ a.bits) :
    Within c (c + a.blockSize) m (newLast a c size m) ∧ sizeAt a (newLast a c size m) c = size ∧
      nextAt a (newLast a c size m) c = 0 ∧ freeAt a (newLast a c size m) c = 0 := by
  unfold newLast
  refine ⟨(within_setSize.trans within_setFree).trans within_setNext, ?_, nextAt_setNext (Nat.two_pow_pos _), ?_⟩
  · rw [sizeAt_setNext, sizeAt_setFree, sizeAt_setSize hs]
  · rw [freeAt_setNext, freeAt_setFree (by decide)]

theorem absorb_spec (hc : b + a.blockSize ≤ c) (hs : lenAt a m b + sizeAt a m c < 2 ^ a.bits) :
    Within b (b + a.blockSize) m (absorb a b c m) ∧ sizeAt a (absorb a b c m) b = lenAt a m b + sizeAt a m c ∧
      nextAt a (absorb a b c m) b = nextAt a m c ∧ freeAt a (absorb a b c m) b = freeAt a m b := by
  have hnext := (header_within (a := a) (within_setSize (a := a) (m := m) (b := b)
    (v := sizeAt a m b + a.blockSize + sizeAt a m c)) (Or.inr hc)).2.1
  have hlt : nextAt a m c < 2 ^ a.bits := by
    rw [← a.pow_wordBytes]
    exact load_lt _ _ _
  have hsum : lenAt a m b + sizeAt a m c = sizeAt a m b + a.blockSize + sizeAt a m c := by
    unfold lenAt
    omega
  unfold absorb
  dsimp only
  rw [hnext, hsum]
  rw [hsum] at hs
  refine ⟨within_setSize.trans within_setNext, ?_, nextAt_setNext hlt, ?_⟩
  · rw [sizeAt_setNext, sizeAt_setSize hs]
  · rw [freeAt_setNext, freeAt_setSize]

end

/-! ## The blocks -/

/-- **The blocks tile the arena up to the break**, and their sizes are multiples of 16. -/
structure Blocks (a : Arch) (m : Mem) (head brk : Nat) (l : List Nat) : Prop where
  tiles : Tiles (nextAt a m) (lenAt a m) head a.heapBase l 0 brk
  aligned : ∀ b ∈ l, 16 ∣ sizeAt a m b
  inside : brk ≤ a.heapBase + heapSize

/-- Block `b` is in use. -/
structure Used (a : Arch) (m : Mem) (l : List Nat) (b : Nat) : Prop where
  mem : b ∈ l
  used : freeAt a m b = 0

section

variable {m m' : Mem} {head brk b c x n : Nat} {l l' xs ys : List Nat}

theorem Blocks.le_break (h : Blocks a m head brk l) (hb : b ∈ l) : a.heapBase ≤ b ∧ b + lenAt a m b ≤ brk :=
  h.tiles.bounds hb

theorem Blocks.dvd (h : Blocks a m head brk l) : 16 ∣ brk ∧ ∀ b ∈ l, 16 ∣ b :=
  h.tiles.dvd (Nat.dvd_trans (by decide) a.heapBase_dvd) (fun b hb => Nat.dvd_add a.blockSize_dvd (h.aligned b hb))

theorem Blocks.ne_zero (h : Blocks a m head brk l) (hb : b ∈ l) : b ≠ 0 := by
  have := h.le_break hb
  have := a.heapBase_pos
  omega

theorem Blocks.lt_word (h : Blocks a m head brk l) (hb : b ∈ l) : b + lenAt a m b < 2 ^ a.bits := by
  have := h.le_break hb
  have := h.inside
  have := a.arena_lt
  omega

theorem lenAt_pos (a : Arch) (m : Mem) (b : Nat) : a.blockSize ≤ lenAt a m b := Nat.le_add_right _ _

theorem Blocks.apart (h : Blocks a m head brk l) (hb : b ∈ l) (hx : x ∈ l) (hne : x ≠ b) :
    x + lenAt a m x ≤ b ∨ b + lenAt a m b ≤ x := h.tiles.apart hx hb hne

theorem Blocks.other (h : Blocks a m head brk l) (hb : b ∈ l) (hw : Within b (b + lenAt a m b) m m') (hx : x ∈ l)
    (hne : x ≠ b) : (sizeAt a m' x = sizeAt a m x ∧ nextAt a m' x = nextAt a m x ∧ freeAt a m' x = freeAt a m x) ∧
      ∀ i, x ≤ i → i < x + lenAt a m x → m' i = m i := by
  have hxb := h.apart hb hx hne
  have hH := lenAt_pos a m x
  exact ⟨header_within hw (by omega), fun i h1 h2 => hw i (by omega)⟩

theorem Blocks.ne_of_left (h : Blocks a m head brk (xs ++ b :: ys)) (hx : x ∈ xs) : x ≠ b := by
  have := h.tiles.before hx
  have := lenAt_pos a m x
  have := a.blockSize_le
  omega

theorem Blocks.ne_of_right (h : Blocks a m head brk (xs ++ b :: ys)) (hx : x ∈ ys) : x ≠ b := by
  have := h.tiles.behind hx
  have := lenAt_pos a m b
  have := a.blockSize_le
  omega

theorem Blocks.sides (h : Blocks a m head brk (xs ++ b :: ys)) (hw : Within b (b + lenAt a m b) m m') :
    (∀ x ∈ xs, nextAt a m' x = nextAt a m x ∧ lenAt a m' x = lenAt a m x) ∧
      ∀ x ∈ ys, nextAt a m' x = nextAt a m x ∧ lenAt a m' x = lenAt a m x := by
  have hone : ∀ x ∈ xs ++ b :: ys, x ≠ b → nextAt a m' x = nextAt a m x ∧ lenAt a m' x = lenAt a m x := by
    intro x hx hne
    obtain ⟨⟨hs, hn, -⟩, -⟩ := h.other (by simp) hw hx hne
    exact ⟨hn, congrArg (a.blockSize + ·) hs⟩
  exact ⟨fun x hx => hone x (by simp [hx]) (h.ne_of_left hx), fun x hx => hone x (by simp [hx]) (h.ne_of_right hx)⟩

theorem Blocks.sizes (h : Blocks a m head brk (xs ++ b :: ys)) (hw : Within b (b + lenAt a m b) m m') :
    (∀ x ∈ xs, 16 ∣ sizeAt a m' x) ∧ ∀ x ∈ ys, 16 ∣ sizeAt a m' x := by
  have hone : ∀ x ∈ xs ++ b :: ys, x ≠ b → 16 ∣ sizeAt a m' x := by
    intro x hx hne
    rw [(h.other (by simp) hw hx hne).1.1]
    exact h.aligned x hx
  exact ⟨fun x hx => hone x (by simp [hx]) (h.ne_of_left hx), fun x hx => hone x (by simp [hx]) (h.ne_of_right hx)⟩

theorem within_block (h : Within b (b + a.blockSize) m m') : Within b (b + lenAt a m b) m m' :=
  h.mono (Nat.le_refl b) (Nat.add_le_add_left (lenAt_pos a m b) b)

theorem Blocks.setFree (h : Blocks a m head brk l) (hb : b ∈ l) (v : Nat) : Blocks a (setFree a b v m) head brk l := by
  have hone : ∀ x ∈ l, nextAt a (Mm.setFree a b v m) x = nextAt a m x ∧
      sizeAt a (Mm.setFree a b v m) x = sizeAt a m x := by
    intro x hx
    by_cases hxb : x = b
    · subst hxb
      exact ⟨nextAt_setFree, sizeAt_setFree⟩
    · obtain ⟨⟨hs, hn, -⟩, -⟩ := h.other hb (within_block within_setFree) hx hxb
      exact ⟨hn, hs⟩
  refine ⟨h.tiles.congr (fun x hx => ⟨(hone x hx).1, congrArg (a.blockSize + ·) (hone x hx).2⟩), fun x hx => ?_,
    h.inside⟩
  rw [(hone x hx).2]
  exact h.aligned x hx

theorem Blocks.split (h : Blocks a m head brk (xs ++ b :: ys)) (hw : Within b (b + lenAt a m b) m m') (hn : 16 ∣ n)
    (hle : n + a.blockSize ≤ sizeAt a m b) (hc : b + a.blockSize + n = c) (hsb : sizeAt a m' b = n)
    (hnb : nextAt a m' b = c) (hsc : sizeAt a m' c = sizeAt a m b - n - a.blockSize)
    (hnc : nextAt a m' c = nextAt a m b) : Blocks a m' head brk (xs ++ b :: c :: ys) := by
  obtain ⟨hx, hy⟩ := h.sides hw
  obtain ⟨hsx, hsy⟩ := h.sizes hw
  refine ⟨h.tiles.split hx hy hnb ?_ hnc ?_, fun x hmem => ?_, h.inside⟩
  · unfold lenAt
    omega
  · unfold lenAt
    omega
  · have hb16 := h.aligned b (by simp)
    have hH := a.blockSize_dvd
    rcases List.mem_append.1 hmem with hmem | hmem
    · exact hsx x hmem
    · rcases List.mem_cons.1 hmem with rfl | hmem
      · rw [hsb]
        exact hn
      · rcases List.mem_cons.1 hmem with rfl | hmem
        · rw [hsc]
          omega
        · exact hsy x hmem

theorem Blocks.absorb_header (h : Blocks a m head brk (xs ++ b :: c :: ys)) :
    Within b (b + a.blockSize) m (absorb a b c m) ∧ sizeAt a (absorb a b c m) b = lenAt a m b + sizeAt a m c ∧
      nextAt a (absorb a b c m) b = nextAt a m c ∧ freeAt a (absorb a b c m) b = freeAt a m b := by
  have hbc : b + lenAt a m b ≤ c := h.tiles.behind List.mem_cons_self
  have hlt := h.lt_word (b := c) (by simp)
  have hH := lenAt_pos a m b
  refine absorb_spec (by omega) ?_
  unfold lenAt at *
  omega

theorem Blocks.absorb (h : Blocks a m head brk (xs ++ b :: c :: ys)) :
    Blocks a (absorb a b c m) head brk (xs ++ b :: ys) := by
  obtain ⟨hw, hs, hn, -⟩ := h.absorb_header
  obtain ⟨hx, hy⟩ := h.sides (within_block hw)
  obtain ⟨hsx, hsy⟩ := h.sizes (within_block hw)
  refine ⟨h.tiles.join hx (fun y hm => hy y (List.mem_cons_of_mem c hm)) hn ?_, fun x hmem => ?_, h.inside⟩
  · unfold lenAt at *
    omega
  · rcases List.mem_append.1 hmem with hmem | hmem
    · exact hsx x hmem
    · rcases List.mem_cons.1 hmem with rfl | hmem
      · have h1 := h.aligned x (by simp)
        have h2 := h.aligned c (by simp)
        rw [hs]
        exact Nat.dvd_add (Nat.dvd_add a.blockSize_dvd h1) h2
      · exact hsy x (List.mem_cons_of_mem c hmem)

theorem Blocks.snoc (h : Blocks a m head brk (xs ++ [b])) (hlow : ∀ i, i < b → m' i = m i)
    (hsb : sizeAt a m' b = sizeAt a m b) (hnb : nextAt a m' b = brk) (hs : sizeAt a m' brk = n)
    (hn : nextAt a m' brk = 0) (h16 : 16 ∣ n) (hin : brk + (a.blockSize + n) ≤ a.heapBase + heapSize) :
    Blocks a m' head (brk + (a.blockSize + n)) (xs ++ [b, brk]) := by
  have hleft : ∀ x ∈ xs, sizeAt a m' x = sizeAt a m x ∧ nextAt a m' x = nextAt a m x := by
    intro x hx
    have hxb := h.tiles.before hx
    have hlen := lenAt_pos a m x
    have hH := a.header_le
    exact ⟨load_congr (fun i _ _ => hlow i (by omega)), load_congr (fun i _ _ => hlow i (by omega))⟩
  refine ⟨?_, fun x hmem => ?_, hin⟩
  · have ht : Tiles (nextAt a m') (lenAt a m') head a.heapBase (xs ++ [b, brk]) (nextAt a m' brk)
        (brk + lenAt a m' brk) := h.tiles.snoc
      (fun x hx => ⟨(hleft x hx).2, congrArg (a.blockSize + ·) (hleft x hx).1⟩) hnb (congrArg (a.blockSize + ·) hsb)
    rw [hn] at ht
    unfold lenAt at ht
    rw [hs] at ht
    exact ht
  · rcases List.mem_append.1 hmem with hmem | hmem
    · rw [(hleft x hmem).1]
      exact h.aligned x (by simp [hmem])
    · rcases List.mem_cons.1 hmem with rfl | hmem
      · rw [hsb]
        exact h.aligned x (by simp)
      · rw [List.mem_singleton.1 hmem, hs]
        exact h16

theorem Blocks.first (hs : sizeAt a m a.heapBase = n) (hn : nextAt a m a.heapBase = 0) (h16 : 16 ∣ n)
    (hin : a.blockSize + n ≤ heapSize) : Blocks a m a.heapBase (a.heapBase + (a.blockSize + n)) [a.heapBase] := by
  refine ⟨⟨rfl, rfl, hn, ?_⟩, fun x hx => ?_, by omega⟩
  · unfold lenAt
    rw [hs]
  · rw [List.mem_singleton.1 hx, hs]
    exact h16

/-! ## What is kept -/

/-- **The blocks in use, except `p`, stay in use with the size and the bytes they have.** -/
def Kept (a : Arch) (p : Nat) (m : Mem) (l : List Nat) (m' : Mem) (l' : List Nat) : Prop :=
  ∀ x, Used a m l x → x ≠ p → Used a m' l' x ∧ sizeAt a m' x = sizeAt a m x ∧
    ∀ i, x + a.blockSize ≤ i → i < x + lenAt a m x → m' i = m i

theorem Kept.refl (p : Nat) (m : Mem) (l : List Nat) : Kept a p m l m l :=
  fun _ hx _ => ⟨hx, rfl, fun _ _ _ => rfl⟩

theorem Kept.trans {m'' : Mem} {l'' : List Nat} {p : Nat} (h : Kept a p m l m' l') (h' : Kept a p m' l' m'' l'') :
    Kept a p m l m'' l'' := by
  intro x hx hne
  obtain ⟨hu, hs, hb⟩ := h x hx hne
  obtain ⟨hu', hs', hb'⟩ := h' x hu hne
  refine ⟨hu', hs'.trans hs, fun i h1 h2 => (hb' i h1 ?_).trans (hb i h1 h2)⟩
  unfold lenAt at *
  omega

theorem Kept.of_free {p q : Nat} (h : Kept a p m l m' l') (hp : ¬Used a m l p) : Kept a q m l m' l' :=
  fun x hx _ => h x hx (fun he => hp (he ▸ hx))

theorem Kept.except {p q : Nat} (h : Kept a p m l m' l') (hp : ∀ x ∈ l, x ≠ p) : Kept a q m l m' l' :=
  h.of_free (fun hu => hp p hu.mem rfl)

theorem Blocks.kept (h : Blocks a m head brk l) (hb : b ∈ l) (hw : Within b (b + lenAt a m b) m m')
    (hl : ∀ x ∈ l, x ≠ b → freeAt a m x = 0 → x ∈ l') : Kept a b m l m' l' := by
  intro x hx hne
  obtain ⟨⟨hs, -, hf⟩, hbytes⟩ := h.other hb hw hx.mem hne
  exact ⟨⟨hl x hx.mem hne hx.used, hf.trans hx.used⟩, hs, fun i h1 h2 => hbytes i (by omega) h2⟩

theorem Blocks.flags (h : Blocks a m head brk (xs ++ b :: ys)) (hw : Within b (b + lenAt a m b) m m') :
    (∀ x ∈ xs, freeAt a m' x = freeAt a m x) ∧ ∀ x ∈ ys, freeAt a m' x = freeAt a m x :=
  ⟨fun x hx => (h.other (by simp) hw (by simp [hx]) (h.ne_of_left hx)).1.2.2,
    fun x hx => (h.other (by simp) hw (by simp [hx]) (h.ne_of_right hx)).1.2.2⟩

def Joined (a : Arch) (m : Mem) (l : List Nat) : Prop := NoTwo (fun b => freeAt a m b ≠ 0) l

theorem Joined.congr (h : Joined a m l) (hf : ∀ x ∈ l, freeAt a m' x = freeAt a m x) : Joined a m' l :=
  NoTwo.congr h (fun x hx h' he => h' ((hf x hx).trans he))

/-! ## Taking a block -/

theorem takeBlock_spec (h : Blocks a m head brk l) (hj : Joined a m l) (hb : b ∈ l) (hf : freeAt a m b ≠ 0)
    (hn : 16 ∣ n) (hle : n ≤ sizeAt a m b) : ∃ l', Blocks a (takeBlock a b n m) head brk l' ∧
      Joined a (takeBlock a b n m) l' ∧ Used a (takeBlock a b n m) l' b ∧ n ≤ sizeAt a (takeBlock a b n m) b ∧
      Kept a 0 m l (takeBlock a b n m) l' := by
  have hnot : ¬Used a m l b := fun hu => hf hu.used
  obtain ⟨xs, ys, rfl⟩ := List.append_of_mem hb
  have hjl : Joined a m xs := NoTwo.left hj
  have hjr : Joined a m (b :: ys) := NoTwo.right hj
  have hlt := h.lt_word hb
  unfold takeBlock
  dsimp only
  by_cases hsplit : a.blockSize + 8 < sizeAt a m b - n
  · rw [if_pos hsplit]
    generalize hc : b + a.blockSize + n = c
    have hH := a.blockSize_le
    have hlen : lenAt a m b = a.blockSize + sizeAt a m b := rfl
    have hnext : nextAt a m b < 2 ^ a.bits := by
      rw [← a.pow_wordBytes]
      exact load_lt _ _ _
    have hrest : sizeAt a m b - n - a.blockSize < 2 ^ a.bits := by omega
    obtain ⟨hw1, hs1, hn1, hf1⟩ := newFree_spec (a := a) (m := m) (c := c) hrest hnext
    generalize newFree a c (sizeAt a m b - n - a.blockSize) (nextAt a m b) m = m1 at hw1 hs1 hn1 hf1 ⊢
    -- the header of `b` is written after the header of `c`
    have hw2 : Within b (b + a.blockSize) m1 (setNext a b c (setFree a b 0 (setSize a b n m1))) :=
      (within_setSize.trans within_setFree).trans within_setNext
    have hsb : sizeAt a (setNext a b c (setFree a b 0 (setSize a b n m1))) b = n := by
      rw [sizeAt_setNext, sizeAt_setFree, sizeAt_setSize (by omega)]
    have hnb : nextAt a (setNext a b c (setFree a b 0 (setSize a b n m1))) b = c := nextAt_setNext (by omega)
    have hfb : freeAt a (setNext a b c (setFree a b 0 (setSize a b n m1))) b = 0 := by
      rw [freeAt_setNext, freeAt_setFree (by decide)]
    generalize setNext a b c (setFree a b 0 (setSize a b n m1)) = m2 at hw2 hsb hnb hfb ⊢
    obtain ⟨hsc, hnc, hfc⟩ := header_within hw2 (b := c) (Or.inr (by omega))
    have hw : Within b (b + lenAt a m b) m m2 :=
      (hw1.mono (by omega) (by omega)).trans (hw2.mono (Nat.le_refl b) (by omega))
    have hblocks := h.split hw hn (by omega) hc hsb hnb (hsc.trans hs1) (hnc.trans hn1)
    obtain ⟨hfx, hfy⟩ := h.flags hw
    refine ⟨xs ++ b :: c :: ys, hblocks, ?_, ⟨by simp, hfb⟩, Nat.le_of_eq hsb.symm, ?_⟩
    · refine noTwo_of_not (fun h' => h' hfb) (Joined.congr hjl hfx) ?_
      -- `c` stands where `b` stood, and the block behind it is not free
      exact noTwo_head hjr hf (fun y hy h' he => h' ((hfy y hy).trans he)) c
    · refine (h.kept hb hw (fun x hx hne _ => ?_)).of_free hnot
      simp only [List.mem_append, List.mem_cons] at hx ⊢
      tauto
  · rw [if_neg hsplit]
    have hw : Within b (b + lenAt a m b) m (setFree a b 0 m) := within_block within_setFree
    have hfb : freeAt a (setFree a b 0 m) b = 0 := freeAt_setFree (by decide)
    obtain ⟨hfx, hfy⟩ := h.flags hw
    refine ⟨xs ++ b :: ys, h.setFree hb 0, ?_, ⟨hb, hfb⟩, ?_, (h.kept hb hw (fun x hx _ _ => hx)).of_free hnot⟩
    · exact noTwo_of_not (fun h' => h' hfb) (Joined.congr hjl hfx) (Joined.congr (NoTwo.tail hjr) hfy)
    · rw [sizeAt_setFree]
      exact hle

/-! ## Joining and cutting -/

theorem Blocks.joinNext (h : Blocks a m head brk (xs ++ b :: ys)) (hj : Joined a m ys) (hf : freeAt a m b ≠ 0)
    (hm : m' = if nextAt a m b ≠ 0 ∧ freeAt a m (nextAt a m b) ≠ 0 then Mm.absorb a b (nextAt a m b) m else m) :
    ∃ ys', Blocks a m' head brk (xs ++ b :: ys') ∧ Joined a m' (b :: ys') ∧ freeAt a m' b ≠ 0 ∧
      Within b (b + a.blockSize) m m' ∧ (∀ x ∈ ys, freeAt a m x = 0 → x ∈ ys') := by
  by_cases hnext : nextAt a m b ≠ 0 ∧ freeAt a m (nextAt a m b) ≠ 0
  · rw [if_pos hnext] at hm
    cases ys with
    | nil => exact absurd (tiles_last.1 h.tiles).2.1 hnext.1
    | cons c ys =>
      have hc : nextAt a m b = c := (tiles_mid.1 h.tiles).2.1
      rw [hc] at hm hnext
      subst hm
      obtain ⟨hw, -, -, hfb⟩ := h.absorb_header
      obtain ⟨-, hfy⟩ := h.flags (within_block hw)
      refine ⟨ys, h.absorb, ?_, (fun he => hf (hfb.symm.trans he)), hw, fun x hx hx0 => ?_⟩
      · exact noTwo_head hj hnext.2 (fun y hy h' he => h' ((hfy y (by simp [hy])).trans he)) b
      · rcases List.mem_cons.1 hx with rfl | hx
        · exact absurd hx0 hnext.2
        · exact hx
  · rw [if_neg hnext] at hm
    subst hm
    refine ⟨ys, h, ?_, hf, Within.refl _ _ _, fun x hx _ => hx⟩
    cases ys with
    | nil => exact List.IsChain.singleton _
    | cons c ys =>
      have hc : nextAt a m' b = c := (tiles_mid.1 h.tiles).2.1
      refine noTwo_cons.2 ⟨fun h' => hnext ?_, hj⟩
      rw [hc]
      exact ⟨h.ne_zero (by simp), h'.2⟩

theorem Blocks.prev_eq (h : Blocks a m head brk (xs ++ b :: ys)) {p : Nat} (hp : p ∈ xs ++ b :: ys)
    (hn : nextAt a m p = b) : ∃ ws, xs = ws ++ [p] := by
  have hb0 : b ≠ 0 := h.ne_zero (by simp)
  have hlen := lenAt_pos a m p
  have hlenb := lenAt_pos a m b
  have hH := a.blockSize_le
  have hpb : p + lenAt a m p = b := by
    rcases h.tiles.next_cases hp with ⟨_, _, h0, _⟩ | ⟨_, c, _, _, hc, hpc⟩
    · exact absurd (hn.symm.trans h0) hb0
    · exact hpc.trans (hc.symm.trans hn)
  rcases List.mem_append.1 hp with hp | hp
  · obtain ⟨ws, zs, rfl⟩ := List.append_of_mem hp
    cases zs with
    | nil => exact ⟨ws, rfl⟩
    | cons z zs =>
      have hz : nextAt a m p = z := by
        have ht := h.tiles
        rw [List.append_assoc, List.cons_append, List.cons_append] at ht
        exact (tiles_mid.1 ht).2.1
      exact absurd (hz.symm.trans hn) (h.ne_of_left (by simp))
  · rcases List.mem_cons.1 hp with rfl | hp
    · omega
    · have := h.tiles.behind hp
      omega

theorem freeBlock_spec (h : Blocks a m head brk (xs ++ b :: ys)) (hj : Joined a m (xs ++ b :: ys)) :
    ∃ ys', Blocks a (freeBlock a b m) head brk (xs ++ b :: ys') ∧ Joined a (freeBlock a b m) (b :: ys') ∧
      freeAt a (freeBlock a b m) b ≠ 0 ∧ Joined a (freeBlock a b m) xs ∧
      Kept a b m (xs ++ b :: ys) (freeBlock a b m) (xs ++ b :: ys') := by
  have hb : b ∈ xs ++ b :: ys := by simp
  have h1 := h.setFree hb 1
  have hw1 : Within b (b + lenAt a m b) m (setFree a b 1 m) := within_block within_setFree
  have hf1 : freeAt a (setFree a b 1 m) b ≠ 0 := by
    rw [freeAt_setFree (by decide)]
    decide
  obtain ⟨hx1, hy1⟩ := h.flags hw1
  have hj1 : Joined a (setFree a b 1 m) ys := Joined.congr (NoTwo.tail (NoTwo.right hj)) hy1
  obtain ⟨ys', hblocks, hjoin, hf, hw2, hmem⟩ := h1.joinNext hj1 hf1 rfl
  obtain ⟨hx2, -⟩ := h1.flags (within_block hw2)
  have hw : Within b (b + lenAt a m b) m (freeBlock a b m) := within_block (within_setFree.trans hw2)
  refine ⟨ys', hblocks, hjoin, hf, ?_, h.kept hb hw (fun x hx hne hx0 => ?_)⟩
  · exact Joined.congr (NoTwo.left hj) (fun x hx => (hx2 x hx).trans (hx1 x hx))
  · rcases List.mem_append.1 hx with hx | hx
    · simp [hx]
    · rcases List.mem_cons.1 hx with rfl | hx
      · simp
      · have := hmem x hx ((hy1 x hx).trans hx0)
        simp [this]

theorem shrinkBlock_spec (h : Blocks a m head brk l) (hj : Joined a m l) (hu : Used a m l b) (hn : 16 ∣ n)
    (hle : n ≤ sizeAt a m b) : ∃ l', Blocks a (shrinkBlock a b n m) head brk l' ∧
      Joined a (shrinkBlock a b n m) l' ∧ Used a (shrinkBlock a b n m) l' b ∧ n ≤ sizeAt a (shrinkBlock a b n m) b ∧
      Kept a b m l (shrinkBlock a b n m) l' ∧
      ∀ i, i < n → shrinkBlock a b n m (b + a.blockSize + i) = m (b + a.blockSize + i) := by
  have hb := hu.mem
  obtain ⟨xs, ys, rfl⟩ := List.append_of_mem hb
  have hlt := h.lt_word hb
  unfold shrinkBlock
  dsimp only
  by_cases hsplit : a.blockSize + 16 < sizeAt a m b - n
  · rw [if_pos hsplit]
    generalize hc : b + a.blockSize + n = c
    have hH := a.blockSize_le
    have hlen : lenAt a m b = a.blockSize + sizeAt a m b := rfl
    have hnext : nextAt a m b < 2 ^ a.bits := by
      rw [← a.pow_wordBytes]
      exact load_lt _ _ _
    have hrest : sizeAt a m b - n - a.blockSize < 2 ^ a.bits := by omega
    obtain ⟨hw1, hs1, hn1, hf1⟩ := newFree_spec (a := a) (m := m) (c := c) hrest hnext
    obtain ⟨-, -, hfb1⟩ := header_within (a := a) hw1 (b := b) (Or.inl (by omega))
    generalize newFree a c (sizeAt a m b - n - a.blockSize) (nextAt a m b) m = m1 at hw1 hs1 hn1 hf1 hfb1 ⊢
    have hw2 : Within b (b + a.blockSize) m1 (setNext a b c (setSize a b n m1)) :=
      within_setSize.trans within_setNext
    have hsb : sizeAt a (setNext a b c (setSize a b n m1)) b = n := by
      rw [sizeAt_setNext, sizeAt_setSize (by omega)]
    have hnb : nextAt a (setNext a b c (setSize a b n m1)) b = c := nextAt_setNext (by omega)
    have hfb : freeAt a (setNext a b c (setSize a b n m1)) b = 0 := by
      rw [freeAt_setNext, freeAt_setSize, hfb1, hu.used]
    generalize setNext a b c (setSize a b n m1) = m2 at hw2 hsb hnb hfb ⊢
    obtain ⟨hsc, hnc, hfc⟩ := header_within (a := a) hw2 (b := c) (Or.inr (by omega))
    have hw12 : Within b (b + lenAt a m b) m m2 :=
      (hw1.mono (by omega) (by omega)).trans (hw2.mono (Nat.le_refl b) (by omega))
    have hblocks := h.split hw12 hn (by omega) hc hsb hnb (hsc.trans hs1) (hnc.trans hn1)
    obtain ⟨hfx, hfy⟩ := h.flags hw12
    -- what was split off is joined with the block behind it
    have hsplit' : Blocks a m2 head brk ((xs ++ [b]) ++ c :: ys) := by
      rw [List.append_assoc]
      exact hblocks
    have hfc0 : freeAt a m2 c ≠ 0 := by
      rw [hfc, hf1]
      decide
    obtain ⟨ys', hblocks', hjoin, -, hw3, hmem⟩ := hsplit'.joinNext
      (Joined.congr (NoTwo.tail (NoTwo.right hj)) hfy) hfc0 rfl
    generalize (if nextAt a m2 c ≠ 0 ∧ freeAt a m2 (nextAt a m2 c) ≠ 0 then absorb a c (nextAt a m2 c) m2 else m2) = m3
      at hblocks' hjoin hw3 ⊢
    obtain ⟨hfx3, -⟩ := hsplit'.flags (within_block hw3)
    obtain ⟨hsb3, -, -⟩ := header_within (a := a) hw3 (b := b) (Or.inl (by omega))
    have hfb3 : freeAt a m3 b = 0 := (hfx3 b (by simp)).trans hfb
    have hw : Within b (b + lenAt a m b) m m3 := hw12.trans (hw3.mono (by omega) (by omega))
    rw [List.append_assoc, List.singleton_append] at hblocks'
    refine ⟨xs ++ b :: c :: ys', hblocks', ?_, ⟨by simp, hfb3⟩, Nat.le_of_eq (hsb3.trans hsb).symm, ?_, fun i hi => ?_⟩
    · refine noTwo_of_not (fun h' => h' hfb3) ?_ hjoin
      exact Joined.congr (NoTwo.left hj) (fun x hx => (hfx3 x (by simp [hx])).trans (hfx x hx))
    · refine h.kept hb hw (fun x hx hne hx0 => ?_)
      rcases List.mem_append.1 hx with hx | hx
      · simp [hx]
      · rcases List.mem_cons.1 hx with rfl | hx
        · simp
        · have := hmem x hx ((hfy x hx).trans hx0)
          simp [this]
    · rw [hw3 _ (by omega), hw2 _ (by omega), hw1 _ (by omega)]
  · rw [if_neg hsplit]
    exact ⟨xs ++ b :: ys, h, hj, hu, hle, Kept.refl _ _ _, fun _ _ => rfl⟩

end

end Mm
end AmitX
