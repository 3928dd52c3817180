import AmitX.Mm.HeapCalls
/-!
# HeapRun — the heap over any sequence of calls

`Held` ties the allocations that callers hold to the blocks in use.  Each call keeps it, and from `heap_init` on it holds
in every state of a run; what the callers are owed (`HeapSound`, `CallKeeps`) follows from it.
-/
namespace AmitX
namespace Mm

open Run Bytes Tiling

variable {a : Arch}

def Alloc.payload (a : Arch) (m : Mem) (x : Alloc) : Nat := sizeAt a m (x.ptr - a.blockSize)

/-- **What holds between two calls**; `l` is the list of the blocks. -/
structure HeapSound (a : Arch) (s : HeapState) (l : List Nat) : Prop where
  tiles : Tiles (nextAt a s.heap.mem) (lenAt a s.heap.mem) s.heap.head a.heapBase l 0 s.heap.heapBreak
  joined : Joined a s.heap.mem l
  inUse : ∀ x ∈ s.live, ∃ b ∈ l, x.ptr = b + a.blockSize ∧ freeAt a s.heap.mem b = 0
  aligned : ∀ x ∈ s.live, 16 ∣ x.ptr
  large : ∀ x ∈ s.live, x.size ≤ x.payload a s.heap.mem
  disjoint : s.live.Pairwise fun x y =>
    x.ptr + x.payload a s.heap.mem ≤ y.ptr ∨ y.ptr + y.payload a s.heap.mem ≤ x.ptr

def HeapCall.target : HeapCall → Nat
  | .free ptr => ptr
  | .realloc ptr _ _ => ptr
  | _ => 0

def HeapCall.Writes (i : Nat) : HeapCall → Prop
  | .write addr _ => i = addr
  | _ => False

/-- **What a call owes to the bytes**: it has an answer, the payloads of the other holders keep their bytes, and
`realloc` keeps the first bytes of its own, all of them when it fails. -/
structure CallKeeps (a : Arch) (s : HeapState) (c : HeapCall) : Prop where
  answers : ∃ r, (c.step a s).1 = some r
  others : ∀ x ∈ s.live, x.ptr ≠ c.target → ∀ i, i < x.payload a s.heap.mem → ¬c.Writes (x.ptr + i) →
    (c.step a s).2.heap.mem (x.ptr + i) = s.heap.mem (x.ptr + i)
  moved : ∀ ptr size frames r, c = .realloc ptr size frames → (c.step a s).1 = some r → r ≠ 0 → ∀ x ∈ s.live,
    x.ptr = ptr → ∀ i, i < min x.size size → (c.step a s).2.heap.mem (r + i) = s.heap.mem (ptr + i)
  failed : ∀ ptr size frames, c = .realloc ptr size frames → size ≠ 0 → (c.step a s).1 = some 0 → ∀ x ∈ s.live,
    ∀ i, i < x.payload a s.heap.mem → (c.step a s).2.heap.mem (x.ptr + i) = s.heap.mem (x.ptr + i)

def heapAfter (a : Arch) (h : Heap) (calls : List HeapCall) : HeapState := (run (HeapCall.step a) ⟨h, []⟩ calls).2

/-! ## Holders and blocks -/

structure Held (a : Arch) (s : HeapState) (l : List Nat) : Prop where
  good : Good a s.heap l
  block : ∀ x ∈ s.live, ∃ b, x.ptr = b + a.blockSize ∧ Used a s.heap.mem l b ∧ x.size ≤ sizeAt a s.heap.mem b
  distinct : s.live.Pairwise (fun x y => x.ptr ≠ y.ptr)

section

variable {s : HeapState} {h : Heap} {l l' : List Nat} {live : List Alloc} {p b n r : Nat} {c : HeapCall}
  {frames : Nat → Option Mem}

theorem Held.sound (hs : Held a s l) : HeapSound a s l := by
  have hblocks := hs.good.blocks
  refine ⟨hblocks.tiles, hs.good.joined, fun x hx => ?_, fun x hx => ?_, fun x hx => ?_, ?_⟩
  · obtain ⟨b, hp, hu, -⟩ := hs.block x hx
    exact ⟨b, hu.mem, hp, hu.used⟩
  · obtain ⟨b, hp, hu, -⟩ := hs.block x hx
    rw [hp]
    exact Nat.dvd_add (hblocks.dvd.2 b hu.mem) a.blockSize_dvd
  · obtain ⟨b, hp, hu, hle⟩ := hs.block x hx
    unfold Alloc.payload
    rw [hp, Nat.add_sub_cancel]
    exact hle
  · refine hs.distinct.imp_of_mem (fun {x y} hx hy hne => ?_)
    obtain ⟨b, hpb, hub, -⟩ := hs.block x hx
    obtain ⟨c, hpc, huc, -⟩ := hs.block y hy
    have hbc : b ≠ c := fun he => hne (by rw [hpb, hpc, he])
    have hap := hblocks.tiles.apart hub.mem huc.mem hbc
    unfold Alloc.payload
    unfold lenAt at hap
    rw [hpb, hpc, Nat.add_sub_cancel, Nat.add_sub_cancel]
    omega

theorem Held.bytes {m' : Mem} (hs : Held a s l) (hk : Kept a p s.heap.mem l m' l') {x : Alloc} (hx : x ∈ s.live)
    (hp : x.ptr ≠ p + a.blockSize) {i : Nat} (hi : i < x.payload a s.heap.mem) :
    m' (x.ptr + i) = s.heap.mem (x.ptr + i) := by
  obtain ⟨b, hpb, hu, -⟩ := hs.block x hx
  have hbp : b ≠ p := fun he => hp (by rw [hpb, he])
  unfold Alloc.payload at hi
  rw [hpb, Nat.add_sub_cancel] at hi
  rw [hpb]
  refine (hk b hu hbp).2.2 _ (by omega) ?_
  unfold lenAt
  omega

theorem Held.keep (hs : Held a s l) (hg : Good a h l') (hk : Kept a p s.heap.mem l h.mem l')
    (hsub : live.Sublist s.live) (hp : ∀ x ∈ live, x.ptr ≠ p + a.blockSize) : Held a ⟨h, live⟩ l' := by
  refine ⟨hg, fun x hx => ?_, hs.distinct.sublist hsub⟩
  obtain ⟨b, hpb, hu, hle⟩ := hs.block x (hsub.subset hx)
  have hbp : b ≠ p := fun he => hp x hx (by rw [hpb, he])
  obtain ⟨hu', hs', -⟩ := hk b hu hbp
  exact ⟨b, hpb, hu', by rw [hs']; exact hle⟩

theorem Held.add (hs : Held a ⟨h, live⟩ l) (hu : Used a h.mem l b) (hn : n ≤ sizeAt a h.mem b)
    (hne : ∀ x ∈ live, x.ptr ≠ b + a.blockSize) : Held a ⟨h, ⟨b + a.blockSize, n⟩ :: live⟩ l := by
  refine ⟨hs.good, fun x hx => ?_, List.pairwise_cons.2 ⟨fun x hx he => hne x hx he.symm, hs.distinct⟩⟩
  rcases List.mem_cons.1 hx with rfl | hx
  · exact ⟨b, rfl, hu, hn⟩
  · exact hs.block x hx

theorem Held.ptr_ne (hs : Held a s l) {x : Alloc} (hx : x ∈ s.live) (hb : ¬Used a s.heap.mem l b) :
    x.ptr ≠ b + a.blockSize := by
  obtain ⟨c, hpc, hu, -⟩ := hs.block x hx
  intro he
  have hcb : c = b := by omega
  exact hb (hcb ▸ hu)

theorem Held.ptr_ne_zero (hs : Held a s l) {x : Alloc} (hx : x ∈ s.live) : x.ptr ≠ 0 + a.blockSize :=
  hs.ptr_ne hx (fun hu => hs.good.blocks.ne_zero hu.mem rfl)

theorem dropPtr_sublist (ptr : Nat) (live : List Alloc) : (dropPtr ptr live).Sublist live := List.filter_sublist

theorem mem_dropPtr {ptr : Nat} {x : Alloc} : x ∈ dropPtr ptr live ↔ x ∈ live ∧ x.ptr ≠ ptr := by
  simp [dropPtr]

theorem Held.gain (hs : Held a s l) (hg : Good a h l') (hk : Kept a 0 s.heap.mem l h.mem l')
    (hgrant : Granted a s.heap.mem l h.mem l' n r) {size : Nat} (hsize : size ≤ n) :
    Held a ⟨h, Mm.gain r size s.live⟩ l' := by
  have hkeep := hs.keep hg hk (List.Sublist.refl _) (fun x hx => hs.ptr_ne_zero hx)
  unfold Mm.gain
  rcases hgrant with rfl | ⟨b, rfl, hu, hn, hnot⟩
  · rw [if_pos rfl]
    exact hkeep
  · have hb := hg.blocks.ne_zero hu.mem
    rw [if_neg (by omega)]
    exact hkeep.add hu (Nat.le_trans hsize hn) (fun x hx => hs.ptr_ne hx hnot)

/-! ## One call -/

theorem step_of_exec (h' : c.exec a s.heap = some (r, h)) : c.step a s = (some r, ⟨h, c.hold r s.live⟩) := by
  unfold HeapCall.step
  rw [h']

theorem callKeeps_of_kept (hs : Held a s l) (hexec : c.exec a s.heap = some (r, h))
    (hk : Kept a p s.heap.mem l h.mem l') (hp : ∀ x ∈ s.live, x.ptr ≠ c.target → x.ptr ≠ p + a.blockSize)
    (hc : ∀ ptr size frames, c = .realloc ptr size frames → size = 0 ∧ r = 0 ∨ ptr = 0 ∧ p = 0) :
    CallKeeps a s c := by
  have hstep := step_of_exec hexec
  refine ⟨⟨r, by rw [hstep]⟩, fun x hx hne i hi _ => ?_, fun ptr size frames q he hq hq0 x hx hptr => ?_,
    fun ptr size frames he h0 hq x hx i hi => ?_⟩
  · rw [hstep]
    exact hs.bytes hk hx (hp x hx hne) hi
  · rw [hstep] at hq
    injection hq with hq
    rcases hc ptr size frames he with ⟨-, hr⟩ | ⟨hp0, -⟩
    · exact absurd (hq.symm.trans hr) hq0
    · obtain ⟨b, hpb, hu, -⟩ := hs.block x hx
      have hb := hs.good.blocks.ne_zero hu.mem
      omega
  · rcases hc ptr size frames he with ⟨hz, -⟩ | ⟨-, rfl⟩
    · exact absurd hz h0
    · rw [hstep]
      exact hs.bytes hk hx (hs.ptr_ne_zero hx) hi

def CallOk (a : Arch) (s : HeapState) (c : HeapCall) : Prop := (∃ l, Held a (c.step a s).2 l) ∧ CallKeeps a s c

theorem malloc_ok (hs : Held a s l) (hn : n ≤ heapSize) : CallOk a s (.malloc n frames) := by
  obtain ⟨r, h, l', hmalloc, hg, hk, hgrant⟩ := malloc_spec frames hs.good hn
  have hexec : (HeapCall.malloc n frames).exec a s.heap = some (r, h) := hmalloc
  refine ⟨⟨l', ?_⟩, callKeeps_of_kept hs hexec hk (fun x hx _ => hs.ptr_ne_zero hx) (fun _ _ _ he => by cases he)⟩
  rw [step_of_exec hexec]
  exact hs.gain hg hk hgrant (align16_spec hn).2.1

theorem free_ok {ptr : Nat} (hs : Held a s l) (hptr : ptr = 0 ∨ ∃ x ∈ s.live, x.ptr = ptr) :
    CallOk a s (.free ptr) := by
  rcases hptr with rfl | ⟨x, hx, rfl⟩
  · have hexec : (HeapCall.free 0).exec a s.heap = some (0, s.heap) := rfl
    have hk : Kept a 0 s.heap.mem l s.heap.mem l := Kept.refl _ _ _
    refine ⟨⟨l, ?_⟩, callKeeps_of_kept hs hexec hk (fun x hx _ => hs.ptr_ne_zero hx) (fun _ _ _ he => by cases he)⟩
    rw [step_of_exec hexec]
    exact hs.keep hs.good hk (dropPtr_sublist _ _) (fun x hx => hs.ptr_ne_zero (mem_dropPtr.1 hx).1)
  · obtain ⟨b, hpb, hu, -⟩ := hs.block x hx
    obtain ⟨h, l', hfree, hg, hk⟩ := free_spec hs.good hu
    have hexec : (HeapCall.free x.ptr).exec a s.heap = some (0, h) := by
      show (Mm.free a x.ptr s.heap).map _ = _
      rw [hpb, hfree]
      rfl
    refine ⟨⟨l', ?_⟩, callKeeps_of_kept hs hexec hk (fun y _ hne => hpb ▸ hne) (fun _ _ _ he => by cases he)⟩
    rw [step_of_exec hexec]
    exact hs.keep hg hk (dropPtr_sublist _ _) (fun y hy => hpb ▸ (mem_dropPtr.1 hy).2)

theorem calloc_spec (frames : Nat → Option Mem) {num size : Nat} (hg : Good a h l)
    (hle : num * size ≤ heapSize ∨ 2 ^ a.bits ≤ num * size) : ∃ r h' l', calloc a frames num size h = some (r, h') ∧
      Good a h' l' ∧ Kept a 0 h.mem l h'.mem l' ∧ Granted a h.mem l h'.mem l' (num * size) r := by
  unfold calloc
  by_cases h0 : num = 0 ∨ size = 0
  · rw [if_pos h0]
    exact ⟨0, h, l, rfl, hg, Kept.refl _ _ _, Or.inl rfl⟩
  · rw [if_neg h0]
    have hover : (2 ^ a.bits - 1) / num < size ↔ 2 ^ a.bits ≤ num * size := by
      rw [Nat.div_lt_iff_lt_mul (by omega), Nat.mul_comm size num]
      have := Nat.two_pow_pos a.bits
      omega
    by_cases hbig : (2 ^ a.bits - 1) / num < size
    · rw [if_pos hbig]
      exact ⟨0, h, l, rfl, hg, Kept.refl _ _ _, Or.inl rfl⟩
    · rw [if_neg hbig]
      have htotal : num * size ≤ heapSize := hle.resolve_right (fun h' => hbig (hover.2 h'))
      dsimp only
      obtain ⟨r, h1, l1, hmalloc, hg1, hk1, hgrant⟩ := malloc_spec frames hg htotal
      rw [hmalloc]
      dsimp only
      rcases hgrant with rfl | ⟨b, rfl, hu, hs, hnot⟩
      · rw [if_pos rfl]
        exact ⟨0, h1, l1, rfl, hg1, hk1, Or.inl rfl⟩
      · have hb := hg1.blocks.ne_zero hu.mem
        have hle' := (align16_spec (a := a) htotal).2.1
        have hlen : lenAt a h1.mem b = a.blockSize + sizeAt a h1.mem b := rfl
        rw [if_neg (by omega)]
        obtain ⟨hg2, hk2, hs2, hf2⟩ := hg1.payload (b := b) hu.mem (m := Bytes.fill h1.mem (b + a.blockSize) (num * size) 0)
          (within_fill (Nat.le_refl _) (by omega))
        have hkeep : Kept a b h.mem l _ l1 := (hk1.except (fun x hx => hg.blocks.ne_zero hx)).trans hk2
        exact ⟨_, _, l1, rfl, hg2, hkeep.of_free hnot,
          Or.inr ⟨b, rfl, ⟨hu.mem, hf2.trans hu.used⟩, by rw [hs2]; omega, hnot⟩⟩

theorem calloc_ok {num size : Nat} (hs : Held a s l)
    (hle : num * size ≤ heapSize ∨ 2 ^ a.bits ≤ num * size) : CallOk a s (.calloc num size frames) := by
  obtain ⟨r, h, l', hcalloc, hg, hk, hgrant⟩ := calloc_spec frames hs.good hle
  have hexec : (HeapCall.calloc num size frames).exec a s.heap = some (r, h) := hcalloc
  refine ⟨⟨l', ?_⟩, callKeeps_of_kept hs hexec hk (fun x hx _ => hs.ptr_ne_zero hx) (fun _ _ _ he => by cases he)⟩
  rw [step_of_exec hexec]
  exact hs.gain hg hk hgrant (Nat.le_refl _)

theorem Held.move (hs : Held a s l) (hg : Good a h l') (hk : Kept a b s.heap.mem l h.mem l')
    (hm : Moved a b s.heap.mem l h.mem l' n r) {size : Nat} (hsize : size ≤ n) :
    Held a ⟨h, Mm.gain r size (dropPtr (b + a.blockSize) s.live)⟩ l' := by
  have hkeep := hs.keep hg hk (dropPtr_sublist (b + a.blockSize) _) (fun x hx => (mem_dropPtr.1 hx).2)
  obtain ⟨c, rfl, hu, hn, hc, -⟩ := hm
  have hc0 := hg.blocks.ne_zero hu.mem
  unfold Mm.gain
  rw [if_neg (by omega)]
  refine hkeep.add hu (Nat.le_trans hsize hn) (fun x hx => ?_)
  obtain ⟨hx, hne⟩ := mem_dropPtr.1 hx
  rcases hc with rfl | hnot
  · exact hne
  · exact hs.ptr_ne hx hnot

theorem realloc_ok {ptr : Nat} (hs : Held a s l) (hn : n ≤ heapSize) (hptr : ptr = 0 ∨ ∃ x ∈ s.live, x.ptr = ptr) :
    CallOk a s (.realloc ptr n frames) := by
  rcases hptr with rfl | ⟨x, hx, rfl⟩
  · -- NULL: a `malloc`
    obtain ⟨r, h, l', hmalloc, hg, hk, hgrant⟩ := malloc_spec frames hs.good hn
    have hexec : (HeapCall.realloc 0 n frames).exec a s.heap = some (r, h) := hmalloc
    refine ⟨⟨l', ?_⟩, callKeeps_of_kept hs hexec hk (fun x hx _ => hs.ptr_ne_zero hx) (fun ptr size f he => ?_)⟩
    · rw [step_of_exec hexec]
      have hdrop : dropPtr 0 s.live = s.live := by
        refine List.filter_eq_self.2 (fun x hx => ?_)
        obtain ⟨b, hpb, hu, -⟩ := hs.block x hx
        have hb := hs.good.blocks.ne_zero hu.mem
        exact decide_eq_true (by omega)
      show Held a ⟨h, if r = 0 ∧ n ≠ 0 then s.live else gain r n (dropPtr 0 s.live)⟩ l'
      rw [hdrop]
      split
      case isTrue hr =>
        have hgain := hs.gain hg hk hgrant (align16_spec (a := a) hn).2.1
        unfold Mm.gain at hgain
        rw [if_pos hr.1] at hgain
        exact hgain
      case isFalse => exact hs.gain hg hk hgrant (align16_spec hn).2.1
    · injection he with hp0
      exact Or.inr ⟨hp0.symm, rfl⟩
  · obtain ⟨b, hpb, hu, hsz⟩ := hs.block x hx
    have hb := hs.good.blocks.ne_zero hu.mem
    by_cases h0 : n = 0
    · -- size 0: a `free`
      obtain ⟨h, l', hfree, hg, hk⟩ := free_spec hs.good hu
      have hexec : (HeapCall.realloc x.ptr n frames).exec a s.heap = some (0, h) := by
        show Mm.realloc a frames x.ptr n s.heap = _
        unfold realloc
        rw [hpb, if_neg (by omega), if_pos h0, hfree]
        rfl
      refine ⟨⟨l', ?_⟩, callKeeps_of_kept hs hexec hk (fun y _ hne => hpb ▸ hne) (fun ptr size f he => ?_)⟩
      · rw [step_of_exec hexec]
        show Held a ⟨h, if (0 : Nat) = 0 ∧ n ≠ 0 then s.live else gain 0 n (dropPtr x.ptr s.live)⟩ l'
        rw [if_neg (fun h' => h'.2 h0)]
        exact hs.keep hg hk (dropPtr_sublist _ _) (fun y hy => hpb ▸ (mem_dropPtr.1 hy).2)
      · injection he with _ hn'
        exact Or.inl ⟨hn' ▸ h0, rfl⟩
    · obtain ⟨r, h, l', hrealloc, hg, hk, hcase⟩ := realloc_spec frames hs.good hu hn h0
      have hexec : (HeapCall.realloc x.ptr n frames).exec a s.heap = some (r, h) := by
        show Mm.realloc a frames x.ptr n s.heap = _
        rw [hpb, hrealloc]
      have hstep := step_of_exec (s := s) hexec
      have hsize := (align16_spec (a := a) hn).2.1
      refine ⟨⟨l', ?_⟩, ⟨r, by rw [hstep]⟩, fun y hy hne i hi _ => ?_, fun ptr size f q he hq hq0 y hy hyp i hi => ?_,
        fun ptr size f he _ hq y hy i hi => ?_⟩
      · rw [hstep]
        show Held a ⟨h, if r = 0 ∧ n ≠ 0 then s.live else gain r n (dropPtr x.ptr s.live)⟩ l'
        rcases hcase with ⟨rfl, hk0⟩ | hmoved
        · rw [if_pos ⟨rfl, h0⟩]
          exact hs.keep hg hk0 (List.Sublist.refl _) (fun y hy => hs.ptr_ne_zero hy)
        · have hr : r ≠ 0 := by
            obtain ⟨c, rfl, hc, -⟩ := hmoved
            have := hg.blocks.ne_zero hc.mem
            omega
          rw [if_neg (fun h' => hr h'.1), hpb]
          exact hs.move hg hk hmoved hsize
      · rw [hstep]
        exact hs.bytes hk hy (hpb ▸ hne) hi
      · rw [hstep] at hq ⊢
        injection hq with hq
        injection he with hptr hsz'
        subst hq
        subst hsz'
        rcases hcase with ⟨hr, -⟩ | ⟨c, rfl, -, -, -, hbytes⟩
        · exact absurd hr hq0
        · -- the holder of the pointer is the one that was found
          obtain ⟨b', hpb', -, hsz'⟩ := hs.block y hy
          have hbb : b' = b := by omega
          subst hbb
          rw [← hptr, hpb]
          exact hbytes i (by omega) (by omega)
      · rw [hstep] at hq ⊢
        injection hq with hq
        rcases hcase with ⟨-, hk0⟩ | ⟨c, hr, hc, -⟩
        · exact hs.bytes hk0 hy (hs.ptr_ne_zero hy) hi
        · have := hg.blocks.ne_zero hc.mem
          omega

theorem write_ok {addr : Nat} {v : Byte} (hs : Held a s l) (hw : ∃ x ∈ s.live, x.ptr ≤ addr ∧ addr < x.ptr + x.size) :
    CallOk a s (.write addr v) := by
  obtain ⟨x, hx, h1, h2⟩ := hw
  obtain ⟨b, hpb, hu, hsz⟩ := hs.block x hx
  have hlen : lenAt a s.heap.mem b = a.blockSize + sizeAt a s.heap.mem b := rfl
  obtain ⟨hg, hk, hsb, hfb⟩ := hs.good.payload hu.mem (m := Bytes.fill s.heap.mem addr 1 v)
    (within_fill (by omega) (by omega))
  have hexec : (HeapCall.write addr v).exec a s.heap = some (0, { s.heap with mem := Bytes.fill s.heap.mem addr 1 v }) := rfl
  have hstep := step_of_exec (s := s) hexec
  refine ⟨⟨l, ?_⟩, ⟨0, by rw [hstep]⟩, fun y _ _ i _ hne => ?_, (fun _ _ _ _ he => by cases he),
    fun _ _ _ he => by cases he⟩
  · rw [hstep]
    refine ⟨hg, fun y hy => ?_, hs.distinct⟩
    obtain ⟨c, hpc, huc, hszc⟩ := hs.block y hy
    by_cases hcb : c = b
    · subst hcb
      exact ⟨c, hpc, ⟨huc.mem, hfb.trans huc.used⟩, by dsimp only; rw [hsb]; exact hszc⟩
    · obtain ⟨hu', hs', -⟩ := hk c huc hcb
      exact ⟨c, hpc, hu', by rw [hs']; exact hszc⟩
  · rw [hstep]
    have hne' : y.ptr + i ≠ addr := hne
    exact fill_of_not (by omega)

theorem call_ok (hs : Held a s l) (hc : c.Legal a s) : CallOk a s c := by
  cases c with
  | malloc size frames => exact malloc_ok hs hc
  | free ptr => exact free_ok hs hc
  | calloc num size frames => exact calloc_ok hs hc.2.2
  | realloc ptr size frames => exact realloc_ok hs hc.1 hc.2
  | write addr x => exact write_ok hs hc

/-! ## Every run -/

theorem heapInit_held {m : Mem} (h0 : heapInit a frames m = some h) : Held a ⟨h, []⟩ [] := by
  have hbase := a.heapBase_dvd
  have htarget : a.heapBase + heapInitialPages * pageSize ≤ a.heapBase + heapSize :=
    Nat.add_le_add_left (by decide) _
  obtain ⟨ok, h', hc, hg, -⟩ := heapCommitTo_spec (a := a) (h := ⟨m, 0, a.heapBase, a.heapBase⟩) frames (Nat.le_refl _)
    (Nat.le_add_right _ _) hbase (Nat.dvd_add hbase (Nat.dvd_mul_left _ _)) htarget
  unfold heapInit at h0
  rw [hc] at h0
  cases ok with
  | false => cases h0
  | true =>
    injection h0 with h0
    subst h0
    have hbrk : h'.heapBreak = a.heapBase := hg.heapBreak
    refine ⟨⟨⟨⟨hg.head, hbrk.symm⟩, (fun b hb => by cases hb), ?_⟩, List.IsChain.nil, ?_, hg.ending, hg.page⟩,
      (fun x hx => by cases hx), List.Pairwise.nil⟩
    · show h'.heapBreak ≤ _
      omega
    · show h'.heapBreak ≤ h'.heapEnd
      rw [hbrk]
      exact hg.mono

theorem heapAfter_held {m : Mem} (h0 : heapInit a frames m = some h) {calls : List HeapCall}
    (hlegal : Allowed (HeapCall.step a) (fun _ => HeapCall.Legal a) ⟨h, []⟩ calls) :
    ∃ l, Held a (heapAfter a h calls) l :=
  run_keeps (I := fun _ s => ∃ l, Held a s l)
    (fun _ s c ⟨_, hs⟩ hc => show ∃ l, Held a (HeapCall.step a s c).2 l from (call_ok hs hc).1)
    ⟨[], heapInit_held h0⟩ calls hlegal

/-- **The kernel heap is sound**: after any sequence of calls from `heap_init` on the blocks tile the arena up to the
break, no two neighbours are free, and the payloads that are held are aligned, large enough and disjoint; each call has
kept the bytes that it does not own. -/
theorem heap_sound {m : Mem} (h0 : heapInit a frames m = some h) {calls : List HeapCall}
    (hlegal : Allowed (HeapCall.step a) (fun _ => HeapCall.Legal a) ⟨h, []⟩ calls) :
    (∀ before after, calls = before ++ after → ∃ l, HeapSound a (heapAfter a h before) l) ∧
      ∀ before c after, calls = before ++ c :: after → CallKeeps a (heapAfter a h before) c := by
  constructor
  · rintro before after rfl
    obtain ⟨l, hs⟩ := heapAfter_held h0 hlegal.left
    exact ⟨l, hs.sound⟩
  · rintro before c after rfl
    obtain ⟨l, hs⟩ := heapAfter_held h0 hlegal.left
    exact (call_ok hs hlegal.last).2

end

def zeroFrames : Nat → Option Mem := fun _ => some fun _ => 0

theorem heapInit_zeroFrames : (heapInit .x64 zeroFrames fun _ => 0).isSome = true := by decide

def tradeCalls : List HeapCall :=
  [.malloc 100 zeroFrames, .calloc 4 10 zeroFrames, .free (Arch.heapBase .x64 + 32),
    .realloc (Arch.heapBase .x64 + 176) 200 zeroFrames]

theorem heap_sound_trade : ∃ h, heapInit .x64 zeroFrames (fun _ => 0) = some h ∧
    (∀ before after, tradeCalls = before ++ after → ∃ l, HeapSound .x64 (heapAfter .x64 h before) l) ∧
      ∀ before c after, tradeCalls = before ++ c :: after → CallKeeps .x64 (heapAfter .x64 h before) c := by
  have h0 : heapInit .x64 zeroFrames (fun _ => 0) =
      some ((heapInit .x64 zeroFrames fun _ => 0).get heapInit_zeroFrames) := (Option.some_get _).symm
  refine ⟨_, h0, heap_sound h0 ?_⟩
  refine allowed_cons.2 ⟨by decide, allowed_cons.2 ⟨by decide, ?_⟩⟩
  exact allowed_cons.2 ⟨by decide, allowed_cons.2 ⟨by decide, allowed_nil _⟩⟩

end Mm
end AmitX
