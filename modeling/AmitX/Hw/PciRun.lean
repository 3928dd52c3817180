import AmitX.Hw.PciBars
/-!
# PciRun — windows that do not overlap

The two spaces are filled from a pointer upwards: a window starts at or after the pointer and ends at or before the new
one, as long as the rounding does not wrap and the size is the window's.
-/
namespace AmitX
namespace Hw

open Run Align

/-- The rounding of `pci_mem_next` for a window of `2 ^ k` stays below 4 GiB; where words have 64 bits, so does the
window. -/
def MemRoom (w : Nat) (mem : BitVec w) (k : Nat) : Prop :=
  mem.toNat + 2 ^ k ≤ 2 ^ 32 ∧ (w = 64 → roundUp mem.toNat (2 ^ k) + 2 ^ k ≤ 2 ^ 32)

/-- A BAR without an address, if this is one that gets a window, has its true size and finds room: an I/O BAR compares 32
bits and is smaller than 2 GiB, 64 bit words have 64 bit BARs only.  The upper register of a BAR of 8 GiB or more, which
gets a window, too, has one of 16 bytes at least. -/
def PciSlot.Fits (w i : Nat) (next : PciNext w) : PciSlot → Prop
  | .empty => True
  | .io k wide addr => addr = 0 → w = 32 ∧ wide = true ∧ k < 31
  | .mem k below1M prefetch addr => addr = 0 → below1M = true ∨ prefetch = true → w = 32 ∧ MemRoom w next.mem k
  | .mem64 k _ addr => addr.setWidth 32 = (0 : BitVec 32) → k < 32 → MemRoom w next.mem k
  | .upper k _ => 32 < k → (w = 32 ∨ k = 34 ∧ i < 5) ∧ MemRoom w next.mem (max 4 (k - 32))

def PciFits {w : Nat} (fs : List PciFunction) (s : PciState w) (c : Nat × Nat) : Prop :=
  ((fs.getD c.1 .none).slots c.2).Fits w c.2 s.next

/-! ## One call -/

section

variable {w : Nat} {next : PciNext w} {bar : PciBar w} {i : Nat}

def PciNext.at (next : PciNext w) (isIo : Bool) : Nat := if isIo then next.io.toNat else next.mem.toNat

def BarFits (next : PciNext w) (bar : PciBar w) : Prop :=
  (bar.isIo = true ∧ w = 32 ∧ ∃ k < 31, bar.size.toNat = 2 ^ k) ∨
    (bar.isIo = false ∧ ∃ k, bar.size.toNat = 2 ^ k ∧ MemRoom w next.mem k)

theorem barFits_of_parsed {slot : PciSlot} (hw : w = 32 ∨ w = 64) (hp : slot.Parsed w i bar)
    (hf : slot.Fits w i next) : BarFits next bar := by
  cases slot with
  | empty => exact False.elim hp
  | io k wide addr =>
    obtain ⟨h1, h2, h3⟩ := hp
    obtain ⟨hw, hwide, hk⟩ := hf h1
    exact Or.inl ⟨h2, hw, k, hk, h3 hw hwide⟩
  | mem k below1M prefetch addr =>
    obtain ⟨h1, h2, h3, h4⟩ := hp
    obtain ⟨hw, hroom⟩ := hf h1 h2
    exact Or.inr ⟨h3, k, h4 hw, hroom⟩
  | mem64 k prefetch addr =>
    obtain ⟨h1, h2, h3, h4⟩ := hp
    exact Or.inr ⟨h3, k, h4, hf h1 h2⟩
  | upper k addr =>
    obtain ⟨h1, h2, h3⟩ := hp
    obtain ⟨hword, hroom⟩ := hf h1
    refine Or.inr ⟨h2, _, h3 ?_, hroom⟩
    rcases hw with hw | hw
    · exact Or.inl hw
    · exact Or.inr ⟨hw, hword.resolve_left (by omega)⟩

/-- What a call leaves: no window and a pointer that is no less, or a window between the old and the new pointer. -/
structure AssignOk (i : Nat) (bar : PciBar w) (next : PciNext w) (r : PciAssign w) : Prop where
  mono : ∀ isIo, next.at isIo ≤ r.next.at isIo
  size : r.bar.size = bar.size
  isIo : r.bar.isIo = bar.isIo
  window : r.ret = -1 ∨
    bar.size.toNat ∣ r.bar.base.toNat ∧ next.at bar.isIo ≤ r.bar.base.toNat ∧
      r.bar.base.toNat + bar.size.toNat ≤ spaceEnd bar.isIo ∧
      r.bar.base.toNat + bar.size.toNat ≤ r.next.at bar.isIo ∧ (i, r.bar.base.setWidth 32) ∈ r.writes

theorem assignOk_refused {next' : PciNext w} (hmono : ∀ isIo, next.at isIo ≤ next'.at isIo) :
    AssignOk i bar next ⟨-1, next', bar, []⟩ := ⟨hmono, rfl, rfl, Or.inl rfl⟩

theorem assignOk_assigned {next' : PciNext w} {base : BitVec w} (hmono : ∀ isIo, next.at isIo ≤ next'.at isIo)
    (hdvd : bar.size.toNat ∣ base.toNat) (hfrom : next.at bar.isIo ≤ base.toNat)
    (hend : base.toNat + bar.size.toNat ≤ spaceEnd bar.isIo)
    (hnext : base.toNat + bar.size.toNat ≤ next'.at bar.isIo) : AssignOk i bar next (pciAssigned i bar base next') :=
  ⟨hmono, rfl, rfl, Or.inr ⟨hdvd, hfrom, hend, hnext, List.mem_cons_self⟩⟩

theorem pciAssignBar_ok (hw : w = 32 ∨ w = 64) (hio : w = 32 → next.io.toNat ≤ 2 ^ 30) (hsize : bar.size ≠ 0)
    (hbase : bar.base = 0) (hf : BarFits next bar) : AssignOk i bar next (pciAssignBar i bar next) ∧
      (w = 32 → (pciAssignBar i bar next).next.io.toNat ≤ 2 ^ 30) := by
  unfold pciAssignBar
  rw [if_neg hsize, if_neg (not_not.2 hbase)]
  dsimp only
  rcases hf with ⟨hisIo, rfl, k, hk, hs⟩ | ⟨hisIo, k, hs, hroom, hroom64⟩
  · -- I/O: the sizes are so small that nothing wraps
    have hle := hio rfl
    have hpow : 2 ^ k ≤ 2 ^ 30 := Nat.pow_le_pow_right (by decide) (by omega)
    have halign := @toNat_align k 32 next.io bar.size (by omega) hs (by omega)
    generalize hbase' : (next.io + bar.size - 1#32) &&& ~~~(bar.size - 1#32) = base at halign ⊢
    have h1 : next.io.toNat ≤ base.toNat := by
      rw [halign]
      exact le_roundUp (Nat.two_pow_pos k)
    have h2 : base.toNat ≤ 2 ^ 30 := by
      rw [halign]
      exact roundUp_le_of_dvd hle (Nat.pow_dvd_pow 2 (by omega))
    have hsum : (base + bar.size).toNat = base.toNat + 2 ^ k := by
      rw [BitVec.toNat_add, hs, Nat.mod_eq_of_lt (by omega)]
    rw [if_pos hisIo]
    split
    · refine ⟨assignOk_refused (fun isIo => ?_), fun _ => h2⟩
      cases isIo
      · exact Nat.le_refl _
      · exact h1
    · rename_i hno
      have hend : base.toNat + 2 ^ k ≤ 0x10000 := by
        rw [gt_iff_lt, BitVec.lt_def, hsum] at hno
        exact Nat.le_of_not_lt hno
      refine ⟨assignOk_assigned (fun isIo => ?_) ?_ ?_ ?_ ?_, fun _ => ?_⟩
      · cases isIo
        · exact Nat.le_refl _
        · show next.io.toNat ≤ (base + bar.size).toNat
          omega
      · rw [hs, halign]
        exact dvd_roundUp _ _
      · rw [hisIo]
        exact h1
      · rw [hs, hisIo]
        exact hend
      · rw [hs, hisIo]
        exact Nat.le_of_eq hsum.symm
      · show (base + bar.size).toNat ≤ 2 ^ 30
        omega
  · -- memory: the rounding does not wrap, and a window that would end at 4 GiB is refused
    have hword : 2 ^ 32 ≤ 2 ^ w := Nat.pow_le_pow_right (by decide) (by omega)
    have hlt := bar.size.isLt
    rw [hs] at hlt
    have hkw : k < w := (Nat.pow_lt_pow_iff_right (by decide)).1 hlt
    have halign := toNat_align (x := next.mem) hkw hs (by omega)
    generalize hbase' : (next.mem + bar.size - 1#w) &&& ~~~(bar.size - 1#w) = base at halign ⊢
    have h1 : next.mem.toNat ≤ base.toNat := by
      rw [halign]
      exact le_roundUp (Nat.two_pow_pos k)
    have hdvd : 2 ^ k ∣ base.toNat := by
      rw [halign]
      exact dvd_roundUp _ _
    have htop : base.toNat + 2 ^ k ≤ 2 ^ w := by
      obtain ⟨q, hq⟩ := hdvd
      obtain ⟨p, hp⟩ := Nat.pow_dvd_pow 2 (Nat.le_of_lt hkw)
      have hqp : q < p := by
        have := base.isLt
        rw [hq, hp] at this
        exact Nat.lt_of_mul_lt_mul_left this
      calc base.toNat + 2 ^ k = 2 ^ k * (q + 1) := by rw [hq, Nat.mul_add, Nat.mul_one]
        _ ≤ 2 ^ k * p := Nat.mul_le_mul_left _ hqp
        _ = 2 ^ w := hp.symm
    rw [if_neg (by rw [hisIo]; decide)]
    split
    · refine ⟨assignOk_refused (fun isIo => ?_), hio⟩
      cases isIo
      · exact h1
      · exact Nat.le_refl _
    · rename_i hno
      have hpos : 0 < 2 ^ k := Nat.two_pow_pos k
      have hbelow : base.toNat + 2 ^ k < 2 ^ w := by
        rcases Nat.lt_or_eq_of_le htop with hlt | heq
        · exact hlt
        · refine absurd ?_ hno
          rw [BitVec.lt_def, BitVec.toNat_add, hs, heq, Nat.mod_self]
          omega
      have hsum : (base + bar.size).toNat = base.toNat + 2 ^ k := by
        rw [BitVec.toNat_add, hs, Nat.mod_eq_of_lt hbelow]
      refine ⟨assignOk_assigned (fun isIo => ?_) ?_ ?_ ?_ ?_, hio⟩
      · cases isIo
        · show next.mem.toNat ≤ (base + bar.size).toNat
          omega
        · exact Nat.le_refl _
      · rw [hs]
        exact hdvd
      · rw [hisIo]
        exact h1
      · rw [hs, hisIo]
        show base.toNat + 2 ^ k ≤ 2 ^ 32
        rcases hw with rfl | rfl
        · omega
        · have := hroom64 rfl
          rw [← halign] at this
          exact this
      · rw [hs, hisIo]
        exact Nat.le_of_eq hsum.symm

end

/-! ## The walk -/

section

variable {w : Nat} {fs : List PciFunction} {es : List (Option (PciEvent w))} {s : PciState w} {n i : Nat}

/-- What the walk keeps: the BARs that still have no address are as they were parsed, and the windows that were given out
end before the pointer of their space. -/
structure PciInv (fs : List PciFunction) (es : List (Option (PciEvent w))) (s : PciState w) : Prop where
  parsed : ∀ n i, i < (fs.getD n .none).barCount → ((s.devs n).bars i).base = 0 → ((s.devs n).bars i).size ≠ 0 →
    ((fs.getD n .none).slots i).Parsed w i ((s.devs n).bars i)
  io : w = 32 → s.next.io.toNat ≤ 2 ^ 30
  below : ∀ e, some e ∈ es → e.Given →
    e.result.bar.base.toNat + e.result.bar.size.toNat ≤ s.next.at e.result.bar.isIo
  ok : WindowsOk es

theorem pciInv_start (hword : 32 ≤ w) : PciInv fs [] (pciStart w fs) where
  parsed n i hi := pciParseBars_parsed hword (fs.getD n .none) hi
  io := by
    rintro rfl
    show (0xC000#32).toNat ≤ 2 ^ 30
    decide
  below e he := by cases he
  ok := ⟨fun e he => (by cases he), List.Pairwise.nil⟩

theorem bars_writes (ws : List (Nat × BitVec 32)) (d : PciDevice w) :
    (ws.foldl (fun d write => d.writeConfig write.1 write.2) d).bars = d.bars := by
  induction ws generalizing d with
  | nil => rfl
  | cons a ws ih =>
    rw [List.foldl_cons, ih]
    rfl

theorem PciSlot.Parsed.congr {slot : PciSlot} {bar bar' : PciBar w} (h : slot.Parsed w i bar)
    (hio : bar'.isIo = bar.isIo) (hsize : bar'.size = bar.size) : slot.Parsed w i bar' := by
  cases slot with
  | empty => exact h
  | io k wide addr => exact ⟨h.1, hio.trans h.2.1, fun hw hwide => by rw [hsize]; exact h.2.2 hw hwide⟩
  | mem k below1M prefetch addr => exact ⟨h.1, h.2.1, hio.trans h.2.2.1, fun hw => by rw [hsize]; exact h.2.2.2 hw⟩
  | mem64 k prefetch addr => exact ⟨h.1, h.2.1, hio.trans h.2.2.1, by rw [hsize]; exact h.2.2.2⟩
  | upper k addr => exact ⟨h.1, hio.trans h.2.1, fun hw => by rw [hsize]; exact h.2.2 hw⟩

theorem pciInitStep_call (hcall : ((s.devs n).bars i).size ≠ 0 ∧ ((s.devs n).bars i).base = 0) :
    ∃ d, pciInitStep s (n, i) = (some ⟨i, (s.devs n).bars i, pciAssignBar i ((s.devs n).bars i) s.next⟩,
        ⟨(pciAssignBar i ((s.devs n).bars i) s.next).next, Function.update s.devs n d⟩) ∧
      d.bars i = (pciAssignBar i ((s.devs n).bars i) s.next).bar ∧ ∀ j, j ≠ i → d.bars j = (s.devs n).bars j := by
  unfold pciInitStep
  dsimp only
  rw [if_pos hcall]
  refine ⟨_, rfl, ?_, fun j hj => ?_⟩
  · rw [bars_writes, bars_setBar_self]
  · rw [bars_writes, bars_setBar_ne hj]

theorem pciInv_step (hw : w = 32 ∨ w = 64) (hi : PciInv fs es s) (hlt : i < (fs.getD n .none).barCount)
    (hf : PciFits fs s (n, i)) : PciInv fs (es ++ [(pciInitStep s (n, i)).1]) (pciInitStep s (n, i)).2 := by
  by_cases hcall : ((s.devs n).bars i).size ≠ 0 ∧ ((s.devs n).bars i).base = 0
  · obtain ⟨d, heq, hself, hne⟩ := pciInitStep_call hcall
    have hparsed := hi.parsed n i hlt hcall.2 hcall.1
    obtain ⟨hok, hio⟩ := pciAssignBar_ok (i := i) hw hi.io hcall.1 hcall.2 (barFits_of_parsed hw hparsed hf)
    rw [heq]
    generalize hbar : (s.devs n).bars i = bar at hcall hparsed hok hio hself ⊢
    generalize pciAssignBar i bar s.next = r at hok hio hself ⊢
    -- a window that is given out now lies between the pointers
    have hgiven : (⟨i, bar, r⟩ : PciEvent w).Given → bar.size.toNat ∣ r.bar.base.toNat ∧
        s.next.at bar.isIo ≤ r.bar.base.toNat ∧ r.bar.base.toNat + bar.size.toNat ≤ spaceEnd bar.isIo ∧
        r.bar.base.toNat + bar.size.toNat ≤ r.next.at bar.isIo ∧ (i, r.bar.base.setWidth 32) ∈ r.writes := by
      rintro ⟨hret, -⟩
      refine hok.window.resolve_left (fun hno => ?_)
      have hzero : r.ret = 0 := hret
      rw [hno] at hzero
      exact absurd hzero (by decide)
    refine ⟨fun m j hj hbase hsize => ?_, hio, fun e he hge => ?_, ⟨fun e he hge => ?_, ?_⟩⟩
    · by_cases hm : m = n
      · subst hm
        dsimp only at hbase hsize ⊢
        rw [Function.update_self] at hbase hsize ⊢
        by_cases hji : j = i
        · subst hji
          rw [hself]
          exact hparsed.congr hok.isIo hok.size
        · rw [hne j hji] at hbase hsize ⊢
          exact hi.parsed m j hj hbase hsize
      · dsimp only at hbase hsize ⊢
        rw [Function.update_of_ne hm] at hbase hsize ⊢
        exact hi.parsed m j hj hbase hsize
    · rcases List.mem_append.1 he with he | he
      · exact Nat.le_trans (hi.below e he hge) (hok.mono _)
      · rw [List.mem_singleton] at he
        injection he with he
        subst he
        dsimp only
        rw [hok.size, hok.isIo]
        exact (hgiven hge).2.2.2.1
    · rcases List.mem_append.1 he with he | he
      · exact hi.ok.each e he hge
      · rw [List.mem_singleton] at he
        injection he with he
        subst he
        obtain ⟨h1, -, h3, -, h5⟩ := hgiven hge
        refine ⟨?_, ?_, r.bar.base.setWidth 32, h5, ?_⟩
        · dsimp only
          rw [hok.size]
          exact h1
        · dsimp only
          rw [hok.size, hok.isIo]
          exact h3
        · have hpos : 0 < bar.size.toNat := by
            rcases Nat.eq_zero_or_pos bar.size.toNat with hz | hpos
            · refine absurd (BitVec.eq_of_toNat_eq ?_) hcall.1
              rw [hz]
              simp
            · exact hpos
          have hspace : spaceEnd bar.isIo ≤ 2 ^ 32 := by
            cases bar.isIo <;> decide
          dsimp only
          rw [BitVec.toNat_setWidth, Nat.mod_eq_of_lt (by omega)]
    · refine List.pairwise_append.2 ⟨hi.ok.apart, List.pairwise_singleton _ _, ?_⟩
      rintro a ha b hb e e' rfl rfl hge hge' hspace
      rw [List.mem_singleton] at hb
      injection hb with hb
      subst hb
      left
      have h1 := hi.below e ha hge
      have h2 := (hgiven hge').2.1
      have hspace' : e.result.bar.isIo = bar.isIo := hspace.trans hok.isIo
      rw [hspace'] at h1
      exact Nat.le_trans h1 h2
  · have hnone : pciInitStep s (n, i) = (none, s) := by
      unfold pciInitStep
      dsimp only
      rw [if_neg hcall]
    rw [hnone]
    have hmem : ∀ {e}, some e ∈ es ++ [none] → some e ∈ es := by
      intro e he
      rcases List.mem_append.1 he with he | he
      · exact he
      · rw [List.mem_singleton] at he
        cases he
    refine ⟨hi.parsed, hi.io, fun e he => hi.below e (hmem he), fun e he => hi.ok.each e (hmem he), ?_⟩
    refine List.pairwise_append.2 ⟨hi.ok.apart, List.pairwise_singleton _ _, ?_⟩
    rintro a - b hb e e' - rfl
    rw [List.mem_singleton] at hb
    cases hb

theorem mem_pciWalk {c : Nat × Nat} (hc : c ∈ pciWalk fs) : c.2 < (fs.getD c.1 .none).barCount := by
  unfold pciWalk at hc
  obtain ⟨n, -, hc⟩ := List.mem_flatMap.1 hc
  obtain ⟨i, hi, rfl⟩ := List.mem_map.1 hc
  exact List.mem_range.1 hi

end

/-- **The windows that `pci_init` gives out** are multiples of their sizes, in their space, apart, and written to their
registers, if each BAR that gets one has its true size and finds room. -/
theorem pci_windows_apart {w : Nat} (hw : w = 32 ∨ w = 64) (fs : List PciFunction)
    (h : Allowed pciInitStep (fun _ => PciFits fs) (pciStart w fs) (pciWalk fs)) : WindowsOk (pciInit w fs).1 := by
  refine (run_keeps (I := PciInv fs) (A := fun _ s c => PciFits fs s c ∧ c.2 < (fs.getD c.1 .none).barCount)
    (fun es s c hi hA => pciInv_step hw hi hA.2 hA.1) (pciInv_start (by omega)) (pciWalk fs) ?_).ok
  rintro before c after he
  exact ⟨h before c after he, mem_pciWalk (by rw [he]; simp)⟩

def smallFunction : PciFunction where
  bridge := false
  slots := fun i => if i = 0 then .io 5 true 0 else if i = 1 then .mem64 14 true 0 else if i = 2 then .upper 14 0 else .empty
  others := fun _ => ⟨0, 0⟩
  wf := fun i => by
    split
    · exact ⟨by decide, by decide, by decide⟩
    split
    · exact ⟨by decide, by decide, by decide⟩
    split
    · exact ⟨by decide, by decide, by decide⟩
    · exact trivial
  pair := fun i k prefetch addr h => by
    split at h
    · cases h
    split at h
    · rename_i hi
      cases h
      subst hi
      exact ⟨by decide, rfl⟩
    · split at h <;> cases h
  upper := fun i k addr h => by
    split at h
    · cases h
    split at h
    · cases h
    split at h
    · rename_i hi
      cases h
      exact ⟨1, true, hi, rfl⟩
    · cases h

theorem pci_windows_apart_small : WindowsOk (pciInit 32 [smallFunction]).1 := by
  refine pci_windows_apart (Or.inl rfl) _ ?_
  have hwalk : pciWalk [smallFunction] = [(0, 0), (0, 1), (0, 2), (0, 3), (0, 4), (0, 5)] := by decide
  rw [hwalk]
  simp only [allowed_cons]
  refine ⟨fun _ => ⟨rfl, rfl, by decide⟩, fun _ _ => ?_, fun h => absurd h (by decide), trivial, trivial, trivial,
    allowed_nil _⟩
  exact ⟨by decide, fun h => absurd h (by decide)⟩

/-- Prefetchable BARs of 256 MiB, 2 GiB, 1 GiB, 512 MiB and 256 MiB, without addresses. -/
def bigFunction : PciFunction where
  bridge := false
  slots := fun i => if i < 5 then .mem ([28, 31, 30, 29, 28].getD i 28) false true 0 else .empty
  others := fun _ => ⟨0, 0⟩
  wf := fun i => by
    split
    · rename_i hi
      have hall : ∀ i < 5, 4 ≤ [28, 31, 30, 29, 28].getD i 28 ∧ [28, 31, 30, 29, 28].getD i 28 < 32 := by decide
      exact ⟨(hall i hi).1, (hall i hi).2, BitVec.zero_and⟩
    · exact trivial
  pair := fun i _ _ _ h => by
    split at h <;> cases h
  upper := fun i _ _ h => by
    split at h <;> cases h

/-- A call's return value, and the window's space, its base before and after the call and its size. -/
def PciEvent.numbers {w : Nat} (e : PciEvent w) : Int × Bool × Nat × Nat × Nat :=
  (e.result.ret, e.result.bar.isIo, e.before.base.toNat, e.result.bar.base.toNat, e.result.bar.size.toNat)

theorem big_windows : (pciInit 32 [bigFunction]).1.map (fun e => e.map PciEvent.numbers) =
    [some (0, false, 0, 0xE0000000, 0x10000000), some (0, false, 0, 0, 0x80000000),
      some (0, false, 0, 0x80000000, 0x40000000), some (0, false, 0, 0xC0000000, 0x20000000),
      some (0, false, 0, 0xE0000000, 0x10000000), none] := by decide

/-- **A window of 2 GiB** wraps to address 0, and the pointer comes back to the first window. -/
theorem not_pci_windows_apart : ¬∀ (w : Nat) (fs : List PciFunction), w = 32 ∨ w = 64 → WindowsOk (pciInit w fs).1 := by
  intro hall
  have hapart := (hall 32 [bigFunction] (Or.inl rfl)).apart
  have hbig := big_windows
  generalize (pciInit 32 [bigFunction]).1 = es at hapart hbig
  have hlen : es.length = 6 := by
    have := congrArg List.length hbig
    rwa [List.length_map] at this
  have h0 := congrArg (fun l => l[0]?) hbig
  have h4 := congrArg (fun l => l[4]?) hbig
  simp only [List.getElem?_map] at h0 h4
  rw [List.getElem?_eq_getElem (by omega)] at h0 h4
  have hpair := List.pairwise_iff_getElem.1 hapart 0 4 (by omega) (by omega) (by decide)
  generalize es[0] = a at h0 hpair
  generalize es[4] = b at h4 hpair
  cases a with
  | none => cases h0
  | some e =>
    cases b with
    | none => cases h4
    | some e' =>
      simp only [PciEvent.numbers, Option.map_some, List.getElem?_cons_zero, Option.some.injEq, Prod.mk.injEq,
        List.getElem?_cons_succ] at h0 h4
      obtain ⟨hret, hio, hold, hbase, hsize⟩ := h0
      obtain ⟨hret', hio', hold', hbase', hsize'⟩ := h4
      have hgiven : ∀ {e : PciEvent 32}, e.result.ret = 0 → e.before.base.toNat = 0 →
          e.result.bar.base.toNat = 0xE0000000 → e.Given := by
        intro e hret hold hbase
        refine ⟨hret, BitVec.eq_of_toNat_eq hold, fun hz => ?_⟩
        rw [hz] at hbase
        exact absurd hbase (by decide)
      have happ := hpair e e' rfl rfl (hgiven hret hold hbase) (hgiven hret' hold' hbase') (hio.trans hio'.symm)
      unfold PciEvent.Apart at happ
      omega

end Hw
end AmitX
