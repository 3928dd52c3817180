import AmitX.Mm.PagingCalls
/-!
# PagingBoot — the tables that `paging_init` builds

Each large page of the identity and direct maps, and each page of the kernel image, is one step on the tree; the loops
are inductions over the steps.  `pagingInit_spec` is the state in which the calls begin.
-/
namespace AmitX
namespace Mm
namespace X64

open Radix

/-- `n` entries from `k` on, each with the address `size` behind the one before; the others are as in `H`. -/
def span (size : Nat) (H : Nat → Option Nat) (k n p : Nat) : Nat → Option Nat :=
  fun j => if k ≤ j ∧ j < k + n then some (p + (j - k) * size) else H j

theorem span_zero (size : Nat) (H : Nat → Option Nat) (k p : Nat) : span size H k 0 p = H :=
  funext fun _ => if_neg (by omega)

theorem span_succ (size : Nat) (H : Nat → Option Nat) (k n p : Nat) :
    span size (Function.update H k (some p)) (k + 1) n (p + size) = span size H k (n + 1) p := by
  funext j
  unfold span
  by_cases hj : j = k
  · subst hj
    rw [if_neg (by omega), if_pos (by omega), Function.update_self, Nat.sub_self, Nat.zero_mul, Nat.add_zero]
  · rw [Function.update_of_ne hj]
    by_cases hin : k + 1 ≤ j ∧ j < k + 1 + n
    · have hsub : j - k = j - (k + 1) + 1 := by omega
      rw [if_pos hin, if_pos (by omega), hsub, Nat.succ_mul, Nat.add_right_comm, Nat.add_assoc]
    · rw [if_neg hin, if_neg (by omega)]

def bootHuge (ram : Nat) : Nat → Option Nat :=
  span huge2M (span huge2M (fun _ => none) 0 (identitySize ram / huge2M) 0) (directMapBase / huge2M)
    (directSize ram / huge2M) 0

def bootPages (kernelEnd : Nat) : Nat → Option Nat :=
  span pageSize (fun _ => none) ((kernelVirtBase + kernelPhysStart) / pageSize) (kernelPages kernelEnd) kernelPhysStart

def NoPt (s : Tables) : Prop := ∀ v, Ok v → child (entry s (pdPath v)) = none

section

variable {alloc : Nat → Option Nat} {s s' : Tables} {p : List Nat} {f i u phys flags : Nat} {H M : Nat → Option Nat}

theorem bootEnsure_spec (hf : Fresh alloc) (hs : Sound alloc s) (h : tableAt s p = some f) (hip : IsTable (i :: p))
    (hnot : present (s.ram f i) = true → isHuge (s.ram f i) = false) (hstep : bootEnsure alloc f i s = some s') :
    Sound alloc s' ∧ Ensured s s' (i :: p) ∧ tableAt s' (i :: p) = some (pteAddr (s'.ram f i)) := by
  have hp := hip.tail
  unfold bootEnsure at hstep
  by_cases hpres : present (s.ram f i) = true
  · rw [if_pos hpres] at hstep
    injection hstep with hstep
    subst hstep
    refine ⟨hs, Ensured.same s s.allocs _, ?_⟩
    rw [tableAt_cons h]
    exact child_eq_some.2 ⟨hpres, hnot hpres, rfl⟩
  · rw [if_neg hpres] at hstep
    cases hg : alloc s.allocs with
    | none =>
      rw [Tables.allocFrame, hg] at hstep
      cases hstep
    | some g =>
      rw [Tables.allocFrame, hg] at hstep
      injection hstep with hstep
      obtain ⟨hga, hglt⟩ := hf.aligned _ _ hg
      have hfg : f ≠ g := fun he => hs.fresh hf hg hp (he ▸ h)
      have hstate : s' = ⟨Radix.clear 0 g (Radix.setWord f i (tableEntry g) s.ram), s.root, s.allocs + 1⟩ := by
        rw [← setWord_clear hfg, ← hstep]
        rfl
      obtain ⟨hs', hens, htab⟩ := hs.ensured_link hf hp h hip (Bool.eq_false_iff.2 hpres) hg hstate
      have hword : s'.ram f i = tableEntry g := by
        rw [hstate]
        exact (clear_of_ne hfg).trans (if_pos ⟨rfl, rfl⟩)
      rw [hword, (tableEntry_spec hga hglt).2.2]
      exact ⟨hs', hens, htab⟩

theorem Sound.not_huge (hs : Sound alloc s) (h : tableAt s p = some f) (hip : IsTable (i :: p)) (hlen : p.length ≤ 1) :
    present (s.ram f i) = true → isHuge (s.ram f i) = false := by
  intro hpres
  have hflat := hs.flat i p hlen hip (by rw [entry_cons h]; exact hpres)
  rw [entry_cons h] at hflat
  exact hflat

theorem Ensured.noPt (h : Ensured s s' p) (hlen : p.length ≤ 2) (hn : NoPt s) : NoPt s' := by
  intro v hv
  obtain ⟨w, -, hchanged⟩ := h.entries
  have hne : ¬pdPath v = p := fun he => absurd hlen (by rw [← he]; simp [pdPath])
  rw [show entry s' (pdPath v) = entry s (pdPath v) from
    (hchanged.entries _ _ (isTable_pdPath hv).tail).trans (if_neg hne)]
  exact hn v hv

theorem bootMap2M_spec (hf : Fresh alloc) (hs : Sound alloc s) (hu : Ok u) (hn : NoPt s) (hshow : Shows s H M)
    (hphys : huge2M ∣ phys) (hlt : phys < 2 ^ 52) (hstep : bootMap2M alloc phys u flags s = some s') :
    Sound alloc s' ∧ NoPt s' ∧ Shows s' (Function.update H (u / huge2M) (some phys)) M := by
  obtain ⟨-, t4, t3, t2⟩ := path_bounds hu
  have hroot : tableAt s [] = some s.root := rfl
  unfold bootMap2M at hstep
  obtain ⟨s4, hstep4, hstep⟩ := Option.bind_eq_some_iff.1 hstep
  obtain ⟨s3, hstep3, hstep⟩ := Option.map_eq_some_iff.1 hstep
  obtain ⟨hs4, hens4, ht4⟩ := bootEnsure_spec hf hs hroot t4 (hs.not_huge hroot t4 (by decide)) hstep4
  have hroot4 : s4.root = s.root := hens4.entries.choose_spec.2.root
  rw [← hroot4] at ht4
  obtain ⟨hs3, hens3, ht3⟩ := bootEnsure_spec hf hs4 ht4 t3 (hs4.not_huge ht4 t3 (by simp)) hstep3
  have hn3 := hens3.noPt (by simp) (hens4.noPt (by simp) hn)
  have hshow3 := hens3.shows t3 (hens4.shows t4 hshow)
  rw [Nat.div_mul_cancel hphys] at hstep
  obtain ⟨hpres, hhuge, haddr⟩ := hugeEntry_spec hphys hlt flags
  generalize (phys ||| pagePresent ||| pageHuge ||| flags &&& pageFlagMask) = w at hstep hpres hhuge haddr
  generalize pteAddr (s3.ram (pteAddr (s4.ram s4.root (idxPml4 u))) (idxPdpt u)) = pd at hstep ht3
  have hchild : child w = none := if_neg (fun h => by rw [hhuge] at h; exact Bool.noConfusion h.2)
  have hold : child (s3.ram pd (idxPd u)) = none := by
    have := hn3 u hu
    rwa [pdPath, entry_cons ht3] at this
  obtain ⟨hs', hchanged⟩ := hs3.setWord (w := w) t3 ht3 (fun _ => ⟨hchild, hold⟩) (fun h _ => absurd h (by simp))
  subst hstep
  have hshow' := Changed.shows_huge hchanged hu ⟨hpres, hhuge⟩ hshow3
  rw [haddr] at hshow'
  refine ⟨hs', fun v hv => ?_, hshow'⟩
  have he : entry (s3.setWord pd (idxPd u) w) (pdPath v) = if pdPath v = pdPath u then w else entry s3 (pdPath v) :=
    hchanged.entries _ _ (isTable_pdPath hv).tail
  rw [he]
  split
  case isTrue => exact hchild
  case isFalse => exact hn3 v hv

theorem bootMap4K_spec (hf : Fresh alloc) (hs : Sound alloc s) (hu : Ok u) (hshow : Shows s H M)
    (hstep : bootMap4K alloc phys u flags s = some s') : Sound alloc s' ∧ H (u / huge2M) = none ∧
      Shows s' H (Function.update M (u / pageSize) (some (pteAddr phys))) := by
  obtain ⟨-, t4, t3, t2⟩ := path_bounds hu
  have hroot : tableAt s [] = some s.root := rfl
  unfold bootMap4K at hstep
  obtain ⟨s4, hstep4, hstep⟩ := Option.bind_eq_some_iff.1 hstep
  obtain ⟨s3, hstep3, hstep⟩ := Option.bind_eq_some_iff.1 hstep
  obtain ⟨hs4, hens4, ht4⟩ := bootEnsure_spec hf hs hroot t4 (hs.not_huge hroot t4 (by decide)) hstep4
  have hroot4 : s4.root = s.root := hens4.entries.choose_spec.2.root
  rw [← hroot4] at ht4
  obtain ⟨hs3, hens3, ht3⟩ := bootEnsure_spec hf hs4 ht4 t3 (hs4.not_huge ht4 t3 (by simp)) hstep3
  have hshow3 := hens3.shows t3 (hens4.shows t4 hshow)
  dsimp only at hstep
  generalize pteAddr (s3.ram (pteAddr (s4.ram s4.root (idxPml4 u))) (idxPdpt u)) = pd at hstep ht3
  split at hstep
  case isTrue => cases hstep
  case isFalse hnot =>
    obtain ⟨s2, hstep2, hstep⟩ := Option.map_eq_some_iff.1 hstep
    obtain ⟨hs2, hens2, ht2⟩ := bootEnsure_spec hf hs3 ht3 t2 (fun _ => Bool.eq_false_iff.2 hnot) hstep2
    have hshow2 := hens2.shows t2 hshow3
    obtain ⟨hpres, haddr⟩ := leafEntry_spec phys flags
    have hnt : ¬IsTable (idxPt u :: pdPath u) := fun h' => absurd h'.1 (by simp [pdPath])
    obtain ⟨hs', hchanged⟩ := hs2.setWord (w := pteAddr phys ||| pagePresent ||| flags &&& pageFlagMask) t2 ht2
      (fun h' => absurd h' hnt) (fun _ h' => absurd h' hnt)
    have hshow' := Changed.shows_leaf hchanged hu hshow2
    rw [if_pos hpres, haddr] at hshow'
    subst hstep
    exact ⟨hs', (hshow2 u hu).1.symm.trans (at_of_pt ht2).1, hshow'⟩

/-! ## The loops -/

theorem bootPages2M_spec (hf : Fresh alloc) : ∀ {n p v : Nat} {s : Tables} {H : Nat → Option Nat}, Sound alloc s →
    NoPt s → Shows s H M → (∀ k, k < n → Ok (v + k * huge2M)) → huge2M ∣ p → p + n * huge2M ≤ 2 ^ 52 →
    bootPages2M alloc flags n p v s = some s' → Sound alloc s' ∧ NoPt s' ∧ Shows s' (span huge2M H (v / huge2M) n p) M
  | 0, p, v, s, H, hs, hn, hshow, _, _, _, hstep => by
    injection hstep with hstep
    subst hstep
    rw [span_zero]
    exact ⟨hs, hn, hshow⟩
  | n + 1, p, v, s, H, hs, hn, hshow, hok, hp, hlt, hstep => by
    obtain ⟨s1, hstep1, hstep⟩ := Option.bind_eq_some_iff.1 hstep
    have hpos : 0 < huge2M := by decide
    have hv : Ok v := by simpa using hok 0 (Nat.succ_pos n)
    have hmul : (n + 1) * huge2M = n * huge2M + huge2M := Nat.succ_mul n huge2M
    obtain ⟨hs1, hn1, hshow1⟩ := bootMap2M_spec hf hs hv hn hshow hp (by omega) hstep1
    have hnext : (v + huge2M) / huge2M = v / huge2M + 1 := Nat.add_div_right v hpos
    have hrest := bootPages2M_spec hf hs1 hn1 hshow1 (v := v + huge2M) (fun k hk => ?_)
      (Nat.dvd_add hp (Nat.dvd_refl _)) (by omega) hstep
    · rw [hnext, span_succ] at hrest
      exact hrest
    · have := hok (k + 1) (Nat.succ_lt_succ hk)
      rwa [Nat.succ_mul, Nat.add_comm _ huge2M, ← Nat.add_assoc] at this

theorem bootKernel_spec (hf : Fresh alloc) : ∀ {n p : Nat} {s : Tables} {M : Nat → Option Nat}, Sound alloc s →
    Shows s H M → pageSize ∣ p → p + n * pageSize ≤ 2 ^ 31 → bootKernel alloc n p s = some s' →
    Sound alloc s' ∧ Shows s' H (span pageSize M ((kernelVirtBase + p) / pageSize) n p) ∧
      ∀ v, (kernelVirtBase + p) / pageSize ≤ v / pageSize → v / pageSize < (kernelVirtBase + p) / pageSize + n →
        H (v / huge2M) = none
  | 0, p, s, M, hs, hshow, _, _, hstep => by
    injection hstep with hstep
    subst hstep
    rw [span_zero]
    exact ⟨hs, hshow, fun v h1 h2 => by omega⟩
  | n + 1, p, s, M, hs, hshow, hp, hlt, hstep => by
    obtain ⟨s1, hstep1, hstep⟩ := Option.bind_eq_some_iff.1 hstep
    have hmul : (n + 1) * pageSize = n * pageSize + pageSize := Nat.succ_mul n pageSize
    have hok : Ok (kernelVirtBase + p) := by
      have hp' : p < 2 ^ 31 := by
        have : 0 < pageSize := by decide
        omega
      unfold Ok Canonical idxPml4 recursivePml4Index kernelVirtBase
      omega
    obtain ⟨hs1, hnone, hshow1⟩ := bootMap4K_spec hf hs hok hshow hstep1
    have hnext : (kernelVirtBase + (p + pageSize)) / pageSize = (kernelVirtBase + p) / pageSize + 1 := by
      rw [← Nat.add_assoc]
      exact Nat.add_div_right _ (by decide)
    rw [pteAddr_of_aligned hp (by omega)] at hshow1
    obtain ⟨hs', hshow', hrest⟩ := bootKernel_spec hf hs1 hshow1 (Nat.dvd_add hp (Nat.dvd_refl _)) (by omega) hstep
    rw [hnext, span_succ] at hshow'
    refine ⟨hs', hshow', fun v h1 h2 => ?_⟩
    by_cases hv : v / pageSize = (kernelVirtBase + p) / pageSize
    · have hsame : v / huge2M = (kernelVirtBase + p) / huge2M := by
        unfold pageSize at hv
        unfold huge2M
        omega
      rw [hsame]
      exact hnone
    · exact hrest v (by omega) (by omega)

/-! ## `paging_init` -/

theorem bootMapRange2M_eq {virt length : Nat} (hv : huge2M ∣ virt) (hl : huge2M ∣ length) :
    bootMapRange2M alloc 0 virt length flags s = bootPages2M alloc flags (length / huge2M) 0 virt s := by
  have hend : (virt + length + huge2M - 1) / huge2M * huge2M = virt + length := by
    obtain ⟨n, hn⟩ := Nat.dvd_add hv hl
    rw [hn]
    unfold huge2M
    omega
  unfold bootMapRange2M
  dsimp only
  rw [hend, Nat.div_mul_cancel hv, Nat.add_sub_cancel_left, Nat.zero_div, Nat.zero_mul]

theorem identitySize_spec (ram : Nat) : huge2M ∣ identitySize ram ∧ identitySize ram ≤ 2 ^ 32 := by
  unfold identitySize huge2M
  omega

theorem directSize_spec (ram : Nat) : huge2M ∣ directSize ram ∧ directSize ram ≤ 2 ^ 46 := by
  unfold directSize directMapSize huge2M
  omega

theorem sound_root {root : Nat} (hroot : alloc 0 = some root) (mem : Ram) :
    Sound alloc ⟨Radix.clear 0 root mem, root, 1⟩ ∧ ∀ p, entry ⟨Radix.clear 0 root mem, root, 1⟩ p = 0 := by
  have hone : ∀ i, entry ⟨Radix.clear 0 root mem, root, 1⟩ [i] = 0 := fun i => (entry_cons rfl).trans clear_self
  have hnone : ∀ p i, tableAt ⟨Radix.clear 0 root mem, root, 1⟩ (i :: p) = none := by
    intro p
    induction p with
    | nil =>
      intro i
      rw [tableAt_eq_child, hone, child_zero]
    | cons j p ih =>
      intro i
      rw [tableAt_eq_child, entry_of_none (ih j), child_zero]
  have hzero : ∀ p, entry ⟨Radix.clear 0 root mem, root, 1⟩ p = 0 := by
    intro p
    match p with
    | [] => rfl
    | [i] => exact hone i
    | i :: j :: p => exact entry_of_none (hnone p j)
  have honly : ∀ p f, tableAt ⟨Radix.clear 0 root mem, root, 1⟩ p = some f → p = [] ∧ f = root := by
    intro p f h
    cases p with
    | nil =>
      injection h with h
      exact ⟨rfl, h.symm⟩
    | cons i p =>
      rw [hnone] at h
      cases h
  refine ⟨⟨fun p q f _ _ hp hq => (honly p f hp).1.trans (honly q f hq).1.symm, fun p f _ h => ?_, fun i p _ _ h => ?_⟩,
    hzero⟩
  · exact ⟨0, Nat.one_pos, (honly p f h).2 ▸ hroot⟩
  · rw [hzero] at h
    exact absurd h (by decide)

theorem pagingInit_spec (hf : Fresh alloc) {ram kernelEnd : Nat} {mem : Ram} (hkernel : kernelEnd ≤ 2 ^ 31)
    (hinit : pagingInit alloc ram kernelEnd mem = some s) : Sound alloc s ∧ Recursive s ∧
      Shows s (bootHuge ram) (bootPages kernelEnd) ∧
      ∀ v, bootPages kernelEnd (v / pageSize) ≠ none → bootHuge ram (v / huge2M) = none := by
  unfold pagingInit at hinit
  rw [Tables.allocFrame] at hinit
  cases hroot : alloc 0 with
  | none =>
    rw [show (Tables.mk mem 0 0).allocs = 0 from rfl, hroot] at hinit
    cases hinit
  | some root =>
    rw [show (Tables.mk mem 0 0).allocs = 0 from rfl, hroot] at hinit
    obtain ⟨s3, hstep, hs⟩ := Option.map_eq_some_iff.1 hinit
    obtain ⟨s2, hstep, hstep3⟩ := Option.bind_eq_some_iff.1 hstep
    obtain ⟨s1, hstep1, hstep2⟩ := Option.bind_eq_some_iff.1 hstep
    obtain ⟨hs0, hzero⟩ := sound_root hroot mem
    have hn0 : NoPt ⟨Radix.clear 0 root mem, root, 1⟩ := fun v _ => by rw [hzero, child_zero]
    have hshow0 : Shows ⟨Radix.clear 0 root mem, root, 1⟩ (fun _ => none) (fun _ => none) := by
      intro v _
      unfold hugeAt pageAt
      rw [hzero, hzero]
      exact ⟨rfl, fun _ => rfl⟩
    -- the identity map
    obtain ⟨hid, hidle⟩ := identitySize_spec ram
    rw [bootMapRange2M_eq (Nat.dvd_zero _) hid] at hstep1
    have hidn := Nat.div_mul_cancel hid
    obtain ⟨hs1, hn1, hshow1⟩ := bootPages2M_spec hf hs0 hn0 hshow0 (fun k hk => by
      have hlt : k * huge2M < identitySize ram / huge2M * huge2M := Nat.mul_lt_mul_of_pos_right hk (by decide)
      unfold Ok Canonical idxPml4 recursivePml4Index
      omega) (Nat.dvd_zero _) (by omega) hstep1
    -- the direct map
    obtain ⟨hdir, hdirle⟩ := directSize_spec ram
    have hbase : huge2M ∣ directMapBase := by decide
    rw [bootMapRange2M_eq hbase hdir] at hstep2
    have hdirn := Nat.div_mul_cancel hdir
    obtain ⟨hs2, -, hshow2⟩ := bootPages2M_spec hf hs1 hn1 hshow1 (fun k hk => by
      have hlt : k * huge2M < directSize ram / huge2M * huge2M := Nat.mul_lt_mul_of_pos_right hk (by decide)
      unfold Ok Canonical idxPml4 recursivePml4Index directMapBase
      omega) (Nat.dvd_zero _) (by omega) hstep2
    rw [Nat.zero_div] at hshow2
    -- the kernel image
    have hpages : kernelPhysStart + kernelPages kernelEnd * pageSize ≤ 2 ^ 31 := by
      unfold kernelPages kernelPhysStart pageMask pageSize
      omega
    obtain ⟨hs3, hshow3, hunder⟩ := bootKernel_spec hf hs2 hshow2 (by decide) hpages hstep3
    -- the recursive entry
    have hrootAt : tableAt s3 [] = some s3.root := rfl
    have hnt : ¬IsTable [recursivePml4Index] := fun h => h.2 rfl
    obtain ⟨hs', hchanged⟩ := hs3.setWord (w := tableEntry s3.root) (i := recursivePml4Index) isTable_nil hrootAt
      (fun h => absurd h hnt) (fun _ h => absurd h hnt)
    have hstate : s = s3.setWord s3.root recursivePml4Index (tableEntry s3.root) := hs.symm
    subst hstate
    obtain ⟨n, -, hn⟩ := hs3.owned [] s3.root isTable_nil hrootAt
    obtain ⟨hra, hrlt⟩ := hf.aligned _ _ hn
    refine ⟨hs', ?_, fun v hv => ?_, fun v hne => ?_⟩
    · exact (congrArg child (if_pos ⟨rfl, rfl⟩)).trans (child_tableEntry hra hrlt)
    · have hpd := isTable_pdPath hv
      have h2 := hchanged.entries _ (idxPd v) hpd.tail
      have h1 := hchanged.entries _ (idxPt v) hpd
      rw [if_neg (by simp)] at h2
      rw [if_neg (by simp [pdPath])] at h1
      have hshown := hshow3 v hv
      unfold hugeAt pageAt at hshown ⊢
      rw [show entry (s3.setWord s3.root recursivePml4Index (tableEntry s3.root)) (pdPath v) = entry s3 (pdPath v) from h2,
        show entry (s3.setWord s3.root recursivePml4Index (tableEntry s3.root)) (ptPath v) = entry s3 (ptPath v) from h1]
      exact hshown
    · refine hunder v ?_ ?_
      · by_contra hlt
        exact hne (if_neg (fun h => hlt h.1))
      · by_contra hlt
        exact hne (if_neg (fun h => hlt h.2))

end

end X64
end Mm
end AmitX
