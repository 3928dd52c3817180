import AmitX.Lib.Chains
import AmitX.Sched.Wheel
/-!
# WheelLinks — the links of the timer wheel, whatever the buckets hold

Clearing bucket 0 by mistake loses timers, but it leaves no wrong link behind: the tasks still form chains, and what a
bucket or a task points to is a task that has not been taken off the wheel.
-/
namespace AmitX
namespace Sched

open Links

def Tasks.InWheel (s : Tasks) (t : Ptr) : Prop :=
  (∃ b < timerWheelSize, s.timerWheel b = some t) ∨ ∃ u, s.Live u ∧ s.timer.next u = some t

/-- **The links of the wheel**: chains of tasks that agree on their bucket. -/
structure WheelLinks (s : Tasks) : Prop where
  links : s.timer.Paired s.Live
  head : ∀ b < timerWheelSize, ∀ t, s.timerWheel b = some t → s.Live t ∧ s.timer.prev t = none ∧ s.timerBucket t = b
  bucket : ∀ a c, s.Live a → s.timer.next a = some c → s.timerBucket c = s.timerBucket a
  out : ∀ t, s.Live t → timerWheelSize ≤ s.timerBucket t → s.timer.next t = none ∧ s.timer.prev t = none

structure SameWheel (s s' : Tasks) : Prop where
  timer : s'.timer = s.timer
  timerWheel : s'.timerWheel = s.timerWheel
  timerBucket : s'.timerBucket = s.timerBucket
  taskTable : s'.taskTable = s.taskTable

section

variable {s s' s'' : Tasks} {t u : Ptr} {b : Nat}

theorem SameWheel.refl (s : Tasks) : SameWheel s s := ⟨rfl, rfl, rfl, rfl⟩

theorem SameWheel.trans (h : SameWheel s s') (h' : SameWheel s' s'') : SameWheel s s'' :=
  ⟨h'.timer.trans h.timer, h'.timerWheel.trans h.timerWheel, h'.timerBucket.trans h.timerBucket,
    h'.taskTable.trans h.taskTable⟩

theorem WheelKept.same (h : WheelKept s s') : SameWheel s s' := ⟨h.timer, h.timerWheel, h.timerBucket, h.taskTable⟩

theorem inWheel_congr (h : SameWheel s s') : s'.InWheel t ↔ s.InWheel t := by
  unfold Tasks.InWheel
  rw [h.timer, h.timerWheel]
  simp only [live_congr h.taskTable]

theorem WheelLinks.congr (h : WheelLinks s) (hs : SameWheel s s') : WheelLinks s' := by
  have hlv : ∀ a, s'.Live a ↔ s.Live a := fun a => live_congr hs.taskTable
  refine ⟨?_, fun b hb t ht => ?_, fun a c ha hn => ?_, fun t ht hb => ?_⟩
  · rw [hs.timer]
    exact h.links.congr hlv (fun _ _ => ⟨rfl, rfl⟩)
  · rw [hs.timerWheel] at ht
    rw [hlv t, hs.timer, hs.timerBucket]
    exact h.head b hb t ht
  · rw [hs.timer] at hn
    rw [hs.timerBucket]
    exact h.bucket a c ((hlv a).1 ha) hn
  · rw [hs.timerBucket] at hb
    rw [hs.timer]
    exact h.out t ((hlv t).1 ht) hb

theorem WheelLinks.live (h : WheelLinks s) (ht : s.InWheel t) : s.Live t := by
  rcases ht with ⟨b, hb, ht⟩ | ⟨u, hu, hn⟩
  · exact (h.head b hb t ht).1
  · exact (h.links.next u t hu hn).1

theorem WheelLinks.not_inWheel (h : WheelLinks s) (ht : s.Live t) (hb : timerWheelSize ≤ s.timerBucket t) :
    ¬s.InWheel t := by
  rintro (⟨b, hlt, hw⟩ | ⟨u, hu, hn⟩)
  · rw [(h.head b hlt t hw).2.2] at hb
    omega
  · have hp := (h.links.next u t hu hn).2
    rw [(h.out t ht hb).2] at hp
    cases hp

theorem timerWheelRemove_of_le (h : timerWheelSize ≤ s.timerBucket t) : timerWheelRemove t s = s := by
  unfold timerWheelRemove
  rw [if_pos h]

theorem WheelLinks.remove (h : WheelLinks s) (ht : s.Live t) : WheelLinks (timerWheelRemove t s) ∧
    ∀ u, (timerWheelRemove t s).InWheel u → s.InWheel u ∧ u ≠ t := by
  by_cases hle : timerWheelSize ≤ s.timerBucket t
  · rw [timerWheelRemove_of_le hle]
    refine ⟨h, fun u hu => ⟨hu, ?_⟩⟩
    rintro rfl
    exact h.not_inWheel ht hle hu
  have hlv : ∀ a, (timerWheelRemove t s).Live a ↔ s.Live a := fun a => live_congr (timerWheelRemove_taskTable t s)
  have htimer := timerWheelRemove_timer hle
  have hwheel := timerWheelRemove_timerWheel hle
  -- what a bucket points to afterwards
  have hhead : ∀ b < timerWheelSize, ∀ u, (timerWheelRemove t s).timerWheel b = some u →
      u ≠ t ∧ s.InWheel u ∧ (s.timer.unlink t).prev u = none ∧ s.timerBucket u = b := by
    intro b hb u hu
    rw [hwheel] at hu
    have hkeep : s.timerWheel b = some u → (s.timer.prev t = none → b ≠ s.timerBucket t) →
        u ≠ t ∧ s.InWheel u ∧ (s.timer.unlink t).prev u = none ∧ s.timerBucket u = b := by
      intro hub hne
      obtain ⟨hul, hup, hbu⟩ := h.head b hb u hub
      have hut : u ≠ t := by
        rintro rfl
        exact hne hup hbu.symm
      refine ⟨hut, Or.inl ⟨b, hb, hub⟩, ?_, hbu⟩
      rw [h.links.unlink_prev ht hul hut, if_neg (by rw [hup]; simp), hup]
    split at hu
    · rename_i hp
      exact hkeep hu (fun hn => by rw [hn] at hp; cases hp)
    · rename_i hp
      have hpn : s.timer.prev t = none := Option.not_isSome_iff_eq_none.1 hp
      by_cases hbt : b = s.timerBucket t
      · rw [hbt, Function.update_self] at hu
        obtain ⟨hul, hup⟩ := h.links.next t u ht hu
        have hut : u ≠ t := by
          rintro rfl
          rw [hpn] at hup
          cases hup
        refine ⟨hut, Or.inr ⟨t, ht, hu⟩, ?_, ?_⟩
        · rw [h.links.unlink_prev ht hul hut, if_pos hup, hpn]
        · rw [hbt]
          exact h.bucket t u ht hu
      · rw [Function.update_of_ne hbt] at hu
        exact hkeep hu (fun _ => hbt)
  refine ⟨⟨?_, fun b hb u hu => ?_, fun a c ha hn => ?_, fun u hu hb => ?_⟩, ?_⟩
  · rw [htimer]
    exact (h.links.unlink ht).congr hlv (fun _ _ => ⟨rfl, rfl⟩)
  · obtain ⟨hut, hin, hp, hub⟩ := hhead b hb u hu
    rw [hlv u, htimer, timerWheelRemove_bucket_of_ne hut]
    exact ⟨h.live hin, hp, hub⟩
  · rw [htimer] at hn
    rw [hlv a] at ha
    have hat : a ≠ t := by
      rintro rfl
      rw [(unlink_self s.timer a).1] at hn
      cases hn
    have hct : c ≠ t := (h.links.of_unlink_next ht ha hn).elim (fun _ hc => hc.2.2)
    rw [timerWheelRemove_bucket_of_ne hat, timerWheelRemove_bucket_of_ne hct]
    rw [h.links.unlink_next ht ha hat] at hn
    split at hn
    · rename_i hat'
      rw [h.bucket t c ht hn, h.bucket a t ha hat']
    · exact h.bucket a c ha hn
  · rw [hlv u] at hu
    rw [htimer]
    by_cases hut : u = t
    · rw [hut]
      exact unlink_self s.timer t
    · rw [timerWheelRemove_bucket_of_ne hut] at hb
      obtain ⟨h1, h2⟩ := h.out u hu hb
      rw [h.links.unlink_next ht hu hut, h.links.unlink_prev ht hu hut, h1, h2]
      simp
  · rintro u (⟨b, hb, hu⟩ | ⟨a, ha, hn⟩)
    · obtain ⟨hut, hin, -⟩ := hhead b hb u hu
      exact ⟨hin, hut⟩
    · rw [htimer] at hn
      obtain ⟨c, hc, hcu, hut⟩ := h.links.of_unlink_next ht ((hlv a).1 ha) hn
      exact ⟨Or.inr ⟨c, hc, hcu⟩, hut⟩

theorem WheelLinks.link (h : WheelLinks s) (ht : s.Live t) (hout : timerWheelSize ≤ s.timerBucket t)
    (hb : b < timerWheelSize) : WheelLinks (timerWheelLink t b s) ∧
      ∀ u, (timerWheelLink t b s).InWheel u → s.InWheel u ∨ u = t := by
  have hlv : ∀ a, (timerWheelLink t b s).Live a ↔ s.Live a := fun _ => Iff.rfl
  have hno := h.not_inWheel ht hout
  obtain ⟨hnext, hprev⟩ := h.out t ht hout
  have hfirst : ∀ f, s.timerWheel b = some f → s.Live f ∧ s.timer.prev f = none ∧ f ≠ t := by
    intro f hf
    refine ⟨(h.head b hb f hf).1, (h.head b hb f hf).2.1, ?_⟩
    rintro rfl
    exact hno (Or.inl ⟨b, hb, hf⟩)
  have hlinks := h.links.linkBefore ht hprev hfirst hnext
  have hnx : ∀ a, (timerWheelLink t b s).timer.next a = if a = t then s.timerWheel b else s.timer.next a := by
    intro a
    change (s.timer.linkBefore (s.timerWheel b) t).next a = _
    unfold Links.linkBefore
    simp only [setPrev?_next, setPrev_next, setNext_next, Function.update_apply]
  have hpv : ∀ a, s.timerWheel b ≠ some a → a ≠ t →
      (timerWheelLink t b s).timer.prev a = s.timer.prev a := by
    intro a ha hat
    change (s.timer.linkBefore (s.timerWheel b) t).prev a = _
    unfold Links.linkBefore
    rw [setPrev?_of_ne ha, setPrev_prev, Function.update_of_ne hat, setNext_prev]
  have hbk : ∀ a, a ≠ t → (timerWheelLink t b s).timerBucket a = s.timerBucket a := fun a ha =>
    Function.update_of_ne ha _ _
  have hbt : (timerWheelLink t b s).timerBucket t = b := Function.update_self _ _ _
  refine ⟨⟨hlinks, fun c hc u hu => ?_, fun a c ha hn => ?_, fun u hu hub => ?_⟩, ?_⟩
  · change Function.update s.timerWheel b (some t) c = some u at hu
    by_cases hcb : c = b
    · rw [hcb, Function.update_self] at hu
      rw [← Option.some.inj hu, hcb, hbt]
      refine ⟨ht, ?_, rfl⟩
      change (s.timer.linkBefore (s.timerWheel b) t).prev t = none
      unfold Links.linkBefore
      rw [setPrev?_of_ne (fun he => (hfirst t he).2.2 rfl), setPrev_prev, Function.update_self]
    · rw [Function.update_of_ne hcb] at hu
      obtain ⟨hul, hup, hbu⟩ := h.head c hc u hu
      have hut : u ≠ t := by
        rintro rfl
        exact hno (Or.inl ⟨c, hc, hu⟩)
      have hbu' : s.timerWheel b ≠ some u := fun he => hcb (hbu.symm.trans (h.head b hb u he).2.2)
      rw [hpv u hbu' hut, hbk u hut]
      exact ⟨hul, hup, hbu⟩
  · rw [hnx] at hn
    split at hn
    · rename_i hat
      rw [hat, hbt, hbk c (hfirst c hn).2.2]
      exact (h.head b hb c hn).2.2
    · rename_i hat
      have hct : c ≠ t := by
        rintro rfl
        exact hno (Or.inr ⟨a, ha, hn⟩)
      rw [hbk a hat, hbk c hct]
      exact h.bucket a c ha hn
  · have hut : u ≠ t := by
      rintro rfl
      rw [hbt] at hub
      omega
    rw [hbk u hut] at hub
    obtain ⟨h1, h2⟩ := h.out u hu hub
    have hbu : s.timerWheel b ≠ some u := fun he => by
      rw [(h.head b hb u he).2.2] at hub
      omega
    rw [hnx, if_neg hut, hpv u hbu hut]
    exact ⟨h1, h2⟩
  · rintro u (⟨c, hc, hu⟩ | ⟨a, ha, hn⟩)
    · change Function.update s.timerWheel b (some t) c = some u at hu
      by_cases hcb : c = b
      · rw [hcb, Function.update_self] at hu
        exact Or.inr (Option.some.inj hu).symm
      · rw [Function.update_of_ne hcb] at hu
        exact Or.inl (Or.inl ⟨c, hc, hu⟩)
    · rw [hnx] at hn
      split at hn
      · exact Or.inl (Or.inl ⟨b, hb, hn⟩)
      · exact Or.inl (Or.inr ⟨a, ha, hn⟩)

theorem WheelLinks.insert (h : WheelLinks s) (ht : s.Live t) (n : Nat) : WheelLinks (timerWheelInsert t n s) ∧
    ∀ u, (timerWheelInsert t n s).InWheel u → s.InWheel u ∨ u = t := by
  obtain ⟨h1, hin⟩ := h.remove ht
  have hl1 : (timerWheelRemove t s).Live t := (live_congr (timerWheelRemove_taskTable t s)).2 ht
  have hb : addU32 s.tickCount n % timerWheelSize < timerWheelSize := Nat.mod_lt _ (by decide)
  obtain ⟨h2, hin2⟩ := h1.link hl1 (timerWheelRemove_bucket t s) hb
  exact ⟨h2, fun u hu => (hin2 u hu).imp_left (fun hu => (hin u hu).1)⟩

theorem WheelLinks.congr_task (h : WheelLinks s) (hw : s'.timerWheel = s.timerWheel)
    (hout : s.Live t → ¬s.InWheel t ∧ s.timer.next t = none)
    (hlv : ∀ a, a ≠ t → (s'.Live a ↔ s.Live a))
    (hL : ∀ a, a ≠ t → s.Live a → s'.timer.next a = s.timer.next a ∧ s'.timer.prev a = s.timer.prev a ∧
      s'.timerBucket a = s.timerBucket a)
    (ht' : s'.Live t → s'.timer.next t = none ∧ s'.timer.prev t = none) :
    WheelLinks s' ∧ ∀ u, s'.InWheel u → s.InWheel u ∧ u ≠ t := by
  have hprev : s.Live t → s.timer.prev t = none := fun ht => by
    by_contra hne
    obtain ⟨a, ha⟩ := Option.ne_none_iff_exists'.1 hne
    obtain ⟨hal, hn⟩ := h.links.prev a t ht ha
    exact (hout ht).1 (Or.inr ⟨a, hal, hn⟩)
  have hlinks : s'.timer.Paired s'.Live := h.links.congr_single hlv (fun a ha hl => ⟨(hL a ha hl).1, (hL a ha hl).2.1⟩)
    ht' (fun ht => ⟨(hout ht).2, hprev ht⟩)
  have hnt : ∀ u, s.InWheel u → u ≠ t := fun u hu => by
    rintro rfl
    exact (hout (h.live hu)).1 hu
  have hin : ∀ u, s'.InWheel u → s.InWheel u := by
    rintro u (⟨b, hb, hu⟩ | ⟨a, ha, hn⟩)
    · rw [hw] at hu
      exact Or.inl ⟨b, hb, hu⟩
    · by_cases hat : a = t
      · subst hat
        rw [(ht' ha).1] at hn
        cases hn
      · have hal := (hlv a hat).1 ha
        rw [(hL a hat hal).1] at hn
        exact Or.inr ⟨a, hal, hn⟩
  refine ⟨⟨hlinks, fun b hb u hu => ?_, fun a c ha hn => ?_, fun u hu hub => ?_⟩, fun u hu => ⟨hin u hu, hnt u (hin u hu)⟩⟩
  · rw [hw] at hu
    have hut := hnt u (Or.inl ⟨b, hb, hu⟩)
    obtain ⟨hul, hup, hbu⟩ := h.head b hb u hu
    obtain ⟨-, h2, h3⟩ := hL u hut hul
    exact ⟨(hlv u hut).2 hul, h2.trans hup, h3.trans hbu⟩
  · have hat : a ≠ t := by
      rintro rfl
      rw [(ht' ha).1] at hn
      cases hn
    have hal := (hlv a hat).1 ha
    rw [(hL a hat hal).1] at hn
    have hct := hnt c (Or.inr ⟨a, hal, hn⟩)
    rw [(hL a hat hal).2.2, (hL c hct (h.links.next a c hal hn).1).2.2]
    exact h.bucket a c hal hn
  · by_cases hut : u = t
    · subst hut
      exact ht' hu
    · have hul := (hlv u hut).1 hu
      obtain ⟨h1, h2, h3⟩ := hL u hut hul
      rw [h3] at hub
      exact ⟨h1.trans (h.out u hul hub).1, h2.trans (h.out u hul hub).2⟩

end

end Sched
end AmitX
