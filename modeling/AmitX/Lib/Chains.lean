import AmitX.Lib.DList
/-!
# Chains — cells linked in pairs, and families of queues

`Paired L D` says of the links of the cells in `D` only that `next` and `prev` answer one another: the cells form chains,
whether or not anything points to the first cell of a chain.  `Family` is an indexed family of queues over one pair of
links, each with a head and a tail.
-/

namespace Links

variable {α ι : Type}

/-! ## Links in pairs -/

/-- In `D` the links answer one another. -/
structure Paired (L : Links α) (D : α → Prop) : Prop where
  next : ∀ a b, D a → L.next a = some b → D b ∧ L.prev b = some a
  prev : ∀ a b, D b → L.prev b = some a → D a ∧ L.next a = some b

section

variable {L : Links α} {D D' : α → Prop} {t a b : α}

theorem Paired.congr {L' : Links α} (h : Paired L D) (hD : ∀ a, D' a ↔ D a)
    (hL : ∀ a, D a → L'.next a = L.next a ∧ L'.prev a = L.prev a) : Paired L' D' := by
  refine ⟨fun a b ha hn => ?_, fun a b hb hp => ?_⟩
  · rw [(hL a ((hD a).1 ha)).1] at hn
    obtain ⟨hb, hp⟩ := h.next a b ((hD a).1 ha) hn
    exact ⟨(hD b).2 hb, (hL b hb).2.trans hp⟩
  · rw [(hL b ((hD b).1 hb)).2] at hp
    obtain ⟨ha, hn⟩ := h.prev a b ((hD b).1 hb) hp
    exact ⟨(hD a).2 ha, (hL a ha).1.trans hn⟩

theorem Paired.congr_single {L' : Links α} (h : Paired L D) (hD : ∀ a, a ≠ t → (D' a ↔ D a))
    (hL : ∀ a, a ≠ t → D a → L'.next a = L.next a ∧ L'.prev a = L.prev a)
    (ht' : D' t → L'.next t = none ∧ L'.prev t = none)
    (ht : D t → L.next t = none ∧ L.prev t = none) : Paired L' D' := by
  refine ⟨fun a b ha hn => ?_, fun a b hb hp => ?_⟩
  · by_cases hat : a = t
    · subst hat
      rw [(ht' ha).1] at hn
      cases hn
    · have hDa := (hD a hat).1 ha
      rw [(hL a hat hDa).1] at hn
      obtain ⟨hb, hp⟩ := h.next a b hDa hn
      have hbt : b ≠ t := by
        rintro rfl
        rw [(ht hb).2] at hp
        cases hp
      exact ⟨(hD b hbt).2 hb, (hL b hbt hb).2.trans hp⟩
  · by_cases hbt : b = t
    · subst hbt
      rw [(ht' hb).2] at hp
      cases hp
    · have hDb := (hD b hbt).1 hb
      rw [(hL b hbt hDb).2] at hp
      obtain ⟨ha, hn⟩ := h.prev a b hDb hp
      have hat : a ≠ t := by
        rintro rfl
        rw [(ht ha).1] at hn
        cases hn
      exact ⟨(hD a hat).2 ha, (hL a hat ha).1.trans hn⟩

variable [DecidableEq α]

theorem unlink_self (L : Links α) (t : α) : (L.unlink t).next t = none ∧ (L.unlink t).prev t = none := by
  unfold Links.unlink
  simp

theorem Paired.unlink_next (h : Paired L D) (ht : D t) (ha : D a) (hat : a ≠ t) :
    (L.unlink t).next a = if L.next a = some t then L.next t else L.next a := by
  unfold Links.unlink
  simp only [setPrev_next, setNext_next, Function.update_of_ne hat, setPrev?_next]
  split
  · rename_i hn
    rw [(h.next a t ha hn).2]
    change Function.update L.next a (L.next t) a = _
    rw [Function.update_self]
  · rename_i hn
    exact setNext?_of_ne (fun hp => hn (h.prev a t ht hp).2)

theorem Paired.unlink_prev (h : Paired L D) (ht : D t) (ha : D a) (hat : a ≠ t) :
    (L.unlink t).prev a = if L.prev a = some t then L.prev t else L.prev a := by
  have hnext : (L.setNext? (L.prev t) (L.next t)).next t = L.next t := by
    cases hp : L.prev t with
    | none => rfl
    | some b =>
      change Function.update L.next b (L.next t) t = _
      by_cases hbt : t = b
      · rw [hbt, Function.update_self]
      · rw [Function.update_of_ne hbt]
  unfold Links.unlink
  simp only [setPrev_prev, Function.update_of_ne hat, setNext_prev, setNext?_prev, hnext]
  split
  · rename_i hp
    rw [(h.prev t a ha hp).2]
    change Function.update (L.setNext? (L.prev t) _).prev a (L.prev t) a = _
    rw [Function.update_self]
  · rename_i hp
    rw [setPrev?_of_ne (fun hn => hp (h.next t a ht hn).2), setNext?_prev]

theorem Paired.unlink (h : Paired L D) (ht : D t) : Paired (L.unlink t) D := by
  refine ⟨fun a b ha hn => ?_, fun a b hb hp => ?_⟩
  · by_cases hat : a = t
    · rw [hat, (unlink_self L t).1] at hn
      cases hn
    rw [h.unlink_next ht ha hat] at hn
    split at hn
    · rename_i hat'
      have hpt := (h.next a t ha hat').2
      obtain ⟨hb, hp⟩ := h.next t b ht hn
      have hbt : b ≠ t := by
        rintro rfl
        rw [hpt] at hp
        exact hat (Option.some.inj hp)
      refine ⟨hb, ?_⟩
      rw [h.unlink_prev ht hb hbt, if_pos hp, hpt]
    · rename_i hat'
      obtain ⟨hb, hp⟩ := h.next a b ha hn
      have hbt : b ≠ t := by
        rintro rfl
        exact hat' hn
      refine ⟨hb, ?_⟩
      rw [h.unlink_prev ht hb hbt, if_neg (by rw [hp]; exact fun he => hat (Option.some.inj he)), hp]
  · by_cases hbt : b = t
    · rw [hbt, (unlink_self L t).2] at hp
      cases hp
    rw [h.unlink_prev ht hb hbt] at hp
    split at hp
    · rename_i hbt'
      have hnt := (h.prev t b hb hbt').2
      obtain ⟨ha, hn⟩ := h.prev a t ht hp
      have hat : a ≠ t := by
        rintro rfl
        rw [hnt] at hn
        exact hbt (Option.some.inj hn)
      refine ⟨ha, ?_⟩
      rw [h.unlink_next ht ha hat, if_pos hn, hnt]
    · rename_i hbt'
      obtain ⟨ha, hn⟩ := h.prev a b hb hp
      have hat : a ≠ t := by
        rintro rfl
        exact hbt' hp
      refine ⟨ha, ?_⟩
      rw [h.unlink_next ht ha hat, if_neg (by rw [hn]; exact fun he => hbt (Option.some.inj he)), hn]

theorem Paired.of_unlink_next (h : Paired L D) (ht : D t) (ha : D a) (hn : (L.unlink t).next a = some b) :
    ∃ c, D c ∧ L.next c = some b ∧ b ≠ t := by
  by_cases hat : a = t
  · rw [hat, (unlink_self L t).1] at hn
    cases hn
  rw [h.unlink_next ht ha hat] at hn
  split at hn
  · rename_i hat'
    refine ⟨t, ht, hn, ?_⟩
    rintro rfl
    have hp := (h.next b b ht hn).2
    rw [(h.next a b ha hat').2] at hp
    exact hat (Option.some.inj hp)
  · rename_i hat'
    refine ⟨a, ha, hn, ?_⟩
    rintro rfl
    exact hat' hn

theorem Paired.linkBefore (h : Paired L D) {first : Option α} (ht : D t) (hp : L.prev t = none)
    (hfirst : ∀ f, first = some f → D f ∧ L.prev f = none ∧ f ≠ t) (hn : L.next t = none) :
    Paired (L.linkBefore first t) D := by
  have hnext : ∀ a, (L.linkBefore first t).next a = if a = t then first else L.next a := fun a => by
    unfold Links.linkBefore
    simp only [setPrev?_next, setPrev_next, setNext_next, Function.update_apply]
  have hprev : ∀ a, (L.linkBefore first t).prev a = if first = some a then some t else L.prev a := fun a => by
    unfold Links.linkBefore
    cases hf : first with
    | none =>
      change Function.update L.prev t none a = _
      by_cases hat : a = t
      · rw [hat, Function.update_self, hp]
        rfl
      · rw [Function.update_of_ne hat]
        rfl
    | some f =>
      change Function.update (Function.update L.prev t none) f (some t) a = _
      by_cases haf : a = f
      · rw [haf, Function.update_self, if_pos rfl]
      · rw [Function.update_of_ne haf, if_neg (fun he => haf (Option.some.inj he).symm)]
        by_cases hat : a = t
        · rw [hat, Function.update_self, hp]
        · rw [Function.update_of_ne hat]
  refine ⟨fun a b ha hab => ?_, fun a b hb hab => ?_⟩
  · rw [hnext] at hab
    rw [hprev]
    split at hab
    · rename_i hat
      rw [if_pos hab, hat]
      exact ⟨(hfirst b hab).1, rfl⟩
    · obtain ⟨hb, hpb⟩ := h.next a b ha hab
      refine ⟨hb, ?_⟩
      rw [if_neg, hpb]
      intro hf
      rw [(hfirst b hf).2.1] at hpb
      cases hpb
  · rw [hprev] at hab
    rw [hnext]
    split at hab
    · rename_i hf
      rw [← Option.some.inj hab, if_pos rfl]
      exact ⟨ht, hf⟩
    · obtain ⟨ha, hna⟩ := h.prev a b hb hab
      refine ⟨ha, ?_⟩
      rw [if_neg, hna]
      rintro rfl
      rw [hn] at hna
      cases hna

end

/-! ## Families of queues -/

section

/-- The queues `V i` are stored under the heads and tails. -/
structure Family (L : Links α) (head tail : ι → Option α) (V : ι → List α) : Prop where
  seg : ∀ i, L.Seg none (V i) none
  nodup : ∀ i, (V i).Nodup
  head : ∀ i, head i = (V i).head?
  tail : ∀ i, tail i = (V i).getLast?
  disjoint : ∀ i j t, t ∈ V i → t ∈ V j → i = j

variable {L : Links α} {head tail : ι → Option α} {V : ι → List α} {t : α} {i : ι}

theorem Family.congr {L' : Links α} (h : Family L head tail V)
    (hL : ∀ i, ∀ a ∈ V i, L'.next a = L.next a ∧ L'.prev a = L.prev a) : Family L' head tail V :=
  ⟨fun i => (h.seg i).congr (hL i), h.nodup, h.head, h.tail, h.disjoint⟩

variable [DecidableEq ι]

theorem mem_push {j : ι} {u : α} : u ∈ Function.update V i (V i ++ [t]) j ↔ u ∈ V j ∨ u = t ∧ j = i := by
  by_cases hji : j = i
  · subst hji
    simp
  · rw [Function.update_of_ne hji]
    simp [hji]

variable [DecidableEq α]

theorem Family.mem_erase (h : Family L head tail V) (ht : t ∈ V i) {j : ι} {u : α} :
    u ∈ Function.update V i ((V i).erase t) j ↔ u ≠ t ∧ u ∈ V j := by
  by_cases hji : j = i
  · subst hji
    rw [Function.update_self, (h.nodup j).mem_erase_iff]
  · rw [Function.update_of_ne hji]
    refine ⟨fun hu => ⟨?_, hu⟩, fun hu => hu.2⟩
    rintro rfl
    exact hji (h.disjoint j i u hu ht)

theorem Family.push (h : Family L head tail V) (ht : ∀ j, t ∉ V j) : Family (L.linkAfter (tail i) t)
    (if (tail i).isSome then head else Function.update head i (some t)) (Function.update tail i (some t))
    (Function.update V i (V i ++ [t])) := by
  have hlast : (tail i).isSome = true ↔ V i ≠ [] := by
    rw [h.tail i, List.getLast?_isSome]
  refine ⟨fun j => ?_, fun j => ?_, fun j => ?_, fun j => ?_, fun j k u huj huk => ?_⟩
  · rw [h.tail i]
    by_cases hji : j = i
    · rw [hji, Function.update_self]
      exact (h.seg i).linkAfter (h.nodup i) (ht i)
    · rw [Function.update_of_ne hji]
      exact (h.seg j).linkAfter_other (ht j) (fun a ha hai => hji (h.disjoint j i a ha hai))
  · by_cases hji : j = i
    · rw [hji, Function.update_self, List.nodup_append]
      refine ⟨h.nodup i, by simp, fun a ha b hb => ?_⟩
      rw [List.mem_singleton] at hb
      rintro rfl
      exact ht i (hb ▸ ha)
    · rw [Function.update_of_ne hji]
      exact h.nodup j
  · by_cases hji : j = i
    · rw [hji, Function.update_self]
      split
      · rename_i hs
        rw [h.head i, List.head?_append_of_ne_nil _ (hlast.1 hs)]
      · rename_i hs
        rw [Function.update_self, not_not.1 (fun hne => hs (hlast.2 hne))]
        rfl
    · rw [Function.update_of_ne hji]
      split
      · exact h.head j
      · rw [Function.update_of_ne hji]
        exact h.head j
  · by_cases hji : j = i
    · rw [hji, Function.update_self, Function.update_self, List.getLast?_concat]
    · rw [Function.update_of_ne hji, Function.update_of_ne hji]
      exact h.tail j
  · rw [mem_push] at huj huk
    rcases huj with huj | ⟨rfl, rfl⟩
    · rcases huk with huk | ⟨rfl, rfl⟩
      · exact h.disjoint j k u huj huk
      · exact absurd huj (ht j)
    · rcases huk with huk | ⟨-, rfl⟩
      · exact absurd huk (ht k)
      · rfl

theorem Family.remove (h : Family L head tail V) (ht : t ∈ V i) : Family (L.unlink t)
    (if (L.prev t).isSome then head else Function.update head i (L.next t))
    (if (L.next t).isSome then tail else Function.update tail i (L.prev t))
    (Function.update V i ((V i).erase t)) := by
  obtain ⟨pre, post, hV⟩ := List.append_of_mem ht
  have hseg := h.seg i
  have hnd := h.nodup i
  rw [hV] at hseg hnd
  have htpre : t ∉ pre := fun hm => by
    rw [List.nodup_append] at hnd
    exact hnd.2.2 t hm t (by simp) rfl
  have herase : (V i).erase t = pre ++ post := by
    rw [hV, List.erase_append_right _ htpre, List.erase_cons_head]
  obtain ⟨hprev, hnext⟩ := hseg.links
  rw [Option.or_none] at hprev hnext
  refine ⟨fun j => ?_, fun j => ?_, fun j => ?_, fun j => ?_, fun j k u huj huk => ?_⟩
  · by_cases hji : j = i
    · rw [hji, Function.update_self, herase]
      exact hseg.unlink hnd
    · rw [Function.update_of_ne hji]
      exact (h.seg j).unlink_other hseg hnd (fun a ha hai => hji (h.disjoint j i a ha (hV ▸ hai)))
  · by_cases hji : j = i
    · rw [hji, Function.update_self]
      exact (h.nodup i).erase t
    · rw [Function.update_of_ne hji]
      exact h.nodup j
  · by_cases hji : j = i
    · rw [hji, Function.update_self, herase, head?_unlink (t := t), ← hV, ← hprev]
      split
      · exact h.head i
      · rw [Function.update_self, hnext]
    · rw [Function.update_of_ne hji]
      split
      · exact h.head j
      · rw [Function.update_of_ne hji]
        exact h.head j
  · by_cases hji : j = i
    · rw [hji, Function.update_self, herase, getLast?_unlink (t := t), ← hV, ← hnext]
      split
      · exact h.tail i
      · rw [Function.update_self, hprev]
    · rw [Function.update_of_ne hji]
      split
      · exact h.tail j
      · rw [Function.update_of_ne hji]
        exact h.tail j
  · exact h.disjoint j k u ((h.mem_erase ht).1 huj).2 ((h.mem_erase ht).1 huk).2

end

end Links
