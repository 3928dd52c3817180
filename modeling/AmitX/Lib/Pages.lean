import Mathlib.Data.List.Basic
/-!
# Pages — search trees whose nodes are pages of a store

A page holds keys with their values, or it has children and sends a search for a key to one of them.  A store gives the
page at an address, or none.  In a tree the children of a page have neither pages nor keys in common, and a search finds
every key below the page it begins at; a change of the store loses a key where a search from the same page finds it no
more.
-/

namespace Pages

structure Page (α κ ν : Type) where
  keys : List κ
  children : List α
  /-- The child that a search for a key goes on to. -/
  child : κ → Option α
  value : κ → Option ν
  child_mem : ∀ k c, child k = some c → c ∈ children
  value_mem : ∀ k x, value k = some x → k ∈ keys
  kind : keys = [] ∨ children = []

variable {α κ ν : Type}

/-- Page `q` is reached from `a`. -/
inductive Under (f : α → Option (Page α κ ν)) : α → α → Prop
  | refl (a : α) : Under f a a
  | step {a c q : α} {page : Page α κ ν} : f a = some page → c ∈ page.children → Under f c q → Under f a q

/-- A page reached from `a` has the key. -/
inductive Holds (f : α → Option (Page α κ ν)) (k : κ) : α → Prop
  | here {a : α} {page : Page α κ ν} : f a = some page → k ∈ page.keys → Holds f k a
  | down {a c : α} {page : Page α κ ν} : f a = some page → c ∈ page.children → Holds f k c → Holds f k a

/-- The search for the key from `a` ends with the value `x`. -/
inductive Finds (f : α → Option (Page α κ ν)) (k : κ) (x : ν) : α → Prop
  | here {a : α} {page : Page α κ ν} : f a = some page → page.value k = some x → Finds f k x a
  | down {a c : α} {page : Page α κ ν} : f a = some page → page.child k = some c → Finds f k x c → Finds f k x a

structure Apart (f : α → Option (Page α κ ν)) (c d : α) : Prop where
  pages : ∀ q, Under f c q → ¬Under f d q
  keys : ∀ k, Holds f k c → ¬Holds f k d

/-- **A search tree** below `a`. -/
structure IsTree (f : α → Option (Page α κ ν)) (a : α) : Prop where
  apart : ∀ p page, Under f a p → f p = some page → ∀ (i j : Nat) (c d : α), i ≠ j → page.children[i]? = some c →
    page.children[j]? = some d → Apart f c d
  acyclic : ∀ p page c, Under f a p → f p = some page → c ∈ page.children → ¬Under f c p
  distinct : ∀ p page, Under f a p → f p = some page → page.keys.Nodup
  finds : ∀ p k, Under f a p → Holds f k p → ∃ x, Finds f k x p
  inhabited : ∀ p, Under f a p → ∃ k, Holds f k p

/-- Some key below `a` in the store `f` is not found from `a` in the store `f'`. -/
def Lost (f f' : α → Option (Page α κ ν)) (a : α) : Prop := ∃ k, Holds f k a ∧ ∀ x, ¬Finds f' k x a

section

variable {f f' : α → Option (Page α κ ν)} {a c d p q : α} {k : κ} {x : ν} {page page' : Page α κ ν}

theorem Under.trans (h : Under f a p) (h' : Under f p q) : Under f a q := by
  induction h with
  | refl => exact h'
  | step hpage hmem _ ih => exact .step hpage hmem (ih h')

theorem under_child (hpage : f a = some page) (hmem : c ∈ page.children) : Under f a c :=
  .step hpage hmem (.refl c)

theorem Finds.holds (h : Finds f k x a) : Holds f k a := by
  induction h with
  | here hpage hval => exact .here hpage (Page.value_mem _ _ _ hval)
  | down hpage hchild _ ih => exact .down hpage (Page.child_mem _ _ _ hchild) ih

/-! ## Stores that agree below a page -/

theorem Under.congr (h : Under f' a q) : (∀ p, Under f a p → f' p = f p) → Under f a q := by
  induction h with
  | refl => exact fun _ => .refl _
  | step hpage hmem _ ih =>
    intro hagree
    have hsame := (hagree _ (.refl _)).symm.trans hpage
    exact .step hsame hmem (ih (fun p hp => hagree p (.step hsame hmem hp)))

theorem Holds.congr (h : Holds f' k a) : (∀ p, Under f a p → f' p = f p) → Holds f k a := by
  induction h with
  | here hpage hmem => exact fun hagree => .here ((hagree _ (.refl _)).symm.trans hpage) hmem
  | down hpage hmem _ ih =>
    intro hagree
    have hsame := (hagree _ (.refl _)).symm.trans hpage
    exact .down hsame hmem (ih (fun p hp => hagree p (.step hsame hmem hp)))

theorem Finds.congr (h : Finds f' k x a) : (∀ p, Under f a p → f' p = f p) → Finds f k x a := by
  induction h with
  | here hpage hval => exact fun hagree => .here ((hagree _ (.refl _)).symm.trans hpage) hval
  | down hpage hchild _ ih =>
    intro hagree
    have hsame := (hagree _ (.refl _)).symm.trans hpage
    have hmem := Page.child_mem _ _ _ hchild
    exact .down hsame hchild (ih (fun p hp => hagree p (.step hsame hmem hp)))

theorem Lost.congr {f₁ f₂ : α → Option (Page α κ ν)} (h : Lost f f₁ a) (hagree : ∀ p, Under f₁ a p → f₂ p = f₁ p) :
    Lost f f₂ a :=
  h.imp (fun _ hk => ⟨hk.1, fun x hx => hk.2 x (hx.congr hagree)⟩)

/-! ## Trees -/

theorem IsTree.sub (h : IsTree f a) (hp : Under f a p) : IsTree f p :=
  ⟨fun q page hq => h.apart q page (hp.trans hq), fun q page c hq => h.acyclic q page c (hp.trans hq),
    fun q page hq => h.distinct q page (hp.trans hq), fun q k hq => h.finds q k (hp.trans hq),
    fun q hq => h.inhabited q (hp.trans hq)⟩

theorem IsTree.child (h : IsTree f a) (hpage : f a = some page) (hmem : c ∈ page.children) : IsTree f c :=
  h.sub (under_child hpage hmem)

theorem IsTree.child_unique (h : IsTree f a) (hpage : f a = some page) {i j : Nat} (hc : page.children[i]? = some c)
    (hd : page.children[j]? = some d) (hkc : Holds f k c) (hkd : Holds f k d) : i = j := by
  by_contra hij
  exact (h.apart a page (.refl a) hpage i j c d hij hc hd).keys k hkc hkd

theorem keys_nil_of_mem (hmem : c ∈ page.children) : page.keys = [] := by
  rcases page.kind with h | h
  · exact h
  · rw [h] at hmem
    cases hmem

theorem IsTree.child_of_holds (h : IsTree f a) (hpage : f a = some page) (hmem : c ∈ page.children)
    (hk : Holds f k c) : page.child k = some c := by
  obtain ⟨x, hx⟩ := h.finds a k (.refl a) (.down hpage hmem hk)
  cases hx with
  | here hpage' hval =>
    rw [hpage] at hpage'
    cases hpage'
    have hkey := Page.value_mem _ _ _ hval
    rw [keys_nil_of_mem hmem] at hkey
    cases hkey
  | @down _ d _ hpage' hchild hfinds =>
    rw [hpage] at hpage'
    cases hpage'
    obtain ⟨i, hi⟩ := List.mem_iff_getElem?.1 hmem
    obtain ⟨j, hj⟩ := List.mem_iff_getElem?.1 (Page.child_mem _ _ _ hchild)
    have hij := h.child_unique hpage hi hj hk hfinds.holds
    rw [hij, hj] at hi
    rw [hchild, hi]

/-! ## Keys that are lost -/

theorem Lost.up (h : IsTree f a) (hpage : f a = some page) (hsame : f' a = some page) (hmem : c ∈ page.children)
    (hlost : Lost f f' c) : Lost f f' a := by
  obtain ⟨k, hk, hnot⟩ := hlost
  refine ⟨k, .down hpage hmem hk, fun x hx => ?_⟩
  have hroute := h.child_of_holds hpage hmem hk
  cases hx with
  | here hpage' hval =>
    rw [hsame] at hpage'
    cases hpage'
    have hkey := Page.value_mem _ _ _ hval
    rw [keys_nil_of_mem hmem] at hkey
    cases hkey
  | down hpage' hchild hfinds =>
    rw [hsame] at hpage'
    cases hpage'
    rw [hroute] at hchild
    cases hchild
    exact hnot x hfinds

theorem lost_of_not_holds (hk : Holds f k a) (hnot : ¬Holds f' k a) : Lost f f' a :=
  ⟨k, hk, fun _ hx => hnot hx.holds⟩

theorem holds_child (hpage : f a = some page) (hkeys : page.keys = []) (hk : Holds f k a) :
    ∃ c ∈ page.children, Holds f k c := by
  cases hk with
  | here hpage' hmem =>
    rw [hpage] at hpage'
    cases hpage'
    rw [hkeys] at hmem
    cases hmem
  | down hpage' hmem hkc =>
    rw [hpage] at hpage'
    cases hpage'
    exact ⟨_, hmem, hkc⟩

theorem holds_here (hpage : f a = some page) (hnone : page.children = []) (hk : Holds f k a) : k ∈ page.keys := by
  cases hk with
  | here hpage' hmem =>
    rw [hpage] at hpage'
    cases hpage'
    exact hmem
  | down hpage' hmem _ =>
    rw [hpage] at hpage'
    cases hpage'
    rw [hnone] at hmem
    cases hmem

theorem under_here (hpage : f a = some page) (hnone : page.children = []) (hq : Under f a q) : q = a := by
  cases hq with
  | refl => rfl
  | step hpage' hmem _ =>
    rw [hpage] at hpage'
    cases hpage'
    rw [hnone] at hmem
    cases hmem

/-! ## Splitting a page -/

/-- Page `a` was split by the insertion of `key`, and `r` is the page on its right: together they have the keys that `a`
had and perhaps `key`, and `a` has lost some. -/
structure Grown (f f' : α → Option (Page α κ ν)) (key : κ) (a r : α) : Prop where
  left : ∀ k, Holds f' k a → Holds f k a ∨ k = key
  right : ∀ k, Holds f' k r → Holds f k a ∨ k = key
  lost : Lost f f' a

theorem Grown.congr {f₁ f₂ : α → Option (Page α κ ν)} {key : κ} {r : α} (h : Grown f f₁ key a r)
    (ha : ∀ p, Under f₁ a p → f₂ p = f₁ p) (hr : ∀ p, Under f₁ r p → f₂ p = f₁ p) : Grown f f₂ key a r :=
  ⟨fun k hk => h.left k (hk.congr ha), fun k hk => h.right k (hk.congr hr), h.lost.congr ha⟩

/-- The insertion below one child of a page: the pages below its other children are the same. -/
structure GrownChild (f f' : α → Option (Page α κ ν)) (key : κ) (page : Page α κ ν) (i : Nat) (b r : α) : Prop where
  grown : Grown f f' key b r
  here : page.children[i]? = some b
  route : page.child key = some b
  others : ∀ j d, j ≠ i → page.children[j]? = some d → ∀ q, Under f d q → f' q = f q

variable {b r r' : α} {key : κ} {i : Nat}

theorem GrownChild.holds (hg : GrownChild f f' key page i b r) (hpage : f a = some page) (hnew : f' p = some page')
    (hkeys : page'.keys = []) (hsub : ∀ d ∈ page'.children, d = r ∨ d ∈ page.children) (hk : Holds f' k p) :
    Holds f k a ∨ k = key := by
  have hup : ∀ {k}, Holds f k b ∨ k = key → Holds f k a ∨ k = key := fun h =>
    h.imp (fun h => .down hpage (List.mem_of_getElem? hg.here) h) id
  obtain ⟨d, hd, hkd⟩ := holds_child hnew hkeys hk
  rcases hsub d hd with rfl | hold
  · exact hup (hg.grown.right k hkd)
  · obtain ⟨j, hj⟩ := List.mem_iff_getElem?.1 hold
    by_cases hji : j = i
    · rw [hji, hg.here] at hj
      cases hj
      exact hup (hg.grown.left k hkd)
    · exact .inl (.down hpage hold (hkd.congr (hg.others j d hji hj)))

theorem GrownChild.under {P : α → Prop} (hg : GrownChild f f' key page i b r) (hpage : f a = some page)
    (hnew : f' p = some page') (hsub : ∀ d ∈ page'.children, d = r ∨ d ∈ page.children) (hold : ∀ q, Under f a q → P q)
    (hb : ∀ q, Under f' b q → P q) (hr : ∀ q, Under f' r q → P q) (hp : P p) (hq : Under f' p q) : P q := by
  cases hq with
  | refl => exact hp
  | @step _ d _ _ hpage' hmem hq =>
    rw [hnew] at hpage'
    cases hpage'
    rcases hsub d hmem with rfl | hmem'
    · exact hr q hq
    · obtain ⟨j, hj⟩ := List.mem_iff_getElem?.1 hmem'
      by_cases hji : j = i
      · rw [hji, hg.here] at hj
        cases hj
        exact hb q hq
      · exact hold q (.step hpage hmem' (hq.congr (hg.others j d hji hj)))

theorem GrownChild.split (h : IsTree f a) (hg : GrownChild f f' key page i b r) (hpage : f a = some page)
    {left right : Page α κ ν} (hleft : f' a = some left) (hright : f' r' = some right) (hlk : left.keys = [])
    (hrk : right.keys = []) {j : Nat} (hj : page.children[j]? = some c) (hji : j ≠ i)
    (hls : ∀ d ∈ left.children, d = r ∨ ∃ m, m ≠ j ∧ page.children[m]? = some d)
    (hrs : ∀ d ∈ right.children, d = r ∨ d ∈ page.children) : Grown f f' key a r' := by
  have hls' : ∀ d ∈ left.children, d = r ∨ d ∈ page.children := fun d hd =>
    (hls d hd).imp id (fun ⟨_, _, hm⟩ => List.mem_of_getElem? hm)
  refine ⟨fun k hk => hg.holds hpage hleft hlk hls' hk, fun k hk => hg.holds hpage hright hrk hrs hk, ?_⟩
  have hcmem := List.mem_of_getElem? hj
  obtain ⟨k, hkc⟩ := (h.child hpage hcmem).inhabited c (.refl c)
  refine lost_of_not_holds (.down hpage hcmem hkc) (fun hk => ?_)
  -- neither the pages below `b` nor the new page have the key
  have hnotb : ¬(Holds f k b ∨ k = key) := by
    rintro (hkb | rfl)
    · exact hji (h.child_unique hpage hj hg.here hkc hkb)
    · have hroute := h.child_of_holds hpage hcmem hkc
      rw [hg.route] at hroute
      cases hroute
      exact hji (h.child_unique hpage hj hg.here hkc hkc)
  obtain ⟨d, hd, hkd⟩ := holds_child hleft hlk hk
  rcases hls d hd with rfl | ⟨m, hmj, hm⟩
  · exact hnotb (hg.grown.right k hkd)
  · by_cases hmi : m = i
    · rw [hmi, hg.here] at hm
      cases hm
      exact hnotb (hg.grown.left k hkd)
    · exact hmj (h.child_unique hpage hm hj (hkd.congr (hg.others m d hmi hm)) hkc)

end

end Pages
