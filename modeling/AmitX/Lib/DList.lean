import Mathlib.Tactic.Common
import Mathlib.Logic.Function.Basic
import Mathlib.Data.List.Basic
import Mathlib.Data.List.Induction
/-!
# DList — intrusive doubly linked lists

The cells of a type `α` carry one pair of links, `next` and `prev`.  `Seg L p l n` says that the cells of `l` are linked
in that order, the first back to `p` and the last on to `n`; a whole list is a segment from `none` to `none`.  Appending
a cell and taking one out rewrite the links of its neighbours only, so that segments of other cells stay as they are.
-/

structure Links (α : Type) where
  next : α → Option α
  prev : α → Option α

namespace Links

variable {α : Type}

/-- The cells of `l` are linked in order between `p` and `n`. -/
def Seg (L : Links α) : Option α → List α → Option α → Prop
  | _, [], _ => True
  | p, a :: l, n => L.prev a = p ∧ L.next a = l.head?.or n ∧ Seg L (some a) l n

/-- A cell reached along `next`. -/
inductive Reach (next : α → Option α) : Option α → α → Prop
  | here (a : α) : Reach next (some a) a
  | step {a u : α} : Reach next (next a) u → Reach next (some a) u

theorem seg_append {L : Links α} : ∀ {l m : List α} {p n : Option α},
    L.Seg p (l ++ m) n ↔ L.Seg p l (m.head?.or n) ∧ L.Seg (l.getLast?.or p) m n
  | [], _, _, _ => by simp [Seg]
  | [a], m, p, n => by
    simp only [List.cons_append, List.nil_append, Seg, List.head?_nil, Option.none_or, List.getLast?_singleton,
      Option.some_or, and_true, and_assoc]
  | a :: b :: l, m, p, n => by
    have ih := seg_append (L := L) (l := b :: l) (m := m) (p := some a) (n := n)
    simp only [List.cons_append] at ih
    have hlast : ((b :: l).getLast?.or (some a)) = ((b :: l).getLast?.or p) := by
      cases h : (b :: l).getLast? with
      | none => simp at h
      | some x => rfl
    rw [hlast] at ih
    rw [List.cons_append, List.cons_append, Seg, ih, List.getLast?_cons_cons]
    constructor
    · rintro ⟨h1, h2, h3, h4⟩
      exact ⟨⟨h1, h2, h3⟩, h4⟩
    · rintro ⟨⟨h1, h2, h3⟩, h4⟩
      exact ⟨h1, h2, h3, h4⟩

theorem Seg.congr {L L' : Links α} : ∀ {l : List α} {p n : Option α},
    (∀ a ∈ l, L'.next a = L.next a ∧ L'.prev a = L.prev a) → L.Seg p l n → L'.Seg p l n
  | [], _, _, _, _ => trivial
  | a :: l, _, _, h, hs => by
    obtain ⟨h1, h2, h3⟩ := hs
    have ha := h a (by simp)
    exact ⟨ha.2.trans h1, ha.1.trans h2, h3.congr (fun b hb => h b (by simp [hb]))⟩

theorem Seg.links {L : Links α} {pre post : List α} {t : α} {p n : Option α} (h : L.Seg p (pre ++ t :: post) n) :
    L.prev t = pre.getLast?.or p ∧ L.next t = post.head?.or n := by
  have := (seg_append.1 h).2
  exact ⟨this.1, this.2.1⟩

/-- The cells of `l` are those along a link, from a cell or NULL on, up to NULL. -/
def Along (f : α → Option α) : Option α → List α → Prop
  | x, [] => x = none
  | x, a :: l => x = some a ∧ Along f (f a) l

theorem Seg.along_next {L : Links α} : ∀ {l : List α} {p : Option α}, L.Seg p l none → Along L.next l.head? l
  | [], _, _ => rfl
  | a :: l, _, h => by
    obtain ⟨-, h2, h3⟩ := h
    refine ⟨rfl, ?_⟩
    rw [h2, Option.or_none]
    exact h3.along_next

theorem Along.reach_iff {f : α → Option α} {u : α} : ∀ {l : List α} {x : Option α}, Along f x l → (Reach f x u ↔ u ∈ l)
  | [], x, h => by
    rw [show x = none from h]
    simp only [List.not_mem_nil, iff_false]
    intro hr
    cases hr
  | a :: l, x, h => by
    obtain ⟨rfl, h⟩ := h
    have ih := h.reach_iff (u := u)
    constructor
    · intro hr
      cases hr with
      | here => exact List.mem_cons_self
      | step hr => exact List.mem_cons_of_mem _ (ih.1 hr)
    · intro hm
      rcases List.mem_cons.1 hm with rfl | hm
      · exact Reach.here _
      · exact Reach.step (ih.2 hm)

theorem reach_iff {L : Links α} {l : List α} {p : Option α} {u : α} (h : L.Seg p l none) :
    Reach L.next l.head? u ↔ u ∈ l :=
  h.along_next.reach_iff

theorem Seg.along_prev {L : Links α} {l : List α} : ∀ {n : Option α}, L.Seg none l n → Along L.prev l.getLast? l.reverse := by
  induction l using List.reverseRecOn with
  | nil => exact fun _ => rfl
  | append_singleton l a ih =>
    intro n h
    obtain ⟨h1, h2, -, -⟩ := seg_append.1 h
    rw [List.reverse_append, List.getLast?_concat]
    refine ⟨rfl, ?_⟩
    rw [h2, Option.or_none]
    exact ih h1

theorem head?_unlink {pre post : List α} {t : α} : (pre ++ post).head? =
    if pre.getLast?.isSome then (pre ++ t :: post).head? else post.head? := by
  cases pre with
  | nil => simp
  | cons a pre => simp

theorem getLast?_unlink {pre post : List α} {t : α} : (pre ++ post).getLast? =
    if post.head?.isSome then (pre ++ t :: post).getLast? else pre.getLast? := by
  cases post with
  | nil => simp
  | cons a post =>
    rw [List.getLast?_append_of_ne_nil _ (by simp), List.getLast?_append_of_ne_nil _ (by simp)]
    simp

section Update

variable [DecidableEq α]

def setNext (L : Links α) (a : α) (x : Option α) : Links α := { L with next := Function.update L.next a x }

def setPrev (L : Links α) (a : α) (x : Option α) : Links α := { L with prev := Function.update L.prev a x }

/-- `x->next = y` unless `x` is NULL. -/
def setNext? (L : Links α) (x : Option α) (y : Option α) : Links α :=
  match x with
  | some a => L.setNext a y
  | none => L

/-- `x->prev = y` unless `x` is NULL. -/
def setPrev? (L : Links α) (x : Option α) (y : Option α) : Links α :=
  match x with
  | some a => L.setPrev a y
  | none => L

def unlink (L : Links α) (t : α) : Links α :=
  let L := L.setNext? (L.prev t) (L.next t)
  let L := L.setPrev? (L.next t) (L.prev t)
  (L.setNext t none).setPrev t none

/-- Put a cell behind `last`. -/
def linkAfter (L : Links α) (last : Option α) (t : α) : Links α :=
  ((L.setNext t none).setPrev t last).setNext? last (some t)

/-- Put a cell before `first`. -/
def linkBefore (L : Links α) (first : Option α) (t : α) : Links α :=
  ((L.setNext t first).setPrev t none).setPrev? first (some t)

@[simp] theorem setNext_next (L : Links α) (a : α) (x : Option α) : (L.setNext a x).next = Function.update L.next a x :=
  rfl
@[simp] theorem setNext_prev (L : Links α) (a : α) (x : Option α) : (L.setNext a x).prev = L.prev := rfl
@[simp] theorem setPrev_next (L : Links α) (a : α) (x : Option α) : (L.setPrev a x).next = L.next := rfl
@[simp] theorem setPrev_prev (L : Links α) (a : α) (x : Option α) : (L.setPrev a x).prev = Function.update L.prev a x :=
  rfl

@[simp] theorem setNext?_prev (L : Links α) (x y : Option α) : (L.setNext? x y).prev = L.prev := by
  cases x <;> rfl

@[simp] theorem setPrev?_next (L : Links α) (x y : Option α) : (L.setPrev? x y).next = L.next := by
  cases x <;> rfl

theorem setNext?_of_ne {L : Links α} {x y : Option α} {a : α} (h : x ≠ some a) :
    (L.setNext? x y).next a = L.next a := by
  cases x with
  | none => rfl
  | some b => exact Function.update_of_ne (fun hab => h (by rw [hab])) _ _

theorem setPrev?_of_ne {L : Links α} {x y : Option α} {a : α} (h : x ≠ some a) :
    (L.setPrev? x y).prev a = L.prev a := by
  cases x with
  | none => rfl
  | some b => exact Function.update_of_ne (fun hab => h (by rw [hab])) _ _

theorem Seg.setLast {L : Links α} {l : List α} {p n : Option α} (h : L.Seg p l n) (hl : l.Nodup) (n' : Option α) :
    (L.setNext? l.getLast? n').Seg p l n' := by
  rcases List.eq_nil_or_concat l with rfl | ⟨l', z, rfl⟩
  · trivial
  · rw [List.concat_eq_append] at *
    obtain ⟨h1, h2, h3, _⟩ := seg_append.1 h
    rw [List.getLast?_concat]
    have hz : z ∉ l' := fun hz => by
      rw [List.nodup_append] at hl
      exact hl.2.2 z hz z (by simp) rfl
    refine seg_append.2 ⟨?_, ?_, ?_, trivial⟩
    · exact h1.congr (fun a ha => ⟨setNext?_of_ne (fun haz => hz (by rw [Option.some.inj haz]; exact ha)), by simp⟩)
    · exact h2
    · simp [setNext?]

theorem Seg.setFirst {L : Links α} {l : List α} {p n : Option α} (h : L.Seg p l n) (hl : l.Nodup) (p' : Option α) :
    (L.setPrev? l.head? p').Seg p' l n := by
  cases l with
  | nil => trivial
  | cons a l =>
    obtain ⟨_, h2, h3⟩ := h
    have ha : a ∉ l := (List.nodup_cons.1 hl).1
    refine ⟨by simp [setPrev?], h2, Seg.congr (fun b hb => ⟨by simp, setPrev?_of_ne (fun hab => ha ?_)⟩) h3⟩
    rw [List.head?_cons] at hab
    rw [Option.some.inj hab]
    exact hb

theorem Seg.setNext {L : Links α} {l : List α} {p n : Option α} (h : L.Seg p l n) {t : α} (ht : t ∉ l) (x : Option α) :
    (L.setNext t x).Seg p l n :=
  h.congr (fun a ha => ⟨by rw [setNext_next, Function.update_of_ne (by rintro rfl; exact ht ha)], by simp⟩)

theorem Seg.setPrev {L : Links α} {l : List α} {p n : Option α} (h : L.Seg p l n) {t : α} (ht : t ∉ l) (x : Option α) :
    (L.setPrev t x).Seg p l n :=
  h.congr (fun a ha => ⟨by simp, by rw [setPrev_prev, Function.update_of_ne (by rintro rfl; exact ht ha)]⟩)

theorem Seg.setNext? {L : Links α} {l : List α} {p n : Option α} (h : L.Seg p l n) {x : Option α}
    (hx : ∀ a ∈ l, x ≠ some a) (y : Option α) : (L.setNext? x y).Seg p l n :=
  h.congr (fun a ha => ⟨setNext?_of_ne (hx a ha), by simp⟩)

theorem Seg.setPrev? {L : Links α} {l : List α} {p n : Option α} (h : L.Seg p l n) {x : Option α}
    (hx : ∀ a ∈ l, x ≠ some a) (y : Option α) : (L.setPrev? x y).Seg p l n :=
  h.congr (fun a ha => ⟨by simp, setPrev?_of_ne (hx a ha)⟩)

theorem Seg.linkAfter {L : Links α} {l : List α} (h : L.Seg none l none) (hl : l.Nodup) {t : α} (ht : t ∉ l) :
    (L.linkAfter l.getLast? t).Seg none (l ++ [t]) none := by
  have hlast : l.getLast? ≠ some t := fun he => ht (List.mem_of_getLast? he)
  refine seg_append.2 ⟨((h.setNext ht none).setPrev ht l.getLast?).setLast hl (some t), ?_, ?_, trivial⟩
  · rw [Links.linkAfter, setNext?_prev, setPrev_prev, Function.update_self, Option.or_none]
  · rw [Links.linkAfter, setNext?_of_ne hlast, setPrev_next, setNext_next, Function.update_self]
    rfl

theorem Seg.linkBefore {L : Links α} {l : List α} (h : L.Seg none l none) (hl : l.Nodup) {t : α} (ht : t ∉ l) :
    (L.linkBefore l.head? t).Seg none (t :: l) none := by
  have hhead : l.head? ≠ some t := fun he => ht (List.mem_of_mem_head? he)
  refine ⟨?_, ?_, ((h.setNext ht l.head?).setPrev ht none).setFirst hl (some t)⟩
  · rw [Links.linkBefore, setPrev?_of_ne hhead, setPrev_prev, Function.update_self]
  · rw [Links.linkBefore, setPrev?_next, setPrev_next, setNext_next, Function.update_self, Option.or_none]

theorem Seg.unlink {L : Links α} {pre post : List α} {t : α} (h : L.Seg none (pre ++ t :: post) none)
    (hl : (pre ++ t :: post).Nodup) : (L.unlink t).Seg none (pre ++ post) none := by
  obtain ⟨hprev, hnext⟩ := h.links
  rw [Option.or_none] at hprev hnext
  obtain ⟨h1, _, _, h2⟩ := seg_append.1 h
  rw [List.nodup_append, List.nodup_cons] at hl
  obtain ⟨hpre, ⟨htpost, hpost⟩, hdis⟩ := hl
  have htpre : t ∉ pre := fun hm => hdis t hm t (by simp) rfl
  have hlast : pre.getLast? ≠ some t := fun he => htpre (List.mem_of_getLast? he)
  have hlast' : ∀ a ∈ post, pre.getLast? ≠ some a := fun a ha he =>
    hdis a (List.mem_of_getLast? he) a (by simp [ha]) rfl
  have hfirst' : ∀ a ∈ pre, post.head? ≠ some a := fun a ha he =>
    hdis a ha a (by simp [List.mem_of_mem_head? he]) rfl
  have hL : L.unlink t = (((L.setNext? pre.getLast? post.head?).setPrev? post.head? pre.getLast?).setNext t none).setPrev
      t none := by
    unfold Links.unlink
    simp only [setNext?_prev, hprev, setNext?_of_ne hlast, hnext]
  rw [hL]
  refine (Seg.setNext ?_ (by simp [htpre, htpost]) none).setPrev (by simp [htpre, htpost]) none
  refine seg_append.2 ⟨?_, ?_⟩
  · rw [Option.or_none]
    exact (h1.setLast hpre post.head?).setPrev? hfirst' _
  · rw [Option.or_none]
    exact (h2.setNext? hlast' _).setFirst hpost _

theorem unlink_of_ne {L : Links α} {t a : α} (ha : a ≠ t) (hp : L.prev t ≠ some a) (hn : L.next t ≠ some a)
    (ht : L.prev t ≠ some t) : (L.unlink t).next a = L.next a ∧ (L.unlink t).prev a = L.prev a := by
  unfold Links.unlink
  simp only [setNext?_prev, setNext?_of_ne ht]
  refine ⟨?_, ?_⟩
  · rw [setPrev_next, setNext_next, Function.update_of_ne ha, setPrev?_next, setNext?_of_ne hp]
  · rw [setPrev_prev, Function.update_of_ne ha, setNext_prev, setPrev?_of_ne hn, setNext?_prev]

theorem Seg.unlink_other {L : Links α} {l pre post : List α} {t : α} {p n : Option α} (hl : L.Seg p l n)
    (h : L.Seg none (pre ++ t :: post) none) (hnd : (pre ++ t :: post).Nodup)
    (hdis : ∀ a ∈ l, a ∉ pre ++ t :: post) : (L.unlink t).Seg p l n := by
  obtain ⟨hprev, hnext⟩ := h.links
  rw [Option.or_none] at hprev hnext
  refine hl.congr (fun a ha => unlink_of_ne (fun hat => hdis a ha (by simp [hat])) (fun he => hdis a ha ?_)
    (fun he => hdis a ha ?_) (fun he => ?_))
  · rw [hprev] at he
    simp [List.mem_of_getLast? he]
  · rw [hnext] at he
    simp [List.mem_of_mem_head? he]
  · rw [hprev] at he
    rw [List.nodup_append] at hnd
    exact hnd.2.2 t (List.mem_of_getLast? he) t (by simp) rfl

theorem Seg.linkAfter_other {L : Links α} {l m : List α} {t : α} {p n : Option α} (hl : L.Seg p l n) (ht : t ∉ l)
    (hdis : ∀ a ∈ l, a ∉ m) : (L.linkAfter m.getLast? t).Seg p l n :=
  ((hl.setNext ht none).setPrev ht m.getLast?).setNext? (fun a ha he => hdis a ha (List.mem_of_getLast? he)) _

theorem Seg.linkBefore_other {L : Links α} {l m : List α} {t : α} {p n : Option α} (hl : L.Seg p l n) (ht : t ∉ l)
    (hdis : ∀ a ∈ l, a ∉ m) : (L.linkBefore m.head? t).Seg p l n :=
  ((hl.setNext ht m.head?).setPrev ht none).setPrev? (fun a ha he => hdis a ha (List.mem_of_mem_head? he)) _

end Update

end Links
