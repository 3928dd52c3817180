import Mathlib.Tactic.Common
import Mathlib.Data.List.Nodup
import Mathlib.Data.List.Range
import Mathlib.Data.List.Flatten
import Mathlib.Logic.Function.Basic
/-!
# Pieces — maps given by pieces

A piece takes `len` numbers from `src` on to those from `dst` on; a list of pieces is looked up piece by piece.  What a
list maps is its graph, a list of pairs, and everything is read off the graph: two lists whose graphs are permutations of
one another look up the same, two adjacent pieces may be joined, and a piece may be cut down to a part of its sources.
-/

namespace Pieces

structure Piece where
  src : Nat
  dst : Nat
  len : Nat
  deriving DecidableEq

/-- What the piece takes `a` to. -/
def Piece.image (p : Piece) (a : Nat) : Option Nat :=
  if p.src ≤ a ∧ a < p.src + p.len then some (p.dst + (a - p.src)) else none

def Piece.pairs (p : Piece) : List (Nat × Nat) := (List.range p.len).map (fun i => (p.src + i, p.dst + i))

def graph (ps : List Piece) : List (Nat × Nat) := ps.flatMap Piece.pairs

/-- What the first piece that holds `a` takes it to. -/
def lookup (ps : List Piece) (a : Nat) : Option Nat := ps.findSome? (fun p => p.image a)

def Functional (ps : List Piece) : Prop := ((graph ps).map Prod.fst).Nodup

def Injective (ps : List Piece) : Prop := ((graph ps).map Prod.snd).Nodup

section

variable {p q : Piece} {ps qs : List Piece} {a b : Nat}

theorem mem_pairs : (a, b) ∈ p.pairs ↔ p.src ≤ a ∧ a < p.src + p.len ∧ b = p.dst + (a - p.src) := by
  simp only [Piece.pairs, List.mem_map, List.mem_range, Prod.mk.injEq]
  constructor
  · rintro ⟨i, hi, rfl, rfl⟩
    omega
  · rintro ⟨hlow, hhigh, rfl⟩
    exact ⟨a - p.src, by omega, by omega, rfl⟩

theorem image_eq_some : p.image a = some b ↔ (a, b) ∈ p.pairs := by
  rw [mem_pairs, Piece.image]
  split
  · rename_i h
    simp [h, eq_comm]
  · rename_i h
    constructor
    · intro hn
      cases hn
    · rintro ⟨h1, h2, -⟩
      exact absurd ⟨h1, h2⟩ h

@[simp] theorem graph_nil : graph [] = [] := rfl

@[simp] theorem graph_cons : graph (p :: ps) = p.pairs ++ graph ps := List.flatMap_cons

@[simp] theorem graph_append : graph (ps ++ qs) = graph ps ++ graph qs := List.flatMap_append

theorem mem_graph : (a, b) ∈ graph ps ↔ ∃ p ∈ ps, (a, b) ∈ p.pairs := List.mem_flatMap

theorem pairs_of_len (h : p.len = 0) : p.pairs = [] := by
  rw [Piece.pairs, h]
  rfl

@[simp] theorem pairs_one : (Piece.mk a b 1).pairs = [(a, b)] := rfl

theorem mem_targets : b ∈ p.pairs.map Prod.snd ↔ p.dst ≤ b ∧ b < p.dst + p.len := by
  simp only [List.mem_map, Prod.exists, exists_eq_right, mem_pairs]
  constructor
  · rintro ⟨a, hlow, hhigh, rfl⟩
    omega
  · rintro ⟨hlow, hhigh⟩
    exact ⟨p.src + (b - p.dst), by omega, by omega, by omega⟩

/-! ## Looking up -/

theorem mem_of_lookup (h : lookup ps a = some b) : (a, b) ∈ graph ps := by
  obtain ⟨p, hp, himage⟩ := List.exists_of_findSome?_eq_some h
  exact mem_graph.2 ⟨p, hp, image_eq_some.1 himage⟩

theorem eq_of_functional {b' : Nat} (hf : Functional ps) (h : (a, b) ∈ graph ps) (h' : (a, b') ∈ graph ps) : b = b' :=
  congrArg Prod.snd (List.inj_on_of_nodup_map hf h h' rfl)

theorem eq_of_injective {a' : Nat} (hi : Injective ps) (h : (a, b) ∈ graph ps) (h' : (a', b) ∈ graph ps) : a = a' :=
  congrArg Prod.fst (List.inj_on_of_nodup_map hi h h' rfl)

theorem lookup_isSome (h : (a, b) ∈ graph ps) : ∃ b', lookup ps a = some b' := by
  obtain ⟨p, hp, hpair⟩ := mem_graph.1 h
  rw [← Option.isSome_iff_exists, lookup, List.findSome?_isSome_iff]
  exact ⟨p, hp, by rw [image_eq_some.2 hpair]; rfl⟩

theorem lookup_eq_some (hf : Functional ps) : lookup ps a = some b ↔ (a, b) ∈ graph ps := by
  refine ⟨mem_of_lookup, fun h => ?_⟩
  obtain ⟨b', hb'⟩ := lookup_isSome h
  rw [hb', eq_of_functional hf (mem_of_lookup hb') h]

theorem lookup_eq_none : lookup ps a = none ↔ ∀ b, (a, b) ∉ graph ps := by
  constructor
  · intro hn b hb
    obtain ⟨b', hb'⟩ := lookup_isSome hb
    rw [hn] at hb'
    cases hb'
  · intro h
    cases hl : lookup ps a with
    | none => rfl
    | some b => exact absurd (mem_of_lookup hl) (h b)

theorem lookup_congr (hf : Functional ps) (hf' : Functional qs) (h : ∀ x, x ∈ graph qs ↔ x ∈ graph ps) :
    lookup qs = lookup ps := by
  funext a
  ext b
  rw [lookup_eq_some hf, lookup_eq_some hf', h]

theorem lookup_insert (hf : Functional ps) (hf' : Functional qs) (h : (graph qs).Perm ((a, b) :: graph ps)) :
    lookup qs = Function.update (lookup ps) a (some b) := by
  funext c
  by_cases hc : c = a
  · subst hc
    rw [Function.update_self, lookup_eq_some hf', h.mem_iff]
    exact List.mem_cons_self
  · rw [Function.update_of_ne hc]
    ext d
    rw [lookup_eq_some hf, lookup_eq_some hf', h.mem_iff, List.mem_cons, Prod.mk.injEq]
    simp [hc]

theorem lookup_filter {P : Nat → Bool} (hf : Functional ps) (hf' : Functional qs)
    (h : ∀ x, x ∈ graph qs ↔ x ∈ graph ps ∧ P x.1 = true) (a : Nat) :
    lookup qs a = if P a = true then lookup ps a else none := by
  ext b
  rw [lookup_eq_some hf', h]
  split
  · rename_i hp
    rw [lookup_eq_some hf]
    exact and_iff_left hp
  · rename_i hp
    simp [hp]

theorem functional_insert (hf : Functional ps) (h : (graph qs).Perm ((a, b) :: graph ps)) (hn : lookup ps a = none) :
    Functional qs := by
  refine ((h.map Prod.fst).nodup_iff).2 ?_
  rw [List.map_cons, List.nodup_cons]
  refine ⟨fun hmem => ?_, hf⟩
  obtain ⟨⟨c, d⟩, hx, rfl⟩ := List.mem_map.1 hmem
  exact lookup_eq_none.1 hn d hx

theorem Functional.of_sublist (hf : Functional ps) (h : (graph qs).Sublist (graph ps)) : Functional qs :=
  List.Nodup.sublist (h.map Prod.fst) hf

theorem Injective.of_sublist (hi : Injective ps) (h : (graph qs).Sublist (graph ps)) : Injective qs :=
  List.Nodup.sublist (h.map Prod.snd) hi

def Piece.Apart (p q : Piece) : Prop := p.src + p.len ≤ q.src ∨ q.src + q.len ≤ p.src

theorem apart_of_functional (hf : Functional ps) (hlen : ∀ p ∈ ps, 0 < p.len) : ps.Pairwise Piece.Apart := by
  rw [Functional, graph, List.map_flatMap, List.nodup_flatMap] at hf
  refine hf.2.imp_of_mem (fun {p q} hp hq hd => ?_)
  by_contra hnot
  have hp := hlen p hp
  have hq := hlen q hq
  rw [Piece.Apart] at hnot
  -- the larger one of the two starts is a source of both
  have hboth : ∀ r : Piece, r.src ≤ max p.src q.src → max p.src q.src < r.src + r.len →
      max p.src q.src ∈ r.pairs.map Prod.fst := fun r h1 h2 =>
    List.mem_map.2 ⟨(_, r.dst + (max p.src q.src - r.src)), mem_pairs.2 ⟨h1, h2, rfl⟩, rfl⟩
  exact hd (hboth p (by omega) (by omega)) (hboth q (by omega) (by omega))

/-! ## Joining and cutting -/

theorem pairs_join {n : Nat} (hs : p.src + p.len = q.src) (hd : p.dst + p.len = q.dst) (hn : n = p.len + q.len) :
    (Piece.mk p.src p.dst n).pairs = p.pairs ++ q.pairs := by
  subst hn
  simp only [Piece.pairs]
  rw [List.range_add, List.map_append, List.map_map]
  congr 1
  apply List.map_congr_left
  intro i _
  simp only [Function.comp_apply, Prod.mk.injEq]
  omega

/-- The part of the piece whose sources lie below `x`. -/
def Piece.below (p : Piece) (x : Nat) : Piece := ⟨p.src, p.dst, min p.len (x - p.src)⟩

/-- The part of the piece whose sources lie from `x` on. -/
def Piece.above (p : Piece) (x : Nat) : Piece := ⟨p.src + (x - p.src), p.dst + (x - p.src), p.len - (x - p.src)⟩

theorem mem_below {x : Nat} : (a, b) ∈ (p.below x).pairs ↔ (a, b) ∈ p.pairs ∧ a < x := by
  simp only [mem_pairs, Piece.below]
  omega

theorem mem_above {x : Nat} : (a, b) ∈ (p.above x).pairs ↔ (a, b) ∈ p.pairs ∧ x ≤ a := by
  simp only [mem_pairs, Piece.above]
  omega

theorem pairs_cut (p : Piece) (x : Nat) : p.pairs = (p.below x).pairs ++ (p.above x).pairs := by
  by_cases h : x - p.src ≤ p.len
  · have hlen : (p.below x).len = x - p.src := Nat.min_eq_right h
    apply pairs_join (p := p.below x) (q := p.above x)
    · rw [hlen]
      rfl
    · rw [hlen]
      rfl
    · rw [hlen]
      exact (Nat.add_sub_cancel' h).symm
  · have hbelow : p.below x = p := by
      rw [Piece.below, Nat.min_eq_left (by omega)]
    rw [hbelow, pairs_of_len (p := p.above x) (by simp only [Piece.above]; omega), List.append_nil]

theorem below_sublist (p : Piece) (x : Nat) : (p.below x).pairs.Sublist p.pairs := by
  rw [pairs_cut p x]
  exact List.sublist_append_left _ _

theorem above_sublist (p : Piece) (x : Nat) : (p.above x).pairs.Sublist p.pairs := by
  rw [pairs_cut p x]
  exact List.sublist_append_right _ _

theorem graph_map (f : Piece → Piece) (ps : List Piece) : graph (ps.map f) = ps.flatMap (fun p => (f p).pairs) :=
  List.flatMap_map f Piece.pairs ps

theorem graph_map_sublist {f : Piece → Piece} (h : ∀ p, (f p).pairs.Sublist p.pairs) (ps : List Piece) :
    (graph (ps.map f)).Sublist (graph ps) := by
  rw [graph_map]
  exact List.Sublist.flatMap_right ps (fun p _ => h p)

theorem graph_take (n : Nat) (ps : List Piece) : graph ps = graph (ps.take n) ++ graph (ps.drop n) := by
  rw [← graph_append, List.take_append_drop]

theorem mem_graph_below {x : Nat} : (a, b) ∈ graph (ps.map (fun p => p.below x)) ↔ (a, b) ∈ graph ps ∧ a < x := by
  simp only [mem_graph, List.mem_map, exists_exists_and_eq_and, mem_below]
  constructor
  · rintro ⟨p, hp, hpair, hlt⟩
    exact ⟨⟨p, hp, hpair⟩, hlt⟩
  · rintro ⟨⟨p, hp, hpair⟩, hlt⟩
    exact ⟨p, hp, hpair, hlt⟩

theorem mem_graph_above {x : Nat} : (a, b) ∈ graph (ps.map (fun p => p.above x)) ↔ (a, b) ∈ graph ps ∧ x ≤ a := by
  simp only [mem_graph, List.mem_map, exists_exists_and_eq_and, mem_above]
  constructor
  · rintro ⟨p, hp, hpair, hle⟩
    exact ⟨⟨p, hp, hpair⟩, hle⟩
  · rintro ⟨⟨p, hp, hpair⟩, hle⟩
    exact ⟨p, hp, hpair, hle⟩

theorem above_above (p : Piece) {x y : Nat} (h : x ≤ y) : (p.above x).above y = p.above y := by
  simp only [Piece.above, Piece.mk.injEq]
  omega

theorem pairs_filter (p : Piece) {x y : Nat} (h : x ≤ y) :
    p.pairs.filter (fun a => decide ¬(x ≤ a.1 ∧ a.1 < y)) = (p.below x).pairs ++ (p.above y).pairs := by
  rw [pairs_cut p x, List.filter_append, pairs_cut (p.above x) y, above_above p h, List.filter_append]
  have hlow : (p.below x).pairs.filter (fun a => decide ¬(x ≤ a.1 ∧ a.1 < y)) = (p.below x).pairs := by
    rw [List.filter_eq_self]
    rintro ⟨a, b⟩ hab
    have := (mem_below.1 hab).2
    simp only [decide_eq_true_eq]
    omega
  have hmid : ((p.above x).below y).pairs.filter (fun a => decide ¬(x ≤ a.1 ∧ a.1 < y)) = [] := by
    rw [List.filter_eq_nil_iff]
    rintro ⟨a, b⟩ hab
    have hlt := mem_below.1 hab
    have hle := (mem_above.1 hlt.1).2
    simp only [decide_eq_true_eq]
    omega
  have hhigh : (p.above y).pairs.filter (fun a => decide ¬(x ≤ a.1 ∧ a.1 < y)) = (p.above y).pairs := by
    rw [List.filter_eq_self]
    rintro ⟨a, b⟩ hab
    have := (mem_above.1 hab).2
    simp only [decide_eq_true_eq]
    omega
  rw [hlow, hmid, hhigh, List.nil_append]

end

end Pieces
