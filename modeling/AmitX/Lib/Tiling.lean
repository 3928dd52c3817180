import Mathlib.Tactic.Common
import Mathlib.Data.List.Chain
/-!
# Tiling — linked blocks that lie one behind another

`next b` is the link of block `b` and `len b` its length.  `Tiles` says that the blocks of a list lie from one address to
another without a gap, each linked to the one behind it.  A block may be split, two blocks may be joined, and a block may
be put behind the last one.
-/

namespace Tiling

/-- The blocks of the list lie from `p` to `q`, the first link is `k` and the last one `k'`. -/
def Tiles (next len : Nat → Nat) : Nat → Nat → List Nat → Nat → Nat → Prop
  | k, p, [], k', q => k = k' ∧ p = q
  | k, p, b :: l, k', q => k = b ∧ p = b ∧ Tiles next len (next b) (b + len b) l k' q

variable {next len next' len' : Nat → Nat} {k p k' q b c x y : Nat} {l xs ys : List Nat}

theorem tiles_append : ∀ {xs : List Nat} {k p : Nat}, Tiles next len k p (xs ++ ys) k' q ↔
    ∃ j r, Tiles next len k p xs j r ∧ Tiles next len j r ys k' q
  | [], k, p => by
    constructor
    · intro h
      exact ⟨k, p, ⟨rfl, rfl⟩, h⟩
    · rintro ⟨j, r, ⟨rfl, rfl⟩, h⟩
      exact h
  | b :: xs, k, p => by
    rw [List.cons_append, Tiles, tiles_append]
    constructor
    · rintro ⟨hk, hp, j, r, hx, hy⟩
      exact ⟨j, r, ⟨hk, hp, hx⟩, hy⟩
    · rintro ⟨j, r, ⟨hk, hp, hx⟩, hy⟩
      exact ⟨hk, hp, j, r, hx, hy⟩

theorem tiles_mid : Tiles next len k p (xs ++ b :: ys) k' q ↔
    Tiles next len k p xs b b ∧ Tiles next len (next b) (b + len b) ys k' q := by
  rw [tiles_append]
  constructor
  · rintro ⟨j, r, hx, rfl, rfl, hy⟩
    exact ⟨hx, hy⟩
  · rintro ⟨hx, hy⟩
    exact ⟨b, b, hx, rfl, rfl, hy⟩

theorem tiles_last : Tiles next len k p (xs ++ [b]) k' q ↔
    Tiles next len k p xs b b ∧ next b = k' ∧ b + len b = q := tiles_mid

theorem Tiles.congr : ∀ {l : List Nat} {k p : Nat}, Tiles next len k p l k' q →
    (∀ b ∈ l, next' b = next b ∧ len' b = len b) → Tiles next' len' k p l k' q
  | [], _, _, h, _ => h
  | b :: l, k, p, ⟨hk, hp, hl⟩, h => by
    obtain ⟨hn, hlen⟩ := h b List.mem_cons_self
    refine ⟨hk, hp, ?_⟩
    rw [hn, hlen]
    exact hl.congr (fun c hc => h c (List.mem_cons_of_mem b hc))

theorem Tiles.le : ∀ {l : List Nat} {k p : Nat}, Tiles next len k p l k' q → p ≤ q
  | [], _, _, ⟨_, h⟩ => Nat.le_of_eq h
  | b :: l, k, p, ⟨_, hp, hl⟩ => by
    have := hl.le
    omega

theorem Tiles.bounds : ∀ {l : List Nat} {k p : Nat}, Tiles next len k p l k' q → b ∈ l → p ≤ b ∧ b + len b ≤ q
  | c :: l, k, p, ⟨_, hp, hl⟩, hb => by
    rcases List.mem_cons.1 hb with rfl | hb
    · exact ⟨Nat.le_of_eq hp, hl.le⟩
    · have := hl.bounds hb
      omega

theorem Tiles.dvd {n : Nat} : ∀ {l : List Nat} {k p : Nat}, Tiles next len k p l k' q → n ∣ p → (∀ b ∈ l, n ∣ len b) →
    n ∣ q ∧ ∀ b ∈ l, n ∣ b
  | [], _, _, ⟨_, h⟩, hp, _ => ⟨h ▸ hp, fun b hb => by cases hb⟩
  | c :: l, k, p, ⟨_, hc, hl⟩, hp, hlen => by
    subst hc
    obtain ⟨hq, hrest⟩ := hl.dvd (Nat.dvd_add hp (hlen p List.mem_cons_self))
      (fun b hb => hlen b (List.mem_cons_of_mem p hb))
    refine ⟨hq, fun b hb => ?_⟩
    rcases List.mem_cons.1 hb with rfl | hb'
    · exact hp
    · exact hrest b hb'

theorem Tiles.apart : ∀ {l : List Nat} {k p : Nat}, Tiles next len k p l k' q → x ∈ l → y ∈ l → x ≠ y →
    x + len x ≤ y ∨ y + len y ≤ x
  | c :: l, k, p, ⟨_, hp, hl⟩, hx, hy, hne => by
    rcases List.mem_cons.1 hx with rfl | hx'
    · rcases List.mem_cons.1 hy with rfl | hy'
      · exact absurd rfl hne
      · exact Or.inl (hl.bounds hy').1
    · rcases List.mem_cons.1 hy with rfl | hy'
      · exact Or.inr (hl.bounds hx').1
      · exact hl.apart hx' hy' hne

theorem Tiles.next_cases (h : Tiles next len k p l k' q) (hb : b ∈ l) :
    (∃ xs, l = xs ++ [b] ∧ next b = k' ∧ b + len b = q) ∨
      ∃ xs c ys, l = xs ++ b :: c :: ys ∧ next b = c ∧ b + len b = c := by
  obtain ⟨xs, ys, rfl⟩ := List.append_of_mem hb
  obtain ⟨-, hy⟩ := tiles_mid.1 h
  cases ys with
  | nil => exact Or.inl ⟨xs, rfl, hy⟩
  | cons c ys => exact Or.inr ⟨xs, c, ys, rfl, hy.1, hy.2.1⟩

theorem Tiles.before (h : Tiles next len k p (xs ++ b :: ys) k' q) (hx : x ∈ xs) : x + len x ≤ b :=
  ((tiles_mid.1 h).1.bounds hx).2

theorem Tiles.behind (h : Tiles next len k p (xs ++ b :: ys) k' q) (hy : y ∈ ys) : b + len b ≤ y :=
  ((tiles_mid.1 h).2.bounds hy).1

theorem Tiles.split (h : Tiles next len k p (xs ++ b :: ys) k' q)
    (hx : ∀ x ∈ xs, next' x = next x ∧ len' x = len x) (hy : ∀ y ∈ ys, next' y = next y ∧ len' y = len y)
    (hb : next' b = c) (hc : b + len' b = c) (hn : next' c = next b) (hl : c + len' c = b + len b) :
    Tiles next' len' k p (xs ++ b :: c :: ys) k' q := by
  obtain ⟨h1, h2⟩ := tiles_mid.1 h
  refine tiles_mid.2 ⟨h1.congr hx, hb, hc, ?_⟩
  rw [hn, hl]
  exact h2.congr hy

theorem Tiles.join (h : Tiles next len k p (xs ++ b :: c :: ys) k' q)
    (hx : ∀ x ∈ xs, next' x = next x ∧ len' x = len x) (hy : ∀ y ∈ ys, next' y = next y ∧ len' y = len y)
    (hn : next' b = next c) (hl : len' b = len b + len c) : Tiles next' len' k p (xs ++ b :: ys) k' q := by
  obtain ⟨h1, hc, hp, h2⟩ := tiles_mid.1 h
  refine tiles_mid.2 ⟨h1.congr hx, ?_⟩
  have hend : b + len' b = c + len c := by omega
  rw [hn, hend]
  exact h2.congr hy

theorem Tiles.snoc (h : Tiles next len k p (xs ++ [b]) k' q)
    (hx : ∀ x ∈ xs, next' x = next x ∧ len' x = len x) (hb : next' b = q) (hl : len' b = len b) :
    Tiles next' len' k p (xs ++ [b, q]) (next' q) (q + len' q) := by
  obtain ⟨h1, -, hq⟩ := tiles_last.1 h
  exact tiles_mid.2 ⟨h1.congr hx, hb, by omega, rfl, rfl⟩

/-! ## Two neighbours -/

def NoTwo (f : Nat → Prop) (l : List Nat) : Prop := l.IsChain (fun b c => ¬(f b ∧ f c))

variable {f g : Nat → Prop}

theorem NoTwo.congr : ∀ {l : List Nat}, NoTwo f l → (∀ b ∈ l, g b → f b) → NoTwo g l
  | [], _, _ => List.IsChain.nil
  | [_], _, _ => List.IsChain.singleton _
  | b :: c :: l, h, hg => by
    obtain ⟨hbc, hl⟩ := List.isChain_cons_cons.1 h
    refine List.isChain_cons_cons.2 ⟨fun h => hbc ⟨hg b (by simp) h.1, hg c (by simp) h.2⟩, ?_⟩
    exact NoTwo.congr hl (fun d hd => hg d (List.mem_cons_of_mem b hd))

theorem noTwo_mid : NoTwo f (xs ++ b :: ys) ↔ NoTwo f (xs ++ [b]) ∧ NoTwo f (b :: ys) := List.isChain_split

theorem noTwo_cons : NoTwo f (b :: c :: ys) ↔ ¬(f b ∧ f c) ∧ NoTwo f (c :: ys) := List.isChain_cons_cons

theorem NoTwo.tail (h : NoTwo f (b :: ys)) : NoTwo f ys := List.IsChain.tail h

theorem NoTwo.left (h : NoTwo f (xs ++ ys)) : NoTwo f xs := List.IsChain.left_of_append h

theorem NoTwo.right (h : NoTwo f (xs ++ ys)) : NoTwo f ys := List.IsChain.right_of_append h

theorem noTwo_of_not (hb : ¬f b) (hx : NoTwo f xs) (hy : NoTwo f ys) : NoTwo f (xs ++ b :: ys) := by
  refine noTwo_mid.2 ⟨?_, ?_⟩
  · refine List.isChain_append.2 ⟨hx, List.IsChain.singleton _, fun x _ y hy' h => ?_⟩
    cases hy'
    exact hb h.2
  · cases ys with
    | nil => exact List.IsChain.singleton _
    | cons c ys => exact noTwo_cons.2 ⟨fun h => hb h.1, hy⟩

theorem noTwo_head (h : NoTwo f (b :: ys)) (hb : f b) (hg : ∀ y ∈ ys, g y → f y) (c : Nat) : NoTwo g (c :: ys) := by
  cases ys with
  | nil => exact List.IsChain.singleton _
  | cons d ys =>
    obtain ⟨hbd, hd⟩ := noTwo_cons.1 h
    exact noTwo_cons.2 ⟨fun h' => hbd ⟨hb, hg d List.mem_cons_self h'.2⟩, NoTwo.congr hd hg⟩

end Tiling
