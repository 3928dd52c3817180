import Mathlib.Tactic.Common
import Mathlib.Tactic.Ring
import Mathlib.Data.List.GetD
/-!
# Bytes — little-endian numbers in a memory of bytes

A memory is a function from addresses to bytes.  `load` reads a number of `n` bytes, the lowest first, and `store` writes
one.  A store is seen by the load at its address and by no load that does not overlap it.  `copy` and `fill` are `memcpy`
and `memset`, and `ofList` is the memory that holds a list from address 0 on.
-/

namespace Bytes

abbrev Byte := BitVec 8

abbrev Mem := Nat → Byte

/-- The number in the `n` bytes from `a` on. -/
def load (m : Mem) (a : Nat) : Nat → Nat
  | 0 => 0
  | n + 1 => (m a).toNat + 256 * load m (a + 1) n

/-- The memory after `n` bytes of `v` were written to `a`. -/
def store (m : Mem) (a n v : Nat) : Mem := fun i =>
  if a ≤ i ∧ i < a + n then BitVec.ofNat 8 (v / 256 ^ (i - a)) else m i

/-- The memory after `n` bytes of `src`, from `b` on, were written to `a`. -/
def copy (m : Mem) (a : Nat) (src : Mem) (b n : Nat) : Mem := fun i =>
  if a ≤ i ∧ i < a + n then src (b + (i - a)) else m i

def fill (m : Mem) (a n : Nat) (v : Byte) : Mem := fun i => if a ≤ i ∧ i < a + n then v else m i

variable {m m' : Mem} {a b n k v i : Nat}

theorem load_lt (m : Mem) : ∀ (n a : Nat), load m a n < 256 ^ n
  | 0, _ => Nat.one_pos
  | n + 1, a => by
    have ih := load_lt m n (a + 1)
    have hb := (m a).isLt
    rw [load, Nat.pow_succ]
    omega

theorem load_congr : ∀ {n a : Nat}, (∀ i, a ≤ i → i < a + n → m i = m' i) → load m a n = load m' a n
  | 0, _, _ => rfl
  | n + 1, a, h => by
    rw [load, load, h a (Nat.le_refl a) (by omega), load_congr (fun i h1 h2 => h i (by omega) (by omega))]

theorem eq_of_load_eq {m m' : Mem} : ∀ {n a : Nat}, load m a n = load m' a n → ∀ i, a ≤ i → i < a + n → m i = m' i
  | 0, _, _, _, _, _ => by omega
  | n + 1, a, h, i, h1, h2 => by
    rw [load, load] at h
    have hb := (m a).isLt
    have hb' := (m' a).isLt
    by_cases hi : i = a
    · subst hi
      exact BitVec.eq_of_toNat_eq (by omega)
    · exact eq_of_load_eq (n := n) (a := a + 1) (by omega) i (by omega) (by omega)

theorem store_of_lt (h : i < a) : store m a n v i = m i := if_neg (by omega)

theorem store_of_ge (h : a + n ≤ i) : store m a n v i = m i := if_neg (by omega)

theorem load_divs : ∀ {n a v : Nat}, (∀ i, i < n → m (a + i) = BitVec.ofNat 8 (v / 256 ^ i)) →
    load m a n = v % 256 ^ n
  | 0, _, v, _ => by rw [load, Nat.pow_zero, Nat.mod_one]
  | n + 1, a, v, h => by
    have h0 := h 0 (Nat.succ_pos n)
    have hrest : ∀ i, i < n → m (a + 1 + i) = BitVec.ofNat 8 (v / 256 / 256 ^ i) := by
      intro i hi
      rw [Nat.add_assoc, Nat.add_comm 1 i, h (i + 1) (by omega), Nat.pow_succ', Nat.div_div_eq_div_mul]
    rw [Nat.add_zero, Nat.pow_zero, Nat.div_one] at h0
    have hpow : 256 ^ (n + 1) = 256 * 256 ^ n := Nat.pow_succ'
    rw [load, h0, load_divs hrest, BitVec.toNat_ofNat, hpow, Nat.mod_mul]

theorem store_store (m : Mem) (a n v v' : Nat) : store (store m a n v) a n v' = store m a n v' := by
  funext i
  unfold store
  split <;> rfl

theorem load_store (m : Mem) (a n v : Nat) : load (store m a n v) a n = v % 256 ^ n := by
  refine load_divs (fun i hi => ?_)
  unfold store
  rw [if_pos (by omega), Nat.add_sub_cancel_left]

theorem load_store_of_lt (h : v < 256 ^ n) : load (store m a n v) a n = v := by
  rw [load_store, Nat.mod_eq_of_lt h]

theorem load_store_ne (h : b + k ≤ a ∨ a + n ≤ b) : load (store m a n v) b k = load m b k := by
  refine load_congr (fun i h1 h2 => ?_)
  rcases h with h | h
  · exact store_of_lt (by omega)
  · exact store_of_ge (by omega)

theorem copy_of_mem {src : Mem} (h1 : a ≤ i) (h2 : i < a + n) : copy m a src b n i = src (b + (i - a)) :=
  if_pos ⟨h1, h2⟩

theorem copy_of_not {src : Mem} (h : i < a ∨ a + n ≤ i) : copy m a src b n i = m i := if_neg (by omega)

theorem load_copy {src : Mem} (hk : i + k ≤ n) : load (copy m a src b n) (a + i) k = load src (b + i) k := by
  induction k generalizing i with
  | zero => rfl
  | succ k ih =>
    have hbyte : copy m a src b n (a + i) = src (b + i) := by
      rw [copy_of_mem (by omega) (by omega), Nat.add_sub_cancel_left]
    rw [load, load, hbyte, Nat.add_assoc, ih (by omega), Nat.add_assoc]

theorem load_copy_ne {src : Mem} {c : Nat} (h : c + k ≤ a ∨ a + n ≤ c) :
    load (copy m a src b n) c k = load m c k :=
  load_congr (fun i h1 h2 => copy_of_not (by omega))

theorem fill_of_not {x : Byte} (h : i < a ∨ a + n ≤ i) : fill m a n x i = m i := if_neg (by omega)

/-! ## Changes inside a range -/

/-- The memories agree outside `[lo, hi)`. -/
def Within (lo hi : Nat) (m m' : Mem) : Prop := ∀ i, i < lo ∨ hi ≤ i → m' i = m i

section

variable {lo hi lo' hi' : Nat} {m'' : Mem}

theorem Within.refl (lo hi : Nat) (m : Mem) : Within lo hi m m := fun _ _ => rfl

theorem Within.trans (h : Within lo hi m m') (h' : Within lo hi m' m'') : Within lo hi m m'' :=
  fun i hi => (h' i hi).trans (h i hi)

theorem Within.mono (h : Within lo hi m m') (h1 : lo' ≤ lo) (h2 : hi ≤ hi') : Within lo' hi' m m' :=
  fun i hi => h i (by omega)

theorem within_store (h1 : lo ≤ a) (h2 : a + n ≤ hi) : Within lo hi m (store m a n v) := by
  intro i hi
  rcases hi with hi | hi
  · exact store_of_lt (by omega)
  · exact store_of_ge (by omega)

theorem within_copy {src : Mem} (h1 : lo ≤ a) (h2 : a + n ≤ hi) : Within lo hi m (copy m a src b n) :=
  fun _ _ => copy_of_not (by omega)

theorem within_fill {x : Byte} (h1 : lo ≤ a) (h2 : a + n ≤ hi) : Within lo hi m (fill m a n x) :=
  fun _ _ => fill_of_not (by omega)

theorem Within.load (h : Within lo hi m m') (hb : b + k ≤ lo ∨ hi ≤ b) : load m' b k = Bytes.load m b k :=
  load_congr (fun i _ _ => h i (by omega))

end

/-! ## Lists of bytes -/

def ofList (l : List Byte) : Mem := fun i => l.getD i 0

/-- The `n` bytes of `v`. -/
def bytesOf (n v : Nat) : List Byte := (List.range n).map (fun i => BitVec.ofNat 8 (v / 256 ^ i))

@[simp] theorem length_bytesOf (n v : Nat) : (bytesOf n v).length = n := by
  unfold bytesOf
  rw [List.length_map, List.length_range]

theorem ofList_append_left {l l' : List Byte} (h : i < l.length) : ofList (l ++ l') i = ofList l i :=
  List.getD_append l l' 0 i h

theorem ofList_append_right (l l' : List Byte) (i : Nat) : ofList (l ++ l') (l.length + i) = ofList l' i := by
  unfold ofList
  rw [List.getD_append_right l l' 0 _ (by omega), Nat.add_sub_cancel_left]

theorem ofList_bytesOf (h : i < n) : ofList (bytesOf n v) i = BitVec.ofNat 8 (v / 256 ^ i) := by
  unfold ofList bytesOf
  rw [List.getD_eq_getElem _ _ (by rw [List.length_map, List.length_range]; exact h), List.getElem_map,
    List.getElem_range]

theorem load_bytesOf (l l' : List Byte) (n v : Nat) :
    load (ofList (l ++ (bytesOf n v ++ l'))) l.length n = v % 256 ^ n := by
  refine load_divs (fun i hi => ?_)
  rw [ofList_append_right, ofList_append_left (by rw [length_bytesOf]; exact hi), ofList_bytesOf hi]

theorem load_append_right (l l' : List Byte) (i : Nat) : ∀ n : Nat,
    load (ofList (l ++ l')) (l.length + i) n = load (ofList l') i n
  | 0 => rfl
  | n + 1 => by
    rw [load, load, ofList_append_right, Nat.add_assoc, load_append_right l l' (i + 1) n]

/-! ## Bytes at a place -/

/-- The bytes of the list are at `a`. -/
def At (m : Mem) (a : Nat) (l : List Byte) : Prop := ∀ i, i < l.length → m (a + i) = ofList l i

theorem at_nil : At m a [] := fun _ h => absurd h (Nat.not_lt_zero _)

theorem at_append {l l' : List Byte} : At m a (l ++ l') ↔ At m a l ∧ At m (a + l.length) l' := by
  constructor
  · intro h
    constructor
    · intro i hi
      rw [h i (by rw [List.length_append]; omega), ofList_append_left hi]
    · intro i hi
      rw [Nat.add_assoc, h _ (by rw [List.length_append]; omega), ofList_append_right]
  · rintro ⟨h, h'⟩ i hi
    rw [List.length_append] at hi
    by_cases hl : i < l.length
    · rw [h i hl, ofList_append_left hl]
    · have hr := h' (i - l.length) (by omega)
      rw [show a + l.length + (i - l.length) = a + i by omega] at hr
      rw [hr, ← ofList_append_right l, show l.length + (i - l.length) = i by omega]

theorem At.carry {l : List Byte} (h : At m a l) (he : ∀ i, i < l.length → m' (b + i) = m (a + i)) : At m' b l :=
  fun i hi => by rw [he i hi, h i hi]

theorem At.load {n v : Nat} (h : At m a (bytesOf n v)) (hv : v < 256 ^ n) : Bytes.load m a n = v := by
  rw [load_divs, Nat.mod_eq_of_lt hv]
  intro i hi
  rw [h i (by rw [length_bytesOf]; exact hi), ofList_bytesOf hi]

theorem at_bytesOf_load (m : Mem) (a n : Nat) : At m a (bytesOf n (Bytes.load m a n)) := by
  intro i hi
  rw [length_bytesOf] at hi
  have hload : Bytes.load m a n = Bytes.load (store m a n (Bytes.load m a n)) a n :=
    (load_store_of_lt (load_lt m n a)).symm
  rw [eq_of_load_eq hload (a + i) (by omega) (by omega), store, if_pos (by omega), Nat.add_sub_cancel_left,
    ofList_bytesOf hi]

theorem at_copy (m : Mem) (a : Nat) (l : List Byte) : At (copy m a (ofList l) 0 l.length) a l := by
  intro i hi
  rw [copy_of_mem (by omega) (by omega), Nat.zero_add, Nat.add_sub_cancel_left]

theorem At.copy {l : List Byte} {src : Mem} {k : Nat} (h : At m a l) (hd : a + l.length ≤ b ∨ b + n ≤ a) :
    At (Bytes.copy m b src k n) a l :=
  h.carry (fun i hi => copy_of_not (by omega))

/-- The bytes from `a` on. -/
def slice (m : Mem) (a n : Nat) : List Byte := (List.range n).map (fun i => m (a + i))

@[simp] theorem length_slice (m : Mem) (a n : Nat) : (slice m a n).length = n := by
  rw [slice, List.length_map, List.length_range]

theorem at_slice (m : Mem) (a n : Nat) : At m a (slice m a n) := by
  intro i hi
  rw [length_slice] at hi
  rw [ofList, slice, List.getD_eq_getElem _ _ (by rw [List.length_map, List.length_range]; exact hi), List.getElem_map,
    List.getElem_range]

theorem At.slice {l : List Byte} (h : At m a l) : Bytes.slice m a l.length = l := by
  apply List.ext_getElem (length_slice m a _)
  intro i h1 h2
  simp only [Bytes.slice, List.getElem_map, List.getElem_range]
  rw [h i h2, ofList, List.getD_eq_getElem _ _ h2]

theorem slice_succ (m : Mem) (a n : Nat) : slice m a (n + 1) = slice m a n ++ [m (a + n)] := by
  rw [slice, List.range_succ, List.map_append]
  rfl

theorem slice_cons (m : Mem) (a n : Nat) : slice m a (n + 1) = m a :: slice m (a + 1) n := by
  apply List.ext_getElem (by simp)
  intro i h1 h2
  cases i with
  | zero => simp [slice]
  | succ i => simp [slice, Nat.add_assoc, Nat.add_comm 1]

theorem slice_append (m : Mem) (a : Nat) : ∀ n k : Nat, slice m a n ++ slice m (a + n) k = slice m a (n + k)
  | _, 0 => List.append_nil _
  | n, k + 1 => by
    rw [slice_succ, ← List.append_assoc, slice_append m a n k, ← Nat.add_assoc n, slice_succ, Nat.add_assoc]

theorem slice_congr (h : ∀ i, i < n → m (a + i) = m' (b + i)) : slice m a n = slice m' b n :=
  List.map_congr_left (fun i hi => h i (List.mem_range.1 hi))

/-- The list with `n` bytes of `v` written to `a`. -/
def patch (l : List Byte) (a n v : Nat) : List Byte := (List.range l.length).map (store (ofList l) a n v)

@[simp] theorem length_patch (l : List Byte) (a n v : Nat) : (patch l a n v).length = l.length := by
  unfold patch
  rw [List.length_map, List.length_range]

theorem ofList_patch {l : List Byte} (h : a + n ≤ l.length) (v : Nat) :
    ofList (patch l a n v) = store (ofList l) a n v := by
  funext i
  by_cases hi : i < l.length
  · unfold ofList patch
    rw [List.getD_eq_getElem _ _ (by rw [List.length_map, List.length_range]; exact hi), List.getElem_map,
      List.getElem_range]
    rfl
  · rw [store_of_ge (by omega)]
    unfold ofList
    rw [List.getD_eq_default _ _ (by rw [length_patch]; omega), List.getD_eq_default _ _ (by omega)]

/-! ## Many stores -/

section

variable {α : Type} {pos : α → Nat} {f : α → Nat → Nat}

def update (pos : α → Nat) (n : Nat) (f : α → Nat → Nat) (m : Mem) (x : α) : Mem :=
  store m (pos x) n (f x (load m (pos x) n))

/-- The fields of `x` and `y` do not overlap. -/
def Apart (pos : α → Nat) (n : Nat) (x y : α) : Prop := pos x + n ≤ pos y ∨ pos y + n ≤ pos x

theorem load_foldl_update_ne : ∀ {l : List α} {m : Mem}, (∀ x ∈ l, b + k ≤ pos x ∨ pos x + n ≤ b) →
    load (l.foldl (update pos n f) m) b k = load m b k
  | [], _, _ => rfl
  | x :: l, m, h => by
    rw [List.foldl_cons, load_foldl_update_ne (fun y hy => h y (List.mem_cons_of_mem x hy))]
    exact load_store_ne (h x List.mem_cons_self)

theorem load_foldl_update : ∀ {l : List α} {m : Mem}, l.Pairwise (Apart pos n) → ∀ x ∈ l,
    load (l.foldl (update pos n f) m) (pos x) n = f x (load m (pos x) n) % 256 ^ n
  | y :: l, m, h, x, hx => by
    obtain ⟨hy, hl⟩ := List.pairwise_cons.1 h
    rw [List.foldl_cons]
    rcases List.mem_cons.1 hx with rfl | hx
    · rw [load_foldl_update_ne (fun z hz => hy z hz), update, load_store]
    · rw [load_foldl_update hl x hx, update, load_store_ne (Or.symm (hy x hx))]

end

end Bytes
