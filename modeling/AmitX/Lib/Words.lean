import Mathlib.Tactic.Common
import Mathlib.Data.List.TakeWhile
/-!
# Words — the words of a list between separators

`words` splits a list at a separator and drops what is empty.  A scanner with a buffer of `k` elements reads a word that is
longer piece by piece; `scan` is what it reads.
-/
namespace Words

variable {α : Type} [DecidableEq α]

def words (sep : α) (l : List α) : List (List α) := (l.splitOn sep).filter (fun w => decide (w ≠ []))

/-- The next word behind the separators, up to `k` elements of it. -/
def front (sep : α) (k : Nat) (l : List α) : List α := ((l.dropWhile (· == sep)).takeWhile (· != sep)).take k

/-- What is left behind `front`. -/
def rear (sep : α) (k : Nat) (l : List α) : List α := (l.dropWhile (· == sep)).drop (front sep k l).length

/-- The pieces that a scanner with a buffer of `k` elements reads, in at most `n` turns. -/
def scanWithin (sep : α) (k : Nat) : Nat → List α → List (List α)
  | 0, _ => []
  | n + 1, l => if l.dropWhile (· == sep) = [] then [] else front sep k l :: scanWithin sep k n (rear sep k l)

def scan (sep : α) (k : Nat) (l : List α) : List (List α) := scanWithin sep k (l.length + 1) l

variable {sep : α} {k : Nat} {l q r w : List α}

/-! ## Words -/

theorem words_nil : words sep [] = [] := by
  simp [words]

theorem words_append_sep (q r : List α) : words sep (q ++ sep :: r) = words sep q ++ words sep r := by
  rw [words, words, words, List.splitOn_eq_splitOnP, List.splitOn_eq_splitOnP, List.splitOn_eq_splitOnP,
    List.splitOnP_append_cons _ _ (by simp), List.filter_append]

theorem words_sep_cons (r : List α) : words sep (sep :: r) = words sep r := by
  have h := @words_append_sep _ _ sep [] r
  rwa [List.nil_append, words_nil, List.nil_append] at h

theorem words_of_not_mem (hw : sep ∉ w) (hne : w ≠ []) : words sep w = [w] := by
  have hsplit : w.splitOn sep = [w] := by
    rw [List.splitOn_eq_splitOnP]
    refine List.splitOnP_eq_singleton (fun x hx => ?_)
    rw [beq_eq_false_iff_ne]
    rintro rfl
    exact hw hx
  rw [words, hsplit, List.filter_cons_of_pos (by simpa using hne), List.filter_nil]

omit [DecidableEq α] in
theorem exists_last_sep (h : sep ∈ l) : ∃ q r, l = q ++ sep :: r ∧ sep ∉ r := by
  obtain ⟨a, b, hab, ha⟩ := List.eq_append_cons_of_mem (List.mem_reverse.2 h)
  refine ⟨b.reverse, a.reverse, ?_, fun hm => ha (List.mem_reverse.1 hm)⟩
  rw [← List.reverse_reverse l, hab, List.reverse_append, List.reverse_cons, List.append_assoc, List.singleton_append]

/-! ## Scanning -/

theorem word_cases (sep : α) (l : List α) : l = [] ∨ (∃ r, l = sep :: r) ∨
    ∃ w r, w ≠ [] ∧ sep ∉ w ∧ l = w ++ r ∧ (r = [] ∨ ∃ r', r = sep :: r') := by
  cases l with
  | nil => exact Or.inl rfl
  | cons a l =>
    refine Or.inr ?_
    by_cases ha : a = sep
    · exact Or.inl ⟨l, by rw [ha]⟩
    · refine Or.inr ⟨(a :: l).takeWhile (· != sep), (a :: l).dropWhile (· != sep), ?_, fun hm => ?_,
        List.takeWhile_append_dropWhile.symm, ?_⟩
      · rw [List.takeWhile_cons_of_pos (by simpa using ha)]
        exact List.cons_ne_nil _ _
      · have h := List.mem_takeWhile_imp hm
        simp at h
      · cases hd : (a :: l).dropWhile (· != sep) with
        | nil => exact Or.inl rfl
        | cons b r =>
          have h := List.head?_dropWhile_not (· != sep) (a :: l)
          rw [hd] at h
          exact Or.inr ⟨r, by simpa using h⟩

theorem dropWhile_word (hne : w ≠ []) (hw : sep ∉ w) (r : List α) : (w ++ r).dropWhile (· == sep) = w ++ r := by
  cases w with
  | nil => exact absurd rfl hne
  | cons a w =>
    have ha : a ≠ sep := fun h => hw (h ▸ List.mem_cons_self)
    rw [List.cons_append, List.dropWhile_cons_of_neg (by simpa using ha)]

theorem front_word (hne : w ≠ []) (hw : sep ∉ w) (hr : r = [] ∨ ∃ r', r = sep :: r') :
    front sep k (w ++ r) = w.take k := by
  have htake : (w ++ r).takeWhile (· != sep) = w := by
    rw [List.takeWhile_append_of_pos (fun a ha => by
      rw [bne_iff_ne]
      rintro rfl
      exact hw ha)]
    rcases hr with rfl | ⟨r', rfl⟩
    · rw [List.takeWhile_nil, List.append_nil]
    · rw [List.takeWhile_cons_of_neg (by simp), List.append_nil]
  rw [front, dropWhile_word hne hw, htake]

theorem rear_word (hne : w ≠ []) (hw : sep ∉ w) (hr : r = [] ∨ ∃ r', r = sep :: r') :
    rear sep k (w ++ r) = w.drop k ++ r := by
  rw [rear, front_word hne hw hr, dropWhile_word hne hw, List.length_take]
  rcases Nat.le_total k w.length with h | h
  · rw [Nat.min_eq_left h, List.drop_append_of_le_length h]
  · rw [Nat.min_eq_right h, List.drop_of_length_le h, List.drop_left, List.nil_append]

theorem length_rear_lt (hk : 0 < k) (h : l.dropWhile (· == sep) ≠ []) : (rear sep k l).length < l.length := by
  have hfront : 0 < (front sep k l).length := by
    cases hd : l.dropWhile (· == sep) with
    | nil => exact absurd hd h
    | cons a r =>
      have ha := List.head?_dropWhile_not (· == sep) l
      rw [hd] at ha
      have ha : a ≠ sep := by simpa using ha
      rw [front, hd, List.takeWhile_cons_of_pos (by simpa using ha), List.length_take, List.length_cons]
      omega
  have hle := (List.dropWhile_sublist (· == sep) (l := l)).length_le
  have hpos := List.length_pos_iff.2 h
  rw [rear, List.length_drop]
  omega

theorem scanWithin_sep (n : Nat) (r : List α) : scanWithin sep k n (sep :: r) = scanWithin sep k n r := by
  have hdrop : (sep :: r).dropWhile (· == sep) = r.dropWhile (· == sep) := List.dropWhile_cons_of_pos (by simp)
  cases n with
  | zero => rfl
  | succ n => rw [scanWithin, scanWithin, front, front, rear, rear, front, front, hdrop]

theorem scanWithin_word (n : Nat) (hne : w ≠ []) (hw : sep ∉ w) (hr : r = [] ∨ ∃ r', r = sep :: r') :
    scanWithin sep k (n + 1) (w ++ r) = w.take k :: scanWithin sep k n (w.drop k ++ r) := by
  rw [scanWithin, dropWhile_word hne hw, if_neg (by simp [hne]), front_word hne hw hr, rear_word hne hw hr]

theorem scanWithin_nil (n : Nat) : scanWithin sep k n [] = [] := by
  cases n <;> rfl

theorem scanWithin_congr (hk : 0 < k) : ∀ (m : Nat) {n n' : Nat} {l : List α}, l.length ≤ m → l.length < n →
    l.length < n' → scanWithin sep k n l = scanWithin sep k n' l := by
  intro m
  induction m with
  | zero =>
    intro n n' l hl _ _
    rw [List.length_eq_zero_iff.1 (Nat.le_zero.1 hl), scanWithin_nil, scanWithin_nil]
  | succ m ih =>
    intro n n' l hl hn hn'
    rcases word_cases sep l with rfl | ⟨r, rfl⟩ | ⟨w, r, hne, hw, rfl, hr⟩
    · rw [scanWithin_nil, scanWithin_nil]
    · rw [List.length_cons] at hl hn hn'
      rw [scanWithin_sep, scanWithin_sep]
      exact ih (by omega) (by omega) (by omega)
    · have hpos := List.length_pos_iff.2 hne
      have hlen : (w.drop k ++ r).length < (w ++ r).length := by
        rw [List.length_append, List.length_append, List.length_drop]
        omega
      obtain ⟨i, rfl⟩ := Nat.exists_eq_succ_of_ne_zero (show n ≠ 0 by omega)
      obtain ⟨j, rfl⟩ := Nat.exists_eq_succ_of_ne_zero (show n' ≠ 0 by omega)
      have hrest := @ih i j (w.drop k ++ r) (by omega) (by omega) (by omega)
      rw [Nat.succ_eq_add_one, Nat.succ_eq_add_one, scanWithin_word i hne hw hr, scanWithin_word j hne hw hr, hrest]

theorem scan_nil : scan sep k [] = [] := scanWithin_nil _

theorem scan_sep_cons (hk : 0 < k) (r : List α) : scan sep k (sep :: r) = scan sep k r := by
  rw [scan, scanWithin_sep]
  exact scanWithin_congr hk _ (Nat.le_refl _) (by rw [List.length_cons]; omega) (Nat.lt_succ_self _)

theorem scan_word (hk : 0 < k) (hne : w ≠ []) (hw : sep ∉ w) (hr : r = [] ∨ ∃ r', r = sep :: r') :
    scan sep k (w ++ r) = w.take k :: scan sep k (w.drop k ++ r) := by
  have hpos := List.length_pos_iff.2 hne
  rw [scan, scanWithin_word _ hne hw hr, scan]
  congr 1
  refine scanWithin_congr hk _ (Nat.le_refl _) ?_ (Nat.lt_succ_self _)
  rw [List.length_append, List.length_append, List.length_drop]
  omega

theorem scan_short (hk : 0 < k) (hne : w ≠ []) (hw : sep ∉ w) (hlen : w.length ≤ k)
    (hr : r = [] ∨ ∃ r', r = sep :: r') : scan sep k (w ++ r) = w :: scan sep k r := by
  rw [scan_word hk hne hw hr, List.take_of_length_le hlen, List.drop_of_length_le hlen, List.nil_append]

theorem scan_append_sep (hk : 0 < k) (r : List α) : ∀ (m : Nat) {q : List α}, q.length ≤ m →
    scan sep k (q ++ sep :: r) = scan sep k q ++ scan sep k r := by
  intro m
  induction m with
  | zero =>
    intro q hq
    rw [List.length_eq_zero_iff.1 (Nat.le_zero.1 hq), List.nil_append, scan_sep_cons hk, scan_nil, List.nil_append]
  | succ m ih =>
    intro q hq
    rcases word_cases sep q with rfl | ⟨q', rfl⟩ | ⟨w, q', hne, hw, rfl, hr⟩
    · rw [List.nil_append, scan_sep_cons hk, scan_nil, List.nil_append]
    · rw [List.cons_append, scan_sep_cons hk, scan_sep_cons hk]
      exact ih (by rw [List.length_cons] at hq; omega)
    · have hpos := List.length_pos_iff.2 hne
      have hr' : q' ++ sep :: r = [] ∨ ∃ s, q' ++ sep :: r = sep :: s := by
        rcases hr with rfl | ⟨s, rfl⟩
        · exact Or.inr ⟨r, rfl⟩
        · exact Or.inr ⟨s ++ sep :: r, rfl⟩
      rw [List.append_assoc, scan_word hk hne hw hr', scan_word hk hne hw hr, ← List.append_assoc, ih, List.cons_append]
      rw [List.length_append] at hq
      rw [List.length_append, List.length_drop]
      omega

theorem scan_eq_words (hk : 0 < k) : ∀ (m : Nat) {l : List α}, l.length ≤ m → (∀ w ∈ words sep l, w.length ≤ k) →
    scan sep k l = words sep l := by
  intro m
  induction m with
  | zero =>
    intro l hl _
    rw [List.length_eq_zero_iff.1 (Nat.le_zero.1 hl), scan_nil, words_nil]
  | succ m ih =>
    intro l hl hfit
    rcases word_cases sep l with rfl | ⟨r, rfl⟩ | ⟨w, r, hne, hw, rfl, hr⟩
    · rw [scan_nil, words_nil]
    · rw [words_sep_cons] at hfit ⊢
      rw [scan_sep_cons hk]
      exact ih (by rw [List.length_cons] at hl; omega) hfit
    · have hpos := List.length_pos_iff.2 hne
      have hwords : words sep (w ++ r) = w :: words sep r := by
        rcases hr with rfl | ⟨r', rfl⟩
        · rw [List.append_nil, words_of_not_mem hw hne, words_nil]
        · rw [words_append_sep, words_of_not_mem hw hne, words_sep_cons, List.singleton_append]
      rw [hwords] at hfit ⊢
      rw [List.length_append] at hl
      rw [scan_short hk hne hw (hfit w List.mem_cons_self) hr, ih (by omega) (fun x hx =>
        hfit x (List.mem_cons_of_mem _ hx))]

end Words
