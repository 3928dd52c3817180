import AmitX.SmkFs.AttrBuf
/-!
# AttrSpec — an attribute buffer as the list of its attributes

`Ended b l` says that the attributes of `l` lie in `b` one behind the other and that an `END` follows them inside the
buffer; `Holds b l` says moreover that the `END` has no payload.  A walk over such a buffer is a walk over the list
(`walk_ended`), and every function of `attr.c` is stated on the list.
-/
namespace AmitX
namespace SmkFs
namespace AttrBuf

open Bytes

/-- An attribute: no `END`, and its numbers fit in the fields of a header. -/
structure Tlv where
  type : Nat
  flags : Nat
  id : Nat
  data : List Byte
  type_ne : type ≠ attrtEnd
  type_lt : type < 2 ^ 16
  flags_lt : flags < 2 ^ 16
  id_lt : id < 2 ^ 32
  length_lt : data.length < 2 ^ 32
  deriving DecidableEq

def Tlv.encode (a : Tlv) : List Byte := attrHeader a.type a.flags a.id a.data.length ++ a.data

def encode (l : List Tlv) : List Byte := l.flatMap Tlv.encode

/-- The attributes lie in the buffer, and an `END` is behind them. -/
structure Ended (b : Buf) (l : List Tlv) : Prop where
  bytes : At b.mem 0 (encode l)
  type : load b.mem (encode l).length 2 = attrtEnd
  inside : (encode l).length + attrHeaderSize ≤ b.size

/-- The buffer is well formed, and these are its attributes. -/
structure Holds (b : Buf) (l : List Tlv) : Prop extends Ended b l where
  length : load b.mem ((encode l).length + 8) 4 = 0

/-- The last element that `p` accepts is dropped. -/
def eraseLast {α : Type} (p : α → Bool) (l : List α) : List α := (l.reverse.eraseP p).reverse

/-! ## Bytes of attributes -/

section
variable {b : Buf} {a : Tlv} {l l' : List Tlv} {p n : Nat}

@[simp] theorem length_attrHeader (type flags id length : Nat) :
    (attrHeader type flags id length).length = attrHeaderSize := by
  simp [attrHeader, attrHeaderSize]

@[simp] theorem Tlv.length_encode (a : Tlv) : a.encode.length = attrHeaderSize + a.data.length := by
  simp [Tlv.encode]

@[simp] theorem encode_nil : encode [] = [] := rfl

@[simp] theorem encode_cons : encode (a :: l) = a.encode ++ encode l := rfl

@[simp] theorem encode_append : encode (l ++ l') = encode l ++ encode l' := List.flatMap_append

theorem length_le_encode : ∀ l : List Tlv, attrHeaderSize * l.length ≤ (encode l).length
  | [] => Nat.le_refl 0
  | a :: l => by
    have ih := length_le_encode l
    rw [encode_cons, List.length_append, Tlv.length_encode, List.length_cons]
    unfold attrHeaderSize at *
    omega

theorem at_attrHeader {type flags id length : Nat} {m : Bytes.Mem} (h : At m p (attrHeader type flags id length)) :
    At m p (bytesOf 2 type) ∧ At m (p + 2) (bytesOf 2 flags) ∧ At m (p + 4) (bytesOf 4 id) ∧
      At m (p + 8) (bytesOf 4 length) := by
  rw [attrHeader, at_append, at_append, at_append] at h
  simpa only [length_bytesOf, Nat.add_assoc] using h

/-- An attribute lies in the buffer at `p`. -/
structure Lies (b : Buf) (p : Nat) (a : Tlv) : Prop where
  bytes : At b.mem p a.encode
  inside : p + (attrHeaderSize + a.data.length) ≤ b.size

theorem field_of_load (h : p + n ≤ b.size) : b.field p n = some (load b.mem p n) := if_pos h

section
variable (h : Lies b p a)
include h

theorem Lies.header : At b.mem p (attrHeader a.type a.flags a.id a.data.length) := (at_append.1 h.bytes).1

theorem Lies.type : b.field p 2 = some a.type := by
  have hi := h.inside
  unfold attrHeaderSize at hi
  rw [field_of_load (by omega), (at_attrHeader h.header).1.load a.type_lt]

theorem Lies.id : b.field (p + 4) 4 = some a.id := by
  have hi := h.inside
  unfold attrHeaderSize at hi
  rw [field_of_load (by omega), (at_attrHeader h.header).2.2.1.load a.id_lt]

theorem Lies.length : b.field (p + 8) 4 = some a.data.length := by
  have hi := h.inside
  unfold attrHeaderSize at hi
  rw [field_of_load (by omega), (at_attrHeader h.header).2.2.2.load a.length_lt]

theorem Lies.data : At b.mem (p + attrHeaderSize) a.data := by
  have hd := (at_append.1 h.bytes).2
  rwa [length_attrHeader] at hd

theorem Lies.payload : b.payload (p + attrHeaderSize) a.data.length = some a.data := by
  have hi := h.inside
  rw [Buf.payload, if_pos (by omega), h.data.slice]

end
end

/-! ## A walk over the list -/

section
variable {σ ρ : Type} {b : Buf} {visit : Nat → σ → Option (ρ ⊕ σ)} {v : Nat → Tlv → σ → ρ ⊕ σ}

/-- The walk over the attributes of a list whose first one is at `p`. -/
def walkList (v : Nat → Tlv → σ → ρ ⊕ σ) : Nat → List Tlv → σ → Walked σ ρ
  | p, [], s => .ended p s
  | p, a :: l, s => match v p a s with
    | .inl r => .answer r
    | .inr s => walkList v (p + (attrHeaderSize + a.data.length)) l s

/-- `v` is what `visit` does at an attribute. -/
def Visits (b : Buf) (visit : Nat → σ → Option (ρ ⊕ σ)) (v : Nat → Tlv → σ → ρ ⊕ σ) : Prop :=
  ∀ p a s, Lies b p a → visit p s = some (v p a s)

theorem walk_encode (hv : Visits b visit v) : ∀ (l : List Tlv) (n p : Nat) (s : σ), At b.mem p (encode l) →
    load b.mem (p + (encode l).length) 2 = attrtEnd → p + (encode l).length + attrHeaderSize ≤ b.size →
    l.length < n → walk b visit n p s = some (walkList v p l s)
  | [], n + 1, p, s, _, hend, hin, _ => by
    rw [encode_nil, List.length_nil, Nat.add_zero] at hend hin
    have hin' : p + 2 ≤ b.size := by unfold attrHeaderSize at hin; omega
    rw [walk, field_of_load hin', hend]
    rfl
  | a :: l, n + 1, p, s, hat, hend, hin, hn => by
    rw [encode_cons, at_append, Tlv.length_encode] at hat
    rw [encode_cons, List.length_append, Tlv.length_encode, ← Nat.add_assoc] at hend hin
    have hlies : Lies b p a := ⟨hat.1, by omega⟩
    have ih := fun s => walk_encode hv l n _ s hat.2 hend hin (by simpa using hn)
    rw [walk, hlies.type, Option.bind_eq_bind, Option.bind_some, if_neg a.type_ne, hv p a s hlies, Option.bind_eq_bind,
      Option.bind_some, walkList]
    cases hva : v p a s with
    | inl r => rfl
    | inr s' =>
      simp only [hlies.length, Option.bind_some]
      exact ih s'

theorem Ended.walkFrom {l : List Tlv} (h : Ended b l) (hv : Visits b visit v) (s : σ) :
    b.walkFrom visit s = some (walkList v 0 l s) := by
  have hl := length_le_encode l
  have hin := h.inside
  unfold attrHeaderSize at hl hin
  apply walk_encode hv l _ _ _ h.bytes (by rw [Nat.zero_add]; exact h.type)
  · rw [Nat.zero_add]
    exact h.inside
  · omega

theorem walkList_append (l l' : List Tlv) (p : Nat) (s : σ) : walkList v p (l ++ l') s =
    match walkList v p l s with
    | .answer r => .answer r
    | .ended q s => walkList v q l' s := by
  induction l generalizing p s with
  | nil => rfl
  | cons a l ih =>
    rw [List.cons_append, walkList, walkList]
    cases v p a s with
    | inl r => rfl
    | inr s => exact ih _ s

theorem walkList_skip {s : σ} : ∀ {l : List Tlv} {p : Nat}, (∀ q, ∀ a ∈ l, v q a s = .inr s) →
    walkList v p l s = .ended (p + (encode l).length) s
  | [], _, _ => rfl
  | a :: l, p, h => by
    rw [walkList, h p a List.mem_cons_self]
    simp only
    rw [walkList_skip (fun q x hx => h q x (List.mem_cons_of_mem a hx)), encode_cons, List.length_append,
      Tlv.length_encode, Nat.add_assoc]

end

/-! ## Finding and visiting -/

section
variable {b : Buf} {l l₁ l₂ : List Tlv} {a : Tlv} {t : Nat}

theorem Ended.lies (h : Ended b (l₁ ++ a :: l₂)) : Lies b (encode l₁).length a := by
  have hb := h.bytes
  have hi := h.inside
  rw [encode_append, encode_cons, at_append, at_append, Nat.zero_add] at hb
  rw [encode_append, encode_cons, List.length_append, List.length_append, Tlv.length_encode] at hi
  exact ⟨hb.2.1, by omega⟩

/-- The search of `record_find_attr`, at an attribute. -/
def findStep (t p : Nat) (a : Tlv) (_ : Unit) : (Nat × Nat) ⊕ Unit :=
  if a.type = t then .inl (p + attrHeaderSize, a.data.length) else .inr ()

theorem recordFindAttr_walk (h : Ended b l) (t : Nat) : recordFindAttr b t =
    match walkList (findStep t) 0 l () with
    | .answer r => some (.ok r)
    | .ended _ _ => some (.error .notfound) := by
  have hv : Visits b (fun p (_ : Unit) => do
      let type ← b.field p 2
      if type = t then do
        let length ← b.field (p + 8) 4
        return .inl (p + attrHeaderSize, length)
      else return .inr ()) (findStep t) := by
    intro p a s ha
    simp only [ha.type, ha.length, Option.bind_eq_bind, Option.bind_some, findStep, pure]
    split <;> rfl
  rw [recordFindAttr, h.walkFrom hv, Option.bind_eq_bind, Option.bind_some]
  cases walkList (findStep t) 0 l () <;> rfl

theorem recordFindAttr_none (h : Ended b l) (hn : ∀ a ∈ l, a.type ≠ t) :
    recordFindAttr b t = some (.error .notfound) := by
  have hskip : ∀ q, ∀ a ∈ l, findStep t q a () = .inr () := fun q a ha => if_neg (hn a ha)
  rw [recordFindAttr_walk h, walkList_skip hskip]

theorem recordFindAttr_some (h : Ended b l) (hf : l.find? (fun a => a.type = t) = some a) :
    ∃ q, recordFindAttr b t = some (.ok (q, a.data.length)) ∧ At b.mem q a.data ∧ q + a.data.length ≤ b.size := by
  obtain ⟨ht, l₁, l₂, rfl, hl₁⟩ := List.find?_eq_some_iff_append.1 hf
  have hlies := h.lies
  have hin := hlies.inside
  have hskip : ∀ q, ∀ x ∈ l₁, findStep t q x () = .inr () := fun q x hx => if_neg (by simpa using hl₁ x hx)
  refine ⟨(encode l₁).length + attrHeaderSize, ?_, hlies.data, by omega⟩
  rw [recordFindAttr_walk h, walkList_append, walkList_skip hskip]
  simp only [walkList, findStep, if_pos (of_decide_eq_true ht), Nat.zero_add]

def visitAll {σ : Type} (cb : Nat → List Byte → σ → Int × σ) : List Tlv → σ → Int × σ
  | [], ctx => (0, ctx)
  | a :: l, ctx =>
    let r := cb a.id a.data ctx
    if r.1 = 0 then visitAll cb l r.2 else r

theorem recordIterateAttr_ended {σ : Type} (h : Ended b l) (t : Nat) (cb : Nat → List Byte → σ → Int × σ) (ctx : σ) :
    recordIterateAttr b t cb ctx = some (visitAll cb (l.filter (fun a => a.type = t)) ctx) := by
  let v : Nat → Tlv → σ → (Int × σ) ⊕ σ := fun _ a ctx =>
    if a.type = t then if (cb a.id a.data ctx).1 = 0 then .inr (cb a.id a.data ctx).2 else .inl (cb a.id a.data ctx)
    else .inr ctx
  have hv : Visits b (fun p ctx => do
      let type ← b.field p 2
      if type = t then do
        let id ← b.field (p + 4) 4
        let length ← b.field (p + 8) 4
        let data ← b.payload (p + attrHeaderSize) length
        if (cb id data ctx).1 = 0 then return .inr (cb id data ctx).2 else return .inl (cb id data ctx)
      else return .inr ctx) v := by
    intro p a s ha
    simp only [v, ha.type, ha.id, ha.length, ha.payload, Option.bind_eq_bind, Option.bind_some, pure]
    split
    · split <;> rfl
    · rfl
  have hlist : ∀ (l : List Tlv) (p : Nat) (ctx : σ),
      walkList v p l ctx = .answer (visitAll cb (l.filter (fun a => a.type = t)) ctx) ∨
        ∃ q c, walkList v p l ctx = .ended q c ∧ visitAll cb (l.filter (fun a => a.type = t)) ctx = (0, c) := by
    intro l
    induction l with
    | nil => exact fun p ctx => .inr ⟨p, ctx, rfl, rfl⟩
    | cons a l ih =>
      intro p ctx
      by_cases ht : a.type = t
      · rw [List.filter_cons_of_pos (by simpa using ht), visitAll, walkList]
        simp only [v, if_pos ht]
        by_cases hr : (cb a.id a.data ctx).1 = 0
        · rw [if_pos hr, if_pos hr]
          exact ih _ _
        · rw [if_neg hr, if_neg hr]
          exact .inl rfl
      · rw [List.filter_cons_of_neg (by simpa using ht), walkList]
        simp only [v, if_neg ht]
        exact ih _ _
  unfold recordIterateAttr
  refine (congrArg (Option.bind · _) (h.walkFrom hv ctx)).trans ?_
  rcases hlist l 0 ctx with he | ⟨q, c, he, hvisit⟩
  · rw [he]
    rfl
  · rw [he, hvisit]
    rfl

theorem attrBufTotalLen_ended (h : Ended b l) :
    attrBufTotalLen b = some ((encode l).length + attrHeaderSize + load b.mem ((encode l).length + 8) 4) := by
  let v : Nat → Tlv → Nat → Empty ⊕ Nat := fun _ a total => .inr (total + (attrHeaderSize + a.data.length))
  have hv : Visits b (fun p total => do
      let length ← b.field (p + 8) 4
      return (.inr (total + (attrHeaderSize + length)) : Empty ⊕ Nat)) v := by
    intro p a s ha
    simp only [ha.length]
    rfl
  have hlist : ∀ (l : List Tlv) (p total : Nat),
      walkList v p l total = .ended (p + (encode l).length) (total + (encode l).length) := by
    intro l
    induction l with
    | nil => exact fun _ _ => rfl
    | cons a l ih =>
      intro p total
      rw [walkList]
      simp only [v]
      rw [ih, encode_cons, List.length_append, Tlv.length_encode, Nat.add_assoc, Nat.add_assoc total]
  have hin := h.inside
  unfold attrHeaderSize at hin
  rw [attrBufTotalLen, h.walkFrom hv, hlist, Nat.zero_add]
  simp only [Option.bind_eq_bind, Option.bind_some]
  rw [field_of_load (by omega)]
  simp [Nat.add_assoc]

end

/-! ## Removing -/

section
variable {α : Type} {q : α → Bool} {l l₁ l₂ : List α} {x : α}

theorem eraseLast_of_forall (h : ∀ x ∈ l, q x = false) : eraseLast q l = l := by
  rw [eraseLast, List.eraseP_of_forall_not, List.reverse_reverse]
  intro x hx
  rw [h x (List.mem_reverse.1 hx)]
  exact Bool.false_ne_true

theorem eraseLast_split (hx : q x = true) (h : ∀ y ∈ l₂, q y = false) : eraseLast q (l₁ ++ x :: l₂) = l₁ ++ l₂ := by
  have hback : ∀ y ∈ l₂.reverse, ¬q y = true := by
    intro y hy
    rw [h y (List.mem_reverse.1 hy)]
    exact Bool.false_ne_true
  rw [eraseLast, List.reverse_append, List.reverse_cons, List.append_assoc, List.eraseP_append_right _ hback,
    List.singleton_append, List.eraseP_cons_of_pos hx, List.reverse_append, List.reverse_reverse, List.reverse_reverse]

theorem exists_last (q : α → Bool) : ∀ l : List α,
    (∀ x ∈ l, q x = false) ∨ ∃ l₁ x l₂, l = l₁ ++ x :: l₂ ∧ q x = true ∧ ∀ y ∈ l₂, q y = false
  | [] => Or.inl (fun x hx => by cases hx)
  | z :: l => by
    rcases exists_last q l with h | ⟨l₁, x, l₂, rfl, hx, h⟩
    · cases hz : q z with
      | true => exact Or.inr ⟨[], z, l, rfl, hz, h⟩
      | false =>
        left
        intro x hx
        rcases List.mem_cons.1 hx with rfl | hx
        · exact hz
        · exact h x hx
    · exact Or.inr ⟨z :: l₁, x, l₂, rfl, hx, h⟩

end

section
variable {b : Buf} {l l₁ l₂ : List Tlv} {a : Tlv} {t : Nat} {pick : Nat → Option Bool} {c : Tlv → Bool}

/-- `c` is what `pick` finds out about an attribute. -/
def Picks (b : Buf) (pick : Nat → Option Bool) (c : Tlv → Bool) : Prop := ∀ p a, Lies b p a → pick p = some (c a)

def lastStep (c : Tlv → Bool) (p : Nat) (a : Tlv) (found : Option (Nat × Nat)) : Empty ⊕ Option (Nat × Nat) :=
  if c a = true then .inr (some (p, attrHeaderSize + a.data.length)) else .inr found

theorem removeLast_walk (h : Ended b l) (hp : Picks b pick c) : removeLast b pick =
    match walkList (lastStep c) 0 l none with
    | .ended _ none => some b
    | .ended ptr (some (found, foundLen)) =>
      b.move found (found + foundLen) (ptr + attrHeaderSize - (found + foundLen))
    | .answer r => nomatch r := by
  have hv : Visits b (fun p (found : Option (Nat × Nat)) => do
      if ← pick p then do
        let length ← b.field (p + 8) 4
        return (.inr (some (p, attrHeaderSize + length)) : Empty ⊕ Option (Nat × Nat))
      else return .inr found) (lastStep c) := by
    intro p a s ha
    simp only [hp p a ha, ha.length, Option.bind_eq_bind, Option.bind_some, lastStep, pure]
    split <;> rfl
  rw [removeLast, h.walkFrom hv, Option.bind_eq_bind, Option.bind_some]
  cases walkList (lastStep c) 0 l none with
  | answer r => exact nomatch r
  | ended p found => cases found <;> rfl

theorem removeLast_none (h : Ended b l) (hp : Picks b pick c) (hn : ∀ a ∈ l, c a = false) :
    removeLast b pick = some b := by
  have hskip : ∀ q, ∀ a ∈ l, lastStep c q a none = .inr none := by
    intro q a ha
    rw [lastStep, if_neg (by rw [hn a ha]; exact Bool.false_ne_true)]
  rw [removeLast_walk h hp, walkList_skip hskip]

theorem removeLast_split (h : Ended b (l₁ ++ a :: l₂)) (hp : Picks b pick c) (ha : c a = true)
    (hn : ∀ x ∈ l₂, c x = false) : removeLast b pick =
      b.move (encode l₁).length ((encode l₁).length + (attrHeaderSize + a.data.length))
        ((encode l₂).length + attrHeaderSize) := by
  have hskip : ∀ s, ∀ q, ∀ x ∈ l₂, lastStep c q x s = .inr s := by
    intro s q x hx
    rw [lastStep, if_neg (by rw [hn x hx]; exact Bool.false_ne_true)]
  have hfront : ∀ (l : List Tlv) (p : Nat) (s : Option (Nat × Nat)),
      ∃ s', walkList (lastStep c) p l s = .ended (p + (encode l).length) s' := by
    intro l
    induction l with
    | nil => exact fun _ s => ⟨s, rfl⟩
    | cons x l ih =>
      intro p s
      have hx : ∃ s', lastStep c p x s = .inr s' := by
        unfold lastStep
        split
        · exact ⟨_, rfl⟩
        · exact ⟨_, rfl⟩
      obtain ⟨s', hx⟩ := hx
      obtain ⟨s'', ih⟩ := ih (p + (attrHeaderSize + x.data.length)) s'
      refine ⟨s'', ?_⟩
      rw [walkList, hx]
      simp only
      rw [ih, encode_cons, List.length_append, Tlv.length_encode, Nat.add_assoc]
  obtain ⟨s, hs⟩ := hfront l₁ 0 none
  rw [removeLast_walk h hp, walkList_append, hs]
  simp only [walkList, lastStep, ha, if_true, Nat.zero_add]
  rw [walkList_skip (hskip _)]
  simp only
  congr 1
  omega

theorem move_split (h : Ended b (l₁ ++ a :: l₂)) : ∃ b',
    b.move (encode l₁).length ((encode l₁).length + (attrHeaderSize + a.data.length))
      ((encode l₂).length + attrHeaderSize) = some b' ∧ b'.size = b.size ∧ Ended b' (l₁ ++ l₂) ∧
    (Holds b (l₁ ++ a :: l₂) → Holds b' (l₁ ++ l₂)) := by
  have hb := h.bytes
  have hi := h.inside
  rw [encode_append, encode_cons, at_append, at_append, Nat.zero_add, Tlv.length_encode] at hb
  rw [encode_append, encode_cons, List.length_append, List.length_append, Tlv.length_encode] at hi
  let d := (encode l₁).length
  let k := attrHeaderSize + a.data.length
  let m := copy b.mem d b.mem (d + k) ((encode l₂).length + attrHeaderSize)
  have hsize : (encode (l₁ ++ l₂)).length = d + (encode l₂).length := by rw [encode_append, List.length_append]
  have hold : (encode (l₁ ++ a :: l₂)).length = d + k + (encode l₂).length := by
    rw [encode_append, encode_cons, List.length_append, List.length_append, Tlv.length_encode, ← Nat.add_assoc]
  have hend : ∀ i n, i + n ≤ attrHeaderSize →
      load m ((encode (l₁ ++ l₂)).length + i) n = load b.mem ((encode (l₁ ++ a :: l₂)).length + i) n := by
    intro i n hin
    rw [hsize, hold, Nat.add_assoc, Nat.add_assoc (d + k)]
    exact load_copy (by omega)
  have hended : Ended ⟨m, b.size⟩ (l₁ ++ l₂) := by
    constructor
    · rw [encode_append, at_append, Nat.zero_add]
      constructor
      · exact hb.1.copy (by omega)
      · apply hb.2.2.carry
        intro i hi
        show copy b.mem d b.mem (d + k) _ (d + i) = _
        rw [copy_of_mem (by omega) (by omega), Nat.add_sub_cancel_left]
    · exact (hend 0 2 (by decide)).trans h.type
    · rw [hsize]
      show _ ≤ b.size
      omega
  refine ⟨⟨m, b.size⟩, ?_, rfl, hended, fun hh => ⟨hended, ?_⟩⟩
  · rw [Buf.move, if_pos (by omega)]
  · exact (hend 8 4 (by decide)).trans hh.length

theorem removeLast_holds (h : Holds b l) (hp : Picks b pick c) :
    ∃ b', removeLast b pick = some b' ∧ b'.size = b.size ∧ Holds b' (eraseLast c l) := by
  rcases exists_last c l with hn | ⟨l₁, a, l₂, rfl, ha, hn⟩
  · rw [eraseLast_of_forall hn]
    exact ⟨b, removeLast_none h.toEnded hp hn, rfl, h⟩
  · obtain ⟨b', hmove, hsize, -, hholds⟩ := move_split h.toEnded
    rw [eraseLast_split ha hn, removeLast_split h.toEnded hp ha hn]
    exact ⟨b', hmove, hsize, hholds h⟩

theorem picks_type (b : Buf) (t : Nat) : Picks b (fun p => do
    let type ← b.field p 2
    return type == t) (fun a => a.type == t) := by
  intro p a ha
  simp only [ha.type]
  rfl

theorem picks_id (b : Buf) (t id : Nat) : Picks b (fun p => do
    let type ← b.field p 2
    if type = t then do
      let id' ← b.field (p + 4) 4
      return id' == id
    else return false) (fun a => a.type == t && a.id == id) := by
  intro p a ha
  simp only [ha.type, ha.id, Option.bind_eq_bind, Option.bind_some, pure]
  by_cases ht : a.type = t
  · rw [if_pos ht, beq_iff_eq.2 ht, Bool.true_and]
  · rw [if_neg ht, beq_eq_false_iff_ne.2 ht, Bool.false_and]

theorem recordRemoveAttr_holds (h : Holds b l) (t : Nat) : ∃ b', recordRemoveAttr b t = some b' ∧ b'.size = b.size ∧
    Holds b' (eraseLast (fun a => a.type == t) l) :=
  removeLast_holds h (picks_type b t)

theorem recordRemoveAttrId_holds (h : Holds b l) (t id : Nat) : ∃ b', recordRemoveAttrId b t id = some b' ∧
    b'.size = b.size ∧ Holds b' (eraseLast (fun a => a.type == t && a.id == id) l) :=
  removeLast_holds h (picks_id b t id)

end

/-! ## Adding -/

def highest (t : Nat) (l : List Tlv) : Option Nat := ((l.filter (fun a => a.type = t)).map Tlv.id).max?

def nextId (t : Nat) (l : List Tlv) : Nat :=
  match highest t l with
  | none => 0
  | some m => add32 m 1

section
variable {b : Buf} {l : List Tlv} {a : Tlv} {t bufSize newId : Nat} {data : List Byte}

theorem max?_eq_foldl (l : List Nat) : l.max? = l.foldl (fun m x => some (raiseMax m x)) none := by
  have hstart : ∀ (l : List Nat) (m : Nat), some (l.foldl max m) = l.foldl (fun m x => some (raiseMax m x)) (some m) := by
    intro l
    induction l with
    | nil => exact fun _ => rfl
    | cons x l ih =>
      intro m
      rw [List.foldl_cons, List.foldl_cons, ih]
      congr 2
      simp only [Nat.max_def, raiseMax]
      split <;> split <;> omega
  cases l with
  | nil => rfl
  | cons x l => exact hstart l x

theorem freshId_ended (h : Ended b l) (t : Nat) : freshId b t = some (nextId t l) := by
  let v : Nat → Tlv → Option Nat → Empty ⊕ Option Nat := fun _ a m =>
    .inr (if a.type = t then some (raiseMax m a.id) else m)
  have hv : Visits b (fun p (maxId : Option Nat) => do
      let type ← b.field p 2
      if type = t then do
        let id ← b.field (p + 4) 4
        return (.inr (some (raiseMax maxId id)) : Empty ⊕ Option Nat)
      else return .inr maxId) v := by
    intro p a s ha
    simp only [ha.type, ha.id, Option.bind_eq_bind, Option.bind_some, v, pure]
    split <;> rfl
  have hlist : ∀ (l : List Tlv) (p : Nat) (m : Option Nat), walkList v p l m =
      .ended (p + (encode l).length) (((l.filter (fun a => a.type = t)).map Tlv.id).foldl
        (fun m x => some (raiseMax m x)) m) := by
    intro l
    induction l with
    | nil => exact fun _ _ => rfl
    | cons a l ih =>
      intro p m
      rw [walkList]
      simp only [v]
      rw [ih, encode_cons, List.length_append, Tlv.length_encode, Nat.add_assoc]
      by_cases ht : a.type = t
      · rw [if_pos ht, List.filter_cons_of_pos (by simpa using ht), List.map_cons, List.foldl_cons]
      · rw [if_neg ht, List.filter_cons_of_neg (by simpa using ht)]
  rw [freshId, h.walkFrom hv, hlist, ← max?_eq_foldl, nextId, highest]
  cases ((l.filter (fun a => a.type = t)).map Tlv.id).max? <;> rfl

theorem walkFrom_end (h : Ended b l) : b.walkFrom (fun _ (_ : Unit) => some (.inr () : Empty ⊕ Unit)) () =
    some (.ended (encode l).length ()) := by
  rw [h.walkFrom (v := fun _ _ _ => .inr ()) (fun _ _ _ _ => rfl), walkList_skip (fun _ _ _ => rfl), Nat.zero_add]

theorem appendAttr_nospc (h : Ended b l) (hs : bufSize < (encode l).length + 3 * attrHeaderSize + data.length) :
    appendAttr b bufSize t newId data = some (.error .nospc, b) := by
  rw [appendAttr, walkFrom_end h]
  simp only [Option.bind_eq_bind, Option.bind_some]
  rw [if_pos (by omega)]
  rfl

theorem appendAttr_ok (h : Ended b l) (hs : (encode l).length + 3 * attrHeaderSize + data.length ≤ bufSize)
    (hb : (encode l).length + 2 * attrHeaderSize + data.length ≤ b.size) (ht : a.type = t) (hflags : a.flags = 0)
    (hid : a.id = newId) (hdata : a.data = data) :
    ∃ b', appendAttr b bufSize t newId data = some (.ok (), b') ∧ b'.size = b.size ∧ Holds b' (l ++ [a]) := by
  subst ht hid hdata
  have hbytes := h.bytes
  let p := (encode l).length
  let header := attrHeader a.type 0 a.id a.data.length
  let term := attrHeader attrtEnd 0 0 0
  let m₁ := copy b.mem p (ofList header) 0 header.length
  let m₂ := copy m₁ (p + attrHeaderSize) (ofList a.data) 0 a.data.length
  let m₃ := copy m₂ (p + attrHeaderSize + a.data.length) (ofList term) 0 term.length
  have hheader : header.length = attrHeaderSize := length_attrHeader _ _ _ _
  have hterm : term.length = attrHeaderSize := length_attrHeader _ _ _ _
  have hp : p = (encode l).length := rfl
  refine ⟨⟨m₃, b.size⟩, ?_, rfl, ?_⟩
  · rw [appendAttr, walkFrom_end h]
    simp only [Option.bind_eq_bind, Option.bind_some]
    rw [if_neg (by omega), Buf.write, if_pos (by rw [length_attrHeader]; omega), Option.bind_some, Buf.write,
      if_pos (by show _ ≤ b.size; omega), Option.bind_some, Buf.write,
      if_pos (by rw [length_attrHeader]; show _ ≤ b.size; omega)]
    rfl
  · have hfront : At m₃ 0 (encode l) := by
      have h₁ : At m₁ 0 (encode l) := hbytes.copy (by omega)
      have h₂ : At m₂ 0 (encode l) := h₁.copy (by omega)
      exact h₂.copy (by omega)
    have hhead : At m₃ p header := by
      have h₁ : At m₁ p header := at_copy _ _ _
      have h₂ : At m₂ p header := h₁.copy (by omega)
      exact h₂.copy (by omega)
    have hpay : At m₃ (p + attrHeaderSize) a.data := by
      have h₂ : At m₂ (p + attrHeaderSize) a.data := at_copy _ _ _
      exact h₂.copy (by omega)
    have hend := at_attrHeader (at_copy m₂ (p + attrHeaderSize + a.data.length) term)
    have hsize : (encode (l ++ [a])).length = p + attrHeaderSize + a.data.length := by
      rw [encode_append, encode_cons, encode_nil, List.append_nil, List.length_append, Tlv.length_encode, ← Nat.add_assoc]
    have hended : Ended ⟨m₃, b.size⟩ (l ++ [a]) := by
      constructor
      · rw [encode_append, encode_cons, encode_nil, List.append_nil, at_append, Tlv.encode, at_append, Nat.zero_add,
          length_attrHeader, hflags]
        exact ⟨hfront, hhead, hpay⟩
      · rw [hsize]
        exact hend.1.load (by decide)
      · rw [hsize]
        show _ ≤ b.size
        omega
    refine ⟨hended, ?_⟩
    rw [hsize]
    exact hend.2.2.2.load (by decide)

end

/-! ## Walks that end -/

section
variable {σ ρ : Type} {b : Buf} {p : Nat}

theorem load_of_field {n v : Nat} (h : b.field p n = some v) : p + n ≤ b.size ∧ load b.mem p n = v := by
  unfold Buf.field at h
  split at h
  · exact ⟨‹_›, Option.some.inj h⟩
  · cases h

theorem exists_at (m : Bytes.Mem) (p : Nat) (h : load m p 2 ≠ attrtEnd) :
    ∃ a : Tlv, At m p a.encode ∧ a.data.length = load m (p + 8) 4 := by
  obtain ⟨d, hd, hat⟩ : ∃ d : List Byte, d.length = load m (p + 8) 4 ∧ At m (p + attrHeaderSize) d :=
    ⟨slice m (p + attrHeaderSize) (load m (p + 8) 4), length_slice m _ _, at_slice m _ _⟩
  have hheader : At m p (attrHeader (load m p 2) (load m (p + 2) 2) (load m (p + 4) 4) d.length) := by
    rw [hd, attrHeader, at_append, at_append, at_append]
    simp only [length_bytesOf, Nat.add_assoc]
    exact ⟨at_bytesOf_load m p 2, at_bytesOf_load m _ 2, at_bytesOf_load m _ 4, at_bytesOf_load m _ 4⟩
  exact ⟨⟨load m p 2, load m (p + 2) 2, load m (p + 4) 4, d, h, load_lt m 2 p, load_lt m 2 _, load_lt m 4 _,
    hd ▸ load_lt m 4 _⟩, at_append.2 ⟨hheader, by rwa [length_attrHeader]⟩, hd⟩

theorem attrs_of_walk {visit : Nat → σ → Option (ρ ⊕ σ)} : ∀ {n p q : Nat} {s s' : σ},
    walk b visit n p s = some (.ended q s') →
    ∃ l : List Tlv, At b.mem p (encode l) ∧ q = p + (encode l).length ∧ load b.mem q 2 = attrtEnd
  | n + 1, p, q, s, s', h => by
    rw [walk, Option.bind_eq_bind, Option.bind_eq_some_iff] at h
    obtain ⟨type, htype, h⟩ := h
    have hload := (load_of_field htype).2
    split at h
    · injection h with h
      injection h with hq _
      subst hq
      exact ⟨[], at_nil, rfl, by rw [hload]; assumption⟩
    · rw [Option.bind_eq_bind, Option.bind_eq_some_iff] at h
      obtain ⟨r, -, h⟩ := h
      cases r with
      | inl r => cases h
      | inr s₁ =>
        simp only [Option.bind_eq_some_iff] at h
        obtain ⟨length, hlength, h⟩ := h
        obtain ⟨a, hat, hlen⟩ := exists_at b.mem p (by rw [hload]; assumption)
        rw [(load_of_field hlength).2] at hlen
        obtain ⟨l, hl, hq, hend⟩ := attrs_of_walk h
        rw [← hlen] at hl hq
        refine ⟨a :: l, ?_, ?_, hend⟩
        · rw [encode_cons, at_append, Tlv.length_encode]
          exact ⟨hat, hl⟩
        · rw [hq, encode_cons, List.length_append, Tlv.length_encode, Nat.add_assoc]

theorem ended_of_totalLen (h : (attrBufTotalLen b).isSome = true) : ∃ l, Ended b l := by
  obtain ⟨total, h⟩ := Option.isSome_iff_exists.1 h
  rw [attrBufTotalLen, Option.bind_eq_bind, Option.bind_eq_some_iff] at h
  obtain ⟨w, hw, h⟩ := h
  cases w with
  | answer r => exact nomatch r
  | ended p s =>
    simp only [Option.bind_eq_bind, Option.bind_eq_some_iff] at h
    obtain ⟨length, hlength, -⟩ := h
    obtain ⟨l, hl, hp, hend⟩ := attrs_of_walk hw
    rw [Nat.zero_add] at hp
    subst hp
    exact ⟨l, hl, hend, by have := (load_of_field hlength).1; unfold attrHeaderSize; omega⟩

/-- The four walks come to an end, and look at no byte outside of the buffer. -/
structure WalksInside (b : Buf) : Prop where
  find : ∀ t, (recordFindAttr b t).isSome = true
  iterate : ∀ (σ : Type) t (cb : Nat → List Byte → σ → Int × σ) ctx, (recordIterateAttr b t cb ctx).isSome = true
  remove : ∀ t, (recordRemoveAttr b t).isSome = true
  totalLen : (attrBufTotalLen b).isSome = true

theorem walksInside_iff : WalksInside b ↔ ∃ l, Ended b l := by
  refine ⟨fun h => ended_of_totalLen h.totalLen, fun ⟨l, h⟩ => ⟨fun t => ?_, fun σ t cb ctx => ?_, fun t => ?_, ?_⟩⟩
  · rw [recordFindAttr_walk h]
    cases walkList (findStep t) 0 l () <;> rfl
  · rw [recordIterateAttr_ended h]
    rfl
  · rcases exists_last (fun a : Tlv => a.type == t) l with hn | ⟨l₁, a, l₂, rfl, ha, hn⟩
    · rw [recordRemoveAttr, removeLast_none h (picks_type b t) hn]
      rfl
    · obtain ⟨b', hmove, -⟩ := move_split h
      rw [recordRemoveAttr, removeLast_split h (picks_type b t) ha hn, hmove]
      rfl
  · rw [attrBufTotalLen_ended h]
    rfl

end

end AttrBuf
end SmkFs
end AmitX
