import AmitX.Amfs.Owned
/-!
# Entries — the entries of a directory in a sector's buffer (`amfs_dirent_t`)

An entry is a number of four bytes and a name of thirty, and entries stand every 32 bytes: the last two bytes of a name
are the first two of the number behind it.  `entryOf` is what a search sees of an entry.  A write to one entry is followed
here to the entry before it and to the one behind it.
-/
namespace AmitX
namespace Amfs

open Bytes

variable {m m' : Mem} {a k n o inum : Nat} {name : List Byte}

/-! ## Names -/

/-- A C string that `dir_add_entry` takes as a name. -/
def IsName (name : List Byte) : Prop := name.length < 30 ∧ ∀ c ∈ name, c ≠ 0

/-- The C string at `a`, of which only `n` bytes are read. -/
def cstr (m : Mem) (a : Nat) : Nat → List Byte
  | 0 => []
  | n + 1 => if m a = 0 then [] else m a :: cstr m (a + 1) n

theorem cstr_congr : ∀ {n a : Nat}, (∀ j < n, (∀ k < j, m (a + k) ≠ 0) → m' (a + j) = m (a + j)) →
    cstr m' a n = cstr m a n
  | 0, _, _ => rfl
  | n + 1, a, h => by
    have h0 : m' a = m a := h 0 (Nat.succ_pos n) (fun k hk => absurd hk (Nat.not_lt_zero k))
    rw [cstr, cstr, h0]
    by_cases ha : m a = 0
    · rw [if_pos ha, if_pos ha]
    · have hrest : cstr m' (a + 1) n = cstr m (a + 1) n := by
        apply cstr_congr
        intro j hj hk
        have hj' := h (j + 1) (by omega) (fun k hkj => by
          cases k with
          | zero => exact ha
          | succ k =>
            rw [← Nat.add_assoc, Nat.add_right_comm]
            exact hk k (by omega))
        rwa [← Nat.add_assoc, Nat.add_right_comm] at hj'
      rw [if_neg ha, if_neg ha, hrest]

theorem le_length_cstr : ∀ {k n a : Nat}, k ≤ (cstr m a n).length ↔ k ≤ n ∧ ∀ j < k, m (a + j) ≠ 0
  | 0, _, _ => by simp
  | k + 1, 0, _ => by simp [cstr]
  | k + 1, n + 1, a => by
    rw [cstr]
    by_cases ha : m a = 0
    · rw [if_pos ha]
      constructor
      · intro h
        simp at h
      · intro h
        exact absurd ha (h.2 0 (Nat.succ_pos k))
    · rw [if_neg ha, List.length_cons, Nat.succ_le_succ_iff, le_length_cstr, Nat.succ_le_succ_iff]
      refine and_congr_right (fun _ => ⟨fun h j hj => ?_, fun h j hj => ?_⟩)
      · cases j with
        | zero => exact ha
        | succ j =>
          rw [← Nat.add_assoc, Nat.add_right_comm]
          exact h j (by omega)
      · have hj' := h (j + 1) (by omega)
        rwa [← Nat.add_assoc, Nat.add_right_comm] at hj'

theorem cstr_eq_iff : ∀ {name : List Byte} {n a : Nat}, (∀ c ∈ name, c ≠ 0) → name.length < n →
    (cstr m a n = name ↔ ∀ j ≤ name.length, m (a + j) = ofList name j)
  | [], 0, _, _, h => absurd h (Nat.not_lt_zero _)
  | c :: cs, 0, _, _, h => absurd h (Nat.not_lt_zero _)
  | [], n + 1, a, _, _ => by
    rw [cstr]
    by_cases ha : m a = 0
    · rw [if_pos ha]
      refine ⟨fun _ j hj => ?_, fun _ => rfl⟩
      obtain rfl : j = 0 := Nat.le_zero.1 hj
      exact ha
    · rw [if_neg ha]
      constructor
      · intro h
        cases h
      · intro h
        exact absurd (h 0 (Nat.le_refl 0)) ha
  | c :: cs, n + 1, a, hc, hn => by
    have hc0 : c ≠ 0 := hc c List.mem_cons_self
    have hcs : ∀ x ∈ cs, x ≠ 0 := fun x hx => hc x (List.mem_cons_of_mem c hx)
    have ih := cstr_eq_iff (a := a + 1) hcs (show cs.length < n from Nat.lt_of_succ_lt_succ hn)
    rw [cstr]
    constructor
    · intro h
      by_cases ha : m a = 0
      · rw [if_pos ha] at h
        cases h
      · rw [if_neg ha, List.cons.injEq] at h
        intro j hj
        cases j with
        | zero => exact h.1
        | succ j =>
          have hj' := ih.1 h.2 j (Nat.le_of_succ_le_succ hj)
          rwa [Nat.add_right_comm] at hj'
    · intro h
      have h0 : m a = c := h 0 (Nat.zero_le _)
      have hrest : cstr m (a + 1) n = cs := ih.2 (fun j hj => by
        have hj' := h (j + 1) (Nat.succ_le_succ hj)
        rwa [← Nat.add_assoc, Nat.add_right_comm] at hj')
      rw [if_neg (h0 ▸ hc0), hrest, h0]

theorem strcmp_iff : ∀ {name : List Byte} {a : Nat},
    strcmp m a name = true ↔ ∀ j ≤ name.length, m (a + j) = ofList name j
  | [], a => by
    rw [strcmp, beq_iff_eq]
    refine ⟨fun h j hj => ?_, fun h => h 0 (Nat.le_refl 0)⟩
    obtain rfl : j = 0 := Nat.le_zero.1 hj
    exact h
  | c :: cs, a => by
    rw [strcmp, Bool.and_eq_true, beq_iff_eq, strcmp_iff]
    constructor
    · rintro ⟨h0, h⟩ j hj
      cases j with
      | zero => exact h0
      | succ j =>
        have hj' := h j (Nat.le_of_succ_le_succ hj)
        rwa [Nat.add_right_comm] at hj'
    · intro h
      refine ⟨h 0 (Nat.zero_le _), fun j hj => ?_⟩
      have hj' := h (j + 1) (Nat.succ_le_succ hj)
      rwa [← Nat.add_assoc, Nat.add_right_comm] at hj'

theorem strcmp_iff_cstr (hn : IsName name) : strcmp m a name = true ↔ cstr m a 30 = name := by
  rw [strcmp_iff, cstr_eq_iff hn.2 hn.1]

/-! ## What a search sees -/

/-- The name of the entry at `o`, as far as it is of 30 bytes. -/
def entryName (m : Mem) (o : Nat) : List Byte := cstr m (o + 4) 30

/-- The name and the number of the entry at `o`, if it is not free. -/
def entryOf (m : Mem) (o : Nat) : Option (List Byte × Nat) :=
  if entryInode m o = 0 then none else some (entryName m o, entryInode m o)

theorem entryOf_congr (hnum : entryInode m' o = entryInode m o)
    (hname : entryInode m o ≠ 0 → entryName m' o = entryName m o) : entryOf m' o = entryOf m o := by
  unfold entryOf
  rw [hnum]
  by_cases h0 : entryInode m o = 0
  · rw [if_pos h0, if_pos h0]
  · rw [if_neg h0, if_neg h0, hname h0]

theorem entryInode_congr (h : ∀ i, o ≤ i → i < o + 4 → m' i = m i) : entryInode m' o = entryInode m o := load_congr h

theorem entryName_congr (h : ∀ j < 30, (∀ k < j, m (o + 4 + k) ≠ 0) → m' (o + 4 + j) = m (o + 4 + j)) :
    entryName m' o = entryName m o := cstr_congr h

theorem entryOf_of_bytes (h : ∀ i, o ≤ i → i < o + 34 → m' i = m i) : entryOf m' o = entryOf m o := by
  apply entryOf_congr
  · exact entryInode_congr (fun i h1 h2 => h i h1 (by omega))
  · intro _
    exact entryName_congr (fun j hj _ => h _ (by omega) (by omega))

theorem entryOf_free (h : entryInode m o = 0) : entryOf m o = none := if_pos h

theorem entryOf_live (h : entryInode m o ≠ 0) : entryOf m o = some (entryName m o, entryInode m o) := if_neg h

def LongAt (m : Mem) (o : Nat) : Prop := ∀ j < 28, m (o + 4 + j) ≠ 0

theorem longAt_iff : LongAt m o ↔ 28 ≤ (entryName m o).length := by
  unfold entryName LongAt
  rw [le_length_cstr]
  exact ⟨fun h => ⟨by decide, h⟩, fun h => h.2⟩

theorem load_mod (m : Mem) (a : Nat) : load m a 4 % 65536 = (m a).toNat + 256 * (m (a + 1)).toNat := by
  have h1 := (m a).isLt
  have h2 := (m (a + 1)).isLt
  rw [load, load]
  omega

theorem load_mod_byte (m : Mem) (a : Nat) : load m a 4 % 256 = (m a).toNat := by
  have h1 := (m a).isLt
  rw [load]
  omega

/-! ## An entry is put -/

section

variable {i j : Nat}

theorem putEntry_of_not (h : i < o ∨ o + 34 ≤ i) : putEntry m o name inum i = m i := by
  unfold putEntry
  rw [copy_of_not (by omega)]
  rcases h with h | h
  · exact store_of_lt h
  · exact store_of_ge (by omega)

theorem putEntry_name (hj : j < 30) : putEntry m o name inum (o + 4 + j) = ofList name j := by
  unfold putEntry
  rw [copy_of_mem (by omega) (by omega), Nat.zero_add, Nat.add_sub_cancel_left]

theorem entryInode_putEntry (hx : inum < 2 ^ 32) : entryInode (putEntry m o name inum) o = inum := by
  unfold entryInode putEntry
  rw [load_copy_ne (by omega)]
  exact load_store_of_lt hx

theorem entryName_putEntry (hn : IsName name) : entryName (putEntry m o name inum) o = name := by
  unfold entryName
  have hlen := hn.1
  rw [cstr_eq_iff hn.2 hn.1]
  intro j hj
  exact putEntry_name (by omega)

theorem ofList_of_length {l : List Byte} (h : l.length ≤ i) : ofList l i = 0 := List.getD_eq_default l 0 h

theorem entryOf_putEntry (hn : IsName name) (h0 : 0 < inum) (hx : inum < 2 ^ 32) :
    entryOf (putEntry m o name inum) o = some (name, inum) := by
  have hnum : entryInode (putEntry m o name inum) o = inum := entryInode_putEntry hx
  rw [entryOf_live (by rw [hnum]; omega), entryName_putEntry hn, hnum]

theorem entryOf_putEntry_ne (h : a + 34 ≤ o ∨ o + 34 ≤ a) : entryOf (putEntry m o name inum) a = entryOf m a :=
  entryOf_of_bytes (fun _ _ _ => putEntry_of_not (by omega))

theorem load_putEntry_behind (hn : IsName name) :
    load (putEntry m o name inum) (o + 32) 4 % 65536 = (ofList name 28).toNat := by
  have h28 : putEntry m o name inum (o + 32) = ofList name 28 := putEntry_name (j := 28) (by decide)
  have h29 : putEntry m o name inum (o + 32 + 1) = ofList name 29 := putEntry_name (j := 29) (by decide)
  have h0 : ofList name 29 = 0 := ofList_of_length (Nat.le_of_lt_succ hn.1)
  rw [load_mod, h28, h29, h0]
  rfl

theorem entryOf_putEntry_behind (hn : IsName name) (h : load m (o + 32) 4 % 65536 = (ofList name 28).toNat) :
    entryOf (putEntry m o name inum) (o + 32) = entryOf m (o + 32) := by
  have hput : load (putEntry m o name inum) (o + 32) 4 % 65536 = (ofList name 28).toNat := load_putEntry_behind hn
  have hlow := h.trans hput.symm
  rw [load_mod, load_mod] at hlow
  have h1 := (m (o + 32)).isLt
  have h2 := (putEntry m o name inum (o + 32)).isLt
  apply entryOf_of_bytes
  intro i hi hi'
  by_cases h32 : i = o + 32
  · rw [h32]
    exact BitVec.eq_of_toNat_eq (by omega)
  by_cases h33 : i = o + 32 + 1
  · rw [h33]
    exact BitVec.eq_of_toNat_eq (by omega)
  exact putEntry_of_not (by omega)

theorem entryOf_putEntry_before (hx : inum < 2 ^ 32)
    (h : entryInode m a ≠ 0 → LongAt m a → load m (a + 32) 4 % 65536 = inum % 65536) :
    entryOf (putEntry m (a + 32) name inum) a = entryOf m a := by
  apply entryOf_congr
  · exact entryInode_congr (fun i h1 h2 => putEntry_of_not (by omega))
  · intro hlive
    apply entryName_congr
    intro j hj hk
    by_cases h28 : j < 28
    · exact putEntry_of_not (by omega)
    · have hlow := h hlive (fun k hk28 => hk k (by omega))
      have hput : load (putEntry m (a + 32) name inum) (a + 32) 4 = inum := entryInode_putEntry hx
      rw [← hput, load_mod, load_mod] at hlow
      have h1 := (m (a + 32)).isLt
      have h2 := (putEntry m (a + 32) name inum (a + 32)).isLt
      by_cases he : j = 28
      · rw [he, show a + 4 + 28 = a + 32 by omega]
        exact BitVec.eq_of_toNat_eq (by omega)
      · rw [show a + 4 + j = a + 32 + 1 by omega]
        exact BitVec.eq_of_toNat_eq (by omega)

theorem entryName_putEntry_before (hx : inum < 2 ^ 32) (hlong : LongAt m a) (hn : IsName (entryName m a))
    (h0 : inum % 256 ≠ 0) (h : load m (a + 32) 4 % 65536 ≠ inum % 65536) :
    entryName (putEntry m (a + 32) name inum) a ≠ entryName m a := by
  intro he
  have hlen := longAt_iff.1 hlong
  have hlt := hn.1
  have hput : load (putEntry m (a + 32) name inum) (a + 32) 4 = inum := entryInode_putEntry hx
  have hold := (cstr_eq_iff (m := m) (a := a + 4) hn.2 hn.1).1 rfl
  have hnew := (cstr_eq_iff (m := putEntry m (a + 32) name inum) (a := a + 4) hn.2 hn.1).1 he
  have hsame28 : putEntry m (a + 32) name inum (a + 32) = m (a + 32) := (hnew 28 hlen).trans (hold 28 hlen).symm
  have hlow : load m (a + 32) 4 % 256 = inum % 256 := by
    rw [load_mod_byte, ← hsame28, ← load_mod_byte, hput]
  by_cases h29 : 29 ≤ (entryName m a).length
  · have hsame29 : putEntry m (a + 32) name inum (a + 32 + 1) = m (a + 32 + 1) := (hnew 29 h29).trans (hold 29 h29).symm
    apply h
    rw [← hput, load_mod, load_mod, hsame28, hsame29]
  · have hzero : m (a + 32) = 0 := (hold 28 hlen).trans (ofList_of_length (by omega))
    rw [load_mod_byte, hzero] at hlow
    exact h0 hlow.symm

/-! ## An entry is cleared -/

/-- `e->inode = 0` and `e->name[0] = 0`. -/
def clearEntry (buf : Mem) (o : Nat) : Mem := store (store buf o 4 0) (o + 4) 1 0

theorem clearEntry_of_not (h : i < o ∨ o + 5 ≤ i) : clearEntry m o i = m i := by
  unfold clearEntry
  rcases h with h | h
  · rw [store_of_lt (by omega), store_of_lt h]
  · rw [store_of_ge (by omega), store_of_ge (by omega)]

theorem entryInode_clearEntry : entryInode (clearEntry m o) o = 0 := by
  unfold entryInode clearEntry
  rw [load_store_ne (by omega)]
  exact load_store_of_lt (by decide)

theorem entryOf_clearEntry_ne (h : a + 34 ≤ o ∨ o + 32 ≤ a) : entryOf (clearEntry m o) a = entryOf m a :=
  entryOf_of_bytes (fun _ _ _ => clearEntry_of_not (by omega))

theorem clearEntry_self : clearEntry m o o = 0 := by
  have h := entryInode_clearEntry (m := m) (o := o)
  have hbyte := load_mod_byte (clearEntry m o) o
  unfold entryInode at h
  rw [h] at hbyte
  exact BitVec.eq_of_toNat_eq hbyte.symm

theorem clearEntry_name : clearEntry m o (o + 4) = 0 := by
  unfold clearEntry store
  rw [if_pos (by omega), Nat.sub_self]
  rfl

theorem entryOf_clearEntry_before (h : entryInode m a ≠ 0 → LongAt m a → load m (a + 32) 4 % 256 = 0) :
    entryOf (clearEntry m (a + 32)) a = entryOf m a := by
  apply entryOf_congr
  · exact entryInode_congr (fun i h1 h2 => clearEntry_of_not (by omega))
  · intro hlive
    apply entryName_congr
    intro j hj hk
    by_cases h28 : j < 28
    · exact clearEntry_of_not (by omega)
    · have hlow := h hlive (fun k hk28 => hk k (by omega))
      rw [load_mod_byte] at hlow
      have hzero : m (a + 32) = 0 := BitVec.eq_of_toNat_eq hlow
      by_cases he : j = 28
      · rw [he, show a + 4 + 28 = a + 32 by omega, clearEntry_self, hzero]
      · exact absurd hzero (hk 28 (by omega))

theorem entryName_clearEntry_before (hlong : LongAt m a) (hn : IsName (entryName m a))
    (h : load m (a + 32) 4 % 256 ≠ 0) : entryName (clearEntry m (a + 32)) a ≠ entryName m a := by
  intro he
  have hlen := longAt_iff.1 hlong
  have hold := (cstr_eq_iff (m := m) (a := a + 4) hn.2 hn.1).1 rfl
  have hnew := (cstr_eq_iff (m := clearEntry m (a + 32)) (a := a + 4) hn.2 hn.1).1 he
  have hsame : clearEntry m (a + 32) (a + 32) = m (a + 32) := (hnew 28 hlen).trans (hold 28 hlen).symm
  rw [clearEntry_self] at hsame
  rw [load_mod_byte, ← hsame] at h
  exact h rfl

end

/-! ## The sector as a buffer -/

theorem readSector_of_lt {behind : Mem} {v : Volume} {s i : Nat} (h : i < 512) : readSector behind v s i = v.disk s i :=
  if_pos h

theorem entryOf_behind (hsector : ∀ i < 512, m' i = m i) (ho : o ≤ 480)
    (h : o + 34 ≤ 512 ∨ ∀ e, entryOf m o = some e → e.1.length < 28) : entryOf m' o = entryOf m o := by
  apply entryOf_congr
  · exact entryInode_congr (fun i h1 h2 => hsector i (by omega))
  · intro hlive
    apply entryName_congr
    intro j hj hk
    apply hsector
    rcases h with h | h
    · omega
    · by_contra hout
      have hlong : LongAt m o := fun k hk28 => hk k (by omega)
      have hshort : (entryName m o).length < 28 := h _ (entryOf_live hlive)
      have hlen := longAt_iff.1 hlong
      omega

end Amfs
end AmitX
