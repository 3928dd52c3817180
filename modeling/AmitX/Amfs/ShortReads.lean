import AmitX.Amfs.RoundTrip
/-!
# ShortReads — `amfs_read` into a small buffer, and writes that find a block

A buffer that is too small gets the front of the file, without a word.  A file that has a block gives it back when it is
written, so that a write of one block does not fail.
-/
namespace AmitX
namespace Amfs

open Bytes

variable {v : Volume} {n : Fin 64} {x y size : Nat} {data : List Byte}

/-! ## Reads -/

theorem take_slice (m : Mem) (a n k : Nat) : (slice m a n).take k = slice m a (min k n) := by
  rw [slice, ← List.map_take, List.take_range, slice]

theorem take_block (m : Mem) (rest : List Byte) (hy : y ≤ x) :
    (slice m 0 (min 512 x) ++ rest).take y = slice m 0 (min 512 y) ++ rest.take (y - 512) := by
  rw [List.take_append, take_slice, length_slice]
  by_cases h : y ≤ 512
  · rw [Nat.sub_eq_zero_of_le (show y ≤ 512 from h), Nat.min_eq_left (show y ≤ min 512 x by omega),
      Nat.min_eq_right h, Nat.sub_eq_zero_of_le (by omega)]
  · rw [Nat.min_eq_left (show 512 ≤ x by omega), Nat.min_eq_left (show 512 ≤ y by omega),
      Nat.min_eq_right (show 512 ≤ y by omega)]

theorem readBlocks_succ (v : Volume) (n x i k : Nat) : readBlocks v n x (List.range' i (k + 1)) =
    if refAt v n i = 0 then none
    else (readBlocks v n x (List.range' (i + 1) k)).map
      (slice (v.disk (refAt v n i)) 0 (min 512 (x - 512 * i)) ++ ·) := by
  rw [List.range'_succ, readBlocks_cons]

theorem length_readBlocks {v : Volume} {n : Nat} : ∀ (k : Nat) {i : Nat} {d : List Byte}, (x + 511) / 512 = i + k →
    readBlocks v n x (List.range' i k) = some d → d.length = x - 512 * i
  | 0, i, d, hk, h => by
    cases h
    rw [List.length_nil]
    omega
  | k + 1, i, d, hk, h => by
    rw [readBlocks_succ] at h
    split at h
    case isTrue => cases h
    case isFalse =>
      obtain ⟨rest, hrest, rfl⟩ := Option.map_eq_some_iff.1 h
      have hlen := length_readBlocks k (by omega) hrest
      rw [List.length_append, length_slice, hlen]
      omega

theorem readBlocks_take {v : Volume} {n : Nat} (hy : y ≤ x) : ∀ (k' : Nat) {i k : Nat} {d : List Byte},
    (x + 511) / 512 = i + k → (y + 511) / 512 = i + k' → readBlocks v n x (List.range' i k) = some d →
      readBlocks v n y (List.range' i k') = some (d.take (y - 512 * i))
  | 0, i, k, d, _, hk', _ => by
    rw [show y - 512 * i = 0 by omega, List.take_zero]
    rfl
  | k' + 1, i, 0, d, hk, hk', _ => by omega
  | k' + 1, i, k + 1, d, hk, hk', h => by
    rw [readBlocks_succ] at h ⊢
    split at h
    case isTrue => cases h
    case isFalse h0 =>
      obtain ⟨rest, hrest, rfl⟩ := Option.map_eq_some_iff.1 h
      rw [if_neg h0, readBlocks_take hy k' (by omega) (by omega) hrest, Option.map_some,
        take_block _ _ (show y - 512 * i ≤ x - 512 * i by omega), Nat.mul_succ, Nat.sub_sub]

theorem readInode_take {v : Volume} {n : Nat} (h : readInode v n (inodeRead v n).size = some data) (size : Nat) :
    data.length = (inodeRead v n).size ∧ readInode v n size = some (data.take size) := by
  unfold readInode at h ⊢
  split at h
  case isTrue => cases h
  case isFalse hfile =>
    rw [Nat.min_self] at h
    dsimp only at h ⊢
    rw [List.range_eq_range'] at h
    have hlen := length_readBlocks _ (Nat.zero_add _).symm h
    refine ⟨hlen, ?_⟩
    rw [if_neg hfile, List.range_eq_range',
      readBlocks_take (Nat.min_le_left _ size) _ (Nat.zero_add _).symm (Nat.zero_add _).symm h, Nat.mul_zero,
      Nat.sub_zero]
    rw [Nat.mul_zero, Nat.sub_zero] at hlen
    rw [← hlen, Nat.min_comm, ← List.take_take, List.take_length]

theorem refAt_of_read (h : readInode v n (inodeRead v n).size = some data) (hd : data ≠ []) : refAt v n 0 ≠ 0 := by
  intro h0
  have hlen := (readInode_take h 0).1
  have hpos := List.length_pos_iff.2 hd
  unfold readInode at h
  split at h
  case isTrue => cases h
  case isFalse =>
    rw [Nat.min_self] at h
    dsimp only at h
    rw [List.range_eq_range', show ((inodeRead v n).size + 511) / 512 = ((inodeRead v n).size - 1) / 512 + 1 by omega,
      readBlocks_succ, if_pos h0] at h
    cases h

/-! ## Writes -/

theorem writeInode_block (h : Sound v) (ht : typeOf v n = typeFile) (h0 : refAt v n 0 ≠ 0) (hne : data ≠ [])
    (hlen : data.length ≤ 512) : (writeInode v n data).1 = 0 := by
  have hr := emptied_released h n
  have hs := hr.sound h
  have hpos := List.length_pos_iff.2 hne
  have hblock : (blockForOffset (emptied v n) n (512 * 0) true).1 ≠ 0 := by
    have hg := directBlock_given hs n (show 0 < 10 by decide)
    have hdirect : blockForOffset (emptied v n) n (512 * 0) true = directBlock (emptied v n) n 0 true := by
      rw [blockForOffset, if_pos (by decide)]
    rw [hdirect]
    generalize directBlock (emptied v n) n 0 true = r at hg ⊢
    cases hg with
    | there href => exact href
    | fresh ha =>
      dsimp only
      omega
    | full href hfull =>
      rw [refAt_direct (by decide)] at h0
      obtain ⟨hlo, hhi⟩ := h.slots.area _ h0
      have hbit := hfull (ref v ⟨n, .direct ⟨0, by decide⟩⟩ - 10) (by rw [hr.sb]; omega)
      exact absurd (by omega) (((hr.slots.clear _).1 hbit).2 ⟨n, .direct ⟨0, by decide⟩⟩ rfl)
  have hwrite : (writeBlocks n data (emptied v n) (List.range' 0 1)).1 = true := by
    rw [List.range'_succ, writeBlocks, if_neg hblock]
    rfl
  rw [writeInode_eq v n data ht, show (data.length + 511) / 512 = 1 by omega]
  dsimp only
  rw [if_pos hwrite]

theorem writeInode_block_of_owned (g : Geometry v) (ho : Owned v) (ht : typeOf v n = typeFile) (h0 : refAt v n 0 ≠ 0)
    (hne : data ≠ []) (hlen : data.length ≤ 512) : (writeInode v n data).1 = 0 := by
  have hv := agree_mask g
  have hu := sound_mask g ho
  have htu : typeOf v.mask n = typeFile := (hv.type n).trans ht
  have hsame := hv.sameNode hu (ne_free_of_file htu)
  rw [← (hv.writeInode hu htu data).1]
  refine writeInode_block hu htu ?_ hne hlen
  rw [(hsame.block 0).1]
  exact h0

theorem amfsRead_written {behind b : Mem} {n : Nat} {path q : List Byte} (g : Geometry v) (ho : Owned v)
    (hp : FilePath behind v path n) (h0 : (amfsWrite behind v path data).1 = 0) (hq : FilePath b v q n)
    (hle : data.length ≤ size) : amfsRead b (amfsWrite behind v path data).2 q size = some data := by
  obtain ⟨n, rfl⟩ : ∃ m : Fin 64, n = m := ⟨⟨n, hp.lt⟩, rfl⟩
  have hn : typeOf v n = typeFile := hp.isFile.file
  rw [amfsWrite_eq hp.isFile] at h0 ⊢
  by_cases hc : v.mounted = false ∨ data = []
  · rw [if_pos hc] at h0
    cases h0
  · rw [if_neg hc] at h0 ⊢
    obtain ⟨hm, hne⟩ := not_or.1 hc
    have hpos : 0 < data.length := List.length_pos_iff.2 hne
    have hout := writeInode_outcome_of_owned g ho hn hne
    generalize writeInode v n data = r at h0 hout ⊢
    cases hout with
    | failed left hsize => cases h0
    | done left hsize block =>
      rw [amfsRead_eq (hq.left hn left).isFile, mounted_of_memory left.memory, if_neg (not_or.2 ⟨hm, by omega⟩),
        readInode_done left.type hsize block hle]

end Amfs
end AmitX
