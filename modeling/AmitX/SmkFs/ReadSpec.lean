import AmitX.SmkFs.ExtentMap
/-!
# ReadSpec — the bytes of a file (`smkfs_read`)

Where nothing fails, a read gives the bytes at its positions up to the size: those in the block that the extents lead to,
and zeros where they lead nowhere.
-/
namespace AmitX
namespace SmkFs

open Prog Volume

def byteIn (other : BlockData → Nat → UInt8) (v : Volume) (attrs : List Attr) (logicalBlock offset : Nat) : UInt8 :=
  match blockOf attrs logicalBlock with
  | some b => imageBytes other (v.view b) offset
  | none => 0

def byteAt (other : BlockData → Nat → UInt8) (v : Volume) (attrs : List Attr) (pos : Nat) : UInt8 :=
  byteIn other v attrs (pos / blockSize) (pos % blockSize)

section

variable {other : BlockData → Nat → UInt8} {v : Volume} {s : Mount} {id offset toRead : Nat} {rec : Record}
  {attrs : List Attr}

theorem fwp_blockReadByte (hr : v.RecordAt id rec attrs) (hs : v.sectorOk) {l o n : Nat} (hn : o + n ≤ blockSize) :
    fwp False False (blockReadByte other id l o n)
      (fun bytes v' => v' = v ∧ bytes = (List.range n).map (fun i => byteIn other v attrs l (o + i)))
      (fun _ _ => False) v := by
  unfold blockReadByte
  refine wpAbs_bind (vwp_malloc ?_ False.elim)
  refine wpAbs_bind (wpAbs_failIf (fun h => by simp at h) (fun _ => ?_))
  refine wpAbs_bind (wpAbs_failIf (fun h => absurd hn (Nat.not_le.2 h)) (fun _ => ?_))
  refine wpAbs_ite (fun h0 => wpAbs_pure ⟨rfl, by rw [h0]; rfl⟩) (fun _ => ?_)
  refine wpAbs_elseDo (wpAbs_mono (fwp_extentResolve False False v id l) (fun e w h => ?_) (fun e w h => ?_))
  · obtain ⟨rfl, rec', attrs', hr', hblock⟩ := h
    rw [← (hr.unique hr').2] at hblock
    refine wpAbs_bind (wpAbs_orThrow (vwp_readBlock (wpAbs_pure ⟨rfl, ?_⟩) (fun hf => hf.elim (fun h => h) (fun h => h hs))))
    simp only [byteIn, hblock]
  · obtain ⟨rfl, herr⟩ := h
    refine wpAbs_pure ⟨rfl, ?_⟩
    rcases herr rec attrs hr hs with ⟨-, hnone⟩ | ⟨-, h⟩ | ⟨-, h⟩
    · simp only [byteIn, hnone]
      rw [List.map_const', List.length_range]
    · exact h.elim
    · exact h.elim

theorem chunkLen_spec (pos left : Nat) (h : 0 < left) : 0 < chunkLen pos left ∧ chunkLen pos left ≤ left ∧
    pos % blockSize + chunkLen pos left ≤ blockSize := by
  have hmod : pos % blockSize < blockSize := Nat.mod_lt _ (by decide)
  unfold chunkLen
  omega

theorem byteAt_chunk {pos n i : Nat} (hn : pos % blockSize + n ≤ blockSize) (hi : i < n) :
    byteIn other v attrs (pos / blockSize) (pos % blockSize + i) = byteAt other v attrs (pos + i) := by
  have hpos := Nat.div_add_mod pos blockSize
  have hsplit : pos + i = blockSize * (pos / blockSize) + (pos % blockSize + i) := by omega
  have hlt : pos % blockSize + i < blockSize := by omega
  have hblock : 0 < blockSize := by decide
  rw [byteAt, hsplit, Nat.mul_add_mod, Nat.mod_eq_of_lt hlt, Nat.mul_add_div hblock, Nat.div_eq_of_lt hlt, Nat.add_zero]

theorem fwp_readChunks (hr : v.RecordAt id rec attrs) (hs : v.sectorOk) (hwrap : offset + toRead < 2 ^ 64) :
    ∀ n done, done ≤ toRead → toRead - done < n → fwp False False (readChunks other id offset toRead n done)
      (fun bytes v' => v' = v ∧
        bytes = (List.range (toRead - done)).map (fun i => byteAt other v attrs (offset + done + i)))
      (fun _ _ => False) v
  | 0, _, _, hn => absurd hn (Nat.not_lt_zero _)
  | n + 1, done, hle, hn => by
    have ih := fwp_readChunks hr hs hwrap n
    rw [readChunks]
    refine wpAbs_ite (fun hlt => ?_) (fun hge => ?_)
    · have hadd : add64 offset done = offset + done := add64_of_lt (by omega)
      obtain ⟨hpos, hmax, hfits⟩ := chunkLen_spec (offset + done) (toRead - done) (by omega)
      rw [hadd]
      refine wpAbs_seq (fwp_blockReadByte hr hs hfits) (fun bytes w h => ?_) (fun _ _ h => h)
      obtain ⟨rfl, rfl⟩ := h
      rw [List.length_map, List.length_range]
      refine wpAbs_seq (ih _ (by omega) (by omega)) (fun rest w' h => ?_) (fun _ _ h => h)
      obtain ⟨rfl, rfl⟩ := h
      refine wpAbs_pure ⟨rfl, ?_⟩
      have hlen : toRead - done = chunkLen (offset + done) (toRead - done) +
          (toRead - (done + chunkLen (offset + done) (toRead - done))) := by omega
      conv_rhs => rw [hlen, List.range_add, List.map_append, List.map_map]
      congr 1
      · apply List.map_congr_left
        intro i hi
        exact byteAt_chunk hfits (List.mem_range.1 hi)
      · apply List.map_congr_left
        intro i _
        rw [Function.comp_apply]
        congr 1
        omega
    · rw [show toRead - done = 0 by omega]
      exact wpAbs_pure ⟨rfl, rfl⟩

/-- Where nothing fails, every read of the file gives the bytes at its positions, up to the size. -/
def Mount.ReadsAs (other : BlockData → Nat → UInt8) (s : Mount) (id size : Nat) (f : Nat → UInt8) : Prop :=
  ∀ offset len, offset + len < 2 ^ 64 → (smkfsRead other id offset len s.faultless).1 =
    .ok ((List.range (min len (size - offset))).map (fun i => f (offset + i)))

theorem fwp_smkfsRead (other : BlockData → Nat → UInt8) (hf : v.FileAt id rec attrs) (hs : v.sectorOk)
    (hm : v.mounted = true) (hid : id ≠ 0) {len : Nat} (hwrap : offset + len < 2 ^ 64) :
    fwp False False (smkfsRead other id offset len)
      (fun bytes _ => bytes = (List.range (min len (fileSize attrs - offset))).map
        (fun i => byteAt other v attrs (offset + i))) (fun _ _ => False) v := by
  have hadd : add64 offset len = offset + len := add64_of_lt hwrap
  unfold smkfsRead
  refine wpAbs_bind (vwp_getMem (wpAbs_bind (wpAbs_failIf (fun h => ?_) (fun _ => ?_))))
  · rw [hm] at h
    simp [hid] at h
  refine wpAbs_bind (wpAbs_orThrow (wpAbs_mono (fwp_recordRead_at False False v id) (fun x w h => ?_)
    (fun e w h => ?_)))
  · obtain ⟨rfl, hr⟩ := h
    obtain ⟨rec', attrs'⟩ := x
    obtain ⟨rfl, rfl⟩ := hf.toRecordAt.unique hr
    refine wpAbs_bind (wpAbs_failIf (fun h => h hf.file) (fun _ => wpAbs_ite (fun hpast => ?_) (fun hin => ?_)))
    · rw [show fileSize attrs - offset = 0 by omega, Nat.min_zero]
      exact wpAbs_pure rfl
    · have hread : (if fileSize attrs < add64 offset len then fileSize attrs - offset else len) =
          min len (fileSize attrs - offset) := by
        rw [hadd]
        split <;> omega
      rw [hread]
      have hfits : offset + min len (fileSize attrs - offset) < 2 ^ 64 := by omega
      exact wpAbs_mono (fwp_readChunks hf.toRecordAt hs hfits _ 0 (Nat.zero_le _) (by omega))
        (fun _ _ h => by rw [h.2]; rfl) (fun _ _ h => h)
  · rcases h.2 rec attrs hf.toRecordAt hs with ⟨-, h⟩ | ⟨-, h⟩
    · exact h.elim
    · exact h.elim

theorem readsAs_file (other : BlockData → Nat → UInt8) (hf : s.vol.FileAt id rec attrs) (hs : s.vol.sectorOk)
    (hm : s.mounted = true) (hid : id ≠ 0) :
    s.ReadsAs other id (fileSize attrs) (byteAt other s.vol attrs) := by
  intro offset len hwrap
  obtain ⟨hd, hh⟩ := faultless_reliable s
  have hspec := fwp_smkfsRead other (v := s.faultless.vol) hf hs hm hid hwrap
  have hpost := (fwp_apply (s := s.faultless) (P := fun r _ => r =
    .ok ((List.range (min len (fileSize attrs - offset))).map (fun i => byteAt other s.vol attrs (offset + i))))
    (wpAbs_mono hspec (fun _ _ h => by rw [h]; rfl) (fun _ _ h => h.elim)) ⟨fun h => hd h, fun h => hh h⟩).2
  exact hpost

theorem readsAs_unique {f g : Nat → UInt8} {size pos : Nat} (hf : s.ReadsAs other id size f)
    (hg : s.ReadsAs other id (fileSize attrs) g) (hsize : fileSize attrs < 2 ^ 64) (hpos : pos < fileSize attrs) :
    pos < size ∧ f pos = g pos := by
  have h := (hf pos 1 (by omega)).symm.trans (hg pos 1 (by omega))
  rw [show min 1 (fileSize attrs - pos) = 1 by omega] at h
  have hlist := Except.ok.inj h
  have hlen := congrArg List.length hlist
  simp only [List.length_map, List.length_range] at hlen
  rw [hlen] at hlist
  refine ⟨by omega, ?_⟩
  simpa using hlist

end

end SmkFs
end AmitX
