import AmitX.SmkFs.Drive
/-!
# Sectors — the sectors of a block (`disk_read_block`, `disk_write_block` of `block.c`)

A block is transferred sector by sector.  The number of sectors is kept in a byte and the address of the first one in
32 bits; neither is checked, and `smkfs_mkfs` takes any sector size.  The log holds the requests to the driver.
-/
namespace AmitX
namespace SmkFs
namespace Sectors

open Prog

/-- A request for one sector: its address, and the place of its bytes in the caller's buffer. -/
structure Request where
  lba : Nat
  place : Nat
  deriving DecidableEq

inductive BlockErr
  | divideByZero | io
  deriving DecidableEq

structure Ide where
  requests : List Request
  /-- The answers of the driver to come; past its end they are good. -/
  answers : List Bool

abbrev IdeM := Prog Ide BlockErr

/-- `ide_read_sectors` or `ide_write_sectors` of one sector. -/
def ideSector (lba place : Nat) : IdeM Unit := fun d =>
  match d.answers with
  | false :: answers => (.error .io, ⟨d.requests ++ [⟨lba, place⟩], answers⟩)
  | answers => (.ok (), ⟨d.requests ++ [⟨lba, place⟩], answers.tail⟩)

/-- `UCHAR sectors`. -/
def blockSectors (sectorSize : Nat) : Nat := blockSize / sectorSize % 2 ^ 8

/-- `ULONG lba`. -/
def blockLba (sectorSize block : Nat) : Nat := block * blockSectors sectorSize % 2 ^ 32

def transferBlock (sectorSize block : Nat) : IdeM Unit := do
  failIf (sectorSize = 0) .divideByZero
  failIf (blockSize % sectorSize ≠ 0) .io
  forRange (fun i => ideSector ((blockLba sectorSize block + i) % 2 ^ 32) (i * sectorSize)) 0 (blockSectors sectorSize)

def diskReadBlock (sectorSize block : Nat) : IdeM Unit := transferBlock sectorSize block

def diskWriteBlock (sectorSize block : Nat) : IdeM Unit := transferBlock sectorSize block

def requestsOf (sectorSize block : Nat) : List Request :=
  (List.range (blockSectors sectorSize)).map
    (fun i => ⟨(blockLba sectorSize block + i) % 2 ^ 32, i * sectorSize⟩)

section

variable {ss block total : Nat}

theorem forRange_ideSector (lba ss : Nat) : ∀ (n i : Nat) (requests : List Request),
    forRange (fun i => ideSector ((lba + i) % 2 ^ 32) (i * ss)) i n ⟨requests, []⟩ =
      (.ok (), ⟨requests ++ (List.range' i n).map (fun i => ⟨(lba + i) % 2 ^ 32, i * ss⟩), []⟩)
  | 0, i, requests => by
    rw [List.range'_zero, List.map_nil, List.append_nil]
    rfl
  | n + 1, i, requests => by
    have hstep : ideSector ((lba + i) % 2 ^ 32) (i * ss) ⟨requests, []⟩ =
        (.ok (), ⟨requests ++ [⟨(lba + i) % 2 ^ 32, i * ss⟩], []⟩) := rfl
    rw [forRange, bind_of_ok hstep, forRange_ideSector lba ss n (i + 1), List.range'_succ, List.map_cons,
      List.append_assoc, List.singleton_append]

theorem transferBlock_eq (h0 : ss ≠ 0) (hdvd : blockSize % ss = 0) :
    transferBlock ss block ⟨[], []⟩ = (.ok (), ⟨requestsOf ss block, []⟩) := by
  have hzero : failIf (ss = 0) BlockErr.divideByZero ⟨[], []⟩ = (.ok (), (⟨[], []⟩ : Ide)) := by
    rw [failIf, if_neg h0]
    rfl
  have hmod : failIf (blockSize % ss ≠ 0) BlockErr.io ⟨[], []⟩ = (.ok (), (⟨[], []⟩ : Ide)) := by
    rw [failIf, if_neg (not_not.2 hdvd)]
    rfl
  rw [transferBlock, bind_of_ok hzero, bind_of_ok hmod, forRange_ideSector, requestsOf, List.range_eq_range',
    List.nil_append]

theorem transferBlock_refused (h : ss = 0 ∨ blockSize % ss ≠ 0) :
    ∃ e, transferBlock ss block ⟨[], []⟩ = (.error e, ⟨[], []⟩) := by
  by_cases h0 : ss = 0
  · refine ⟨.divideByZero, ?_⟩
    have hzero : failIf (ss = 0) BlockErr.divideByZero ⟨[], []⟩ = (.error .divideByZero, (⟨[], []⟩ : Ide)) := by
      rw [failIf, if_pos h0]
      rfl
    rw [transferBlock, bind_of_error hzero]
  · refine ⟨.io, ?_⟩
    have hzero : failIf (ss = 0) BlockErr.divideByZero ⟨[], []⟩ = (.ok (), (⟨[], []⟩ : Ide)) := by
      rw [failIf, if_neg h0]
      rfl
    have hmod : failIf (blockSize % ss ≠ 0) BlockErr.io ⟨[], []⟩ = (.error .io, (⟨[], []⟩ : Ide)) := by
      rw [failIf, if_pos (h.resolve_left h0)]
      rfl
    rw [transferBlock, bind_of_ok hzero, bind_of_error hmod]

/-- The sectors `[first, first + count)` go one after the other to a buffer of 4096 bytes. -/
def Covers (ss first count : Nat) (requests : List Request) : Prop :=
  count * ss = blockSize ∧ requests = (List.range count).map (fun i => ⟨first + i, i * ss⟩)

/-- What the transfers of a volume must address: each block of it all the sectors of its own bytes, counted and
addressed without a loss, and different blocks different sectors. -/
structure OwnSectors (transfer : Nat → Nat → IdeM Unit) (total ss : Nat) : Prop where
  whole : ∀ block < total, ∃ requests, transfer ss block ⟨[], []⟩ = (.ok (), ⟨requests, []⟩) ∧
    Covers ss (block * (blockSize / ss)) (blockSize / ss) requests
  apart : ∀ b < total, ∀ b' < total, b ≠ b' → ∀ rs rs', (transfer ss b ⟨[], []⟩).2 = ⟨rs, []⟩ →
    (transfer ss b' ⟨[], []⟩).2 = ⟨rs', []⟩ → ∀ r ∈ rs, ∀ r' ∈ rs', r.lba ≠ r'.lba

/-- The sectors of a block can be counted in a byte, and those of the volume addressed in 32 bits. -/
def SectorsFit (total ss : Nat) : Prop :=
  ss ≠ 0 ∧ blockSize % ss = 0 ∧ blockSize / ss < 2 ^ 8 ∧ total * (blockSize / ss) ≤ 2 ^ 32

instance (total ss : Nat) : Decidable (SectorsFit total ss) := inferInstanceAs (Decidable (_ ∧ _ ∧ _ ∧ _))

theorem SectorsFit.requestsOf (h : SectorsFit total ss) (hb : block < total) :
    requestsOf ss block = (List.range (blockSize / ss)).map
      (fun i => ⟨block * (blockSize / ss) + i, i * ss⟩) := by
  obtain ⟨-, -, hcount, htotal⟩ := h
  have hsectors : blockSectors ss = blockSize / ss := Nat.mod_eq_of_lt hcount
  rw [Sectors.requestsOf, blockLba, hsectors]
  refine List.map_congr_left (fun i hi => ?_)
  have hi := List.mem_range.1 hi
  have hend : (block + 1) * (blockSize / ss) ≤ 2 ^ 32 := (Nat.mul_le_mul_right _ hb).trans htotal
  rw [Nat.add_mul, Nat.one_mul] at hend
  rw [Nat.mod_eq_of_lt (a := block * (blockSize / ss)) (by omega), Nat.mod_eq_of_lt (by omega)]

theorem SectorsFit.ownSectors (h : SectorsFit total ss) : OwnSectors transferBlock total ss := by
  have hrun : ∀ b, transferBlock ss b ⟨[], []⟩ = (.ok (), ⟨Sectors.requestsOf ss b, []⟩) :=
    fun b => transferBlock_eq h.1 h.2.1
  refine ⟨fun b hb => ⟨_, hrun b, Nat.div_mul_cancel (Nat.dvd_of_mod_eq_zero h.2.1), h.requestsOf hb⟩, ?_⟩
  intro b hb b' hb' hne rs rs' hrs hrs' r hr r' hr'
  rw [hrun] at hrs hrs'
  cases hrs
  cases hrs'
  rw [h.requestsOf hb] at hr
  rw [h.requestsOf hb'] at hr'
  obtain ⟨i, hi, rfl⟩ := List.mem_map.1 hr
  obtain ⟨j, hj, rfl⟩ := List.mem_map.1 hr'
  have hi := List.mem_range.1 hi
  have hj := List.mem_range.1 hj
  -- the block is the quotient of the address
  have hquot : ∀ {b i : Nat}, i < blockSize / ss → (b * (blockSize / ss) + i) / (blockSize / ss) = b := by
    intro b i hi
    rw [Nat.mul_comm, Nat.mul_add_div (by omega), Nat.div_eq_of_lt hi, Nat.add_zero]
  intro heq
  have heq : b * (blockSize / ss) + i = b' * (blockSize / ss) + j := heq
  have hdiv := congrArg (· / (blockSize / ss)) heq
  exact hne ((hquot hi).symm.trans (hdiv.trans (hquot hj)))

theorem sectorsFit_of_ownSectors (htotal : 0 < total) (h : OwnSectors transferBlock total ss) : SectorsFit total ss := by
  obtain ⟨requests, hrun, hsize, hrequests⟩ := h.whole (total - 1) (by omega)
  have hok : ss ≠ 0 ∧ blockSize % ss = 0 := by
    by_contra hno
    obtain ⟨e, he⟩ := @transferBlock_refused ss (total - 1) (by
      by_cases h0 : ss = 0
      · exact Or.inl h0
      · exact Or.inr (fun hmod => hno ⟨h0, hmod⟩))
    rw [he] at hrun
    cases hrun
  obtain ⟨h0, hdvd⟩ := hok
  rw [transferBlock_eq h0 hdvd] at hrun
  obtain rfl : requestsOf ss (total - 1) = requests := by
    cases hrun
    rfl
  have hlen := congrArg List.length hrequests
  rw [requestsOf, List.length_map, List.length_map, List.length_range, List.length_range] at hlen
  have hcount : blockSize / ss < 2 ^ 8 := by
    rw [← hlen]
    exact Nat.mod_lt _ (by decide)
  have hpos : 0 < blockSize / ss := by
    rcases Nat.eq_zero_or_pos (blockSize / ss) with h | h
    · rw [h, Nat.zero_mul] at hsize
      cases hsize
    · exact h
  refine ⟨h0, hdvd, hcount, ?_⟩
  -- the address of the last sector of the last block is below `2 ^ 32`
  have hlast : ((⟨(total - 1) * (blockSize / ss) + (blockSize / ss - 1), (blockSize / ss - 1) * ss⟩ : Request)) ∈
      requestsOf ss (total - 1) := by
    rw [hrequests]
    exact List.mem_map.2 ⟨blockSize / ss - 1, List.mem_range.2 (by omega), rfl⟩
  obtain ⟨i, -, hi⟩ := List.mem_map.1 hlast
  have hlba := congrArg Request.lba hi
  have hlt : (blockLba ss (total - 1) + i) % 2 ^ 32 < 2 ^ 32 := Nat.mod_lt _ (by decide)
  dsimp only at hlba
  rw [hlba] at hlt
  have hsucc : total * (blockSize / ss) = (total - 1) * (blockSize / ss) + blockSize / ss := by
    rw [← Nat.succ_mul, Nat.succ_eq_add_one, Nat.sub_add_cancel htotal]
  omega

/-- **Distinct blocks have sectors of their own** on a volume of a size that `smkfs_mkfs` takes, exactly where the sector
size divides 4096, a byte can count the sectors of a block, and 32 bits can address those of the volume. -/
theorem own_sectors_iff (total ss : Nat) (h : 16 ≤ total) :
    (OwnSectors diskReadBlock total ss ∧ OwnSectors diskWriteBlock total ss) ↔ SectorsFit total ss :=
  ⟨fun h' => sectorsFit_of_ownSectors (by omega) h'.1, fun h' => ⟨h'.ownSectors, h'.ownSectors⟩⟩

theorem own_sectors_small : OwnSectors diskReadBlock 16 512 ∧ OwnSectors diskWriteBlock 16 512 :=
  (own_sectors_iff 16 512 (by decide)).2 (by decide)

/-- **Block 2 ^ 29 has the sectors of block 0** on a disk with sectors of 512 bytes. -/
theorem not_own_sectors : ¬∀ total ss : Nat, 16 ≤ total →
    OwnSectors diskReadBlock total ss ∧ OwnSectors diskWriteBlock total ss := by
  intro hall
  have h := (hall (2 ^ 29 + 1) 512 (by decide)).1
  refine h.apart (2 ^ 29) (by decide) 0 (by decide) (by decide) _ _
    (congrArg Prod.snd (transferBlock_eq (by decide) (by decide)))
    (congrArg Prod.snd (transferBlock_eq (by decide) (by decide))) ⟨0, 0⟩ ?_ ⟨0, 0⟩ ?_ rfl
  · exact List.mem_map.2 ⟨0, by decide, by decide⟩
  · exact List.mem_map.2 ⟨0, by decide, by decide⟩

end

end Sectors
end SmkFs
end AmitX
