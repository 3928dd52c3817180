import AmitX.Amfs.Memory
/-!
# Indices — the buffers of the bitmap and of the path scanners

The bytes that `bitmap_alloc` and `bitmap_clear` use of the bitmap's buffer, and the bytes that `path_lookup` and
`path_lookup_parent` write to `name` and `parent_path`.
-/
namespace AmitX
namespace Amfs

open Run Bytes

inductive StackBuffer
  /-- `bitmap[AMFS_SECTOR_SIZE]`. -/
  | bitmap
  /-- `parent_path[128]`. -/
  | parentPath
  /-- `name[AMFS_NAME_LEN]`. -/
  | name
  deriving DecidableEq

def StackBuffer.size : StackBuffer → Nat
  | bitmap => 512
  | parentPath => 128
  | name => 30

/-- The first `n` bytes of a buffer. -/
def StackBuffer.upTo (b : StackBuffer) (n : Nat) : List (StackBuffer × Nat) := (List.range n).map (fun i => (b, i))

def InBuffers (l : List (StackBuffer × Nat)) : Prop := ∀ p ∈ l, p.2 < p.1.size

instance (l : List (StackBuffer × Nat)) : Decidable (InBuffers l) := inferInstanceAs (Decidable (∀ p ∈ l, p.2 < p.1.size))

/-- `bitmap_alloc` looks at the bits up to the first clear one, whose byte it writes. -/
def bitmapAllocUses (behind : Mem) (v : Volume) : List (StackBuffer × Nat) :=
  let bitmap := readSector behind v 1
  let turns :=
    match (List.range v.sb.dataBlockCount).find? (fun i => !testBit bitmap i) with
    | none => v.sb.dataBlockCount
    | some i => i + 1
  (List.range turns).map (fun i => (.bitmap, i / 8))

def bitmapClearUses (v : Volume) (block : Nat) : List (StackBuffer × Nat) :=
  if v.sb.dataBlockCount ≤ block then [] else [(.bitmap, block / 8)]

/-- A name is written with the zero behind it before its directory is searched. -/
def lookupFromUses (behind : Mem) (v : Volume) : Nat → List (List Byte) → List (StackBuffer × Nat)
  | _, [] => []
  | current, name :: names =>
    StackBuffer.name.upTo (name.length + 1) ++
      if (inodeRead v current).type ≠ typeDir then []
      else
        match dirFindEntry behind v current name with
        | none => []
        | some (n, _) => lookupFromUses behind v n names

def pathLookupUses (behind : Mem) (v : Volume) (path : List Byte) : List (StackBuffer × Nat) :=
  match path with
  | [] => []
  | c :: rest => if c = slash then lookupFromUses behind v v.sb.rootInode (components [] rest) else []

/-- `strncpy` fills 29 bytes, and a zero follows. -/
def pathLookupParentUses (behind : Mem) (v : Volume) (path : List Byte) : List (StackBuffer × Nat) :=
  if path.head? ≠ some slash ∨ path = [slash] ∨ lastName path = [] then []
  else if parentLength path = 0 then StackBuffer.name.upTo 30
  else if 128 < parentLength path then []
  else
    StackBuffer.parentPath.upTo (parentLength path + 1) ++ pathLookupUses behind v (path.take (parentLength path)) ++
      match pathLookup behind v (path.take (parentLength path)) with
      | none => []
      | some _ => StackBuffer.name.upTo 30

variable {v : Volume} {behind : Mem} {path : List Byte} {block n : Nat}

theorem inside_append {l l' : List (StackBuffer × Nat)} : InBuffers (l ++ l') ↔ InBuffers l ∧ InBuffers l' := List.forall_mem_append

theorem inside_upTo {b : StackBuffer} : InBuffers (b.upTo n) ↔ n ≤ b.size := by
  unfold StackBuffer.upTo InBuffers
  constructor
  · intro h
    cases n with
    | zero => exact Nat.zero_le _
    | succ k => exact h (b, k) (List.mem_map.2 ⟨k, List.mem_range.2 (Nat.lt_succ_self k), rfl⟩)
  · intro h p hp
    obtain ⟨i, hi, rfl⟩ := List.mem_map.1 hp
    exact Nat.lt_of_lt_of_le (List.mem_range.1 hi) h

/-! ## The bitmap -/

theorem inside_bytes : InBuffers ((List.range n).map (fun i => (.bitmap, i / 8))) ↔ n ≤ 4096 := by
  constructor
  · intro h
    cases n with
    | zero => exact Nat.zero_le _
    | succ k =>
      have hk : k / 8 < 512 := h (.bitmap, k / 8) (List.mem_map.2 ⟨k, List.mem_range.2 (Nat.lt_succ_self k), rfl⟩)
      omega
  · intro h p hp
    obtain ⟨i, hi, rfl⟩ := List.mem_map.1 hp
    have hi := List.mem_range.1 hi
    show i / 8 < 512
    omega

theorem testBit_readSector (hb : n < 4096) : testBit (readSector behind v 1) n = testBit (v.disk 1) n := by
  have hbyte : readSector behind v 1 (n / 8) = v.disk 1 (n / 8) := if_pos (by omega)
  unfold testBit
  rw [hbyte]

theorem inside_bitmapAlloc : InBuffers (bitmapAllocUses behind v) ↔
    v.sb.dataBlockCount ≤ 4096 ∨ ∃ b < 4096, testBit (v.disk 1) b = false := by
  unfold bitmapAllocUses
  dsimp only
  rw [inside_bytes]
  split
  case h_1 hnone =>
    refine ⟨Or.inl, fun h => h.elim id ?_⟩
    rintro ⟨b, hb, hclear⟩
    by_contra hlt
    have hset := List.find?_eq_none.1 hnone b (List.mem_range.2 (by omega))
    rw [testBit_readSector hb, hclear] at hset
    exact hset rfl
  case h_2 i hsome =>
    obtain ⟨hi, hmem, hbefore⟩ := List.find?_range_eq_some.1 hsome
    have hi' := List.mem_range.1 hmem
    show i + 1 ≤ 4096 ↔ _
    constructor
    · intro hle
      refine Or.inr ⟨i, by omega, ?_⟩
      rw [testBit_readSector (by omega)] at hi
      simpa using hi
    · rintro (hcount | ⟨b, hb, hclear⟩)
      · omega
      · by_contra hlt
        have hset := hbefore b (by omega)
        rw [testBit_readSector hb, hclear] at hset
        cases hset

theorem inside_bitmapClear : InBuffers (bitmapClearUses v block) ↔ block < 4096 ∨ v.sb.dataBlockCount ≤ block := by
  unfold bitmapClearUses
  split
  case isTrue h => exact ⟨fun _ => Or.inr h, fun _ p hp => by cases hp⟩
  case isFalse h =>
    constructor
    · intro hin
      have hlt : block / 8 < 512 := hin (.bitmap, block / 8) (List.mem_singleton_self _)
      exact Or.inl (by omega)
    · rintro hb p hp
      rw [List.mem_singleton.1 hp]
      show block / 8 < 512
      omega

/-! ## Paths -/

theorem length_components : ∀ {cs cur : List Byte}, cur.length ≤ 28 → ∀ name ∈ components cur cs, name.length ≤ 29
  | [], [], _, name, h => by cases h
  | [], c :: cur, hc, name, h => by
    rw [List.mem_singleton.1 h, List.length_reverse]
    omega
  | c :: cs, cur, hc, name, h => by
    rw [components] at h
    split at h
    case isTrue =>
      split at h
      case isTrue => exact length_components (by simp) name h
      case isFalse =>
        rcases List.mem_cons.1 h with rfl | h
        · rw [List.length_reverse]
          omega
        · exact length_components (by simp) name h
    case isFalse =>
      split at h
      case isTrue hlen =>
        rcases List.mem_cons.1 h with rfl | h
        · rw [List.length_reverse, List.length_cons]
          omega
        · exact length_components (by simp) name h
      case isFalse hlen => exact length_components (by rw [List.length_cons]; omega) name h

theorem inside_lookupFrom : ∀ {names : List (List Byte)} {current : Nat}, (∀ name ∈ names, name.length ≤ 29) →
    InBuffers (lookupFromUses behind v current names)
  | [], _, _ => fun p hp => by cases hp
  | name :: names, current, h => by
    have hnil : InBuffers [] := fun p hp => by cases hp
    have hname : name.length + 1 ≤ StackBuffer.name.size := Nat.succ_le_succ (h name List.mem_cons_self)
    unfold lookupFromUses
    refine inside_append.2 ⟨inside_upTo.2 hname, ?_⟩
    split
    case isTrue => exact hnil
    case isFalse =>
      split
      case h_1 => exact hnil
      case h_2 => exact inside_lookupFrom (fun c hc => h c (List.mem_cons_of_mem name hc))

theorem inside_pathLookup : InBuffers (pathLookupUses behind v path) := by
  have hnil : InBuffers [] := fun p hp => by cases hp
  unfold pathLookupUses
  split
  case h_1 => exact hnil
  case h_2 =>
    split
    case isTrue => exact inside_lookupFrom (length_components (Nat.zero_le 28))
    case isFalse => exact hnil

def ParentFills (path : List Byte) : Prop := path.head? = some slash ∧ lastName path ≠ [] ∧ parentLength path = 128

theorem inside_pathLookupParent : InBuffers (pathLookupParentUses behind v path) ↔ ¬ParentFills path := by
  have hnil : InBuffers [] := fun p hp => by cases hp
  have hname : InBuffers (StackBuffer.name.upTo 30) := inside_upTo.2 (Nat.le_refl 30)
  unfold pathLookupParentUses
  split
  case isTrue h =>
    refine ⟨fun _ hf => ?_, fun _ => hnil⟩
    rcases h with h | h | h
    · exact h hf.1
    · refine hf.2.1 ?_
      rw [h]
      rfl
    · exact hf.2.1 h
  case isFalse h =>
    obtain ⟨hhead, -, hlast⟩ : path.head? = some slash ∧ path ≠ [slash] ∧ lastName path ≠ [] :=
      ⟨by_contra fun hc => h (Or.inl hc), fun hc => h (Or.inr (Or.inl hc)), fun hc => h (Or.inr (Or.inr hc))⟩
    split
    case isTrue h0 => exact ⟨fun _ hf => by have := hf.2.2; omega, fun _ => hname⟩
    case isFalse h0 =>
      split
      case isTrue hlong => exact ⟨fun _ hf => by have := hf.2.2; omega, fun _ => hnil⟩
      case isFalse hlong =>
        rw [inside_append, inside_append, inside_upTo]
        have hrest : InBuffers (match pathLookup behind v (path.take (parentLength path)) with
            | none => []
            | some _ => StackBuffer.name.upTo 30) := by
          split
          case h_1 => exact hnil
          case h_2 => exact hname
        constructor
        · rintro ⟨⟨hlen, -⟩, -⟩ hf
          have hlen : parentLength path + 1 ≤ 128 := hlen
          have := hf.2.2
          omega
        · intro hf
          have hne : parentLength path ≠ 128 := fun hc => hf ⟨hhead, hlast, hc⟩
          refine ⟨⟨?_, inside_pathLookup⟩, hrest⟩
          show parentLength path + 1 ≤ 128
          omega

/-! ## The superblock -/

theorem sb_amfsMkfs {total : Nat} (behind : Mem) (v : Volume) (h : 12 ≤ total) :
    (amfsMkfs behind v total).2.sb = formatted total := by
  unfold amfsMkfs
  rw [if_neg (Nat.not_lt.2 h)]
  dsimp only
  rw [sb_inodeWrite, sb_zeroSectors]
  rfl

def AllInside (behind : Mem) (v : Volume) (block : Nat) (path : List Byte) : Prop :=
  InBuffers (bitmapAllocUses behind v) ∧ InBuffers (bitmapClearUses v block) ∧ InBuffers (pathLookupUses behind v path) ∧
    InBuffers (pathLookupParentUses behind v path)

/-- **The indices stay in their buffers** exactly when the volume has at most 4096 data blocks, or a clear bit is found
among the first 4096 and no later block is cleared, and the path of the parent does not fill its buffer.  The superblock is
the formatted one in every run, and nothing else is asked of the volume. -/
theorem all_inside_iff {total : Nat} (behind₀ : Mem) (v₀ : Volume) (h : 12 ≤ total) :
    (∀ calls, (run Call.run (amfsMkfs behind₀ v₀ total).2 calls).2.sb = formatted total) ∧
      ∀ v, v.sb = formatted total → ∀ behind block path, AllInside behind v block path ↔
        (total ≤ 4106 ∨ ∃ b < 4096, testBit (v.disk 1) b = false) ∧ (block < 4096 ∨ total - 10 ≤ block) ∧
          ¬ParentFills path := by
  refine ⟨fun calls => (congrArg Prod.fst (memory_run _ calls)).trans (sb_amfsMkfs behind₀ v₀ h), fun v hsb behind block path => ?_⟩
  have hcount : v.sb.dataBlockCount = total - 10 := by rw [hsb]; rfl
  have hsmall : total - 10 ≤ 4096 ↔ total ≤ 4106 := by omega
  unfold AllInside
  rw [inside_bitmapAlloc, inside_bitmapClear, inside_pathLookupParent, hcount, hsmall]
  exact ⟨fun ⟨h1, h2, _, h4⟩ => ⟨h1, h2, h4⟩, fun ⟨h1, h2, h4⟩ => ⟨h1, h2, inside_pathLookup, h4⟩⟩

theorem all_inside_iff_small :
    (∀ calls, (run Call.run (amfsMkfs (fun _ => 0) blankVolume 22).2 calls).2.sb = formatted 22) ∧
      ∀ v, v.sb = formatted 22 → ∀ behind block path, AllInside behind v block path ↔
        (22 ≤ 4106 ∨ ∃ b < 4096, testBit (v.disk 1) b = false) ∧ (block < 4096 ∨ 22 - 10 ≤ block) ∧ ¬ParentFills path :=
  all_inside_iff (fun _ => 0) blankVolume (by decide)

def fillingPath : List Byte := slash :: List.replicate 127 97 ++ [slash, 98]

/-- **The zero behind a parent's path of 128 characters is written behind its buffer**, on a volume right after the
format. -/
theorem not_all_inside : ¬∀ (behind : Mem) (v : Volume) (total : Nat) (calls : List Call) (block : Nat)
    (path : List Byte), 12 ≤ total → AllInside behind (run Call.run (amfsMkfs behind v total).2 calls).2 block path := by
  intro hall
  obtain ⟨-, -, -, hin⟩ := hall (fun _ => 0) blankVolume 22 [] 0 fillingPath (by decide)
  have hpath : (StackBuffer.parentPath, 128) ∈ pathLookupParentUses (fun _ => 0) smallVolume fillingPath := by decide +kernel
  exact absurd (hin _ hpath) (by decide)

end Amfs
end AmitX
