import AmitX.Exec.Loader
import AmitX.Exec.Loader2
/-!
# LoaderBounds — the buffers of the AMX loader

`exec_map` and `exec_relocate` with each access checked against the size that its buffer was allocated with.  The sizes
are 32-bit sums of independent fields of the header, and the offset of the table is compared with none of them.
-/
namespace AmitX
namespace Exec

open Bytes

/-- `memset` of `n` bytes to 0. -/
def Buf.clear (b : Buf) (a n : Nat) : Except Stop Buf :=
  if a + n ≤ b.size then .ok { b with bytes := fill b.bytes a n 0 } else .error .outside

/-- `malloc` of no bytes is NULL. -/
def Alloc.of (answer : Alloc) (n : Nat) : Alloc := if n = 0 then none else answer

def Loaded.file (ctx : Loaded) : Buf := ⟨totalSize ctx.header, ctx.fileImage⟩

def memorySize (h : AmxHeader) : Nat := (h.imageSize + h.bssSize) % 2 ^ 32

/-- `exec_map`, checked: the address and the memory of the image. -/
def execMapIn (image stack : Alloc) (ctx : Loaded) : Except Stop (Nat × Buf) :=
  match image.of (memorySize ctx.header) with
  | none => .error .failed
  | some (base, bytes) => do
    let memory : Buf := ⟨memorySize ctx.header, bytes⟩
    let memory ← memory.copyFrom 0 ctx.file ctx.header.imageOffset ctx.header.imageSize
    match stack.of ctx.header.stackSize with
    | none => .error .failed
    | some _ => return (base, ← memory.clear ctx.header.imageSize ctx.header.bssSize)

/-- One turn of the loop of `exec_relocate`, checked; `image` are the bytes before the BSS. -/
def relocateOneIn (ctx : Loaded) (base : Nat) (image : Buf) (i : Nat) : Except Stop Buf := do
  let r := ctx.header.relocOffset + i * amxRelocSize
  let offset ← ctx.file.get r 4
  failIf (ctx.header.imageSize ≤ offset)
  failIf (ctx.header.imageSize < offset + 4)
  let type ← ctx.file.get (r + 4) 2
  if type = amxRelocAbs32 then do
    let old ← image.get offset 4
    image.put offset 4 (old + base)
  else .error .failed

def execRelocateIn (ctx : Loaded) (mapped : Nat × Buf) : Except Stop Buf :=
  (List.range ctx.header.relocCount).foldlM (relocateOneIn ctx mapped.1) ⟨ctx.header.imageSize, mapped.2.bytes⟩

/-- **The loader stays in its buffers**: the buffer of the file has room for the image and the table, and with whatever
`malloc` answers no access of `exec_map` and `exec_relocate` leaves its buffer. -/
structure StaysIn (ctx : Loaded) : Prop where
  image : ctx.header.imageOffset + ctx.header.imageSize ≤ ctx.file.size
  table : ctx.header.relocOffset + ctx.header.relocCount * amxRelocSize ≤ ctx.file.size
  map : ∀ image stack, execMapIn image stack ctx ≠ .error .outside
  relocate : ∀ image stack mapped, execMapIn image stack ctx = .ok mapped → execRelocateIn ctx mapped ≠ .error .outside

/-- The sums of the sizes are 32-bit numbers, the one of the memory up to 2^32 itself, for which `malloc` answers NULL,
and the table does not begin behind the image. -/
def SizesFit (h : AmxHeader) : Prop :=
  h.imageOffset + h.imageSize + h.relocCount * amxRelocSize < 2 ^ 32 ∧ h.relocOffset ≤ h.imageOffset + h.imageSize ∧
    h.imageSize + h.bssSize ≤ 2 ^ 32

def HasFile (ctx : Loaded) (file : List Byte) : Prop :=
  ∀ i, (ctx.header.imageOffset ≤ i ∧ i < ctx.header.imageOffset + ctx.header.imageSize ∨
      ctx.header.relocOffset ≤ i ∧ i < ctx.header.relocOffset + ctx.header.relocCount * amxRelocSize) →
    i < file.length ∧ ctx.fileImage i = ofList file i

/-- `len < (int)total` finds a file that is too short: the total is not negative as an `int`, or the file is long
enough. -/
def LongEnough (h : AmxHeader) (file : List Byte) : Prop :=
  totalSize h < 2 ^ 31 ∨ h.imageOffset + h.imageSize ≤ file.length ∧
    (h.relocCount = 0 ∨ h.relocOffset + h.relocCount * amxRelocSize ≤ file.length)

section

variable {files : String → Option (List Byte)} {path : String} {malloc : Option Mem} {ctx : Loaded} {file : List Byte}
  {base : Nat} {mapped : Nat × Buf}

/-! ## `exec_load` -/

/-- What a context of `exec_load` has. -/
structure FromFile (file : List Byte) (ctx : Loaded) : Prop where
  header : readHeader (amfsReadBytes file amxHeaderSize (fun _ => 0)) = some ctx.header
  verified : verifyHeader ctx.header = .ok
  bytes : ∀ i < min file.length (totalSize ctx.header), ctx.fileImage i = ofList file i
  length : toInt32 (totalSize ctx.header) ≤ amfsReadCount file (totalSize ctx.header)

theorem execLoad_some (h : execLoad files path malloc = some ctx) : ∃ file, files path = some file ∧ FromFile file ctx := by
  unfold execLoad at h
  split at h
  case isTrue => cases h
  case isFalse =>
    split at h
    case h_1 => cases h
    case h_2 file hfile =>
      refine ⟨file, hfile, ?_⟩
      split at h
      case isTrue => cases h
      case isFalse =>
        split at h
        case h_1 => cases h
        case h_2 header hheader =>
          split at h
          case isTrue => cases h
          case isFalse hverify =>
            split at h
            case h_1 => cases h
            case h_2 buf =>
              split at h
              case isTrue => cases h
              case isFalse hlen =>
                injection h with h
                subst h
                refine ⟨hheader, not_not.1 hverify, fun i hi => ?_, Int.not_lt.1 hlen⟩
                have hi : i < min file.length (totalSize header) := hi
                exact (copy_of_mem (Nat.zero_le i) (by omega)).trans (by rw [Nat.sub_zero, Nat.zero_add])

theorem load_four_lt (m : Mem) (i : Nat) : load m i 4 < 2 ^ 32 := load_lt m 4 i

theorem FromFile.field (hf : FromFile file ctx) : ctx.header.imageOffset < 2 ^ 32 ∧ ctx.header.bssSize < 2 ^ 32 := by
  have hheader := hf.header
  unfold readHeader at hheader
  rw [if_neg (by decide)] at hheader
  injection hheader with hheader
  rw [← hheader]
  exact ⟨load_four_lt _ _, load_four_lt _ _⟩

theorem passed {c : Prop} [Decidable c] {x y : AmxStatus} (h : (if c then x else y) = .ok) (hx : x ≠ .ok) :
    ¬c ∧ y = .ok := by
  by_cases hc : c
  · rw [if_pos hc] at h
    exact absurd h hx
  · rw [if_neg hc] at h
    exact ⟨hc, h⟩

theorem verifyHeader_ok {h : AmxHeader} (hv : verifyHeader h = .ok) :
    0 < h.imageSize ∧ h.imageSize ≤ amxMaxImageSize ∧ (h.relocCount = 0 → h.relocOffset = 0) := by
  unfold verifyHeader at hv
  obtain ⟨-, hv⟩ := passed hv nofun
  obtain ⟨-, hv⟩ := passed hv nofun
  obtain ⟨-, hv⟩ := passed hv nofun
  obtain ⟨-, hv⟩ := passed hv nofun
  obtain ⟨-, hv⟩ := passed hv nofun
  obtain ⟨hsize, hv⟩ := passed hv nofun
  obtain ⟨-, hv⟩ := passed hv nofun
  obtain ⟨-, hv⟩ := passed hv nofun
  obtain ⟨-, hv⟩ := passed hv nofun
  obtain ⟨hmax, hv⟩ := passed hv nofun
  refine ⟨Nat.pos_of_ne_zero hsize, Nat.le_of_not_lt hmax, fun h0 => ?_⟩
  rw [if_pos h0] at hv
  exact not_not.1 (passed hv nofun).1

/-! ## The sizes -/

/-- **The buffer has room for image and table** exactly when the total does not wrap and the table begins no later than
behind the image. -/
theorem room_iff (ctx : Loaded) :
    ctx.header.imageOffset + ctx.header.imageSize ≤ ctx.file.size ∧
        ctx.header.relocOffset + ctx.header.relocCount * amxRelocSize ≤ ctx.file.size ↔
      ctx.header.imageOffset + ctx.header.imageSize + ctx.header.relocCount * amxRelocSize < 2 ^ 32 ∧
        ctx.header.relocOffset ≤ ctx.header.imageOffset + ctx.header.imageSize := by
  have hsize : ctx.file.size = (ctx.header.imageOffset + ctx.header.imageSize +
      ctx.header.relocCount * amxRelocSize) % 2 ^ 32 := rfl
  rw [hsize]
  generalize ctx.header.relocCount * amxRelocSize = table
  omega

theorem memory_of_wrap (hf : FromFile file ctx) (hwrap : 2 ^ 32 < ctx.header.imageSize + ctx.header.bssSize) :
    execMapIn (some (0, fun _ => 0)) (some (0, fun _ => 0)) ctx = .error .outside := by
  obtain ⟨-, hbss⟩ := hf.field
  obtain ⟨hpos, hmax, -⟩ := verifyHeader_ok hf.verified
  have hmax' : amxMaxImageSize = 2 ^ 24 := rfl
  have hmem : memorySize ctx.header = ctx.header.imageSize + ctx.header.bssSize - 2 ^ 32 := by
    unfold memorySize
    omega
  unfold execMapIn Alloc.of
  rw [if_neg (by omega)]
  dsimp only
  unfold Buf.copyFrom
  rw [if_neg (fun hroom => ?_)]
  · rfl
  · have hroom : 0 + ctx.header.imageSize ≤ memorySize ctx.header := hroom.1
    omega

theorem execMapIn_inside (hf : FromFile file ctx) (hroom : ctx.header.imageOffset + ctx.header.imageSize ≤ ctx.file.size)
    (hmem : ctx.header.imageSize + ctx.header.bssSize ≤ 2 ^ 32) (image stack : Alloc) :
    execMapIn image stack ctx ≠ .error .outside := by
  obtain ⟨hpos, -⟩ := verifyHeader_ok hf.verified
  have hnone : (.error .failed : Except Stop (Nat × Buf)) ≠ .error .outside := nofun
  unfold execMapIn
  by_cases h0 : memorySize ctx.header = 0
  · unfold Alloc.of
    rw [if_pos h0]
    exact hnone
  · have hsize : memorySize ctx.header = ctx.header.imageSize + ctx.header.bssSize := by
      unfold memorySize at h0 ⊢
      omega
    unfold Alloc.of
    rw [if_neg h0]
    cases image with
    | none => exact hnone
    | some a =>
      have hcopy : 0 + ctx.header.imageSize ≤ memorySize ctx.header ∧
          ctx.header.imageOffset + ctx.header.imageSize ≤ ctx.file.size := ⟨by omega, hroom⟩
      have hclear : ctx.header.imageSize + ctx.header.bssSize ≤ memorySize ctx.header := by omega
      dsimp only
      unfold Buf.copyFrom
      rw [if_pos hcopy]
      by_cases hs : ctx.header.stackSize = 0
      · rw [if_pos hs]
        exact hnone
      · rw [if_neg hs]
        cases stack with
        | none => exact hnone
        | some b =>
          dsimp only [bind, Except.bind]
          unfold Buf.clear
          rw [if_pos hclear]
          exact nofun

theorem relocateOneIn_inside {image : Buf} {i : Nat} (hsize : image.size = ctx.header.imageSize)
    (hi : i < ctx.header.relocCount)
    (htable : ctx.header.relocOffset + ctx.header.relocCount * amxRelocSize ≤ ctx.file.size) :
    relocateOneIn ctx base image i = .error .failed ∨
      ∃ image', relocateOneIn ctx base image i = .ok image' ∧ image'.size = ctx.header.imageSize := by
  have hentry : (i + 1) * amxRelocSize ≤ ctx.header.relocCount * amxRelocSize := Nat.mul_le_mul_right _ hi
  have hrel : amxRelocSize = 8 := rfl
  have hget : ∀ a n, a + n ≤ ctx.header.relocOffset + (i + 1) * amxRelocSize → ctx.file.get a n =
      .ok (load ctx.fileImage a n) := fun a n hle => if_pos (Nat.le_trans hle (by omega))
  have hsucc : (i + 1) * amxRelocSize = i * amxRelocSize + 8 := Nat.succ_mul i amxRelocSize
  have hoffset := hget (ctx.header.relocOffset + i * amxRelocSize) 4 (by omega)
  have htype := hget (ctx.header.relocOffset + i * amxRelocSize + 4) 2 (by omega)
  unfold relocateOneIn failIf
  dsimp only
  rw [hoffset, htype]
  dsimp only [bind, Except.bind]
  by_cases h1 : ctx.header.imageSize ≤ load ctx.fileImage (ctx.header.relocOffset + i * amxRelocSize) 4
  · rw [if_pos h1]
    exact Or.inl rfl
  rw [if_neg h1]
  by_cases h2 : ctx.header.imageSize < load ctx.fileImage (ctx.header.relocOffset + i * amxRelocSize) 4 + 4
  · rw [if_pos h2]
    exact Or.inl rfl
  rw [if_neg h2]
  dsimp only
  by_cases h3 : load ctx.fileImage (ctx.header.relocOffset + i * amxRelocSize + 4) 2 = amxRelocAbs32
  · have hword : load ctx.fileImage (ctx.header.relocOffset + i * amxRelocSize) 4 + 4 ≤ image.size := by omega
    unfold Buf.get Buf.put
    rw [if_pos h3, if_pos hword]
    dsimp only
    rw [if_pos hword]
    exact Or.inr ⟨_, rfl, hsize⟩
  · rw [if_neg h3]
    exact Or.inl rfl

/-- **`exec_relocate` stays in its buffers** when the buffer has the table: by induction over the turns, each of which
keeps the size of the image. -/
theorem execRelocateIn_inside (htable : ctx.header.relocOffset + ctx.header.relocCount * amxRelocSize ≤ ctx.file.size)
    (mapped : Nat × Buf) : execRelocateIn ctx mapped ≠ .error .outside := by
  have hloop : ∀ (is : List Nat) (image : Buf), image.size = ctx.header.imageSize →
      (∀ i ∈ is, i < ctx.header.relocCount) → is.foldlM (relocateOneIn ctx mapped.1) image ≠ .error .outside := by
    intro is
    induction is with
    | nil => exact fun _ _ _ => nofun
    | cons i is ih =>
      intro image hsize his
      rw [List.foldlM_cons]
      rcases @relocateOneIn_inside ctx mapped.1 image i hsize (his i List.mem_cons_self) htable with hfail | ⟨image', hok, hsize'⟩
      · rw [hfail]
        exact nofun
      · rw [hok]
        exact ih image' hsize' (fun j hj => his j (List.mem_cons_of_mem i hj))
  exact hloop _ _ rfl (fun i hi => List.mem_range.1 hi)

theorem staysIn_iff (hf : FromFile file ctx) : StaysIn ctx ↔ SizesFit ctx.header := by
  constructor
  · intro hin
    obtain ⟨htotal, htable⟩ := (room_iff ctx).1 ⟨hin.image, hin.table⟩
    refine ⟨htotal, htable, Nat.le_of_not_lt (fun hwrap => ?_)⟩
    exact hin.map _ _ (memory_of_wrap hf hwrap)
  · rintro ⟨htotal, htable, hmem⟩
    obtain ⟨himage, htable⟩ := (room_iff ctx).2 ⟨htotal, htable⟩
    exact ⟨himage, htable, execMapIn_inside hf himage hmem, fun _ _ mapped _ => execRelocateIn_inside htable mapped⟩

theorem hasFile_iff (hf : FromFile file ctx) (hin : StaysIn ctx) : HasFile ctx file ↔ LongEnough ctx.header file := by
  obtain ⟨hpos, -⟩ := verifyHeader_ok hf.verified
  have himage := hin.image
  have htable := hin.table
  have hsize : ctx.file.size = totalSize ctx.header := rfl
  rw [hsize] at himage htable
  have hrel : amxRelocSize = 8 := rfl
  constructor
  · intro hhas
    refine Or.inr ⟨?_, ?_⟩
    · obtain ⟨hlt, -⟩ := hhas (ctx.header.imageOffset + ctx.header.imageSize - 1) (Or.inl (by omega))
      omega
    · rcases Nat.eq_zero_or_pos ctx.header.relocCount with h0 | hcount
      · exact Or.inl h0
      · have hentries : 1 * amxRelocSize ≤ ctx.header.relocCount * amxRelocSize := Nat.mul_le_mul_right _ hcount
        obtain ⟨hlt, -⟩ := hhas (ctx.header.relocOffset + ctx.header.relocCount * amxRelocSize - 1) (Or.inr (by omega))
        exact Or.inr (by omega)
  · intro hlong i hi
    have hends : i < file.length := by
      rcases hlong with hsmall | ⟨himg, htbl⟩
      · -- the whole total was read
        have hlen := hf.length
        unfold toInt32 amfsReadCount at hlen
        rw [if_pos hsmall] at hlen
        split at hlen
        case isTrue h0 => omega
        case isFalse =>
          have hread : totalSize ctx.header ≤ min file.length (totalSize ctx.header) := Int.ofNat_le.1 hlen
          omega
      · rcases hi with hi | hi
        · omega
        · rcases htbl with h0 | hle
          · rw [h0] at hi
            omega
          · omega
    exact ⟨hends, hf.bytes i (by omega)⟩

/-! ## The unchecked calls -/

theorem execMap_of_in {image stack : Alloc} (h : execMapIn image stack ctx = .ok mapped) :
    execMap image (stack.map Prod.snd) ctx = some ⟨ctx.header, ctx.fileImage, mapped.1, mapped.2.bytes⟩ := by
  unfold execMapIn Alloc.of at h
  by_cases h0 : memorySize ctx.header = 0
  · rw [if_pos h0] at h
    cases h
  rw [if_neg h0] at h
  cases image with
  | none => cases h
  | some a =>
    dsimp only at h
    unfold Buf.copyFrom at h
    by_cases hcopy : 0 + ctx.header.imageSize ≤ memorySize ctx.header ∧
        ctx.header.imageOffset + ctx.header.imageSize ≤ ctx.file.size
    · rw [if_pos hcopy] at h
      by_cases hs : ctx.header.stackSize = 0
      · rw [if_pos hs] at h
        cases h
      rw [if_neg hs] at h
      cases stack with
      | none => cases h
      | some b =>
        dsimp only [bind, Except.bind] at h
        unfold Buf.clear at h
        by_cases hclear : ctx.header.imageSize + ctx.header.bssSize ≤ memorySize ctx.header
        · rw [if_pos hclear] at h
          injection h with h
          subst h
          rfl
        · rw [if_neg hclear] at h
          cases h
    · rw [if_neg hcopy] at h
      cases h

theorem relocateOne_of_in {image image' : Buf} {i : Nat} (h : relocateOneIn ctx base image i = .ok image') {memory : Mem} :
    relocateOne ⟨ctx.header, ctx.fileImage, base, memory⟩ image.bytes i = some image'.bytes := by
  have hget : ∀ {b : Buf} {a n v : Nat}, b.get a n = .ok v → v = load b.bytes a n := by
    intro b a n v hv
    unfold Buf.get at hv
    by_cases hin : a + n ≤ b.size
    · rw [if_pos hin] at hv
      injection hv with hv
      exact hv.symm
    · rw [if_neg hin] at hv
      cases hv
  unfold relocateOneIn failIf at h
  dsimp only at h
  cases hoffset : ctx.file.get (ctx.header.relocOffset + i * amxRelocSize) 4 with
  | error e =>
    rw [hoffset] at h
    cases h
  | ok offset =>
    have hoff : offset = load ctx.fileImage (ctx.header.relocOffset + i * amxRelocSize) 4 := hget hoffset
    rw [hoffset] at h
    dsimp only [bind, Except.bind] at h
    by_cases h1 : ctx.header.imageSize ≤ offset
    · rw [if_pos h1] at h
      cases h
    rw [if_neg h1] at h
    by_cases h2 : ctx.header.imageSize < offset + 4
    · rw [if_pos h2] at h
      cases h
    rw [if_neg h2] at h
    dsimp only at h
    cases htype : ctx.file.get (ctx.header.relocOffset + i * amxRelocSize + 4) 2 with
    | error e =>
      rw [htype] at h
      cases h
    | ok type =>
      have hty : type = load ctx.fileImage (ctx.header.relocOffset + i * amxRelocSize + 4) 2 := hget htype
      rw [htype] at h
      dsimp only at h
      by_cases h3 : type = amxRelocAbs32
      · rw [if_pos h3] at h
        cases hold : image.get offset 4 with
        | error e =>
          rw [hold] at h
          cases h
        | ok old =>
          rw [hold] at h
          dsimp only at h
          unfold Buf.put at h
          by_cases hput : offset + 4 ≤ image.size
          · rw [if_pos hput] at h
            injection h with h
            unfold relocateOne
            dsimp only
            rw [← hoff, ← hty, if_neg h1, if_neg h2, if_pos h3, ← hget hold, ← h]
          · rw [if_neg hput] at h
            cases h
      · rw [if_neg h3] at h
        cases h

theorem execRelocate_of_in {image : Buf} (h : execRelocateIn ctx mapped = .ok image) :
    execRelocate ⟨ctx.header, ctx.fileImage, mapped.1, mapped.2.bytes⟩ = some image.bytes := by
  have hloop : ∀ (is : List Nat) (b : Buf), is.foldlM (relocateOneIn ctx mapped.1) b = .ok image →
      is.foldlM (relocateOne ⟨ctx.header, ctx.fileImage, mapped.1, mapped.2.bytes⟩) b.bytes = some image.bytes := by
    intro is
    induction is with
    | nil =>
      intro b hb
      injection hb with hb
      rw [← hb]
      rfl
    | cons i is ih =>
      intro b hb
      rw [List.foldlM_cons] at hb ⊢
      cases hone : relocateOneIn ctx mapped.1 b i with
      | error e =>
        rw [hone] at hb
        cases hb
      | ok b' =>
        rw [hone] at hb
        rw [relocateOne_of_in hone]
        exact ih b' hb
  exact hloop (List.range ctx.header.relocCount) ⟨ctx.header.imageSize, mapped.2.bytes⟩ h

/-- **The AMX loader stays in its buffers exactly when the sizes of the header fit**, for every file that `exec_load`
accepts; the buffer then has the bytes of the file exactly when the file is long enough. -/
theorem loader_staysIn_iff (h : execLoad files path malloc = some ctx) : (StaysIn ctx ↔ SizesFit ctx.header) ∧
    ∃ file, files path = some file ∧ (StaysIn ctx → (HasFile ctx file ↔ LongEnough ctx.header file)) := by
  obtain ⟨file, hfile, hf⟩ := execLoad_some h
  exact ⟨staysIn_iff hf, file, hfile, hasFile_iff hf⟩

end

/-- A program of four bytes with one relocation, whose table is said to be at `relocOffset`. -/
def fourBytes (relocOffset : Nat) : List Byte :=
  amxMagic ++ bytesOf 2 1 ++ bytesOf 2 0 ++ bytesOf 4 104 ++ bytesOf 4 4 ++ bytesOf 4 0 ++ bytesOf 4 0 ++ bytesOf 4 4096 ++
    bytesOf 4 relocOffset ++ bytesOf 4 1 ++ List.replicate 68 0 ++ bytesOf 4 0 ++ bytesOf 8 0

theorem fourBytes_loaded (relocOffset : Nat) (h : relocOffset = 108 ∨ relocOffset = 1000) :
    ∃ ctx, execLoad (fun _ => some (fourBytes relocOffset)) "/p" (some fun _ => 0) = some ctx ∧
      ctx.header.relocOffset = relocOffset ∧ ctx.header.imageOffset + ctx.header.imageSize = 108 := by
  have hload : (execLoad (fun _ => some (fourBytes relocOffset)) "/p" (some fun _ => 0)).map
      (fun ctx => (ctx.header.relocOffset, ctx.header.imageOffset + ctx.header.imageSize)) = some (relocOffset, 108) := by
    rcases h with rfl | rfl <;> decide +kernel
  obtain ⟨ctx, hctx, he⟩ := Option.map_eq_some_iff.1 hload
  injection he with h1 h2
  exact ⟨ctx, hctx, h1, h2⟩

theorem loader_staysIn_iff_fourBytes :
    ∃ ctx, execLoad (fun _ => some (fourBytes 108)) "/p" (some fun _ => 0) = some ctx ∧
      (StaysIn ctx ↔ SizesFit ctx.header) ∧ ∃ file, some (fourBytes 108) = some file ∧
        (StaysIn ctx → (HasFile ctx file ↔ LongEnough ctx.header file)) := by
  obtain ⟨ctx, hctx, -⟩ := fourBytes_loaded 108 (Or.inl rfl)
  exact ⟨ctx, hctx, loader_staysIn_iff hctx⟩

/-- **The table of a program that is accepted may lie behind the buffer.** -/
theorem not_loader_staysIn : ¬∀ (files : String → Option (List Byte)) (path : String) (malloc : Option Mem)
    (ctx : Loaded), execLoad files path malloc = some ctx → StaysIn ctx := by
  intro hall
  obtain ⟨ctx, hctx, hoffset, himage⟩ := fourBytes_loaded 1000 (Or.inr rfl)
  obtain ⟨-, hle⟩ := (room_iff ctx).1 ⟨(hall _ _ _ ctx hctx).image, (hall _ _ _ ctx hctx).table⟩
  omega

end Exec
end AmitX
