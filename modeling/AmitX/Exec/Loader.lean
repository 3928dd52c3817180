import AmitX.Exec.Assembler
/-!
# Loader — loading, mapping and relocating an AMX program (`loader.c`)

The answers of `malloc` are parameters, with what the memory held before.  `none` is a return of -1.  A file of the
assembler is accepted unless it has no relocations: its header then still has the offset of a table.
-/
namespace AmitX
namespace Exec

open Bytes

/-- What the three calls of `malloc` return: the buffer of the file, the image with its address, and the stack. -/
structure Mallocs where
  file : Option Mem
  image : Option (Nat × Mem)
  stack : Option Mem

/-- The context after `exec_load`. -/
structure Loaded where
  header : AmxHeader
  fileImage : Mem

/-- The context after `exec_map`; the addresses of `image` are those behind `imageBase`. -/
structure Mapped where
  header : AmxHeader
  fileImage : Mem
  imageBase : Nat
  image : Mem

/-- What `amfs_read` returns for a file with these bytes. -/
def amfsReadCount (file : List Byte) (n : Nat) : Int := if n = 0 then -1 else (min file.length n : Nat)

/-- The bytes `amfs_read` leaves in the buffer. -/
def amfsReadBytes (file : List Byte) (n : Nat) (buf : Mem) : Mem := copy buf 0 (ofList file) 0 (min file.length n)

def totalSize (h : AmxHeader) : Nat := (h.imageOffset + h.imageSize + h.relocCount * amxRelocSize) % 2 ^ 32

/-- `files` has the bytes of the files that exist. -/
def execLoad (files : String → Option (List Byte)) (path : String) (malloc : Option Mem) : Option Loaded :=
  if path.toList.head? ≠ some '/' ∨ path = "/" then none
  else
    match files path with
    | none => none
    | some file =>
      if amfsReadCount file amxHeaderSize < amxHeaderSize then none
      else
        match readHeader (amfsReadBytes file amxHeaderSize (fun _ => 0)) with
        | none => none
        | some header =>
          if verifyHeader header ≠ .ok then none
          else
            match malloc with
            | none => none
            | some buf =>
              if amfsReadCount file (totalSize header) < toInt32 (totalSize header) then none
              else some ⟨header, amfsReadBytes file (totalSize header) buf⟩

def execMap (image : Option (Nat × Mem)) (stack : Option Mem) (ctx : Loaded) : Option Mapped :=
  match image with
  | none => none
  | some (base, memory) =>
    let memory := copy memory 0 ctx.fileImage ctx.header.imageOffset ctx.header.imageSize
    match stack with
    | none => none
    | some _ => some ⟨ctx.header, ctx.fileImage, base, fill memory ctx.header.imageSize ctx.header.bssSize 0⟩

/-- One turn of the loop of `exec_relocate`. -/
def relocateOne (ctx : Mapped) (image : Mem) (i : Nat) : Option Mem :=
  let r := ctx.header.relocOffset + i * amxRelocSize
  let offset := load ctx.fileImage r 4
  if ctx.header.imageSize ≤ offset then none
  else if ctx.header.imageSize < offset + 4 then none
  else if load ctx.fileImage (r + 4) 2 = amxRelocAbs32 then
    some (store image offset 4 (load image offset 4 + ctx.imageBase))
  else none

/-- The image after `exec_relocate`. -/
def execRelocate (ctx : Mapped) : Option Mem := (List.range ctx.header.relocCount).foldlM (relocateOne ctx) ctx.image

def packedHeader (text : Section) : AmxHeader :=
  { magic := amxMagic
    version := amxVersion
    flags := 0
    imageOffset := amxHeaderSizeI
    imageSize := text.data.length
    entry := 0
    bssSize := 0
    stackSize := 4096
    relocOffset := amxHeaderSizeI + text.data.length
    relocCount := text.relocations.length
    programName := packString 32 programName
    author := packString 32 authorName
    checksum := 0 }

/-- **The loader accepts the file** and puts the address of its label into each relocated word. -/
def Accepted (text : Section) (file : List Byte) (files : String → Option (List Byte)) (path : String) (m : Mallocs) :
    Prop :=
  readHeader (ofList (file.take amxHeaderSize)) = some (packedHeader text) ∧ verifyHeader (packedHeader text) = .ok ∧
    ∃ loaded, execLoad files path m.file = some loaded ∧ ∃ mapped, execMap m.image m.stack loaded = some mapped ∧
      ∃ image, execRelocate mapped = some image ∧ ∀ rel ∈ text.relocations, ∃ addr,
        text.symbols rel.symbol = some addr ∧ load image rel.offset 4 = (addr + mapped.imageBase) % 2 ^ 32

/-- A `mov` whose second operand is taken for a symbol. -/
def Stmt.Relocates (py : Python) : Stmt → Prop
  | .instruction opcode operands => ∃ symbol, movSymbol py opcode operands = some (some symbol)
  | _ => False

def Mallocs.Enough (m : Mallocs) : Prop := m.file.isSome = true ∧ m.image.isSome = true ∧ m.stack.isSome = true

/-! ## The first pass -/

structure Laid (p : Pass1) : Prop where
  offset : p.offset = p.text.data.length
  absolute : ∀ rel ∈ p.text.relocations, rel.type = amxRelocAbs32 ∧ rel.reserved = 0
  inside : ∀ rel ∈ p.text.relocations, rel.offset + 4 ≤ p.text.data.length
  apart : p.text.relocations.Pairwise (Apart Relocation.offset 4)
  count : 4 * p.text.relocations.length ≤ p.text.data.length

theorem laid_init : Laid Pass1.init :=
  ⟨rfl, (fun _ h => by cases h), (fun _ h => by cases h), List.Pairwise.nil, Nat.le_refl 0⟩

section

variable {p p' : Pass1} {py : Python}

theorem Laid.define (h : Laid p) (name : String) : Laid (p.define name) :=
  ⟨h.offset, h.absolute, h.inside, h.apart, h.count⟩

theorem Laid.extend (h : Laid p) (bytes : List Byte) : Laid (p.extend bytes) where
  offset := rfl
  absolute := h.absolute
  inside rel hrel := by
    have hin := h.inside rel hrel
    show rel.offset + 4 ≤ (p.text.data ++ bytes).length
    rw [List.length_append]
    omega
  apart := h.apart
  count := by
    have hcount := h.count
    show 4 * p.text.relocations.length ≤ (p.text.data ++ bytes).length
    rw [List.length_append]
    omega

/-- The encoding of `mov ebx, imm32`: the opcode and the word. -/
def movEncoding : List Byte := [0xBB, 0, 0, 0, 0]

theorem Laid.encodeReloc (h : Laid p) (hmov : py.asm "mov ebx, 0" = some movEncoding) {symbol : String}
    (hp : encodeReloc py symbol p = some p') : Laid p' := by
  unfold Exec.encodeReloc at hp
  rw [hmov, Option.map_some] at hp
  injection hp with hp
  subst hp
  have hext := h.extend movEncoding
  have hlen : (p.text.data ++ movEncoding).length = p.text.data.length + 5 := by
    rw [List.length_append]
    rfl
  refine ⟨hext.offset, fun rel hrel => ?_, fun rel hrel => ?_, ?_, ?_⟩
  · rcases List.mem_append.1 hrel with hrel | hrel
    · exact h.absolute rel hrel
    · rw [List.mem_singleton.1 hrel]
      exact ⟨rfl, rfl⟩
  · rcases List.mem_append.1 hrel with hrel | hrel
    · exact hext.inside rel hrel
    · rw [List.mem_singleton.1 hrel]
      show p.offset + 1 + 4 ≤ (p.text.data ++ movEncoding).length
      rw [hlen, h.offset]
  · refine List.pairwise_append.2 ⟨h.apart, List.pairwise_singleton _ _, fun x hx y hy => Or.inl ?_⟩
    rw [List.mem_singleton.1 hy]
    have hin := h.inside x hx
    show x.offset + 4 ≤ p.offset + 1
    rw [h.offset]
    omega
  · have hcount := h.count
    show 4 * (p.text.relocations ++ [_]).length ≤ (p.text.data ++ movEncoding).length
    rw [hlen, List.length_append, List.length_singleton]
    omega

theorem Laid.step (h : Laid p) (hmov : py.asm "mov ebx, 0" = some movEncoding) {stmt : Stmt}
    (hp : pass1Step py p stmt = some p') : Laid p' := by
  cases stmt with
  | instruction opcode operands =>
    unfold pass1Step at hp
    dsimp only at hp
    split at hp
    · cases hp
    · exact h.encodeReloc hmov hp
    · obtain ⟨bytes, -, rfl⟩ := Option.map_eq_some_iff.1 hp
      exact h.extend bytes
  | label name =>
    injection hp with hp
    subst hp
    exact h.define name
  | directive name operands label =>
    unfold pass1Step at hp
    dsimp only at hp
    have hlabel : Laid (p.defineLabel label) := by
      cases label with
      | none => exact h
      | some label => exact h.define label
    split at hp
    · obtain ⟨bytes, -, rfl⟩ := Option.map_eq_some_iff.1 hp
      exact hlabel.extend bytes
    · injection hp with hp
      subst hp
      exact hlabel

theorem laid_pass1 (hmov : py.asm "mov ebx, 0" = some movEncoding) : ∀ {program : List Stmt} {p p' : Pass1}, Laid p →
    program.foldlM (pass1Step py) p = some p' → Laid p'
  | [], _, _, h, hp => by
    injection hp with hp
    subst hp
    exact h
  | stmt :: program, p, p', h, hp => by
    rw [List.foldlM_cons] at hp
    obtain ⟨q, hq, hp⟩ := Option.bind_eq_some_iff.1 hp
    exact laid_pass1 hmov (h.step hmov hq) hp

end

theorem pass1Step_relocations {py : Python} {p p' : Pass1} {stmt : Stmt} (h : pass1Step py p stmt = some p') :
    p'.text.relocations ≠ [] ↔ p.text.relocations ≠ [] ∨ stmt.Relocates py := by
  cases stmt with
  | instruction opcode operands =>
    unfold pass1Step at h
    dsimp only at h
    unfold Stmt.Relocates
    split at h
    · cases h
    · rename_i symbol hsymbol
      obtain ⟨bytes, -, rfl⟩ := Option.map_eq_some_iff.1 h
      exact ⟨fun _ => Or.inr ⟨symbol, hsymbol⟩, fun _ => List.append_ne_nil_of_right_ne_nil _ (List.cons_ne_nil _ _)⟩
    · rename_i hnone
      obtain ⟨bytes, -, rfl⟩ := Option.map_eq_some_iff.1 h
      simp [Pass1.extend, hnone]
  | label name =>
    injection h with h
    subst h
    simp [Stmt.Relocates, Pass1.define]
  | directive name operands label =>
    unfold pass1Step at h
    dsimp only at h
    have hlabel : (p.defineLabel label).text.relocations = p.text.relocations := by
      cases label <;> rfl
    split at h
    · obtain ⟨bytes, -, rfl⟩ := Option.map_eq_some_iff.1 h
      simp [Stmt.Relocates, Pass1.extend, hlabel]
    · injection h with h
      subst h
      simp [Stmt.Relocates, hlabel]

theorem pass1_relocations {py : Python} : ∀ {program : List Stmt} {p p' : Pass1},
    program.foldlM (pass1Step py) p = some p' →
      (p'.text.relocations ≠ [] ↔ p.text.relocations ≠ [] ∨ ∃ stmt ∈ program, stmt.Relocates py)
  | [], _, _, h => by
    injection h with h
    subst h
    simp
  | stmt :: program, p, p', h => by
    rw [List.foldlM_cons] at h
    obtain ⟨q, hq, h⟩ := Option.bind_eq_some_iff.1 h
    rw [pass1_relocations h, pass1Step_relocations hq, or_assoc]
    simp only [List.mem_cons, exists_eq_or_imp]

/-! ## The symbols -/

def Section.labelOffset (text : Section) (rel : Relocation) : Nat := (text.symbols rel.symbol).getD 0

theorem resolve_foldlM {text : Section} : ∀ {rels : List Relocation} {data data' : List Byte},
    rels.foldlM (resolveOne text) data = some data' →
      ofList data' = rels.foldl (update Relocation.offset 4 (fun rel _ => text.labelOffset rel)) (ofList data) ∧
      data'.length = data.length ∧
      ∀ rel ∈ rels, text.symbols rel.symbol = some (text.labelOffset rel) ∧ text.labelOffset rel < 2 ^ 32
  | [], _, _, h => by
    injection h with h
    subst h
    exact ⟨rfl, rfl, fun _ hrel => by cases hrel⟩
  | rel :: rels, data, data', h => by
    rw [List.foldlM_cons] at h
    obtain ⟨mid, hmid, h⟩ := Option.bind_eq_some_iff.1 h
    obtain ⟨h1, h2, h3⟩ := resolve_foldlM h
    unfold resolveOne at hmid
    split at hmid
    · cases hmid
    rename_i addr haddr
    split at hmid
    · rename_i hfit
      injection hmid with hmid
      have hoff : text.labelOffset rel = addr := by
        unfold Section.labelOffset
        rw [haddr, Option.getD_some]
      refine ⟨?_, ?_, fun r hr => ?_⟩
      · rw [h1, List.foldl_cons, update, ← hmid, ofList_patch hfit.2, hoff]
      · rw [h2, ← hmid, length_patch]
      · rcases List.mem_cons.1 hr with rfl | hr
        · rw [hoff]
          exact ⟨haddr, hfit.1⟩
        · exact h3 r hr
    · cases hmid

theorem assemble_relocations {py : Python} {program : List Stmt} {text : Section} (h : assemble py program = some text) :
    text.relocations ≠ [] ↔ ∃ stmt ∈ program, stmt.Relocates py := by
  unfold assemble at h
  split at h
  · cases h
  rename_i t ht
  obtain ⟨p, hp, rfl⟩ := Option.map_eq_some_iff.1 ht
  obtain ⟨data, -, rfl⟩ := Option.map_eq_some_iff.1 h
  rw [pass1_relocations hp]
  simp [Pass1.init]

structure Assembled (text : Section) : Prop where
  absolute : ∀ rel ∈ text.relocations, rel.type = amxRelocAbs32 ∧ rel.reserved = 0
  inside : ∀ rel ∈ text.relocations, rel.offset + 4 ≤ text.data.length
  apart : text.relocations.Pairwise (Apart Relocation.offset 4)
  count : 4 * text.relocations.length ≤ text.data.length
  defined : ∀ rel ∈ text.relocations, text.symbols rel.symbol = some (text.labelOffset rel)
  resolved : ∀ rel ∈ text.relocations, load (ofList text.data) rel.offset 4 = text.labelOffset rel

theorem assembled {py : Python} (hmov : py.asm "mov ebx, 0" = some movEncoding) {program : List Stmt} {text : Section}
    (h : assemble py program = some text) : Assembled text := by
  unfold assemble at h
  split at h
  · cases h
  rename_i t ht
  obtain ⟨p, hp, rfl⟩ := Option.map_eq_some_iff.1 ht
  have hlaid := laid_pass1 hmov laid_init hp
  obtain ⟨data, hdata, rfl⟩ := Option.map_eq_some_iff.1 h
  obtain ⟨h1, h2, h3⟩ := resolve_foldlM hdata
  refine ⟨hlaid.absolute, fun rel hrel => ?_, hlaid.apart, ?_, fun rel hrel => (h3 rel hrel).1, fun rel hrel => ?_⟩
  · show rel.offset + 4 ≤ data.length
    rw [h2]
    exact hlaid.inside rel hrel
  · show 4 * p.text.relocations.length ≤ data.length
    rw [h2]
    exact hlaid.count
  · show load (ofList data) rel.offset 4 = p.text.labelOffset rel
    rw [h1, load_foldl_update hlaid.apart rel hrel]
    exact Nat.mod_eq_of_lt (h3 rel hrel).2

/-! ## The file -/

def fieldBytes (fields : List (Nat × Nat)) : List Byte := fields.flatMap (fun f => bytesOf f.1 f.2)

theorem length_fieldBytes (fields : List (Nat × Nat)) : (fieldBytes fields).length = (fields.map Prod.fst).sum := by
  unfold fieldBytes
  rw [List.length_flatMap]
  simp

theorem fieldBytes_append (fields fields' : List (Nat × Nat)) :
    fieldBytes (fields ++ fields') = fieldBytes fields ++ fieldBytes fields' :=
  List.flatMap_append

theorem packFields_eq : ∀ {fields : List (Nat × Nat)}, (∀ f ∈ fields, f.2 < 256 ^ f.1) →
    packFields fields = some (fieldBytes fields)
  | [], _ => rfl
  | f :: fields, h => by
    rw [packFields, packField, if_pos (h f List.mem_cons_self),
      packFields_eq (fun g hg => h g (List.mem_cons_of_mem f hg))]
    rfl

theorem load_field (pre front : List (Nat × Nat)) {n v : Nat} (hv : v < 256 ^ n) (back : List (Nat × Nat))
    (head tail : List Byte) : pre = front ++ (n, v) :: back →
    load (ofList (head ++ (fieldBytes pre ++ tail))) (head.length + (front.map Prod.fst).sum) n = v := by
  rintro rfl
  have hsplit : head ++ (fieldBytes (front ++ (n, v) :: back) ++ tail) =
      (head ++ fieldBytes front) ++ (bytesOf n v ++ (fieldBytes back ++ tail)) := by
    rw [fieldBytes_append]
    show head ++ (fieldBytes front ++ (bytesOf n v ++ fieldBytes back) ++ tail) = _
    simp only [List.append_assoc]
  have hload := load_bytesOf (head ++ fieldBytes front) (fieldBytes back ++ tail) n v
  rw [List.length_append, length_fieldBytes, Nat.mod_eq_of_lt hv] at hload
  rw [hsplit, hload]

theorem bytesAt_ofList (head s tail : List Byte) :
    bytesAt (ofList (head ++ (s ++ tail))) head.length s.length = s := by
  unfold bytesAt
  refine List.ext_getElem (by simp) (fun i hi hi' => ?_)
  rw [List.getElem_map, List.getElem_range, ofList_append_right, ofList_append_left hi']
  exact List.getD_eq_getElem s 0 hi'

theorem readHeader_congr {m m' : Mem} (h : ∀ i < amxHeaderSize, m i = m' i) : readHeader m = readHeader m' := by
  have hsize : amxHeaderSize = 104 := rfl
  have hload : ∀ a n, a + n ≤ 104 → load m a n = load m' a n := fun a n hle =>
    load_congr (fun i _ hi => h i (by omega))
  have hbytes : ∀ a n, a + n ≤ 104 → bytesAt m a n = bytesAt m' a n := by
    intro a n hle
    unfold bytesAt
    refine List.map_congr_left (fun i hi => h _ ?_)
    have hlt := List.mem_range.1 hi
    omega
  unfold readHeader
  rw [hload 0x04 2 (by decide), hload 0x06 2 (by decide), hload 0x08 4 (by decide), hload 0x0C 4 (by decide),
    hload 0x10 4 (by decide), hload 0x14 4 (by decide), hload 0x18 4 (by decide), hload 0x1C 4 (by decide),
    hload 0x20 4 (by decide), hload 0x64 4 (by decide), hbytes 0 4 (by decide), hbytes 0x24 32 (by decide),
    hbytes 0x44 32 (by decide)]

section

variable {text : Section}

def relocFields (text : Section) : List (Nat × Nat) :=
  text.relocations.flatMap (fun rel => [(4, rel.offset), (2, rel.type), (2, rel.reserved)])

def headerTail : List Byte := packString 32 programName ++ (packString 32 authorName ++ bytesOf 4 0)

def headerBytes (text : Section) : List Byte := amxMagic ++ (fieldBytes (headerFields text) ++ headerTail)

def fileBytes (text : Section) : List Byte := headerBytes text ++ (text.data ++ fieldBytes (relocFields text))

theorem length_headerBytes : (headerBytes text).length = amxHeaderSizeI := by
  unfold headerBytes
  rw [List.length_append, List.length_append, length_fieldBytes]
  rfl

theorem length_relocFields : ∀ rels : List Relocation,
    ((rels.flatMap (fun rel => [(4, rel.offset), (2, rel.type), (2, rel.reserved)])).map Prod.fst).sum =
      rels.length * amxRelocSize
  | [] => by simp
  | rel :: rels => by
    rw [List.flatMap_cons, List.map_append, List.sum_append, length_relocFields rels, List.length_cons]
    show 4 + (2 + (2 + 0)) + _ = _
    unfold amxRelocSize
    omega

theorem length_fileBytes : (fileBytes text).length =
    amxHeaderSizeI + text.data.length + text.relocations.length * amxRelocSize := by
  unfold fileBytes relocFields
  rw [List.length_append, List.length_append, length_headerBytes, length_fieldBytes, length_relocFields]
  omega

variable (h : Assembled text) (hsize : text.data.length ≤ amxMaxImageSize)
include h hsize

theorem headerFields_fit : ∀ f ∈ headerFields text, f.2 < 256 ^ f.1 := by
  have hcount := h.count
  have hmax : amxMaxImageSize = 16777216 := rfl
  have hhead : amxHeaderSizeI = 104 := rfl
  unfold headerFields
  simp only [List.forall_mem_cons]
  refine ⟨by decide, by decide, by decide, ?_, by decide, by decide, by decide, ?_, ?_, fun _ hf => by cases hf⟩ <;> omega

theorem relocFields_fit : ∀ f ∈ relocFields text, f.2 < 256 ^ f.1 := by
  intro f hf
  obtain ⟨rel, hrel, hf⟩ := List.mem_flatMap.1 hf
  have hin := h.inside rel hrel
  have hmax : amxMaxImageSize = 16777216 := rfl
  obtain ⟨ht, hr⟩ := h.absolute rel hrel
  rcases List.mem_cons.1 hf with rfl | hf
  · dsimp only
    omega
  rcases List.mem_cons.1 hf with rfl | hf
  · rw [ht]
    decide
  · rw [List.mem_singleton.1 hf, hr]
    decide

theorem amxFile_eq : amxFile text = some (fileBytes text) := by
  have hheader : buildHeader text = some (headerBytes text) := by
    unfold buildHeader
    rw [packFields_eq (headerFields_fit h hsize)]
    unfold headerBytes headerTail
    simp only [Option.map_some, List.append_assoc]
    rfl
  have hrelocs : buildRelocations text = some (fieldBytes (relocFields text)) :=
    packFields_eq (relocFields_fit h hsize)
  unfold amxFile
  rw [hheader, hrelocs]
  unfold fileBytes
  simp only [List.append_assoc]

theorem readHeader_file : readHeader (ofList (fileBytes text)) = some (packedHeader text) := by
  have hfit := headerFields_fit h hsize
  have hfile : fileBytes text =
      amxMagic ++ (fieldBytes (headerFields text) ++ (headerTail ++ (text.data ++ fieldBytes (relocFields text)))) := by
    unfold fileBytes headerBytes
    simp only [List.append_assoc]
  have hfield : ∀ (k n v a : Nat), (headerFields text)[k]? = some (n, v) →
      4 + (((headerFields text).take k).map Prod.fst).sum = a → load (ofList (fileBytes text)) a n = v := by
    rintro k n v a hk rfl
    obtain ⟨hlt, hk⟩ := List.getElem?_eq_some_iff.1 hk
    have hv : v < 256 ^ n := hfit (n, v) (by rw [← hk]; exact List.getElem_mem hlt)
    have hsplit : headerFields text = (headerFields text).take k ++ (n, v) :: (headerFields text).drop (k + 1) := by
      rw [← hk, ← List.drop_eq_getElem_cons hlt, List.take_append_drop]
    rw [hfile]
    exact load_field _ _ hv _ amxMagic _ hsplit
  have hmagic : bytesAt (ofList (fileBytes text)) 0 4 = amxMagic := by
    rw [hfile]
    exact bytesAt_ofList [] amxMagic _
  have hlen : (amxMagic ++ fieldBytes (headerFields text)).length = 36 := by
    rw [List.length_append, length_fieldBytes]
    rfl
  have hpn : (packString 32 programName).length = 32 := rfl
  have hpa : (packString 32 authorName).length = 32 := rfl
  have hname : bytesAt (ofList (fileBytes text)) 0x24 32 = packString 32 programName := by
    have hb := bytesAt_ofList (amxMagic ++ fieldBytes (headerFields text)) (packString 32 programName)
      (packString 32 authorName ++ bytesOf 4 0 ++ (text.data ++ fieldBytes (relocFields text)))
    rw [hlen, hpn] at hb
    rw [hfile]
    unfold headerTail
    simpa only [List.append_assoc] using hb
  have hauthor : bytesAt (ofList (fileBytes text)) 0x44 32 = packString 32 authorName := by
    have hb := bytesAt_ofList (amxMagic ++ fieldBytes (headerFields text) ++ packString 32 programName)
      (packString 32 authorName) (bytesOf 4 0 ++ (text.data ++ fieldBytes (relocFields text)))
    rw [List.length_append, hlen, hpn, hpa] at hb
    rw [hfile]
    unfold headerTail
    simpa only [List.append_assoc] using hb
  have hsum : load (ofList (fileBytes text)) 0x64 4 = 0 := by
    have hb := load_bytesOf (amxMagic ++ fieldBytes (headerFields text) ++ packString 32 programName ++
      packString 32 authorName) (text.data ++ fieldBytes (relocFields text)) 4 0
    rw [List.length_append, List.length_append, hlen, hpn, hpa, Nat.zero_mod] at hb
    rw [hfile]
    unfold headerTail
    simpa only [List.append_assoc] using hb
  unfold readHeader
  rw [if_neg (by decide), hmagic, hname, hauthor, hsum, hfield 0 2 _ 4 rfl rfl, hfield 1 2 _ 6 rfl rfl,
    hfield 2 4 _ 8 rfl rfl, hfield 3 4 _ 0x0C rfl rfl, hfield 4 4 _ 0x10 rfl rfl, hfield 5 4 _ 0x14 rfl rfl,
    hfield 6 4 _ 0x18 rfl rfl, hfield 7 4 _ 0x1C rfl rfl, hfield 8 4 _ 0x20 rfl rfl]
  rfl

/-! ## Loading -/

omit h in
theorem verify_packedHeader (hne : text.data ≠ []) :
    verifyHeader (packedHeader text) = .ok ↔ text.relocations ≠ [] := by
  have hpos := List.length_pos_iff.2 hne
  have hmax : amxMaxImageSize = 16777216 := rfl
  unfold verifyHeader packedHeader
  dsimp only
  rw [if_neg (by decide), if_neg (by decide), if_neg (by decide), if_neg (by decide), if_neg (by decide),
    if_neg (by omega), if_neg (by omega), if_neg (by decide), if_neg (by decide), if_neg (by omega)]
  have hhead : amxHeaderSizeI = 104 := rfl
  have hhead' : amxHeaderSize = 104 := rfl
  by_cases hr : text.relocations = []
  · rw [hr, List.length_nil, if_pos rfl, if_pos (by omega)]
    simp
  · have hrpos := List.length_pos_iff.2 hr
    rw [if_neg (by omega), if_neg (by omega)]
    exact ⟨fun _ => hr, fun _ => rfl⟩

theorem totalSize_packedHeader : totalSize (packedHeader text) = (fileBytes text).length ∧
    (fileBytes text).length < 2 ^ 31 := by
  have hcount := h.count
  have hmax : amxMaxImageSize = 16777216 := rfl
  have hhead : amxHeaderSizeI = 104 := rfl
  have hrel : amxRelocSize = 8 := rfl
  rw [length_fileBytes]
  unfold totalSize packedHeader
  dsimp only
  rw [hrel]
  refine ⟨Nat.mod_eq_of_lt ?_, ?_⟩ <;> omega

theorem execLoad_file {files : String → Option (List Byte)} {path : String} (hpath : path.toList.head? = some '/')
    (hroot : path ≠ "/") (hfile : files path = some (fileBytes text)) (hverify : verifyHeader (packedHeader text) = .ok)
    (buf : Mem) : execLoad files path (some buf) =
      some ⟨packedHeader text, copy buf 0 (ofList (fileBytes text)) 0 (fileBytes text).length⟩ := by
  obtain ⟨htotal, hlt⟩ := totalSize_packedHeader h hsize
  have hlen := @length_fileBytes text
  have hhead : amxHeaderSizeI = 104 := rfl
  have hhead' : amxHeaderSize = 104 := rfl
  have hheader : readHeader (amfsReadBytes (fileBytes text) amxHeaderSize (fun _ => 0)) = some (packedHeader text) := by
    rw [← readHeader_file h hsize]
    refine readHeader_congr (fun i hi => ?_)
    unfold amfsReadBytes
    rw [copy_of_mem (Nat.zero_le i) (by omega), Nat.zero_add, Nat.sub_zero]
  have hread : amfsReadCount (fileBytes text) amxHeaderSize = amxHeaderSize := by
    unfold amfsReadCount
    rw [if_neg (by decide), Nat.min_eq_right (by omega)]
  have hall : amfsReadCount (fileBytes text) (fileBytes text).length = (fileBytes text).length := by
    unfold amfsReadCount
    rw [if_neg (by omega), Nat.min_self]
  have hint : toInt32 (fileBytes text).length = (fileBytes text).length := if_pos hlt
  unfold execLoad
  rw [if_neg (by simp [hpath, hroot]), hfile]
  dsimp only
  rw [hread, if_neg (lt_irrefl _), hheader]
  dsimp only
  rw [if_neg (by rw [hverify]; exact not_not.2 rfl), htotal, hall, hint, if_neg (lt_irrefl _)]
  unfold amfsReadBytes
  rw [Nat.min_self]

/-! ## Relocating -/

structure InMemory (text : Section) (ctx : Mapped) : Prop where
  header : ctx.header = packedHeader text
  file : ∀ a n, a + n ≤ (fileBytes text).length → load ctx.fileImage a n = load (ofList (fileBytes text)) a n
  image : ∀ a n, a + n ≤ text.data.length → load ctx.image a n = load (ofList text.data) a n

theorem load_reloc {i : Nat} (hi : i < text.relocations.length) :
    load (ofList (fileBytes text)) (amxHeaderSizeI + text.data.length + i * amxRelocSize) 4 =
        (text.relocations[i]).offset ∧
      load (ofList (fileBytes text)) (amxHeaderSizeI + text.data.length + i * amxRelocSize + 4) 2 = amxRelocAbs32 := by
  have hmem := List.getElem_mem hi
  have hin := h.inside _ hmem
  obtain ⟨htype, -⟩ := h.absolute _ hmem
  have hmax : amxMaxImageSize = 16777216 := rfl
  have hsplit : text.relocations = text.relocations.take i ++ text.relocations[i] :: text.relocations.drop (i + 1) := by
    rw [← List.drop_eq_getElem_cons hi, List.take_append_drop]
  generalize text.relocations[i] = rel at *
  have hsum := length_relocFields (text.relocations.take i)
  rw [List.length_take, Nat.min_eq_left (by omega)] at hsum
  have hlen : (headerBytes text ++ text.data).length = amxHeaderSizeI + text.data.length := by
    rw [List.length_append, length_headerBytes]
  have hfields : relocFields text =
      (text.relocations.take i).flatMap (fun rel => [(4, rel.offset), (2, rel.type), (2, rel.reserved)]) ++
        (4, rel.offset) :: (2, rel.type) :: (2, rel.reserved) ::
          (text.relocations.drop (i + 1)).flatMap (fun rel => [(4, rel.offset), (2, rel.type), (2, rel.reserved)]) := by
    unfold relocFields
    conv_lhs => rw [hsplit]
    rw [List.flatMap_append]
    rfl
  have hfile : fileBytes text = (headerBytes text ++ text.data) ++ (fieldBytes (relocFields text) ++ []) := by
    unfold fileBytes
    rw [List.append_nil, List.append_assoc]
  constructor
  · have hload := load_field (relocFields text) _ (n := 4) (v := rel.offset) (by omega) _ (headerBytes text ++ text.data) []
      hfields
    rwa [hlen, hsum, ← hfile] at hload
  · have hload := load_field (relocFields text)
      ((text.relocations.take i).flatMap (fun rel => [(4, rel.offset), (2, rel.type), (2, rel.reserved)]) ++
        [(4, rel.offset)]) (n := 2) (v := rel.type) (by rw [htype]; decide) _ (headerBytes text ++ text.data) []
      (by rw [hfields, List.append_assoc]; rfl)
    rw [List.map_append, List.sum_append, hlen, hsum, ← hfile, htype, ← Nat.add_assoc] at hload
    exact hload

omit h hsize in
theorem execMap_file (buf memory stack : Mem) (base : Nat) :
    ∃ ctx, execMap (some (base, memory)) (some stack)
        ⟨packedHeader text, copy buf 0 (ofList (fileBytes text)) 0 (fileBytes text).length⟩ = some ctx ∧
      InMemory text ctx ∧ ctx.imageBase = base := by
  have hlen := @length_fileBytes text
  refine ⟨_, rfl, ⟨rfl, fun a n hle => ?_, fun a n hle => load_congr (fun i _ hi => ?_)⟩, rfl⟩
  · have hload : load (copy buf 0 (ofList (fileBytes text)) 0 (fileBytes text).length) (0 + a) n =
        load (ofList (fileBytes text)) (0 + a) n := load_copy hle
    rwa [Nat.zero_add] at hload
  · show fill (copy memory 0 (copy buf 0 (ofList (fileBytes text)) 0 (fileBytes text).length) amxHeaderSizeI
      text.data.length) text.data.length 0 0 i = _
    rw [fill_of_not (Or.inl (by omega)), copy_of_mem (Nat.zero_le i) (by omega),
      copy_of_mem (Nat.zero_le _) (by omega), Nat.zero_add, Nat.sub_zero, Nat.sub_zero,
      ← @length_headerBytes text]
    unfold fileBytes
    rw [ofList_append_right, ofList_append_left (by omega)]

theorem relocateOne_eq {ctx : Mapped} (hctx : InMemory text ctx) {i : Nat} (hi : i < text.relocations.length)
    (image : Mem) : relocateOne ctx image i =
      some (update Relocation.offset 4 (fun _ w => w + ctx.imageBase) image (text.relocations[i])) := by
  obtain ⟨hoffset, htype⟩ := load_reloc h hsize hi
  have hin := h.inside _ (List.getElem_mem hi)
  have hlen := @length_fileBytes text
  have hrel : amxRelocSize = 8 := rfl
  have hoffset' : load ctx.fileImage ((packedHeader text).relocOffset + i * amxRelocSize) 4 =
      (text.relocations[i]).offset := by
    rw [← hoffset]
    refine hctx.file _ _ ?_
    rw [hlen, hrel]
    show amxHeaderSizeI + text.data.length + i * 8 + 4 ≤ _
    omega
  have htype' : load ctx.fileImage ((packedHeader text).relocOffset + i * amxRelocSize + 4) 2 = amxRelocAbs32 := by
    rw [← htype]
    refine hctx.file _ _ ?_
    rw [hlen, hrel]
    show amxHeaderSizeI + text.data.length + i * 8 + 4 + 2 ≤ _
    omega
  have hsize' : (packedHeader text).imageSize = text.data.length := rfl
  unfold relocateOne
  dsimp only
  rw [hctx.header, hoffset', htype', hsize', if_neg (by omega), if_neg (by omega), if_pos rfl]
  rfl

theorem relocate_foldlM {ctx : Mapped} (hctx : InMemory text ctx) : ∀ k ≤ text.relocations.length,
    (List.range k).foldlM (relocateOne ctx) ctx.image =
      some ((text.relocations.take k).foldl (update Relocation.offset 4 (fun _ w => w + ctx.imageBase)) ctx.image)
  | 0, _ => rfl
  | k + 1, hk => by
    rw [List.range_succ, List.foldlM_append, relocate_foldlM hctx k (by omega), List.take_succ_eq_append_getElem hk,
      List.foldl_append]
    show (relocateOne ctx _ k).bind _ = _
    rw [relocateOne_eq h hsize hctx hk]
    rfl

theorem execRelocate_eq {ctx : Mapped} (hctx : InMemory text ctx) : ∃ image, execRelocate ctx = some image ∧
    ∀ rel ∈ text.relocations, ∃ addr, text.symbols rel.symbol = some addr ∧
      load image rel.offset 4 = (addr + ctx.imageBase) % 2 ^ 32 := by
  have hloop := relocate_foldlM h hsize hctx text.relocations.length (Nat.le_refl _)
  rw [List.take_length] at hloop
  refine ⟨text.relocations.foldl (update Relocation.offset 4 (fun _ w => w + ctx.imageBase)) ctx.image, ?_,
    fun rel hrel => ⟨text.labelOffset rel, h.defined rel hrel, ?_⟩⟩
  · unfold execRelocate
    rw [hctx.header]
    exact hloop
  · have hpow : 256 ^ 4 = 2 ^ 32 := by norm_num
    rw [load_foldl_update h.apart rel hrel, hctx.image _ _ (h.inside rel hrel), h.resolved rel hrel, hpow]

end

theorem malloc_of_execLoad {files : String → Option (List Byte)} {path : String} {malloc : Option Mem} {ctx : Loaded}
    (h : execLoad files path malloc = some ctx) : malloc.isSome = true := by
  cases malloc with
  | some buf => rfl
  | none =>
    unfold execLoad at h
    repeat' split at h
    all_goals contradiction

theorem mallocs_of_execMap {image : Option (Nat × Mem)} {stack : Option Mem} {ctx : Loaded} {mapped : Mapped}
    (h : execMap image stack ctx = some mapped) : image.isSome = true ∧ stack.isSome = true := by
  cases image with
  | none => cases h
  | some a =>
    cases stack with
    | none => cases h
    | some b => exact ⟨rfl, rfl⟩

/-- **A program of the assembler is accepted if and only if it has a `mov` with a symbol**, and the memory is there. -/
theorem accepted_iff {py : Python} (hmov : py.asm "mov ebx, 0" = some movEncoding) {program : List Stmt} {text : Section}
    (hasm : assemble py program = some text) (hne : text.data ≠ []) (hsize : text.data.length ≤ amxMaxImageSize)
    {files : String → Option (List Byte)} {path : String} (hpath : path.toList.head? = some '/') (hroot : path ≠ "/")
    {file : List Byte} (hwritten : amxFile text = some file) (hfile : files path = some file) (m : Mallocs) :
    Accepted text file files path m ↔ (∃ stmt ∈ program, stmt.Relocates py) ∧ m.Enough := by
  have h := assembled hmov hasm
  rw [← assemble_relocations hasm]
  rw [amxFile_eq h hsize] at hwritten
  injection hwritten with hwritten
  subst hwritten
  have hverify := verify_packedHeader hsize hne
  constructor
  · rintro ⟨-, hok, loaded, hload, mapped, hmap, -⟩
    exact ⟨hverify.1 hok, malloc_of_execLoad hload, mallocs_of_execMap hmap⟩
  · rintro ⟨hrelocs, hbuf, himage, hstack⟩
    obtain ⟨buf, hbuf⟩ := Option.isSome_iff_exists.1 hbuf
    obtain ⟨⟨base, memory⟩, himage⟩ := Option.isSome_iff_exists.1 himage
    obtain ⟨stack, hstack⟩ := Option.isSome_iff_exists.1 hstack
    have hok := hverify.2 hrelocs
    obtain ⟨ctx, hmap, hctx, -⟩ := @execMap_file text buf memory stack base
    refine ⟨?_, hok, ⟨packedHeader text, copy buf 0 (ofList (fileBytes text)) 0 (fileBytes text).length⟩, ?_, ctx, ?_,
      execRelocate_eq h hsize hctx⟩
    · rw [← readHeader_file h hsize]
      refine readHeader_congr (fun i hi => ?_)
      unfold ofList
      rw [List.getD_eq_getElem?_getD, List.getD_eq_getElem?_getD, List.getElem?_take_of_lt hi]
    · rw [hbuf]
      exact execLoad_file h hsize hpath hroot hfile hok buf
    · rw [himage, hstack]
      exact hmap

def onePython : Python :=
  { asm := fun line => if line = "mov ebx, 0" then some movEncoding else none
    lower := String.toLower
    isalpha := fun s => s.toList.all Char.isAlpha
    isdigit := fun s => s.toList.all Char.isDigit
    int := String.toNat?
    encodeAscii := fun s => some (s.toList.map (fun c => BitVec.ofNat 8 c.toNat)) }

def someMallocs : Mallocs := ⟨some fun _ => 0, some (4096, fun _ => 0), some fun _ => 0⟩

/-- `x: mov eax, x`. -/
def oneReloc : Section :=
  { data := movEncoding
    relocations := [⟨1, amxRelocAbs32, 0, "x"⟩]
    symbols := Function.update (fun _ => none) "x" (some 0) }

theorem assemble_oneReloc : assemble onePython [.label "x", .instruction "MOV" ["eax", "x"]] = some oneReloc := rfl

theorem accepted_iff_oneReloc :
    Accepted oneReloc (fileBytes oneReloc) (fun _ => some (fileBytes oneReloc)) "/X.AMX" someMallocs ↔
      (∃ stmt ∈ [Stmt.label "x", .instruction "MOV" ["eax", "x"]], stmt.Relocates onePython) ∧ someMallocs.Enough :=
  accepted_iff rfl assemble_oneReloc (by decide) (by decide) rfl (by decide) (by rfl) rfl someMallocs

/-- `db "a"`. -/
def oneByte : Section := ⟨[0x61], [], fun _ => none⟩

theorem assemble_oneByte : assemble onePython [.directive "db" ["a"] none] = some oneByte := rfl

/-- **A program without relocations.** -/
theorem not_accepted : ¬∀ (py : Python) (program : List Stmt) (text : Section) (files : String → Option (List Byte))
    (path : String) (file : List Byte) (m : Mallocs), py.asm "mov ebx, 0" = some movEncoding →
      assemble py program = some text → text.data ≠ [] → text.data.length ≤ amxMaxImageSize →
      path.toList.head? = some '/' → path ≠ "/" → amxFile text = some file → files path = some file → m.Enough →
      Accepted text file files path m := by
  intro hall
  have h := hall onePython _ oneByte (fun _ => some (fileBytes oneByte)) "/X.AMX" (fileBytes oneByte) someMallocs rfl
    assemble_oneByte (by decide) (by decide) rfl (by decide) (by rfl) rfl ⟨rfl, rfl, rfl⟩
  exact absurd h.2.1 (by decide)

end Exec
end AmitX
