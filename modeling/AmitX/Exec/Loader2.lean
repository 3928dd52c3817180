import AmitX.Exec.Amx2
/-!
# Loader2 — the loader of AMX2 programs (`loader2.c`)

`read_file` reads a file twice: the header, sections and strings into `pass1`, then the whole of it.  The header has 136
bytes, `AMX2_HEADER_SIZE` is 128, and the assertion at the start of `amx2_read_header` says that they are equal: it stops
the loader at the first header, before there is a buffer of the file to leave.
-/
namespace AmitX
namespace Exec

open Bytes

/-- The memory that `malloc` returns: its address and its bytes; `none` for NULL. -/
abbrev Alloc := Option (Nat × Mem)

/-- The context; `none` for NULL. -/
structure Context2 where
  header : Option Amx2Header
  sections : List Amx2Section
  fileImage : Option Buf
  imageBase : Option (Nat × Buf)
  stackBase : Bool
  importTable : Option (List Nat)

/-- After `memset`. -/
def Context2.zero : Context2 := ⟨none, [], none, none, false, none⟩

/-- What `malloc` answers to a call for `n` bytes. -/
def Alloc.buf (a : Alloc) (n : Nat) : Except Stop Buf :=
  match a with
  | none => .error .failed
  | some (_, bytes) => .ok ⟨n, bytes⟩

/-- `amfs_read` of a file into a buffer of `n` bytes, and the check that it filled it. -/
def amfsFill (file : List Byte) (n : Nat) (buf : Buf) : Except Stop Buf :=
  if n = 0 ∨ ((min file.length n : Nat) : Int) < toInt32 n then .error .failed
  else .ok { buf with bytes := copy buf.bytes 0 (ofList file) 0 (min file.length n) }

def tableEnd (count offset size : Nat) : Nat := if 0 < count then (offset + count * size) % 2 ^ 32 else 0

def maxFileEnd (h : Amx2Header) (sections : List Amx2Section) (pass1Size : Nat) : Nat :=
  [tableEnd h.relocCount h.relocOffset amx2RelocSize, tableEnd h.importCount h.importOffset amx2ImportSize,
    tableEnd h.exportCount h.exportOffset amx2ExportSize].foldl max
    ((sections.map (fun s => (s.fileOffset + s.fileSize) % 2 ^ 32)).foldl max pass1Size)

/-- The answers to the calls of `malloc` in `exec2_load`. -/
structure LoadAllocs where
  pass1 : Alloc
  sects : Alloc
  file : Alloc
  sections : Alloc

/-- `read_file`; `files` has the bytes of the files that exist. -/
def readFile (files : String → Option (List Byte)) (path : String) (a : LoadAllocs) (stack : Mem) : Except Stop Buf := do
  failIf (path.toList.head? ≠ some '/' ∨ path = "/")
  match files path with
  | none => .error .failed
  | some file =>
    let hdrBuf ← amfsFill file amx2HeaderSize ⟨amx2HeaderSize, stack⟩
    let h ← amx2ReadHeader hdrBuf
    failIf (amx2VerifyHeader h = false)
    let pass1Size := (amx2HeaderSize + h.sectionCount * amx2SectionSize + h.stringSize) % 2 ^ 32
    let pass1 ← a.pass1.buf pass1Size
    let pass1 ← amfsFill file pass1Size pass1
    let _ ← a.sects.buf (h.sectionCount * amx2SectionSize)
    let sects ← amx2ReadSections pass1 h h.sectionCount
    let fileEnd := maxFileEnd h sects pass1Size
    let buf ← a.file.buf fileEnd
    amfsFill file fileEnd buf

def loadSections (a : LoadAllocs) (buf : Buf) (h : Amx2Header) : Except Stop (List Amx2Section) :=
  if h.sectionCount = 0 then .ok []
  else do
    let _ ← a.sections.buf (h.sectionCount * amx2SectionSize)
    let sections ← amx2ReadSections buf h h.sectionCount
    failIf (amx2VerifySections h sections = false)
    return sections

def exec2Load (files : String → Option (List Byte)) (path : String) (a : LoadAllocs) (stack : Mem) :
    Except Stop Context2 := do
  let buf ← readFile files path a stack
  let h ← amx2ReadHeader buf
  failIf (amx2VerifyHeader h = false)
  let sections ← loadSections a buf h
  return ⟨some h, sections, some buf, none, false, none⟩

def Context2.loaded (ctx : Context2) : Except Stop (Amx2Header × Buf) :=
  match ctx.header, ctx.fileImage with
  | some h, some file => .ok (h, file)
  | _, _ => .error .failed

def mapSection (file : Buf) (image : Buf) (s : Amx2Section) : Except Stop Buf :=
  if s.fileSize = 0 then .ok image
  else if file.size < (s.fileOffset + s.fileSize) % 2 ^ 32 then .error .failed
  else image.copyFrom s.vaddr file s.fileOffset s.fileSize

def exec2Map (image stack : Alloc) (ctx : Context2) : Except Stop Context2 := do
  let (h, file) ← ctx.loaded
  match image with
  | none => .error .failed
  | some (base, bytes) =>
    let image ← ctx.sections.foldlM (mapSection file) ⟨h.imageSize, fill bytes 0 h.imageSize 0⟩
    match stack with
    | none => .error .failed
    | some _ => return { ctx with imageBase := some (base, image), stackBase := true }

/-- The value that a relocation writes over `old`. -/
def relocValue (ctx : Context2) (h : Amx2Header) (base : Nat) (s : Amx2Section) (type info old : Nat) :
    Except Stop Nat :=
  match type with
  | 0 => .ok (old + base)
  | 1 => .ok (old + base + 2 ^ 32 - s.vaddr)
  | 2 =>
    match ctx.importTable with
    | none => .error .failed
    | some table => if h.importCount ≤ info then .error .failed else .ok (table.getD info 0)
  | _ => .error .failed

/-- One turn of the loop of `exec2_relocate`. -/
def relocate2One (ctx : Context2) (h : Amx2Header) (file : Buf) (base : Nat) (image : Buf) (i : Nat) :
    Except Stop Buf := do
  let r := h.relocOffset + i * amx2RelocSize
  let idx ← file.get (r + 4) 2
  failIf (h.sectionCount ≤ idx)
  match ctx.sections[idx]? with
  | none => .error .outside
  | some s =>
    let offset ← file.get r 4
    failIf (s.memSize ≤ offset ∨ s.memSize < offset + 4)
    let vaddr := (s.vaddr + offset) % 2 ^ 32
    failIf (h.imageSize ≤ vaddr)
    let type ← file.get (r + 6) 2
    let info ← file.get (r + 12) 4
    let old ← image.get vaddr 4
    let v ← relocValue ctx h base s type info old
    image.put vaddr 4 v

def exec2Relocate (ctx : Context2) : Except Stop Context2 := do
  let (h, file) ← ctx.loaded
  match ctx.imageBase with
  | none => .error .failed
  | some (base, image) =>
    if h.relocCount = 0 then return ctx
    else do
      failIf (file.size < (h.relocOffset + h.relocCount * amx2RelocSize) % 2 ^ 32)
      let image ← (List.range h.relocCount).foldlM (relocate2One ctx h file base) image
      return { ctx with imageBase := some (base, image) }

/-- `"kernel"`. -/
def kernelName : List Byte := [0x6B, 0x65, 0x72, 0x6E, 0x65, 0x6C]

/-- One turn of the loop of `exec2_resolve_imports`. -/
def resolveImport (h : Amx2Header) (file : Buf) (table : List Nat) (i : Nat) : Except Stop (List Nat) := do
  let imp := h.importOffset + i * amx2ImportSize
  let moduleName ← file.get imp 4
  failIf (h.stringSize ≤ moduleName)
  let symbolName ← file.get (imp + 4) 4
  failIf (h.stringSize ≤ symbolName)
  -- both strings are printed, and the first one is compared
  let moduleString ← file.string (h.stringOffset + moduleName)
  let _ ← file.string (h.stringOffset + symbolName)
  failIf (moduleString ≠ kernelName)
  return table ++ [0]

def exec2ResolveImports (table : Alloc) (ctx : Context2) : Except Stop Context2 := do
  let (h, file) ← ctx.loaded
  if h.importCount = 0 then return ctx
  else do
    failIf (file.size < (h.importOffset + h.importCount * amx2ImportSize) % 2 ^ 32)
    failIf (file.size < (h.stringOffset + h.stringSize) % 2 ^ 32)
    match table with
    | none => .error .failed
    | some _ =>
      let table ← (List.range h.importCount).foldlM (resolveImport h file) []
      return { ctx with importTable := some table }

/-! ## Runs -/

inductive Call2
  | map (image stack : Alloc)
  | resolveImports (table : Alloc)
  | relocate

def Call2.run (ctx : Context2) : Call2 → Except Stop Context2
  | .map image stack => exec2Map image stack ctx
  | .resolveImports table => exec2ResolveImports table ctx
  | .relocate => exec2Relocate ctx

/-- `exec2_load` and calls on its context; as in `exec2_run`, the first one that fails is the last. -/
def loader2 (files : String → Option (List Byte)) (path : String) (a : LoadAllocs) (stack : Mem) (cs : List Call2) :
    Except Stop Context2 := do
  let ctx ← exec2Load files path a stack
  cs.foldlM Call2.run ctx

/-! ## The assertion -/

theorem amx2ReadHeader_halts (buf : Buf) : amx2ReadHeader buf = .error .halted := by
  have hassert : assert (amx2HeaderSize = sizeofAmx2Header) = .error .halted := if_neg (by decide)
  unfold amx2ReadHeader
  rw [hassert]
  rfl

theorem amfsFill_error {file : List Byte} {n : Nat} {buf : Buf} {stop : Stop}
    (h : amfsFill file n buf = .error stop) : stop = .failed := by
  unfold amfsFill at h
  split at h
  · injection h with h
    exact h.symm
  · cases h

theorem readFile_stops (files : String → Option (List Byte)) (path : String) (a : LoadAllocs) (stack : Mem) :
    readFile files path a stack = .error .failed ∨ readFile files path a stack = .error .halted := by
  unfold readFile failIf
  by_cases hpath : path.toList.head? ≠ some '/' ∨ path = "/"
  · rw [if_pos hpath]
    exact Or.inl rfl
  rw [if_neg hpath]
  cases hfile : files path with
  | none => exact Or.inl rfl
  | some file =>
    cases hfill : amfsFill file amx2HeaderSize ⟨amx2HeaderSize, stack⟩ with
    | error stop =>
      rw [amfsFill_error hfill] at hfill
      exact Or.inl (by simp [bind, Except.bind, hfill])
    | ok hdrBuf => exact Or.inr (by simp [bind, Except.bind, hfill, amx2ReadHeader_halts])

theorem exec2Load_stops (files : String → Option (List Byte)) (path : String) (a : LoadAllocs) (stack : Mem) :
    exec2Load files path a stack = .error .failed ∨ exec2Load files path a stack = .error .halted := by
  unfold exec2Load
  rcases readFile_stops files path a stack with h | h
  · rw [h]
    exact Or.inl rfl
  · rw [h]
    exact Or.inr rfl

end Exec
end AmitX
