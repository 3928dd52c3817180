import AmitX.SmkFs.Dir
/-!
# Path — paths (`path.c`)

A path is the letter of a drive, a colon, a slash and the names of the way down, with slashes between them.  `path_lookup`
reads the names into a buffer of 256 bytes; `path_split` cuts the path at its last slash.  The number of the mount's drive
is a parameter.
-/
namespace AmitX
namespace SmkFs

open Prog

def slash : UInt8 := 47
def colon : UInt8 := 58
def letterA : UInt8 := 65
def pathLen : Nat := 4096

/-- Byte `i` of a string; 0 behind its end. -/
def CStr.byte (s : CStr) (i : Nat) : UInt8 := s.bytes.getD i 0

def pathValid (path : CStr) : Prop := path.byte 1 = colon ∧ path.byte 2 = slash

instance (path : CStr) : Decidable (pathValid path) := inferInstanceAs (Decidable (_ ∧ _))

def pathValidate (path : CStr) : FsM Unit := failIf (¬pathValid path) .inval

def CStr.skipSlashes (p : CStr) : CStr :=
  ⟨p.bytes.dropWhile (· == slash), fun c h => p.nonzero c (List.dropWhile_sublist _ |>.subset h)⟩

def CStr.upToSlash (p : CStr) : CStr :=
  ⟨(p.bytes.takeWhile (· != slash)).take (nameLen - 1),
    fun c h => p.nonzero c (List.takeWhile_sublist _ |>.subset (List.mem_of_mem_take h))⟩

/-- Go down the names of `p`; a turn takes at least one byte. -/
def pathWalk (n : Nat) : Nat → CStr → Nat → FsM Nat
  | 0, _, _ => throw .diverge
  | k + 1, p, current =>
    let p := p.skipSlashes
    if p.bytes = [] then pure current
    else do
      let next ← (smkfsLookupByName n current p.upToSlash).orThrow .notfound
      pathWalk n k (p.drop p.upToSlash.strlen) next

def pathLookup (n : Nat) (driveNum : UInt8) (path : CStr) : FsM Nat := do
  pathValidate path
  failIf (path.byte 0 - letterA ≠ driveNum) .inval
  let sb ← getSb
  pathWalk n (path.strlen + 1) (path.drop 3) sb.rootRecordId

/-- The place of the last slash, as `strrchr` finds it. -/
def lastSlash (path : CStr) : Option Nat :=
  if slash ∈ path.bytes then some (path.strlen - 1 - path.bytes.reverse.idxOf slash) else none

def pathSplit (n : Nat) (driveNum : UInt8) (path : CStr) : FsM (Nat × CStr) := do
  let sb ← getSb
  if lastSlash path = none ∨ lastSlash path = some 2 then do
    failIf (nameLen ≤ (path.drop 3).strlen) .tooBig
    pure (sb.rootRecordId, path.drop 3)
  else do
    let len := (lastSlash path).getD 0
    failIf (pathLen ≤ len) .tooBig
    let parentPath ← malloc
    failIf (parentPath = false) .nomem
    let parent ← (pathLookup n driveNum (path.take len)).orThrow .notfound
    failIf (nameLen ≤ (path.drop (len + 1)).strlen) .tooBig
    pure (parent, path.drop (len + 1))

end SmkFs
end AmitX
