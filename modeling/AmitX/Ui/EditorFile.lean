import AmitX.Amfs.ShortReads
import AmitX.Ui.EditorRun
/-!
# EditorFile — a file through the editor

`ed_load` reads into 4096 bytes and takes what it gets for the file, and `ed_save` writes the whole text back under the
first 127 characters of the path.  What the editor saves is the edited file if the file fits the buffer, and only then.
-/
namespace AmitX
namespace Ui

open Bytes Loop Lines
open Amfs (Volume FilePath Geometry Owned amfsRead amfsWrite readInode writeInode inodeRead pathLookup)

/-! ## Loading and saving -/

/-- `buf` has 4096 bytes, of which `amfs_read` gets all but the one for the zero. -/
def edLoad (behind : Mem) (v : Volume) (answer : Option Mem) (s : Editor) (path : List Byte) : Except Fault Editor :=
  if (pathLookup behind v path).isNone then .ok { s with dirty := false }
  else
    match amfsRead behind v path (4096 - 1) with
    | none => .ok s
    | some bytes => do
      let s ← edGrow answer s (bytes.length + 1)
      s.touch 0 (bytes.length + 1)
      edUpdateCxCy { s with
        data := copy s.data 0 (ofList bytes) 0 (bytes.length + 1), size := bytes.length, cursor := 0, dirty := false }

/-- What `ed_save` says. -/
inductive Saved
  | unchanged
  | failed
  | written
  deriving DecidableEq

def edSave (behind : Mem) (v : Volume) (s : Editor) : Saved × Volume × Editor :=
  if s.dirty = false then (.unchanged, v, s)
  else
    let r := amfsWrite behind v s.path (slice s.data 0 s.size)
    if r.1 ≠ 0 then (.failed, r.2, s) else (.written, r.2, { s with dirty := false })

/-- **Editing loses nothing** of the file with inode `n` and bytes `data`: whatever is edited while the heap gives what
is asked for, the file is the edited one after a save that does not fail. -/
def EditKept (v : Volume) (path : List Byte) (n : Nat) (data : List Byte) : Prop :=
  ∀ (b b' : Mem) (first load : Mem), FilePath b v path n → FilePath b' v (path.take 127) n →
    ∃ s, edLoad b v (some load) (edInit path (some first)) path = .ok s ∧ ∀ ops, Granted s ops →
      ∃ s', edRun s ops = .ok s' ∧ ((edSave b' v s').1 ≠ .failed → ∀ b'' size, FilePath b'' v path n → 0 < size →
        (effectsOn ⟨[], data⟩ ops).all.length ≤ size →
          amfsRead b'' (edSave b' v s').2.1 path size = some (effectsOn ⟨[], data⟩ ops).all)

variable {v w : Volume} {b behind : Mem} {path data bytes : List Byte} {n : Nat} {s : Editor} {first load : Mem}

/-! ## What is loaded -/

theorem double_le {m cap newCap : Nat} (hcap : cap ≤ 8192) (hm : m ≤ 4096)
    (hl : loop (doubleStep m) (m + 1) cap = some newCap) : newCap ≤ 8192 := by
  refine loop_post (I := fun cap => cap ≤ 8192) (Q := fun r => r ≤ 8192) ?_ ?_ hcap hl
  · intro cap cap' hle hstep
    unfold doubleStep at hstep
    split at hstep
    · cases hstep
      omega
    · cases hstep
  · intro cap r hle hstep
    unfold doubleStep at hstep
    split at hstep
    · cases hstep
    · cases hstep
      exact hle

theorem edGrow_load {m : Nat} (load : Mem) (hcap : s.capacity = 1024) (hsize : s.size = 0) (hm : m ≤ 4096) :
    ∃ block capacity, edGrow (some load) s m = .ok { s with data := block, capacity := capacity } ∧ m ≤ capacity ∧
      0 < capacity := by
  by_cases hfit : m ≤ s.capacity
  · exact ⟨s.data, s.capacity, edGrow_fits hfit, hfit, by omega⟩
  · obtain ⟨newCap, hl, hle⟩ := double_reaches (m := m) (show 0 < s.capacity * 2 by omega)
    have hmax := double_le (by omega) hm hl
    have hheap : newCap ≤ Mm.heapSize := Nat.le_trans hmax (by decide)
    refine ⟨copy load 0 s.data 0 s.size, newCap, ?_, hle, by omega⟩
    rw [edGrow, if_neg hfit, hl]
    dsimp only
    rw [edMalloc, if_pos hheap]
    dsimp only
    rw [touch_ok (by omega)]
    rfl

theorem slice_copied (m : Mem) (bytes : List Byte) :
    slice (copy m 0 (ofList bytes) 0 (bytes.length + 1)) 0 bytes.length = bytes := by
  refine Eq.trans (slice_congr (fun i hi => ?_)) (Amfs.slice_ofList bytes)
  rw [copy_of_mem (by omega) (by omega), Nat.sub_zero, Nat.zero_add]

theorem edLoad_ok (hp : pathLookup b v path = some n) (hr : amfsRead b v path (4096 - 1) = some bytes)
    (hlen : bytes.length ≤ 4095) : ∃ s, edLoad b v (some load) (edInit path (some first)) path = .ok s ∧ s.Inv ∧
      s.text = ⟨[], bytes⟩ ∧ s.path = path.take 127 ∧ s.dirty = false := by
  have hfirst : edMalloc (some first) 1024 = some first := by
    rw [edMalloc, if_pos (by decide)]
  have hinit : (edInit path (some first)).size = 0 ∧ (edInit path (some first)).path = path.take 127 := by
    rw [edInit, hfirst]
    exact ⟨rfl, rfl⟩
  have hgiven : (edMalloc (some first) 1024).isSome = true := by rw [hfirst]; rfl
  obtain ⟨-, -, hcap⟩ := edInit_inv path hgiven
  obtain ⟨block, capacity, hgrow, hroom, hpos⟩ := edGrow_load load hcap hinit.1
    (show bytes.length + 1 ≤ 4096 by omega)
  rw [edLoad, hp, if_neg (by simp), hr]
  dsimp only
  rw [hgrow, ok_bind, touch_ok (by dsimp only; omega), ok_bind]
  refine ⟨_, rfl, ⟨Nat.zero_le _, hroom, rfl, rfl⟩, ?_, hinit.2, rfl⟩
  exact congrArg (Text.mk []) (slice_copied block bytes)

/-! ## Runs on the text -/

theorem effectsOn_rights (d : List Byte) : ∀ {k : Nat}, k ≤ d.length →
    effectsOn ⟨[], d⟩ (List.replicate k .right) = ⟨d.take k, d.drop k⟩
  | 0, _ => rfl
  | k + 1, h => by
    rw [List.replicate_succ', effectsOn_concat, effectsOn_rights d (by omega)]
    change Text.moveTo ((d.take k).length + 1) ⟨d.take k, d.drop k⟩ = _
    rw [Text.moveTo, Text.all, List.take_append_drop, List.length_take, Nat.min_eq_left (by omega)]

theorem effectsOn_deletes (t : Text Byte) : ∀ k : Nat,
    effectsOn t (List.replicate k .delete) = ⟨t.before.take (t.before.length - k), t.after⟩
  | 0 => by
    rw [Nat.sub_zero, List.take_length]
    rfl
  | k + 1 => by
    rw [List.replicate_succ', effectsOn_concat, effectsOn_deletes t k]
    change Text.mk _ _ = _
    rw [List.dropLast_eq_take, List.take_take, List.length_take]
    congr 2
    omega

def keepOne : List EditOp := List.replicate 4095 .right ++ List.replicate 4094 .delete

theorem effectsOn_keepOne {d : List Byte} (h : 4095 ≤ d.length) :
    effectsOn ⟨[], d⟩ keepOne = ⟨d.take 1, d.drop 4095⟩ := by
  have hfold : effectsOn ⟨[], d⟩ keepOne =
      effectsOn (effectsOn ⟨[], d⟩ (List.replicate 4095 .right)) (List.replicate 4094 .delete) := List.foldl_append
  rw [hfold, effectsOn_rights d h, effectsOn_deletes]
  dsimp only
  rw [List.length_take, Nat.min_eq_left h, List.take_take]
  rfl

theorem granted_keepOne (s : Editor) : Granted s keepOne := by
  rintro before op after s' he -
  have hop : op ∈ keepOne := by rw [he]; simp
  rcases List.mem_append.1 hop with hop | hop
  · rw [(List.mem_replicate.1 hop).2]
    trivial
  · rw [(List.mem_replicate.1 hop).2]
    trivial

/-! ## The file -/

section

variable (g : Geometry v) (ho : Owned v) (hm : v.mounted = true)
  (hdata : readInode v n (inodeRead v n).size = some data)
include hm hdata

theorem edLoad_file (hp : FilePath b v path n) (first load : Mem) :
    ∃ s, edLoad b v (some load) (edInit path (some first)) path = .ok s ∧ s.Inv ∧
      s.text = ⟨[], data.take 4095⟩ ∧ s.path = path.take 127 ∧ s.dirty = false := by
  refine edLoad_ok hp.isFile.lookup ?_ (by rw [List.length_take]; omega)
  rw [Amfs.amfsRead_eq hp.isFile, if_neg (by simp [hm])]
  exact (Amfs.readInode_take hdata 4095).2

include g ho

theorem editKept_of_short (hlen : data.length ≤ 4095) : EditKept v path n data := by
  intro b b' first load hp hcut
  obtain ⟨s, hload, hinv, htext, hpath, hclean⟩ := edLoad_file hm hdata hp first load
  rw [List.take_of_length_le hlen] at htext
  refine ⟨s, hload, fun ops hg => ?_⟩
  obtain ⟨s', hrun, hinv', htext', hpath', hclean'⟩ := edRun_ok hinv hg
  refine ⟨s', hrun, fun hsaved b'' size hp'' hpos hle => ?_⟩
  rw [htext] at htext'
  rw [← htext'] at hle ⊢
  unfold edSave at hsaved ⊢
  by_cases hd : s'.dirty = false
  · -- nothing was changed: the file is the one that was loaded
    rw [if_pos hd]
    have hall := (hclean' hd).2
    rw [htext] at hall
    rw [hall] at hle ⊢
    change data.length ≤ size at hle
    rw [Amfs.amfsRead_eq hp''.isFile, if_neg (not_or.2 ⟨by simp [hm], by omega⟩), (Amfs.readInode_take hdata size).2,
      List.take_of_length_le hle]
    rfl
  · rw [if_neg hd] at hsaved ⊢
    rw [← all_text hinv'.cursor_le, hpath', hpath] at hsaved ⊢
    dsimp only at hsaved ⊢
    by_cases h0 : (amfsWrite b' v (path.take 127) s'.text.all).1 ≠ 0
    · rw [if_pos h0] at hsaved
      exact absurd rfl hsaved
    · rw [if_neg h0]
      exact Amfs.amfsRead_written g ho hcut (not_not.1 h0) hp'' hle

theorem short_of_editKept (hp : FilePath behind v path n) (hcut : FilePath behind v (path.take 127) n)
    (h : EditKept v path n data) : data.length ≤ 4095 := by
  by_contra hlong
  obtain ⟨n, rfl⟩ : ∃ m : Fin 64, n = m := ⟨⟨n, hp.lt⟩, rfl⟩
  obtain ⟨s, hload, hkept⟩ := h behind behind (fun _ => 0) (fun _ => 0) hp hcut
  obtain ⟨s₁, hload₁, hinv, htext, hpath, -⟩ := edLoad_file hm hdata hp (fun _ => 0) (fun _ => 0)
  rw [hload] at hload₁
  cases hload₁
  obtain ⟨s', hrun, hsaved⟩ := hkept keepOne (granted_keepOne s)
  obtain ⟨s₂, hrun₂, hinv', htext', hpath', hclean⟩ := edRun_ok hinv (granted_keepOne s)
  rw [hrun] at hrun₂
  cases hrun₂
  have hlen : (data.take 4095).length = 4095 := by
    rw [List.length_take]
    omega
  have hone : s'.text.all = data.take 1 := by
    rw [htext', htext, effectsOn_keepOne (by omega), List.take_take, List.drop_of_length_le (by omega)]
    exact List.append_nil _
  have hd : s'.dirty ≠ false := by
    intro hd
    have hall := (hclean hd).2
    rw [htext, hone] at hall
    have := congrArg List.length hall
    change (data.take 1).length = (data.take 4095).length at this
    rw [hlen, List.length_take] at this
    omega
  have hne : data.take 1 ≠ [] := by
    intro hnil
    have := congrArg List.length hnil
    rw [List.length_take, List.length_nil] at this
    omega
  have hblock := Amfs.refAt_of_read hdata (by rintro rfl; simp at hlong)
  have hwrite : amfsWrite behind v (path.take 127) (data.take 1) = writeInode v n (data.take 1) := by
    rw [Amfs.amfsWrite_eq hcut.isFile, if_neg (not_or.2 ⟨by simp [hm], hne⟩)]
  have h0 : (amfsWrite behind v (path.take 127) (data.take 1)).1 = 0 := by
    rw [hwrite]
    exact Amfs.writeInode_block_of_owned g ho hp.isFile.file hblock hne (by rw [List.length_take]; omega)
  have hsave : edSave behind v s' = (.written, (amfsWrite behind v (path.take 127) (data.take 1)).2,
      { s' with dirty := false }) := by
    unfold edSave
    rw [if_neg hd, ← all_text hinv'.cursor_le, hone, hpath', hpath]
    dsimp only
    rw [if_neg (not_not_intro h0)]
  rw [effectsOn_keepOne (by omega), hsave] at hsaved
  have hread := hsaved (by simp) behind (data.length + 1) hp (by omega) (by
    simp only [Text.all, List.length_append, List.length_take, List.length_drop]
    omega)
  have hback := Amfs.amfsRead_written g ho hcut h0 hp (show (data.take 1).length ≤ data.length + 1 by
    rw [List.length_take]
    omega)
  rw [hback] at hread
  have hsame := congrArg List.length (Option.some.inj hread)
  simp only [Text.all, List.length_append, List.length_take, List.length_drop] at hsame
  omega

end

def letters : List Byte := List.replicate 4096 97#8

theorem length_letters : letters.length = 4096 := List.length_replicate

/-- A volume on which `"/f"` holds them. -/
def lettersVolume : Volume := (writeInode Amfs.createdVolume 1 letters).2

theorem lettersVolume_keeps : Amfs.Sound lettersVolume ∧ Amfs.NoLeak lettersVolume := by
  obtain ⟨hs, hl⟩ := Amfs.createdVolume_keeps
  refine Amfs.writeInode_keeps (n := 1) hs hl (fun _ hlong => ?_)
  rw [length_letters] at hlong
  omega

theorem letters_blocks :
    (Amfs.writeBlocks 1 letters (Amfs.emptied Amfs.createdVolume 1) (List.range' 0 8)).1 = true := by
  decide +kernel

theorem letters_written : (writeInode Amfs.createdVolume 1 letters).1 = 0 := by
  rw [Amfs.writeInode_eq _ _ _ Amfs.createdVolume_file.isFile.file, length_letters]
  dsimp only
  rw [show (4096 + 511) / 512 = 8 by decide, if_pos letters_blocks]

theorem lettersVolume_file : lettersVolume.mounted = true ∧ FilePath (fun _ => 0) lettersVolume Amfs.pathF 1 ∧
    readInode lettersVolume 1 (inodeRead lettersVolume 1).size = some letters := by
  have hfile := Amfs.createdVolume_file
  have hne : letters ≠ [] := List.ne_nil_of_length_pos (by rw [length_letters]; decide)
  obtain ⟨-, hout⟩ := Amfs.writeInode_outcome (n := 1) Amfs.createdVolume_keeps.1 hfile.isFile.file hne
  have h0 := letters_written
  unfold lettersVolume
  generalize hr : writeInode Amfs.createdVolume 1 letters = r at h0 ⊢
  have hout : Amfs.Outcome Amfs.createdVolume 1 letters r := hr ▸ hout
  cases hout with
  | failed left size => cases h0
  | done left size block =>
    refine ⟨?_, hfile.left (n := 1) hfile.isFile.file left, ?_⟩
    · rw [Amfs.mounted_of_memory left.memory]
      exact Amfs.createdVolume_tight.1
    · exact Amfs.readInode_done (n := 1) left.type size block (Nat.le_of_eq size.symm)

/-- **Editing loses nothing exactly of the files that fit the buffer of `ed_load`**, where the path that `ed_init` keeps
still names the file. -/
theorem editKept_iff (g : Geometry v) (ho : Owned v) (hm : v.mounted = true) (hp : FilePath behind v path n)
    (hcut : FilePath behind v (path.take 127) n) (hdata : readInode v n (inodeRead v n).size = some data) :
    EditKept v path n data ↔ data.length ≤ 4095 :=
  ⟨short_of_editKept g ho hm hdata hp hcut, editKept_of_short g ho hm hdata⟩

theorem editKept_iff_letters : EditKept lettersVolume Amfs.pathF 1 letters ↔ letters.length ≤ 4095 := by
  obtain ⟨hm, hp, hdata⟩ := lettersVolume_file
  exact editKept_iff lettersVolume_keeps.1.geometry (lettersVolume_keeps.1.owned lettersVolume_keeps.2) hm hp hp hdata

/-- The last of 4096 letters is lost. -/
theorem not_editKept : ¬∀ (behind : Mem) (v : Volume) (path data : List Byte) (n : Nat), Geometry v → Owned v →
    v.mounted = true → FilePath behind v path n → FilePath behind v (path.take 127) n →
      readInode v n (inodeRead v n).size = some data → EditKept v path n data := by
  intro h
  obtain ⟨hm, hp, hdata⟩ := lettersVolume_file
  have g := lettersVolume_keeps.1.geometry
  have ho := lettersVolume_keeps.1.owned lettersVolume_keeps.2
  have hkept := h (fun _ => 0) lettersVolume Amfs.pathF letters 1 g ho hm hp hp hdata
  have hle := short_of_editKept g ho hm hdata hp hp hkept
  rw [length_letters] at hle
  omega

end Ui
end AmitX
