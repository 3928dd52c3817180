import AmitX.Amfs.Agree
import AmitX.Amfs.DirKeeps
/-!
# RoundTrip — what `amfs_read` gives after `amfs_write`

`amfs_write` truncates the file and writes it block by block.  Every step keeps all other nodes (`Others`) and what is
already written (`Written`): a write that succeeds is read back, and one that fails leaves an empty file.
-/
namespace AmitX
namespace Amfs

open Bytes
open Run (run Allowed)

variable {v v' u w : Volume} {n m : Fin 64} {i j k q size : Nat} {data path : List Byte} {behind : Mem}

/-! ## The other nodes -/

/-- Every node but `n` is what it was. -/
structure Others (v w : Volume) (n : Fin 64) : Prop where
  memory : w.memory = v.memory
  node : ∀ m : Fin 64, m ≠ n → SameNode v w m

theorem Others.trans (h : Others v v' n) (h' : Others v' w n) : Others v w n :=
  ⟨h'.memory.trans h.memory, fun m hm => (h.node m hm).trans (h'.node m hm)⟩

theorem Sound.refAt_ne (h : Sound v) (hm : m ≠ n) (h0 : refAt v m q ≠ 0) : refAt v m q ≠ refAt v n i := by
  intro he
  obtain ⟨s, hs, -, href⟩ := exists_ref_of_refAt h0
  obtain ⟨s', hs', -, href'⟩ := exists_ref_of_refAt (he ▸ h0)
  have := h.slots.once s s' (href.symm ▸ h0) (by rw [href, href', he])
  rw [← hs, ← hs', this] at hm
  exact hm rfl

theorem Sound.others_data (h : Sound v) (h0 : refAt v n i ≠ 0) (buf : Mem) :
    Others v (writeSector v (refAt v n i) buf) n := by
  have hsame := h.same_slot h0 buf
  have harea := h.refAt_area h0
  refine ⟨rfl, fun m hm => ⟨hsame.types m, ?_, fun q => ⟨?_, fun hq => ?_⟩⟩⟩
  · have := h.geometry.sector_lt m
    rw [inodeRead_writeSector (by omega)]
  · exact refAt_of_refs (fun p _ => hsame.refs ⟨m, p⟩)
  · exact disk_writeSector_ne (h.refAt_ne hm hq)

theorem Sound.others_inode (h : Sound v) (n : Fin 64) (ino : Inode) : Others v (inodeWrite v n ino) n := by
  refine ⟨memory_inodeWrite v n ino, fun m hm => ⟨typeOf_inodeWrite_ne hm, ?_, fun q => ⟨?_, fun hq => ?_⟩⟩⟩
  · exact load_inodeWrite_ne (fun he => hm (Fin.ext he)) (by omega)
  · exact refAt_of_refs (fun p _ => ref_inodeWrite_ne h hm p)
  · exact h.geometry.disk_inodeWrite n ino (h.refAt_area hq)

theorem Given.ref_ne {r : Nat × Volume} {s s' : Slot} (hg : Given v s r) (hs : s' ≠ s) :
    Amfs.ref r.2 s' = Amfs.ref v s' := by
  cases hg with
  | there h => rfl
  | full h0 hfull => rfl
  | fresh ha => rw [ha.refs, Function.update_of_ne hs]

theorem Taken.ref_ne {r : Nat × Volume} (ht : Taken v n q r) (hm : m ≠ n) (p : Pos) :
    Amfs.ref r.2 ⟨m, p⟩ = Amfs.ref v ⟨m, p⟩ := by
  have hs : ∀ p', (⟨m, p⟩ : Slot) ≠ ⟨n, p'⟩ := by
    intro p' he
    exact hm (congrArg Slot.inode he)
  cases ht with
  | direct hq hg => exact hg.ref_ne (hs _)
  | none hq => rfl
  | entry hq hk hg =>
    cases hg with
    | given hg => exact hg.ref_ne (hs _)
    | leak h0 hl => exact hl.refs _
    | both h1 h2 =>
      rw [h2.refs, Function.update_of_ne (hs _), h1.refs, Function.update_of_ne (hs _)]

theorem Taken.others {r : Nat × Volume} (h : Sound v) (hn : typeOf v n ≠ typeFree) (ht : Taken v n q r)
    (hm : r.2.memory = v.memory) : Others v r.2 n := by
  have hk := (ht.kept h hn).1
  refine ⟨hm, fun m hm => ⟨hk.types m, hk.sizes m, fun q => ⟨?_, fun hq => (hk.refAt hq).2⟩⟩⟩
  exact refAt_of_refs (fun p _ => ht.ref_ne hm p)

theorem others_emptied (h : Sound v) (n : Fin 64) : Others v (emptied v n) n := by
  have hr := emptied_released h n
  obtain ⟨ino', he, -⟩ := truncate_eq v (h.table_ne_one n)
  have hmem : (emptied v n).memory = v.memory := by
    unfold emptied
    rw [memory_inodeWrite, memory_truncate]
  refine ⟨hmem, fun m hm => ⟨?_, ?_, fun q => ⟨?_, fun hq => ?_⟩⟩⟩
  · exact (hr.types m).trans (if_neg hm)
  · unfold emptied
    rw [he]
    refine (load_inodeWrite_ne (fun he => hm (Fin.ext he)) (by omega)).trans ?_
    rw [inodeRead_cleared h.geometry]
    rfl
  · exact refAt_of_refs (fun p _ => hr.slots.same ⟨m, p⟩ hm)
  · have harea := h.refAt_area hq
    unfold emptied
    rw [he, Geometry.disk_inodeWrite (h.geometry.of_sb (sb_cleared _ v)) n _ harea, disk_cleared (by omega)]

/-! ## The loop -/

/-- The sector of block `i`. -/
def chunk (data : List Byte) (i : Nat) : List Byte := (data.drop (512 * i)).take 512

/-- The file is empty, but its first `i` blocks are written. -/
structure Written (v u : Volume) (n : Fin 64) (data : List Byte) (i : Nat) : Prop where
  sound : Sound u
  type : typeOf u n = typeFile
  size : (inodeRead u n).size = 0
  others : Others v u n
  block : ∀ j < i, refAt u n j ≠ 0 ∧ u.disk (refAt u n j) = ofList (chunk data j)

theorem Written.start (h : Sound v) (ht : typeOf v n = typeFile) (data : List Byte) :
    Written v (emptied v n) n data 0 := by
  have hr := emptied_released h n
  refine ⟨hr.sound h, ?_, ?_, others_emptied h n, fun j hj => absurd hj (Nat.not_lt_zero j)⟩
  · rw [hr.types, if_pos rfl, ht]
  · exact (load_inodeWrite n (by omega)).trans (Inode.size_setSize (by decide))

theorem Written.take (h : Written v u n data i) :
    Written v (blockForOffset u n (512 * i) true).2 n data i := by
  have hn := ne_free_of_file h.type
  have ht := blockForOffset_taken h.sound hn (512 * i)
  have hmem := memory_blockForOffset u n (512 * i) true
  generalize blockForOffset u n (512 * i) true = r at ht hmem ⊢
  obtain ⟨hk, hs⟩ := ht.kept h.sound hn
  refine ⟨hs, (hk.types n).trans h.type, (hk.sizes n).trans h.size, h.others.trans (ht.others h.sound hn hmem),
    fun j hj => ?_⟩
  obtain ⟨h0, hdisk⟩ := h.block j hj
  obtain ⟨href, hsame⟩ := hk.refAt h0
  rw [href, hsame]
  exact ⟨h0, hdisk⟩

theorem Written.put (h : Written v u n data i) (h0 : refAt u n i ≠ 0) :
    Written v (writeSector u (refAt u n i) (ofList (chunk data i))) n data (i + 1) := by
  have hsame := h.sound.same_slot h0 (ofList (chunk data i))
  have harea := h.sound.refAt_area h0
  have href : ∀ q, refAt (writeSector u (refAt u n i) (ofList (chunk data i))) n q = refAt u n q :=
    fun q => refAt_of_refs (fun p _ => hsame.refs ⟨n, p⟩)
  refine ⟨hsame.sound h.sound, (hsame.types n).trans h.type, ?_, h.others.trans (h.sound.others_data h0 _),
    fun j hj => ?_⟩
  · have := h.sound.geometry.sector_lt n
    rw [inodeRead_writeSector (by omega), h.size]
  · rw [href]
    by_cases hji : j = i
    · rw [hji]
      exact ⟨h0, disk_writeSector ..⟩
    · obtain ⟨hj0, hdisk⟩ := h.block j (by omega)
      refine ⟨hj0, ?_⟩
      rw [disk_writeSector_ne (fun he => hji (h.sound.refAt_inj hj0 he)), hdisk]

theorem writeBlocks_written (data : List Byte) : ∀ (k : Nat) {u : Volume} {i : Nat}, Written v u n data i →
    ∃ j, Written v (writeBlocks n data u (List.range' i k)).2 n data j ∧
      ((writeBlocks n data u (List.range' i k)).1 = true → j = i + k)
  | 0, u, i, h => ⟨i, h, fun _ => rfl⟩
  | k + 1, u, i, h => by
    have hq : 512 * i / 512 = i := Nat.mul_div_cancel_left i (by decide)
    have ht := blockForOffset_taken h.sound (ne_free_of_file h.type) (512 * i)
    have htake := h.take
    rw [hq] at ht
    rw [List.range'_succ]
    unfold writeBlocks
    generalize blockForOffset u n (512 * i) true = r at ht htake ⊢
    dsimp only
    by_cases h0 : r.1 = 0
    · rw [if_pos h0]
      exact ⟨i, htake, fun h => by cases h⟩
    · rw [if_neg h0]
      have href := ht.ref h0
      have hput := htake.put (href.symm ▸ h0)
      rw [href] at hput
      obtain ⟨j, hj, hdone⟩ := writeBlocks_written data k hput
      exact ⟨j, hj, fun h => (hdone h).trans (by omega)⟩

/-! ## What a write to an inode does -/

theorem Sound.sameBlock_setSize (h : Sound v) (n : Fin 64) (x q : Nat) :
    SameBlock v (inodeWrite v n ((inodeRead v n).setSize x)) n q :=
  ⟨refAt_of_refs (fun p _ => (h.same_setSize n x).refs ⟨n, p⟩),
    fun h0 => h.geometry.disk_inodeWrite n _ (h.refAt_area h0)⟩

/-- The file is one, and the other nodes in use are what they were. -/
structure Left (v w : Volume) (n : Fin 64) : Prop where
  memory : w.memory = v.memory
  type : typeOf w n = typeFile
  node : ∀ m : Fin 64, m ≠ n → typeOf v m ≠ typeFree → SameNode v w m

/-- What `amfs_write` leaves: the whole file, or an empty one. -/
inductive Outcome (v : Volume) (n : Fin 64) (data : List Byte) : Int × Volume → Prop
  | done {w : Volume} (left : Left v w n) (size : (inodeRead w n).size = data.length)
      (block : ∀ j < (data.length + 511) / 512, refAt w n j ≠ 0 ∧ w.disk (refAt w n j) = ofList (chunk data j)) :
      Outcome v n data (0, w)
  | failed {w : Volume} (left : Left v w n) (size : (inodeRead w n).size = 0) : Outcome v n data (-1, w)

theorem Written.left (h : Written v u n data i) : Left v u n :=
  ⟨h.others.memory, h.type, fun m hm _ => h.others.node m hm⟩

theorem writeInode_outcome (h : Sound v) (ht : typeOf v n = typeFile) (hne : data ≠ []) :
    Sound (writeInode v n data).2 ∧ Outcome v n data (writeInode v n data) := by
  obtain ⟨j, hw, hdone⟩ := writeBlocks_written (n := n) data ((data.length + 511) / 512) (.start h ht data)
  rw [writeInode_eq v n data ht]
  dsimp only
  generalize writeBlocks n data (emptied v n) (List.range' 0 ((data.length + 511) / 512)) = r at hw hdone ⊢
  by_cases hr : r.1 = true
  · rw [if_pos hr]
    have hj : j = (data.length + 511) / 512 := (hdone hr).trans (Nat.zero_add _)
    subst hj
    have hpos : 0 < data.length := List.length_pos_iff.2 hne
    have hlast := refAt_lt (hw.block ((data.length + 511) / 512 - 1) (by omega)).1
    have hsame := hw.sound.same_setSize n data.length
    have hothers := hw.others.trans (hw.sound.others_inode n ((inodeRead r.2 n).setSize data.length))
    refine ⟨hsame.sound hw.sound, .done ⟨hothers.memory, (hsame.types n).trans hw.type, fun m hm _ =>
      hothers.node m hm⟩ ?_ (fun j hj => ?_)⟩
    · exact (load_inodeWrite n (by omega)).trans (Inode.size_setSize (by omega))
    · obtain ⟨h0, hdisk⟩ := hw.block j hj
      obtain ⟨href, hkeep⟩ := hw.sound.sameBlock_setSize n data.length j
      rw [href, hkeep h0]
      exact ⟨h0, hdisk⟩
  · rw [if_neg hr]
    exact ⟨hw.sound, .failed hw.left hw.size⟩

theorem Agree.writeInode (h : Agree v u) (hs : Sound u) (ht : typeOf u n = typeFile) (data : List Byte) :
    Alike₂ (writeInode v n data) (writeInode u n data) := by
  have hu := ne_free_of_file ht
  have htv : typeOf v n = typeFile := h.type n ▸ ht
  have hv := ne_free_of_file htv
  have g : Geometry v := h.symm.geometry hs.geometry
  have hstart := Written.start hs ht data
  have hempty := h.emptied g hv (h.symm.tableInArea hu (hs.tableInArea n))
  have hr := hempty.writeBlocks data (List.range' 0 ((data.length + 511) / 512)) hstart.sound
    (ne_free_of_file hstart.type)
  obtain ⟨j, hw, -⟩ := writeBlocks_written (n := n) data ((data.length + 511) / 512) hstart
  rw [writeInode_eq v n data htv, writeInode_eq u n data ht]
  dsimp only
  generalize Amfs.writeBlocks n data (Amfs.emptied v n) (List.range' 0 ((data.length + 511) / 512)) = r at hr ⊢
  generalize Amfs.writeBlocks n data (Amfs.emptied u n) (List.range' 0 ((data.length + 511) / 512)) = r' at hr hw ⊢
  have gr : Geometry r.2 := hr.2.symm.geometry hw.sound.geometry
  have htr : typeOf r.2 n ≠ typeFree := by
    rw [← hr.2.type]
    exact ne_free_of_file hw.type
  rw [hr.1]
  by_cases hok : r.1 = true
  · rw [if_pos hok, if_pos hok]
    exact ⟨rfl, hr.2.inodeWrite gr ((hr.2.inode n htr).setSize _)⟩
  · rw [if_neg hok, if_neg hok]
    exact ⟨rfl, hr.2⟩

theorem Left.of_agree {w' : Volume} (h : Left u w' n) (hv : Agree v u) (hu : Sound u) (hw : Agree w w')
    (hs : Sound w') : Left v w n := by
  refine ⟨hw.memory.symm.trans (h.memory.trans hv.memory), (hw.type n).symm.trans h.type, fun m hm hfree => ?_⟩
  have hfree' : typeOf u m ≠ typeFree := by
    rw [hv.type]
    exact hfree
  have hmid := h.node m hm hfree'
  have htype : typeOf w' m ≠ typeFree := by
    rw [typeOf, hmid.type]
    exact hfree'
  exact ((hv.sameNode hu hfree').trans hmid).trans (hw.sameNode hs htype).symm

theorem writeInode_outcome_of_owned (g : Geometry v) (ho : Owned v) (ht : typeOf v n = typeFile) (hne : data ≠ []) :
    Outcome v n data (writeInode v n data) := by
  have hv := agree_mask g
  have hu := sound_mask g ho
  have htu : typeOf v.mask n = typeFile := (hv.type n).trans ht
  obtain ⟨hs, hout⟩ := writeInode_outcome hu htu hne
  have hr := hv.writeInode hu htu data
  generalize writeInode v n data = r at hr ⊢
  generalize writeInode v.mask n data = r' at hr hs hout
  obtain ⟨x, w⟩ := r
  cases hout with
  | @done w' left size block =>
    obtain ⟨rfl, hw⟩ := hr
    have hsame := (hw.sameNode hs (ne_free_of_file left.type)).symm
    refine .done (left.of_agree hv hu hw hs) (hsame.size.trans size) (fun j hj => ?_)
    obtain ⟨h0, hdisk⟩ := block j hj
    obtain ⟨href, hkeep⟩ := hsame.block j
    rw [href, hkeep h0]
    exact ⟨h0, hdisk⟩
  | @failed w' left size =>
    obtain ⟨rfl, hw⟩ := hr
    have hsame := (hw.sameNode hs (ne_free_of_file left.type)).symm
    exact .failed (left.of_agree hv hu hw hs) (hsame.size.trans size)

/-! ## Reading it back -/

theorem length_chunk (data : List Byte) (i : Nat) : (chunk data i).length = min 512 (data.length - 512 * i) := by
  rw [chunk, List.length_take, List.length_drop]

theorem slice_ofList (l : List Byte) : slice (ofList l) 0 l.length = l := by
  apply At.slice
  intro i _
  rw [Nat.zero_add]

theorem readBlocks_chunks : ∀ (k : Nat) {i : Nat}, (data.length + 511) / 512 = i + k →
    (∀ j < i + k, refAt w n j ≠ 0 ∧ w.disk (refAt w n j) = ofList (chunk data j)) →
      readBlocks w n data.length (List.range' i k) = some (data.drop (512 * i))
  | 0, i, hk, _ => by
    rw [List.drop_of_length_le (by omega)]
    rfl
  | k + 1, i, hk, h => by
    obtain ⟨h0, hdisk⟩ := h i (by omega)
    have hrest := readBlocks_chunks k (i := i + 1) (by omega) (fun j hj => h j (by omega))
    rw [List.range'_succ, readBlocks_cons, if_neg h0, hrest, hdisk, ← length_chunk, slice_ofList, Option.map_some]
    congr 1
    rw [Nat.mul_add, ← List.drop_drop]
    exact List.take_append_drop 512 (data.drop (512 * i))

theorem readInode_done (ht : typeOf w n = typeFile) (hsize : (inodeRead w n).size = data.length)
    (hblock : ∀ j < (data.length + 511) / 512, refAt w n j ≠ 0 ∧ w.disk (refAt w n j) = ofList (chunk data j))
    (hle : data.length ≤ size) : readInode w n size = some data := by
  have hne : ¬ (inodeRead w n).type ≠ typeFile := not_not_intro ht
  unfold readInode
  rw [if_neg hne, hsize, Nat.min_eq_left hle]
  dsimp only
  rw [List.range_eq_range', readBlocks_chunks _ (Nat.zero_add _).symm (by rwa [Nat.zero_add])]
  rfl

theorem readInode_empty (ht : typeOf w n = typeFile) (hsize : (inodeRead w n).size = 0) (size : Nat) :
    readInode w n size = some [] := by
  have hne : ¬ (inodeRead w n).type ≠ typeFile := not_not_intro ht
  unfold readInode
  rw [if_neg hne, hsize, Nat.zero_min]
  rfl

theorem readInode_one (hsize : (inodeRead v n).size ≠ 0) : readInode v n 1 ≠ some [] := by
  have hmin : min (inodeRead v n).size 1 = 1 := by omega
  unfold readInode
  rw [hmin]
  split
  case isTrue => exact nofun
  case isFalse =>
    dsimp only
    rw [show List.range ((1 + 511) / 512) = [0] from rfl, readBlocks_cons]
    split
    case isTrue => exact nofun
    case isFalse => exact nofun

/-! ## The calls -/

theorem FilePath.left {b : Mem} {q : List Byte} {m : Nat} (h : FilePath b v q m) (hn : typeOf v n = typeFile)
    (hl : Left v w n) : FilePath b w q m := by
  refine h.kept (sb_of_memory hl.memory) (fun d hd hdir => ?_) ?_
  · have hdir : typeOf v ⟨d, hd⟩ = typeDir := hdir
    refine hl.node ⟨d, hd⟩ (fun he => ?_) (fun hfree => ?_)
    · rw [he, hn] at hdir
      cases hdir
    · rw [hfree] at hdir
      cases hdir
  · have hfile : typeOf v ⟨m, h.lt⟩ = typeFile := h.isFile.file
    by_cases he : (⟨m, h.lt⟩ : Fin 64) = n
    · have := hl.type
      rw [← he] at this
      exact this
    · exact (hl.node ⟨m, h.lt⟩ he (ne_free_of_file hfile)).type.trans hfile

theorem amfsRead_left {b b' : Mem} {q : List Byte} {m : Nat} (h : FilePath b v q m) (h' : FilePath b' v q m)
    (hn : typeOf v n = typeFile) (hm : m ≠ n) (hl : Left v w n) (size : Nat) :
    amfsRead b' w q size = amfsRead b v q size := by
  have hne : (⟨m, h.lt⟩ : Fin 64) ≠ n := fun he => hm (congrArg Fin.val he)
  have hsame := hl.node ⟨m, h.lt⟩ hne (ne_free_of_file h.isFile.file)
  rw [amfsRead_eq (h'.left hn hl).isFile, amfsRead_eq h.isFile, mounted_of_memory hl.memory]
  by_cases hc : v.mounted = false ∨ size = 0
  · rw [if_pos hc, if_pos hc]
  · rw [if_neg hc, if_neg hc]
    exact hsame.readInode size

theorem amfsWrite_eq {n : Nat} (h : IsFile behind v path n) (data : List Byte) : amfsWrite behind v path data =
    if v.mounted = false ∨ data = [] then (-1, v) else writeInode v n data := by
  unfold amfsWrite
  rw [h.lookup]

/-- After a write of `data` to a file, `v` and `w` are the volumes before and after it, the file is read as `data` and
every other file as before.  `File` says which paths are looked at. -/
structure RoundTrip (File : Mem → List Byte → Nat → Prop) (v w : Volume) (path data : List Byte) (n : Nat) : Prop where
  data : ∀ b size, File b path n → data.length ≤ size → amfsRead b w path size = some data
  others : ∀ b b' q m size, File b q m → File b' q m → m ≠ n → amfsRead b' w q size = amfsRead b v q size

/-- **Write and read.**  On an owned volume, a write that succeeds is read back and leaves every other file, where the
inode numbers on the paths are of the table. -/
theorem amfsWrite_roundTrip {n : Nat} (g : Geometry v) (ho : Owned v) (hp : FilePath behind v path n)
    (h0 : (amfsWrite behind v path data).1 = 0) :
    RoundTrip (fun b q m => FilePath b v q m) v (amfsWrite behind v path data).2 path data n := by
  obtain ⟨n, rfl⟩ : ∃ m : Fin 64, n = m := ⟨⟨n, hp.lt⟩, rfl⟩
  have hn : typeOf v n = typeFile := hp.isFile.file
  rw [amfsWrite_eq hp.isFile] at h0 ⊢
  by_cases hc : v.mounted = false ∨ data = []
  · rw [if_pos hc] at h0
    cases h0
  · rw [if_neg hc] at h0 ⊢
    obtain ⟨hm, hne⟩ := not_or.1 hc
    have hout := writeInode_outcome_of_owned g ho hn hne
    generalize writeInode v n data = r at h0 hout ⊢
    cases hout with
    | failed left size => cases h0
    | done left hsize block =>
      constructor
      · intro b size hf hle
        have hpos : 0 < data.length := List.length_pos_iff.2 hne
        rw [amfsRead_eq (hf.left hn left).isFile, mounted_of_memory left.memory, if_neg, readInode_done left.type hsize
          block hle]
        rintro (hm' | hz)
        · exact hm hm'
        · omega
      · intro b b' q m size hf hf' hmn
        exact amfsRead_left hf hf' hn hmn left size

theorem filePath_root {path name : List Byte} {n i : Nat} (hp : components [] path.tail = [name])
    (hroot : v.sb.rootInode = 0) (hf : dirFindEntry behind v 0 name = some (n, i)) (hn : n < 64)
    (hfile : IsFile behind v path n) : FilePath behind v path n := by
  refine ⟨hfile, ?_⟩
  rw [hp, hroot]
  refine ⟨by decide, fun m j hm => ?_⟩
  rw [hf] at hm
  cases hm
  exact hn

theorem createdVolume_facts : dirFindEntry (fun _ => 0) createdVolume 0 [102] = some (1, 0) ∧
    (amfsWrite (fun _ => 0) createdVolume pathF [1]).1 = 0 := by
  decide +kernel

theorem createdVolume_file : FilePath (fun _ => 0) createdVolume pathF 1 := by
  have hp : components [] pathF.tail = [[102]] := by decide
  obtain ⟨-, hlookup, htype, -⟩ := createdVolume_tight
  exact filePath_root hp createdVolume_keeps.1.geometry.rootInode createdVolume_facts.1 (by decide) ⟨hlookup, htype⟩

theorem amfsWrite_roundTrip_created : RoundTrip (fun b q m => FilePath b createdVolume q m) createdVolume
    (amfsWrite (fun _ => 0) createdVolume pathF [1]).2 pathF [1] 1 :=
  amfsWrite_roundTrip createdVolume_keeps.1.geometry (createdVolume_keeps.1.owned createdVolume_keeps.2)
    createdVolume_file createdVolume_facts.2

theorem matchAt_some {d n i s : Nat} {name : List Byte} (hs : slotSector v d i = s) (h0 : s ≠ 0)
    (hn : entryInode (readSector behind v s) (slotOffset i) = n) (hn0 : n ≠ 0)
    (hname : strcmp (readSector behind v s) (slotOffset i + 4) name = true) :
    matchAt behind v d name i = some (n, i) := by
  unfold matchAt
  rw [hs, if_neg h0]
  dsimp only
  rw [hn, if_pos ⟨hn0, hname⟩]

theorem matchAt_none {d i s : Nat} {name : List Byte} (hs : slotSector v d i = s)
    (hname : strcmp (readSector behind v s) (slotOffset i + 4) name = false) : matchAt behind v d name i = none := by
  unfold matchAt
  rw [hs]
  dsimp only
  rw [hname]
  split
  case isTrue => rfl
  case isFalse => exact if_neg (fun h => by cases h.2)

theorem dirFindEntry_of_single {d n i : Nat} {name : List Byte} (htype : (inodeRead v d).type = typeDir)
    (hi : i < entries v d) (hm : matchAt behind v d name i = some (n, i))
    (hother : ∀ j < entries v d, j ≠ i → matchAt behind v d name j = none) :
    dirFindEntry behind v d name = some (n, i) := by
  have hne : ¬ (inodeRead v d).type ≠ typeDir := not_not_intro htype
  unfold dirFindEntry
  rw [if_neg hne, search_single hi hother, hm]

theorem pathLookup_root {n i : Nat} {name : List Byte} (hc : components [] name = [name]) (hroot : v.sb.rootInode = 0)
    (htype : (inodeRead v 0).type = typeDir) (hi : i < entries v 0) (hm : matchAt behind v 0 name i = some (n, i))
    (hother : ∀ j < entries v 0, j ≠ i → matchAt behind v 0 name j = none) :
    pathLookup behind v (slash :: name) = some n := by
  have hne : ¬ (inodeRead v 0).type ≠ typeDir := not_not_intro htype
  have hfind := dirFindEntry_of_single htype hi hm hother
  rw [pathLookup, if_pos rfl, hc, hroot, lookupFrom, if_neg hne, hfind]
  rfl

def nameA : List Byte := [97]

def nameB : List Byte := [98]

def nameLong : List Byte := List.replicate 28 120 ++ [72]

def fakeData : List Byte := [1, 0, 0, 0, 0]

/-- The last character of the long name goes to the entry behind it, and `"/b"` has inode number 72, which is in sector
11. -/
def overlapCalls : List Call :=
  [.create (fun _ => 0) (slash :: nameA), .create (fun _ => 0) (slash :: nameB), .delete (fun _ => 0) (slash :: nameA),
    .create (fun _ => 0) (slash :: nameLong)]

/-- The volume after the first `k` calls. -/
def overlapAt (k : Nat) : Volume := (run Call.run (amfsMkfs (fun _ => 0) blankVolume 13).2 (overlapCalls.take k)).2

def overlapVolume : Volume := (writeInode (overlapAt 4) 1 fakeData).2

/-- The volume after a write to the file 72. -/
def overlapWritten : Volume := (writeInode overlapVolume 72 [1]).2

/-- What the calls find, what they leave, and what the write makes of it. -/
theorem overlap_facts :
    (pathLookupParent (fun _ => 0) (overlapAt 0) (slash :: nameA) = some (0, nameA) ∧
      addSlot (fun _ => 0) (overlapAt 0) 0 < 160 ∧
      pathLookupParent (fun _ => 0) (overlapAt 1) (slash :: nameB) = some (0, nameB) ∧
      addSlot (fun _ => 0) (overlapAt 1) 0 < 160 ∧
      pathLookupParent (fun _ => 0) (overlapAt 3) (slash :: nameLong) = some (0, nameLong) ∧
      addSlot (fun _ => 0) (overlapAt 3) 0 < 160) ∧
    (∀ r ∈ pathLookupParent (fun _ => 0) (overlapAt 2) (slash :: nameA),
      ∀ n ∈ pathLookup (fun _ => 0) (overlapAt 2) (slash :: nameA), r.1 < 64 ∧ n < 64) ∧
    (overlapVolume.sb.rootInode = 0 ∧ overlapVolume.mounted = true ∧
      (inodeRead overlapVolume 0).type = typeDir ∧ entries overlapVolume 0 = 2 ∧
      slotSector overlapVolume 0 0 = 10 ∧ slotSector overlapVolume 0 1 = 10 ∧
      entryInode (readSector (fun _ => 0) overlapVolume 10) 0 = 1 ∧
      strcmp (readSector (fun _ => 0) overlapVolume 10) 4 nameLong = true ∧
      strcmp (readSector (fun _ => 0) overlapVolume 10) 36 nameLong = false ∧
      strcmp (readSector (fun _ => 0) overlapVolume 10) 4 nameB = false ∧
      entryInode (readSector (fun _ => 0) overlapVolume 10) 32 = 72 ∧
      strcmp (readSector (fun _ => 0) overlapVolume 10) 36 nameB = true ∧
      (inodeRead overlapVolume 1).type = typeFile ∧ (inodeRead overlapVolume 72).type = typeFile ∧
      readInode overlapVolume 1 5 = some fakeData ∧ (writeInode overlapVolume 72 [1]).1 = 0) ∧
    overlapWritten.sb.rootInode = 0 ∧ overlapWritten.mounted = true ∧ (inodeRead overlapWritten 0).type = typeDir ∧
    entries overlapWritten 0 = 2 ∧ slotSector overlapWritten 0 0 = 10 ∧ slotSector overlapWritten 0 1 = 10 ∧
    entryInode (readSector (fun _ => 0) overlapWritten 10) 0 = 1 ∧
    strcmp (readSector (fun _ => 0) overlapWritten 10) 4 nameLong = true ∧
    strcmp (readSector (fun _ => 0) overlapWritten 10) 36 nameLong = false ∧
    readInode overlapWritten 1 5 = some [1, 0, 0, 0, 1] := by
  decide +kernel

theorem overlap_fits (k : Nat) : ∀ c ∈ overlapCalls[k]?, c.Fits (overlapAt k) := by
  obtain ⟨⟨ha, ha', hb, hb', hl, hl'⟩, hdelete, -⟩ := overlap_facts
  intro c hc
  have hk : k < 4 := (List.getElem?_eq_some_iff.1 hc).1
  unfold overlapCalls at hc
  obtain rfl | rfl | rfl | rfl : k = 0 ∨ k = 1 ∨ k = 2 ∨ k = 3 := by omega
  · cases hc
    exact nodeFits_root ha ha'
  · cases hc
    exact nodeFits_root hb hb'
  · cases hc
    exact fun r n hr hn => hdelete r hr n hn
  · cases hc
    exact nodeFits_root hl hl'

theorem overlapVolume_keeps : Sound overlapVolume ∧ NoLeak overlapVolume := by
  have hkeep : Sound (overlapAt 4) ∧ NoLeak (overlapAt 4) :=
    run_keeps (fun _ => 0) blankVolume (by decide) (by decide) (Run.allowed_of_get overlap_fits)
  exact writeInode_keeps (n := 1) hkeep.1 hkeep.2 (fun _ h => absurd h (by decide))

/-- **A write to a file changes another** where a long name has been written before an entry. -/
theorem not_amfsWrite_roundTrip : ¬∀ (behind : Mem) (v : Volume) (path data : List Byte) (n : Nat), Geometry v →
    Owned v → v.mounted = true → IsFile behind v path n → (amfsWrite behind v path data).1 = 0 →
      RoundTrip (fun b q m => IsFile b v q m) v (amfsWrite behind v path data).2 path data n := by
  intro h
  obtain ⟨-, -, ⟨hroot, hmount, hdir, htwo, hs0, hs1, hn0, hl0, hl1, hb0, hn1, hb1, hf1, hf72, hread, hwrite⟩,
    hroot', hmount', hdir', htwo', hs0', hs1', hn0', hl0', hl1', hread'⟩ := overlap_facts
  have hb : IsFile (fun _ => 0) overlapVolume (slash :: nameB) 72 := by
    refine ⟨pathLookup_root (by decide) hroot hdir (by rw [htwo]; decide)
      (matchAt_some (i := 1) hs1 (by decide) hn1 (by decide) hb1) (fun j hj hne => ?_), hf72⟩
    rw [htwo] at hj
    obtain rfl : j = 0 := by omega
    exact matchAt_none hs0 hb0
  have hl : IsFile (fun _ => 0) overlapVolume (slash :: nameLong) 1 := by
    refine ⟨pathLookup_root (by decide) hroot hdir (by rw [htwo]; decide)
      (matchAt_some (i := 0) hs0 (by decide) hn0 (by decide) hl0) (fun j hj hne => ?_), hf1⟩
    rw [htwo] at hj
    obtain rfl : j = 1 := by omega
    exact matchAt_none hs1 hl1
  have hl' : pathLookup (fun _ => 0) overlapWritten (slash :: nameLong) = some 1 := by
    refine pathLookup_root (by decide) hroot' hdir' (by rw [htwo']; decide)
      (matchAt_some (i := 0) hs0' (by decide) hn0' (by decide) hl0') (fun j hj hne => ?_)
    rw [htwo'] at hj
    obtain rfl : j = 1 := by omega
    exact matchAt_none hs1' hl1'
  have heq : amfsWrite (fun _ => 0) overlapVolume (slash :: nameB) [1] = writeInode overlapVolume 72 [1] := by
    rw [amfsWrite_eq hb, if_neg]
    simp [hmount]
  have hrt := h (fun _ => 0) overlapVolume (slash :: nameB) [1] 72 overlapVolume_keeps.1.geometry
    (overlapVolume_keeps.1.owned overlapVolume_keeps.2) hmount hb (heq ▸ hwrite)
  rw [heq] at hrt
  change RoundTrip _ _ overlapWritten _ _ _ at hrt
  have hsame := hrt.others (fun _ => 0) (fun _ => 0) (slash :: nameLong) 1 5 hl hl (by decide)
  unfold amfsRead at hsame
  rw [hmount, hmount', hl', hl.lookup] at hsame
  dsimp only at hsame
  rw [hread, hread'] at hsame
  exact absurd hsame (by decide)

theorem amfsRead_empty {b : Mem} (hf : FilePath b v path n) (hn : typeOf v n = typeFile) (hm : v.mounted = true)
    (hl : Left v w n) (hsize : (inodeRead w n).size = 0) (hz : size ≠ 0) : amfsRead b w path size = some [] := by
  rw [amfsRead_eq (hf.left hn hl).isFile, mounted_of_memory hl.memory, if_neg (by simp [hm, hz]),
    readInode_empty hl.type hsize]

/-- **A failing write empties the file:** on an owned volume, and where the inode numbers on the path are of the table,
the file is read as before exactly if there was nothing to write or nothing in the file. -/
theorem amfsRead_of_failed {n : Nat} (g : Geometry v) (ho : Owned v) (hm : v.mounted = true)
    (hp : FilePath behind v path n) (hfail : (amfsWrite behind v path data).1 = -1) :
    (∀ b b' size, FilePath b v path n → FilePath b' v path n →
      amfsRead b' (amfsWrite behind v path data).2 path size = amfsRead b v path size) ↔
    data = [] ∨ (inodeRead v n).size = 0 := by
  obtain ⟨n, rfl⟩ : ∃ m : Fin 64, n = m := ⟨⟨n, hp.lt⟩, rfl⟩
  have hn : typeOf v n = typeFile := hp.isFile.file
  have hm' : ¬v.mounted = false := by
    rw [hm]
    decide
  rw [amfsWrite_eq hp.isFile] at hfail ⊢
  by_cases hne : data = []
  · rw [if_pos (.inr hne)]
    refine iff_of_true (fun b b' size hb hb' => ?_) (.inl hne)
    rw [amfsRead_eq hb.isFile, amfsRead_eq hb'.isFile]
  · have hc : ¬(v.mounted = false ∨ data = []) := not_or.2 ⟨hm', hne⟩
    rw [if_neg hc] at hfail ⊢
    have hout := writeInode_outcome_of_owned g ho hn hne
    generalize writeInode v n data = r at hfail hout ⊢
    cases hout with
    | done left size block => cases hfail
    | @failed w left hsize =>
      have hread : ∀ b size, FilePath b v path n → size ≠ 0 → amfsRead b w path size = some [] :=
        fun b size hb hz => amfsRead_empty hb hn hm left hsize hz
      have hbefore : ∀ b size, FilePath b v path n → size ≠ 0 → amfsRead b v path size = readInode v n size := by
        intro b size hb hz
        rw [amfsRead_eq hb.isFile, if_neg (not_or.2 ⟨hm', hz⟩)]
      constructor
      · intro h
        refine .inr (by_contra (fun h0 => readInode_one h0 ?_))
        rw [← hbefore behind 1 hp (by decide), ← h behind behind 1 hp hp]
        exact hread behind 1 hp (by decide)
      · intro h b b' size hb hb'
        by_cases hz : size = 0
        · rw [amfsRead_eq (hb'.left hn left).isFile, amfsRead_eq hb.isFile, if_pos (.inr hz), if_pos (.inr hz)]
        · rw [hread b' size hb' hz, hbefore b size hb hz, readInode_empty hn (h.resolve_left hne)]

/-- `"/f"` on a volume of two data blocks. -/
def tinyVolume : Volume := (amfsCreate (fun _ => 0) (amfsMkfs (fun _ => 0) blankVolume 12).2 pathF).2

def fullVolume : Volume := (writeInode tinyVolume 1 [1]).2

theorem fullVolume_keeps : Sound fullVolume ∧ NoLeak fullVolume := by
  have hp : pathLookupParent (fun _ => 0) (amfsMkfs (fun _ => 0) blankVolume 12).2 pathF = some (0, [102]) := by
    decide
  have hslot : addSlot (fun _ => 0) (amfsMkfs (fun _ => 0) blankVolume 12).2 0 < 160 := by decide
  obtain ⟨hs, hl⟩ := amfsMkfs_keeps (fun _ => 0) blankVolume (show 12 ≤ 12 by decide) (by decide)
  obtain ⟨hs', hl'⟩ := makeNode_keeps hs hl (show typeFile < 2 ^ 32 by decide) (nodeFits_root hp hslot)
  exact writeInode_keeps (n := 1) hs' hl' (fun _ h => absurd h (by decide))

theorem fullVolume_facts : fullVolume.mounted = true ∧ (inodeRead fullVolume 0).type = typeDir ∧
    entries fullVolume 0 = 1 ∧ slotSector fullVolume 0 0 = 10 ∧
    entryInode (readSector (fun _ => 0) fullVolume 10) 0 = 1 ∧
    strcmp (readSector (fun _ => 0) fullVolume 10) 4 [102] = true ∧ (inodeRead fullVolume 1).type = typeFile ∧
    (inodeRead fullVolume 1).size = 1 ∧ readInode fullVolume 1 1 = some [1] ∧
    (writeInode fullVolume 1 (List.replicate 513 1)).1 = -1 := by
  decide +kernel

theorem fullVolume_file : FilePath (fun _ => 0) fullVolume pathF 1 := by
  obtain ⟨hm, hdir, hone, hs, hn, hl, hfile, -⟩ := fullVolume_facts
  have hmatch : matchAt (fun _ => 0) fullVolume 0 [102] 0 = some (1, 0) := matchAt_some hs (by decide) hn (by decide) hl
  have hroot := fullVolume_keeps.1.geometry.rootInode
  have hi : 0 < entries fullVolume 0 := by
    rw [hone]
    decide
  have hother : ∀ j < entries fullVolume 0, j ≠ 0 → matchAt (fun _ => 0) fullVolume 0 [102] j = none := by
    intro j hj hne
    omega
  exact filePath_root (by decide) hroot (dirFindEntry_of_single hdir hi hmatch hother) (by decide)
    ⟨pathLookup_root (by decide) hroot hdir hi hmatch hother, hfile⟩

theorem replicate_ne_nil : List.replicate 513 (1 : Byte) ≠ [] :=
  List.ne_nil_of_length_pos (by rw [List.length_replicate]; decide)

theorem fullVolume_write : amfsWrite (fun _ => 0) fullVolume pathF (List.replicate 513 1) =
    writeInode fullVolume 1 (List.replicate 513 1) := by
  rw [amfsWrite_eq fullVolume_file.isFile, if_neg]
  rintro (hm | hnil)
  · rw [fullVolume_facts.1] at hm
    cases hm
  · exact replicate_ne_nil hnil

theorem amfsRead_of_failed_full : (∀ b b' size, FilePath b fullVolume pathF 1 → FilePath b' fullVolume pathF 1 →
      amfsRead b' (amfsWrite (fun _ => 0) fullVolume pathF (List.replicate 513 1)).2 pathF size =
        amfsRead b fullVolume pathF size) ↔
    List.replicate 513 (1 : Byte) = [] ∨ (inodeRead fullVolume 1).size = 0 := by
  have hfail : (amfsWrite (fun _ => 0) fullVolume pathF (List.replicate 513 1)).1 = -1 := by
    rw [fullVolume_write]
    exact fullVolume_facts.2.2.2.2.2.2.2.2.2
  exact amfsRead_of_failed fullVolume_keeps.1.geometry (fullVolume_keeps.1.owned fullVolume_keeps.2)
    fullVolume_facts.1 fullVolume_file hfail

/-- **A file of one byte is gone** once a write of 513 finds no second block. -/
theorem not_amfsRead_of_failed : ¬∀ (behind : Mem) (v : Volume) (path data : List Byte) (n : Nat), Geometry v →
    Owned v → v.mounted = true → IsFile behind v path n → (amfsWrite behind v path data).1 = -1 →
      ∀ b b' size, IsFile b v path n → IsFile b' v path n →
        amfsRead b' (amfsWrite behind v path data).2 path size = amfsRead b v path size := by
  intro h
  obtain ⟨hm, -, -, -, -, -, htype, -, hone, hfail⟩ := fullVolume_facts
  have hf := fullVolume_file.isFile
  have hread := h (fun _ => 0) fullVolume pathF (List.replicate 513 1) 1 fullVolume_keeps.1.geometry
    (fullVolume_keeps.1.owned fullVolume_keeps.2) hm hf (by rw [fullVolume_write]; exact hfail) (fun _ => 0) (fun _ => 0) 1
    hf hf
  obtain ⟨-, hout⟩ := writeInode_outcome (n := 1) fullVolume_keeps.1 htype replicate_ne_nil
  rw [fullVolume_write, amfsRead_eq hf, if_neg (by simp [hm]), hone] at hread
  generalize hr : writeInode fullVolume 1 (List.replicate 513 1) = r at hread hfail
  have hout : Outcome fullVolume 1 (List.replicate 513 1) r := hr ▸ hout
  cases hout with
  | done left size block => cases hfail
  | failed left size =>
    rw [amfsRead_empty (n := 1) fullVolume_file htype hm left size (by decide)] at hread
    cases hread

end Amfs
end AmitX
