import AmitX.SmkFs.Dir
import AmitX.SmkFs.TreeKeep
/-!
# TxnKeep — what lasts through a transaction

Between its start and its end a transaction stays open whatever fails, and a journal that is full stays full, since an
entry that finds no room is refused.  Both are properties of the memory that see nothing of the counters of free blocks,
slots and records.
-/
namespace AmitX
namespace SmkFs

open Prog

def Volume.MemHas (P : Mem → Prop) (v : Volume) : Prop := P v.toMem

/-- **A property of the memory that lasts**: logging keeps it, and the counters do not matter to it. -/
structure Lasts (F : Prop) (P : Mem → Prop) : Prop where
  log : ∀ op target len rid payload, Preserves (volView F) (Volume.MemHas P)
    (journalWriteEntry op target len rid payload) (fun _ => True)
  counts : ∀ m m' : Mem, m'.sb.toLayout = m.sb.toLayout → m'.sb.toRing = m.sb.toRing →
    m'.journalInTransaction = m.journalInTransaction → P m → P m'

/-- However the program ends, the property holds of the memory; `F` says whether something may fail. -/
abbrev KeepsMem {α : Type} (F : Prop) (P : Mem → Prop) (m : FsM α) : Prop :=
  Preserves (volView F) (Volume.MemHas P) m (fun _ => True)

section

variable {F : Prop} {α : Type} {P : Mem → Prop}

theorem keepsMem_malloc : KeepsMem F P malloc := fun _ hv => vwp_malloc ⟨trivial, hv⟩ (fun _ => ⟨trivial, hv⟩)

theorem keepsMem_getMem : Preserves (volView F) (Volume.MemHas P) getMem P := fun _ hv =>
  vwp_getMem ⟨hv, hv⟩

theorem keepsMem_getSb : KeepsMem F P getSb := fun _ hv => vwp_getSb ⟨trivial, hv⟩

theorem keepsMem_readBlock (b : Nat) : KeepsMem F P (readBlock b) := fun _ hv => vwp_readBlock ⟨trivial, hv⟩ (fun _ => hv)

theorem keepsMem_writeBlock (b : Nat) (x : BlockData) : KeepsMem F P (writeBlock b x) := fun _ hv =>
  vwp_writeBlock ⟨trivial, hv⟩ (fun _ => hv)

theorem keepsMem_modifyMem {f : Mem → Mem} (h : ∀ m, P m → P (f m)) : KeepsMem F P (modifyMem f) := fun v hv =>
  vwp_modifyMem ⟨trivial, h v.toMem hv⟩

def Mem.Open (m : Mem) : Prop := m.journalInTransaction = true

def Mem.Full (m : Mem) : Prop := journalIsFull m.sb = true

theorem lasts_open : Lasts F Mem.Open where
  log _ _ _ _ _ := keepsMem_getMem.bind (fun _ _ => (preserves_failIf _ _).bind (fun _ _ => (preserves_failIf _ _).bind
    (fun _ _ => (preserves_failIf _ _).bind (fun _ _ => keepsMem_malloc.bind (fun _ _ => (preserves_failIf _ _).bind
    (fun _ _ => (keepsMem_modifyMem (fun _ h => by exact h)).bind (fun _ _ => (keepsMem_writeBlock _ _).bind (fun _ _ =>
    keepsMem_modifyMem (fun _ h => by exact h)))))))))
  counts _ _ _ _ h hp := Eq.trans h hp

theorem lasts_full : Lasts F Mem.Full where
  log _ _ _ _ _ := keepsMem_getMem.bind (fun m (hfull : journalIsFull m.sb = true) => (preserves_failIf _ _).bind
    (fun _ _ => (preserves_failIf _ _).bind (fun _ hno => absurd hfull hno)))
  counts m m' hl hr _ hp := by
    unfold Mem.Full journalIsFull journalNextPos at hp ⊢
    rw [hl, hr]
    exact hp

theorem mapRegion_open (r : Nat) (f : Nat → Nat) (m : Mem) :
    (m.mapRegion r f).journalInTransaction = m.journalInTransaction := rfl

theorem mapFreeBlocks_open (f : Nat → Nat) (m : Mem) :
    (m.mapFreeBlocks f).journalInTransaction = m.journalInTransaction := rfl

theorem countTaken_open (idx : Nat) (m : Mem) : (countTaken idx m).journalInTransaction = m.journalInTransaction := by
  rw [countTaken, mapRegion_open, mapFreeBlocks_open]

variable (h : Lasts F P)
include h

/-! ## The bitmap and the table -/

theorem keepsMem_mapFreeBlocks (f : Nat → Nat) : KeepsMem F P (modifyMem (Mem.mapFreeBlocks f)) :=
  keepsMem_modifyMem (fun m hp => h.counts m _ (mapFreeBlocks_layout f m) (mapFreeBlocks_ring f m)
    (mapFreeBlocks_open f m) hp)

theorem keepsMem_mapMrtFree (f : Nat → Nat) : KeepsMem F P (modifyMem (Mem.mapMrtFree f)) :=
  keepsMem_modifyMem (fun m hp => h.counts m _ rfl rfl rfl hp)

theorem keepsMem_bitmapSet (block : Nat) : KeepsMem F P (bitmapSet block) := by
  refine keepsMem_getSb.bind (fun _ _ => (preserves_failIf _ _).bind (fun _ _ => keepsMem_malloc.bind (fun _ _ =>
    (preserves_failIf _ _).bind (fun _ _ => (keepsMem_readBlock _).bind (fun x _ =>
    (keepsMem_modifyMem (fun m hp => ?_)).bind (fun _ _ => keepsMem_writeBlock _ _))))))
  split
  · exact hp
  · exact h.counts m _ (countTaken_layout _ m) (countTaken_ring _ m) (countTaken_open _ m) hp

theorem keepsMem_bitmapFreeLoop (start : Nat) : ∀ n i freed, KeepsMem F P (bitmapFreeLoop start i n freed)
  | 0, _, _ => preserves_pure trivial
  | n + 1, i, freed => by
    refine keepsMem_getSb.bind (fun sb _ => Preserves.ite (fun _ => keepsMem_bitmapFreeLoop start n (i + 1) freed)
      (fun _ => (keepsMem_readBlock _).bind (fun x _ => Preserves.ite (fun _ => ?_)
        (fun _ => (keepsMem_writeBlock _ _).bind (fun _ _ => keepsMem_bitmapFreeLoop start n (i + 1) freed)))))
    refine (keepsMem_modifyMem (fun m hp => ?_)).bind (fun _ _ => (keepsMem_writeBlock _ _).bind (fun _ _ =>
      keepsMem_bitmapFreeLoop start n (i + 1) (freed + 1)))
    exact h.counts m _ (by rw [mapRegion_sb]) (by rw [mapRegion_sb]) (mapRegion_open _ _ m) hp

theorem keepsMem_bitmapFreeRange (start count : Nat) : KeepsMem F P (bitmapFreeRange start count) :=
  (preserves_failIf _ _).bind (fun _ _ => keepsMem_malloc.bind (fun _ _ => (preserves_failIf _ _).bind (fun _ _ =>
    (keepsMem_bitmapFreeLoop h _ _ _ _).bind (fun _ _ => Preserves.when ((h.log _ _ _ _ _).elseDo
      ((Preserves.forRange (fun _ => (keepsMem_bitmapSet h _).ignore) _ _).bind (fun _ _ => preserves_throw _))
      (fun _ _ => keepsMem_mapFreeBlocks h _))))))

omit h in
theorem keepsMem_mrtResolve (id : Nat) : KeepsMem F P (mrtResolve id) :=
  keepsMem_getSb.bind (fun _ _ => (preserves_failIf _ _).bind (fun _ _ => (keepsMem_readBlock _).bind (fun _ _ =>
    (preserves_failIf _ _).bind (fun _ _ => (preserves_failIf _ _).bind (fun _ _ => preserves_pure trivial)))))

theorem keepsMem_mrtStoreEntry (block entryId recordId : Nat) (x : BlockData) (entry : MrtEntry) :
    KeepsMem F P (mrtStoreEntry block entryId recordId x entry) :=
  (keepsMem_writeBlock _ _).bind (fun _ _ => keepsMem_getMem.bind (fun _ _ => Preserves.when ((h.log _ _ _ _ _).elseDo
    ((keepsMem_writeBlock _ _).ignore.bind (fun _ _ => preserves_throw _)) (fun _ _ => preserves_pure trivial))))

theorem keepsMem_mrtFreeEntry (id : Nat) : KeepsMem F P (mrtFreeEntry id) :=
  keepsMem_getSb.bind (fun _ _ => (preserves_failIf _ _).bind (fun _ _ => (keepsMem_readBlock _).bind (fun _ _ =>
    (keepsMem_mrtStoreEntry h _ _ _ _ _).bind (fun _ _ => keepsMem_mapMrtFree h _))))

/-! ## Records -/

theorem keepsMem_recordWrite (id : Nat) (rec : Record) (attrs : List Attr) : KeepsMem F P (recordWrite id rec attrs) :=
  (preserves_failIf _ _).bind (fun _ _ => keepsMem_malloc.bind (fun _ _ => keepsMem_malloc.bind (fun _ _ =>
    (preserves_failIf _ _).bind (fun _ _ => (keepsMem_mrtResolve id).bind (fun _ _ => (keepsMem_readBlock _).ignore.bind
      (fun _ _ => (h.log _ _ _ _ _).bind (fun _ _ => (keepsMem_writeBlock _ _).orThrow _)))))))

theorem keepsMem_recordMarkDeleted (id block : Nat) : KeepsMem F P (recordMarkDeleted id block) := by
  refine (keepsMem_readBlock block).elseDo (preserves_pure trivial) (fun x _ => ?_)
  cases x with
  | record _ _ => exact (keepsMem_recordWrite h _ _ _).ignore
  | raw _ | super _ | node _ | mrt _ | bitmap _ | journal _ _ => exact preserves_pure trivial

end

end SmkFs
end AmitX
