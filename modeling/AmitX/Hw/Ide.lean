import AmitX.Lib.Loop
import Mathlib.Logic.Function.Basic
import Mathlib.Algebra.Group.Nat.Defs
/-!
# Ide — programmed transfers of an IDE drive (`ide.c`)

The drive keeps two bytes of each register and runs one command at a time.  In a transfer it raises DRQ once for each
sector, after some polls that show BSY, and at the end it shows RDY without DRQ.  The driver picks the LBA28 or the LBA48
commands by the address and the count.
-/
namespace AmitX
namespace Hw

open Loop

abbrev Word := BitVec 16

def pollLimit : Nat := 1000000

def ideSectorCount : Nat := 2

def ideLbaLow : Nat := 3

def ideLbaMid : Nat := 4

def ideLbaHigh : Nat := 5

def ideDriveSelect : Nat := 6

def ideCommand : Nat := 7

def cmdReadSectors : Nat := 0x20

def cmdWriteSectors : Nat := 0x30

def cmdCacheFlush : Nat := 0xE7

def cmdReadSectorsExt : Nat := 0x24

def cmdWriteSectorsExt : Nat := 0x34

def cmdCacheFlushExt : Nat := 0xEA

def statusERR : Nat := 0x01
def statusDRQ : Nat := 0x08
def statusDF : Nat := 0x20
def statusRDY : Nat := 0x40
def statusBSY : Nat := 0x80

/-! ## The drive -/

/-- A register that remembers the byte before the last one. -/
structure TwoBytes where
  now : Nat
  before : Nat

def TwoBytes.push (b : Nat) (r : TwoBytes) : TwoBytes := ⟨b, r.now⟩

/-- What the drive does: the sector in transfer, how many are left with it, and its next word. -/
inductive Phase
  | idle
  | read (lba left pos : Nat)
  | write (lba left pos : Nat)

structure Drive where
  /-- 0 for the master, 1 for the slave. -/
  number : Nat
  size : Nat
  sectors : Nat → Nat → Word
  select : Nat
  count : TwoBytes
  lbaLow : TwoBytes
  lbaMid : TwoBytes
  lbaHigh : TwoBytes
  phase : Phase
  error : Bool
  /-- How many more reads of the status show BSY. -/
  busy : Nat
  /-- How long the drive is busy, time after time; never as long as the driver polls. -/
  delay : Nat → Fin pollLimit
  delays : Nat

def Drive.beBusy (d : Drive) : Drive := { d with busy := d.delay d.delays, delays := d.delays + 1 }

def Drive.status (d : Drive) : Nat :=
  if d.select / 16 % 2 ≠ d.number then 0
  else if 0 < d.busy then statusBSY
  else if d.error then statusRDY ||| statusERR
  else match d.phase with
    | .idle => statusRDY
    | .read _ _ _ => statusRDY ||| statusDRQ
    | .write _ _ _ => statusRDY ||| statusDRQ

def Drive.inbStatus (d : Drive) : Nat × Drive := (d.status, { d with busy := d.busy - 1 })

/-- Start a transfer of `n` sectors. -/
def Drive.start (lba n : Nat) (phase : Phase) (d : Drive) : Drive :=
  if d.select / 64 % 2 = 1 ∧ lba + n ≤ d.size then { d with phase := phase, error := false }.beBusy
  else { d with phase := .idle, error := true }.beBusy

def Drive.lba28 (d : Drive) : Nat :=
  d.select % 16 * 2 ^ 24 + d.lbaHigh.now * 2 ^ 16 + d.lbaMid.now * 2 ^ 8 + d.lbaLow.now

def Drive.lba48 (d : Drive) : Nat :=
  d.lbaHigh.before * 2 ^ 40 + d.lbaMid.before * 2 ^ 32 + d.lbaLow.before * 2 ^ 24 + d.lbaHigh.now * 2 ^ 16 +
    d.lbaMid.now * 2 ^ 8 + d.lbaLow.now

def Drive.count28 (d : Drive) : Nat := if d.count.now = 0 then 256 else d.count.now

def Drive.count48 (d : Drive) : Nat :=
  if d.count.before * 2 ^ 8 + d.count.now = 0 then 65536 else d.count.before * 2 ^ 8 + d.count.now

def Drive.command (c : Nat) (d : Drive) : Drive :=
  if c = cmdReadSectors then d.start d.lba28 d.count28 (.read d.lba28 d.count28 0)
  else if c = cmdWriteSectors then d.start d.lba28 d.count28 (.write d.lba28 d.count28 0)
  else if c = cmdReadSectorsExt then d.start d.lba48 d.count48 (.read d.lba48 d.count48 0)
  else if c = cmdWriteSectorsExt then d.start d.lba48 d.count48 (.write d.lba48 d.count48 0)
  else if c = cmdCacheFlush ∨ c = cmdCacheFlushExt then { d with phase := .idle, error := false }.beBusy
  else { d with phase := .idle, error := true }.beBusy

def Drive.outb (reg value : Nat) (d : Drive) : Drive :=
  if reg = ideSectorCount then { d with count := d.count.push (value % 256) }
  else if reg = ideLbaLow then { d with lbaLow := d.lbaLow.push (value % 256) }
  else if reg = ideLbaMid then { d with lbaMid := d.lbaMid.push (value % 256) }
  else if reg = ideLbaHigh then { d with lbaHigh := d.lbaHigh.push (value % 256) }
  else if reg = ideDriveSelect then { d with select := value % 256 }
  else if reg = ideCommand then d.command (value % 256)
  else d

def Drive.inw (d : Drive) : Word × Drive :=
  match d.phase with
  | .read lba left pos =>
    if 0 < d.busy then (0, d)
    else (d.sectors lba pos,
      if pos + 1 < 256 then { d with phase := .read lba left (pos + 1) }
      else if 1 < left then { d with phase := .read (lba + 1) (left - 1) 0 }.beBusy
      else { d with phase := .idle }.beBusy)
  | _ => (0, d)

def Drive.outw (w : Word) (d : Drive) : Drive :=
  match d.phase with
  | .write lba left pos =>
    if 0 < d.busy then d
    else
      let d := { d with sectors := Function.update d.sectors lba (Function.update (d.sectors lba) pos w) }
      if pos + 1 < 256 then { d with phase := .write lba left (pos + 1) }
      else if 1 < left then { d with phase := .write (lba + 1) (left - 1) 0 }.beBusy
      else { d with phase := .idle }.beBusy
  | _ => d

/-! ## The driver -/

/-- `ide_delay_400ns`; the alternate status shows the same as the status. -/
def ideDelay400ns (d : Drive) : Drive := d.inbStatus.2.inbStatus.2.inbStatus.2.inbStatus.2

/-- `ide_wait_bsy`, which polls `n` times. -/
def ideWaitBsy : Nat → Drive → Bool × Drive
  | 0, d => (false, d)
  | n + 1, d => if d.inbStatus.1 &&& statusBSY = 0 then (true, d.inbStatus.2) else ideWaitBsy n d.inbStatus.2

/-- `ide_poll_ready`, which polls `n` times. -/
def idePollReady : Nat → Drive → Bool × Drive
  | 0, d => (false, d)
  | n + 1, d =>
    if d.inbStatus.1 &&& statusBSY ≠ 0 then idePollReady n d.inbStatus.2
    else if d.inbStatus.1 &&& (statusERR ||| statusDF) ≠ 0 then (false, d.inbStatus.2)
    else if d.inbStatus.1 &&& statusDRQ ≠ 0 then (true, d.inbStatus.2)
    else if d.inbStatus.1 &&& statusRDY ≠ 0 then (false, d.inbStatus.2)
    else idePollReady n d.inbStatus.2

def ideSelectDrive (drive : Nat) (d : Drive) : Int × Drive :=
  if 1 < drive then (-1, d)
  else
    let d := ideDelay400ns (d.outb ideDriveSelect (0xA0 ||| drive <<< 4))
    (if d.inbStatus.1 = 0x00 ∨ d.inbStatus.1 = 0xFF then -1 else 0, d.inbStatus.2)

/-- The words of sector `s` of the transfer, into `buf`. -/
def readSector (s n : Nat) (buf : Nat → Word) (d : Drive) : (Nat → Word) × Drive :=
  (List.range n).foldl (fun r i => (Function.update r.1 (s * 256 + i) r.2.inw.1, r.2.inw.2)) (buf, d)

/-- The words of sector `s` of the transfer, out of `buf`. -/
def writeSector (s n : Nat) (buf : Nat → Word) (d : Drive) : Drive :=
  (List.range n).foldl (fun d i => d.outw (buf (s * 256 + i))) d

/-- One turn of the loop over the sectors, whose counter `s` wraps at `wrap`. -/
def readTurn (wrap count : Nat) :
    Nat × (Nat → Word) × Drive → (Nat × (Nat → Word) × Drive) ⊕ (Int × (Nat → Word) × Drive)
  | (s, buf, d) =>
    if s < count then
      match idePollReady pollLimit d with
      | (false, d) => .inr (-1, buf, d)
      | (true, d) => .inl ((s + 1) % wrap, readSector s 256 buf d)
    else .inr (0, buf, d)

def flushCache (cmd : Nat) (d : Drive) : Int × Drive :=
  match ideWaitBsy pollLimit (d.outb ideCommand cmd) with
  | (false, d) => (-1, d)
  | (true, d) => (if d.inbStatus.1 &&& (statusERR ||| statusDF) ≠ 0 then -1 else 0, d.inbStatus.2)

def writeTurn (wrap count flush : Nat) (buf : Nat → Word) : Nat × Drive → (Nat × Drive) ⊕ (Int × Drive)
  | (s, d) =>
    if s < count then
      match idePollReady pollLimit d with
      | (false, d) => .inr (-1, d)
      | (true, d) => .inl ((s + 1) % wrap, writeSector s 256 buf d)
    else .inr (flushCache flush d)

def setup28 (drive lba count : Nat) (d : Drive) : Drive :=
  let d := d.outb ideDriveSelect (0xE0 ||| drive <<< 4 ||| lba / 2 ^ 24 % 16)
  let d := ideDelay400ns d
  let d := d.outb ideSectorCount count
  let d := d.outb ideLbaLow (lba % 256)
  let d := d.outb ideLbaMid (lba / 2 ^ 8 % 256)
  d.outb ideLbaHigh (lba / 2 ^ 16 % 256)

def setup48 (drive lba count : Nat) (d : Drive) : Drive :=
  let d := d.outb ideDriveSelect (0x40 ||| drive <<< 4)
  let d := ideDelay400ns d
  let d := d.outb ideSectorCount (count / 2 ^ 8 % 256)
  let d := d.outb ideLbaLow (lba / 2 ^ 24 % 256)
  let d := d.outb ideLbaMid (lba / 2 ^ 32 % 256)
  let d := d.outb ideLbaHigh (lba / 2 ^ 40 % 256)
  let d := d.outb ideSectorCount (count % 256)
  let d := d.outb ideLbaLow (lba % 256)
  let d := d.outb ideLbaMid (lba / 2 ^ 8 % 256)
  d.outb ideLbaHigh (lba / 2 ^ 16 % 256)

/-- `none` while `fuel` turns of the sector loop are not enough. -/
def ideReadSectorsExt (fuel drive lba count : Nat) (buf : Nat → Word) (d : Drive) : Option (Int × (Nat → Word) × Drive) :=
  if count = 0 then some (-1, buf, d)
  else if 0x0000FFFFFFFFFFFF < lba then some (-1, buf, d)
  else
    match ideSelectDrive drive d with
    | (r, d) =>
      if r ≠ 0 then some (-1, buf, d)
      else loop (readTurn (2 ^ 16) count) fuel (0, buf, (setup48 drive lba count d).outb ideCommand cmdReadSectorsExt)

def ideReadSectors (fuel drive lba count : Nat) (buf : Nat → Word) (d : Drive) : Option (Int × (Nat → Word) × Drive) :=
  if count = 0 then some (-1, buf, d)
  else if 0x0FFFFFFF < lba ∨ 256 < count then ideReadSectorsExt fuel drive lba count buf d
  else
    match ideSelectDrive drive d with
    | (r, d) =>
      if r ≠ 0 then some (-1, buf, d)
      else loop (readTurn (2 ^ 8) count) fuel (0, buf, (setup28 drive lba count d).outb ideCommand cmdReadSectors)

def ideWriteSectorsExt (fuel drive lba count : Nat) (buf : Nat → Word) (d : Drive) : Option (Int × Drive) :=
  if count = 0 then some (-1, d)
  else if 0x0000FFFFFFFFFFFF < lba then some (-1, d)
  else
    match ideSelectDrive drive d with
    | (r, d) =>
      if r ≠ 0 then some (-1, d)
      else loop (writeTurn (2 ^ 16) count cmdCacheFlushExt buf) fuel (0, (setup48 drive lba count d).outb ideCommand cmdWriteSectorsExt)

def ideWriteSectors (fuel drive lba count : Nat) (buf : Nat → Word) (d : Drive) : Option (Int × Drive) :=
  if count = 0 then some (-1, d)
  else if 0x0FFFFFFF < lba ∨ 256 < count then
    -- what the LBA48 path returns is dropped
    (ideWriteSectorsExt fuel drive lba count buf d).map (fun r => (-1, r.2))
  else
    match ideSelectDrive drive d with
    | (r, d) =>
      if r ≠ 0 then some (-1, d)
      else loop (writeTurn (2 ^ 8) count cmdCacheFlush buf) fuel (0, (setup28 drive lba count d).outb ideCommand cmdWriteSectors)

/-- An idle drive with this number, and a transfer within it. -/
structure Request (drive lba count : Nat) (d : Drive) : Prop where
  number : d.number = drive
  number_le : drive ≤ 1
  idle : d.phase = .idle
  ready : d.busy = 0
  lba_lt : lba < 2 ^ 32
  count_pos : 1 ≤ count
  count_lt : count < 2 ^ 16
  fits : lba + count ≤ d.size

/-- `ide_read_sectors` ends, returns 0 and stores the words of the sectors. -/
def ReadsExactly (drive lba count : Nat) (buf : Nat → Word) (d : Drive) : Prop :=
  ∃ fuel buf' d', ideReadSectors fuel drive lba count buf d = some (0, buf', d') ∧
    (∀ j, buf' j = if j < count * 256 then d.sectors (lba + j / 256) (j % 256) else buf j) ∧ d'.sectors = d.sectors

/-- `ide_write_sectors` ends, returns 0 and changes the sectors to the words. -/
def WritesExactly (drive lba count : Nat) (buf : Nat → Word) (d : Drive) : Prop :=
  ∃ fuel d', ideWriteSectors fuel drive lba count buf d = some (0, d') ∧
    ∀ s w, w < 256 → d'.sectors s w = if lba ≤ s ∧ s < lba + count then buf ((s - lba) * 256 + w) else d.sectors s w

/-! ## The status -/

section

variable {d : Drive}

def Drive.Selected (d : Drive) : Prop := d.select / 16 % 2 = d.number

def Drive.rest (d : Drive) : Drive := { d with busy := 0 }

theorem status_of_busy (hs : d.Selected) (hb : 0 < d.busy) : d.status = statusBSY := by
  unfold Drive.status
  rw [if_neg (by exact not_not.2 hs), if_pos hb]

theorem status_of_idle (hs : d.Selected) (hb : d.busy = 0) (he : d.error = false) (hp : d.phase = .idle) :
    d.status = statusRDY := by
  unfold Drive.status
  rw [if_neg (by exact not_not.2 hs), if_neg (by omega), if_neg (by simp [he]), hp]

theorem status_of_data (hs : d.Selected) (hb : d.busy = 0) (he : d.error = false) (hp : d.phase ≠ .idle) :
    d.status = statusRDY ||| statusDRQ := by
  unfold Drive.status
  rw [if_neg (by exact not_not.2 hs), if_neg (by omega), if_neg (by simp [he])]
  cases h : d.phase with
  | idle => exact absurd h hp
  | read lba left pos => rfl
  | write lba left pos => rfl

theorem idePollReady_eq : ∀ {n : Nat} {d : Drive}, d.Selected → d.error = false → d.busy < n →
    idePollReady n d = (match d.phase with | .idle => false | _ => true, d.rest)
  | 0, _, _, _, hlt => absurd hlt (Nat.not_lt_zero _)
  | n + 1, d, hs, he, hlt => by
    unfold idePollReady
    rcases Nat.eq_zero_or_pos d.busy with hb | hb
    · have hrest : d.inbStatus.2 = d.rest := by
        unfold Drive.inbStatus Drive.rest
        rw [hb]
      rw [hrest]
      cases hp : d.phase with
      | idle =>
        have hst : d.inbStatus.1 = statusRDY := status_of_idle hs hb he hp
        rw [hst]
        rfl
      | read lba left pos =>
        have hst : d.inbStatus.1 = statusRDY ||| statusDRQ := status_of_data hs hb he (by rw [hp]; exact nofun)
        rw [hst]
        rfl
      | write lba left pos =>
        have hst : d.inbStatus.1 = statusRDY ||| statusDRQ := status_of_data hs hb he (by rw [hp]; exact nofun)
        rw [hst]
        rfl
    · have hst : d.inbStatus.1 = statusBSY := status_of_busy hs hb
      have hlt' : d.inbStatus.2.busy < n := by
        show d.busy - 1 < n
        omega
      rw [hst, if_pos (by decide), idePollReady_eq (d := d.inbStatus.2) hs he hlt']
      rfl

theorem ideWaitBsy_eq : ∀ {n : Nat} {d : Drive}, d.Selected → d.error = false → d.phase = .idle → d.busy < n →
    ideWaitBsy n d = (true, d.rest)
  | 0, _, _, _, _, hlt => absurd hlt (Nat.not_lt_zero _)
  | n + 1, d, hs, he, hp, hlt => by
    unfold ideWaitBsy
    rcases Nat.eq_zero_or_pos d.busy with hb | hb
    · have hst : d.inbStatus.1 = statusRDY := status_of_idle hs hb he hp
      rw [hst, if_pos (by decide)]
      unfold Drive.inbStatus Drive.rest
      rw [hb]
    · have hst : d.inbStatus.1 = statusBSY := status_of_busy hs hb
      have hlt' : d.inbStatus.2.busy < n := by
        show d.busy - 1 < n
        omega
      rw [hst, if_neg (by decide), ideWaitBsy_eq (d := d.inbStatus.2) hs he hp hlt']
      rfl

/-! ## Sectors -/

/-- The buffer with the words of a sector at `s`. -/
def storeSector (words : Nat → Word) (s n : Nat) (buf : Nat → Word) (j : Nat) : Word :=
  if s * 256 ≤ j ∧ j < s * 256 + n then words (j - s * 256) else buf j

theorem storeSector_succ (words : Nat → Word) (s n : Nat) (buf : Nat → Word) :
    Function.update (storeSector words s n buf) (s * 256 + n) (words n) = storeSector words s (n + 1) buf := by
  funext j
  unfold storeSector
  by_cases hj : j = s * 256 + n
  · rw [hj, Function.update_self, if_pos (by omega), Nat.add_sub_cancel_left]
  · rw [Function.update_of_ne hj]
    by_cases h : s * 256 ≤ j ∧ j < s * 256 + n
    · rw [if_pos h, if_pos (by omega)]
    · rw [if_neg h, if_neg (by omega)]

theorem readSector_succ (s n : Nat) (buf : Nat → Word) (d : Drive) : readSector s (n + 1) buf d =
    (Function.update (readSector s n buf d).1 (s * 256 + n) (readSector s n buf d).2.inw.1,
      (readSector s n buf d).2.inw.2) := by
  unfold readSector
  rw [List.range_succ, List.foldl_append]
  rfl

theorem writeSector_succ (s n : Nat) (buf : Nat → Word) (d : Drive) :
    writeSector s (n + 1) buf d = (writeSector s n buf d).outw (buf (s * 256 + n)) := by
  unfold writeSector
  rw [List.range_succ, List.foldl_append]
  rfl

variable {lba left pos : Nat}

theorem inw_of_read (hp : d.phase = .read lba left pos) (hb : d.busy = 0) : d.inw = (d.sectors lba pos,
    if pos + 1 < 256 then { d with phase := .read lba left (pos + 1) }
    else { d with phase := if 1 < left then .read (lba + 1) (left - 1) 0 else .idle }.beBusy) := by
  unfold Drive.inw
  rw [hp]
  dsimp only
  rw [if_neg (by omega)]
  by_cases hl : 1 < left
  · rw [if_pos hl, if_pos hl]
  · rw [if_neg hl, if_neg hl]

theorem outw_of_write (hp : d.phase = .write lba left pos) (hb : d.busy = 0) (w : Word) : d.outw w =
    let d := { d with sectors := Function.update d.sectors lba (Function.update (d.sectors lba) pos w) }
    if pos + 1 < 256 then { d with phase := .write lba left (pos + 1) }
    else { d with phase := if 1 < left then .write (lba + 1) (left - 1) 0 else .idle }.beBusy := by
  unfold Drive.outw
  rw [hp]
  dsimp only
  rw [if_neg (by omega)]
  by_cases hl : 1 < left
  · rw [if_pos hl, if_pos hl]
  · rw [if_neg hl, if_neg hl]

theorem readSector_part (hp : d.phase = .read lba left 0) (hb : d.busy = 0) (s : Nat) (buf : Nat → Word) :
    ∀ n < 256, readSector s n buf d = (storeSector (d.sectors lba) s n buf, { d with phase := .read lba left n })
  | 0, _ => by
    refine Prod.ext (funext fun j => ?_) ?_
    · show buf j = storeSector (d.sectors lba) s 0 buf j
      unfold storeSector
      rw [if_neg (by omega)]
    · show d = _
      rw [← hp]
  | n + 1, hn => by
    have hinw := inw_of_read (d := { d with phase := .read lba left n }) rfl hb
    rw [if_pos hn] at hinw
    rw [readSector_succ, readSector_part hp hb s buf n (by omega), ← storeSector_succ]
    dsimp only
    rw [hinw]

theorem readSector_eq (hp : d.phase = .read lba left 0) (hb : d.busy = 0) (s : Nat) (buf : Nat → Word) :
    readSector s 256 buf d = (storeSector (d.sectors lba) s 256 buf,
      { d with phase := if 1 < left then .read (lba + 1) (left - 1) 0 else .idle }.beBusy) := by
  have hinw := inw_of_read (d := { d with phase := .read lba left 255 }) rfl hb
  rw [if_neg (by omega)] at hinw
  rw [readSector_succ s 255, readSector_part hp hb s buf 255 (by omega), ← storeSector_succ (n := 255)]
  dsimp only
  rw [hinw]

def putSector (words : Nat → Word) (lba n : Nat) (sectors : Nat → Nat → Word) (s w : Nat) : Word :=
  if s = lba ∧ w < n then words w else sectors s w

theorem putSector_succ (words : Nat → Word) (lba n : Nat) (sectors : Nat → Nat → Word) :
    Function.update (putSector words lba n sectors) lba
      (Function.update (putSector words lba n sectors lba) n (words n)) = putSector words lba (n + 1) sectors := by
  funext s w
  by_cases hs : s = lba
  · rw [hs, Function.update_self]
    unfold putSector
    by_cases hw : w = n
    · rw [hw, Function.update_self, if_pos ⟨rfl, by omega⟩]
    · rw [Function.update_of_ne hw]
      by_cases hlt : w < n
      · rw [if_pos ⟨rfl, hlt⟩, if_pos ⟨rfl, by omega⟩]
      · rw [if_neg (fun h => hlt h.2), if_neg (fun h => by omega)]
  · rw [Function.update_of_ne hs]
    unfold putSector
    rw [if_neg (fun h => hs h.1), if_neg (fun h => hs h.1)]

theorem writeSector_part (hp : d.phase = .write lba left 0) (hb : d.busy = 0) (s : Nat) (buf : Nat → Word) :
    ∀ n < 256, writeSector s n buf d =
      { d with sectors := putSector (fun i => buf (s * 256 + i)) lba n d.sectors, phase := .write lba left n }
  | 0, _ => by
    have hnone : putSector (fun i => buf (s * 256 + i)) lba 0 d.sectors = d.sectors := by
      funext s w
      exact if_neg (fun h => Nat.not_lt_zero _ h.2)
    rw [hnone, ← hp]
    rfl
  | n + 1, hn => by
    rw [writeSector_succ, writeSector_part hp hb s buf n (by omega), ← putSector_succ, outw_of_write (by exact rfl) (by exact hb)]
    dsimp only
    rw [if_pos hn]

theorem writeSector_eq (hp : d.phase = .write lba left 0) (hb : d.busy = 0) (s : Nat) (buf : Nat → Word) :
    writeSector s 256 buf d =
      { d with
        sectors := putSector (fun i => buf (s * 256 + i)) lba 256 d.sectors
        phase := if 1 < left then .write (lba + 1) (left - 1) 0 else .idle }.beBusy := by
  rw [writeSector_succ s 255, writeSector_part hp hb s buf 255 (by omega), ← putSector_succ (n := 255),
    outw_of_write (by exact rfl) (by exact hb)]
  dsimp only
  rw [if_neg (by omega)]

end

/-! ## Transfers -/

section

variable {d : Drive} {lba n : Nat}

/-- The drive after `k` of `n` sectors that `data` puts into its array; `next` is the phase of a sector. -/
def Drive.after (next : Nat → Nat → Phase) (sectors : Nat → Nat → Word) (n k : Nat) (d : Drive) : Drive :=
  { d with
    sectors := sectors
    phase := if k < n then next k (n - k) else .idle
    error := false
    busy := d.delay (d.delays + k)
    delays := d.delays + k + 1 }

/-- After `k` sectors of a read. -/
def Drive.readAfter (lba n k : Nat) (d : Drive) : Drive :=
  d.after (fun k left => .read (lba + k) left 0) d.sectors n k

/-- The sectors after `k` of them were written. -/
def writtenSectors (buf : Nat → Word) (lba k : Nat) (sectors : Nat → Nat → Word) (s w : Nat) : Word :=
  if lba ≤ s ∧ s < lba + k ∧ w < 256 then buf ((s - lba) * 256 + w) else sectors s w

/-- After `k` sectors of a write. -/
def Drive.writeAfter (buf : Nat → Word) (lba n k : Nat) (d : Drive) : Drive :=
  d.after (fun k left => .write (lba + k) left 0) (writtenSectors buf lba k d.sectors) n k

/-- The buffer after `k` sectors of a read. -/
def readWords (sectors : Nat → Nat → Word) (lba k : Nat) (buf : Nat → Word) (j : Nat) : Word :=
  if j < k * 256 then sectors (lba + j / 256) (j % 256) else buf j

theorem readWords_succ (sectors : Nat → Nat → Word) (lba k : Nat) (buf : Nat → Word) :
    storeSector (sectors (lba + k)) k 256 (readWords sectors lba k buf) = readWords sectors lba (k + 1) buf := by
  funext j
  unfold storeSector readWords
  by_cases h1 : j < k * 256
  · have h2 : j < (k + 1) * 256 := Nat.lt_of_lt_of_le h1 (Nat.mul_le_mul_right 256 (Nat.le_succ k))
    rw [if_neg (by omega), if_pos h1, if_pos h2]
  · by_cases h2 : j < (k + 1) * 256
    · have hq : j / 256 = k := by omega
      rw [if_pos (by omega), if_pos h2, hq]
      congr 1
      omega
    · rw [if_neg (by omega), if_neg h1, if_neg h2]

theorem writtenSectors_succ (buf : Nat → Word) (lba k : Nat) (sectors : Nat → Nat → Word) :
    putSector (fun i => buf (k * 256 + i)) (lba + k) 256 (writtenSectors buf lba k sectors) =
      writtenSectors buf lba (k + 1) sectors := by
  funext s w
  unfold putSector writtenSectors
  by_cases hs : s = lba + k
  · by_cases hw : w < 256
    · rw [if_pos ⟨hs, hw⟩, if_pos (by omega), hs, Nat.add_sub_cancel_left]
    · rw [if_neg (by omega), if_neg (by omega), if_neg (by omega)]
  · rw [if_neg (by omega)]
    by_cases h : lba ≤ s ∧ s < lba + k ∧ w < 256
    · rw [if_pos h, if_pos (by omega)]
    · rw [if_neg h, if_neg (by omega)]

theorem after_busy_lt (next : Nat → Nat → Phase) (sectors : Nat → Nat → Word) (n k : Nat) :
    (d.after next sectors n k).busy < pollLimit := by
  unfold Drive.after
  dsimp only
  exact Fin.isLt _

theorem readTurn_data (hs : d.Selected) {wrap count k : Nat} (hk : k < n) (hc : k < count)
    (buf : Nat → Word) : readTurn wrap count (k, readWords d.sectors lba k buf, d.readAfter lba n k) =
      .inl ((k + 1) % wrap, readWords d.sectors lba (k + 1) buf, d.readAfter lba n (k + 1)) := by
  have hp : (d.readAfter lba n k).phase = .read (lba + k) (n - k) 0 := if_pos hk
  have hpoll := idePollReady_eq (d := d.readAfter lba n k) hs rfl (after_busy_lt _ _ n k)
  have hsector := readSector_eq (d := (d.readAfter lba n k).rest) hp rfl k (readWords d.sectors lba k buf)
  unfold readTurn
  dsimp only
  rw [if_pos hc, hpoll, hp]
  dsimp only
  rw [hsector]
  congr 3
  · exact readWords_succ d.sectors lba k buf
  · unfold Drive.readAfter Drive.after Drive.rest Drive.beBusy
    dsimp only
    have hlast : 1 < n - k ↔ k + 1 < n := by omega
    simp only [hlast, Nat.add_assoc, Nat.sub_sub]

theorem readTurn_over (hs : d.Selected) {wrap count s : Nat} (hc : s < count) (buf : Nat → Word) :
    readTurn wrap count (s, buf, d.readAfter lba n n) = .inr (-1, buf, (d.readAfter lba n n).rest) := by
  have hp : (d.readAfter lba n n).phase = .idle := if_neg (Nat.lt_irrefl n)
  have hpoll := idePollReady_eq (d := d.readAfter lba n n) hs rfl (after_busy_lt _ _ n n)
  unfold readTurn
  dsimp only
  rw [if_pos hc, hpoll, hp]

theorem writeTurn_data (hs : d.Selected) {wrap count flush k : Nat} (hk : k < n) (hc : k < count) (buf : Nat → Word) :
    writeTurn wrap count flush buf (k, d.writeAfter buf lba n k) =
      .inl ((k + 1) % wrap, d.writeAfter buf lba n (k + 1)) := by
  have hp : (d.writeAfter buf lba n k).phase = .write (lba + k) (n - k) 0 := if_pos hk
  have hpoll := idePollReady_eq (d := d.writeAfter buf lba n k) hs rfl (after_busy_lt _ _ n k)
  have hsector := writeSector_eq (d := (d.writeAfter buf lba n k).rest) hp rfl k buf
  have hsectors := writtenSectors_succ buf lba k d.sectors
  unfold writeTurn
  dsimp only
  rw [if_pos hc, hpoll, hp]
  dsimp only
  rw [hsector]
  refine congrArg Sum.inl (Prod.ext rfl ?_)
  unfold Drive.writeAfter Drive.after Drive.rest Drive.beBusy
  dsimp only
  have hlast : 1 < n - k ↔ k + 1 < n := by omega
  simp only [hlast, Nat.add_assoc, Nat.sub_sub, hsectors]

theorem writeTurn_over (hs : d.Selected) {wrap count flush s : Nat} (hc : s < count) (buf : Nat → Word) :
    writeTurn wrap count flush buf (s, d.writeAfter buf lba n n) = .inr (-1, (d.writeAfter buf lba n n).rest) := by
  have hp : (d.writeAfter buf lba n n).phase = .idle := if_neg (Nat.lt_irrefl n)
  have hpoll := idePollReady_eq (d := d.writeAfter buf lba n n) hs rfl (after_busy_lt _ _ n n)
  unfold writeTurn
  dsimp only
  rw [if_pos hc, hpoll, hp]

/-! ## Registers -/

theorem ideDelay400ns_of_ready (hb : d.busy = 0) : ideDelay400ns d = d := by
  unfold ideDelay400ns Drive.inbStatus
  have hfour : d.busy - 1 - 1 - 1 - 1 = d.busy := by omega
  dsimp only
  rw [hfour]

theorem ideSelectDrive_eq {drive count : Nat} (h : Request drive lba count d) :
    ideSelectDrive drive d = (0, { d with select := (0xA0 ||| drive <<< 4) % 256 }) := by
  have hle := h.number_le
  have hsel : (0xA0 ||| drive <<< 4) % 256 / 16 % 2 = drive := by
    rcases Nat.le_one_iff_eq_zero_or_eq_one.1 hle with hd | hd <;> rw [hd] <;> rfl
  have hout : d.outb ideDriveSelect (0xA0 ||| drive <<< 4) = { d with select := (0xA0 ||| drive <<< 4) % 256 } := rfl
  unfold ideSelectDrive
  rw [if_neg (by omega), hout, ideDelay400ns_of_ready (by exact h.ready)]
  dsimp only
  unfold Drive.inbStatus Drive.status
  dsimp only
  rw [h.ready, h.idle, h.number, hsel]
  by_cases he : d.error
  · simp [he, statusRDY, statusERR]
  · simp [he, statusRDY]

structure Ready (d d' : Drive) : Prop where
  selected : d'.Selected
  lbaMode : d'.select / 64 % 2 = 1
  size : d'.size = d.size
  sectors : d'.sectors = d.sectors

theorem setup28_spec {drive count : Nat} (h : Request drive lba count d) (hl : lba ≤ 0x0FFFFFFF) (hc : count ≤ 256)
    (v : Nat) : Ready d (setup28 drive lba count { d with select := v }) ∧
      (setup28 drive lba count { d with select := v }).lba28 = lba ∧
      (setup28 drive lba count { d with select := v }).count28 = count := by
  have hle := h.number_le
  have hpos := h.count_pos
  have hsel : ∀ top < 16, (0xE0 ||| drive <<< 4 ||| top) % 256 = 0xE0 + 16 * drive + top := by
    rcases Nat.le_one_iff_eq_zero_or_eq_one.1 hle with hd | hd <;> rw [hd] <;> decide
  have htop := hsel (lba / 2 ^ 24 % 16) (by omega)
  have hdelay : ∀ w, ideDelay400ns { d with select := w } = { d with select := w } := fun w =>
    ideDelay400ns_of_ready h.ready
  have hset : setup28 drive lba count { d with select := v } =
      { d with
        select := (0xE0 ||| drive <<< 4 ||| lba / 2 ^ 24 % 16) % 256
        count := ⟨count % 256, d.count.now⟩
        lbaLow := ⟨lba % 256 % 256, d.lbaLow.now⟩
        lbaMid := ⟨lba / 2 ^ 8 % 256 % 256, d.lbaMid.now⟩
        lbaHigh := ⟨lba / 2 ^ 16 % 256 % 256, d.lbaHigh.now⟩ } := by
    show ((((ideDelay400ns { d with select := (0xE0 ||| drive <<< 4 ||| lba / 2 ^ 24 % 16) % 256 }).outb ideSectorCount
      count).outb ideLbaLow (lba % 256)).outb ideLbaMid (lba / 2 ^ 8 % 256)).outb ideLbaHigh (lba / 2 ^ 16 % 256) = _
    rw [hdelay]
    rfl
  rw [hset]
  refine ⟨⟨?_, ?_, rfl, rfl⟩, ?_, ?_⟩
  · unfold Drive.Selected
    dsimp only
    rw [htop, h.number]
    omega
  · dsimp only
    rw [htop]
    omega
  · unfold Drive.lba28
    dsimp only
    rw [htop]
    omega
  · unfold Drive.count28
    dsimp only
    split <;> omega

theorem setup48_spec {drive count : Nat} (h : Request drive lba count d) (v : Nat) :
    Ready d (setup48 drive lba count { d with select := v }) ∧
      (setup48 drive lba count { d with select := v }).lba48 = lba ∧
      (setup48 drive lba count { d with select := v }).count48 = count := by
  have hle := h.number_le
  have hpos := h.count_pos
  have hlt := h.count_lt
  have hlba := h.lba_lt
  have hsel : (0x40 ||| drive <<< 4) % 256 = 0x40 + 16 * drive := by
    rcases Nat.le_one_iff_eq_zero_or_eq_one.1 hle with hd | hd <;> rw [hd] <;> rfl
  have hdelay : ∀ w, ideDelay400ns { d with select := w } = { d with select := w } := fun w =>
    ideDelay400ns_of_ready h.ready
  have hset : setup48 drive lba count { d with select := v } =
      { d with
        select := (0x40 ||| drive <<< 4) % 256
        count := ⟨count % 256 % 256, count / 2 ^ 8 % 256 % 256⟩
        lbaLow := ⟨lba % 256 % 256, lba / 2 ^ 24 % 256 % 256⟩
        lbaMid := ⟨lba / 2 ^ 8 % 256 % 256, lba / 2 ^ 32 % 256 % 256⟩
        lbaHigh := ⟨lba / 2 ^ 16 % 256 % 256, lba / 2 ^ 40 % 256 % 256⟩ } := by
    show ((((((((ideDelay400ns { d with select := (0x40 ||| drive <<< 4) % 256 }).outb ideSectorCount
      (count / 2 ^ 8 % 256)).outb ideLbaLow (lba / 2 ^ 24 % 256)).outb ideLbaMid (lba / 2 ^ 32 % 256)).outb ideLbaHigh
      (lba / 2 ^ 40 % 256)).outb ideSectorCount (count % 256)).outb ideLbaLow (lba % 256)).outb ideLbaMid
      (lba / 2 ^ 8 % 256)).outb ideLbaHigh (lba / 2 ^ 16 % 256) = _
    rw [hdelay]
    rfl
  rw [hset]
  refine ⟨⟨?_, ?_, rfl, rfl⟩, ?_, ?_⟩
  · unfold Drive.Selected
    dsimp only
    rw [hsel, h.number]
    omega
  · dsimp only
    rw [hsel]
    omega
  · unfold Drive.lba48
    dsimp only
    omega
  · unfold Drive.count48
    dsimp only
    split <;> omega

/-! ## Whole transfers -/

theorem readWords_zero (sectors : Nat → Nat → Word) (lba : Nat) (buf : Nat → Word) :
    readWords sectors lba 0 buf = buf := by
  funext j
  exact if_neg (by omega)

theorem writtenSectors_zero (buf : Nat → Word) (lba : Nat) (sectors : Nat → Nat → Word) :
    writtenSectors buf lba 0 sectors = sectors := by
  funext s w
  exact if_neg (by omega)

theorem start_of_fits (next : Nat → Nat → Phase) (hmode : d.select / 64 % 2 = 1) (hfit : lba + n ≤ d.size) (hn : 0 < n) :
    d.start lba n (next 0 n) = d.after next d.sectors n 0 := by
  unfold Drive.start Drive.after Drive.beBusy
  rw [if_pos ⟨hmode, hfit⟩, if_pos hn]
  rfl

theorem readLoop_exact (hs : d.Selected) {wrap : Nat} (hw : n < wrap) (buf : Nat → Word) :
    loop (readTurn wrap n) (n + 1) (0, buf, d.readAfter lba n 0) =
      some (0, readWords d.sectors lba n buf, d.readAfter lba n n) := by
  have hturns : ∀ k < n, readTurn wrap n (k, readWords d.sectors lba k buf, d.readAfter lba n k) =
      .inl (k + 1, readWords d.sectors lba (k + 1) buf, d.readAfter lba n (k + 1)) := by
    intro k hk
    rw [readTurn_data hs hk hk buf, Nat.mod_eq_of_lt (by omega)]
  have hlast : readTurn wrap n (n, readWords d.sectors lba n buf, d.readAfter lba n n) =
      .inr (0, readWords d.sectors lba n buf, d.readAfter lba n n) := if_neg (Nat.lt_irrefl n)
  have hloop := loop_steps (f := fun k => (k, readWords d.sectors lba k buf, d.readAfter lba n k)) hturns 1
  rw [readWords_zero] at hloop
  rw [hloop, loop_inr hlast]

theorem readLoop_wraps (hs : d.Selected) (lba : Nat) (hn : 0 < n) (buf : Nat → Word) :
    ∃ r, loop (readTurn n n) (n + 1) (0, buf, d.readAfter lba n 0) = some r ∧ r.1 = -1 := by
  have hturns : ∀ k < n, readTurn n n (k % n, readWords d.sectors lba k buf, d.readAfter lba n k) =
      .inl ((k + 1) % n, readWords d.sectors lba (k + 1) buf, d.readAfter lba n (k + 1)) := by
    intro k hk
    rw [Nat.mod_eq_of_lt hk]
    exact readTurn_data hs hk hk buf
  have hloop := loop_steps (f := fun k => (k % n, readWords d.sectors lba k buf, d.readAfter lba n k)) hturns 1
  rw [readWords_zero, Nat.zero_mod, Nat.mod_self] at hloop
  rw [hloop, loop_inr (readTurn_over hs hn _)]
  exact ⟨_, rfl, rfl⟩

theorem flushCache_eq (hs : d.Selected) {cmd : Nat} (hc : cmd = cmdCacheFlush ∨ cmd = cmdCacheFlushExt) :
    ∃ d', flushCache cmd d = (0, d') ∧ d'.sectors = d.sectors := by
  have hcmd : d.outb ideCommand cmd = { d with phase := .idle, error := false }.beBusy := by
    rcases hc with rfl | rfl <;> rfl
  have hlt : ({ d with phase := .idle, error := false }.beBusy : Drive).busy < pollLimit := by
    unfold Drive.beBusy
    dsimp only
    exact Fin.isLt _
  have hwait := ideWaitBsy_eq (d := { d with phase := .idle, error := false }.beBusy) hs rfl rfl hlt
  have hst : ({ d with phase := .idle, error := false }.beBusy : Drive).rest.status = statusRDY :=
    status_of_idle (show Drive.Selected _ from hs) rfl rfl rfl
  refine ⟨({ d with phase := .idle, error := false }.beBusy : Drive).rest.inbStatus.2, ?_, rfl⟩
  unfold flushCache
  rw [hcmd, hwait]
  show (if ({ d with phase := .idle, error := false }.beBusy : Drive).rest.status &&& (statusERR ||| statusDF) ≠ 0 then _
    else _, _) = _
  rw [hst]
  rfl

theorem writeLoop_exact (hs : d.Selected) (lba : Nat) {wrap flush : Nat} (hw : n < wrap)
    (hf : flush = cmdCacheFlush ∨ flush = cmdCacheFlushExt) (buf : Nat → Word) :
    ∃ d', loop (writeTurn wrap n flush buf) (n + 1) (0, d.writeAfter buf lba n 0) = some (0, d') ∧
      d'.sectors = writtenSectors buf lba n d.sectors := by
  have hturns : ∀ k < n, writeTurn wrap n flush buf (k, d.writeAfter buf lba n k) =
      .inl (k + 1, d.writeAfter buf lba n (k + 1)) := by
    intro k hk
    rw [writeTurn_data hs hk hk buf, Nat.mod_eq_of_lt (by omega)]
  obtain ⟨d', hflush, hsectors⟩ := flushCache_eq (d := d.writeAfter buf lba n n) hs hf
  have hlast : writeTurn wrap n flush buf (n, d.writeAfter buf lba n n) = .inr (0, d') := by
    unfold writeTurn
    dsimp only
    rw [if_neg (Nat.lt_irrefl n), hflush]
  refine ⟨d', ?_, hsectors⟩
  rw [loop_steps (f := fun k => (k, d.writeAfter buf lba n k)) hturns 1, loop_inr hlast]

theorem writeLoop_wraps (hs : d.Selected) (lba flush : Nat) (hn : 0 < n) (buf : Nat → Word) :
    ∃ r, loop (writeTurn n n flush buf) (n + 1) (0, d.writeAfter buf lba n 0) = some r ∧ r.1 = -1 := by
  have hturns : ∀ k < n, writeTurn n n flush buf (k % n, d.writeAfter buf lba n k) =
      .inl ((k + 1) % n, d.writeAfter buf lba n (k + 1)) := by
    intro k hk
    rw [Nat.mod_eq_of_lt hk]
    exact writeTurn_data hs hk hk buf
  have hloop := loop_steps (f := fun k => (k % n, d.writeAfter buf lba n k)) hturns 1
  rw [Nat.zero_mod, Nat.mod_self] at hloop
  rw [hloop, loop_inr (writeTurn_over hs hn buf)]
  exact ⟨_, rfl, rfl⟩

end

section

variable {d e : Drive} {lba n : Nat}

theorem command_read28 (hready : Ready d e) (hl : e.lba28 = lba) (hc : e.count28 = n) (hfit : lba + n ≤ d.size) (hn : 0 < n) :
    e.outb ideCommand cmdReadSectors = e.readAfter lba n 0 := by
  have hstart := start_of_fits (fun k left => .read (lba + k) left 0) hready.lbaMode (hready.size ▸ hfit) hn
  show Drive.command cmdReadSectors e = _
  unfold Drive.command
  rw [if_pos rfl, hl, hc]
  exact hstart

theorem command_read48 (hready : Ready d e) (hl : e.lba48 = lba) (hc : e.count48 = n) (hfit : lba + n ≤ d.size) (hn : 0 < n) :
    e.outb ideCommand cmdReadSectorsExt = e.readAfter lba n 0 := by
  have hstart := start_of_fits (fun k left => .read (lba + k) left 0) hready.lbaMode (hready.size ▸ hfit) hn
  show Drive.command cmdReadSectorsExt e = _
  unfold Drive.command
  rw [if_neg (by decide), if_neg (by decide), if_pos rfl, hl, hc]
  exact hstart

theorem command_write28 (hready : Ready d e) (hl : e.lba28 = lba) (hc : e.count28 = n) (hfit : lba + n ≤ d.size)
    (hn : 0 < n) (buf : Nat → Word) :
    e.outb ideCommand cmdWriteSectors = e.writeAfter buf lba n 0 := by
  have hstart := start_of_fits (fun k left => .write (lba + k) left 0) hready.lbaMode (hready.size ▸ hfit) hn
  show Drive.command cmdWriteSectors e = _
  unfold Drive.command Drive.writeAfter
  rw [if_neg (by decide), if_pos rfl, hl, hc, writtenSectors_zero]
  exact hstart

theorem command_write48 (hready : Ready d e) (hl : e.lba48 = lba) (hc : e.count48 = n) (hfit : lba + n ≤ d.size)
    (hn : 0 < n) (buf : Nat → Word) :
    e.outb ideCommand cmdWriteSectorsExt = e.writeAfter buf lba n 0 := by
  have hstart := start_of_fits (fun k left => .write (lba + k) left 0) hready.lbaMode (hready.size ▸ hfit) hn
  show Drive.command cmdWriteSectorsExt e = _
  unfold Drive.command Drive.writeAfter
  rw [if_neg (by decide), if_neg (by decide), if_neg (by decide), if_pos rfl, hl, hc, writtenSectors_zero]
  exact hstart

end

abbrev TakesLba28 (lba count : Nat) : Prop := lba ≤ 0x0FFFFFFF ∧ count ≤ 256

def counterValues (lba count : Nat) : Nat := if TakesLba28 lba count then 2 ^ 8 else 2 ^ 16

section

variable {drive lba count : Nat} {d : Drive}

theorem ideReadSectors_eq (h : Request drive lba count d) (buf : Nat → Word) :
    ∃ d' : Drive, d'.Selected ∧ d'.sectors = d.sectors ∧ ∀ fuel, ideReadSectors fuel drive lba count buf d =
      loop (readTurn (counterValues lba count) count) fuel (0, buf, d'.readAfter lba count 0) := by
  have hsel := ideSelectDrive_eq h
  have hpos := h.count_pos
  have hlba := h.lba_lt
  unfold counterValues
  by_cases h28 : TakesLba28 lba count
  · obtain ⟨hready, hl, hc⟩ := setup28_spec h h28.1 h28.2 ((0xA0 ||| drive <<< 4) % 256)
    refine ⟨_, hready.selected, hready.sectors, fun fuel => ?_⟩
    unfold ideReadSectors
    rw [if_neg (by omega), if_neg (by omega), hsel, if_pos h28]
    dsimp only
    rw [if_neg (not_not.2 rfl), command_read28 hready hl hc h.fits hpos]
  · obtain ⟨hready, hl, hc⟩ := setup48_spec h ((0xA0 ||| drive <<< 4) % 256)
    refine ⟨_, hready.selected, hready.sectors, fun fuel => ?_⟩
    unfold ideReadSectors ideReadSectorsExt
    rw [if_neg (by omega), if_pos (by omega), if_neg (by omega), if_neg (by omega), hsel, if_neg h28]
    dsimp only
    rw [if_neg (not_not.2 rfl), command_read48 hready hl hc h.fits hpos]

theorem ideWriteSectors_eq (h : Request drive lba count d) (buf : Nat → Word) :
    ∃ (d' : Drive) (flush : Nat), d'.Selected ∧ d'.sectors = d.sectors ∧
      (flush = cmdCacheFlush ∨ flush = cmdCacheFlushExt) ∧ ∀ fuel, ideWriteSectors fuel drive lba count buf d =
        (loop (writeTurn (counterValues lba count) count flush buf) fuel (0, d'.writeAfter buf lba count 0)).map
          (fun r => (if TakesLba28 lba count then r.1 else -1, r.2)) := by
  have hsel := ideSelectDrive_eq h
  have hpos := h.count_pos
  have hlba := h.lba_lt
  unfold counterValues
  by_cases h28 : TakesLba28 lba count
  · obtain ⟨hready, hl, hc⟩ := setup28_spec h h28.1 h28.2 ((0xA0 ||| drive <<< 4) % 256)
    refine ⟨_, cmdCacheFlush, hready.selected, hready.sectors, Or.inl rfl, fun fuel => ?_⟩
    unfold ideWriteSectors
    rw [if_neg (by omega), if_neg (by omega), hsel, if_pos h28]
    dsimp only
    rw [if_neg (not_not.2 rfl), command_write28 hready hl hc h.fits hpos buf]
    simp only [if_pos h28, Option.map_id']
  · obtain ⟨hready, hl, hc⟩ := setup48_spec h ((0xA0 ||| drive <<< 4) % 256)
    refine ⟨_, cmdCacheFlushExt, hready.selected, hready.sectors, Or.inr rfl, fun fuel => ?_⟩
    unfold ideWriteSectors ideWriteSectorsExt
    rw [if_neg (by omega), if_pos (by omega), if_neg (by omega), if_neg (by omega), hsel, if_neg h28]
    dsimp only
    rw [if_neg (not_not.2 rfl), command_write48 hready hl hc h.fits hpos buf]
    simp only [if_neg h28]

theorem reads_exactly_iff (h : Request drive lba count d) (buf : Nat → Word) :
    ReadsExactly drive lba count buf d ↔ ¬(lba ≤ 0x0FFFFFFF ∧ count = 256) := by
  obtain ⟨d', hs, hsectors, heq⟩ := ideReadSectors_eq h buf
  have hlt := h.count_lt
  constructor
  · rintro ⟨fuel, buf', e, hrun, -⟩ ⟨hl, rfl⟩
    obtain ⟨r, hloop, hr⟩ := readLoop_wraps hs lba (n := 256) (by omega) buf
    have hv : counterValues lba 256 = 256 := if_pos ⟨hl, Nat.le_refl _⟩
    rw [heq, hv] at hrun
    rw [loop_unique hloop hrun] at hr
    cases hr
  · intro hnot
    have hw : count < counterValues lba count := by
      unfold counterValues
      split <;> omega
    refine ⟨count + 1, _, _, (heq _).trans (readLoop_exact hs hw buf), fun j => ?_, hsectors⟩
    rw [hsectors]
    rfl

theorem writes_exactly_iff (h : Request drive lba count d) (buf : Nat → Word) :
    WritesExactly drive lba count buf d ↔ lba ≤ 0x0FFFFFFF ∧ count < 256 := by
  obtain ⟨d', flush, hs, hsectors, hflush, heq⟩ := ideWriteSectors_eq h buf
  constructor
  · rintro ⟨fuel, e, hrun, -⟩
    rw [heq] at hrun
    obtain ⟨r, hloop, hr⟩ := Option.map_eq_some_iff.1 hrun
    by_cases h28 : TakesLba28 lba count
    · refine ⟨h28.1, Nat.lt_of_le_of_ne h28.2 ?_⟩
      rintro rfl
      obtain ⟨r', hloop', hr'⟩ := writeLoop_wraps hs lba flush (n := 256) (by omega) buf
      have hv : counterValues lba 256 = 256 := if_pos h28
      rw [hv] at hloop
      rw [loop_unique hloop' hloop] at hr'
      rw [if_pos h28, hr'] at hr
      cases hr
    · rw [if_neg h28] at hr
      cases hr
  · rintro ⟨hl, hc⟩
    have h28 : TakesLba28 lba count := ⟨hl, by omega⟩
    have hw : count < counterValues lba count := by
      unfold counterValues
      rw [if_pos h28]
      omega
    obtain ⟨e, hloop, he⟩ := writeLoop_exact hs lba hw hflush buf
    refine ⟨count + 1, e, ?_, fun s w hword => ?_⟩
    · rw [heq, hloop]
      simp only [Option.map_some, if_pos h28]
    · rw [he, hsectors]
      unfold writtenSectors
      by_cases hin : lba ≤ s ∧ s < lba + count
      · rw [if_pos ⟨hin.1, hin.2, hword⟩, if_pos hin]
      · rw [if_neg (fun hin' => hin ⟨hin'.1, hin'.2.1⟩), if_neg hin]

/-- **Which transfers are exact**: all reads but those of 256 sectors with the LBA28 command, and of the writes only
those of fewer sectors with that command. -/
theorem transfers_exact_iff (h : Request drive lba count d) (buf : Nat → Word) :
    (ReadsExactly drive lba count buf d ↔ ¬(lba ≤ 0x0FFFFFFF ∧ count = 256)) ∧
      (WritesExactly drive lba count buf d ↔ lba ≤ 0x0FFFFFFF ∧ count < 256) :=
  ⟨reads_exactly_iff h buf, writes_exactly_iff h buf⟩

end

def smallDrive : Drive :=
  { number := 0
    size := 2 ^ 21
    sectors := fun _ _ => 0
    select := 0
    count := ⟨0, 0⟩
    lbaLow := ⟨0, 0⟩
    lbaMid := ⟨0, 0⟩
    lbaHigh := ⟨0, 0⟩
    phase := .idle
    error := false
    busy := 0
    delay := fun _ => ⟨0, by decide⟩
    delays := 0 }

theorem request_smallDrive {lba count : Nat} (hpos : 1 ≤ count) (hc : count < 2 ^ 16) (hsize : lba + count ≤ 2 ^ 21) :
    Request 0 lba count smallDrive :=
  ⟨rfl, by omega, rfl, rfl, by omega, hpos, hc, hsize⟩

theorem transfers_exact_first : (ReadsExactly 0 0 1 (fun _ => 7) smallDrive ↔ ¬((0 : Nat) ≤ 0x0FFFFFFF ∧ 1 = 256)) ∧
    (WritesExactly 0 0 1 (fun _ => 7) smallDrive ↔ (0 : Nat) ≤ 0x0FFFFFFF ∧ 1 < 256) :=
  transfers_exact_iff (request_smallDrive (by omega) (by omega) (by omega)) _

/-- **256 sectors at once.** -/
theorem not_transfers_exact : ¬∀ (drive lba count : Nat) (buf : Nat → Word) (d : Drive), Request drive lba count d →
    ReadsExactly drive lba count buf d ∧ WritesExactly drive lba count buf d := by
  intro hall
  have hreq : Request 0 0 256 smallDrive := request_smallDrive (by omega) (by omega) (by omega)
  exact (reads_exactly_iff hreq (fun _ => 7)).1 (hall 0 0 256 _ _ hreq).1 ⟨by omega, rfl⟩

end Hw
end AmitX
