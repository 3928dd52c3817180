import AmitX.Lib.Run
/-!
# E1000 — the transmit ring of the network card (`e1000.c`)

The driver puts a frame into the descriptor at `tx_tail` once that one's status says DD, and hands it over by writing
TDT; the card takes descriptors from TDH on while TDH is not TDT.  A call of `e1000_send` is a sequence of steps, and the
card may step between any two of them.  Eight descriptors full of frames look to the card like an empty ring.
-/
namespace AmitX
namespace Hw

open Run

def txRingSize : Nat := 8

def txBufferSize : Nat := 2048

abbrev Frame := List (BitVec 8)

/-- The bit `E1000_TXD_STAT_DD` of a status. -/
def statDD : BitVec 8 := 1

/-- `EOP | IFCS | RS`. -/
def txCommand : BitVec 8 := 0x0B

/-- `addr` is the index of the buffer at the descriptor's address. -/
structure TxDesc where
  addr : Nat
  length : Nat
  cso : BitVec 8
  cmd : BitVec 8
  status : BitVec 8
  css : BitVec 8
  special : BitVec 16

def TxDesc.done (d : TxDesc) : Bool := d.status &&& statDD != 0

/-- Where a call of `e1000_send` is. -/
inductive SendPoint
  | idle
  | reclaim (data : Frame)
  | copy (data : Frame)
  | describe (data : Frame)
  | publish (data : Frame)

structure TxStats where
  txPackets : BitVec 64
  txBytes : BitVec 64
  txDropped : BitVec 64

/-- The driver, the registers TDH and TDT of the card, and the frames so far. -/
structure TxState where
  ready : Bool
  txRing : Nat → TxDesc
  txBuffers : Nat → Frame
  txHead : Nat
  txTail : Nat
  stats : TxStats
  tdh : Nat
  tdt : Nat
  point : SendPoint
  /-- The frames for which `e1000_send` returned 0. -/
  accepted : List Frame
  /-- The frames that the card sent. -/
  sent : List Frame

/-- The ring after `e1000_init_tx`, over any buffers of `malloc`. -/
def e1000InitTx (buffers : Nat → Frame) : TxState :=
  { ready := true
    txRing := fun i => ⟨i, 0, 0, 0, statDD, 0, 0⟩
    txBuffers := buffers
    txHead := 0
    txTail := 0
    stats := ⟨0, 0, 0⟩
    tdh := 0
    tdt := 0
    point := .idle
    accepted := []
    sent := [] }

def ringNext (i : Nat) : Nat := (i + 1) % txRingSize

/-- `e1000_send` up to the first look at the descriptor; `none` for a NULL pointer. -/
def e1000SendBegin (data : Option Frame) (s : TxState) : Option Int × TxState :=
  match data with
  | none => (some (-1), s)
  | some data =>
    if s.ready = false ∨ txBufferSize < data.length then (some (-1), s)
    else if (s.txRing s.txTail).done then (none, { s with point := .copy data })
    else (none, { s with point := .reclaim data })

/-- One turn of the reclaim loop, or the second look at the descriptor behind it. -/
def e1000SendReclaim (data : Frame) (s : TxState) : Option Int × TxState :=
  if s.txHead ≠ s.txTail ∧ (s.txRing s.txHead).done then (none, { s with txHead := ringNext s.txHead })
  else if (s.txRing s.txTail).done then (none, { s with point := .copy data })
  else (some (-1), { s with point := .idle, stats.txDropped := s.stats.txDropped + 1 })

def e1000SendCopy (data : Frame) (s : TxState) : TxState :=
  { s with
    txBuffers := Function.update s.txBuffers s.txTail (data ++ (s.txBuffers s.txTail).drop data.length)
    point := .describe data }

def e1000SendDescribe (data : Frame) (s : TxState) : TxState :=
  { s with
    txRing := Function.update s.txRing s.txTail ⟨(s.txRing s.txTail).addr, data.length, 0, txCommand, 0, 0, 0⟩
    point := .publish data }

def e1000SendPublish (data : Frame) (s : TxState) : TxState :=
  { s with
    txTail := ringNext s.txTail
    tdt := ringNext s.txTail
    stats := ⟨s.stats.txPackets + 1, s.stats.txBytes + BitVec.ofNat 64 data.length, s.stats.txDropped⟩
    accepted := s.accepted ++ [data]
    point := .idle }

def e1000SendStep (s : TxState) : Option Int × TxState :=
  match s.point with
  | .idle => (none, s)
  | .reclaim data => e1000SendReclaim data s
  | .copy data => (none, e1000SendCopy data s)
  | .describe data => (none, e1000SendDescribe data s)
  | .publish data => (some 0, e1000SendPublish data s)

def wireFrame (s : TxState) (d : TxDesc) : Frame := (s.txBuffers d.addr).take d.length

def TxDesc.setDone (d : TxDesc) : TxDesc := { d with status := d.status ||| statDD }

def deviceTake (s : TxState) : TxState :=
  { s with
    sent := s.sent ++ [wireFrame s (s.txRing s.tdh)]
    txRing := Function.update s.txRing s.tdh (s.txRing s.tdh).setDone
    tdh := ringNext s.tdh }

def deviceStep (s : TxState) : TxState := if s.tdh = s.tdt then s else deviceTake s

/-- A call begins, where none is running; the call that runs takes a step; or the card does. -/
inductive TxStep
  | send (data : Option Frame)
  | driver
  | device

def TxStep.run (s : TxState) : TxStep → Option Int × TxState
  | .send data =>
    match s.point with
    | .idle => e1000SendBegin data s
    | _ => (none, s)
  | .driver => e1000SendStep s
  | .device => (none, deviceStep s)

/-! ## What the ring promises -/

/-- Descriptor `i` and its buffer hold the frame, and the card is not done with it. -/
structure Holds (s : TxState) (i : Nat) (f : Frame) : Prop where
  done : (s.txRing i).done = false
  frame : wireFrame s (s.txRing i) = f

/-- The frames sent are the first ones accepted, and those that are not sent yet are in their descriptors. -/
structure InOrder (s : TxState) : Prop where
  sent : s.sent <+: s.accepted
  kept : ∀ k f, s.sent.length ≤ k → s.accepted[k]? = some f → Holds s (k % txRingSize) f

def NoneLeft (s : TxState) : Prop := s.tdh = s.tdt → s.sent = s.accepted

/-- A frame is handed over only while fewer than seven accepted frames are not sent. -/
def TxStep.Room (s : TxState) (c : TxStep) : Prop :=
  match c, s.point with
  | .driver, .publish _ => s.accepted.length + 1 < s.sent.length + txRingSize
  | _, _ => True

/-- The call that runs may write descriptor `tx_tail` and its buffer, and what it has written so far is there. -/
def PointOk (s : TxState) : Prop :=
  match s.point with
  | .idle | .reclaim _ => True
  | .copy _ => s.accepted.length < s.sent.length + txRingSize
  | .describe data => s.accepted.length < s.sent.length + txRingSize ∧ (s.txBuffers s.txTail).take data.length = data
  | .publish data => s.accepted.length < s.sent.length + txRingSize ∧ Holds s s.txTail data

def SendPoint.publishing : SendPoint → Bool
  | .publish _ => true
  | _ => false

/-- The invariant of the ring: frame `k` goes through descriptor `k % 8`. -/
structure TxInv (s : TxState) : Prop where
  inOrder : InOrder s
  most : s.accepted.length ≤ s.sent.length + txRingSize
  tdh : s.tdh = s.sent.length % txRingSize
  tail : s.txTail = s.accepted.length % txRingSize
  tdt : s.tdt = s.txTail
  addr : ∀ i, (s.txRing i).addr = i
  free : ∀ k, s.accepted.length ≤ k → k < s.sent.length + txRingSize →
    (s.point.publishing = true → k ≠ s.accepted.length) → (s.txRing (k % txRingSize)).done = true
  point : PointOk s

theorem TxInv.le {s : TxState} (h : TxInv s) : s.sent.length ≤ s.accepted.length := h.inOrder.sent.length_le

theorem txRingSize_pos : 0 < txRingSize := by decide

theorem ringNext_mod (n : Nat) : ringNext (n % txRingSize) = (n + 1) % txRingSize := by
  unfold ringNext
  rw [Nat.mod_add_mod]

theorem ring_ne {n k l : Nat} (hk : n ≤ k) (hk' : k < n + txRingSize) (hl : n ≤ l) (hl' : l < n + txRingSize)
    (h : k ≠ l) : k % txRingSize ≠ l % txRingSize := by
  unfold txRingSize at *
  omega

theorem done_setDone (d : TxDesc) : d.setDone.done = true := by
  have h : ∀ b : BitVec 8, ((b ||| statDD) &&& statDD != 0) = true := by decide
  exact h d.status

theorem prefix_concat {α : Type} {l l' : List α} {a : α} (h : l <+: l') (ha : l'[l.length]? = some a) :
    l ++ [a] <+: l' := by
  obtain ⟨t, rfl⟩ := h
  rw [List.getElem?_append_right (Nat.le_refl _), Nat.sub_self] at ha
  cases t with
  | nil => cases ha
  | cons b t =>
    injection ha with ha
    subst ha
    exact ⟨t, by simp⟩

theorem txInv_init (buffers : Nat → Frame) : TxInv (e1000InitTx buffers) where
  inOrder := ⟨List.prefix_refl _, fun k f _ h => by simp [e1000InitTx] at h⟩
  most := Nat.zero_le _
  tdh := rfl
  tail := rfl
  tdt := rfl
  addr _ := rfl
  free _ _ _ _ := (by decide : (statDD &&& statDD != 0) = true)
  point := trivial

theorem TxInv.tdh_eq_tdt {s : TxState} (h : TxInv s) : s.tdh = s.tdt ↔
    s.sent = s.accepted ∨ s.accepted.length = s.sent.length + txRingSize := by
  have hle := h.le
  have hmost := h.most
  have heq : s.sent = s.accepted ↔ s.sent.length = s.accepted.length :=
    ⟨fun e => by rw [e], fun e => h.inOrder.sent.eq_of_length e⟩
  rw [h.tdt, h.tdh, h.tail, heq]
  unfold txRingSize at *
  omega

/-! ## Steps of the driver -/

section

variable {s : TxState} {data : Frame}

theorem TxInv.setPoint (h : TxInv s) (point : SendPoint) (stats : TxStats) (txHead : Nat)
    (hp : s.point.publishing = false)
    (hok : PointOk { s with point := point, stats := stats, txHead := txHead }) :
    TxInv { s with point := point, stats := stats, txHead := txHead } where
  inOrder := ⟨h.inOrder.sent, fun k f hk hf => ⟨(h.inOrder.kept k f hk hf).done, (h.inOrder.kept k f hk hf).frame⟩⟩
  most := h.most
  tdh := h.tdh
  tail := h.tail
  tdt := h.tdt
  addr := h.addr
  free k hk hk' _ := h.free k hk hk' (fun hpub => by rw [hp] at hpub; cases hpub)
  point := hok

theorem TxInv.room_of_done (h : TxInv s) (hd : (s.txRing s.txTail).done = true) :
    s.accepted.length < s.sent.length + txRingSize := by
  rcases Nat.lt_or_ge s.accepted.length (s.sent.length + txRingSize) with hlt | hge
  · exact hlt
  have hfull : s.accepted.length = s.sent.length + txRingSize := Nat.le_antisymm h.most hge
  obtain ⟨f, hf⟩ : ∃ f, s.accepted[s.sent.length]? = some f :=
    ⟨_, List.getElem?_eq_getElem (by rw [hfull]; exact Nat.lt_add_of_pos_right txRingSize_pos)⟩
  have hk := (h.inOrder.kept _ f (Nat.le_refl _) hf).done
  rw [h.tail, hfull, Nat.add_mod_right] at hd
  rw [hd] at hk
  cases hk

theorem txInv_begin (h : TxInv s) (hp : s.point = .idle) (data : Option Frame) : TxInv (e1000SendBegin data s).2 := by
  have hidle : s.point.publishing = false := by rw [hp]; rfl
  unfold e1000SendBegin
  cases data with
  | none => exact h
  | some data =>
    simp only
    split
    · exact h
    split
    · rename_i hd
      exact h.setPoint (.copy data) s.stats s.txHead hidle (h.room_of_done hd)
    · exact h.setPoint (.reclaim data) s.stats s.txHead hidle trivial

theorem txInv_reclaim (h : TxInv s) (hp : s.point = .reclaim data) : TxInv (e1000SendReclaim data s).2 := by
  have hrec : s.point.publishing = false := by rw [hp]; rfl
  unfold e1000SendReclaim
  split
  · have hok : PointOk { s with txHead := ringNext s.txHead } := by
      unfold PointOk
      rw [show ({ s with txHead := ringNext s.txHead } : TxState).point = .reclaim data from hp]
      trivial
    exact h.setPoint s.point s.stats (ringNext s.txHead) hrec hok
  split
  · rename_i hd
    exact h.setPoint (.copy data) s.stats s.txHead hrec (h.room_of_done hd)
  · exact h.setPoint .idle _ s.txHead hrec trivial

theorem TxInv.ne_tail (h : TxInv s) (hroom : s.accepted.length < s.sent.length + txRingSize) {k : Nat} {f : Frame}
    (hk : s.sent.length ≤ k) (hf : s.accepted[k]? = some f) : k % txRingSize ≠ s.txTail := by
  obtain ⟨hlt, -⟩ := List.getElem?_eq_some_iff.1 hf
  rw [h.tail]
  exact ring_ne hk (by omega) h.le hroom (by omega)

theorem txInv_copy (h : TxInv s) (hp : s.point = .copy data) : TxInv (e1000SendCopy data s) := by
  have hroom : s.accepted.length < s.sent.length + txRingSize := by
    have := h.point
    unfold PointOk at this
    rw [hp] at this
    exact this
  refine ⟨⟨h.inOrder.sent, fun k f hk hf => ?_⟩, h.most, h.tdh, h.tail, h.tdt, h.addr, fun k hk hk' _ => ?_, hroom, ?_⟩
  · have hkept := h.inOrder.kept k f hk hf
    refine ⟨hkept.done, ?_⟩
    have hne := h.ne_tail hroom hk hf
    have hframe := hkept.frame
    unfold wireFrame at *
    rw [h.addr] at hframe
    simp only [e1000SendCopy]
    rw [h.addr, Function.update_of_ne hne]
    exact hframe
  · exact h.free k hk hk' (by rw [hp]; intro hpub; cases hpub)
  · simp [e1000SendCopy]

theorem txInv_describe (h : TxInv s) (hp : s.point = .describe data) : TxInv (e1000SendDescribe data s) := by
  have hpt : s.accepted.length < s.sent.length + txRingSize ∧ (s.txBuffers s.txTail).take data.length = data := by
    have := h.point
    unfold PointOk at this
    rw [hp] at this
    exact this
  have hne : ∀ {i}, i ≠ s.txTail → (e1000SendDescribe data s).txRing i = s.txRing i := fun hi =>
    Function.update_of_ne hi _ _
  have htail : (e1000SendDescribe data s).txRing s.txTail = ⟨s.txTail, data.length, 0, txCommand, 0, 0, 0⟩ := by
    simp only [e1000SendDescribe, Function.update_self, h.addr]
  refine ⟨⟨h.inOrder.sent, fun k f hk hf => ?_⟩, h.most, h.tdh, h.tail, h.tdt, fun i => ?_, fun k hk hk' hpub => ?_,
    hpt.1, ?_⟩
  · have hkept := h.inOrder.kept k f hk hf
    have hi := hne (h.ne_tail hpt.1 hk hf)
    exact ⟨by rw [hi]; exact hkept.done, by rw [hi]; exact hkept.frame⟩
  · by_cases hi : i = s.txTail
    · rw [hi, htail]
    · rw [hne hi, h.addr]
  · have hkm : k ≠ s.accepted.length := hpub rfl
    have hkt : k % txRingSize ≠ s.txTail := by
      rw [h.tail]
      have hle := h.le
      exact ring_ne (n := s.sent.length) (Nat.le_trans hle hk) hk' hle hpt.1 hkm
    rw [hne hkt]
    exact h.free k hk hk' (by rw [hp]; intro hpub; cases hpub)
  · refine ⟨?_, ?_⟩
    · rw [show (e1000SendDescribe data s).txTail = s.txTail from rfl, htail]
      exact (by decide : ((0 : BitVec 8) &&& statDD != 0) = false)
    · rw [show (e1000SendDescribe data s).txTail = s.txTail from rfl, htail]
      exact hpt.2

theorem txInv_publish (h : TxInv s) (hp : s.point = .publish data) : TxInv (e1000SendPublish data s) := by
  have hpt : s.accepted.length < s.sent.length + txRingSize ∧ Holds s s.txTail data := by
    have := h.point
    unfold PointOk at this
    rw [hp] at this
    exact this
  have hlen : (s.accepted ++ [data]).length = s.accepted.length + 1 := by simp
  have hnext : ringNext s.txTail = (s.accepted ++ [data]).length % txRingSize := by rw [h.tail, ringNext_mod, hlen]
  have hmost : (s.accepted ++ [data]).length ≤ s.sent.length + txRingSize := by rw [hlen]; exact hpt.1
  refine ⟨⟨?_, fun k f hk hf => ?_⟩, hmost, h.tdh, hnext, rfl, h.addr, fun k hk hk' _ => ?_, trivial⟩
  · exact h.inOrder.sent.trans (List.prefix_append _ _)
  · have hf' : (s.accepted ++ [data])[k]? = some f := hf
    rw [List.getElem?_append] at hf'
    split at hf'
    · have hkept := h.inOrder.kept k f hk hf'
      exact ⟨hkept.done, hkept.frame⟩
    · rename_i hge
      have hkm : k = s.accepted.length := by
        have := (List.getElem?_eq_some_iff.1 hf').1
        simp only [List.length_singleton] at this
        omega
      rw [hkm, Nat.sub_self] at hf'
      have hfd : data = f := by simpa using hf'
      rw [hkm, ← h.tail, ← hfd]
      exact ⟨hpt.2.done, hpt.2.frame⟩
  · have hk1 : s.accepted.length + 1 ≤ k := by rw [← hlen]; exact hk
    exact h.free k (by omega) hk' (fun _ => by omega)

end

/-! ## A step of the card -/

theorem txInv_take {s : TxState} (h : TxInv s) (hlt : s.sent.length < s.accepted.length) : TxInv (deviceTake s) := by
  obtain ⟨f, hf⟩ : ∃ f, s.accepted[s.sent.length]? = some f := ⟨_, List.getElem?_eq_getElem hlt⟩
  have hnext := h.inOrder.kept _ f (Nat.le_refl _) hf
  have hsent : (deviceTake s).sent = s.sent ++ [f] := by
    simp only [deviceTake, h.tdh, hnext.frame]
  have hlen : (deviceTake s).sent.length = s.sent.length + 1 := by rw [hsent, List.length_append, List.length_singleton]
  have hring : ∀ {i}, i ≠ s.tdh → (deviceTake s).txRing i = s.txRing i := fun hi => Function.update_of_ne hi _ _
  have htaken : (deviceTake s).txRing s.tdh = (s.txRing s.tdh).setDone := Function.update_self _ _ _
  have hmost := h.most
  have hne : ∀ {k}, s.sent.length < k → k < s.sent.length + txRingSize → k % txRingSize ≠ s.tdh := fun {k} hk hk' => by
    rw [h.tdh]
    exact ring_ne (n := s.sent.length) (by omega) hk' (Nat.le_refl _) (Nat.lt_add_of_pos_right txRingSize_pos) (by omega)
  have hmost' : s.accepted.length ≤ (deviceTake s).sent.length + txRingSize := by omega
  have htdh : (deviceTake s).tdh = (deviceTake s).sent.length % txRingSize := by
    rw [hlen, ← ringNext_mod, ← h.tdh]
    rfl
  refine ⟨⟨?_, fun k g hk hg => ?_⟩, hmost', htdh, h.tail, h.tdt, fun i => ?_, fun k hk hk' hpub => ?_, ?_⟩
  · rw [hsent]
    exact prefix_concat h.inOrder.sent hf
  · rw [hlen] at hk
    have hk' := (List.getElem?_eq_some_iff.1 hg).1
    have hkept := h.inOrder.kept k g (by omega) hg
    have hi := hring (hne (by omega) (Nat.lt_of_lt_of_le hk' hmost))
    exact ⟨by rw [hi]; exact hkept.done, by rw [hi]; exact hkept.frame⟩
  · by_cases hi : i = s.tdh
    · rw [hi, htaken]
      exact h.addr _
    · rw [hring hi, h.addr]
  · have hk2 : s.accepted.length ≤ k := hk
    rw [hlen] at hk'
    by_cases hlast : k = s.sent.length + txRingSize
    · rw [hlast, Nat.add_mod_right, ← h.tdh, htaken]
      exact done_setDone _
    · rw [hring (hne (by omega) (by omega))]
      exact h.free k hk (by omega) hpub
  · have hpt := h.point
    unfold PointOk at *
    rw [show (deviceTake s).point = s.point from rfl]
    cases hp : s.point with
    | idle => trivial
    | reclaim data => trivial
    | copy data =>
      rw [hp] at hpt
      show s.accepted.length < (deviceTake s).sent.length + txRingSize
      have hpt' : s.accepted.length < s.sent.length + txRingSize := hpt
      omega
    | describe data =>
      rw [hp] at hpt
      refine ⟨?_, hpt.2⟩
      show s.accepted.length < (deviceTake s).sent.length + txRingSize
      have hpt' := hpt.1
      omega
    | publish data =>
      rw [hp] at hpt
      have hpt' := hpt.1
      have hi : (deviceTake s).txRing s.txTail = s.txRing s.txTail := by
        refine hring ?_
        rw [h.tail]
        exact hne hlt hpt'
      refine ⟨?_, ?_, ?_⟩
      · show s.accepted.length < (deviceTake s).sent.length + txRingSize
        omega
      · show ((deviceTake s).txRing s.txTail).done = false
        rw [hi]
        exact hpt.2.done
      · show wireFrame (deviceTake s) ((deviceTake s).txRing s.txTail) = data
        rw [hi]
        exact hpt.2.frame

theorem txInv_device {s : TxState} (h : TxInv s) : TxInv (deviceStep s) := by
  unfold deviceStep
  split
  · exact h
  rename_i hne
  refine txInv_take h (Nat.lt_of_le_of_ne h.le (fun he => hne (h.tdh_eq_tdt.2 (Or.inl ?_))))
  exact h.inOrder.sent.eq_of_length he

theorem txInv_step {s : TxState} (h : TxInv s) (c : TxStep) : TxInv (TxStep.run s c).2 := by
  cases c with
  | send data =>
    unfold TxStep.run
    cases hp : s.point with
    | idle => exact txInv_begin h hp data
    | reclaim _ => exact h
    | copy _ => exact h
    | describe _ => exact h
    | publish _ => exact h
  | driver =>
    show TxInv (e1000SendStep s).2
    unfold e1000SendStep
    cases hp : s.point with
    | idle => exact h
    | reclaim data => exact txInv_reclaim h hp
    | copy data => exact txInv_copy h hp
    | describe data => exact txInv_describe h hp
    | publish data => exact txInv_publish h hp
  | device => exact txInv_device h

/-! ## Runs -/

/-- The state of the ring after some steps from `e1000_init_tx`. -/
def txAfter (buffers : Nat → Frame) (steps : List TxStep) : TxState := (run TxStep.run (e1000InitTx buffers) steps).2

theorem txInv_after (buffers : Nat → Frame) (steps : List TxStep) : TxInv (txAfter buffers steps) :=
  run_keeps (A := fun _ _ _ => True) (I := fun _ s => TxInv s) (fun _ s c h _ => show TxInv (TxStep.run s c).2 from
    txInv_step h c) (txInv_init buffers) steps (fun _ _ _ _ => trivial)

def NotFull (s : TxState) : Prop := s.accepted.length < s.sent.length + txRingSize

theorem TxInv.noneLeft {s : TxState} (h : TxInv s) : NoneLeft s ↔ NotFull s := by
  unfold NoneLeft NotFull
  rw [h.tdh_eq_tdt]
  have hmost := h.most
  constructor
  · intro hnone
    by_contra hfull
    have heq := hnone (Or.inr (by omega))
    rw [heq] at hfull
    exact hfull (Nat.lt_add_of_pos_right txRingSize_pos)
  · rintro hroom (he | he)
    · exact he
    · omega

theorem notFull_step {s : TxState} (hn : NotFull s) (c : TxStep) : NotFull (TxStep.run s c).2 ↔ c.Room s := by
  cases c with
  | send data =>
    have hsame : NotFull (TxStep.run s (.send data)).2 := by
      unfold TxStep.run
      cases s.point with
      | idle =>
        show NotFull (e1000SendBegin data s).2
        unfold e1000SendBegin
        cases data with
        | none => exact hn
        | some data =>
          simp only
          split_ifs <;> exact hn
      | reclaim _ => exact hn
      | copy _ => exact hn
      | describe _ => exact hn
      | publish _ => exact hn
    exact ⟨fun _ => trivial, fun _ => hsame⟩
  | driver =>
    show NotFull (e1000SendStep s).2 ↔ _
    unfold e1000SendStep TxStep.Room
    cases s.point with
    | idle => exact ⟨fun _ => trivial, fun _ => hn⟩
    | reclaim data =>
      refine ⟨fun _ => trivial, fun _ => ?_⟩
      show NotFull (e1000SendReclaim data s).2
      unfold e1000SendReclaim
      split_ifs <;> exact hn
    | copy data => exact ⟨fun _ => trivial, fun _ => hn⟩
    | describe data => exact ⟨fun _ => trivial, fun _ => hn⟩
    | publish data =>
      show (s.accepted ++ [data]).length < s.sent.length + txRingSize ↔ _
      rw [List.length_append, List.length_singleton]
  | device =>
    have hmore : NotFull (deviceStep s) := by
      unfold deviceStep
      split
      · exact hn
      · show s.accepted.length < (s.sent ++ [_]).length + txRingSize
        rw [List.length_append, List.length_singleton]
        have : s.accepted.length < s.sent.length + txRingSize := hn
        omega
    exact ⟨fun _ => trivial, fun _ => hmore⟩

/-- **No accepted frame is lost**, from `e1000_init_tx`: in every state of the run the frames sent are the first ones
accepted, the others are untouched in their descriptors, and none is left where the card has nothing to take. -/
def NoFrameLost (buffers : Nat → Frame) (steps : List TxStep) : Prop :=
  ∀ before after, steps = before ++ after → InOrder (txAfter buffers before) ∧ NoneLeft (txAfter buffers before)

/-- **No accepted frame is lost exactly in the runs that never fill the ring**: each frame is handed over while fewer
than seven accepted frames are not sent. -/
theorem no_frame_lost_iff (buffers : Nat → Frame) (steps : List TxStep) :
    NoFrameLost buffers steps ↔ Allowed TxStep.run (fun _ => TxStep.Room) (e1000InitTx buffers) steps := by
  constructor
  · rintro h before c after rfl
    have hbefore := (txInv_after buffers before).noneLeft.1 (h before (c :: after) rfl).2
    have hafter := (txInv_after buffers (before ++ [c])).noneLeft.1 (h (before ++ [c]) after (by simp)).2
    unfold txAfter at hafter
    rw [run_concat] at hafter
    exact (notFull_step hbefore c).1 hafter
  · rintro h before after rfl
    have hinv := txInv_after buffers before
    refine ⟨hinv.inOrder, hinv.noneLeft.2 ?_⟩
    exact run_keeps (I := fun _ s => NotFull s) (fun _ s c hn hc => show NotFull (TxStep.run s c).2 from
      (notFull_step hn c).2 hc) (s := e1000InitTx buffers) (Nat.lt_add_of_pos_right txRingSize_pos) before h.left

/-- A whole call of `e1000_send`, with no step of the card in between. -/
def sendSteps (f : Frame) : List TxStep := [.send (some f), .driver, .driver, .driver]

/-- **A ring of eight frames.** The card, which stepped in between none of them, sees an empty ring. -/
theorem not_no_frame_lost : ¬∀ (buffers : Nat → Frame) (steps : List TxStep), NoFrameLost buffers steps := by
  intro hall
  have h := hall (fun _ => []) ((List.replicate 8 (sendSteps [0x2A])).flatten)
  have hnone := (h _ [] (List.append_nil _).symm).2
  have hfull := (txInv_after _ _).noneLeft.1 hnone
  exact absurd hfull (by unfold NotFull; decide)

end Hw
end AmitX
