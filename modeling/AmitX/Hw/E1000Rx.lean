import AmitX.Hw.E1000
/-!
# E1000Rx — the receive ring of the network card (`e1000.c`)

The card writes a frame into the buffer of the descriptor at RDH, sets DD and goes on, while RDH is not RDT; the driver
takes the frame of the descriptor at `rx_head` once that one's status says DD, clears the descriptor, and hands it back
by writing its index to RDT.  RDT so stays one place behind `rx_head`.  A call of `e1000_receive` is a sequence of steps,
and the card may step between any two of them.
-/
namespace AmitX
namespace Hw

open Run

def rxRingSize : Nat := 32

def rxBufferSize : Nat := 2048

/-- `addr` is the index of the buffer at the descriptor's address. -/
structure RxDesc where
  addr : Nat
  length : Nat
  checksum : BitVec 16
  status : BitVec 8
  errors : BitVec 8
  special : BitVec 16

def RxDesc.filled (d : RxDesc) : Bool := d.status &&& statDD != 0

/-- Where a call of `e1000_receive` with a buffer of `bufLen` bytes is; `data` is what it has copied there. -/
inductive ReceivePoint
  | idle
  | copy (bufLen : Nat)
  | clear (bufLen : Nat) (data : Frame)
  | publish (bufLen : Nat) (data : Frame)

structure RxStats where
  rxPackets : BitVec 64
  rxBytes : BitVec 64
  rxErrors : BitVec 64

/-- The driver, the registers RDH and RDT of the card, and the frames so far. -/
structure RxState where
  ready : Bool
  rxRing : Nat → RxDesc
  rxBuffers : Nat → Frame
  rxHead : Nat
  stats : RxStats
  rdh : Nat
  rdt : Nat
  point : ReceivePoint
  /-- The frames that the card wrote. -/
  written : List Frame
  /-- The buffer holds a frame that no call has copied yet. -/
  uncopied : Nat → Bool
  /-- For each call that returned a positive length, the size of its buffer and the bytes it returned. -/
  results : List (Nat × Frame)

/-- The ring after `e1000_init_rx`, over any buffers of `malloc`. -/
def e1000InitRx (ready : Bool) (buffers : Nat → Frame) : RxState :=
  { ready := ready
    rxRing := fun i => ⟨i, 0, 0, 0, 0, 0⟩
    rxBuffers := buffers
    rxHead := 0
    stats := ⟨0, 0, 0⟩
    rdh := 0
    rdt := rxRingSize - 1
    point := .idle
    written := []
    uncopied := fun _ => false
    results := [] }

/-- The next position of the ring: `& (E1000_RX_RING_SIZE - 1)`. -/
def rxNext (i : Nat) : Nat := (i + 1) &&& (rxRingSize - 1)

/-- `e1000_receive` up to the look at the descriptor; `none` for a NULL pointer. -/
def e1000ReceiveBegin (bufLen : Option Nat) (s : RxState) : Option Int × RxState :=
  match bufLen with
  | none => (some (-1), s)
  | some bufLen =>
    if s.ready = false then (some (-1), s)
    else if bufLen = 0 then (some 0, s)
    else if (s.rxRing s.rxHead).filled then (none, { s with point := .copy bufLen })
    else (some 0, s)

def copyLen (d : RxDesc) (bufLen : Nat) : Nat := if d.length > bufLen then bufLen else d.length

def e1000ReceiveCopy (bufLen : Nat) (s : RxState) : RxState :=
  let d := s.rxRing s.rxHead
  { s with
    stats.rxErrors := if d.errors ≠ 0 then s.stats.rxErrors + 1 else s.stats.rxErrors
    uncopied := Function.update s.uncopied s.rxHead false
    point := .clear bufLen ((s.rxBuffers s.rxHead).take (copyLen d bufLen)) }

def e1000ReceiveClear (bufLen : Nat) (data : Frame) (s : RxState) : RxState :=
  { s with
    rxRing := Function.update s.rxRing s.rxHead ⟨(s.rxRing s.rxHead).addr, 0, 0, 0, 0, 0⟩
    point := .publish bufLen data }

def e1000ReceivePublish (bufLen : Nat) (data : Frame) (s : RxState) : RxState :=
  { s with
    rxHead := rxNext s.rxHead
    rdt := s.rxHead
    stats.rxPackets := s.stats.rxPackets + 1
    stats.rxBytes := s.stats.rxBytes + BitVec.ofNat 64 data.length
    point := .idle
    results := if 0 < data.length then s.results ++ [(bufLen, data)] else s.results }

def e1000ReceiveStep (s : RxState) : Option Int × RxState :=
  match s.point with
  | .idle => (none, s)
  | .copy bufLen => (none, e1000ReceiveCopy bufLen s)
  | .clear bufLen data => (none, e1000ReceiveClear bufLen data s)
  | .publish bufLen data => (some data.length, e1000ReceivePublish bufLen data s)

/-- What the card writes for a frame: beside DD any bits of the status, and any of the other fields. -/
structure RxWrite where
  frame : Frame
  status : BitVec 8
  errors : BitVec 8
  checksum : BitVec 16
  special : BitVec 16

def deviceFill (w : RxWrite) (s : RxState) : RxState :=
  let d := s.rxRing s.rdh
  { s with
    rxBuffers := Function.update s.rxBuffers d.addr (w.frame ++ (s.rxBuffers d.addr).drop w.frame.length)
    rxRing := Function.update s.rxRing s.rdh
      ⟨d.addr, w.frame.length, w.checksum, w.status ||| statDD, w.errors, w.special⟩
    rdh := rxNext s.rdh
    written := s.written ++ [w.frame]
    uncopied := Function.update s.uncopied d.addr true }

def MayFill (s : RxState) : Prop := s.rdh ≠ s.rdt

instance (s : RxState) : Decidable (MayFill s) := inferInstanceAs (Decidable (_ ≠ _))

def deviceReceive (w : RxWrite) (s : RxState) : RxState :=
  if MayFill s ∧ w.frame ≠ [] ∧ w.frame.length ≤ rxBufferSize then deviceFill w s else s

/-- A call begins, where none is running; the call that runs takes a step; or the card does. -/
inductive RxStep
  | receive (bufLen : Option Nat)
  | driver
  | device (w : RxWrite)

def RxStep.run (s : RxState) : RxStep → Option Int × RxState
  | .receive bufLen =>
    match s.point with
    | .idle => e1000ReceiveBegin bufLen s
    | _ => (none, s)
  | .driver => e1000ReceiveStep s
  | .device w => (none, deviceReceive w s)

/-! ## What the ring promises -/

/-- Descriptor `i` and its buffer hold the frame. -/
structure Filled (s : RxState) (i : Nat) (f : Frame) : Prop where
  filled : (s.rxRing i).filled = true
  length : (s.rxRing i).length = f.length
  frame : (s.rxBuffers i).take f.length = f

/-- The call that runs has copied the frame at `rx_head`. -/
def ReceivePoint.copied : ReceivePoint → Nat
  | .idle | .copy _ => 0
  | .clear _ _ | .publish _ _ => 1

def RxState.copied (s : RxState) : Nat := s.results.length + s.point.copied

def Delivered (s : RxState) : Prop :=
  ∀ (k n : Nat) (data : Frame), s.results[k]? = some (n, data) → ∃ f : Frame, s.written[k]? = some f ∧ data = f.take n

/-- What the call that runs has seen of the frame at `rx_head`. -/
def ReceiveOk (s : RxState) : Prop :=
  match s.point with
  | .idle => True
  | .copy n => 0 < n ∧ s.results.length < s.written.length
  | .clear n data => 0 < n ∧ ∃ f : Frame, s.written[s.results.length]? = some f ∧ data = f.take n
  | .publish n data => 0 < n ∧ (∃ f : Frame, s.written[s.results.length]? = some f ∧ data = f.take n) ∧
      (s.rxRing s.rxHead).filled = false

/-- The invariant of the ring: frame `k` goes through descriptor `k % 32`. -/
structure RxInv (s : RxState) : Prop where
  delivered : Delivered s
  le : s.results.length ≤ s.written.length
  most : s.written.length < s.results.length + rxRingSize
  rdh : s.rdh = s.written.length % rxRingSize
  head : s.rxHead = s.results.length % rxRingSize
  rdt : s.rdt = (s.results.length + (rxRingSize - 1)) % rxRingSize
  addr : ∀ i, (s.rxRing i).addr = i
  nonempty : ∀ f ∈ s.written, f ≠ []
  kept : ∀ k f, s.copied ≤ k → s.written[k]? = some f → Filled s (k % rxRingSize) f
  free : ∀ k, s.written.length ≤ k → k < s.results.length + rxRingSize → (s.rxRing (k % rxRingSize)).filled = false
  uncopied : ∀ i, s.uncopied i = true → ∃ k, s.copied ≤ k ∧ k < s.written.length ∧ i = k % rxRingSize
  point : ReceiveOk s

theorem rxNext_mod (n : Nat) : rxNext (n % rxRingSize) = (n + 1) % rxRingSize := by
  have hand : ∀ i, i &&& (rxRingSize - 1) = i % rxRingSize := fun i => Nat.and_two_pow_sub_one_eq_mod i 5
  rw [rxNext, hand, Nat.mod_add_mod]

theorem rx_ne {n k l : Nat} (hk : n ≤ k) (hk' : k < n + rxRingSize) (hl : n ≤ l) (hl' : l < n + rxRingSize)
    (h : k ≠ l) : k % rxRingSize ≠ l % rxRingSize := by
  unfold rxRingSize at *
  omega

theorem filled_statDD (b : BitVec 8) : ((b ||| statDD) &&& statDD != 0) = true := by
  revert b
  decide

theorem rxInv_init (ready : Bool) (buffers : Nat → Frame) : RxInv (e1000InitRx ready buffers) where
  delivered k n data h := by simp [e1000InitRx] at h
  le := Nat.le_refl _
  most := (by decide : 0 < rxRingSize)
  rdh := rfl
  head := rfl
  rdt := rfl
  addr _ := rfl
  nonempty f hf := by simp [e1000InitRx] at hf
  kept k f _ h := by simp [e1000InitRx] at h
  free _ _ _ := (by decide : ((0 : BitVec 8) &&& statDD != 0) = false)
  uncopied i h := by simp [e1000InitRx] at h
  point := trivial

section

variable {s : RxState} {n : Nat} {data : Frame}

theorem RxInv.mayFill_iff (h : RxInv s) : MayFill s ↔ s.written.length + 1 < s.results.length + rxRingSize := by
  have hle := h.le
  have hmost := h.most
  rw [MayFill, h.rdh, h.rdt]
  unfold rxRingSize at *
  omega

theorem RxInv.head_filled (h : RxInv s) (hp : s.point.copied = 0) :
    (s.rxRing s.rxHead).filled = true ↔ s.results.length < s.written.length := by
  constructor
  · intro hfilled
    rcases Nat.lt_or_ge s.results.length s.written.length with hlt | hge
    · exact hlt
    have hfree := h.free s.results.length hge (by unfold rxRingSize; omega)
    rw [← h.head, hfilled] at hfree
    cases hfree
  · intro hlt
    obtain ⟨f, hf⟩ : ∃ f, s.written[s.results.length]? = some f := ⟨_, List.getElem?_eq_getElem hlt⟩
    rw [h.head]
    exact (h.kept _ f (by rw [RxState.copied, hp]; exact Nat.le_refl _) hf).filled

theorem rxInv_begin (h : RxInv s) (hp : s.point = .idle) (bufLen : Option Nat) :
    RxInv (e1000ReceiveBegin bufLen s).2 := by
  unfold e1000ReceiveBegin
  cases bufLen with
  | none => exact h
  | some n =>
    simp only
    split
    · exact h
    split
    · exact h
    split
    · next hn hfilled =>
      have hcopied : s.copied = s.results.length := by rw [RxState.copied, hp]; rfl
      have hlt := (h.head_filled (by rw [hp]; rfl)).1 hfilled
      refine ⟨h.delivered, h.le, h.most, h.rdh, h.head, h.rdt, h.addr, h.nonempty, fun k f hk hf => ?_, h.free,
        fun i hi => ?_, Nat.pos_of_ne_zero hn, hlt⟩
      · have hkept := h.kept k f (by rw [hcopied]; exact hk) hf
        exact ⟨hkept.filled, hkept.length, hkept.frame⟩
      · obtain ⟨k, hk, hi⟩ := h.uncopied i hi
        exact ⟨k, by rw [hcopied] at hk; exact hk, hi⟩
    · exact h

theorem take_copyLen {d : RxDesc} {buffer f : Frame} (hlen : d.length = f.length) (hf : buffer.take f.length = f) :
    buffer.take (copyLen d n) = f.take n := by
  unfold copyLen
  rw [hlen]
  split
  · next hgt => rw [← hf, List.take_take, Nat.min_eq_left (Nat.le_of_lt hgt)]
  · next hle => rw [hf, List.take_of_length_le (Nat.le_of_not_lt hle)]

theorem rxInv_copy (h : RxInv s) (hp : s.point = .copy n) : RxInv (e1000ReceiveCopy n s) := by
  have hpt : 0 < n ∧ s.results.length < s.written.length := by
    have := h.point
    unfold ReceiveOk at this
    rw [hp] at this
    exact this
  have hcopied : s.copied = s.results.length := by rw [RxState.copied, hp]; rfl
  obtain ⟨f, hf⟩ : ∃ f, s.written[s.results.length]? = some f := ⟨_, List.getElem?_eq_getElem hpt.2⟩
  have hhead := h.kept _ f (Nat.le_of_eq hcopied) hf
  rw [← h.head] at hhead
  refine ⟨h.delivered, h.le, h.most, h.rdh, h.head, h.rdt, h.addr, h.nonempty, fun k g hk hg => ?_, h.free,
    fun i hi => ?_, hpt.1, f, hf, take_copyLen hhead.length hhead.frame⟩
  · have hk' : s.results.length + 1 ≤ k := hk
    have hkept := h.kept k g (by omega) hg
    exact ⟨hkept.filled, hkept.length, hkept.frame⟩
  · have hi' : Function.update s.uncopied s.rxHead false i = true := hi
    by_cases hih : i = s.rxHead
    · rw [hih, Function.update_self] at hi'
      cases hi'
    · rw [Function.update_of_ne hih] at hi'
      obtain ⟨k, hk, hkw, hik⟩ := h.uncopied i hi'
      have hne : k ≠ s.results.length := fun he => hih (by rw [hik, he, h.head])
      exact ⟨k, (show s.results.length + 1 ≤ k by omega), hkw, hik⟩

theorem rxInv_clear (h : RxInv s) (hp : s.point = .clear n data) : RxInv (e1000ReceiveClear n data s) := by
  have hpt : 0 < n ∧ ∃ f : Frame, s.written[s.results.length]? = some f ∧ data = f.take n := by
    have := h.point
    unfold ReceiveOk at this
    rw [hp] at this
    exact this
  have hcopied : s.copied = s.results.length + 1 := by rw [RxState.copied, hp]; rfl
  have hmost := h.most
  have hring : ∀ {k}, s.results.length + 1 ≤ k → k < s.results.length + rxRingSize →
      (e1000ReceiveClear n data s).rxRing (k % rxRingSize) = s.rxRing (k % rxRingSize) := fun {k} hk hk' => by
    refine Function.update_of_ne ?_ _ _
    rw [h.head]
    exact rx_ne (n := s.results.length) (by omega) hk' (Nat.le_refl _) (by omega) (by omega)
  have hhead : ((e1000ReceiveClear n data s).rxRing s.rxHead) = ⟨s.rxHead, 0, 0, 0, 0, 0⟩ := by
    simp only [e1000ReceiveClear, Function.update_self, h.addr]
  have hlt : s.results.length < s.written.length := by
    obtain ⟨f, hf, -⟩ := hpt.2
    exact (List.getElem?_eq_some_iff.1 hf).1
  refine ⟨h.delivered, h.le, h.most, h.rdh, h.head, h.rdt, fun i => ?_, h.nonempty, fun k g hk hg => ?_,
    fun k hk hk' => ?_, fun i hi => ?_, hpt.1, hpt.2, ?_⟩
  · by_cases hi : i = s.rxHead
    · rw [hi, hhead]
    · rw [show (e1000ReceiveClear n data s).rxRing i = s.rxRing i from Function.update_of_ne hi _ _, h.addr]
  · have hkept := h.kept k g (by rw [hcopied]; exact hk) hg
    have hkw := (List.getElem?_eq_some_iff.1 hg).1
    have hkw' : k < s.written.length := hkw
    have hk1 : s.results.length + 1 ≤ k := hk
    exact ⟨by rw [hring hk1 (by omega)]; exact hkept.filled, by rw [hring hk1 (by omega)]; exact hkept.length,
      hkept.frame⟩
  · have hk1 : s.written.length ≤ k := hk
    rw [hring (by omega) hk']
    exact h.free k hk hk'
  · obtain ⟨k, hk, hi⟩ := h.uncopied i hi
    exact ⟨k, by rw [hcopied] at hk; exact hk, hi⟩
  · show ((e1000ReceiveClear n data s).rxRing s.rxHead).filled = false
    rw [hhead]
    exact (by decide : ((0 : BitVec 8) &&& statDD != 0) = false)

theorem rxInv_publish (h : RxInv s) (hp : s.point = .publish n data) : RxInv (e1000ReceivePublish n data s) := by
  have hpt : 0 < n ∧ (∃ f : Frame, s.written[s.results.length]? = some f ∧ data = f.take n) ∧
      (s.rxRing s.rxHead).filled = false := by
    have := h.point
    unfold ReceiveOk at this
    rw [hp] at this
    exact this
  obtain ⟨hn, ⟨f, hf, hdata⟩, hhead⟩ := hpt
  have hcopied : s.copied = s.results.length + 1 := by rw [RxState.copied, hp]; rfl
  have hpos : 0 < data.length := by
    have hfne := h.nonempty f (List.mem_of_getElem? hf)
    rw [hdata, List.length_take]
    exact Nat.lt_min.2 ⟨hn, List.length_pos_iff.2 hfne⟩
  have hresults : (e1000ReceivePublish n data s).results = s.results ++ [(n, data)] := if_pos hpos
  have hlen : (e1000ReceivePublish n data s).results.length = s.results.length + 1 := by
    rw [hresults, List.length_append, List.length_singleton]
  have hcopied' : (e1000ReceivePublish n data s).copied = s.copied := by
    rw [RxState.copied, hlen, hcopied]
    rfl
  have hlt : s.results.length < s.written.length := (List.getElem?_eq_some_iff.1 hf).1
  have hmost := h.most
  refine ⟨fun k m d hk => ?_, ?_, ?_, h.rdh, ?_, ?_, h.addr, h.nonempty, fun k g hk hg => ?_, fun k hk hk' => ?_,
    fun i hi => ?_, trivial⟩
  · rw [hresults, List.getElem?_append] at hk
    split at hk
    · exact h.delivered k m d hk
    · next hge =>
      have hkm : k = s.results.length := by
        have := (List.getElem?_eq_some_iff.1 hk).1
        simp only [List.length_singleton] at this
        omega
      rw [hkm, Nat.sub_self, List.getElem?_cons_zero] at hk
      injection hk with hk
      injection hk with hm hd
      exact ⟨f, hkm ▸ hf, by rw [← hm, ← hd, hdata]⟩
  · rw [hlen]
    exact hlt
  · rw [hlen]
    exact Nat.lt_of_lt_of_le hmost (by omega)
  · rw [hlen, ← rxNext_mod, ← h.head]
    rfl
  · rw [hlen, show (e1000ReceivePublish n data s).rdt = s.rxHead from rfl, h.head]
    unfold rxRingSize
    omega
  · have hkept := h.kept k g (by rw [← hcopied']; exact hk) hg
    exact ⟨hkept.filled, hkept.length, hkept.frame⟩
  · rw [hlen] at hk'
    by_cases hlast : k = s.results.length + rxRingSize
    · rw [hlast, Nat.add_mod_right, ← h.head]
      exact hhead
    · exact h.free k hk (by omega)
  · rw [hcopied']
    exact h.uncopied i hi

end

/-! ## A step of the card -/

theorem rxInv_fill {s : RxState} (h : RxInv s) (hmay : MayFill s) {w : RxWrite} (hw : w.frame ≠ []) :
    RxInv (deviceFill w s) := by
  have hroom := h.mayFill_iff.1 hmay
  have hle := h.le
  have hwritten : (deviceFill w s).written = s.written ++ [w.frame] := rfl
  have hlen : (deviceFill w s).written.length = s.written.length + 1 := by
    rw [hwritten, List.length_append, List.length_singleton]
  have hring : ∀ {i}, i ≠ s.rdh → (deviceFill w s).rxRing i = s.rxRing i := fun hi => Function.update_of_ne hi _ _
  have hnew : (deviceFill w s).rxRing s.rdh =
      ⟨s.rdh, w.frame.length, w.checksum, w.status ||| statDD, w.errors, w.special⟩ := by
    simp only [deviceFill, Function.update_self, h.addr]
  have hbuf : ∀ {i}, i ≠ s.rdh → (deviceFill w s).rxBuffers i = s.rxBuffers i := fun {i} hi => by
    refine Function.update_of_ne ?_ _ _
    rw [h.addr]
    exact hi
  have hne : ∀ {k}, s.results.length ≤ k → k < s.results.length + rxRingSize → k ≠ s.written.length →
      k % rxRingSize ≠ s.rdh := fun {k} hk hk' hkw => by
    rw [h.rdh]
    exact rx_ne (n := s.results.length) hk hk' hle h.most hkw
  have hcopied : s.results.length ≤ s.copied := Nat.le_add_right _ _
  have hget : ∀ {k f}, s.written[k]? = some f → (s.written ++ [w.frame])[k]? = some f := fun {k f} hf => by
    rw [List.getElem?_append_left (List.getElem?_eq_some_iff.1 hf).1]
    exact hf
  refine ⟨fun k n d hk => ?_, ?_, ?_, ?_, h.head, h.rdt, fun i => ?_, fun f hf => ?_, fun k g hk hg => ?_,
    fun k hk hk' => ?_, fun i hi => ?_, ?_⟩
  · obtain ⟨f, hf, hd⟩ := h.delivered k n d hk
    exact ⟨f, hget hf, hd⟩
  · rw [hlen]
    exact Nat.le_succ_of_le hle
  · rw [hlen]
    exact hroom
  · rw [hlen, ← rxNext_mod, ← h.rdh]
    rfl
  · by_cases hi : i = s.rdh
    · rw [hi, hnew]
    · rw [hring hi, h.addr]
  · rcases List.mem_append.1 hf with hf | hf
    · exact h.nonempty f hf
    · rw [List.mem_singleton.1 hf]
      exact hw
  · have hg' : (s.written ++ [w.frame])[k]? = some g := hg
    rw [List.getElem?_append] at hg'
    split at hg'
    · next hkw =>
      have hkept := h.kept k g hk hg'
      have hk1 : s.copied ≤ k := hk
      have hmost := h.most
      have hki := hne (k := k) (by omega) (by omega) (by omega)
      exact ⟨by rw [hring hki]; exact hkept.filled, by rw [hring hki]; exact hkept.length,
        by rw [hbuf hki]; exact hkept.frame⟩
    · next hge =>
      have hkm : k = s.written.length := by
        have := (List.getElem?_eq_some_iff.1 hg').1
        simp only [List.length_singleton] at this
        omega
      rw [hkm, Nat.sub_self, List.getElem?_cons_zero] at hg'
      injection hg' with hg'
      subst hg'
      rw [hkm, ← h.rdh]
      refine ⟨?_, ?_, ?_⟩
      · rw [hnew]
        exact filled_statDD w.status
      · rw [hnew]
      · simp only [deviceFill, h.addr, Function.update_self, List.take_left']
  · rw [hlen] at hk
    rw [hring (hne (by omega) hk' (by omega))]
    exact h.free k (by omega) hk'
  · have hi' : Function.update s.uncopied (s.rxRing s.rdh).addr true i = true := hi
    rw [h.addr] at hi'
    by_cases hih : i = s.rdh
    · refine ⟨s.written.length, ?_, by rw [hlen]; exact Nat.lt_succ_self _, by rw [hih, h.rdh]⟩
      show s.copied ≤ s.written.length
      have hpt := h.point
      unfold ReceiveOk at hpt
      rw [RxState.copied]
      cases hp : s.point with
      | idle => exact hle
      | copy n => exact hle
      | clear n data =>
        rw [hp] at hpt
        obtain ⟨f, hf, -⟩ := hpt.2
        exact (List.getElem?_eq_some_iff.1 hf).1
      | publish n data =>
        rw [hp] at hpt
        obtain ⟨f, hf, -⟩ := hpt.2.1
        exact (List.getElem?_eq_some_iff.1 hf).1
    · rw [Function.update_of_ne hih] at hi'
      obtain ⟨k, hk, hkw, hik⟩ := h.uncopied i hi'
      exact ⟨k, hk, by rw [hlen]; exact Nat.lt_succ_of_lt hkw, hik⟩
  · have hpt := h.point
    unfold ReceiveOk at *
    rw [show (deviceFill w s).point = s.point from rfl]
    cases hp : s.point with
    | idle => trivial
    | copy n =>
      rw [hp] at hpt
      exact ⟨hpt.1, by rw [hlen]; exact Nat.lt_succ_of_lt hpt.2⟩
    | clear n data =>
      rw [hp] at hpt
      obtain ⟨hn, f, hf, hd⟩ := hpt
      exact ⟨hn, f, hget hf, hd⟩
    | publish n data =>
      rw [hp] at hpt
      obtain ⟨hn, ⟨f, hf, hd⟩, hhead⟩ := hpt
      refine ⟨hn, ⟨f, hget hf, hd⟩, ?_⟩
      show ((deviceFill w s).rxRing s.rxHead).filled = false
      have hlt := (List.getElem?_eq_some_iff.1 hf).1
      rw [hring]
      · exact hhead
      · rw [h.head]
        exact hne (Nat.le_refl _) (by unfold rxRingSize; omega) (by omega)

theorem rxInv_device {s : RxState} (h : RxInv s) (w : RxWrite) : RxInv (deviceReceive w s) := by
  unfold deviceReceive
  split
  · next hmay => exact rxInv_fill h hmay.1 hmay.2.1
  · exact h

theorem rxInv_step {s : RxState} (h : RxInv s) (c : RxStep) : RxInv (RxStep.run s c).2 := by
  cases c with
  | receive bufLen =>
    unfold RxStep.run
    cases hp : s.point with
    | idle => exact rxInv_begin h hp bufLen
    | copy _ => exact h
    | clear _ _ => exact h
    | publish _ _ => exact h
  | driver =>
    show RxInv (e1000ReceiveStep s).2
    unfold e1000ReceiveStep
    cases hp : s.point with
    | idle => exact h
    | copy n => exact rxInv_copy h hp
    | clear n data => exact rxInv_clear h hp
    | publish n data => exact rxInv_publish h hp
  | device w => exact rxInv_device h w

/-! ## Runs -/

/-- The state of the ring after some steps from `e1000_init_rx`. -/
def rxAfter (ready : Bool) (buffers : Nat → Frame) (steps : List RxStep) : RxState :=
  (run RxStep.run (e1000InitRx ready buffers) steps).2

theorem rxInv_after (ready : Bool) (buffers : Nat → Frame) (steps : List RxStep) : RxInv (rxAfter ready buffers steps) :=
  run_keeps (A := fun _ _ _ => True) (I := fun _ s => RxInv s) (fun _ s c h _ => show RxInv (RxStep.run s c).2 from
    rxInv_step h c) (rxInv_init ready buffers) steps (fun _ _ _ _ => trivial)

theorem RxInv.results_eq {s : RxState} (h : RxInv s) :
    s.results.map Prod.snd = List.zipWith (fun result f => f.take result.1) s.results s.written := by
  refine List.ext_getElem (by simp [h.le]) fun k hk hk' => ?_
  rw [List.length_map] at hk
  obtain ⟨f, hf, hd⟩ := h.delivered k _ _ (List.getElem?_eq_getElem hk)
  obtain ⟨hkw, rfl⟩ := List.getElem?_eq_some_iff.1 hf
  rw [List.getElem_map, List.getElem_zipWith]
  exact hd

theorem RxInv.none_waits {s : RxState} (h : RxInv s) (hp : s.point = .idle) {n : Nat} (hn : 0 < n)
    (hzero : (e1000ReceiveBegin (some n) s).1 = some 0) : s.results.length = s.written.length := by
  have hfilled : (s.rxRing s.rxHead).filled = false := by
    unfold e1000ReceiveBegin at hzero
    simp only at hzero
    split at hzero
    · cases hzero
    split at hzero
    · omega
    split at hzero
    · cases hzero
    · next hnot => exact eq_false_of_ne_true hnot
  refine Nat.le_antisymm h.le (Nat.le_of_not_lt fun hlt => ?_)
  rw [(h.head_filled (by rw [hp]; rfl)).2 hlt] at hfilled
  cases hfilled

/-- **Every frame is delivered once and in order**, from `e1000_init_rx` and in every order of the steps: the results of
the calls that return a positive length are the card's frames, each cut to the size of its buffer; the frames behind them
are untouched in their descriptors, a call that is not in the middle of one returns 0 only where there are none, and a
descriptor that the card may write holds no frame that is not copied. -/
theorem e1000_receive_in_order (ready : Bool) (buffers : Nat → Frame) (steps : List RxStep) :
    let s := rxAfter ready buffers steps
    s.results.map Prod.snd = List.zipWith (fun result f => f.take result.1) s.results s.written ∧
    (s.results.length ≤ s.written.length ∧ ∀ k f, s.copied ≤ k → s.written[k]? = some f → Filled s (k % rxRingSize) f) ∧
    (s.point = .idle → ∀ n, 0 < n → (e1000ReceiveBegin (some n) s).1 = some 0 → s.results.length = s.written.length) ∧
    (MayFill s → s.uncopied (s.rxRing s.rdh).addr = false) := by
  have h := rxInv_after ready buffers steps
  refine ⟨h.results_eq, ⟨h.le, h.kept⟩, fun hp n hn => h.none_waits hp hn, fun hmay => ?_⟩
  have hroom := h.mayFill_iff.1 hmay
  rw [h.addr]
  refine eq_false_of_ne_true fun hunc => ?_
  obtain ⟨k, hk, hkw, hi⟩ := h.uncopied _ hunc
  have hcopied := Nat.le_trans (Nat.le_add_right _ _) hk
  rw [h.rdh] at hi
  exact rx_ne hcopied (Nat.lt_trans hkw h.most) h.le h.most (Nat.ne_of_lt hkw) hi.symm

end Hw
end AmitX
