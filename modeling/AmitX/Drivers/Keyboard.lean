import AmitX.Lib.Ring
import AmitX.Lib.Run
/-!
# Keyboard — the scancode handler and its ring of characters (`keyboard.c`)

The interrupt handler turns scancodes into characters and puts them at `buffer_head`; `keyboard_getchar` and
`keyboard_poll` take them from `buffer_tail`.  Equal indices mean empty, so that one of the 256 places stays unused and
255 characters can wait.  A section with interrupts disabled is one step.
-/
namespace AmitX
namespace Drivers

open Run Ring

def keyboardBufferSize : Nat := 256

def maxScancode : Nat := 128

def keyUp : BitVec 8 := 0x80
def keyDown : BitVec 8 := 0x81
def keyLeft : BitVec 8 := 0x82
def keyRight : BitVec 8 := 0x83
def keyEsc : BitVec 8 := 0x1B

def scLctrl : BitVec 8 := 0x1D
def scLshift : BitVec 8 := 0x2A
def scRshift : BitVec 8 := 0x36
def scPrefixE0 : BitVec 8 := 0xE0
def scReleaseBit : BitVec 8 := 0x80
def scCodeMask : BitVec 8 := 0x7F
def scE0Up : BitVec 8 := 0x48
def scE0Down : BitVec 8 := 0x50
def scE0Left : BitVec 8 := 0x4B
def scE0Right : BitVec 8 := 0x4D

def ascii (s : String) : List (BitVec 8) := s.toList.map fun c => BitVec.ofNat 8 c.toNat

/-- The zeros are the unused code 0 and the keys without a character: left control, the shift keys, left alt and caps
lock. -/
def scancodeMap : List (BitVec 8) :=
  [0, keyEsc] ++ ascii "1234567890-=\x08\tqwertyuiop[]\n" ++ [0] ++ ascii "asdfghjkl;'`" ++ [0] ++
    ascii "\\zxcvbnm,./" ++ [0] ++ ascii "*" ++ [0] ++ ascii " " ++ [0]

def scancodeMapShift : List (BitVec 8) :=
  [0, keyEsc] ++ ascii "!@#$%^&*()_+\x08\tQWERTYUIOP\x7b\x7d\n" ++ [0] ++ ascii "ASDFGHJKL:\"~" ++ [0] ++
    ascii "|ZXCVBNM<>?" ++ [0] ++ ascii "*" ++ [0] ++ ascii " " ++ [0]

def mapLen : Nat := scancodeMap.length

example : mapLen = 0x3B ∧ scancodeMapShift.length = mapLen := by decide

/-- What a run shows: a character that the handler puts, one that a reader gets, a flush. -/
inductive KeyEvent
  | put (c : BitVec 8)
  | got (c : BitVec 8)
  | flush

/-- `log` is a ghost. -/
structure Keyboard where
  keyState : Nat → BitVec 8
  keyBuffer : Nat → BitVec 8
  bufferHead : Nat
  bufferTail : Nat
  bufferOverflows : BitVec 32
  shiftDown : Bool
  ctrlDown : Bool
  expectingE0 : Bool
  log : List KeyEvent

def Keyboard.init : Keyboard :=
  { keyState := fun _ => 0
    keyBuffer := fun _ => 0
    bufferHead := 0
    bufferTail := 0
    bufferOverflows := 0
    shiftDown := false
    ctrlDown := false
    expectingE0 := false
    log := [] }

def bufferPut (c : BitVec 8) (s : Keyboard) : Keyboard :=
  let next := (s.bufferHead + 1) % keyboardBufferSize
  if next = s.bufferTail then { s with bufferOverflows := s.bufferOverflows + 1, log := s.log ++ [.put c] }
  else
    { s with
      keyBuffer := Function.update s.keyBuffer s.bufferHead c
      bufferHead := next
      log := s.log ++ [.put c] }

def bufferTake (s : Keyboard) : BitVec 8 × Keyboard :=
  (s.keyBuffer s.bufferTail,
    { s with
      bufferTail := (s.bufferTail + 1) % keyboardBufferSize
      log := s.log ++ [.got (s.keyBuffer s.bufferTail)] })

/-- One turn of the waiting loop: with nothing in the buffer the caller halts and stays in the loop. -/
def bufferGet (s : Keyboard) : Option (BitVec 8) × Keyboard :=
  if s.bufferHead = s.bufferTail then (none, s) else ((bufferTake s).1, (bufferTake s).2)

def keyboardHasChar (s : Keyboard) : Bool := s.bufferHead != s.bufferTail

def keyboardFlush (s : Keyboard) : Keyboard := { s with bufferHead := 0, bufferTail := 0, log := s.log ++ [.flush] }

def keyboardGetchar (s : Keyboard) : Option (BitVec 8) × Keyboard := bufferGet s

/-- `none` for the result 0. -/
def keyboardPoll (s : Keyboard) : Option (BitVec 8) × Keyboard :=
  if s.bufferHead = s.bufferTail then (none, s) else ((bufferTake s).1, (bufferTake s).2)

def ctrlChar (c : BitVec 8) : BitVec 8 :=
  if 0x61 ≤ c ∧ c ≤ 0x7A then c - 0x61 + 1
  else if 0x41 ≤ c ∧ c ≤ 0x5A then c - 0x41 + 1
  else c

def extendedKey (code : BitVec 8) (s : Keyboard) : Keyboard :=
  if code = scE0Up then bufferPut keyUp s
  else if code = scE0Down then bufferPut keyDown s
  else if code = scE0Left then bufferPut keyLeft s
  else if code = scE0Right then bufferPut keyRight s
  else s

def makeCode (code : BitVec 8) (s : Keyboard) : Keyboard :=
  if s.keyState code.toNat ≠ 0 then s
  else
    let s := { s with keyState := Function.update s.keyState code.toNat 1 }
    if code.toNat ≥ mapLen then s
    else
      let c := (if s.shiftDown then scancodeMapShift else scancodeMap).getD code.toNat 0
      let c := if s.ctrlDown then ctrlChar c else c
      if c = 0 then s else bufferPut c s

def keyboardCallback (scancode : BitVec 8) (s : Keyboard) : Keyboard :=
  let isRelease := scancode &&& scReleaseBit
  let code := scancode &&& scCodeMask
  if scancode = scPrefixE0 then { s with expectingE0 := true }
  else if s.expectingE0 then { (if isRelease = 0 then extendedKey code s else s) with expectingE0 := false }
  else if scancode = scLshift ∨ scancode = scRshift then { s with shiftDown := true }
  else if scancode = scLshift ||| scReleaseBit ∨ scancode = scRshift ||| scReleaseBit then
    { s with shiftDown := false }
  else if scancode = scLctrl then { s with ctrlDown := true }
  else if scancode = scLctrl ||| scReleaseBit then { s with ctrlDown := false }
  else if code.toNat ≥ maxScancode then s
  else if isRelease ≠ 0 then { s with keyState := Function.update s.keyState code.toNat 0 }
  else makeCode code s

/-- An interrupt with the scancode it reads, or a call's section with interrupts disabled. -/
inductive KeyboardStep
  | irq (scancode : BitVec 8)
  | getchar
  | poll
  | hasChar
  | flush

def KeyboardStep.run (s : Keyboard) : KeyboardStep → Option (BitVec 8) × Keyboard
  | .irq scancode => (none, keyboardCallback scancode s)
  | .getchar => keyboardGetchar s
  | .poll => keyboardPoll s
  | .hasChar => (none, s)
  | .flush => (none, keyboardFlush s)

/-! ## The bounded queue -/

def queueBound : Nat := 255

/-- Since the last flush, the characters that were kept and those that were delivered; and how many were dropped. -/
structure Ledger where
  kept : List (BitVec 8)
  delivered : List (BitVec 8)
  dropped : Nat

/-- A character that comes while `queueBound` kept ones are not delivered is dropped. -/
def Ledger.next (l : Ledger) : KeyEvent → Ledger
  | .put c =>
    if l.kept.length < l.delivered.length + queueBound then { l with kept := l.kept ++ [c] }
    else { l with dropped := l.dropped + 1 }
  | .got c => { l with delivered := l.delivered ++ [c] }
  | .flush => { l with kept := [], delivered := [] }

def ledger (log : List KeyEvent) : Ledger := log.foldl Ledger.next ⟨[], [], 0⟩

def Keyboard.count (s : Keyboard) : Nat := (s.bufferHead + keyboardBufferSize - s.bufferTail) % keyboardBufferSize

def Keyboard.waiting (s : Keyboard) : List (BitVec 8) :=
  window keyboardBufferSize s.keyBuffer s.bufferTail s.count

/-- The ring holds the characters that are kept and not delivered. -/
structure KeyboardInv (s : Keyboard) : Prop where
  head : s.bufferHead < keyboardBufferSize
  tail : s.bufferTail < keyboardBufferSize
  kept : (ledger s.log).delivered ++ s.waiting = (ledger s.log).kept
  overflows : s.bufferOverflows = BitVec.ofNat 32 (ledger s.log).dropped

theorem ledger_concat (log : List KeyEvent) (e : KeyEvent) : ledger (log ++ [e]) = (ledger log).next e := by
  simp [ledger]

section

variable {s : Keyboard}

theorem keyboardInv_init : KeyboardInv Keyboard.init where
  head := by decide
  tail := by decide
  kept := rfl
  overflows := rfl

theorem KeyboardInv.keys (h : KeyboardInv s) (keyState : Nat → BitVec 8) (shiftDown ctrlDown expectingE0 : Bool) :
    KeyboardInv { s with
      keyState := keyState, shiftDown := shiftDown, ctrlDown := ctrlDown, expectingE0 := expectingE0 } :=
  ⟨h.head, h.tail, h.kept, h.overflows⟩

theorem length_waiting : s.waiting.length = s.count := length_window

theorem count_lt : s.count < keyboardBufferSize := Nat.mod_lt _ (by decide)

theorem KeyboardInv.head_eq (h : KeyboardInv s) : s.bufferHead = (s.bufferTail + s.count) % keyboardBufferSize := by
  have hhead := h.head
  have htail := h.tail
  unfold Keyboard.count keyboardBufferSize at *
  omega

theorem KeyboardInv.empty_iff (h : KeyboardInv s) : s.bufferHead = s.bufferTail ↔ s.count = 0 := by
  have hhead := h.head
  have htail := h.tail
  unfold Keyboard.count keyboardBufferSize at *
  omega

theorem KeyboardInv.full_iff (h : KeyboardInv s) :
    (s.bufferHead + 1) % keyboardBufferSize = s.bufferTail ↔ s.count = queueBound := by
  have hhead := h.head
  have htail := h.tail
  unfold Keyboard.count keyboardBufferSize queueBound at *
  omega

theorem KeyboardInv.length_kept (h : KeyboardInv s) :
    (ledger s.log).kept.length = (ledger s.log).delivered.length + s.count := by
  rw [← h.kept, List.length_append, length_waiting]

theorem keyboardInv_put (h : KeyboardInv s) (c : BitVec 8) : KeyboardInv (bufferPut c s) := by
  have hlen := h.length_kept
  have hlt := count_lt (s := s)
  unfold bufferPut
  simp only
  split
  · next hfull =>
    have hdrop : ¬(ledger s.log).kept.length < (ledger s.log).delivered.length + queueBound := by
      rw [hlen, h.full_iff.1 hfull]
      exact Nat.lt_irrefl _
    have hnext : (ledger s.log).next (.put c) = { ledger s.log with dropped := (ledger s.log).dropped + 1 } :=
      if_neg hdrop
    refine ⟨h.head, h.tail, ?_, ?_⟩
    · rw [ledger_concat, hnext]
      exact h.kept
    · rw [ledger_concat, hnext]
      show s.bufferOverflows + 1 = BitVec.ofNat 32 ((ledger s.log).dropped + 1)
      rw [h.overflows, BitVec.ofNat_add]
      rfl
  · next hroom =>
    have hcount : s.count < queueBound := by
      have := mt h.full_iff.2 hroom
      unfold queueBound keyboardBufferSize at *
      omega
    have hnext : (ledger s.log).next (.put c) = { ledger s.log with kept := (ledger s.log).kept ++ [c] } :=
      if_pos (by omega)
    refine ⟨Nat.mod_lt _ (by decide), h.tail, ?_, by rw [ledger_concat, hnext]; exact h.overflows⟩
    rw [ledger_concat, hnext]
    show (ledger s.log).delivered ++ window keyboardBufferSize (Function.update s.keyBuffer s.bufferHead c) s.bufferTail
      (((s.bufferHead + 1) % keyboardBufferSize + keyboardBufferSize - s.bufferTail) % keyboardBufferSize) =
        (ledger s.log).kept ++ [c]
    have hcount' : ((s.bufferHead + 1) % keyboardBufferSize + keyboardBufferSize - s.bufferTail) % keyboardBufferSize =
        s.count + 1 := by
      have hhead := h.head
      have htail := h.tail
      unfold Keyboard.count queueBound keyboardBufferSize at *
      omega
    rw [hcount', h.head_eq, window_push hlt, ← List.append_assoc]
    exact congrArg (· ++ [c]) h.kept

theorem KeyboardInv.take (h : KeyboardInv s) (hne : ¬s.bufferHead = s.bufferTail) :
    s.waiting = (bufferTake s).1 :: (bufferTake s).2.waiting ∧ KeyboardInv (bufferTake s).2 := by
  obtain ⟨n, hn⟩ : ∃ n, s.count = n + 1 := Nat.exists_eq_succ_of_ne_zero (mt h.empty_iff.2 hne)
  have hcount : (bufferTake s).2.count = n := by
    have hhead := h.head
    have htail := h.tail
    unfold Keyboard.count bufferTake keyboardBufferSize at *
    simp only
    omega
  have hwait : s.waiting = (bufferTake s).1 :: (bufferTake s).2.waiting := by
    unfold Keyboard.waiting
    rw [hn, hcount, window_cons, Nat.mod_eq_of_lt h.tail]
    show _ = _ :: window keyboardBufferSize s.keyBuffer ((s.bufferTail + 1) % keyboardBufferSize) n
    rw [window_mod]
    rfl
  refine ⟨hwait, h.head, Nat.mod_lt _ (by decide), ?_, ?_⟩
  · have hkept := h.kept
    rw [hwait] at hkept
    show (ledger (s.log ++ [_])).delivered ++ _ = (ledger (s.log ++ [_])).kept
    rw [ledger_concat]
    show (ledger s.log).delivered ++ [(bufferTake s).1] ++ _ = (ledger s.log).kept
    rw [List.append_assoc]
    exact hkept
  · show s.bufferOverflows = BitVec.ofNat 32 (ledger (s.log ++ [_])).dropped
    rw [ledger_concat]
    exact h.overflows

theorem keyboardInv_flush (h : KeyboardInv s) : KeyboardInv (keyboardFlush s) := by
  have hplace : 0 < keyboardBufferSize := by decide
  have hcount : (keyboardFlush s).count = 0 := (by decide : (0 + keyboardBufferSize - 0) % keyboardBufferSize = 0)
  refine ⟨hplace, hplace, ?_, ?_⟩
  · show (ledger (s.log ++ [.flush])).delivered ++ _ = (ledger (s.log ++ [.flush])).kept
    rw [ledger_concat, Keyboard.waiting, hcount]
    rfl
  · show s.bufferOverflows = BitVec.ofNat 32 (ledger (s.log ++ [.flush])).dropped
    rw [ledger_concat]
    exact h.overflows

theorem keyboardInv_extendedKey (h : KeyboardInv s) (code : BitVec 8) : KeyboardInv (extendedKey code s) := by
  unfold extendedKey
  split_ifs
  · exact keyboardInv_put h keyUp
  · exact keyboardInv_put h keyDown
  · exact keyboardInv_put h keyLeft
  · exact keyboardInv_put h keyRight
  · exact h

theorem keyboardInv_makeCode (h : KeyboardInv s) (code : BitVec 8) : KeyboardInv (makeCode code s) := by
  have hpressed := h.keys (Function.update s.keyState code.toNat 1) s.shiftDown s.ctrlDown s.expectingE0
  unfold makeCode
  split
  · exact h
  simp only
  split
  · exact hpressed
  generalize (if s.ctrlDown then _ else _) = c
  split
  · exact hpressed
  · exact keyboardInv_put hpressed c

theorem keyboardInv_callback (h : KeyboardInv s) (scancode : BitVec 8) :
    KeyboardInv (keyboardCallback scancode s) := by
  unfold keyboardCallback
  simp only
  split
  · exact h.keys s.keyState s.shiftDown s.ctrlDown true
  split
  · split
    · have hext := keyboardInv_extendedKey h (scancode &&& scCodeMask)
      exact hext.keys _ _ _ false
    · exact h.keys s.keyState s.shiftDown s.ctrlDown false
  split
  · exact h.keys s.keyState true s.ctrlDown s.expectingE0
  split
  · exact h.keys s.keyState false s.ctrlDown s.expectingE0
  split
  · exact h.keys s.keyState s.shiftDown true s.expectingE0
  split
  · exact h.keys s.keyState s.shiftDown false s.expectingE0
  split
  · exact h
  split
  · exact h.keys (Function.update s.keyState _ 0) s.shiftDown s.ctrlDown s.expectingE0
  · exact keyboardInv_makeCode h _

theorem KeyboardInv.get (h : KeyboardInv s) :
    (bufferGet s).1 = s.waiting.head? ∧ (bufferGet s).2.waiting = s.waiting.tail ∧ KeyboardInv (bufferGet s).2 := by
  unfold bufferGet
  split
  · next he =>
    have hwait : s.waiting = [] := List.eq_nil_of_length_eq_zero (length_waiting.trans (h.empty_iff.1 he))
    simp only [hwait]
    exact ⟨rfl, rfl, h⟩
  · next hne =>
    obtain ⟨hwait, hinv⟩ := h.take hne
    simp only [hwait]
    exact ⟨rfl, rfl, hinv⟩

theorem keyboardInv_step (h : KeyboardInv s) (c : KeyboardStep) : KeyboardInv (KeyboardStep.run s c).2 := by
  cases c with
  | irq scancode => exact keyboardInv_callback h scancode
  | getchar => exact h.get.2.2
  | poll => exact h.get.2.2
  | hasChar => exact h
  | flush => exact keyboardInv_flush h

end

def keyboardAfter (steps : List KeyboardStep) : Keyboard := (run KeyboardStep.run Keyboard.init steps).2

theorem keyboardInv_after (steps : List KeyboardStep) : KeyboardInv (keyboardAfter steps) :=
  run_keeps (A := fun _ _ _ => True) (I := fun _ s => KeyboardInv s)
    (fun _ s c h _ => show KeyboardInv (KeyboardStep.run s c).2 from keyboardInv_step h c) keyboardInv_init steps
    (fun _ _ _ _ => trivial)

/-- **The buffer is a bounded queue.** After any steps the characters delivered since the last flush, and behind them
those in the ring, are the characters of the handler without those that came while 255 waited; a reader gets the oldest
one in the ring, and waits or gets 0 just where there is none. -/
theorem keyboard_fifo (steps : List KeyboardStep) :
    let s := keyboardAfter steps
    (ledger s.log).delivered ++ s.waiting = (ledger s.log).kept ∧
    s.bufferOverflows = BitVec.ofNat 32 (ledger s.log).dropped ∧
    ((keyboardGetchar s).1 = s.waiting.head? ∧ (keyboardGetchar s).2.waiting = s.waiting.tail) ∧
    ((keyboardPoll s).1 = s.waiting.head? ∧ (keyboardPoll s).2.waiting = s.waiting.tail) ∧
    (keyboardHasChar s = false ↔ s.waiting = []) := by
  have h := keyboardInv_after steps
  have hget := h.get
  refine ⟨h.kept, h.overflows, ⟨hget.1, hget.2.1⟩, ⟨hget.1, hget.2.1⟩, ?_⟩
  rw [← List.length_eq_zero_iff, length_waiting, ← h.empty_iff]
  simp [keyboardHasChar]

end Drivers
end AmitX
