import AmitX.Lib.Run
import Mathlib.Data.List.Nodup
import Mathlib.Data.List.Perm.Subperm
import Mathlib.Logic.Function.Basic
import Mathlib.Algebra.Group.Nat.Defs
/-!
# Window — the window manager's handles and z-order (`window.c`)

A handle is the slot of a window below the low 16 bits of its generation, and a window knows its whole generation of 32
bits.  `windowGet` compares the two, so a window whose generation has more than 16 bits cannot be reached by its handle.
Titles, colours, the content rectangle and all drawing are left out.
-/
namespace AmitX
namespace Gfx

open Run

def maxWindows : Nat := 16

def handleMake (id generation : Nat) : Nat := generation * 2 ^ 16 % 2 ^ 32 + id % 2 ^ 16

def handleId (h : Nat) : Nat := h % 2 ^ 16

def handleGen (h : Nat) : Nat := h / 2 ^ 16

/-- `win_state_t`, which the system calls edit as a set of bits. -/
abbrev WinState := BitVec 32

namespace WinState

def hidden : WinState := 0
def visible : WinState := 1
def focused : WinState := 2
def minimized : WinState := 3
def destroyed : WinState := 4

end WinState

structure Win where
  id : Nat
  generation : Nat
  valid : Bool
  state : WinState
  focused : Bool
  x : Int
  y : Int
  width : Int
  height : Int
  flags : Nat
  /-- The pixel buffer is there. -/
  pixels : Bool
  dirty : Bool

structure Manager where
  windows : Nat → Win
  /-- `z_order[0 .. z_count)`. -/
  zOrder : List Nat
  nextGeneration : Nat

def windowsInit : Manager :=
  { windows := fun _ => ⟨0, 0, false, .hidden, false, 0, 0, 0, 0, 0, false, false⟩
    zOrder := []
    nextGeneration := 1 }

def Manager.modify (i : Nat) (f : Win → Win) (s : Manager) : Manager :=
  { s with windows := Function.update s.windows i (f (s.windows i)) }

def zOrderRemove (h : Nat) (s : Manager) : Manager := { s with zOrder := s.zOrder.erase h }

def zOrderPushTop (h : Nat) (s : Manager) : Manager :=
  if maxWindows ≤ s.zOrder.length then s else { s with zOrder := s.zOrder ++ [h] }

def windowFindFree (s : Manager) : Option Nat := (List.range maxWindows).find? (fun i => !(s.windows i).valid)

/-- The slot of the window that `window_get` returns; `none` for NULL. -/
def windowGet (s : Manager) (h : Nat) : Option Nat :=
  if maxWindows ≤ handleId h then none
  else if (s.windows (handleId h)).valid = false ∨ (s.windows (handleId h)).generation ≠ handleGen h then none
  else some (handleId h)

/-- The handle, or `none` for `WIN_INVALID`; `pixels` is whether `malloc` returns the buffer. -/
def windowCreate (x y w h : Int) (flags : Nat) (pixels : Bool) (s : Manager) : Option Nat × Manager :=
  match windowFindFree s with
  | none => (none, s)
  | some slot =>
    let generation := s.nextGeneration
    let s := { s with nextGeneration := (generation + 1) % 2 ^ 32 }
    let s := s.modify slot (fun _ => ⟨slot, generation, pixels, .visible, false, x, y, w, h, flags, pixels, true⟩)
    if pixels = false then (none, s)
    else (some (handleMake slot generation), zOrderPushTop (handleMake slot generation) s)

def windowDestroy (h : Nat) (s : Manager) : Manager :=
  match windowGet s h with
  | none => s
  | some slot => (zOrderRemove h s).modify slot (fun w => { w with pixels := false, valid := false, generation := 0 })

def windowResize (h : Nat) (width height : Int) (pixels : Bool) (s : Manager) : Manager :=
  match windowGet s h with
  | none => s
  | some slot => s.modify slot (fun w => { w with width := width, height := height, pixels := pixels, dirty := true })

def windowShow (h : Nat) (s : Manager) : Manager :=
  match windowGet s h with
  | none => s
  | some slot =>
    if (s.windows slot).state = .visible then s
    else
      let s := s.modify slot (fun w => { w with state := .visible, dirty := true })
      if h ∈ s.zOrder then s else zOrderPushTop h s

def windowHide (h : Nat) (s : Manager) : Manager :=
  match windowGet s h with
  | none => s
  | some slot =>
    if (s.windows slot).state ≠ .visible then s
    else zOrderRemove h (s.modify slot (fun w => { w with state := .hidden, focused := false, dirty := true }))

def unfocusAll (s : Manager) : Manager :=
  { s with windows := fun i =>
      if i < maxWindows ∧ (s.windows i).valid = true then { s.windows i with focused := false } else s.windows i }

def windowFocus (h : Nat) (s : Manager) : Manager :=
  match windowGet s h with
  | none => s
  | some slot =>
    if (s.windows slot).state ≠ .visible then s
    else zOrderPushTop h (zOrderRemove h
      ((unfocusAll s).modify slot (fun w => { w with focused := true, dirty := true })))

def windowRaise (h : Nat) (s : Manager) : Manager :=
  match windowGet s h with
  | none => s
  | some slot =>
    if (s.windows slot).state ≠ .visible then s
    else zOrderPushTop h (zOrderRemove h (s.modify slot (fun w => { w with dirty := true })))

/-! ## Runs -/

inductive WinCall
  | create (x y w h : Int) (flags : Nat) (pixels : Bool)
  | destroy (handle : Nat)
  | resize (handle : Nat) (w h : Int) (pixels : Bool)
  | show (handle : Nat)
  | hide (handle : Nat)
  | focus (handle : Nat)
  | raise (handle : Nat)

/-- A handle was returned; a handle was passed to `window_destroy`; or neither. -/
inductive WinEvent
  | created (handle : Nat)
  | destroyed (handle : Nat)
  | other
  deriving DecidableEq

def WinCall.run (s : Manager) : WinCall → WinEvent × Manager
  | .create x y w h flags pixels =>
    (match (windowCreate x y w h flags pixels s).1 with
      | some handle => .created handle
      | none => .other, (windowCreate x y w h flags pixels s).2)
  | .destroy handle => (.destroyed handle, windowDestroy handle s)
  | .resize handle w h pixels => (.other, windowResize handle w h pixels s)
  | .show handle => (.other, windowShow handle s)
  | .hide handle => (.other, windowHide handle s)
  | .focus handle => (.other, windowFocus handle s)
  | .raise handle => (.other, windowRaise handle s)

/-- The handle of the window in slot `i`. -/
def Manager.handle (s : Manager) (i : Nat) : Nat := handleMake i (s.windows i).generation

/-- Slot `i` holds a valid window in state VISIBLE. -/
def Manager.Visible (s : Manager) (i : Nat) : Prop :=
  i < maxWindows ∧ (s.windows i).valid = true ∧ (s.windows i).state = .visible

/-- What holds in every state: the returned handles, after the events so far, the z-order and the focus. -/
structure WindowsOk (es : List WinEvent) (s : Manager) : Prop where
  /-- A handle is valid until it is passed to `window_destroy`, and never afterwards. -/
  handles : ∀ before h after, es = before ++ .created h :: after →
    ((windowGet s h).isSome = true ↔ WinEvent.destroyed h ∉ after)
  /-- `z_order` has each visible window once. -/
  nodup : s.zOrder.Nodup
  zOrder : ∀ h, h ∈ s.zOrder ↔ ∃ i, s.Visible i ∧ h = s.handle i
  focus : ∀ i j, i < maxWindows → j < maxWindows → (s.windows i).valid = true → (s.windows j).valid = true →
    (s.windows i).focused = true → (s.windows j).focused = true → i = j

def WindowsThroughout (calls : List WinCall) : Prop :=
  ∀ before after, calls = before ++ after →
    WindowsOk (run WinCall.run windowsInit before).1 (run WinCall.run windowsInit before).2

/-- A window gets a generation of 16 bits, and with its slot one that no window had before. -/
def WinCall.Fresh (es : List WinEvent) (s : Manager) : WinCall → Prop
  | .create _ _ _ _ _ pixels =>
    ∀ slot, windowFindFree s = some slot → pixels = true →
      s.nextGeneration < 2 ^ 16 ∧ WinEvent.created (handleMake slot s.nextGeneration) ∉ es
  | _ => True

/-! ## Handles -/

def liveStep (h : Nat) (b : Bool) : WinEvent → Bool
  | .created k => if k = h then true else b
  | .destroyed k => if k = h then false else b
  | .other => b

/-- The handle was returned and has not been passed to `window_destroy` since. -/
def inUse (es : List WinEvent) (h : Nat) : Bool := es.foldl (liveStep h) false

theorem inUse_concat (es : List WinEvent) (e : WinEvent) (h : Nat) :
    inUse (es ++ [e]) h = liveStep h (inUse es h) e := by
  unfold inUse
  rw [List.foldl_append]
  rfl

theorem foldl_liveStep {h : Nat} : ∀ {es : List WinEvent} {b : Bool}, WinEvent.created h ∉ es →
    (es.foldl (liveStep h) b = true ↔ b = true ∧ WinEvent.destroyed h ∉ es)
  | [], b, _ => by simp
  | e :: es, b, hc => by
    obtain ⟨hne, hrest⟩ := List.ne_and_not_mem_of_not_mem_cons hc
    rw [List.foldl_cons, foldl_liveStep hrest, List.mem_cons, not_or]
    cases e with
    | created k =>
      have hk : k ≠ h := fun hk => hne (by rw [hk])
      simp [liveStep, hk]
    | destroyed k =>
      by_cases hk : k = h
      · simp [liveStep, hk]
      · simp [liveStep, hk, Ne.symm hk]
    | other => simp [liveStep]

theorem handleMake_id {i g : Nat} (hi : i < maxWindows) : handleId (handleMake i g) = i := by
  unfold handleId handleMake
  unfold maxWindows at hi
  omega

theorem handleMake_gen_lt (i g : Nat) : handleGen (handleMake i g) < 2 ^ 16 := by
  unfold handleGen handleMake
  omega

theorem handleMake_small {i g : Nat} (hi : i < maxWindows) (hg : g < 2 ^ 16) :
    handleId (handleMake i g) = i ∧ handleGen (handleMake i g) = g := by
  unfold handleId handleGen handleMake
  unfold maxWindows at hi
  omega

theorem handleMake_parts {h : Nat} (hi : handleId h < maxWindows) (hg : handleGen h < 2 ^ 16) :
    handleMake (handleId h) (handleGen h) = h := by
  unfold handleId handleGen handleMake at *
  unfold maxWindows at hi
  omega

section

variable {s s' : Manager} {es : List WinEvent} {h i : Nat}

theorem windowGet_eq_some : windowGet s h = some i ↔
    i = handleId h ∧ i < maxWindows ∧ (s.windows i).valid = true ∧ (s.windows i).generation = handleGen h := by
  unfold windowGet
  split
  · simp only [reduceCtorEq, false_iff]
    rintro ⟨rfl, hi, -⟩
    omega
  split
  · rename_i hno
    simp only [reduceCtorEq, false_iff]
    rintro ⟨rfl, -, hv, hg⟩
    rcases hno with hno | hno
    · rw [hv] at hno
      cases hno
    · exact hno hg
  · rename_i hlt hno
    rw [not_or, Bool.not_eq_false, Decidable.not_not] at hno
    constructor
    · rintro heq
      injection heq with heq
      subst heq
      exact ⟨rfl, by omega, hno⟩
    · rintro ⟨rfl, -⟩
      rfl

theorem windowGet_iff (hsmall : ∀ i < maxWindows, (s.windows i).valid = true → (s.windows i).generation < 2 ^ 16) :
    windowGet s h = some i ↔ i < maxWindows ∧ (s.windows i).valid = true ∧ h = s.handle i := by
  rw [windowGet_eq_some]
  constructor
  · rintro ⟨rfl, hlt, hv, hg⟩
    have hgen := hsmall _ hlt hv
    refine ⟨hlt, hv, ?_⟩
    unfold Manager.handle
    rw [hg] at hgen ⊢
    exact (handleMake_parts hlt hgen).symm
  · rintro ⟨hlt, hv, rfl⟩
    obtain ⟨h1, h2⟩ := handleMake_small hlt (hsmall i hlt hv)
    exact ⟨h1.symm, hlt, hv, h2.symm⟩

theorem eq_of_handle_eq (hsmall : ∀ i < maxWindows, (s.windows i).valid = true → (s.windows i).generation < 2 ^ 16)
    {j : Nat} (hlt : i < maxWindows) (hlt' : j < maxWindows) (hv : (s.windows i).valid = true)
    (hv' : (s.windows j).valid = true) (h : s.handle i = s.handle j) : i = j := by
  have h1 := (windowGet_iff hsmall).2 ⟨hlt, hv, rfl⟩
  have h2 := (windowGet_iff hsmall).2 ⟨hlt', hv', h⟩
  rw [h1] at h2
  injection h2

def SameHandles (s s' : Manager) : Prop :=
  ∀ i, (s'.windows i).valid = (s.windows i).valid ∧ (s'.windows i).generation = (s.windows i).generation

theorem SameHandles.windowGet (hs : SameHandles s s') (h : Nat) : windowGet s' h = windowGet s h := by
  unfold Gfx.windowGet
  rw [(hs _).1, (hs _).2]

theorem SameHandles.handle (hs : SameHandles s s') (i : Nat) : s'.handle i = s.handle i := by
  unfold Manager.handle
  rw [(hs i).2]

@[simp] theorem modify_self (i : Nat) (f : Win → Win) : (s.modify i f).windows i = f (s.windows i) :=
  Function.update_self i _ _

theorem modify_ne {i j : Nat} {f : Win → Win} (h : j ≠ i) : (s.modify i f).windows j = s.windows j :=
  Function.update_of_ne h _ _

@[simp] theorem modify_zOrder (i : Nat) (f : Win → Win) : (s.modify i f).zOrder = s.zOrder := rfl

theorem sameHandles_modify (i : Nat) (f : Win → Win) (hv : ∀ w, (f w).valid = w.valid)
    (hg : ∀ w, (f w).generation = w.generation) : SameHandles s (s.modify i f) := by
  intro j
  by_cases hj : j = i
  · rw [hj, modify_self]
    exact ⟨hv _, hg _⟩
  · rw [modify_ne hj]
    exact ⟨rfl, rfl⟩

/-! ## The invariant -/

structure WinInv (es : List WinEvent) (s : Manager) : Prop where
  inUse : ∀ h, (windowGet s h).isSome = true ↔ inUse es h = true
  small : ∀ i < maxWindows, (s.windows i).valid = true → (s.windows i).generation < 2 ^ 16
  once : ∀ before h after, es = before ++ .created h :: after → WinEvent.created h ∉ after
  nodup : s.zOrder.Nodup
  zOrder : ∀ h, h ∈ s.zOrder ↔ ∃ i, s.Visible i ∧ h = s.handle i
  focus : ∀ i j, i < maxWindows → j < maxWindows → (s.windows i).valid = true → (s.windows j).valid = true →
    (s.windows i).focused = true → (s.windows j).focused = true → i = j

theorem winInv_init : WinInv [] windowsInit where
  inUse h := by simp [windowGet, windowsInit, inUse]
  small i _ hv := by simp [windowsInit] at hv
  once before h after he := by cases before <;> cases he
  nodup := List.nodup_nil
  zOrder h := by simp [windowsInit, Manager.Visible]
  focus i j _ _ hv := by simp [windowsInit] at hv

theorem WinInv.windowsOk (hi : WinInv es s) : WindowsOk es s where
  handles before h after he := by
    have hc := hi.once before h after he
    rw [hi.inUse h, he]
    unfold Gfx.inUse
    rw [List.foldl_append, List.foldl_cons, foldl_liveStep hc]
    simp [liveStep]
  nodup := hi.nodup
  zOrder := hi.zOrder
  focus := hi.focus

theorem WinInv.get_iff (hi : WinInv es s) {i : Nat} : windowGet s h = some i ↔
    i < maxWindows ∧ (s.windows i).valid = true ∧ h = s.handle i :=
  windowGet_iff hi.small

theorem WinInv.handle_injective (hi : WinInv es s) {j : Nat} (hlt : i < maxWindows) (hlt' : j < maxWindows)
    (hv : (s.windows i).valid = true) (hv' : (s.windows j).valid = true) (h : s.handle i = s.handle j) : i = j :=
  eq_of_handle_eq hi.small hlt hlt' hv hv' h

theorem WinInv.slots (hi : WinInv es s) :
    (s.zOrder.map handleId).Nodup ∧ ∀ i ∈ s.zOrder.map handleId, s.Visible i := by
  have hid : ∀ i, s.Visible i → handleId (s.handle i) = i := fun i hv =>
    (handleMake_small hv.1 (hi.small i hv.1 hv.2.1)).1
  refine ⟨hi.nodup.map_on (fun h hh h' hh' heq => ?_), fun i hmem => ?_⟩
  · obtain ⟨j, hj, rfl⟩ := (hi.zOrder h).1 hh
    obtain ⟨j', hj', rfl⟩ := (hi.zOrder h').1 hh'
    rw [hid j hj, hid j' hj'] at heq
    rw [heq]
  · obtain ⟨h, hh, rfl⟩ := List.mem_map.1 hmem
    obtain ⟨j, hj, rfl⟩ := (hi.zOrder h).1 hh
    rw [hid j hj]
    exact hj

theorem WinInv.length_le (hi : WinInv es s) : s.zOrder.length ≤ maxWindows := by
  obtain ⟨hn, hv⟩ := hi.slots
  have hlen := (hn.subperm (fun i hmem => List.mem_range.2 (hv i hmem).1)).length_le
  rwa [List.length_map, List.length_range] at hlen

theorem length_lt_of_slots {z : List Nat} (hn : (z.map handleId).Nodup) (hlt : i < maxWindows)
    (hz : ∀ j ∈ z.map handleId, j < maxWindows ∧ j ≠ i) : z.length < maxWindows := by
  have hn' : (i :: z.map handleId).Nodup := List.nodup_cons.2 ⟨fun hmem => (hz i hmem).2 rfl, hn⟩
  have hsub : (i :: z.map handleId) ⊆ List.range maxWindows := by
    intro j hj
    rcases List.mem_cons.1 hj with rfl | hj
    · exact List.mem_range.2 hlt
    · exact List.mem_range.2 (hz j hj).1
  have hlen := (hn'.subperm hsub).length_le
  rw [List.length_cons, List.length_map, List.length_range] at hlen
  exact hlen

theorem WinInv.room (hi : WinInv es s) (hlt : i < maxWindows) (hnot : ¬s.Visible i) :
    s.zOrder.length < maxWindows := by
  obtain ⟨hn, hv⟩ := hi.slots
  refine length_lt_of_slots hn hlt (fun j hj => ⟨(hv j hj).1, ?_⟩)
  rintro rfl
  exact hnot (hv j hj)

theorem WinInv.other (hi : WinInv es s) (hs : SameHandles s s') (hn : s'.zOrder.Nodup)
    (hz : ∀ h, h ∈ s'.zOrder ↔ ∃ i, s'.Visible i ∧ h = s'.handle i)
    (hf : ∀ i j, i < maxWindows → j < maxWindows → (s'.windows i).valid = true → (s'.windows j).valid = true →
      (s'.windows i).focused = true → (s'.windows j).focused = true → i = j) : WinInv (es ++ [.other]) s' where
  inUse h := by
    rw [hs.windowGet, hi.inUse, inUse_concat]
    rfl
  small i hlt hv := by
    rw [(hs i).1] at hv
    rw [(hs i).2]
    exact hi.small i hlt hv
  once before h after he := by
    rcases List.eq_nil_or_concat after with rfl | ⟨after', x, rfl⟩
    · exact List.not_mem_nil
    · have he' : es ++ [.other] = (before ++ .created h :: after') ++ [x] := by simpa using he
      obtain ⟨hes, hx⟩ := List.append_inj' he' rfl
      injection hx with hx
      subst hx
      simpa using hi.once before h after' hes
  nodup := hn
  zOrder := hz
  focus := hf

theorem SameHandles.visible (hs : SameHandles s s') (hst : ∀ i, (s'.windows i).state = (s.windows i).state) (i : Nat) :
    s'.Visible i ↔ s.Visible i := by
  unfold Manager.Visible
  rw [(hs i).1, hst i]

/-! ## Steps -/

theorem mem_raised {z : List Nat} {h k : Nat} (hh : h ∈ z) (hn : z.Nodup) :
    (z.erase h ++ [h]).Nodup ∧ (k ∈ z.erase h ++ [h] ↔ k ∈ z) := by
  have hmem : ∀ k, k ∈ z.erase h ↔ k ≠ h ∧ k ∈ z := fun k => hn.mem_erase_iff
  refine ⟨List.nodup_append.2 ⟨hn.erase h, List.nodup_singleton h, fun a ha b hb => ?_⟩, ?_⟩
  · rw [List.mem_singleton.1 hb]
    exact ((hmem a).1 ha).1
  · rw [List.mem_append, List.mem_singleton, hmem]
    constructor
    · rintro (⟨-, hk⟩ | rfl)
      · exact hk
      · exact hh
    · intro hk
      by_cases hkh : k = h
      · exact Or.inr hkh
      · exact Or.inl ⟨hkh, hk⟩

theorem pushTop_of_room (h : Nat) (hroom : s.zOrder.length < maxWindows) :
    zOrderPushTop h s = { s with zOrder := s.zOrder ++ [h] } := by
  unfold zOrderPushTop
  rw [if_neg (by omega)]

theorem pushTop_raised {h : Nat} (hh : h ∈ s.zOrder) (hlen : s.zOrder.length ≤ maxWindows) :
    zOrderPushTop h (zOrderRemove h s) = { s with zOrder := s.zOrder.erase h ++ [h] } := by
  have h1 := List.length_erase_of_mem hh
  have h2 := List.length_pos_of_mem hh
  unfold zOrderPushTop zOrderRemove
  rw [if_neg (by dsimp only; omega)]

theorem WinInv.touch (hi : WinInv es s) (hs : SameHandles s s')
    (hst : ∀ i, (s'.windows i).state = (s.windows i).state) (hn : s'.zOrder.Nodup)
    (hz : ∀ h, h ∈ s'.zOrder ↔ h ∈ s.zOrder)
    (hf : ∀ i j, i < maxWindows → j < maxWindows → (s'.windows i).valid = true → (s'.windows j).valid = true →
      (s'.windows i).focused = true → (s'.windows j).focused = true → i = j) : WinInv (es ++ [.other]) s' := by
  refine hi.other hs hn (fun h => ?_) hf
  rw [hz, hi.zOrder]
  constructor
  · rintro ⟨i, hv, rfl⟩
    exact ⟨i, (hs.visible hst i).2 hv, (hs.handle i).symm⟩
  · rintro ⟨i, hv, rfl⟩
    exact ⟨i, (hs.visible hst i).1 hv, hs.handle i⟩

theorem WinInv.focus_of_le (hi : WinInv es s) (hs : SameHandles s s')
    (hle : ∀ i, (s'.windows i).focused = true → (s.windows i).focused = true) :
    ∀ i j, i < maxWindows → j < maxWindows → (s'.windows i).valid = true → (s'.windows j).valid = true →
      (s'.windows i).focused = true → (s'.windows j).focused = true → i = j := by
  intro i j hlt hlt' hv hv' hf hf'
  rw [(hs i).1] at hv
  rw [(hs j).1] at hv'
  exact hi.focus i j hlt hlt' hv hv' (hle i hf) (hle j hf')

theorem modify_of_field {α : Type} (p : Win → α) (f : Win → Win) (hp : ∀ w, p (f w) = p w) (slot i : Nat) :
    p ((s.modify slot f).windows i) = p (s.windows i) := by
  by_cases hj : i = slot
  · rw [hj, modify_self, hp]
  · rw [modify_ne hj]

theorem winInv_resize (hi : WinInv es s) (h : Nat) (w w' : Int) (pixels : Bool) :
    WinInv (es ++ [.other]) (windowResize h w w' pixels s) := by
  unfold windowResize
  cases hg : windowGet s h with
  | none => exact hi.touch (fun _ => ⟨rfl, rfl⟩) (fun _ => rfl) hi.nodup (fun _ => Iff.rfl) hi.focus
  | some slot =>
    have hs : SameHandles s (s.modify slot (fun w0 => { w0 with width := w, height := w', pixels := pixels, dirty := true })) :=
      sameHandles_modify _ _ (fun _ => rfl) (fun _ => rfl)
    refine hi.touch hs (modify_of_field Win.state _ (by intro _; rfl) slot) hi.nodup (fun _ => Iff.rfl) ?_
    exact hi.focus_of_le hs (fun i hf => (modify_of_field Win.focused _ (by intro _; rfl) slot i).symm.trans hf)

theorem winInv_raise (hi : WinInv es s) (h : Nat) : WinInv (es ++ [.other]) (windowRaise h s) := by
  unfold windowRaise
  cases hg : windowGet s h with
  | none => exact hi.touch (fun _ => ⟨rfl, rfl⟩) (fun _ => rfl) hi.nodup (fun _ => Iff.rfl) hi.focus
  | some slot =>
    dsimp only
    split
    · exact hi.touch (fun _ => ⟨rfl, rfl⟩) (fun _ => rfl) hi.nodup (fun _ => Iff.rfl) hi.focus
    rename_i hvis
    obtain ⟨hlt, hv, rfl⟩ := hi.get_iff.1 hg
    have hmem : s.handle slot ∈ s.zOrder := (hi.zOrder _).2 ⟨slot, ⟨hlt, hv, not_not.1 hvis⟩, rfl⟩
    have hs : SameHandles s (s.modify slot (fun w => { w with dirty := true })) :=
      sameHandles_modify _ _ (fun _ => rfl) (fun _ => rfl)
    have hst : ∀ i, ((s.modify slot (fun w => { w with dirty := true })).windows i).state = (s.windows i).state :=
      modify_of_field Win.state (fun w => { w with dirty := true }) (fun _ => rfl) slot
    have hfo : ∀ i, ((s.modify slot (fun w => { w with dirty := true })).windows i).focused = (s.windows i).focused :=
      modify_of_field Win.focused (fun w => { w with dirty := true }) (fun _ => rfl) slot
    rw [pushTop_raised (s := s.modify slot _) hmem hi.length_le]
    refine hi.touch hs hst (mem_raised (k := 0) hmem hi.nodup).1
      (fun k => (mem_raised hmem hi.nodup).2) ?_
    exact hi.focus_of_le hs (fun i hf => (hfo i).symm.trans hf)

theorem windows_unfocusAll (i : Nat) : ((unfocusAll s).windows i).valid = (s.windows i).valid ∧
    ((unfocusAll s).windows i).generation = (s.windows i).generation ∧
    ((unfocusAll s).windows i).state = (s.windows i).state := by
  unfold unfocusAll
  dsimp only
  split <;> exact ⟨rfl, rfl, rfl⟩

theorem winInv_focus (hi : WinInv es s) (h : Nat) : WinInv (es ++ [.other]) (windowFocus h s) := by
  unfold windowFocus
  cases hg : windowGet s h with
  | none => exact hi.touch (fun _ => ⟨rfl, rfl⟩) (fun _ => rfl) hi.nodup (fun _ => Iff.rfl) hi.focus
  | some slot =>
    dsimp only
    split
    · exact hi.touch (fun _ => ⟨rfl, rfl⟩) (fun _ => rfl) hi.nodup (fun _ => Iff.rfl) hi.focus
    rename_i hvis
    obtain ⟨hlt, hv, rfl⟩ := hi.get_iff.1 hg
    have hmem : s.handle slot ∈ s.zOrder := (hi.zOrder _).2 ⟨slot, ⟨hlt, hv, not_not.1 hvis⟩, rfl⟩
    have hs1 := sameHandles_modify (s := unfocusAll s) slot (fun w => { w with focused := true, dirty := true })
      (fun _ => rfl) (fun _ => rfl)
    have hs : SameHandles s ((unfocusAll s).modify slot (fun w => { w with focused := true, dirty := true })) :=
      fun i => ⟨(hs1 i).1.trans (windows_unfocusAll i).1, (hs1 i).2.trans (windows_unfocusAll i).2.1⟩
    have hst : ∀ i, (((unfocusAll s).modify slot (fun w => { w with focused := true, dirty := true })).windows i).state =
        ((unfocusAll s).windows i).state :=
      modify_of_field Win.state (fun w => { w with focused := true, dirty := true }) (fun _ => rfl) slot
    rw [pushTop_raised (s := (unfocusAll s).modify slot _) hmem hi.length_le]
    refine hi.touch hs (fun i => (hst i).trans (windows_unfocusAll i).2.2) (mem_raised (k := 0) hmem hi.nodup).1
      (fun k => (mem_raised hmem hi.nodup).2) ?_
    · -- of the valid windows only `slot` has the focus now
      have honly : ∀ i, i < maxWindows → (s.windows i).valid = true →
          (((unfocusAll s).modify slot (fun w => { w with focused := true, dirty := true })).windows i).focused = true →
          i = slot := by
        intro i hlt' hv' hf
        by_contra hne
        rw [modify_ne hne] at hf
        unfold unfocusAll at hf
        dsimp only at hf
        rw [if_pos ⟨hlt', hv'⟩] at hf
        cases hf
      intro i j hi' hj' hvi hvj hfi hfj
      rw [honly i hi' (by rw [← (hs i).1]; exact hvi) hfi, honly j hj' (by rw [← (hs j).1]; exact hvj) hfj]

theorem winInv_hide (hi : WinInv es s) (h : Nat) : WinInv (es ++ [.other]) (windowHide h s) := by
  unfold windowHide
  cases hg : windowGet s h with
  | none => exact hi.touch (fun _ => ⟨rfl, rfl⟩) (fun _ => rfl) hi.nodup (fun _ => Iff.rfl) hi.focus
  | some slot =>
    dsimp only
    split
    · exact hi.touch (fun _ => ⟨rfl, rfl⟩) (fun _ => rfl) hi.nodup (fun _ => Iff.rfl) hi.focus
    rename_i hvis
    obtain ⟨hlt, hv, rfl⟩ := hi.get_iff.1 hg
    have hs : SameHandles s (s.modify slot (fun w => { w with state := .hidden, focused := false, dirty := true })) :=
      sameHandles_modify _ _ (fun _ => rfl) (fun _ => rfl)
    have hvisible : ∀ i, (s.modify slot (fun w => { w with state := .hidden, focused := false, dirty := true })).Visible i ↔
        s.Visible i ∧ i ≠ slot := by
      intro i
      unfold Manager.Visible
      rw [(hs i).1]
      by_cases hj : i = slot
      · rw [hj, modify_self]
        simp [WinState.hidden, WinState.visible]
      · rw [modify_ne hj]
        simp [hj]
    refine hi.other hs (hi.nodup.erase _) (fun k => ?_) ?_
    · show k ∈ s.zOrder.erase (s.handle slot) ↔ _
      rw [hi.nodup.mem_erase_iff, hi.zOrder]
      constructor
      · rintro ⟨hne, i, hvi, rfl⟩
        exact ⟨i, (hvisible i).2 ⟨hvi, fun he => hne (by rw [he])⟩, (hs.handle i).symm⟩
      · rintro ⟨i, hvi, rfl⟩
        obtain ⟨hvi, hne⟩ := (hvisible i).1 hvi
        refine ⟨fun he => hne ?_, i, hvi, hs.handle i⟩
        exact hi.handle_injective hvi.1 hlt hvi.2.1 hv ((hs.handle i).symm.trans he)
    · refine hi.focus_of_le hs (fun i hf => ?_)
      have hf' : ((s.modify slot (fun w => { w with state := .hidden, focused := false, dirty := true })).windows i).focused
        = true := hf
      by_cases hj : i = slot
      · rw [hj, modify_self] at hf'
        cases hf'
      · rwa [modify_ne hj] at hf'

theorem winInv_show (hi : WinInv es s) (h : Nat) : WinInv (es ++ [.other]) (windowShow h s) := by
  unfold windowShow
  cases hg : windowGet s h with
  | none => exact hi.touch (fun _ => ⟨rfl, rfl⟩) (fun _ => rfl) hi.nodup (fun _ => Iff.rfl) hi.focus
  | some slot =>
    dsimp only
    split
    · exact hi.touch (fun _ => ⟨rfl, rfl⟩) (fun _ => rfl) hi.nodup (fun _ => Iff.rfl) hi.focus
    rename_i hvis
    obtain ⟨hlt, hv, rfl⟩ := hi.get_iff.1 hg
    have hnot : ¬s.Visible slot := fun hvs => hvis hvs.2.2
    have hnew : s.handle slot ∉ s.zOrder := by
      intro hmem
      obtain ⟨i, hvi, he⟩ := (hi.zOrder _).1 hmem
      exact hnot (hi.handle_injective hlt hvi.1 hv hvi.2.1 he ▸ hvi)
    have hs : SameHandles s (s.modify slot (fun w => { w with state := .visible, dirty := true })) :=
      sameHandles_modify _ _ (fun _ => rfl) (fun _ => rfl)
    have hvisible : ∀ i, (s.modify slot (fun w => { w with state := .visible, dirty := true })).Visible i ↔
        s.Visible i ∨ i = slot := by
      intro i
      unfold Manager.Visible
      rw [(hs i).1]
      by_cases hj : i = slot
      · rw [hj, modify_self]
        simp [hlt, hv]
      · rw [modify_ne hj]
        simp [hj]
    have hfo : ∀ i, ((s.modify slot (fun w => { w with state := .visible, dirty := true })).windows i).focused =
        (s.windows i).focused :=
      modify_of_field Win.focused (fun w => { w with state := .visible, dirty := true }) (fun _ => rfl) slot
    rw [modify_zOrder, if_neg hnew, pushTop_of_room (s := s.modify slot _) _ (hi.room hlt hnot)]
    refine hi.other hs ?_ (fun k => ?_) (hi.focus_of_le hs (fun i hf => (hfo i).symm.trans hf))
    · refine List.nodup_append.2 ⟨hi.nodup, List.nodup_singleton _, fun a ha b hb hab => ?_⟩
      rw [hab, List.mem_singleton.1 hb] at ha
      exact hnew ha
    · show k ∈ s.zOrder ++ [s.handle slot] ↔ _
      rw [List.mem_append, List.mem_singleton, hi.zOrder]
      constructor
      · rintro (⟨i, hvi, rfl⟩ | rfl)
        · exact ⟨i, (hvisible i).2 (Or.inl hvi), (hs.handle i).symm⟩
        · exact ⟨slot, (hvisible slot).2 (Or.inr rfl), (hs.handle slot).symm⟩
      · rintro ⟨i, hvi, rfl⟩
        rcases (hvisible i).1 hvi with hvi | rfl
        · exact Or.inl ⟨i, hvi, hs.handle i⟩
        · exact Or.inr (hs.handle i)

theorem once_concat (hi : ∀ before h after, es = before ++ .created h :: after → WinEvent.created h ∉ after)
    {e : WinEvent} (he : e ∉ es ∨ ∀ h, e ≠ .created h) :
    ∀ before h after, es ++ [e] = before ++ .created h :: after → WinEvent.created h ∉ after := by
  intro before h after heq
  rcases List.eq_nil_or_concat after with rfl | ⟨after', x, rfl⟩
  · exact List.not_mem_nil
  · have he' : es ++ [e] = (before ++ .created h :: after') ++ [x] := by simpa using heq
    obtain ⟨hes, hx⟩ := List.append_inj' he' rfl
    injection hx with hx
    subst hx
    intro hmem
    rw [List.concat_eq_append, List.mem_append, List.mem_singleton] at hmem
    rcases hmem with hmem | hh
    · exact hi before h after' hes hmem
    · rcases he with he | he
      · rw [hes, ← hh] at he
        simp at he
      · exact he h hh.symm

theorem get_modify_ne {slot j : Nat} {f : Win → Win} (hj : j ≠ slot) (k : Nat) :
    windowGet (s.modify slot f) k = some j ↔ windowGet s k = some j := by
  rw [windowGet_eq_some, windowGet_eq_some, modify_ne hj]

theorem visible_modify_ne {slot j : Nat} {f : Win → Win} (hj : j ≠ slot) :
    (s.modify slot f).Visible j ↔ s.Visible j := by
  unfold Manager.Visible
  rw [modify_ne hj]

theorem handle_modify_ne {slot j : Nat} {f : Win → Win} (hj : j ≠ slot) : (s.modify slot f).handle j = s.handle j := by
  unfold Manager.handle
  rw [modify_ne hj]

theorem get_modify_invalid {slot k : Nat} {f : Win → Win} (hf : (f (s.windows slot)).valid = false) :
    (windowGet (s.modify slot f) k).isSome = true ↔ ∃ j, j ≠ slot ∧ windowGet s k = some j := by
  rw [Option.isSome_iff_exists]
  constructor
  · rintro ⟨j, hj⟩
    have hne : j ≠ slot := by
      rintro rfl
      have := (windowGet_eq_some.1 hj).2.2.1
      rw [modify_self, hf] at this
      cases this
    exact ⟨j, hne, (get_modify_ne hne k).1 hj⟩
  · rintro ⟨j, hne, hj⟩
    exact ⟨j, (get_modify_ne hne k).2 hj⟩

theorem winInv_destroy (hi : WinInv es s) (h : Nat) : WinInv (es ++ [.destroyed h]) (windowDestroy h s) := by
  have honce := once_concat (e := .destroyed h) hi.once (Or.inr (fun _ he => by cases he))
  unfold windowDestroy
  cases hg : windowGet s h with
  | none =>
    refine ⟨fun k => ?_, hi.small, honce, hi.nodup, hi.zOrder, hi.focus⟩
    rw [inUse_concat]
    by_cases hk : h = k
    · subst hk
      simp [liveStep, hg]
    · simp [liveStep, hk, hi.inUse]
  | some slot =>
    obtain ⟨hlt, hv, rfl⟩ := hi.get_iff.1 hg
    dsimp only
    have hne : ∀ {j}, j < maxWindows → (((zOrderRemove (s.handle slot) s).modify slot
        (fun w => { w with pixels := false, valid := false, generation := 0 })).windows j).valid = true → j ≠ slot := by
      rintro j - hvj rfl
      rw [modify_self] at hvj
      cases hvj
    refine ⟨fun k => ?_, fun j hlt' hvj => ?_, honce, hi.nodup.erase _, fun k => ?_, fun i j hi' hj' hvi hvj hfi hfj => ?_⟩
    · rw [get_modify_invalid rfl, inUse_concat]
      by_cases hk : s.handle slot = k
      · subst hk
        simp only [liveStep, if_true, Bool.false_eq_true, iff_false]
        rintro ⟨j, hjne, hj⟩
        have hj' : windowGet s (s.handle slot) = some j := hj
        rw [hg] at hj'
        injection hj' with hj'
        exact hjne hj'.symm
      · simp only [liveStep, if_neg hk]
        rw [← hi.inUse, Option.isSome_iff_exists]
        constructor
        · rintro ⟨j, -, hj⟩
          exact ⟨j, hj⟩
        · rintro ⟨j, hj⟩
          refine ⟨j, ?_, hj⟩
          rintro rfl
          exact hk (hi.get_iff.1 hj).2.2.symm
    · have hjne := hne hlt' hvj
      rw [modify_ne hjne] at hvj ⊢
      exact hi.small j hlt' hvj
    · show k ∈ s.zOrder.erase (s.handle slot) ↔ _
      rw [hi.nodup.mem_erase_iff, hi.zOrder]
      constructor
      · rintro ⟨hkne, j, hvj, rfl⟩
        have hjne : j ≠ slot := fun he => hkne (by rw [he])
        exact ⟨j, (visible_modify_ne (s := zOrderRemove (s.handle slot) s) hjne).2 hvj,
          (handle_modify_ne (s := zOrderRemove (s.handle slot) s) hjne).symm⟩
      · rintro ⟨j, hvj, rfl⟩
        have hjne := hne hvj.1 hvj.2.1
        have hvj' : s.Visible j := (visible_modify_ne (s := zOrderRemove (s.handle slot) s) hjne).1 hvj
        rw [handle_modify_ne hjne]
        exact ⟨fun he => hjne (hi.handle_injective hvj'.1 hlt hvj'.2.1 hv he), j, hvj', rfl⟩
    · have hine := hne hi' hvi
      have hjne := hne hj' hvj
      rw [modify_ne hine] at hvi hfi
      rw [modify_ne hjne] at hvj hfj
      exact hi.focus i j hi' hj' hvi hvj hfi hfj

theorem windowFindFree_eq_some {slot : Nat} (h : windowFindFree s = some slot) :
    slot < maxWindows ∧ (s.windows slot).valid = false := by
  have hmem := List.mem_of_find?_eq_some h
  have hp := List.find?_some h
  exact ⟨List.mem_range.1 hmem, by simpa using hp⟩

theorem WinInv.created (hi : WinInv es s) {slot n : Nat} {w : Win} {z : List Nat} {e : WinEvent}
    (hlt : slot < maxWindows) (hfree : (s.windows slot).valid = false) (hw : w.focused = false)
    (hsmall : w.valid = true → w.generation < 2 ^ 16)
    (honce : ∀ before h after, es ++ [e] = before ++ .created h :: after → WinEvent.created h ∉ after)
    (huse : ∀ k, Gfx.inUse (es ++ [e]) k = true ↔
      Gfx.inUse es k = true ∨ w.valid = true ∧ k = handleMake slot w.generation)
    (hnodup : z.Nodup) (hz : ∀ k, k ∈ z ↔
      k ∈ s.zOrder ∨ (w.valid = true ∧ w.state = .visible) ∧ k = handleMake slot w.generation) :
    WinInv (es ++ [e]) { windows := Function.update s.windows slot w, zOrder := z, nextGeneration := n } := by
  generalize hs' : ({ windows := Function.update s.windows slot w, zOrder := z, nextGeneration := n } : Manager) = s'
  have hself : s'.windows slot = w := by
    rw [← hs']
    exact Function.update_self _ _ _
  have hne : ∀ {j}, j ≠ slot → s'.windows j = s.windows j := by
    intro j hj
    rw [← hs']
    exact Function.update_of_ne hj _ _
  have hold : ∀ {j}, (s.windows j).valid = true → j ≠ slot := by
    rintro j hv rfl
    rw [hfree] at hv
    cases hv
  have hhandle : ∀ {j}, j ≠ slot → s'.handle j = s.handle j := fun hj => by
    unfold Manager.handle
    rw [hne hj]
  have hhandle' : s'.handle slot = handleMake slot w.generation := by
    unfold Manager.handle
    rw [hself]
  have hvis : ∀ {j}, j ≠ slot → (s'.Visible j ↔ s.Visible j) := fun hj => by
    unfold Manager.Visible
    rw [hne hj]
  have hvis' : s'.Visible slot ↔ w.valid = true ∧ w.state = .visible := by
    unfold Manager.Visible
    rw [hself]
    exact ⟨fun h => h.2, fun h => ⟨hlt, h⟩⟩
  have hget : ∀ k, (windowGet s' k).isSome = true ↔
      (windowGet s k).isSome = true ∨ w.valid = true ∧ k = handleMake slot w.generation := by
    intro k
    simp only [Option.isSome_iff_exists]
    constructor
    · rintro ⟨j, hj⟩
      rw [windowGet_eq_some] at hj
      by_cases hjs : j = slot
      · obtain ⟨h1, -, h3, h4⟩ := hj
        rw [hjs, hself] at h3 h4
        refine Or.inr ⟨h3, ?_⟩
        rw [h4, ← hjs, h1]
        refine (handleMake_parts ?_ ?_).symm
        · rw [← h1, hjs]
          exact hlt
        · rw [← h4]
          exact hsmall h3
      · rw [hne hjs, ← windowGet_eq_some] at hj
        exact Or.inl ⟨j, hj⟩
    · rintro (⟨j, hj⟩ | ⟨hv, rfl⟩)
      · rw [windowGet_eq_some] at hj
        refine ⟨j, windowGet_eq_some.2 ?_⟩
        rw [hne (hold hj.2.2.1)]
        exact hj
      · obtain ⟨h1, h2⟩ := handleMake_small hlt (hsmall hv)
        refine ⟨slot, windowGet_eq_some.2 ?_⟩
        rw [hself]
        exact ⟨h1.symm, hlt, hv, h2.symm⟩
  have hzs : s'.zOrder = z := by rw [← hs']
  refine ⟨fun k => ?_, fun j hj hv => ?_, honce, by rw [hzs]; exact hnodup, fun k => ?_, fun i j hi' hj' hvi hvj hfi hfj => ?_⟩
  · rw [hget, hi.inUse, huse]
  · by_cases hjs : j = slot
    · rw [hjs, hself] at hv ⊢
      exact hsmall hv
    · rw [hne hjs] at hv ⊢
      exact hi.small j hj hv
  · rw [hzs, hz, hi.zOrder]
    constructor
    · rintro (⟨j, hv, rfl⟩ | ⟨hv, rfl⟩)
      · have hjs := hold hv.2.1
        exact ⟨j, (hvis hjs).2 hv, (hhandle hjs).symm⟩
      · exact ⟨slot, hvis'.2 hv, hhandle'.symm⟩
    · rintro ⟨j, hv, rfl⟩
      by_cases hjs : j = slot
      · rw [hjs] at hv ⊢
        exact Or.inr ⟨hvis'.1 hv, hhandle'⟩
      · exact Or.inl ⟨j, (hvis hjs).1 hv, hhandle hjs⟩
  · have hno : ∀ {j}, (s'.windows j).focused = true → j ≠ slot := by
      rintro j hf rfl
      rw [hself, hw] at hf
      cases hf
    rw [hne (hno hfi)] at hvi hfi
    rw [hne (hno hfj)] at hvj hfj
    exact hi.focus i j hi' hj' hvi hvj hfi hfj

theorem winInv_create (hi : WinInv es s) (x y w h : Int) (flags : Nat) (pixels : Bool)
    (hf : (WinCall.create x y w h flags pixels).Fresh es s) :
    WinInv (es ++ [(WinCall.run s (.create x y w h flags pixels)).1])
      (WinCall.run s (.create x y w h flags pixels)).2 := by
  unfold WinCall.run
  dsimp only
  unfold windowCreate
  cases hslot : windowFindFree s with
  | none => exact hi.touch (fun _ => ⟨rfl, rfl⟩) (fun _ => rfl) hi.nodup (fun _ => Iff.rfl) hi.focus
  | some slot =>
    obtain ⟨hlt, hfree⟩ := windowFindFree_eq_some hslot
    dsimp only
    cases pixels with
    | false =>
      refine hi.created (w := ⟨slot, s.nextGeneration, false, .visible, false, x, y, w, h, flags, false, true⟩) hlt hfree
        rfl (fun hv => by cases hv) (once_concat hi.once (Or.inr (fun _ he => by cases he))) (fun k => ?_) hi.nodup
        (fun k => ?_)
      · rw [inUse_concat]
        simp [liveStep]
      · simp
    | true =>
      obtain ⟨hg, hnew⟩ := hf slot hslot rfl
      have hnot : handleMake slot s.nextGeneration ∉ s.zOrder := by
        intro hmem
        obtain ⟨j, hv, he⟩ := (hi.zOrder _).1 hmem
        have h1 := (handleMake_small hlt hg).1
        have h2 := (handleMake_small hv.1 (hi.small j hv.1 hv.2.1)).1
        unfold Manager.handle at he
        rw [he, h2] at h1
        rw [← h1, hv.2.1] at hfree
        cases hfree
      have hroom : s.zOrder.length < maxWindows := hi.room hlt (fun hv => by
        have := hv.2.1
        rw [hfree] at this
        cases this)
      rw [if_neg (by decide), pushTop_of_room _ (by exact hroom)]
      refine hi.created (w := ⟨slot, s.nextGeneration, true, .visible, false, x, y, w, h, flags, true, true⟩) hlt hfree
        rfl (fun _ => hg) (once_concat hi.once (Or.inl hnew)) (fun k => ?_) ?_ (fun k => ?_)
      · rw [inUse_concat]
        by_cases hk : handleMake slot s.nextGeneration = k
        · simp [liveStep, hk]
        · simp [liveStep, hk, Ne.symm hk]
      · refine List.nodup_append.2 ⟨hi.nodup, List.nodup_singleton _, fun a ha b hb hab => ?_⟩
        rw [hab, List.mem_singleton.1 hb] at ha
        exact hnot ha
      · show k ∈ s.zOrder ++ [handleMake slot s.nextGeneration] ↔ _
        rw [List.mem_append, List.mem_singleton]
        simp

end

theorem winInv_step {es : List WinEvent} {s : Manager} (hi : WinInv es s) (c : WinCall) (hf : c.Fresh es s) :
    WinInv (es ++ [(WinCall.run s c).1]) (WinCall.run s c).2 := by
  cases c with
  | create x y w h flags pixels => exact winInv_create hi x y w h flags pixels hf
  | destroy h => exact winInv_destroy hi h
  | resize h w w' pixels => exact winInv_resize hi h w w' pixels
  | «show» h => exact winInv_show hi h
  | hide h => exact winInv_hide hi h
  | focus h => exact winInv_focus hi h
  | raise h => exact winInv_raise hi h

theorem fresh_of_windowsOk {es : List WinEvent} {s : Manager} (hok : WindowsOk es s) (c : WinCall)
    (hok' : WindowsOk (es ++ [(WinCall.run s c).1]) (WinCall.run s c).2) : c.Fresh es s := by
  cases c with
  | create x y w h flags pixels =>
    rintro slot hslot rfl
    obtain ⟨hlt, hfree⟩ := windowFindFree_eq_some hslot
    have hevent : (WinCall.run s (.create x y w h flags true)).1 = .created (handleMake slot s.nextGeneration) := by
      unfold WinCall.run windowCreate
      rw [hslot]
      rfl
    have hwin : (WinCall.run s (.create x y w h flags true)).2.windows =
        Function.update s.windows slot ⟨slot, s.nextGeneration, true, .visible, false, x, y, w, h, flags, true, true⟩ := by
      unfold WinCall.run windowCreate
      rw [hslot]
      dsimp only
      unfold zOrderPushTop
      rw [if_neg (by decide)]
      split <;> rfl
    rw [hevent] at hok'
    have hget := (hok'.handles es _ [] rfl).2 (by simp)
    obtain ⟨i, hi⟩ := Option.isSome_iff_exists.1 hget
    obtain ⟨hid, -, -, hgen⟩ := windowGet_eq_some.1 hi
    rw [handleMake_id hlt] at hid
    subst hid
    rw [hwin, Function.update_self] at hgen
    have hgen' : s.nextGeneration = handleGen (handleMake i s.nextGeneration) := hgen
    refine ⟨?_, fun hmem => ?_⟩
    · rw [hgen']
      exact handleMake_gen_lt i _
    · obtain ⟨before, after, hes⟩ := List.append_of_mem hmem
      have hold := hok.handles before _ after hes
      have hnew := hok'.handles before (handleMake i s.nextGeneration)
        (after ++ [.created (handleMake i s.nextGeneration)]) (by simp [hes])
      have hlive : WinEvent.destroyed (handleMake i s.nextGeneration) ∉ after := fun hd =>
        hnew.1 hget (List.mem_append_left _ hd)
      obtain ⟨j, hj⟩ := Option.isSome_iff_exists.1 (hold.2 hlive)
      obtain ⟨hjd, -, hv, -⟩ := windowGet_eq_some.1 hj
      rw [handleMake_id hlt] at hjd
      rw [hjd, hfree] at hv
      cases hv
  | destroy h => exact trivial
  | resize h w w' pixels => exact trivial
  | «show» h => exact trivial
  | hide h => exact trivial
  | focus h => exact trivial
  | raise h => exact trivial

/-- **The windows are in order throughout a run if and only if each new window gets a fresh handle**: a generation of
16 bits, which no window of its slot had before. -/
theorem windows_in_order_iff (calls : List WinCall) :
    WindowsThroughout calls ↔ Allowed WinCall.run WinCall.Fresh windowsInit calls := by
  constructor
  · rintro h before c after rfl
    have hafter := h (before ++ [c]) after (by simp)
    rw [run_concat] at hafter
    exact fresh_of_windowsOk (h before (c :: after) rfl) c hafter
  · rintro h before after rfl
    exact (run_keeps (I := WinInv) (fun _ _ c hi hf => winInv_step hi c hf) winInv_init before h.left).windowsOk

theorem windowFindFree_of_invalid {s : Manager} (hv : ∀ i, (s.windows i).valid = false) : windowFindFree s = some 0 := by
  unfold windowFindFree
  rw [List.find?_eq_some_iff_append]
  exact ⟨by rw [hv]; rfl, [], (List.range maxWindows).tail, rfl, by simp⟩

theorem nextGeneration_of_failed (n : Nat) :
    let s := (run WinCall.run windowsInit (List.replicate n (.create 0 0 1 1 0 false))).2
    s.nextGeneration = (1 + n) % 2 ^ 32 ∧ ∀ i, (s.windows i).valid = false := by
  induction n with
  | zero => exact ⟨rfl, fun _ => rfl⟩
  | succ n ih =>
    obtain ⟨hg, hv⟩ := ih
    rw [List.replicate_succ', run_concat]
    generalize (run WinCall.run windowsInit (List.replicate n (.create 0 0 1 1 0 false))).2 = s at hg hv
    show (windowCreate 0 0 1 1 0 false s).2.nextGeneration = _ ∧ ∀ i, ((windowCreate 0 0 1 1 0 false s).2.windows i).valid = _
    unfold windowCreate
    rw [windowFindFree_of_invalid hv]
    dsimp only
    rw [if_pos rfl]
    refine ⟨?_, fun i => ?_⟩
    · show (s.nextGeneration + 1) % 2 ^ 32 = _
      rw [hg]
      omega
    · by_cases hi : i = 0
      · rw [hi]
        rw [modify_self]
      · rw [modify_ne hi]
        exact hv i

/-- **The 65536th generation.** After 65535 failed calls the handle of a new window has generation 0. -/
theorem not_windows_in_order : ¬∀ calls : List WinCall, WindowsThroughout calls := by
  intro hall
  have h := (windows_in_order_iff _).1 (hall (List.replicate 65535 (.create 0 0 1 1 0 false) ++ [.create 0 0 1 1 0 true]))
  obtain ⟨hg, hv⟩ := nextGeneration_of_failed 65535
  have hlt := (h.last 0 (windowFindFree_of_invalid hv) rfl).1
  rw [hg] at hlt
  omega

end Gfx
end AmitX
