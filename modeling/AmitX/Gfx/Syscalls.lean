import AmitX.Gfx.Window
/-!
# Syscalls — the window system calls (`syscall.c`)

The system calls edit a window's state as a set of bits, and the compositor draws the windows of the z-order whose state
is VISIBLE.  `_win_set_active` and `_win_get_active` take a slot's number for its handle, which it is for generation 0.
-/
namespace AmitX
namespace Gfx

open Run

/-- The size of `fb.back`. -/
structure Screen where
  width : Nat
  height : Nat

/-- `(INT)n`. -/
def toInt (n : Nat) : Int := (BitVec.ofNat 32 n).toInt

def winCreate (fb : Screen) (w h flags : Nat) (pixels : Bool) (s : Manager) : Option Nat × Manager :=
  let x := (toInt fb.width - toInt w).tdiv 2
  let y := (toInt fb.height - toInt h).tdiv 2
  windowCreate x y (toInt w) (toInt h) (flags % 2 ^ 32) pixels s

/-- A call that changes the state of the window, if there is one: `false` is -1. -/
def winEdit (f : WinState → WinState) (handle : Nat) (s : Manager) : Bool × Manager :=
  match windowGet s handle with
  | none => (false, s)
  | some slot => (true, s.modify slot (fun w => { w with state := f w.state }))

def winShow (handle : Nat) (s : Manager) : Bool × Manager := winEdit (fun state => state ||| .visible) handle s

def winHide (handle : Nat) (s : Manager) : Bool × Manager := winEdit (fun state => state &&& ~~~.visible) handle s

/-- The loop of `_win_set_active`, for which `i` is a handle. -/
def clearFocused (s : Manager) : Manager :=
  { s with windows := fun i =>
      if i < maxWindows ∧ windowGet s i = some i then { s.windows i with state := (s.windows i).state &&& ~~~.focused }
      else s.windows i }

def winSetActive (handle : Nat) (s : Manager) : Bool × Manager :=
  match windowGet s handle with
  | none => (false, s)
  | some slot => (true, (clearFocused s).modify slot (fun w => { w with state := w.state ||| .focused }))

/-- `none` for -1. -/
def winGetActive (s : Manager) : Option Nat :=
  (List.range maxWindows).find? (fun i =>
    match windowGet s i with
    | none => false
    | some slot => (s.windows slot).state &&& .focused ≠ 0)

/-! ## Runs -/

inductive Syscall
  | create (w h flags : Nat) (pixels : Bool)
  | destroy (handle : Nat)
  | show (handle : Nat)
  | hide (handle : Nat)
  | setActive (handle : Nat)

/-- What a call did to the window of its handle; `other` for a call that found none. -/
inductive SysEvent
  | created (handle : Nat)
  | destroyed (handle : Nat)
  | shown (handle : Nat)
  | hidden (handle : Nat)
  | activated (handle : Nat)
  | other

def Syscall.run (fb : Screen) (s : Manager) : Syscall → SysEvent × Manager
  | .create w h flags pixels =>
    (match (winCreate fb w h flags pixels s).1 with
      | some handle => .created handle
      | none => .other, (winCreate fb w h flags pixels s).2)
  | .destroy handle => (.destroyed handle, windowDestroy handle s)
  | .show handle => (if (winShow handle s).1 then .shown handle else .other, (winShow handle s).2)
  | .hide handle => (if (winHide handle s).1 then .hidden handle else .other, (winHide handle s).2)
  | .setActive handle => (if (winSetActive handle s).1 then .activated handle else .other, (winSetActive handle s).2)

/-- Slot `i` holds a valid window. -/
def Manager.Live (s : Manager) (i : Nat) : Prop := i < maxWindows ∧ (s.windows i).valid = true

/-- `compositor_render` shows the window of slot `i`: it finds it in `z_order`, and its state is VISIBLE. -/
def Manager.Displayed (s : Manager) (i : Nat) : Prop :=
  (∃ h ∈ s.zOrder, windowGet s h = some i) ∧ (s.windows i).state = .visible

def NotHidden (es : List SysEvent) (h : Nat) : Prop :=
  ∀ before after, es = before ++ .hidden h :: after → .created h ∈ after ∨ .shown h ∈ after

/-- The last successful WIN_SET_ACTIVE was for the window, which has not been destroyed since. -/
def Active (es : List SysEvent) (h : Nat) : Prop :=
  ∃ before after, es = before ++ .activated h :: after ∧ .destroyed h ∉ after ∧ ∀ k, .activated k ∉ after

structure SyscallsOk (es : List SysEvent) (s : Manager) : Prop where
  displayed : ∀ i, s.Live i → (s.Displayed i ↔ NotHidden es (s.handle i))
  active : ∀ h, winGetActive s = some h ↔ Active es h

/-- In every state of the run the calls and the state agree, and no WIN_SET_ACTIVE takes a window from the screen. -/
def SyscallsThroughout (fb : Screen) (calls : List Syscall) : Prop :=
  ∀ before after, calls = before ++ after →
    SyscallsOk (run (Syscall.run fb) windowsInit before).1 (run (Syscall.run fb) windowsInit before).2 ∧
    ∀ handle rest, after = .setActive handle :: rest → ∀ i, (run (Syscall.run fb) windowsInit before).2.Displayed i →
      (winSetActive handle (run (Syscall.run fb) windowsInit before).2).2.Displayed i

/-- A window gets a generation of 16 bits; it is made active only while it is hidden and its handle is its slot's number,
and not shown as long as it is marked. -/
def Syscall.Fine (s : Manager) : Syscall → Prop
  | .create _ _ _ pixels => ∀ slot, windowFindFree s = some slot → pixels = true → s.nextGeneration < 2 ^ 16
  | .show handle => ∀ i, windowGet s handle = some i → (s.windows i).state &&& .focused = 0
  | .setActive handle =>
    ∀ i, windowGet s handle = some i → (s.windows i).generation = 0 ∧ (s.windows i).state &&& .visible = 0
  | _ => True

/-! ## What the calls say -/

section

variable {es : List SysEvent} {e : SysEvent} {h k : Nat}

theorem notHidden_concat : NotHidden (es ++ [e]) h ↔
    e = .created h ∨ e = .shown h ∨ e ≠ .hidden h ∧ NotHidden es h := by
  constructor
  · intro hn
    by_cases hc : e = .created h
    · exact Or.inl hc
    by_cases hs : e = .shown h
    · exact Or.inr (Or.inl hs)
    refine Or.inr (Or.inr ⟨?_, fun before after he => ?_⟩)
    · rintro rfl
      rcases hn es [] rfl with hmem | hmem <;> cases hmem
    · have hafter := hn before (after ++ [e]) (by rw [he]; simp)
      simpa [Ne.symm hc, Ne.symm hs] using hafter
  · intro hn before after he
    rcases List.eq_nil_or_concat after with rfl | ⟨after', x, rfl⟩
    · obtain ⟨-, he⟩ := List.append_inj' he rfl
      injection he with he
      subst he
      rcases hn with hn | hn | hn
      · cases hn
      · cases hn
      · exact absurd rfl hn.1
    · have he' : es ++ [e] = (before ++ .hidden h :: after') ++ [x] := by simpa using he
      obtain ⟨hes, hx⟩ := List.append_inj' he' rfl
      injection hx with hx
      subst hx
      rcases hn with rfl | rfl | ⟨-, hn⟩
      · exact Or.inl (by simp)
      · exact Or.inr (by simp)
      · rcases hn before after' hes with hmem | hmem
        · exact Or.inl (by simp [hmem])
        · exact Or.inr (by simp [hmem])

theorem not_active_nil (h : Nat) : ¬Active [] h := by
  rintro ⟨before, after, he, -⟩
  cases before <;> cases he

theorem active_concat : Active (es ++ [e]) h ↔
    e = .activated h ∨ Active es h ∧ e ≠ .destroyed h ∧ ∀ k, e ≠ .activated k := by
  constructor
  · rintro ⟨before, after, he, hd, ha⟩
    rcases List.eq_nil_or_concat after with rfl | ⟨after', x, rfl⟩
    · obtain ⟨-, he⟩ := List.append_inj' he rfl
      injection he with he
      exact Or.inl he
    · have he' : es ++ [e] = (before ++ .activated h :: after') ++ [x] := by simpa using he
      obtain ⟨hes, hx⟩ := List.append_inj' he' rfl
      injection hx with hx
      subst hx
      simp only [List.concat_eq_append, List.mem_append, List.mem_singleton, not_or] at hd ha
      exact Or.inr ⟨⟨before, after', hes, hd.1, fun k => (ha k).1⟩, Ne.symm hd.2, fun k => Ne.symm (ha k).2⟩
  · rintro (rfl | ⟨⟨before, after, rfl, hd, ha⟩, hed, hea⟩)
    · exact ⟨es, [], rfl, by simp, by simp⟩
    · refine ⟨before, after ++ [e], by simp, ?_, fun k => ?_⟩
      · rw [List.mem_append, List.mem_singleton, not_or]
        exact ⟨hd, Ne.symm hed⟩
      · simp [ha k, Ne.symm (hea k)]

theorem Active.unique (hh : Active es h) (hk : Active es k) : h = k := by
  induction es using List.reverseRecOn with
  | nil => exact absurd hh (not_active_nil h)
  | append_singleton es e ih =>
    rcases active_concat.1 hh with rfl | ⟨hh, -, hne⟩
    · rcases active_concat.1 hk with he | ⟨-, -, hne⟩
      · injection he
      · exact absurd rfl (hne h)
    · rcases active_concat.1 hk with rfl | ⟨hk, -, -⟩
      · exact absurd rfl (hne k)
      · exact ih hh hk

end

/-! ## The invariant -/

section

variable {s s' : Manager} {es : List SysEvent} {e : SysEvent} {h i : Nat}

structure SysInv (es : List SysEvent) (s : Manager) : Prop where
  small : ∀ i < maxWindows, (s.windows i).valid = true → (s.windows i).generation < 2 ^ 16
  nodup : s.zOrder.Nodup
  zOrder : ∀ h, h ∈ s.zOrder ↔ ∃ i, s.Live i ∧ h = s.handle i
  shown : ∀ i, s.Live i → ((s.windows i).state = .visible ↔ NotHidden es (s.handle i))
  states : ∀ i, s.Live i →
    (s.windows i).state = .hidden ∨ (s.windows i).state = .visible ∨ (s.windows i).state = .focused
  active : ∀ h, Active es h ↔ ∃ i, s.Live i ∧ (s.windows i).state = .focused ∧ h = s.handle i
  zero : ∀ i, s.Live i → (s.windows i).state = .focused → (s.windows i).generation = 0

theorem sysInv_init : SysInv [] windowsInit where
  small i _ hv := by simp [windowsInit] at hv
  nodup := List.nodup_nil
  zOrder h := by simp [windowsInit, Manager.Live]
  shown i hl := by simp [windowsInit, Manager.Live] at hl
  states i hl := by simp [windowsInit, Manager.Live] at hl
  active h := by simp [windowsInit, Manager.Live, not_active_nil]
  zero i hl := by simp [windowsInit, Manager.Live] at hl

theorem SysInv.get_iff (hi : SysInv es s) : windowGet s h = some i ↔ s.Live i ∧ h = s.handle i := by
  rw [windowGet_iff hi.small]
  exact and_assoc.symm

theorem SysInv.eq_of_handle_eq (hi : SysInv es s) {j : Nat} (hl : s.Live i) (hl' : s.Live j)
    (h : s.handle i = s.handle j) : i = j :=
  Gfx.eq_of_handle_eq hi.small hl.1 hl'.1 hl.2 hl'.2 h

theorem SysInv.displayed_iff (hi : SysInv es s) (hl : s.Live i) : s.Displayed i ↔ (s.windows i).state = .visible := by
  refine ⟨fun hd => hd.2, fun hv => ⟨⟨s.handle i, (hi.zOrder _).2 ⟨i, hl, rfl⟩, hi.get_iff.2 ⟨hl, rfl⟩⟩, hv⟩⟩

theorem windowGet_slot (hlt : i < maxWindows) {j : Nat} : windowGet s i = some j ↔
    j = i ∧ (s.windows i).valid = true ∧ (s.windows i).generation = 0 := by
  have hid : handleId i = i ∧ handleGen i = 0 := by
    unfold handleId handleGen
    unfold maxWindows at hlt
    omega
  rw [windowGet_eq_some, hid.1, hid.2]
  constructor
  · rintro ⟨rfl, -, hv, hg⟩
    exact ⟨rfl, hv, hg⟩
  · rintro ⟨rfl, hv, hg⟩
    exact ⟨rfl, hlt, hv, hg⟩

theorem handle_zero (hlt : i < maxWindows) (hg : (s.windows i).generation = 0) : s.handle i = i := by
  unfold Manager.handle handleMake
  rw [hg]
  unfold maxWindows at hlt
  omega

theorem winGetActive_some (hg : winGetActive s = some h) : s.Live h ∧ (s.windows h).generation = 0 ∧
    (s.windows h).state &&& .focused ≠ 0 := by
  have hlt := List.mem_range.1 (List.mem_of_find?_eq_some hg)
  have hp := List.find?_some hg
  cases hw : windowGet s h with
  | none =>
    rw [hw] at hp
    cases hp
  | some j =>
    rw [hw] at hp
    obtain ⟨rfl, hv, hgen⟩ := (windowGet_slot hlt).1 hw
    exact ⟨⟨hlt, hv⟩, hgen, of_decide_eq_true hp⟩

theorem SysInv.focused_of_bit (hi : SysInv es s) (hl : s.Live i) (hb : (s.windows i).state &&& .focused ≠ 0) :
    (s.windows i).state = .focused := by
  rcases hi.states i hl with hs | hs | hs
  · rw [hs] at hb
    exact absurd rfl hb
  · rw [hs] at hb
    exact absurd rfl hb
  · exact hs

theorem SysInv.getActive (hi : SysInv es s) (h : Nat) : winGetActive s = some h ↔ Active es h := by
  have hsome : ∀ k, winGetActive s = some k → Active es k := by
    intro k hk
    obtain ⟨hl, hgen, hb⟩ := winGetActive_some hk
    exact (hi.active k).2 ⟨k, hl, hi.focused_of_bit hl hb, (handle_zero hl.1 hgen).symm⟩
  refine ⟨hsome h, fun ha => ?_⟩
  obtain ⟨i, hl, hf, rfl⟩ := (hi.active h).1 ha
  have hz := handle_zero hl.1 (hi.zero i hl hf)
  cases hg : winGetActive s with
  | some k => rw [(hsome k hg).unique ha]
  | none =>
    have hno := List.find?_eq_none.1 hg i (List.mem_range.2 hl.1)
    rw [(windowGet_slot hl.1).2 ⟨rfl, hl.2, hi.zero i hl hf⟩] at hno
    dsimp only at hno
    rw [hf] at hno
    exact absurd (by decide) hno

theorem SysInv.syscallsOk (hi : SysInv es s) : SyscallsOk es s where
  displayed i hl := (hi.displayed_iff hl).trans (hi.shown i hl)
  active := hi.getActive

/-! ## Steps -/

theorem SameHandles.live (hs : SameHandles s s') (i : Nat) : s'.Live i ↔ s.Live i := by
  unfold Manager.Live
  rw [(hs i).1]

theorem SysInv.edited (hi : SysInv es s) (hs : SameHandles s s') (hz : s'.zOrder = s.zOrder)
    (hshown : ∀ i, s.Live i → ((s'.windows i).state = .visible ↔ NotHidden (es ++ [e]) (s.handle i)))
    (hstates : ∀ i, s.Live i →
      (s'.windows i).state = .hidden ∨ (s'.windows i).state = .visible ∨ (s'.windows i).state = .focused)
    (hactive : ∀ h, Active (es ++ [e]) h ↔ ∃ i, s.Live i ∧ (s'.windows i).state = .focused ∧ h = s.handle i)
    (hzero : ∀ i, s.Live i → (s'.windows i).state = .focused → (s.windows i).generation = 0) :
    SysInv (es ++ [e]) s' where
  small i hlt hv := by
    rw [(hs i).1] at hv
    rw [(hs i).2]
    exact hi.small i hlt hv
  nodup := by
    rw [hz]
    exact hi.nodup
  zOrder h := by
    simp only [hz, hi.zOrder, hs.live, hs.handle]
  shown i hl := by
    rw [hs.handle]
    exact hshown i ((hs.live i).1 hl)
  states i hl := hstates i ((hs.live i).1 hl)
  active h := by
    simp only [hactive, hs.live, hs.handle]
  zero i hl hf := by
    rw [(hs i).2]
    exact hzero i ((hs.live i).1 hl) hf

theorem notHidden_other : NotHidden (es ++ [.other]) h ↔ NotHidden es h := by
  rw [notHidden_concat]
  simp

theorem active_other : Active (es ++ [.other]) h ↔ Active es h := by
  rw [active_concat]
  simp

theorem SysInv.idle (hi : SysInv es s) : SysInv (es ++ [.other]) s :=
  hi.edited (fun _ => ⟨rfl, rfl⟩) rfl (fun i hl => (hi.shown i hl).trans notHidden_other.symm) hi.states
    (fun h => active_other.trans (hi.active h)) hi.zero

theorem SysInv.edited_one (hi : SysInv es s) {slot : Nat} {f : WinState → WinState} (hl : s.Live slot)
    (hstate : f (s.windows slot).state = .hidden ∨ f (s.windows slot).state = .visible ∨
      f (s.windows slot).state = .focused)
    (hkeep : f (s.windows slot).state = .focused ↔ (s.windows slot).state = .focused)
    (hshown : f (s.windows slot).state = .visible ↔ NotHidden (es ++ [e]) (s.handle slot))
    (hother : ∀ h, h ≠ s.handle slot → (NotHidden (es ++ [e]) h ↔ NotHidden es h))
    (hactive : ∀ h, Active (es ++ [e]) h ↔ Active es h) :
    SysInv (es ++ [e]) (s.modify slot (fun w => { w with state := f w.state })) := by
  have hfocus : ∀ i, ((s.modify slot (fun w => { w with state := f w.state })).windows i).state = .focused ↔
      (s.windows i).state = .focused := by
    intro i
    by_cases hne : i = slot
    · rw [hne, modify_self]
      exact hkeep
    · rw [modify_ne hne]
  refine hi.edited (sameHandles_modify _ _ (fun _ => rfl) (fun _ => rfl)) rfl (fun i hli => ?_) (fun i hli => ?_)
    (fun h => ?_) (fun i hli hf => hi.zero i hli ((hfocus i).1 hf))
  · by_cases hne : i = slot
    · rw [hne, modify_self]
      exact hshown
    · rw [modify_ne hne, hother _ (fun he => hne (hi.eq_of_handle_eq hli hl he))]
      exact hi.shown i hli
  · by_cases hne : i = slot
    · rw [hne, modify_self]
      exact hstate
    · rw [modify_ne hne]
      exact hi.states i hli
  · simp only [hactive, hi.active, hfocus]

theorem winEdit_none {f : WinState → WinState} {handle : Nat} (hg : windowGet s handle = none) :
    winEdit f handle s = (false, s) := by
  unfold winEdit
  rw [hg]

theorem winEdit_some {f : WinState → WinState} {handle slot : Nat} (hg : windowGet s handle = some slot) :
    winEdit f handle s = (true, s.modify slot (fun w => { w with state := f w.state })) := by
  unfold winEdit
  rw [hg]

theorem sysInv_show (hi : SysInv es s) (handle : Nat) (hf : (Syscall.show handle).Fine s) (fb : Screen) :
    SysInv (es ++ [(Syscall.run fb s (.show handle)).1]) (Syscall.run fb s (.show handle)).2 := by
  show SysInv (es ++ [if (winShow handle s).1 then _ else _]) (winShow handle s).2
  unfold winShow
  cases hg : windowGet s handle with
  | none =>
    rw [winEdit_none hg]
    exact hi.idle
  | some slot =>
    have hbit := hf slot hg
    rw [winEdit_some hg]
    obtain ⟨hl, rfl⟩ := hi.get_iff.1 hg
    -- the window is not marked, so that the state becomes VISIBLE
    have hst : (s.windows slot).state = .hidden ∨ (s.windows slot).state = .visible := by
      rcases hi.states slot hl with hs | hs | hs
      · exact Or.inl hs
      · exact Or.inr hs
      · rw [hs] at hbit
        exact absurd hbit (by decide)
    have hnew : (s.windows slot).state ||| WinState.visible = .visible := by
      rcases hst with hs | hs <;> rw [hs] <;> decide
    refine hi.edited_one (f := fun state => state ||| .visible) hl (Or.inr (Or.inl hnew)) ?_ ?_ (fun h hne => ?_)
      (fun h => ?_)
    · rw [hnew]
      rcases hst with hs | hs
      · rw [hs]
        decide
      · rw [hs]
    · exact ⟨fun _ => notHidden_concat.2 (Or.inr (Or.inl rfl)), fun _ => hnew⟩
    · rw [notHidden_concat]
      simp [Ne.symm hne]
    · rw [active_concat]
      simp

theorem sysInv_hide (hi : SysInv es s) (handle : Nat) (fb : Screen) :
    SysInv (es ++ [(Syscall.run fb s (.hide handle)).1]) (Syscall.run fb s (.hide handle)).2 := by
  show SysInv (es ++ [if (winHide handle s).1 then _ else _]) (winHide handle s).2
  unfold winHide
  cases hg : windowGet s handle with
  | none =>
    rw [winEdit_none hg]
    exact hi.idle
  | some slot =>
    rw [winEdit_some hg]
    obtain ⟨hl, rfl⟩ := hi.get_iff.1 hg
    have hcases := hi.states slot hl
    refine hi.edited_one (f := fun state => state &&& ~~~.visible) hl ?_ ?_ ?_ (fun h hne => ?_) (fun h => ?_)
    · rcases hcases with hs | hs | hs <;> rw [hs] <;> decide
    · rcases hcases with hs | hs | hs <;> rw [hs] <;> decide
    · have hno : ¬NotHidden (es ++ [.hidden (s.handle slot)]) (s.handle slot) := by
        rw [notHidden_concat]
        simp
      refine ⟨fun hv => ?_, fun hv => absurd hv hno⟩
      rcases hcases with hs | hs | hs <;> rw [hs] at hv <;> exact absurd hv (by decide)
    · rw [notHidden_concat]
      simp [Ne.symm hne]
    · rw [active_concat]
      simp

theorem clearFocused_eq (hlt : i < maxWindows) : (clearFocused s).windows i =
    if (s.windows i).valid = true ∧ (s.windows i).generation = 0 then
      { s.windows i with state := (s.windows i).state &&& ~~~.focused } else s.windows i := by
  unfold clearFocused
  dsimp only
  have hiff : (i < maxWindows ∧ windowGet s i = some i) ↔
      (s.windows i).valid = true ∧ (s.windows i).generation = 0 := by
    rw [windowGet_slot hlt]
    simp [hlt]
  simp only [hiff]

theorem sameHandles_clearFocused : SameHandles s (clearFocused s) := by
  intro i
  unfold clearFocused
  dsimp only
  split <;> exact ⟨rfl, rfl⟩

theorem SysInv.state_clearFocused (hi : SysInv es s) (hl : s.Live i) :
    ((clearFocused s).windows i).state = .hidden ∧ (s.windows i).state ≠ .visible ∨
      ((clearFocused s).windows i).state = .visible ∧ (s.windows i).state = .visible := by
  rw [clearFocused_eq hl.1]
  rcases hi.states i hl with hs | hs | hs
  · refine Or.inl ⟨?_, by rw [hs]; decide⟩
    split
    · dsimp only
      rw [hs]
      decide
    · exact hs
  · refine Or.inr ⟨?_, hs⟩
    split
    · dsimp only
      rw [hs]
      decide
    · exact hs
  · refine Or.inl ⟨?_, by rw [hs]; decide⟩
    rw [if_pos ⟨hl.2, hi.zero i hl hs⟩]
    dsimp only
    rw [hs]
    decide

theorem winSetActive_some {handle slot : Nat} (hg : windowGet s handle = some slot) : winSetActive handle s =
    (true, (clearFocused s).modify slot (fun w => { w with state := w.state ||| .focused })) := by
  unfold winSetActive
  rw [hg]

theorem sysInv_setActive (hi : SysInv es s) (handle : Nat) (hf : (Syscall.setActive handle).Fine s) (fb : Screen) :
    SysInv (es ++ [(Syscall.run fb s (.setActive handle)).1]) (Syscall.run fb s (.setActive handle)).2 := by
  show SysInv (es ++ [if (winSetActive handle s).1 then _ else _]) (winSetActive handle s).2
  cases hg : windowGet s handle with
  | none =>
    have hnone : winSetActive handle s = (false, s) := by
      unfold winSetActive
      rw [hg]
    rw [hnone]
    exact hi.idle
  | some slot =>
    obtain ⟨hgen, hbit⟩ := hf slot hg
    rw [winSetActive_some hg]
    obtain ⟨hl, rfl⟩ := hi.get_iff.1 hg
    show SysInv (es ++ [.activated (s.handle slot)])
      ((clearFocused s).modify slot (fun w => { w with state := w.state ||| .focused }))
    have hnotvisible : (s.windows slot).state ≠ .visible := by
      intro hs
      rw [hs] at hbit
      exact absurd hbit (by decide)
    -- of the live windows only `slot` is marked now, and the others are shown as before
    have hself : (((clearFocused s).modify slot (fun w => { w with state := w.state ||| .focused })).windows slot).state
        = .focused := by
      rw [modify_self]
      dsimp only
      rcases hi.state_clearFocused hl with ⟨hs, -⟩ | ⟨-, hs⟩
      · rw [hs]
        decide
      · exact absurd hs hnotvisible
    have hne : ∀ {i}, s.Live i → i ≠ slot →
        (((clearFocused s).modify slot (fun w => { w with state := w.state ||| .focused })).windows i).state = .hidden ∧
          (s.windows i).state ≠ .visible ∨
        (((clearFocused s).modify slot (fun w => { w with state := w.state ||| .focused })).windows i).state = .visible ∧
          (s.windows i).state = .visible := by
      intro i hli hne
      rw [modify_ne hne]
      exact hi.state_clearFocused hli
    have hs1 := sameHandles_modify (s := clearFocused s) slot (fun w => { w with state := w.state ||| .focused })
      (fun _ => rfl) (fun _ => rfl)
    have hs : SameHandles s ((clearFocused s).modify slot (fun w => { w with state := w.state ||| .focused })) :=
      fun i => ⟨(hs1 i).1.trans (sameHandles_clearFocused i).1, (hs1 i).2.trans (sameHandles_clearFocused i).2⟩
    have hnot : ∀ h, NotHidden (es ++ [.activated (s.handle slot)]) h ↔ NotHidden es h := by
      intro h
      rw [notHidden_concat]
      simp
    refine hi.edited hs rfl (fun i hli => ?_) (fun i hli => ?_) (fun h => ?_) (fun i hli hfi => ?_)
    · rw [hnot, ← hi.shown i hli]
      by_cases heq : i = slot
      · rw [heq, hself]
        exact ⟨fun hv => absurd hv (by decide), fun hv => absurd hv hnotvisible⟩
      · rcases hne hli heq with ⟨hs', hold⟩ | ⟨hs', hold⟩
        · rw [hs']
          exact ⟨fun hv => absurd hv (by decide), fun hv => absurd hv hold⟩
        · exact ⟨fun _ => hold, fun _ => hs'⟩
    · by_cases heq : i = slot
      · rw [heq]
        exact Or.inr (Or.inr hself)
      · rcases hne hli heq with ⟨hs', -⟩ | ⟨hs', -⟩
        · exact Or.inl hs'
        · exact Or.inr (Or.inl hs')
    · rw [active_concat]
      constructor
      · rintro (he | ⟨-, -, hno⟩)
        · injection he with he
          exact ⟨slot, hl, hself, he.symm⟩
        · exact absurd rfl (hno _)
      · rintro ⟨i, hli, hfi, rfl⟩
        have heq : i = slot := by
          by_contra heq
          rcases hne hli heq with ⟨hs', -⟩ | ⟨hs', -⟩ <;> rw [hs'] at hfi <;> exact absurd hfi (by decide)
        rw [heq]
        exact Or.inl rfl
    · by_cases heq : i = slot
      · rw [heq]
        exact hgen
      · rcases hne hli heq with ⟨hs', -⟩ | ⟨hs', -⟩ <;> rw [hs'] at hfi <;> exact absurd hfi (by decide)

theorem SysInv.replaced (hi : SysInv es s) {slot : Nat} (hlt : slot < maxWindows)
    (hsame : ∀ i, i ≠ slot → s'.windows i = s.windows i) (hnodup : s'.zOrder.Nodup)
    (hz : ∀ h, h ∈ s'.zOrder ↔ (∃ i, i ≠ slot ∧ s.Live i ∧ h = s.handle i) ∨ s'.Live slot ∧ h = s'.handle slot)
    (hnew : s'.Live slot → (s'.windows slot).generation < 2 ^ 16 ∧ (s'.windows slot).state = .visible ∧
      NotHidden (es ++ [e]) (s'.handle slot))
    (hshown : ∀ i, i ≠ slot → s.Live i → (NotHidden (es ++ [e]) (s.handle i) ↔ NotHidden es (s.handle i)))
    (hactive : ∀ h, Active (es ++ [e]) h ↔
      ∃ i, i ≠ slot ∧ s.Live i ∧ (s.windows i).state = .focused ∧ h = s.handle i) : SysInv (es ++ [e]) s' := by
  have hlive : ∀ {i}, i ≠ slot → (s'.Live i ↔ s.Live i) := fun hne => by
    unfold Manager.Live
    rw [hsame _ hne]
  have hhandle : ∀ {i}, i ≠ slot → s'.handle i = s.handle i := fun hne => by
    unfold Manager.handle
    rw [hsame _ hne]
  have hnofocus : s'.Live slot → (s'.windows slot).state ≠ .focused := fun hl hf => by
    have hv := (hnew hl).2.1
    rw [hf] at hv
    exact absurd hv (by decide)
  refine ⟨fun i hi' hv => ?_, hnodup, fun h => ?_, fun i hl => ?_, fun i hl => ?_, fun h => ?_, fun i hl hf => ?_⟩
  · by_cases hne : i = slot
    · subst hne
      exact (hnew ⟨hi', hv⟩).1
    · rw [hsame i hne] at hv ⊢
      exact hi.small i hi' hv
  · rw [hz]
    constructor
    · rintro (⟨i, hne, hl, rfl⟩ | ⟨hl, rfl⟩)
      · exact ⟨i, (hlive hne).2 hl, (hhandle hne).symm⟩
      · exact ⟨slot, hl, rfl⟩
    · rintro ⟨i, hl, rfl⟩
      by_cases hne : i = slot
      · subst hne
        exact Or.inr ⟨hl, rfl⟩
      · exact Or.inl ⟨i, hne, (hlive hne).1 hl, hhandle hne⟩
  · by_cases hne : i = slot
    · subst hne
      exact ⟨fun _ => (hnew hl).2.2, fun _ => (hnew hl).2.1⟩
    · have hl' := (hlive hne).1 hl
      rw [hsame i hne, hhandle hne, hshown i hne hl']
      exact hi.shown i hl'
  · by_cases hne : i = slot
    · subst hne
      exact Or.inr (Or.inl (hnew hl).2.1)
    · rw [hsame i hne]
      exact hi.states i ((hlive hne).1 hl)
  · rw [hactive]
    constructor
    · rintro ⟨i, hne, hl, hf, rfl⟩
      exact ⟨i, (hlive hne).2 hl, by rw [hsame i hne]; exact hf, (hhandle hne).symm⟩
    · rintro ⟨i, hl, hf, rfl⟩
      have hne : i ≠ slot := by
        rintro rfl
        exact hnofocus hl hf
      rw [hsame i hne] at hf
      exact ⟨i, hne, (hlive hne).1 hl, hf, hhandle hne⟩
  · have hne : i ≠ slot := by
      rintro rfl
      exact hnofocus hl hf
    rw [hsame i hne] at hf ⊢
    exact hi.zero i ((hlive hne).1 hl) hf

theorem notHidden_destroyed {h k : Nat} : NotHidden (es ++ [.destroyed k]) h ↔ NotHidden es h := by
  rw [notHidden_concat]
  simp

theorem active_destroyed {h k : Nat} : Active (es ++ [.destroyed k]) h ↔ Active es h ∧ h ≠ k := by
  rw [active_concat]
  simp [eq_comm]

theorem sysInv_destroy (hi : SysInv es s) (handle : Nat) (fb : Screen) :
    SysInv (es ++ [(Syscall.run fb s (.destroy handle)).1]) (Syscall.run fb s (.destroy handle)).2 := by
  show SysInv (es ++ [.destroyed handle]) (windowDestroy handle s)
  unfold windowDestroy
  cases hg : windowGet s handle with
  | none =>
    refine hi.edited (fun _ => ⟨rfl, rfl⟩) rfl (fun i hl => (hi.shown i hl).trans notHidden_destroyed.symm) hi.states
      (fun h => ?_) hi.zero
    rw [active_destroyed, hi.active]
    refine ⟨fun ha => ha.1, fun ha => ⟨ha, ?_⟩⟩
    rintro rfl
    obtain ⟨i, hl, -, he⟩ := ha
    rw [hi.get_iff.2 ⟨hl, he⟩] at hg
    cases hg
  | some slot =>
    obtain ⟨hl, rfl⟩ := hi.get_iff.1 hg
    dsimp only
    have hdead : ¬((zOrderRemove (s.handle slot) s).modify slot
        (fun w => { w with pixels := false, valid := false, generation := 0 })).Live slot := by
      rintro ⟨-, hv⟩
      rw [modify_self] at hv
      cases hv
    refine hi.replaced hl.1 (fun i hne => modify_ne hne) (hi.nodup.erase _) (fun h => ?_)
      (fun hlive => absurd hlive hdead) (fun _ _ _ => notHidden_destroyed) (fun h => ?_)
    · show h ∈ s.zOrder.erase (s.handle slot) ↔ _
      rw [hi.nodup.mem_erase_iff, hi.zOrder]
      constructor
      · rintro ⟨hne, i, hli, rfl⟩
        exact Or.inl ⟨i, fun he => hne (by rw [he]), hli, rfl⟩
      · rintro (⟨i, hne, hli, rfl⟩ | ⟨hlive, -⟩)
        · exact ⟨fun he => hne (hi.eq_of_handle_eq hli hl he), i, hli, rfl⟩
        · exact absurd hlive hdead
    · rw [active_destroyed, hi.active]
      constructor
      · rintro ⟨⟨i, hli, hf, rfl⟩, hne⟩
        exact ⟨i, fun he => hne (by rw [he]), hli, hf, rfl⟩
      · rintro ⟨i, hne, hli, hf, rfl⟩
        exact ⟨⟨i, hli, hf, rfl⟩, fun he => hne (hi.eq_of_handle_eq hli hl he)⟩

theorem SysInv.room (hi : SysInv es s) {slot : Nat} (hlt : slot < maxWindows)
    (hfree : (s.windows slot).valid = false) : s.zOrder.length < maxWindows := by
  have hid : ∀ i, s.Live i → handleId (s.handle i) = i := fun i hl => handleMake_id hl.1
  refine length_lt_of_slots (hi.nodup.map_on (fun h hh h' hh' heq => ?_)) hlt (fun i hmem => ?_)
  · obtain ⟨j, hj, rfl⟩ := (hi.zOrder h).1 hh
    obtain ⟨j', hj', rfl⟩ := (hi.zOrder h').1 hh'
    rw [hid j hj, hid j' hj'] at heq
    rw [heq]
  · obtain ⟨h, hh, rfl⟩ := List.mem_map.1 hmem
    obtain ⟨j, hj, rfl⟩ := (hi.zOrder h).1 hh
    rw [hid j hj]
    refine ⟨hj.1, ?_⟩
    rintro rfl
    rw [hj.2] at hfree
    cases hfree

theorem sysInv_create (hi : SysInv es s) (w h flags : Nat) (pixels : Bool)
    (hf : (Syscall.create w h flags pixels).Fine s) (fb : Screen) :
    SysInv (es ++ [(Syscall.run fb s (.create w h flags pixels)).1])
      (Syscall.run fb s (.create w h flags pixels)).2 := by
  unfold Syscall.run winCreate
  dsimp only
  generalize (toInt fb.width - toInt w).tdiv 2 = x
  generalize (toInt fb.height - toInt h).tdiv 2 = y
  unfold windowCreate
  cases hslot : windowFindFree s with
  | none => exact hi.idle
  | some slot =>
    obtain ⟨hlt, hfree⟩ := windowFindFree_eq_some hslot
    have hold : ∀ {i}, s.Live i → i ≠ slot := by
      rintro i hl rfl
      have hv := hl.2
      rw [hfree] at hv
      cases hv
    dsimp only
    cases pixels with
    | false =>
      rw [if_pos rfl]
      have hdead : ¬(({ s with nextGeneration := (s.nextGeneration + 1) % 2 ^ 32 } : Manager).modify slot (fun _ =>
          ⟨slot, s.nextGeneration, false, .visible, false, x, y, toInt w, toInt h, flags % 2 ^ 32, false, true⟩)).Live
          slot := by
        rintro ⟨-, hv⟩
        rw [modify_self] at hv
        cases hv
      refine hi.replaced hlt (fun i hne => Function.update_of_ne hne _ _) hi.nodup (fun k => ?_)
        (fun hl => absurd hl hdead) (fun _ _ _ => notHidden_other) (fun k => ?_)
      · show k ∈ s.zOrder ↔ _
        rw [hi.zOrder]
        constructor
        · rintro ⟨i, hl, rfl⟩
          exact Or.inl ⟨i, hold hl, hl, rfl⟩
        · rintro (⟨i, -, hl, rfl⟩ | ⟨hl, -⟩)
          · exact ⟨i, hl, rfl⟩
          · exact absurd hl hdead
      · rw [active_other, hi.active]
        exact ⟨fun ⟨i, hl, ha⟩ => ⟨i, hold hl, hl, ha⟩, fun ⟨i, _, hl, ha⟩ => ⟨i, hl, ha⟩⟩
    | true =>
      have hgen := hf slot hslot rfl
      rw [if_neg (by decide)]
      rw [pushTop_of_room _ (by exact hi.room hlt hfree)]
      have hne : ∀ {i}, s.Live i → s.handle i ≠ handleMake slot s.nextGeneration := by
        intro i hl he
        have h1 := handleMake_id (g := (s.windows i).generation) hl.1
        unfold Manager.handle at he
        rw [he, handleMake_id hlt] at h1
        exact hold hl h1.symm
      generalize hs' : ({ s with
          nextGeneration := (s.nextGeneration + 1) % 2 ^ 32, zOrder := s.zOrder ++ [handleMake slot s.nextGeneration],
          windows := Function.update s.windows slot ⟨slot, s.nextGeneration, true, .visible, false, x, y, toInt w, toInt h,
            flags % 2 ^ 32, true, true⟩ } : Manager) = s'
      have hwin : s'.windows slot = ⟨slot, s.nextGeneration, true, .visible, false, x, y, toInt w, toInt h,
          flags % 2 ^ 32, true, true⟩ := by
        rw [← hs']
        exact Function.update_self _ _ _
      have hzo : s'.zOrder = s.zOrder ++ [handleMake slot s.nextGeneration] := by rw [← hs']
      have hlive : s'.Live slot := ⟨hlt, by rw [hwin]⟩
      have hhandle : s'.handle slot = handleMake slot s.nextGeneration := by
        unfold Manager.handle
        rw [hwin]
      suffices SysInv (es ++ [.created (handleMake slot s.nextGeneration)]) s' by
        rw [← hs'] at this
        exact this
      refine hi.replaced hlt (fun i hi' => ?_) ?_ (fun k => ?_) (fun _ => ⟨?_, ?_, ?_⟩) (fun i _ hl => ?_) (fun k => ?_)
      · rw [← hs']
        exact Function.update_of_ne hi' _ _
      · rw [hzo]
        refine List.nodup_append.2 ⟨hi.nodup, List.nodup_singleton _, fun a ha b hb hab => ?_⟩
        rw [hab, List.mem_singleton.1 hb] at ha
        obtain ⟨i, hl, he⟩ := (hi.zOrder _).1 ha
        exact hne hl he.symm
      · rw [hzo, List.mem_append, List.mem_singleton, hi.zOrder, hhandle]
        constructor
        · rintro (⟨i, hl, rfl⟩ | rfl)
          · exact Or.inl ⟨i, hold hl, hl, rfl⟩
          · exact Or.inr ⟨hlive, rfl⟩
        · rintro (⟨i, -, hl, rfl⟩ | ⟨-, rfl⟩)
          · exact Or.inl ⟨i, hl, rfl⟩
          · exact Or.inr rfl
      · rw [hwin]
        exact hgen
      · rw [hwin]
      · rw [hhandle]
        exact notHidden_concat.2 (Or.inl rfl)
      · rw [notHidden_concat]
        simp [Ne.symm (hne hl)]
      · rw [active_concat, hi.active]
        constructor
        · rintro (he | ⟨⟨i, hl, ha⟩, -⟩)
          · cases he
          · exact ⟨i, hold hl, hl, ha⟩
        · rintro ⟨i, -, hl, ha⟩
          exact Or.inr ⟨⟨i, hl, ha⟩, by simp, by simp⟩

end

theorem sysInv_step {es : List SysEvent} {s : Manager} (fb : Screen) (hi : SysInv es s) (c : Syscall) (hf : c.Fine s) :
    SysInv (es ++ [(Syscall.run fb s c).1]) (Syscall.run fb s c).2 := by
  cases c with
  | create w h flags pixels => exact sysInv_create hi w h flags pixels hf fb
  | destroy handle => exact sysInv_destroy hi handle fb
  | «show» handle => exact sysInv_show hi handle hf fb
  | hide handle => exact sysInv_hide hi handle fb
  | setActive handle => exact sysInv_setActive hi handle hf fb

theorem SyscallsThroughout.left {fb : Screen} {cs ds : List Syscall} (h : SyscallsThroughout fb (cs ++ ds)) :
    SyscallsThroughout fb cs := by
  rintro before after rfl
  obtain ⟨hok, hkeep⟩ := h before (after ++ ds) (by simp)
  refine ⟨hok, ?_⟩
  rintro handle rest rfl
  exact hkeep handle (rest ++ ds) rfl

theorem fine_of_syscallsOk {es : List SysEvent} {s : Manager} (fb : Screen) (hi : SysInv es s) (c : Syscall)
    (hok : SyscallsOk (es ++ [(Syscall.run fb s c).1]) (Syscall.run fb s c).2)
    (hkeep : ∀ handle, c = .setActive handle → ∀ i, s.Displayed i → (winSetActive handle s).2.Displayed i) :
    c.Fine s := by
  cases c with
  | create w h flags pixels =>
    rintro slot hslot rfl
    have hlt := (windowFindFree_eq_some hslot).1
    have hevent : (Syscall.run fb s (.create w h flags true)).1 = .created (handleMake slot s.nextGeneration) := by
      unfold Syscall.run winCreate windowCreate
      rw [hslot]
      rfl
    have hwin : ((Syscall.run fb s (.create w h flags true)).2.windows slot).valid = true ∧
        ((Syscall.run fb s (.create w h flags true)).2.windows slot).generation = s.nextGeneration := by
      unfold Syscall.run winCreate windowCreate
      rw [hslot]
      dsimp only
      unfold zOrderPushTop
      rw [if_neg (by decide)]
      split <;> exact ⟨by rw [modify_self], by rw [modify_self]⟩
    have hz : ∀ k ∈ (Syscall.run fb s (.create w h flags true)).2.zOrder,
        k ∈ s.zOrder ∨ k = handleMake slot s.nextGeneration := by
      unfold Syscall.run winCreate windowCreate
      rw [hslot]
      dsimp only
      unfold zOrderPushTop
      rw [if_neg (by decide)]
      split
      · exact fun k hk => Or.inl hk
      · intro k hk
        simpa using hk
    rw [hevent] at hok
    generalize (Syscall.run fb s (.create w h flags true)).2 = s' at hok hwin hz
    have hhandle : s'.handle slot = handleMake slot s.nextGeneration := by
      unfold Manager.handle
      rw [hwin.2]
    -- the new window is on the screen, so that a handle of 32 bits in the z-order reaches it
    have hd := (hok.displayed slot ⟨hlt, hwin.1⟩).2 (notHidden_concat.2 (Or.inl (by rw [hhandle])))
    obtain ⟨k, hk, hget⟩ := hd.1
    have hgen := (windowGet_eq_some.1 hget).2.2.2
    rw [hwin.2] at hgen
    rw [hgen]
    rcases hz k hk with hk | rfl
    · obtain ⟨i, -, rfl⟩ := (hi.zOrder k).1 hk
      exact handleMake_gen_lt i _
    · exact handleMake_gen_lt slot _
  | destroy handle => exact trivial
  | «show» handle =>
    intro slot hg
    have hrun : Syscall.run fb s (.show handle) =
        (.shown handle, s.modify slot (fun w => { w with state := w.state ||| .visible })) := by
      show (if (winShow handle s).1 then _ else _, (winShow handle s).2) = _
      unfold winShow
      rw [winEdit_some hg]
      rfl
    rw [hrun] at hok
    obtain ⟨hl, rfl⟩ := hi.get_iff.1 hg
    have hs := sameHandles_modify (s := s) slot (fun w => { w with state := w.state ||| .visible }) (fun _ => rfl)
      (fun _ => rfl)
    have hd := (hok.displayed slot ((hs.live slot).2 hl)).2
      (notHidden_concat.2 (Or.inr (Or.inl (by rw [hs.handle]))))
    have hv := hd.2
    rw [modify_self] at hv
    rcases hi.states slot hl with hst | hst | hst
    · rw [hst]
      decide
    · rw [hst]
      decide
    · dsimp only at hv
      rw [hst] at hv
      exact absurd hv (by decide)
  | hide handle => exact trivial
  | setActive handle =>
    intro slot hg
    have hrun : Syscall.run fb s (.setActive handle) = (.activated handle, (winSetActive handle s).2) := by
      show (if (winSetActive handle s).1 then _ else _, (winSetActive handle s).2) = _
      rw [winSetActive_some hg]
      rfl
    have hstays := hkeep handle rfl
    rw [hrun] at hok
    have hactive := (hok.active handle).2 (active_concat.2 (Or.inl rfl))
    rw [winSetActive_some hg] at hactive hstays
    obtain ⟨hl, rfl⟩ := hi.get_iff.1 hg
    obtain ⟨hlive, hgen, hbit⟩ := winGetActive_some hactive
    have hs1 := sameHandles_modify (s := clearFocused s) slot (fun w => { w with state := w.state ||| .focused })
      (fun _ => rfl) (fun _ => rfl)
    rw [(hs1 _).2, (sameHandles_clearFocused _).2] at hgen
    rw [hs1.live, sameHandles_clearFocused.live] at hlive
    -- the number that was found is the handle of its slot
    have hslot : s.handle slot = slot :=
      hi.eq_of_handle_eq hlive hl (handle_zero hlive.1 hgen)
    rw [hslot] at hgen
    refine ⟨hgen, ?_⟩
    by_contra hvis
    have hst : (s.windows slot).state = .visible := by
      rcases hi.states slot hl with hst | hst | hst
      · rw [hst] at hvis
        exact absurd (by decide) hvis
      · exact hst
      · rw [hst] at hvis
        exact absurd (by decide) hvis
    have hv := (hstays slot ((hi.displayed_iff hl).2 hst)).2
    rw [modify_self] at hv
    dsimp only at hv
    rcases hi.state_clearFocused hl with ⟨-, hno⟩ | ⟨hc, -⟩
    · exact hno hst
    · rw [hc] at hv
      exact absurd hv (by decide)

theorem sysInv_run (fb : Screen) {calls : List Syscall}
    (h : Allowed (Syscall.run fb) (fun _ => Syscall.Fine) windowsInit calls) :
    SysInv (run (Syscall.run fb) windowsInit calls).1 (run (Syscall.run fb) windowsInit calls).2 :=
  run_keeps (I := SysInv) (fun _ _ c hi hf => sysInv_step fb hi c hf) sysInv_init calls h

theorem allowed_of_syscallsThroughout (fb : Screen) {calls : List Syscall} (h : SyscallsThroughout fb calls) :
    Allowed (Syscall.run fb) (fun _ => Syscall.Fine) windowsInit calls := by
  induction calls using List.reverseRecOn with
  | nil => exact allowed_nil _
  | append_singleton cs c ih =>
    have hcs := ih h.left
    refine allowed_concat.2 ⟨hcs, ?_⟩
    have hok := (h (cs ++ [c]) [] (by simp)).1
    rw [run_concat] at hok
    refine fine_of_syscallsOk fb (sysInv_run fb hcs) c hok ?_
    rintro handle rfl
    exact (h cs [.setActive handle] rfl).2 handle [] rfl

/-- **The calls and the state agree throughout a run if and only if each call is fine**: no window of 17 bits of
generation is created, no window is made active that is shown or whose handle is not its slot's number, and none is
shown while it is marked active. -/
theorem syscalls_agree_iff (fb : Screen) (calls : List Syscall) :
    SyscallsThroughout fb calls ↔ Allowed (Syscall.run fb) (fun _ => Syscall.Fine) windowsInit calls := by
  constructor
  · exact allowed_of_syscallsThroughout fb
  · rintro h before after rfl
    have hbefore := sysInv_run fb h.left
    refine ⟨hbefore.syscallsOk, ?_⟩
    rintro handle rest rfl i hd
    have hfine := h.last
    generalize (run (Syscall.run fb) windowsInit before).1 = es at *
    generalize (run (Syscall.run fb) windowsInit before).2 = s at *
    cases hg : windowGet s handle with
    | none =>
      unfold winSetActive
      rw [hg]
      exact hd
    | some slot =>
      obtain ⟨⟨k, hk, hget⟩, hst⟩ := hd
      obtain ⟨hl, -⟩ := hbefore.get_iff.1 hget
      have hne : i ≠ slot := by
        rintro rfl
        have hbit := (hfine i hg).2
        rw [hst] at hbit
        exact absurd hbit (by decide)
      rw [winSetActive_some hg]
      have hs1 := sameHandles_modify (s := clearFocused s) slot (fun w => { w with state := w.state ||| .focused })
        (fun _ => rfl) (fun _ => rfl)
      refine ⟨⟨k, hk, (hs1.windowGet k).trans ((sameHandles_clearFocused.windowGet k).trans hget)⟩, ?_⟩
      · dsimp only
        rw [modify_ne hne]
        rcases hbefore.state_clearFocused hl with ⟨-, hno⟩ | ⟨hc, -⟩
        · exact absurd hst hno
        · exact hc

/-- **A window that is made active leaves the screen.** Its state becomes VISIBLE and FOCUSED together. -/
theorem not_syscalls_agree : ¬∀ (fb : Screen) (calls : List Syscall), SyscallsThroughout fb calls := by
  intro hall
  have h := allowed_of_syscallsThroughout ⟨800, 600⟩
    (hall ⟨800, 600⟩ ([.create 100 80 0 true] ++ [.setActive (handleMake 0 1)]))
  exact absurd (h.last 0 (by decide)).1 (by decide)

end Gfx
end AmitX
