import AmitX.Gfx.Syscalls
import Mathlib.Tactic.Linarith
/-!
# Compositor — the windows drawn in the order of the z-order (`compositor.c`), and the window at a point (`window.c`)

`compositor_blit_window` copies a window row by row.  A row that starts left of the screen is shortened before its right
end is compared with the screen's, so that the row of a window that sticks out on both sides runs past the end of the
screen's row, into the next row or out of the buffer.

A buffer is a function of the pixel's number; what `compositor_clear_fb` painted and the windows' pixels are arbitrary.
-/
namespace AmitX
namespace Gfx

abbrev Pixel := BitVec 32

/-- `fb.back` after `fb_init`: `height` rows of `pitch_px` pixels, of which the first `width` are on the screen.  Sizes
are compared as `int`, and a row's first pixel is a number of 32 bits. -/
structure BackBuffer extends Screen where
  pitch : Nat
  width_le : width ≤ pitch
  width_int : width < 2 ^ 31
  height_int : height < 2 ^ 31
  size : height * pitch ≤ 2 ^ 32

/-- The arguments of a `memcpy`, in pixels. -/
structure RowCopy where
  dst : Int
  src : Int
  len : Int

def memcpy (surface : Int → Pixel) (c : RowCopy) (back : Int → Pixel) : Int → Pixel := fun i =>
  if c.dst ≤ i ∧ i < c.dst + c.len then surface (c.src + (i - c.dst)) else back i

/-- The copy of one row; `none` for a row that is skipped. -/
def blitRow (fb : BackBuffer) (win : Win) (row : Nat) : Option RowCopy :=
  let fbY := win.y + row
  if fbY < 0 ∨ fb.height ≤ fbY then none
  else
    let src := row * win.width
    let dst := fbY * fb.pitch + win.x
    let clipped := if win.x < 0 then (src + -win.x, dst + -win.x, win.width + win.x) else (src, dst, win.width)
    let copyW := if win.x + clipped.2.2 > fb.width then fb.width - win.x else clipped.2.2
    if copyW ≤ 0 then none else some ⟨clipped.2.1, clipped.1, copyW⟩

def blitRows (fb : BackBuffer) (surface : Int → Pixel) (win : Win) (rows : Nat) (back : Int → Pixel) : Int → Pixel :=
  (List.range rows).foldl (fun back row =>
    match blitRow fb win row with
    | none => back
    | some c => memcpy surface c back) back

def compositorBlitWindow (fb : BackBuffer) (surface : Int → Pixel) (win : Win) (back : Int → Pixel) : Int → Pixel :=
  if win.valid = false ∨ win.pixels = false then back
  else if win.state ≠ .visible then back
  else if win.dirty = false then back
  else blitRows fb surface win win.height.toNat back

/-- The loop of `compositor_render`; `none` for a handle without a window, whose pointer is NULL. -/
def renderStack (fb : BackBuffer) (surfaces : Nat → Int → Pixel) (s : Manager) :
    List Nat → (Int → Pixel) → Option (Int → Pixel)
  | [], back => some back
  | h :: hs, back =>
    match windowGet s h with
    | none => none
    | some slot =>
      renderStack fb surfaces s hs
        (if (s.windows slot).dirty = true then compositorBlitWindow fb (surfaces slot) (s.windows slot) back else back)

/-- The back buffer after `compositor_render`, from what `compositor_clear_fb` painted. -/
def compositorRender (fb : BackBuffer) (surfaces : Nat → Int → Pixel) (desktop : Int → Pixel) (s : Manager) :
    Option (Int → Pixel) := renderStack fb surfaces s s.zOrder desktop

def Win.Covers (win : Win) (x y : Int) : Prop :=
  win.state = .visible ∧ win.x ≤ x ∧ x < win.x + win.width ∧ win.y ≤ y ∧ y < win.y + win.height

instance (win : Win) (x y : Int) : Decidable (win.Covers x y) := inferInstanceAs (Decidable (_ ∧ _ ∧ _ ∧ _ ∧ _))

/-- `none` for `WIN_INVALID`. -/
def windowAt (x y : Int) (s : Manager) : Option Nat :=
  s.zOrder.reverse.find? (fun h =>
    match windowGet s h with
    | none => false
    | some slot => decide ((s.windows slot).Covers x y))

/-! ## What is shown -/

def BackBuffer.index (fb : BackBuffer) (x y : Int) : Int := y * fb.pitch + x

def BackBuffer.Has (fb : BackBuffer) (x y : Int) : Prop := 0 ≤ x ∧ x < fb.width ∧ 0 ≤ y ∧ y < fb.height

def Manager.CoveredBy (s : Manager) (h : Nat) (x y : Int) : Prop :=
  ∃ slot, windowGet s h = some slot ∧ (s.windows slot).Covers x y

def Manager.Topmost (s : Manager) (h : Nat) (x y : Int) : Prop :=
  ∃ below above, s.zOrder = below ++ h :: above ∧ s.CoveredBy h x y ∧ ∀ k ∈ above, ¬s.CoveredBy k x y

/-- A window that a caller can have: with its pixels, marked dirty from its creation on, and of the given sizes. -/
structure Win.Sized (win : Win) : Prop where
  pixels : win.pixels = true
  dirty : win.dirty = true
  x : |win.x| < 2 ^ 15
  y : |win.y| < 2 ^ 15
  width : 1 ≤ win.width ∧ win.width ≤ 2 ^ 15
  height : 1 ≤ win.height ∧ win.height ≤ 2 ^ 15

def Manager.Stacked (s : Manager) : Prop := ∀ h ∈ s.zOrder, ∃ slot, windowGet s h = some slot ∧ (s.windows slot).Sized

def RowCopy.Inside (c : RowCopy) (fb : BackBuffer) (win : Win) : Prop :=
  (0 ≤ c.dst ∧ c.dst + c.len ≤ fb.height * fb.pitch) ∧ 0 ≤ c.src ∧ c.src + c.len ≤ win.height * win.width

/-- **What is shown is what is hit.** -/
structure ShownIsHit (fb : BackBuffer) (s : Manager) : Prop where
  inside : ∀ h ∈ s.zOrder, ∀ slot, windowGet s h = some slot → (s.windows slot).state = .visible →
    ∀ row < (s.windows slot).height.toNat, ∀ c, blitRow fb (s.windows slot) row = some c →
      c.Inside fb (s.windows slot)
  shown : ∀ surfaces desktop, ∃ back, compositorRender fb surfaces desktop s = some back ∧ ∀ x y, fb.Has x y →
    (∀ h, s.Topmost h x y → ∃ slot, windowGet s h = some slot ∧ back (fb.index x y) =
      surfaces slot ((y - (s.windows slot).y) * (s.windows slot).width + (x - (s.windows slot).x))) ∧
    ((∀ h ∈ s.zOrder, ¬s.CoveredBy h x y) → back (fb.index x y) = desktop (fb.index x y))
  hit : ∀ x y h, windowAt x y s = some h ↔ s.Topmost h x y

/-- Where a visible window sticks out on both sides, each pixel from the end of a row of the screen to where its row of
the window ends, or to as far right of the screen as the window starts left of it, is in the buffer, and on the screen
only where this window or one above it is. -/
def SpillsCovered (fb : BackBuffer) (s : Manager) : Prop :=
  ∀ below h above slot, s.zOrder = below ++ h :: above → windowGet s h = some slot →
    (s.windows slot).state = .visible → (s.windows slot).x < 0 →
    ∀ y : Int, 0 ≤ y → y < fb.height → (s.windows slot).y ≤ y → y < (s.windows slot).y + (s.windows slot).height →
      ∀ x : Int, fb.width ≤ x → x < (s.windows slot).x + (s.windows slot).width → x < fb.width - (s.windows slot).x →
        fb.index x y < fb.height * fb.pitch ∧
        ∀ x' y', fb.Has x' y' → fb.index x' y' = fb.index x y → ∃ k ∈ h :: above, s.CoveredBy k x' y'

/-! ## Rows -/

section

variable {fb : BackBuffer} {win : Win} {s : Manager} {x y x' y' : Int} {h slot : Nat}

theorem row_le (h : y < y') : y * fb.pitch + fb.pitch ≤ y' * fb.pitch := by
  have hle : (y + 1) * (fb.pitch : Int) ≤ y' * fb.pitch := Int.mul_le_mul_of_nonneg_right h (Int.natCast_nonneg _)
  rw [Int.add_mul, Int.one_mul] at hle
  exact hle

theorem index_injective (hx : 0 ≤ x ∧ x < fb.width) (hx' : 0 ≤ x' ∧ x' < fb.width)
    (heq : fb.index x y = fb.index x' y') : x = x' ∧ y = y' := by
  have hw := fb.width_le
  unfold BackBuffer.index at heq
  have hy : y = y' := by
    rcases lt_trichotomy y y' with hlt | heq | hlt
    · have := @row_le fb _ _ hlt
      omega
    · exact heq
    · have := @row_le fb _ _ hlt
      omega
  subst hy
  exact ⟨by omega, rfl⟩

def Win.reach (fb : BackBuffer) (win : Win) : Int := min (win.width + min win.x 0) (fb.width - win.x)

theorem blitRow_eq_some {row : Nat} {c : RowCopy} : blitRow fb win row = some c ↔
    (0 ≤ win.y + row ∧ win.y + row < fb.height) ∧ 0 < win.reach fb ∧
      c = ⟨fb.index (max win.x 0) (win.y + row), row * win.width + max (-win.x) 0, win.reach fb⟩ := by
  unfold blitRow
  dsimp only
  split
  · rename_i hout
    simp only [reduceCtorEq, false_iff]
    rintro ⟨hin, -⟩
    omega
  rename_i hin
  have hclip : (if win.x < 0 then (row * win.width + -win.x, (win.y + row) * (fb.pitch : Int) + win.x + -win.x,
        win.width + win.x) else (row * win.width, (win.y + row) * (fb.pitch : Int) + win.x, win.width)) =
      (row * win.width + max (-win.x) 0, fb.index (max win.x 0) (win.y + row), win.width + min win.x 0) := by
    unfold BackBuffer.index
    split <;> ext <;> dsimp only <;> omega
  rw [hclip]
  dsimp only
  have hreach : (if win.x + (win.width + min win.x 0) > fb.width then fb.width - win.x else win.width + min win.x 0) =
      win.reach fb := by
    unfold Win.reach
    split <;> omega
  rw [hreach]
  split
  · rename_i hno
    simp only [reduceCtorEq, false_iff]
    rintro ⟨-, hpos, -⟩
    omega
  · rename_i hpos
    constructor
    · intro heq
      injection heq with heq
      exact ⟨by omega, by omega, heq.symm⟩
    · rintro ⟨-, -, rfl⟩
      rfl

def Win.Writes (fb : BackBuffer) (win : Win) (row : Nat) (i : Int) : Prop :=
  ∃ c, blitRow fb win row = some c ∧ c.dst ≤ i ∧ i < c.dst + c.len

theorem blitRows_succ (surface back : Int → Pixel) (rows : Nat) : blitRows fb surface win (rows + 1) back =
    match blitRow fb win rows with
    | none => blitRows fb surface win rows back
    | some c => memcpy surface c (blitRows fb surface win rows back) := by
  unfold blitRows
  rw [List.range_succ, List.foldl_append]
  rfl

theorem blitRows_of_writes {surface back : Int → Pixel} {rows : Nat} {i : Int} {c : RowCopy}
    (hc : blitRow fb win rows = some c) (hi : c.dst ≤ i ∧ i < c.dst + c.len) :
    blitRows fb surface win (rows + 1) back i = surface (c.src + (i - c.dst)) := by
  rw [blitRows_succ, hc]
  exact if_pos hi

theorem blitRows_of_not_writes {surface back : Int → Pixel} {rows : Nat} {i : Int} (h : ¬win.Writes fb rows i) :
    blitRows fb surface win (rows + 1) back i = blitRows fb surface win rows back i := by
  rw [blitRows_succ]
  cases hc : blitRow fb win rows with
  | none => rfl
  | some c => exact if_neg (fun hi => h ⟨c, hc, hi⟩)

theorem blitRows_unchanged {surface back : Int → Pixel} {i : Int} :
    ∀ {rows : Nat}, (∀ row < rows, ¬win.Writes fb row i) → blitRows fb surface win rows back i = back i
  | 0, _ => rfl
  | rows + 1, h => by
    rw [blitRows_of_not_writes (h rows (by omega)), blitRows_unchanged (fun row hr => h row (by omega))]

theorem blitRows_colour {surface back : Int → Pixel} {colour : Pixel} (hs : ∀ i, surface i = colour) {i : Int} :
    ∀ {rows : Nat}, (∃ row < rows, win.Writes fb row i) ∨ back i = colour →
      blitRows fb surface win rows back i = colour
  | 0, h => h.resolve_left (fun ⟨_, hr, _⟩ => absurd hr (by omega))
  | rows + 1, h => by
    by_cases hw : win.Writes fb rows i
    · obtain ⟨c, hc, hi⟩ := hw
      rw [blitRows_of_writes hc hi, hs]
    · rw [blitRows_of_not_writes hw]
      refine blitRows_colour hs (h.imp_left (fun ⟨row, hr, hrow⟩ => ⟨row, ?_, hrow⟩))
      have hne : row ≠ rows := by
        rintro rfl
        exact hw hrow
      omega

theorem not_writes_above {row : Nat} (hx : x < fb.width) (hy : y < win.y + row) : ¬win.Writes fb row (fb.index x y) := by
  rintro ⟨c, hc, hlo, -⟩
  obtain ⟨-, -, rfl⟩ := blitRow_eq_some.1 hc
  have hrow := @row_le fb _ _ hy
  have hw := fb.width_le
  unfold BackBuffer.index at hlo
  dsimp only at hlo
  omega

theorem blitRows_covers {surface back : Int → Pixel} (hp : fb.Has x y) (hc : win.Covers x y) {rows : Nat}
    (hrows : y - win.y < rows) :
    blitRows fb surface win rows back (fb.index x y) = surface ((y - win.y) * win.width + (x - win.x)) := by
  obtain ⟨hx0, hx1, hy0, hy1⟩ := hp
  obtain ⟨-, hcx0, hcx1, hcy0, hcy1⟩ := hc
  obtain ⟨row, hrow⟩ := Int.eq_ofNat_of_zero_le (by omega : 0 ≤ y - win.y)
  have hy : win.y + row = y := by omega
  have hreach : x - max win.x 0 < win.reach fb := by
    unfold Win.reach
    omega
  have hsome : blitRow fb win row =
      some ⟨fb.index (max win.x 0) (win.y + row), row * win.width + max (-win.x) 0, win.reach fb⟩ :=
    blitRow_eq_some.2 ⟨by omega, by omega, rfl⟩
  induction rows with
  | zero => omega
  | succ rows ih =>
    by_cases hlast : rows = row
    · subst hlast
      rw [blitRows_of_writes hsome ⟨?_, ?_⟩]
      · rw [hy, hrow]
        unfold BackBuffer.index
        dsimp only
        congr 1
        omega
      · rw [hy]
        unfold BackBuffer.index
        dsimp only
        omega
      · rw [hy]
        unfold BackBuffer.index
        dsimp only
        omega
    · have hlt : row < rows := by omega
      rw [blitRows_of_not_writes (not_writes_above hx1 (by omega))]
      exact ih (by omega)

/-- **A pixel that a row writes beside its window** lies from the end of the row on, and the window sticks out on both
sides. -/
theorem writes_beside {row : Nat} (hw : win.Writes fb row (fb.index x y)) (hp : fb.Has x y)
    (hrow : row < win.height.toNat) (hv : win.state = .visible) (hno : ¬win.Covers x y) :
    win.x < 0 ∧ ∃ x' : Int, fb.width ≤ x' ∧ x' < win.x + win.width ∧ x' < fb.width - win.x ∧
      fb.index x y = fb.index x' (win.y + row) := by
  obtain ⟨c, hc, hlo, hhi⟩ := hw
  obtain ⟨hy, -, rfl⟩ := blitRow_eq_some.1 hc
  dsimp only at hlo hhi
  have hidx : ∀ x', fb.index x' (win.y + row) = (win.y + row) * fb.pitch + x' := fun _ => rfl
  obtain ⟨x', hx'⟩ : ∃ x', fb.index x y = fb.index x' (win.y + row) :=
    ⟨fb.index x y - (win.y + row) * fb.pitch, by rw [hidx]; omega⟩
  rw [hx', hidx, hidx] at hlo hhi
  have hbound : x' < win.x + win.width ∧ x' < max win.x 0 + (fb.width - win.x) := by
    unfold Win.reach at hhi
    omega
  have hend : fb.width ≤ x' := by
    by_contra hlt
    obtain ⟨rfl, rfl⟩ := index_injective ⟨hp.1, hp.2.1⟩ ⟨by omega, by omega⟩ hx'
    exact hno ⟨hv, by omega, by omega, by omega, by omega⟩
  exact ⟨by omega, x', hend, hbound.1, by omega, hx'⟩

end

/-! ## Stacks -/

section

variable {fb : BackBuffer} {surfaces : Nat → Int → Pixel} {desktop : Int → Pixel} {s : Manager} {x y : Int} {h slot : Nat}

def blitHandle (fb : BackBuffer) (surfaces : Nat → Int → Pixel) (s : Manager) (back : Int → Pixel) (h : Nat) :
    Int → Pixel :=
  match windowGet s h with
  | none => back
  | some slot =>
    if (s.windows slot).state = .visible then
      blitRows fb (surfaces slot) (s.windows slot) (s.windows slot).height.toNat back
    else back

theorem blitHandle_eq {back : Int → Pixel} (hg : windowGet s h = some slot) : blitHandle fb surfaces s back h =
    if (s.windows slot).state = .visible then
      blitRows fb (surfaces slot) (s.windows slot) (s.windows slot).height.toNat back
    else back := by
  unfold blitHandle
  rw [hg]

theorem renderStack_eq : ∀ {l : List Nat} {back : Int → Pixel},
    (∀ h ∈ l, ∃ slot, windowGet s h = some slot ∧ (s.windows slot).Sized) →
    renderStack fb surfaces s l back = some (l.foldl (blitHandle fb surfaces s) back)
  | [], _, _ => rfl
  | h :: l, back, hl => by
    obtain ⟨slot, hg, hsized⟩ := hl h List.mem_cons_self
    have hvalid := (windowGet_eq_some.1 hg).2.2.1
    unfold renderStack
    rw [hg]
    dsimp only
    have hblit : compositorBlitWindow fb (surfaces slot) (s.windows slot) back = blitHandle fb surfaces s back h := by
      rw [blitHandle_eq hg]
      unfold compositorBlitWindow
      rw [if_neg (by simp [hvalid, hsized.pixels])]
      by_cases hv : (s.windows slot).state = .visible
      · rw [if_neg (not_not.2 hv), if_neg (by simp [hsized.dirty]), if_pos hv]
      · rw [if_pos hv, if_neg hv]
    rw [if_pos hsized.dirty, hblit, renderStack_eq (fun k hk => hl k (List.mem_cons_of_mem _ hk)), List.foldl_cons]

theorem compositorRender_eq (hs : s.Stacked) : compositorRender fb surfaces desktop s =
    some (s.zOrder.foldl (blitHandle fb surfaces s) desktop) :=
  renderStack_eq hs

/-- The test of `window_at`. -/
def coversHandle (s : Manager) (x y : Int) (h : Nat) : Bool :=
  match windowGet s h with
  | none => false
  | some slot => decide ((s.windows slot).Covers x y)

theorem coversHandle_iff : coversHandle s x y h = true ↔ s.CoveredBy h x y := by
  unfold coversHandle Manager.CoveredBy
  cases hg : windowGet s h with
  | none => simp
  | some slot => simp

theorem windowAt_eq_some : windowAt x y s = some h ↔ s.Topmost h x y := by
  show s.zOrder.reverse.find? (coversHandle s x y) = some h ↔ _
  rw [List.find?_eq_some_iff_append]
  constructor
  · rintro ⟨hcov, above, below, heq, habove⟩
    refine ⟨below.reverse, above.reverse, ?_, coversHandle_iff.1 hcov, fun k hk hck => ?_⟩
    · rw [← List.reverse_reverse s.zOrder, heq]
      simp
    · have hno := habove k (List.mem_reverse.1 hk)
      rw [coversHandle_iff.2 hck] at hno
      cases hno
  · rintro ⟨below, above, heq, hcov, habove⟩
    refine ⟨coversHandle_iff.2 hcov, above.reverse, below.reverse, by simp [heq], fun k hk => ?_⟩
    have hno := habove k (List.mem_reverse.1 hk)
    rw [← coversHandle_iff, Bool.not_eq_true] at hno
    rw [hno]
    rfl

theorem windowAt_eq_none : windowAt x y s = none ↔ ∀ h ∈ s.zOrder, ¬s.CoveredBy h x y := by
  show s.zOrder.reverse.find? (coversHandle s x y) = none ↔ _
  rw [List.find?_eq_none]
  simp only [List.mem_reverse, coversHandle_iff]

def pixelOf (fb : BackBuffer) (surfaces : Nat → Int → Pixel) (desktop : Int → Pixel) (s : Manager) (x y : Int) :
    Option Nat → Pixel
  | none => desktop (fb.index x y)
  | some h =>
    match windowGet s h with
    | none => desktop (fb.index x y)
    | some slot => surfaces slot ((y - (s.windows slot).y) * (s.windows slot).width + (x - (s.windows slot).x))

theorem foldl_blitHandle (hs : s.Stacked) (hsp : SpillsCovered fb s) (hp : fb.Has x y) {above : List Nat} :
    ∀ {below : List Nat}, s.zOrder = below ++ above → (∀ k ∈ above, ¬s.CoveredBy k x y) →
      below.foldl (blitHandle fb surfaces s) desktop (fb.index x y) =
        pixelOf fb surfaces desktop s x y (below.reverse.find? (coversHandle s x y)) := by
  intro below
  induction below using List.reverseRecOn generalizing above with
  | nil => exact fun _ _ => rfl
  | append_singleton below h ih =>
    intro hz habove
    obtain ⟨slot, hg, hsized⟩ := hs h (by rw [hz]; simp)
    rw [List.foldl_append, List.foldl_cons, List.foldl_nil, List.reverse_concat, List.find?_cons, blitHandle_eq hg]
    by_cases hcov : (s.windows slot).Covers x y
    · -- the window's own pixel is drawn
      rw [coversHandle_iff.2 ⟨slot, hg, hcov⟩, if_pos hcov.1, blitRows_covers hp hcov ?_]
      · unfold pixelOf
        dsimp only
        rw [hg]
      · have := hcov.2.2.2.1
        have := hcov.2.2.2.2
        omega
    · -- the window draws nothing there: what it spills lies under a window above it
      have hnot : ¬s.CoveredBy h x y := by
        rintro ⟨slot', hg', hc⟩
        rw [hg] at hg'
        injection hg' with hg'
        subst hg'
        exact hcov hc
      have hz' : s.zOrder = below ++ h :: above := by rw [hz]; simp
      have habove' : ∀ k ∈ h :: above, ¬s.CoveredBy k x y := by
        intro k hk
        rcases List.mem_cons.1 hk with rfl | hk
        · exact hnot
        · exact habove k hk
      rw [Bool.eq_false_iff.2 (fun hc => hnot (coversHandle_iff.1 hc)), ← ih hz' habove']
      split
      · rename_i hv
        refine blitRows_unchanged (fun row hr hw => ?_)
        obtain ⟨hx, x', hx1, hx2, hx3, hidx⟩ := writes_beside hw hp hr hv hcov
        obtain ⟨c, hc, -⟩ := hw
        obtain ⟨hy, -⟩ := blitRow_eq_some.1 hc
        obtain ⟨k, hk, hck⟩ := (hsp below h above slot hz' hg hv hx _ hy.1 hy.2 (by omega) (by omega) x' hx1 hx2 hx3).2
          x y hp hidx
        exact habove' k hk hck
      · rfl

theorem foldl_blitHandle_colour {colour : Pixel} {i : Int} : ∀ {l : List Nat} {back : Int → Pixel},
    (∀ h ∈ l, ∀ slot, windowGet s h = some slot → ∀ j, surfaces slot j = colour) → back i = colour →
    l.foldl (blitHandle fb surfaces s) back i = colour
  | [], _, _, hb => hb
  | h :: l, back, hl, hb => by
    rw [List.foldl_cons]
    refine foldl_blitHandle_colour (fun k hk => hl k (List.mem_cons_of_mem _ hk)) ?_
    unfold blitHandle
    cases hg : windowGet s h with
    | none => exact hb
    | some slot =>
      dsimp only
      split
      · exact blitRows_colour (hl h List.mem_cons_self slot hg) (Or.inr hb)
      · exact hb

end

/-! ## The screen -/

section

variable {fb : BackBuffer} {s : Manager} {h slot : Nat}

theorem src_inside {win : Win} {row : Nat} (hrow : row < win.height.toNat) (hpos : 0 < win.reach fb) :
    0 ≤ row * win.width + max (-win.x) 0 ∧
      row * win.width + max (-win.x) 0 + win.reach fb ≤ win.height * win.width := by
  have hreach : max (-win.x) 0 + win.reach fb ≤ win.width ∧ 0 < win.width := by
    unfold Win.reach at hpos ⊢
    omega
  have hlast : ((row : Int) + 1) * win.width ≤ win.height * win.width :=
    Int.mul_le_mul_of_nonneg_right (by omega) (by omega)
  have hfirst : 0 ≤ (row : Int) * win.width := Int.mul_nonneg (by omega) (by omega)
  rw [Int.add_mul, Int.one_mul] at hlast
  omega

theorem row_inside {y : Int} (hy : y < fb.height) : y * fb.pitch + fb.pitch ≤ fb.height * fb.pitch := row_le hy

theorem inside_of_spillsCovered (hsp : SpillsCovered fb s) (hz : h ∈ s.zOrder) (hg : windowGet s h = some slot)
    (hv : (s.windows slot).state = .visible) {row : Nat} (hrow : row < (s.windows slot).height.toNat) {c : RowCopy}
    (hc : blitRow fb (s.windows slot) row = some c) : c.Inside fb (s.windows slot) := by
  obtain ⟨below, above, hz⟩ := List.append_of_mem hz
  obtain ⟨hy, hpos, rfl⟩ := blitRow_eq_some.1 hc
  have hend := row_inside hy.2
  have hw := fb.width_le
  have hstart : 0 ≤ ((s.windows slot).y + row) * (fb.pitch : Int) := Int.mul_nonneg hy.1 (Int.natCast_nonneg _)
  refine ⟨⟨?_, ?_⟩, src_inside hrow hpos⟩
  · unfold BackBuffer.index
    dsimp only
    omega
  · dsimp only
    by_cases hspill : (s.windows slot).x < 0 ∧ fb.width < (s.windows slot).reach fb
    · have hreach := hspill.2
      unfold Win.reach at hreach
      have hlast := (hsp below h above slot hz hg hv hspill.1 _ hy.1 hy.2 (by omega) (by omega)
        ((s.windows slot).reach fb - 1) (by omega) (by unfold Win.reach; omega) (by unfold Win.reach; omega)).1
      unfold BackBuffer.index at hlast ⊢
      omega
    · unfold Win.reach at hspill ⊢
      unfold BackBuffer.index
      omega

theorem spillsCovered_of_shownIsHit (hs : s.Stacked) (hok : ShownIsHit fb s) : SpillsCovered fb s := by
  intro below h above slot hz hg hv hx y hy0 hy1 hyw0 hyw1 x hx1 hx2 hx3
  obtain ⟨row, hrow⟩ := Int.eq_ofNat_of_zero_le (by omega : 0 ≤ y - (s.windows slot).y)
  have hy : (s.windows slot).y + row = y := by omega
  have hreach : x < (s.windows slot).reach fb ∧ max (s.windows slot).x 0 = 0 := by
    unfold Win.reach
    omega
  have hsome := (@blitRow_eq_some fb (s.windows slot) row _).2 ⟨by omega, by omega, rfl⟩
  rw [hy, hreach.2] at hsome
  constructor
  · have hin := (hok.inside h (by rw [hz]; simp) slot hg hv row (by omega) _ hsome).1.2
    unfold BackBuffer.index at hin ⊢
    dsimp only at hin
    omega
  · intro x' y' hp hidx
    by_contra hno
    push Not at hno
    -- the windows that have the point are black on a black screen, and the others white
    obtain ⟨back, hback, hpix⟩ := hok.shown (fun k _ => if (s.windows k).Covers x' y' then 0 else 1) (fun _ => 0)
    have hzero : back (fb.index x' y') = 0 := by
      cases hat : windowAt x' y' s with
      | none => exact (hpix x' y' hp).2 (windowAt_eq_none.1 hat)
      | some k =>
        obtain ⟨below', above', hz', ⟨j, hj, hcov⟩, hab⟩ := windowAt_eq_some.1 hat
        obtain ⟨slot', hg', hval⟩ := (hpix x' y' hp).1 k ⟨below', above', hz', ⟨j, hj, hcov⟩, hab⟩
        rw [hj] at hg'
        injection hg' with hg'
        subst hg'
        rw [hval, if_pos hcov]
    have hone : back (fb.index x' y') = 1 := by
      rw [compositorRender_eq hs] at hback
      injection hback with hback
      rw [← hback, hz, List.foldl_append, List.foldl_cons]
      have hwhite : ∀ k ∈ h :: above, ∀ j, windowGet s k = some j → ¬(s.windows j).Covers x' y' :=
        fun k hk j hj hc => hno k hk ⟨j, hj, hc⟩
      refine foldl_blitHandle_colour
        (fun k hk j hj _ => if_neg (hwhite k (List.mem_cons_of_mem _ hk) j hj)) ?_
      rw [blitHandle_eq hg, if_pos hv]
      refine blitRows_colour (fun _ => if_neg (hwhite h List.mem_cons_self slot hg))
        (Or.inl ⟨row, by omega, _, hsome, ?_, ?_⟩)
      · rw [hidx]
        unfold BackBuffer.index
        dsimp only
        have := fb.width_le
        omega
      · rw [hidx]
        unfold BackBuffer.index
        dsimp only
        omega
    rw [hzero] at hone
    exact absurd hone (by decide)

end

/-- **What is shown is what is hit if and only if whatever a window spills lies under it or a window above it.** -/
theorem shown_is_hit_iff {fb : BackBuffer} {s : Manager} (hs : s.Stacked) : ShownIsHit fb s ↔ SpillsCovered fb s := by
  refine ⟨spillsCovered_of_shownIsHit hs, fun hsp => ⟨?_, fun surfaces desktop => ?_, fun x y h => windowAt_eq_some⟩⟩
  · exact fun h hz slot hg hv row hrow c hc => inside_of_spillsCovered hsp hz hg hv hrow hc
  · refine ⟨_, compositorRender_eq hs, fun x y hp => ?_⟩
    have hpix := @foldl_blitHandle fb surfaces desktop s _ _ hs hsp hp _ _ (List.append_nil _).symm
      (fun k hk => absurd hk List.not_mem_nil)
    have hat : s.zOrder.reverse.find? (coversHandle s x y) = windowAt x y s := rfl
    rw [hat] at hpix
    refine ⟨fun h htop => ?_, fun hno => ?_⟩
    · rw [windowAt_eq_some.2 htop] at hpix
      obtain ⟨below, above, hz, ⟨slot, hg, -⟩, -⟩ := htop
      refine ⟨slot, hg, hpix.trans ?_⟩
      unfold pixelOf
      dsimp only
      rw [hg]
    · rw [windowAt_eq_none.2 hno] at hpix
      exact hpix

def smallBack : BackBuffer := ⟨⟨4, 2⟩, 4, by decide, by decide, by decide, by decide⟩

def oneWindow (x y w h : Int) : Manager := (windowCreate x y w h 0 true windowsInit).2

theorem oneWindow_zOrder (x y w h : Int) : (oneWindow x y w h).zOrder = [handleMake 0 1] := by rfl

theorem oneWindow_get (x y w h : Int) : windowGet (oneWindow x y w h) (handleMake 0 1) = some 0 := by rfl

theorem oneWindow_window (x y w h : Int) :
    (oneWindow x y w h).windows 0 = ⟨0, 1, true, .visible, false, x, y, w, h, 0, true, true⟩ := by rfl

theorem stacked_oneWindow {x y w h : Int} (hx : |x| < 2 ^ 15) (hy : |y| < 2 ^ 15) (hw : 1 ≤ w ∧ w ≤ 2 ^ 15)
    (hh : 1 ≤ h ∧ h ≤ 2 ^ 15) : (oneWindow x y w h).Stacked := by
  intro k hk
  rw [oneWindow_zOrder, List.mem_singleton] at hk
  subst hk
  refine ⟨0, oneWindow_get x y w h, ?_⟩
  rw [oneWindow_window]
  exact ⟨rfl, rfl, hx, hy, hw, hh⟩

/-- A window that sticks out on the left only. -/
theorem shown_is_hit_small : ShownIsHit smallBack (oneWindow (-1) 0 3 2) := by
  refine (shown_is_hit_iff (stacked_oneWindow (by decide) (by decide) (by decide) (by decide))).2 ?_
  intro below h above slot hz hg hv hx y hy0 hy1 hyw0 hyw1 x hx1 hx2 hx3
  have hmem : h ∈ (oneWindow (-1) 0 3 2).zOrder := by rw [hz]; simp
  rw [oneWindow_zOrder, List.mem_singleton] at hmem
  subst hmem
  rw [oneWindow_get] at hg
  injection hg with hg
  subst hg
  rw [oneWindow_window] at hx2
  have hfour : (smallBack.width : Int) = 4 := rfl
  dsimp only at hx2
  omega

/-- **A window that sticks out on both sides** writes past the end of its last row. -/
theorem not_shown_is_hit : ¬∀ (fb : BackBuffer) (s : Manager), s.Stacked → ShownIsHit fb s := by
  intro hall
  have hs : (oneWindow (-1) 1 6 1).Stacked := stacked_oneWindow (by decide) (by decide) (by decide) (by decide)
  have hsp := spillsCovered_of_shownIsHit hs (hall smallBack _ hs)
  have hlast := (hsp [] (handleMake 0 1) [] 0 (oneWindow_zOrder _ _ _ _) (oneWindow_get _ _ _ _) rfl (by decide)
    1 (by decide) (by decide) (by decide) (by decide) 4 (by decide) (by decide) (by decide)).1
  exact absurd hlast (by decide)

end Gfx
end AmitX
