import AmitX.Gfx.FillRect
import AmitX.Lib.Bytes
import AmitX.Lib.Stores
/-!
# Present — packing a pixel and copying the back buffer to the screen (`fb.c`)

`fb_pack_pixel` packs a colour for the mode's depth, and `fb_present` takes every pixel of the back buffer for one of
eight bits a channel.  At 16 bits the two do not fit together, and at 32 bits rows are copied only where the screen's
pitch is that of the back buffer.
-/
namespace AmitX
namespace Gfx

open Bytes

structure Colour where
  r : BitVec 8
  g : BitVec 8
  b : BitVec 8

/-- The bits of a channel at a depth: red, green and blue have 5, 6 and 5 at 16 bits, and 8 at 24 and 32. -/
def channelSize (bpp narrow : Nat) : Nat := if bpp = 16 then narrow else 8

/-- `fb_hw`: the sizes of the screen and the lowest bits of its masks.  A row has room for its pixels, and the channels lie
in the pixel and do not overlap. -/
structure FbMode where
  width : Nat
  height : Nat
  pitch : Nat
  bpp : Nat
  redPos : Nat
  greenPos : Nat
  bluePos : Nat
  depth : bpp = 16 ∨ bpp = 24 ∨ bpp = 32
  pitch_lt : pitch < 2 ^ 32
  height_lt : height < 2 ^ 32
  pitch_ge : width * (bpp / 8) ≤ pitch
  red_le : redPos + channelSize bpp 5 ≤ bpp
  green_le : greenPos + channelSize bpp 6 ≤ bpp
  blue_le : bluePos + channelSize bpp 5 ≤ bpp
  red_green : redPos + channelSize bpp 5 ≤ greenPos ∨ greenPos + channelSize bpp 6 ≤ redPos
  red_blue : redPos + channelSize bpp 5 ≤ bluePos ∨ bluePos + channelSize bpp 5 ≤ redPos
  green_blue : greenPos + channelSize bpp 6 ≤ bluePos ∨ bluePos + channelSize bpp 5 ≤ greenPos

def FbMode.redMask (m : FbMode) : BitVec 32 := BitVec.ofNat 32 ((2 ^ channelSize m.bpp 5 - 1) * 2 ^ m.redPos)

def FbMode.pixelBytes (m : FbMode) : Nat := m.bpp / 8

def pack888 (high middle low : BitVec 8) : Pixel :=
  (high.setWidth 32 <<< 16) ||| (middle.setWidth 32 <<< 8) ||| low.setWidth 32

def fbPackPixel (bpp : Nat) (redMask : BitVec 32) (r g b : BitVec 8) : Pixel :=
  if bpp = 32 then
    if redMask = 0x00FF0000 then pack888 r g b
    else if redMask = 0x000000FF then pack888 b g r
    else pack888 r g b
  else if bpp = 24 then pack888 r g b
  else if bpp = 16 then
    (((r >>> 3).setWidth 32 &&& 0x1F) <<< 11) ||| (((g >>> 2).setWidth 32 &&& 0x3F) <<< 5) |||
      ((b >>> 3).setWidth 32 &&& 0x1F)
  else if bpp = 15 then
    (((r >>> 3).setWidth 32 &&& 0x1F) <<< 10) ||| (((g >>> 3).setWidth 32 &&& 0x1F) <<< 5) |||
      ((b >>> 3).setWidth 32 &&& 0x1F)
  else pack888 r g b

/-- What `fb_present` takes for the channels of a pixel. -/
def redOf (color : Pixel) : BitVec 8 := (color >>> 16).setWidth 8
def greenOf (color : Pixel) : BitVec 8 := (color >>> 8).setWidth 8
def blueOf (color : Pixel) : BitVec 8 := color.setWidth 8

def present565 (color : Pixel) : BitVec 16 :=
  ((redOf color >>> 3).setWidth 16 <<< 11) ||| ((greenOf color >>> 2).setWidth 16 <<< 5) |||
    (blueOf color >>> 3).setWidth 16

def presentPixel (bpp dstRow x : Nat) (color : Pixel) : List (Nat × Byte) :=
  if bpp = 24 then
    [(dstRow + x * 3, blueOf color), (dstRow + x * 3 + 1, greenOf color), (dstRow + x * 3 + 2, redOf color)]
  else if bpp = 16 then
    [(dstRow + x * 2, (present565 color).setWidth 8), (dstRow + x * 2 + 1, (present565 color >>> 8).setWidth 8)]
  else []

def presentRows (m : FbMode) (back : Nat → Pixel) : List (Nat × Byte) :=
  (List.range m.height).flatMap fun y => (List.range m.width).flatMap fun x =>
    presentPixel m.bpp (y * m.pitch % 2 ^ 32) x (back (y * m.width % 2 ^ 32 + x))

/-- The stores of the `memcpy`: `fb.back.pitch * fb.back.height` bytes of the pixels, the lowest byte of each first. -/
def presentCopy (m : FbMode) (back : Nat → Pixel) : List (Nat × Byte) :=
  (List.range (m.width * 4 % 2 ^ 32 * m.height % 2 ^ 32)).map fun i =>
    (i, (back (i / 4) >>> (8 * (i % 4))).setWidth 8)

/-- The copy of `fb_present` from a back buffer of `fb_init`, whose pitch is four bytes for each pixel of the width. -/
def fbPresent (m : FbMode) (back : Nat → Pixel) (front : Mem) : Mem :=
  if m.bpp = 32 ∧ m.width * 4 % 2 ^ 32 = m.pitch then Stores.apply (presentCopy m back) front
  else Stores.apply (presentRows m back) front

/-! ## The picture on the screen -/

def Holds (value pos size : Nat) (c : BitVec 8) : Prop := value / 2 ^ pos % 2 ^ size = c.toNat / 2 ^ (8 - size)

def Shows (m : FbMode) (front : Mem) (offset : Nat) (c : Colour) : Prop :=
  let value := load front offset m.pixelBytes
  Holds value m.redPos (channelSize m.bpp 5) c.r ∧ Holds value m.greenPos (channelSize m.bpp 6) c.g ∧
    Holds value m.bluePos (channelSize m.bpp 5) c.b

def Visible (m : FbMode) (i : Nat) : Prop :=
  ∃ y x k, y < m.height ∧ x < m.width ∧ k < m.pixelBytes ∧ i = y * m.pitch + x * m.pixelBytes + k

def HasPicture (m : FbMode) (picture : Nat → Nat → Colour) (back : Nat → Pixel) : Prop :=
  ∀ y < m.height, ∀ x < m.width,
    back (y * m.width + x) = fbPackPixel m.bpp m.redMask (picture x y).r (picture x y).g (picture x y).b

/-- **Every picture is presented**: each pixel of the screen has its colour, and no other byte is written. -/
def Presents (m : FbMode) : Prop :=
  ∀ picture back front, HasPicture m picture back →
    (∀ y < m.height, ∀ x < m.width,
      Shows m (fbPresent m back front) (y * m.pitch + x * m.pixelBytes) (picture x y)) ∧
    ∀ i, ¬Visible m i → fbPresent m back front i = front i

def FbMode.Rgb (m : FbMode) : Prop := m.redPos = 16 ∧ m.greenPos = 8 ∧ m.bluePos = 0
def FbMode.Bgr (m : FbMode) : Prop := m.redPos = 0 ∧ m.greenPos = 8 ∧ m.bluePos = 16

/-- The modes in which packing and presenting fit together: 24 bits in the order of the masks that is assumed, where the
last row starts below 2^32, and 32 bits in one of the two orders, without padding and with fewer than 2^32 bytes. -/
def FbMode.Fits (m : FbMode) : Prop :=
  (m.width = 0 ∨ m.height = 0) ∨
  (m.bpp = 24 ∧ m.Rgb ∧ (m.height - 1) * m.pitch < 2 ^ 32) ∨
  (m.bpp = 32 ∧ m.pitch = m.width * 4 ∧ m.pitch * m.height < 2 ^ 32 ∧ (m.Rgb ∨ m.Bgr))

section Pack

variable {r g b : BitVec 8}

theorem pack888_toNat : (pack888 r g b).toNat = r.toNat * 2 ^ 16 + g.toNat * 2 ^ 8 + b.toNat := by
  have hr := r.isLt
  have hg := g.isLt
  have hb := b.isLt
  have hhigh : r.toNat <<< 16 ||| g.toNat <<< 8 = r.toNat <<< 16 + g.toNat <<< 8 :=
    (Nat.shiftLeft_add_eq_or_of_lt (by rw [Nat.shiftLeft_eq]; omega) _).symm
  have hlow : (r.toNat <<< 16 + g.toNat <<< 8) ||| b.toNat = r.toNat <<< 16 + g.toNat <<< 8 + b.toNat := by
    have h := Nat.shiftLeft_add_eq_or_of_lt (i := 8) (b := b.toNat) (by omega) (r.toNat * 2 ^ 8 + g.toNat)
    have he : (r.toNat * 2 ^ 8 + g.toNat) <<< 8 = r.toNat <<< 16 + g.toNat <<< 8 := by
      simp only [Nat.shiftLeft_eq]
      ring
    rw [he] at h
    exact h.symm
  have hmod : ∀ n, n < 2 ^ 32 → n % 2 ^ 32 = n := fun n hn => Nat.mod_eq_of_lt hn
  have hshift : r.toNat <<< 16 = r.toNat * 2 ^ 16 ∧ g.toNat <<< 8 = g.toNat * 2 ^ 8 :=
    ⟨Nat.shiftLeft_eq _ _, Nat.shiftLeft_eq _ _⟩
  simp only [pack888, BitVec.toNat_or, BitVec.toNat_shiftLeft, BitVec.toNat_setWidth]
  rw [hmod r.toNat (by omega), hmod g.toNat (by omega), hmod b.toNat (by omega), hmod (r.toNat <<< 16) (by omega),
    hmod (g.toNat <<< 8) (by omega), hhigh, hlow, hshift.1, hshift.2]

end Pack

/-! ## The stores -/

section Stores

variable {m : FbMode} {back : Nat → Pixel} {front : Mem} {y x k : Nat} {c : Colour}

theorem FbMode.place_unique (m : FbMode) {y' x' k' : Nat} (hx : x < m.width) (hx' : x' < m.width)
    (hk : k < m.pixelBytes) (hk' : k' < m.pixelBytes)
    (h : y * m.pitch + x * m.pixelBytes + k = y' * m.pitch + x' * m.pixelBytes + k') : y = y' ∧ x = x' ∧ k = k' := by
  have hge := m.pitch_ge
  have hin : ∀ {x k}, x < m.width → k < m.pixelBytes → x * m.pixelBytes + k < m.pitch := fun {x k} hx hk => by
    have := Nat.mul_le_mul_right m.pixelBytes (Nat.succ_le_of_lt hx)
    rw [Nat.succ_mul] at this
    unfold FbMode.pixelBytes at *
    omega
  obtain ⟨hy, hrest⟩ := row_unique (show y * m.pitch + (x * m.pixelBytes + k) = y' * m.pitch + (x' * m.pixelBytes + k') by omega)
    (hin hx hk) (hin hx' hk')
  obtain ⟨hx, hk⟩ := row_unique hrest hk hk'
  exact ⟨hy, hx, hk⟩

theorem mem_presentRows {s : Nat × Byte} : s ∈ presentRows m back ↔ ∃ y < m.height, ∃ x < m.width,
    s ∈ presentPixel m.bpp (y * m.pitch % 2 ^ 32) x (back (y * m.width % 2 ^ 32 + x)) := by
  simp only [presentRows, List.mem_flatMap, List.mem_range]

theorem mem_presentPixel {dst : Nat} {color : Pixel} {s : Nat × Byte} (h : s ∈ presentPixel 24 dst x color) :
    ∃ k < 3, s.1 = dst + x * 3 + k ∧ s.2 = (color >>> (8 * k)).setWidth 8 := by
  rw [presentPixel, if_pos rfl] at h
  rcases List.mem_cons.1 h with rfl | h
  · exact ⟨0, by decide, rfl, by simp [blueOf]⟩
  rcases List.mem_cons.1 h with rfl | h
  · exact ⟨1, by decide, rfl, rfl⟩
  · obtain rfl := List.mem_singleton.1 h
    exact ⟨2, by decide, rfl, rfl⟩

theorem store_mem_presentPixel {dst : Nat} {color : Pixel} (hk : k < 3) :
    (dst + x * 3 + k, (color >>> (8 * k)).setWidth 8) ∈ presentPixel 24 dst x color := by
  rw [presentPixel, if_pos rfl]
  obtain rfl | rfl | rfl : k = 0 ∨ k = 1 ∨ k = 2 := by omega
  · simp [blueOf]
  · simp [greenOf]
  · simp [redOf]

theorem byteOf (color : Pixel) (k : Nat) : (color >>> (8 * k)).setWidth 8 = BitVec.ofNat 8 (color.toNat / 256 ^ k) := by
  refine BitVec.eq_of_toNat_eq ?_
  rw [BitVec.toNat_setWidth, BitVec.toNat_ushiftRight, BitVec.toNat_ofNat, Nat.shiftRight_eq_div_pow, Nat.pow_mul]

theorem fbPresent_rows (h : ¬(m.bpp = 32 ∧ m.width * 4 % 2 ^ 32 = m.pitch)) :
    fbPresent m back front = Stores.apply (presentRows m back) front := if_neg h

theorem row_lt (hlast : (m.height - 1) * m.pitch < 2 ^ 32) (hy : y < m.height) : y * m.pitch < 2 ^ 32 :=
  Nat.lt_of_le_of_lt (Nat.mul_le_mul_right _ (by omega)) hlast

theorem load_present_24 (hbpp : m.bpp = 24) (hlast : (m.height - 1) * m.pitch < 2 ^ 32) (hy : y < m.height)
    (hx : x < m.width) :
    load (fbPresent m back front) (y * m.pitch + x * m.pixelBytes) m.pixelBytes = (back (y * m.width + x)).toNat % 2 ^ 24 := by
  have hbytes : m.pixelBytes = 3 := by rw [FbMode.pixelBytes, hbpp]
  have hge := m.pitch_ge
  rw [hbpp] at hge
  have hsrc : ∀ {y}, y < m.height → y * m.width % 2 ^ 32 = y * m.width := fun {y} hy =>
    Nat.mod_eq_of_lt (Nat.lt_of_le_of_lt (Nat.mul_le_mul_left y (by omega)) (row_lt hlast hy))
  rw [fbPresent_rows (by omega), hbytes]
  refine load_divs fun k hk => ?_
  rw [← byteOf]
  refine Stores.apply_of_mem (mem_presentRows.2 ⟨y, hy, x, hx, ?_⟩) fun s hs hplace => ?_
  · rw [hbpp, Nat.mod_eq_of_lt (row_lt hlast hy), hsrc hy]
    exact store_mem_presentPixel hk
  · obtain ⟨y', hy', x', hx', hs⟩ := mem_presentRows.1 hs
    rw [hbpp, Nat.mod_eq_of_lt (row_lt hlast hy'), hsrc hy'] at hs
    obtain ⟨k', hk', hsp, hsv⟩ := mem_presentPixel hs
    rw [hsp, ← hbytes] at hplace
    obtain ⟨rfl, rfl, rfl⟩ := m.place_unique hx' hx (hbytes ▸ hk') (hbytes ▸ hk) hplace
    exact hsv

theorem present_24_of_not_visible (hbpp : m.bpp = 24) (hlast : (m.height - 1) * m.pitch < 2 ^ 32) {i : Nat}
    (hi : ¬Visible m i) : fbPresent m back front i = front i := by
  rw [fbPresent_rows (by omega)]
  refine Stores.apply_of_not fun s hs hplace => hi ?_
  obtain ⟨y, hy, x, hx, hs⟩ := mem_presentRows.1 hs
  rw [hbpp, Nat.mod_eq_of_lt (row_lt hlast hy)] at hs
  obtain ⟨k, hk, hsp, -⟩ := mem_presentPixel hs
  have hbytes : m.pixelBytes = 3 := by rw [FbMode.pixelBytes, hbpp]
  exact ⟨y, x, k, hy, hx, by omega, by rw [← hplace, hsp, hbytes]⟩

theorem present_24_last (back : Nat → Pixel) (front : Mem) (hbpp : m.bpp = 24)
    (hlast : 2 ^ 32 ≤ (m.height - 1) * m.pitch) (hw : 0 < m.width) :
    fbPresent m back front ((m.height - 1) * m.pitch + (m.width - 1) * 3 + 2) =
      front ((m.height - 1) * m.pitch + (m.width - 1) * 3 + 2) := by
  rw [fbPresent_rows (by omega)]
  refine Stores.apply_of_not fun s hs hplace => ?_
  obtain ⟨y, hy, x, hx, hs⟩ := mem_presentRows.1 hs
  rw [hbpp] at hs
  obtain ⟨k, hk, hsp, -⟩ := mem_presentPixel hs
  have := Nat.mod_lt (y * m.pitch) (Nat.two_pow_pos 32)
  omega

theorem apply_presentCopy (i : Nat) : Stores.apply (presentCopy m back) front i =
    if i < m.width * 4 % 2 ^ 32 * m.height % 2 ^ 32 then (back (i / 4) >>> (8 * (i % 4))).setWidth 8 else front i := by
  split
  · next hi =>
    refine Stores.apply_of_mem (List.mem_map.2 ⟨i, List.mem_range.2 hi, rfl⟩) fun s hs hplace => ?_
    obtain ⟨j, -, rfl⟩ := List.mem_map.1 hs
    rw [show j = i from hplace]
  · next hi =>
    refine Stores.apply_of_not fun s hs hplace => hi ?_
    obtain ⟨j, hj, rfl⟩ := List.mem_map.1 hs
    rw [← show j = i from hplace]
    exact List.mem_range.1 hj

theorem pixel_place (hpitch : m.pitch = m.width * 4) (y x : Nat) : y * m.pitch + x * 4 = 4 * (y * m.width + x) := by
  rw [hpitch]
  ring

theorem pixel_lt (hx : x < m.width) (hy : y < m.height) : y * m.width + x < m.width * m.height := by
  have := Nat.mul_le_mul_right m.width (Nat.succ_le_of_lt hy)
  rw [Nat.succ_mul, Nat.mul_comm m.height] at this
  omega

theorem fbPresent_copy (hbpp : m.bpp = 32) (hpitch : m.pitch = m.width * 4) (hsize : m.pitch * m.height < 2 ^ 32) (i : Nat) :
    fbPresent m back front i =
      if i < 4 * (m.width * m.height) then (back (i / 4) >>> (8 * (i % 4))).setWidth 8 else front i := by
  have hlt := m.pitch_lt
  have hmod : m.width * 4 % 2 ^ 32 = m.pitch := by rw [← hpitch, Nat.mod_eq_of_lt hlt]
  have hbytes : m.pitch * m.height = 4 * (m.width * m.height) := by
    rw [hpitch]
    ring
  rw [fbPresent, if_pos ⟨hbpp, hmod⟩, apply_presentCopy, hmod, Nat.mod_eq_of_lt hsize, hbytes]

theorem load_present_32 (hbpp : m.bpp = 32) (hpitch : m.pitch = m.width * 4) (hsize : m.pitch * m.height < 2 ^ 32)
    (hy : y < m.height) (hx : x < m.width) :
    load (fbPresent m back front) (y * m.pitch + x * m.pixelBytes) m.pixelBytes = (back (y * m.width + x)).toNat := by
  have hbytes : m.pixelBytes = 4 := by rw [FbMode.pixelBytes, hbpp]
  have hplace := pixel_lt hx hy
  have hload : load (fbPresent m back front) (4 * (y * m.width + x)) 4 = (back (y * m.width + x)).toNat % 256 ^ 4 := by
    refine load_divs fun k hk => ?_
    rw [fbPresent_copy hbpp hpitch hsize, if_pos (by omega), ← byteOf,
      show (4 * (y * m.width + x) + k) / 4 = y * m.width + x by omega, show (4 * (y * m.width + x) + k) % 4 = k by omega]
  rw [hbytes, pixel_place hpitch, hload]
  exact Nat.mod_eq_of_lt (back (y * m.width + x)).isLt

theorem present_32_of_not_visible (hbpp : m.bpp = 32) (hpitch : m.pitch = m.width * 4)
    (hsize : m.pitch * m.height < 2 ^ 32) {i : Nat} (hi : ¬Visible m i) : fbPresent m back front i = front i := by
  have hbytes : m.pixelBytes = 4 := by rw [FbMode.pixelBytes, hbpp]
  rw [fbPresent_copy hbpp hpitch hsize]
  refine if_neg fun hlt => hi ?_
  have hpos : 0 < m.width := Nat.pos_of_ne_zero fun h0 => by simp [h0] at hlt
  have hn : i / 4 < m.height * m.width := by rw [Nat.mul_comm m.height]; omega
  refine ⟨i / 4 / m.width, i / 4 % m.width, i % 4, Nat.div_lt_of_lt_mul (by rw [Nat.mul_comm]; exact hn),
    Nat.mod_lt _ hpos, by omega, ?_⟩
  have hsplit := Nat.div_add_mod (i / 4) m.width
  rw [hbytes, pixel_place hpitch, Nat.mul_comm (i / 4 / m.width), hsplit]
  omega

end Stores

/-! ## Where every picture is presented -/

section Presents

variable {m : FbMode} {back : Nat → Pixel} {front : Mem} {y x : Nat} {c : Colour}

theorem holds_888 (high middle low : BitVec 8) :
    let value := high.toNat * 2 ^ 16 + middle.toNat * 2 ^ 8 + low.toNat
    Holds value 16 8 high ∧ Holds value 8 8 middle ∧ Holds value 0 8 low := by
  have hh := high.isLt
  have hm := middle.isLt
  have hl := low.isLt
  refine ⟨?_, ?_, ?_⟩
  · unfold Holds
    omega
  · unfold Holds
    omega
  · unfold Holds
    omega

theorem channelSize_wide {bpp narrow : Nat} (h : bpp ≠ 16) : channelSize bpp narrow = 8 := if_neg h

theorem redMask_wide (h : m.bpp ≠ 16) : m.redMask = BitVec.ofNat 32 (255 * 2 ^ m.redPos) := by
  rw [FbMode.redMask, channelSize_wide h]
  rfl

theorem fbPresent_empty (h : m.width = 0 ∨ m.height = 0) (i : Nat) : fbPresent m back front i = front i := by
  unfold fbPresent
  split
  · have hzero : m.width * 4 % 2 ^ 32 * m.height % 2 ^ 32 = 0 := by
      rcases h with h | h <;> simp [h]
    rw [apply_presentCopy, if_neg (by omega)]
  · refine Stores.apply_of_not fun s hs _ => ?_
    obtain ⟨y, hy, x, hx, -⟩ := mem_presentRows.1 hs
    omega

theorem presents_24 (hbpp : m.bpp = 24) (hrgb : m.Rgb) (hlast : (m.height - 1) * m.pitch < 2 ^ 32) : Presents m := by
  intro picture back front hpic
  refine ⟨fun y hy x hx => ?_, fun i hi => present_24_of_not_visible hbpp hlast hi⟩
  obtain ⟨hr, hg, hb⟩ := hrgb
  have hwide : m.bpp ≠ 16 := by omega
  have hpack : fbPackPixel 24 m.redMask (picture x y).r (picture x y).g (picture x y).b =
      pack888 (picture x y).r (picture x y).g (picture x y).b := rfl
  have hlt : (picture x y).r.toNat * 2 ^ 16 + (picture x y).g.toNat * 2 ^ 8 + (picture x y).b.toNat < 2 ^ 24 := by
    have hred := (picture x y).r.isLt
    have hgreen := (picture x y).g.isLt
    have hblue := (picture x y).b.isLt
    omega
  simp only [Shows, load_present_24 hbpp hlast hy hx, hpic y hy x hx, hbpp, hpack, pack888_toNat, Nat.mod_eq_of_lt hlt,
    hr, hg, hb]
  exact holds_888 (picture x y).r (picture x y).g (picture x y).b

theorem presents_32 (hbpp : m.bpp = 32) (hpitch : m.pitch = m.width * 4) (hsize : m.pitch * m.height < 2 ^ 32)
    (horder : m.Rgb ∨ m.Bgr) : Presents m := by
  intro picture back front hpic
  refine ⟨fun y hy x hx => ?_, fun i hi => present_32_of_not_visible hbpp hpitch hsize hi⟩
  have hwide : m.bpp ≠ 16 := by omega
  simp only [Shows, load_present_32 hbpp hpitch hsize hy hx, hpic y hy x hx, redMask_wide hwide]
  rcases horder with ⟨hr, hg, hb⟩ | ⟨hr, hg, hb⟩
  · have hpack : fbPackPixel 32 (BitVec.ofNat 32 (255 * 2 ^ 16)) (picture x y).r (picture x y).g (picture x y).b =
        pack888 (picture x y).r (picture x y).g (picture x y).b := rfl
    simp only [hbpp, hr, hg, hb, hpack, pack888_toNat]
    exact holds_888 (picture x y).r (picture x y).g (picture x y).b
  · have hpack : fbPackPixel 32 (BitVec.ofNat 32 (255 * 2 ^ 0)) (picture x y).r (picture x y).g (picture x y).b =
        pack888 (picture x y).b (picture x y).g (picture x y).r := rfl
    simp only [hbpp, hr, hg, hb, hpack, pack888_toNat]
    obtain ⟨hhigh, hmiddle, hlow⟩ := holds_888 (picture x y).b (picture x y).g (picture x y).r
    exact ⟨hlow, hmiddle, hhigh⟩

theorem hasPicture_uniform (m : FbMode) (c : Colour) :
    HasPicture m (fun _ _ => c) (fun _ => fbPackPixel m.bpp m.redMask c.r c.g c.b) := fun _ _ _ _ => rfl

def presentUniform (m : FbMode) (c : Colour) : Mem :=
  fbPresent m (fun _ => fbPackPixel m.bpp m.redMask c.r c.g c.b) (fun _ => 0)

theorem Presents.uniform (h : Presents m) (hy : y < m.height) (hx : x < m.width) (c : Colour) :
    Shows m (presentUniform m c) (y * m.pitch + x * m.pixelBytes) c :=
  (h _ _ (fun _ => 0) (hasPicture_uniform m c)).1 y hy x hx

def black : Colour := ⟨0, 0, 0⟩
def white : Colour := ⟨255, 255, 255⟩

theorem Holds.unique {value pos size : Nat} {c c' : BitVec 8} (h : Holds value pos size c) (h' : Holds value pos size c') :
    c.toNat / 2 ^ (8 - size) = c'.toNat / 2 ^ (8 - size) := h.symm.trans h'

theorem not_presents_of_same (hwide : m.bpp ≠ 16) (hy : y < m.height) (hx : x < m.width)
    (hsame : load (presentUniform m black) (y * m.pitch + x * m.pixelBytes) m.pixelBytes =
      load (presentUniform m white) (y * m.pitch + x * m.pixelBytes) m.pixelBytes) : ¬Presents m := by
  intro h
  have hblack := (h.uniform hy hx black).1
  have hwhite := (h.uniform hy hx white).1
  rw [hsame] at hblack
  rw [channelSize_wide hwide] at hblack hwhite
  exact absurd (hblack.unique hwhite) (by decide)

theorem not_presents_16 (hbpp : m.bpp = 16) (hw : 0 < m.width) (hh : 0 < m.height) : ¬Presents m := by
  intro h
  have hsame : presentUniform m black = presentUniform m ⟨0, 0, 8⟩ := by
    have hrows : ∀ c : Colour, presentUniform m c =
        Stores.apply (presentRows m fun _ => fbPackPixel m.bpp m.redMask c.r c.g c.b) (fun _ => 0) := fun c =>
      fbPresent_rows (by omega)
    have hpixel : ∀ dst x, presentPixel 16 dst x (fbPackPixel 16 m.redMask 0 0 0) =
        presentPixel 16 dst x (fbPackPixel 16 m.redMask 0 0 8) := fun dst x => by
      have hvalue : present565 (fbPackPixel 16 m.redMask 0 0 0) = present565 (fbPackPixel 16 m.redMask 0 0 8) := by
        have hpack : ∀ b, fbPackPixel 16 m.redMask 0 0 b = fbPackPixel 16 0 0 0 b := fun b => rfl
        rw [hpack, hpack]
        decide
      have h24 : ¬(16 = 24) := by decide
      rw [presentPixel, presentPixel, if_neg h24, if_neg h24, if_pos rfl, if_pos rfl, hvalue]
    rw [hrows, hrows]
    simp only [presentRows, hbpp, black, hpixel]
  have hblack := (h.uniform hh hw black).2.2
  have hblue := (h.uniform hh hw ⟨0, 0, 8⟩).2.2
  rw [hsame] at hblack
  rw [channelSize, if_pos hbpp] at hblack hblue
  exact absurd (hblack.unique hblue) (by decide)

theorem not_presents_24 (hbpp : m.bpp = 24) (hlast : 2 ^ 32 ≤ (m.height - 1) * m.pitch) (hw : 0 < m.width)
    (hh : 0 < m.height) : ¬Presents m := by
  intro h
  have hbytes : m.pixelBytes = 3 := by rw [FbMode.pixelBytes, hbpp]
  have hwide : m.bpp ≠ 16 := by omega
  -- three channels of 8 bits fill the pixel, so that one of them is the last byte
  have htop : m.redPos = 16 ∨ m.greenPos = 16 ∨ m.bluePos = 16 := by
    have hr := m.red_le
    have hg := m.green_le
    have hb := m.blue_le
    have hrg := m.red_green
    have hrb := m.red_blue
    have hgb := m.green_blue
    simp only [channelSize_wide hwide] at hr hg hb hrg hrb hgb
    omega
  have hvalue : ∀ c, load (presentUniform m c) ((m.height - 1) * m.pitch + (m.width - 1) * m.pixelBytes) m.pixelBytes /
      2 ^ 16 % 2 ^ 8 = 0 := fun c => by
    have hzero := present_24_last (fun _ => fbPackPixel m.bpp m.redMask c.r c.g c.b) (fun _ => 0) hbpp hlast hw
    have h0 := (presentUniform m c ((m.height - 1) * m.pitch + (m.width - 1) * 3)).isLt
    have h1 := (presentUniform m c ((m.height - 1) * m.pitch + (m.width - 1) * 3 + 1)).isLt
    have h2 : (presentUniform m c ((m.height - 1) * m.pitch + (m.width - 1) * 3 + 1 + 1)).toNat = 0 :=
      congrArg BitVec.toNat hzero
    rw [hbytes, load, load, load, load, h2]
    omega
  have hshow := h.uniform (y := m.height - 1) (x := m.width - 1) (by omega) (by omega) white
  simp only [Shows, channelSize_wide hwide, Holds] at hshow
  obtain ⟨hr, hg, hb⟩ := hshow
  rcases htop with hp | hp | hp
  · rw [hp, hvalue] at hr
    exact absurd hr (by decide)
  · rw [hp, hvalue] at hg
    exact absurd hg (by decide)
  · rw [hp, hvalue] at hb
    exact absurd hb (by decide)

theorem not_presents_32_padded (hbpp : m.bpp = 32) (hpitch : m.pitch ≠ m.width * 4) (hw : 0 < m.width)
    (hh : 0 < m.height) : ¬Presents m := by
  have hge := m.pitch_ge
  rw [hbpp] at hge
  have hlt := m.pitch_lt
  have hslow : ¬(m.bpp = 32 ∧ m.width * 4 % 2 ^ 32 = m.pitch) := by
    rw [Nat.mod_eq_of_lt (by omega)]
    exact fun h => hpitch h.2.symm
  have hnone : ∀ back : Nat → Pixel, presentRows m back = [] := fun back => by
    refine List.eq_nil_iff_forall_not_mem.2 fun s hs => ?_
    obtain ⟨y, hy, x, hx, hs⟩ := mem_presentRows.1 hs
    rw [hbpp] at hs
    cases hs
  refine not_presents_of_same (by omega) hh hw ?_
  rw [presentUniform, presentUniform, fbPresent_rows hslow, fbPresent_rows hslow, hnone, hnone]

theorem not_presents_32_large (hbpp : m.bpp = 32) (hpitch : m.pitch = m.width * 4) (hsize : 2 ^ 32 ≤ m.pitch * m.height)
    (hw : 0 < m.width) (hh : 0 < m.height) : ¬Presents m := by
  have hlt := m.pitch_lt
  have hmod : m.width * 4 % 2 ^ 32 = m.pitch := by rw [← hpitch, Nat.mod_eq_of_lt hlt]
  have hbytes : m.pixelBytes = 4 := by rw [FbMode.pixelBytes, hbpp]
  obtain ⟨h, hheight⟩ : ∃ h, m.height = h + 1 := Nat.exists_eq_succ_of_ne_zero (by omega)
  have hrow : m.pitch * m.height = h * m.pitch + m.pitch := by
    rw [hheight]
    ring
  have hkeep : ∀ (c : Colour) (i : Nat), h * m.pitch ≤ i → presentUniform m c i = 0 := fun c i hi => by
    rw [presentUniform, fbPresent, if_pos ⟨hbpp, hmod⟩, apply_presentCopy, hmod, if_neg]
    have hdiv := Nat.div_add_mod (m.pitch * m.height) (2 ^ 32)
    have hpos : 1 ≤ m.pitch * m.height / 2 ^ 32 := (Nat.le_div_iff_mul_le (by decide)).2 (by omega)
    omega
  refine not_presents_of_same (by omega) (y := h) (by omega) hw (load_congr fun i hi _ => ?_)
  rw [hkeep black i (by omega), hkeep white i (by omega)]

theorem pos_of_red {pos : Nat} (h : pos ≤ 24) (hv : 255 * 2 ^ 16 / 2 ^ pos % 2 ^ 8 = 255) : pos = 16 := by
  revert h hv
  revert pos
  decide

theorem pos_of_green {pos : Nat} (h : pos ≤ 24) (hv : 255 * 2 ^ 8 / 2 ^ pos % 2 ^ 8 = 255) : pos = 8 := by
  revert h hv
  revert pos
  decide

theorem pos_of_blue {pos : Nat} (h : pos ≤ 24) (hv : 255 / 2 ^ pos % 2 ^ 8 = 255) : pos = 0 := by
  revert h hv
  revert pos
  decide

theorem rgb_of_presents (h : Presents m) (hbpp : m.bpp = 24) (hlast : (m.height - 1) * m.pitch < 2 ^ 32)
    (hw : 0 < m.width) (hh : 0 < m.height) : m.Rgb := by
  have hwide : m.bpp ≠ 16 := by omega
  have hle := m.red_le
  have hle' := m.green_le
  have hle'' := m.blue_le
  have hshow : ∀ r g b, Shows m (presentUniform m ⟨r, g, b⟩) (0 * m.pitch + 0 * m.pixelBytes) ⟨r, g, b⟩ := fun r g b =>
    h.uniform hh hw ⟨r, g, b⟩
  have hpack : ∀ r g b, fbPackPixel 24 m.redMask r g b = pack888 r g b := fun _ _ _ => rfl
  simp only [Shows, presentUniform, load_present_24 hbpp hlast hh hw, hbpp, hpack, pack888_toNat,
    channelSize_wide (show 24 ≠ 16 by decide), Holds] at hshow hle hle' hle''
  exact ⟨pos_of_red (by omega) (hshow 255 0 0).1, pos_of_green (by omega) (hshow 0 255 0).2.1,
    pos_of_blue (by omega) (hshow 0 0 255).2.2⟩

theorem fbPackPixel_32 (hwide : m.bpp ≠ 16) (r g b : BitVec 8) :
    fbPackPixel 32 m.redMask r g b = if m.redPos = 0 then pack888 b g r else pack888 r g b := by
  have hle := m.red_le
  rw [channelSize_wide hwide] at hle
  have hbpp := m.depth
  have hmasks : ∀ pos < 25, (BitVec.ofNat 32 (255 * 2 ^ pos) = 0x00FF0000 ↔ pos = 16) ∧
      (BitVec.ofNat 32 (255 * 2 ^ pos) = 0x000000FF ↔ pos = 0) := by decide
  obtain ⟨hred, hblue⟩ := hmasks m.redPos (by omega)
  rw [fbPackPixel, if_pos rfl, redMask_wide hwide]
  by_cases h16 : m.redPos = 16
  · rw [if_pos (hred.2 h16), if_neg (by omega)]
  rw [if_neg (mt hred.1 h16)]
  by_cases h0 : m.redPos = 0
  · rw [if_pos (hblue.2 h0), if_pos h0]
  · rw [if_neg (mt hblue.1 h0), if_neg h0]

theorem order_of_presents (h : Presents m) (hbpp : m.bpp = 32) (hpitch : m.pitch = m.width * 4)
    (hsize : m.pitch * m.height < 2 ^ 32) (hw : 0 < m.width) (hh : 0 < m.height) : m.Rgb ∨ m.Bgr := by
  have hwide : m.bpp ≠ 16 := by omega
  have hle := m.red_le
  have hle' := m.green_le
  have hle'' := m.blue_le
  have hshow : ∀ r g b, Shows m (presentUniform m ⟨r, g, b⟩) (0 * m.pitch + 0 * m.pixelBytes) ⟨r, g, b⟩ := fun r g b =>
    h.uniform hh hw ⟨r, g, b⟩
  simp only [channelSize_wide hwide] at hle hle' hle''
  simp only [Shows, presentUniform, load_present_32 hbpp hpitch hsize hh hw, channelSize_wide hwide, Holds] at hshow
  simp only [hbpp, fbPackPixel_32 hwide] at hshow
  by_cases h0 : m.redPos = 0
  · simp only [if_pos h0, pack888_toNat] at hshow
    exact .inr ⟨h0, pos_of_green (by omega) (hshow 0 255 0).2.1, pos_of_red (by omega) (hshow 0 0 255).2.2⟩
  · simp only [if_neg h0, pack888_toNat] at hshow
    exact .inl ⟨pos_of_red (by omega) (hshow 255 0 0).1, pos_of_green (by omega) (hshow 0 255 0).2.1,
      pos_of_blue (by omega) (hshow 0 0 255).2.2⟩

/-- **Every picture is presented just in the modes that fit.** -/
theorem presents_iff (m : FbMode) : Presents m ↔ m.Fits := by
  constructor
  · intro h
    by_cases hw : m.width = 0
    · exact .inl (.inl hw)
    by_cases hh : m.height = 0
    · exact .inl (.inr hh)
    have hw' : 0 < m.width := Nat.pos_of_ne_zero hw
    have hh' : 0 < m.height := Nat.pos_of_ne_zero hh
    rcases m.depth with hbpp | hbpp | hbpp
    · exact absurd h (not_presents_16 hbpp hw' hh')
    · have hlast : (m.height - 1) * m.pitch < 2 ^ 32 := by
        by_contra hlarge
        exact not_presents_24 hbpp (Nat.le_of_not_lt hlarge) hw' hh' h
      exact .inr (.inl ⟨hbpp, rgb_of_presents h hbpp hlast hw' hh', hlast⟩)
    · have hpitch : m.pitch = m.width * 4 := by
        by_contra hpadded
        exact not_presents_32_padded hbpp hpadded hw' hh' h
      have hsize : m.pitch * m.height < 2 ^ 32 := by
        by_contra hlarge
        exact not_presents_32_large hbpp hpitch (Nat.le_of_not_lt hlarge) hw' hh' h
      exact .inr (.inr ⟨hbpp, hpitch, hsize, order_of_presents h hbpp hpitch hsize hw' hh'⟩)
  · rintro (hempty | ⟨hbpp, hrgb, hlast⟩ | ⟨hbpp, hpitch, hsize, horder⟩)
    · intro picture back front _
      refine ⟨fun y hy x hx => ?_, fun i _ => fbPresent_empty hempty i⟩
      omega
    · exact presents_24 hbpp hrgb hlast
    · exact presents_32 hbpp hpitch hsize horder

def paddedMode : FbMode where
  width := 1
  height := 1
  pitch := 8
  bpp := 32
  redPos := 16
  greenPos := 8
  bluePos := 0
  depth := by decide
  pitch_lt := by decide
  height_lt := by decide
  pitch_ge := by decide
  red_le := by decide
  green_le := by decide
  blue_le := by decide
  red_green := by decide
  red_blue := by decide
  green_blue := by decide

/-- **A padded screen of 32 bits stays as it was.** -/
theorem not_presents : ¬∀ m : FbMode, Presents m := fun h =>
  not_presents_32_padded (m := paddedMode) rfl (by decide) (by decide) (by decide) (h paddedMode)

end Presents

end Gfx
end AmitX
