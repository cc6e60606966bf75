import GameBoy.Proofs.Alu.Bitwise
import GameBoy.Video.Background

/-!
# The background and its tiles

What the renderer draws is a function of the video memory and four registers, and here this function
is given on numbers (`Plane.color`): a point of the background, the tile that lies there, the row of
that tile, the two bits of the point in this row, and the shade that the palette register has for
them. Addresses are sums of natural numbers, and of integers where a tile number is signed, so that
none of them wraps around; the renderer computes the same ones in words, and all of them lie in the
video memory (`Background.Exact`). So memories that agree on the video memory and on the registers
hold the same picture (`Plane.SameSource.color`).

The loop over a line writes each of its points once and no other (`FrameBuffer.pixel_drawRow`).

Main theorem: `BackgroundRenderer.drawLine_eq_plane`.
-/

namespace GameBoy

/-! ## The picture on numbers -/

/-- The byte at an address, as a number. -/
def Memory.byteAt (m : Memory) (addr : ℕ) : ℕ := (m.read (UInt16.ofNat addr)).toNat

namespace Plane

/-- Where the number of the tile at a point is found: the maps are 32 tiles wide. -/
def mapAt (m : Memory) (x y : ℕ) : ℕ :=
  (if (m.byteAt 0xFF40).testBit 3 then 0x9C00 else 0x9800) + 32 * (y / 8) + x / 8

/-- Where the bytes of a tile start. Its number may be signed. -/
def tileAt (m : Memory) (tile : Byte) : ℤ :=
  if (m.byteAt 0xFF40).testBit 4 then 0x8000 + 16 * tile.toNat else 0x9000 + 16 * tile.toInt8.toInt

/-- Where the two bytes of the tile at a point start that hold the row of the point. -/
def rowAt (m : Memory) (x y : ℕ) : ℕ :=
  (tileAt m (m.read (UInt16.ofNat (mapAt m x y)))).toNat + 2 * (y % 8)

/-- The colour number of a point: its bit in the second byte, and then that in the first. -/
def number (m : Memory) (x y : ℕ) : ℕ :=
  2 * ((m.byteAt (rowAt m x y + 1)).testBit (7 - x % 8)).toNat +
    ((m.byteAt (rowAt m x y)).testBit (7 - x % 8)).toNat

/-- The colour of a shade; two bits number it. -/
def shade (palette : Palette) (bits : ℕ) : Color :=
  palette.get ⟨bits % 4, Nat.mod_lt bits (by decide)⟩

/-- The colour of a point of the screen. -/
def color (palette : Palette) (m : Memory) (x y : ℕ) : Color :=
  if (m.byteAt 0xFF40).testBit 0 then
    let c := number m ((x + m.byteAt 0xFF43) % 256) ((y + m.byteAt 0xFF42) % 256)
    shade palette (m.byteAt 0xFF47 >>> (2 * c))
  else shade palette 0

end Plane

/-! ## Addresses -/

namespace Plane

variable (m : Memory)

/-- The tile maps take up `0x9800` to `0x9FFF`. -/
theorem mapAt_bounds {x y : ℕ} (hx : x < 256) (hy : y < 256) :
    0x9800 ≤ mapAt m x y ∧ mapAt m x y ≤ 0x9FFF := by
  unfold mapAt
  split <;> omega

/-- Tiles start at `0x8000` to `0x97F0`, where the tile maps have not begun. -/
theorem tileAt_bounds (tile : Byte) : 0x8000 ≤ tileAt m tile ∧ tileAt m tile ≤ 0x97F0 := by
  have := tile.toNat_lt
  have := tile.toInt8.toInt_lt
  have := tile.toInt8.le_toInt
  unfold tileAt
  split <;> omega

theorem rowAt_bounds (x y : ℕ) : 0x8000 ≤ rowAt m x y ∧ rowAt m x y + 1 ≤ 0x97FF := by
  have := tileAt_bounds m (m.read (UInt16.ofNat (mapAt m x y)))
  unfold rowAt
  omega

end Plane

namespace Background

variable (m : Memory)

theorem lcd_eq_testBit (switch : LcdSwitch) :
    m.lcd switch = (m.byteAt 0xFF40).testBit switch.index.val :=
  Byte.has_eq_testBit _ _

theorem toNat_mapAddress (x y : Byte) :
    (mapAddress m x y).toNat = Plane.mapAt m x.toNat y.toNat := by
  have hbounds := Plane.mapAt_bounds m x.toNat_lt y.toNat_lt
  have hmap : m.lcd .backgroundMap = (m.byteAt 0xFF40).testBit 3 := lcd_eq_testBit m _
  unfold Plane.mapAt at hbounds ⊢
  rw [← hmap] at hbounds ⊢
  simp only [mapAddress, UInt16.toNat_add, UInt16.toNat_mul, UInt8.toNat_toUInt16,
    UInt8.toNat_div, apply_ite UInt16.toNat, UInt16.reduceToNat, UInt8.reduceToNat]
  omega

/-- Sixteen times a signed number, from `0x9000` on: the word is the sum of the integers. -/
theorem toNat_signed_tile (tile : Byte) :
    ((0x9000 + Byte.signExtend tile * 16 : Word).toNat : ℤ) = 0x9000 + 16 * tile.toInt8.toInt := by
  revert tile
  exact Byte.forall_of_fin (by decide +kernel)

theorem toNat_unsigned_tile (tile : Byte) :
    ((0x8000 + tile.toUInt16 * 16 : Word).toNat : ℤ) = 0x8000 + 16 * tile.toNat := by
  have := tile.toNat_lt
  simp only [UInt16.toNat_add, UInt16.toNat_mul, UInt8.toNat_toUInt16, UInt16.reduceToNat]
  omega

theorem toNat_tileAddress (tile : Byte) :
    ((tileAddress m tile).toNat : ℤ) = Plane.tileAt m tile := by
  have htiles : m.lcd .tileData = (m.byteAt 0xFF40).testBit 4 := lcd_eq_testBit m _
  rw [tileAddress, Plane.tileAt, ← htiles]
  split
  · exact toNat_unsigned_tile tile
  · exact toNat_signed_tile tile

/-- Where the row of a point starts in the tile that lies there. -/
def rowAddress (x y : Byte) : Word :=
  tileAddress m (m.read (mapAddress m x y)) + (y % 8).toUInt16 * 2

theorem rowAt_eq (x y : Byte) :
    Plane.rowAt m x.toNat y.toNat =
      (tileAddress m (m.read (mapAddress m x y))).toNat + 2 * (y.toNat % 8) := by
  rw [Plane.rowAt, ← toNat_mapAddress, UInt16.ofNat_toNat, ← toNat_tileAddress, Int.toNat_natCast]

theorem toNat_rowAddress (x y : Byte) :
    (rowAddress m x y).toNat = Plane.rowAt m x.toNat y.toNat := by
  have hbounds := Plane.rowAt_bounds m x.toNat y.toNat
  rw [rowAt_eq] at hbounds ⊢
  simp only [rowAddress, UInt16.toNat_add, UInt16.toNat_mul, UInt8.toNat_toUInt16,
    UInt8.toNat_mod, UInt16.reduceToNat, UInt8.reduceToNat]
  omega

theorem toNat_rowAddress_add_one (x y : Byte) :
    (rowAddress m x y + 1).toNat = Plane.rowAt m x.toNat y.toNat + 1 := by
  have := Plane.rowAt_bounds m x.toNat y.toNat
  simp only [UInt16.toNat_add, toNat_rowAddress, UInt16.reduceToNat]
  omega

/-! ## One point -/

theorem byteAt_toNat (addr : Word) : m.byteAt addr.toNat = (m.read addr).toNat := by
  rw [Memory.byteAt, UInt16.ofNat_toNat]

/-- The two bits of a colour number, as the renderer joins them. -/
theorem toNat_join_bits (hi lo : Bool) :
    (UInt8.ofNat hi.toNat <<< 1 ||| UInt8.ofNat lo.toNat).toNat = 2 * hi.toNat + lo.toNat := by
  revert hi lo
  decide

theorem toNat_colorNumber (x y : Byte) :
    (colorNumber m x y).toNat = Plane.number m x.toNat y.toNat := by
  have hx : (7 - x % 8).toNat = 7 - x.toNat % 8 := by
    have := x.toNat_lt
    rw [UInt8.toNat_sub_of_le, UInt8.toNat_mod]
    · rfl
    · simp only [UInt8.le_iff_toNat_le, UInt8.toNat_mod, UInt8.reduceToNat]
      omega
  have hbit (b : Byte) :
      b >>> (7 - x % 8) &&& 1 = UInt8.ofNat (b.toNat.testBit (7 - x.toNat % 8)).toNat := by
    rw [← hx, ← Byte.toNat_shiftRight_and_one _ _ (by omega), UInt8.ofNat_toNat]
  calc (colorNumber m x y).toNat
      = ((m.read (rowAddress m x y + 1) >>> (7 - x % 8) &&& 1) <<< 1 |||
          (m.read (rowAddress m x y) >>> (7 - x % 8) &&& 1)).toNat := rfl
    _ = Plane.number m x.toNat y.toNat := by
      rw [hbit, hbit, toNat_join_bits, ← byteAt_toNat, ← byteAt_toNat, toNat_rowAddress_add_one,
        toNat_rowAddress]
      rfl

/-- The shade of a colour number is two bits of the palette register. -/
theorem toNat_shadeOf (number : Byte) (h : number.toNat < 4) :
    (shadeOf m number).toNat = m.byteAt 0xFF47 >>> (2 * number.toNat) % 4 := by
  have hshift : (number * 2).toNat = 2 * number.toNat := by
    simp only [UInt8.toNat_mul, UInt8.reduceToNat]
    omega
  rw [shadeOf, UInt8.toNat_and, UInt8.toNat_shiftRight, hshift, Nat.mod_eq_of_lt (by omega)]
  exact Nat.and_two_pow_sub_one_eq_mod _ 2

theorem number_lt_four (x y : ℕ) : Plane.number m x y < 4 := by
  have h (b : Bool) : b.toNat ≤ 1 := Bool.toNat_le b
  have := h ((m.byteAt (Plane.rowAt m x y + 1)).testBit (7 - x % 8))
  have := h ((m.byteAt (Plane.rowAt m x y)).testBit (7 - x % 8))
  unfold Plane.number
  omega

theorem shade_shadeAt (palette : Palette) (x y : Byte) :
    palette.shade (shadeAt m x y) = Plane.color palette m x.toNat y.toNat := by
  have hbackground : m.lcd .background = (m.byteAt 0xFF40).testBit 0 := lcd_eq_testBit m _
  rw [Plane.color, shadeAt, ← hbackground]
  split
  · have hnumber := toNat_colorNumber m (x + m.read Hardware.scrollX) (y + m.read Hardware.scrollY)
    rw [UInt8.toNat_add, UInt8.toNat_add] at hnumber
    have hshade := toNat_shadeOf m _ (hnumber ▸ number_lt_four m _ _)
    rw [hnumber] at hshade
    refine congrArg palette.get (Fin.ext ?_)
    rw [Fin.val_ofNat, hshade, Nat.mod_mod]
    rfl
  · rfl

end Background

/-! ## The line -/

/-- A loop over points of one row writes the colour of each of them, and no other point. -/
theorem FrameBuffer.pixel_drawRow (color : ℕ → Color) (points : List ℕ) (frame : FrameBuffer)
    {line : ℕ} (hline : line < 144) (x y : ℕ) :
    (points.foldl (fun frame x => frame.setPixel x line (color x)) frame).pixel x y =
      if y = line ∧ x ∈ points ∧ x < 160 then some (color x) else frame.pixel x y := by
  induction points generalizing frame with
  | nil => simp
  | cons first rest ih =>
    rw [List.foldl_cons, ih, pixel_setPixel]
    grind

/-! ## What the picture is made from -/

namespace Plane

/-- The addresses whose bytes the picture is made from: the video memory, the control register, the
two scroll registers and the palette register. -/
def Source (addr : ℕ) : Prop :=
  (0x8000 ≤ addr ∧ addr ≤ 0x9FFF) ∨ addr ∈ [0xFF40, 0xFF42, 0xFF43, 0xFF47]

/-- The bytes that a picture is made from are the same in two memories. -/
def SameSource (m m' : Memory) : Prop :=
  ∀ addr : Word, Source addr.toNat → m.read addr = m'.read addr

section SameSource

variable {m m' : Memory} (h : SameSource m m')
include h

theorem SameSource.read {addr : ℕ} (ha : Source addr) :
    m.read (UInt16.ofNat addr) = m'.read (UInt16.ofNat addr) := by
  refine h _ ?_
  rwa [UInt16.toNat_ofNat_of_lt' (by simp [Source, UInt16.size] at ha ⊢; omega)]

theorem SameSource.byteAt {addr : ℕ} (ha : Source addr) : m.byteAt addr = m'.byteAt addr :=
  congrArg UInt8.toNat (h.read ha)

theorem SameSource.mapAt (x y : ℕ) : Plane.mapAt m x y = Plane.mapAt m' x y := by
  rw [Plane.mapAt, h.byteAt (by simp [Source]), ← Plane.mapAt]

theorem SameSource.tileAt (tile : Byte) : Plane.tileAt m tile = Plane.tileAt m' tile := by
  rw [Plane.tileAt, h.byteAt (by simp [Source]), ← Plane.tileAt]

theorem SameSource.rowAt {x y : ℕ} (hx : x < 256) (hy : y < 256) :
    Plane.rowAt m x y = Plane.rowAt m' x y := by
  have hmap := mapAt_bounds m hx hy
  rw [Plane.rowAt, h.tileAt, h.read (.inl (by omega)), h.mapAt, ← Plane.rowAt]

theorem SameSource.number {x y : ℕ} (hx : x < 256) (hy : y < 256) :
    Plane.number m x y = Plane.number m' x y := by
  have hrow := rowAt_bounds m x y
  rw [Plane.number, h.byteAt (.inl (by omega)), h.byteAt (.inl (by omega)), h.rowAt hx hy,
    ← Plane.number]

theorem SameSource.color (palette : Palette) (x y : ℕ) :
    Plane.color palette m x y = Plane.color palette m' x y := by
  have hpoint (n : ℕ) : n % 256 < 256 := Nat.mod_lt _ (by decide)
  simp only [Plane.color, h.byteAt (show Source 0xFF40 by simp [Source]),
    h.byteAt (show Source 0xFF42 by simp [Source]), h.byteAt (show Source 0xFF43 by simp [Source]),
    h.byteAt (show Source 0xFF47 by simp [Source]), h.number (hpoint _) (hpoint _)]

end SameSource

end Plane

/-! ## Drawing -/

/-- The words that the renderer computes for a point are the addresses of the plane: none of the
sums wraps around, and each of them lies in the video memory. -/
structure Background.Exact (m : Memory) (x y : Byte) : Prop where
  map : (mapAddress m x y).toNat = Plane.mapAt m x.toNat y.toNat
  tile : ∀ tile, ((tileAddress m tile).toNat : ℤ) = Plane.tileAt m tile
  row : (rowAddress m x y).toNat = Plane.rowAt m x.toNat y.toNat
  next : (rowAddress m x y + 1).toNat = Plane.rowAt m x.toNat y.toNat + 1
  map_video : 0x8000 ≤ Plane.mapAt m x.toNat y.toNat ∧ Plane.mapAt m x.toNat y.toNat ≤ 0x9FFF
  row_video : 0x8000 ≤ Plane.rowAt m x.toNat y.toNat ∧
    Plane.rowAt m x.toNat y.toNat + 1 ≤ 0x9FFF

theorem Background.exact (m : Memory) (x y : Byte) : Exact m x y where
  map := toNat_mapAddress m x y
  tile := toNat_tileAddress m
  row := toNat_rowAddress m x y
  next := toNat_rowAddress_add_one m x y
  map_video := (Plane.mapAt_bounds m x.toNat_lt y.toNat_lt).imp_left fun h => by omega
  row_video := (Plane.rowAt_bounds m x.toNat y.toNat).imp_right fun h => by omega

namespace BackgroundRenderer

variable (renderer : BackgroundRenderer) (m : Memory) (line : Byte) (frame : FrameBuffer)

theorem drawLine_eq_foldl :
    renderer.drawLine m line frame =
      if line.toNat < 144 then
        (List.range 160).foldl (fun frame x => frame.setPixel x line.toNat
          (Plane.color renderer.palette m (x % 256) line.toNat)) frame
      else frame := by
  simp only [drawLine, Background.shade_shadeAt, UInt8.toNat_ofNat']
  rfl

theorem pixel_drawLine (hline : line.toNat < 144) (x y : ℕ) :
    (renderer.drawLine m line frame).pixel x y =
      if y = line.toNat ∧ x < 160 then some (Plane.color renderer.palette m x y)
      else frame.pixel x y := by
  rw [drawLine_eq_foldl, if_pos hline, FrameBuffer.pixel_drawRow _ _ _ hline]
  simp only [List.mem_range, and_self]
  by_cases hx : y = line.toNat ∧ x < 160
  · rw [if_pos hx, if_pos hx, Nat.mod_eq_of_lt (by omega), hx.1]
  · rw [if_neg hx, if_neg hx]

/-- Drawing a line changes the points of this line and no other, and each of them gets the colour
that the background has there; no sum of addresses wraps around, and only the source of the picture
matters. -/
theorem drawLine_eq_plane :
    (144 ≤ line.toNat → renderer.drawLine m line frame = frame) ∧
      (line.toNat < 144 → ∀ x y, (renderer.drawLine m line frame).pixel x y =
        if y = line.toNat ∧ x < 160 then some (Plane.color renderer.palette m x y)
        else frame.pixel x y) ∧
      (∀ x y, Background.Exact m x y) ∧
      ∀ m', Plane.SameSource m m' →
        renderer.drawLine m' line frame = renderer.drawLine m line frame := by
  refine ⟨fun hline => ?_, renderer.pixel_drawLine m line frame, Background.exact m,
    fun m' hm => ?_⟩
  · rw [drawLine_eq_foldl, if_neg (by omega)]
  · simp only [drawLine_eq_foldl, hm.color]

/-- A tile with the number -128 at the first point of the second map, scrolled past both edges of
the plane: the point (5, 10) of the screen is its point (2, 2). -/
theorem drawLine_eq_plane_scrolled :
    let m : Memory := ⟨AddressSpace.ofFn fun addr =>
      if addr = 0xFF40 then 0x09 else if addr = 0xFF43 then 0xFD else if addr = 0xFF42 then 0xF8
      else if addr = 0xFF47 then 0x1B else if addr = 0x9C00 then 0x80
      else if addr = 0x8805 then 0x20 else 0⟩
    let drawn := drawLine {} m 10 .blank
    (144 : ℕ) ≤ (200 : Byte).toNat ∧ drawLine {} m 200 .blank = .blank ∧
      (10 : Byte).toNat < 144 ∧ drawn.pixel 5 10 = some ⟨0xAA, 0xAA, 0xAA⟩ ∧
      drawn.pixel 5 11 = some .white ∧ Plane.SameSource m (m.poke 0xC000 1) ∧
      drawLine {} (m.poke 0xC000 1) 10 .blank = drawn := by
  intro m drawn
  have hsource : Plane.SameSource m (m.poke 0xC000 1) := by
    intro addr ha
    rw [Memory.read_poke, if_neg]
    rintro rfl
    simp [Plane.Source] at ha
  obtain ⟨hbelow, -⟩ := drawLine_eq_plane {} m 200 .blank
  obtain ⟨-, hpixel, -, hsame⟩ := drawLine_eq_plane {} m 10 .blank
  refine ⟨by decide, hbelow (by decide), by decide, ?_, ?_, hsource, hsame _ hsource⟩
  · refine (hpixel (by decide) 5 10).trans ?_
    have hcontrol : m.byteAt 0xFF40 = 0x09 := by simp [Memory.byteAt, m]
    have hmap : Plane.mapAt m 2 2 = 0x9C00 := by
      rw [Plane.mapAt, hcontrol]
      decide
    have hrow : Plane.rowAt m 2 2 = 0x8804 := by
      have htile : m.read (UInt16.ofNat 0x9C00) = 0x80 := by simp [m]
      rw [Plane.rowAt, hmap, Plane.tileAt, hcontrol, htile]
      decide
    have hnumber : Plane.number m 2 2 = 2 := by
      simp [Plane.number, hrow, Memory.byteAt, m, Nat.testBit]
    have hcolor : Plane.color .gray m 5 10 = ⟨0xAA, 0xAA, 0xAA⟩ := by
      have hx : m.byteAt 0xFF43 = 0xFD := by simp [Memory.byteAt, m]
      have hy : m.byteAt 0xFF42 = 0xF8 := by simp [Memory.byteAt, m]
      have hpalette : m.byteAt 0xFF47 = 0x1B := by simp [Memory.byteAt, m]
      simp only [Plane.color, hcontrol, hx, hy, hpalette, Nat.reduceAdd, Nat.reduceMod, hnumber]
      rfl
    exact congrArg some hcolor
  · refine (hpixel (by decide) 5 11).trans ?_
    simp [FrameBuffer.blank, FrameBuffer.pixel_fill]

end BackgroundRenderer

end GameBoy
