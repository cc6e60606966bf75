import GameBoy.Video.Frame

/-!
# The frame as a raster

Points of a frame are given colours one at a time, or all at once, and a point off the screen may be
asked for as well. Whatever was drawn, a point of the screen has the colour of the last stroke that
covers it (`FrameBuffer.pixel_drawAll`), because a stroke on one point leaves all others alone,
those at the start of the next row included. In the picture its colour stands in three bytes
(`FrameBuffer.extract_toBytes`).

Main theorem: `FrameBuffer.isRaster_drawAll`.
-/

namespace GameBoy

/-- A colour as it stands in a picture. -/
def Color.bytes (color : Color) : List Byte := [color.r, color.g, color.b]

/-! ## Strokes -/

/-- What is asked of a frame: to give a point a colour, or to give it to all points. -/
inductive Stroke where
  | point (x y : Nat) (color : Color)
  | fill (color : Color)
  deriving Repr

namespace Stroke

def color : Stroke → Color
  | point _ _ color => color
  | fill color => color

/-- Whether a stroke is about a point. -/
def covers (x y : Nat) : Stroke → Bool
  | point x' y' _ => x == x' && y == y'
  | fill _ => true

/-- The colour of the last stroke that covers a point. -/
def lastColor? (x y : Nat) (strokes : List Stroke) : Option Color :=
  (strokes.reverse.find? (covers x y)).map color

theorem lastColor?_cons (x y : Nat) (stroke : Stroke) (strokes : List Stroke) :
    lastColor? x y (stroke :: strokes) =
      (lastColor? x y strokes).or (if stroke.covers x y then some stroke.color else none) := by
  simp only [lastColor?, List.reverse_cons, List.find?_append, Option.map_or,
    List.find?_singleton]
  split <;> rfl

end Stroke

namespace FrameBuffer

/-- The frame after a stroke. -/
def draw (frame : FrameBuffer) : Stroke → FrameBuffer
  | .point x y color => frame.setPixel x y color
  | .fill color => frame.fill color

/-- The frame after some strokes. -/
def drawAll (frame : FrameBuffer) (strokes : List Stroke) : FrameBuffer := strokes.foldl draw frame

/-! ## Bytes -/

theorem extract_slot (frame : FrameBuffer) (slot : Slot) :
    (frame.toBytes.extract slot.start (slot.start + 3)).toList = (frame.slice slot).bytes := by
  have hfits := slot.fits
  have hlength : frame.toBytes.toList.length = 160 * 144 * 3 := frame.size_toBytes
  rw [Array.toList_extract, List.extract_eq_take_drop, Nat.add_sub_cancel_left,
    List.drop_eq_getElem_cons (by omega), List.drop_eq_getElem_cons (by omega),
    List.drop_eq_getElem_cons (by omega)]
  rfl

/-- Where the bytes of a point start in the picture. -/
def offset (x y : Nat) : Nat := 3 * (160 * y + x)

theorem extract_toBytes {frame : FrameBuffer} {x y : Nat} {color : Color}
    (h : frame.pixel x y = some color) :
    (frame.toBytes.extract (offset x y) (offset x y + 3)).toList = color.bytes := by
  unfold pixel at h
  by_cases inside : x < 160 ∧ y < 144
  · rw [slot?_of_inside inside] at h
    obtain rfl : frame.slice (chunk ⟨160 * y + x, by omega⟩) = color := Option.some.inj h
    exact frame.extract_slot (chunk ⟨160 * y + x, by omega⟩)
  · rw [slot?_of_outside inside] at h
    cases h

/-! ## Points -/

section

variable {x y : Nat} (hx : x < 160) (hy : y < 144)
include hx hy

theorem pixel_draw (frame : FrameBuffer) (stroke : Stroke) :
    (frame.draw stroke).pixel x y =
      if stroke.covers x y then some stroke.color else frame.pixel x y := by
  cases stroke with
  | fill color =>
    show (frame.fill color).pixel x y = some color
    rw [pixel_fill, if_pos ⟨hx, hy⟩]
  | point x' y' color =>
    have hcovers : (x = x' ∧ y = y' ∧ x' < 160 ∧ y' < 144) ↔
        (Stroke.point x' y' color).covers x y = true := by
      simp only [Stroke.covers, Bool.and_eq_true, beq_iff_eq]
      omega
    simp only [draw, pixel_setPixel, hcovers, Stroke.color]

/-- A point of the screen has the colour of the last stroke that covers it. -/
theorem pixel_drawAll (frame : FrameBuffer) (strokes : List Stroke) :
    (frame.drawAll strokes).pixel x y = (Stroke.lastColor? x y strokes).or (frame.pixel x y) := by
  induction strokes generalizing frame with
  | nil => rfl
  | cons stroke strokes ih =>
    show ((frame.draw stroke).drawAll strokes).pixel x y = _
    rw [ih, pixel_draw hx hy, Stroke.lastColor?_cons]
    cases Stroke.lastColor? x y strokes <;> by_cases h : stroke.covers x y <;> simp [h]

end

/-- The end of a row is not the start of the next one. -/
example : (blank.drawAll [.fill .black, .point 160 0 .white]).pixel 0 1 = some .black := by
  rw [pixel_drawAll (by decide) (by decide)]
  rfl

theorem setPixel_outside (frame : FrameBuffer) {x y : Nat} (h : 160 ≤ x ∨ 144 ≤ y) (color : Color) :
    frame.setPixel x y color = frame := by
  rw [setPixel, slot?_of_outside (by omega)]

/-! ## Rasters -/

/-- The frame has these colours on the screen and nothing off it, and the picture has them row by
row. -/
structure IsRaster (frame : FrameBuffer) (colorAt : Nat → Nat → Color) : Prop where
  size : frame.toBytes.size = 69120
  none_iff : ∀ x y, frame.pixel x y = none ↔ 160 ≤ x ∨ 144 ≤ y
  pixel : ∀ x y, x < 160 → y < 144 → frame.pixel x y = some (colorAt x y)
  inRange : ∀ x y, x < 160 → y < 144 → offset x y + 3 ≤ frame.toBytes.size
  bytes : ∀ x y, x < 160 → y < 144 →
    (frame.toBytes.extract (offset x y) (offset x y + 3)).toList = (colorAt x y).bytes
  outside : ∀ x y, 160 ≤ x ∨ 144 ≤ y → ∀ color, frame.setPixel x y color = frame

/-- Whatever is drawn on a blank frame, it is a raster of the colours drawn last. -/
theorem isRaster_drawAll (strokes : List Stroke) :
    (blank.drawAll strokes).IsRaster fun x y => (Stroke.lastColor? x y strokes).getD .white := by
  have hpixel : ∀ x y, x < 160 → y < 144 → (blank.drawAll strokes).pixel x y =
      some ((Stroke.lastColor? x y strokes).getD .white) := by
    intro x y hx hy
    have hblank : blank.pixel x y = some .white := by rw [blank, pixel_fill, if_pos ⟨hx, hy⟩]
    rw [pixel_drawAll hx hy, hblank]
    cases Stroke.lastColor? x y strokes <;> rfl
  constructor
  case size => exact size_toBytes _
  case none_iff => exact pixel_eq_none_iff _
  case pixel => exact hpixel
  case inRange =>
    intro x y hx hy
    rw [size_toBytes, offset]
    omega
  case bytes =>
    intro x y hx hy
    exact extract_toBytes (hpixel x y hx hy)
  case outside =>
    intro x y h color
    exact setPixel_outside _ h color

end FrameBuffer

end GameBoy
