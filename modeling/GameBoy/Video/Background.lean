import GameBoy.Lcd
import GameBoy.Video.Frame

/-!
# Drawing a line

`LineRenderer` is what the machine asks for when a visible line ends: something that looks at the
memory and draws into the frame. A renderer may keep a state of its own.

`BackgroundRenderer` draws the background: a picture of 256 by 256 points, made of 32 by 32 tiles of
eight by eight points, that scrolls under the screen and wraps around at its edges. A tile takes two
bytes per row, whose bits together number a colour from 0 to 3, and the palette register maps these
numbers to shades.
-/

namespace GameBoy

/-- A way to draw a line that just ended. -/
class LineRenderer (ρ : Type) where
  /-- Draw a line, given the memory at its end. -/
  renderLine : ρ → Memory → Byte → FrameBuffer → ρ × FrameBuffer

/-- Draws the background in the colours of a palette. -/
structure BackgroundRenderer where
  palette : Palette := .gray

namespace Background

/-- The address of the tile number for a point of the background. -/
def mapAddress (m : Memory) (x y : Byte) : Word :=
  (if m.lcd .backgroundMap then 0x9C00 else 0x9800) + (y / 8).toUInt16 * 32 + (x / 8).toUInt16

def tileAddress (m : Memory) (tile : Byte) : Word :=
  if m.lcd .tileData then 0x8000 + tile.toUInt16 * 16
  else 0x9000 + Byte.signExtend tile * 16

/-- The colour number of a point of the background. -/
def colorNumber (m : Memory) (x y : Byte) : Byte :=
  let row := tileAddress m (m.read (mapAddress m x y)) + (y % 8).toUInt16 * 2
  let shift := 7 - x % 8
  let lo := m.read row >>> shift &&& 1
  let hi := m.read (row + 1) >>> shift &&& 1
  hi <<< 1 ||| lo

/-- The shade that the palette register gives to a colour number. -/
def shadeOf (m : Memory) (number : Byte) : Byte :=
  m.read Hardware.backgroundPalette >>> (number * 2) &&& 3

def shadeAt (m : Memory) (x y : Byte) : Byte :=
  if m.lcd .background then
    shadeOf m (colorNumber m (x + m.read Hardware.scrollX) (y + m.read Hardware.scrollY))
  else 0

end Background

/-- Draw one line of the background; a line below the screen is not drawn. -/
def BackgroundRenderer.drawLine (renderer : BackgroundRenderer) (m : Memory) (line : Byte)
    (frame : FrameBuffer) : FrameBuffer :=
  if line.toNat < Screen.height then
    (List.range Screen.width).foldl (fun frame x =>
      frame.setPixel x line.toNat
        (renderer.palette.shade (Background.shadeAt m (UInt8.ofNat x) line))) frame
  else frame

instance : LineRenderer BackgroundRenderer where
  renderLine renderer m line frame := (renderer, renderer.drawLine m line frame)

/-- Draws nothing and remembers which lines it was asked to draw, the oldest first. -/
structure LineRecorder where
  lines : Array Byte := #[]
  deriving DecidableEq, Repr

instance : LineRenderer LineRecorder where
  renderLine recorder _ line frame := (⟨recorder.lines.push line⟩, frame)

end GameBoy
