import GameBoy.Cpu.Basic
import GameBoy.Lcd
import GameBoy.Video.Frame

/-!
# Settings of the machine

What is decided when a machine is built: the length of a frame in cycles, how much of a program is
mapped, what a hole of the opcode map does, whether instructions are reported, and the colours.
-/

namespace GameBoy

structure Config where
  cyclesPerFrame : UInt32 := Lcd.cyclesPerFrame
  /-- How many bytes of a program are mapped, up to the size of the cartridge window. -/
  loadWindow : Nat := Memory.windowSize
  policy : HolePolicy := .skip
  tracing : Bool := false
  palette : Palette := .gray

/-- The bytes of a program that are mapped at most. -/
def Config.window (config : Config) : Nat := min config.loadWindow Memory.windowSize

end GameBoy
