import GameBoy.Word

/-!
# Hardware registers

The addresses of the memory-mapped registers that the hardware reads and writes on its own.
-/

namespace GameBoy.Hardware

/-- Joypad: group selection and the state of the selected buttons. -/
def joypad : Word := 0xFF00

/-- Interrupt flags: the sources that have requested service. -/
def interruptFlags : Word := 0xFF0F

/-- Display control. -/
def lcdControl : Word := 0xFF40

/-- Display status. -/
def lcdStatus : Word := 0xFF41

/-- Vertical scroll of the background. -/
def scrollY : Word := 0xFF42

/-- Horizontal scroll of the background. -/
def scrollX : Word := 0xFF43

/-- The current line. A store by the processor clears it. -/
def line : Word := 0xFF44

/-- The line to compare the current one with. -/
def lineCompare : Word := 0xFF45

/-- The palette of the background. -/
def backgroundPalette : Word := 0xFF47

/-- Interrupt enable: the sources that may be served. -/
def interruptEnable : Word := 0xFFFF

end GameBoy.Hardware
