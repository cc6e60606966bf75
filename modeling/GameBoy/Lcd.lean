import GameBoy.Event
import GameBoy.Memory

/-!
# Display timing

The display draws one line every 114 machine cycles, and counts its lines from 0 to 153. The first
144 are visible; the rest is the vertical blank.

A `ScanlineTimer` is a countdown to the next line. `ScanlineTimer.advance` consumes cycles from it.
When it runs out, the timer adds a whole line to it, so that cycles beyond the end of a line count
toward the next one, and moves the line register on. Reaching line 144 requests the vertical blank
interrupt. On each new line the status register is brought up to date, and a line that newly equals
the compare register requests the status interrupt if the program has enabled it.
-/

namespace GameBoy

/-! ## The control register -/

/-- The switches of the display control register, from bit 0 up. -/
inductive LcdSwitch where
  | background
  | objects
  | tallObjects
  /-- The background takes its tile map at `0x9C00`, not at `0x9800`. -/
  | backgroundMap
  /-- Tile numbers are unsigned and count from `0x8000`; otherwise signed, from `0x9000`. -/
  | tileData
  | window
  | windowMap
  | power
  deriving DecidableEq, Repr

namespace LcdSwitch

/-- The bit of the control register that holds the switch. -/
def index : LcdSwitch → Fin 8
  | background => 0
  | objects => 1
  | tallObjects => 2
  | backgroundMap => 3
  | tileData => 4
  | window => 5
  | windowMap => 6
  | power => 7

def isOn (control : Byte) (switch : LcdSwitch) : Bool := Byte.has control switch.index

end LcdSwitch

def Memory.lcd (m : Memory) (switch : LcdSwitch) : Bool := switch.isOn (m.read Hardware.lcdControl)

/-! ## Lines -/

namespace Lcd

def cyclesPerLine : Nat := 114

/-- The number of visible lines, and so the first line of the vertical blank. -/
def vblankLine : Nat := 144

def lastLine : Nat := 153

def cyclesPerFrame : UInt32 := 17556

def nextLine (line : Byte) : Byte := if line.toNat < lastLine then line + 1 else 0

theorem toNat_nextLine (line : Byte) :
    (nextLine line).toNat = if line.toNat < 153 then line.toNat + 1 else 0 := by
  unfold nextLine lastLine
  split
  · rw [UInt8.toNat_add]
    simp only [UInt8.reduceToNat]
    omega
  · rfl

/-- The bit of the status register that shows a match with the compare register. -/
def matchBit : Byte := 0x04

/-- The bit of the status register that enables the interrupt on a match. -/
def matchInterruptBit : Byte := 0x40

/-- The status byte for a line: its mode in the two low bits, whether it matches in the next, and
the rest kept. -/
def statusFor (status line : Byte) (isMatch : Bool) : Byte :=
  (status &&& 0xF8) ||| (if line.toNat < vblankLine then 0 else 1) |||
    (if isMatch then matchBit else 0)

/-- Bring the status register up to date with a new line, and request the status interrupt on a
match that was not there before. -/
def updateStatus (m : Memory) (line : Byte) : Memory :=
  let status := m.read Hardware.lcdStatus
  let isMatch := line == m.read Hardware.lineCompare
  let m := m.poke Hardware.lcdStatus (statusFor status line isMatch)
  if isMatch && status &&& matchBit == 0 && status &&& matchInterruptBit != 0 then
    Interrupt.request Interrupt.lcdStat.mask m
  else m

/-- Move the line register on to a new line. -/
def enterLine (m : Memory) (line : Byte) : Memory :=
  let m := m.poke Hardware.line line
  let m := if line.toNat == vblankLine then Interrupt.request Interrupt.vblank.mask m else m
  updateStatus m line

end Lcd

/-! ## The timer -/

/-- A countdown to the next line, in machine cycles. -/
structure ScanlineTimer where
  countdown : Int := Lcd.cyclesPerLine
  deriving DecidableEq, Repr

/-- What an advance of the timer gives: the line that ended, if one did. -/
structure LineAdvance where
  finished : Option Byte
  timer : ScanlineTimer
  memory : Memory
  events : Array Event := #[]

/-- Consume cycles and end at most one line. Nothing happens while the display is off. -/
def ScanlineTimer.advance (timer : ScanlineTimer) (m : Memory) (cycles : Nat) : LineAdvance :=
  if m.lcd .power then
    let left := timer.countdown - cycles
    if left > 0 then ⟨none, ⟨left⟩, m, #[]⟩
    else
      let finished := m.read Hardware.line
      let line := Lcd.nextLine finished
      ⟨some finished, ⟨left + Lcd.cyclesPerLine⟩, Lcd.enterLine m line,
        if line.toNat == Lcd.vblankLine then #[.vblankEntered] else #[]⟩
  else ⟨none, timer, m, #[]⟩

end GameBoy
