import GameBoy.Bus
import GameBoy.Hardware

/-!
# Interrupt sources

Five sources share the two interrupt registers: source `k` owns bit `k` of the flags, where it
requests service, and bit `k` of the enable register. The lower bit has priority, and the service
routine of source `k` starts at `0x40 + 8 * k`.
-/

namespace GameBoy

/-- The interrupt sources, the one with the highest priority first. -/
inductive Interrupt where
  | vblank
  | lcdStat
  | timer
  | serial
  | joypad
  deriving DecidableEq, Repr

namespace Interrupt

/-- The order of service. -/
def priority : List Interrupt := [vblank, lcdStat, timer, serial, joypad]

/-- The bit that the source owns. -/
def index : Interrupt → Fin 8
  | vblank => 0
  | lcdStat => 1
  | timer => 2
  | serial => 3
  | joypad => 4

/-- The byte in which only the source's bit is set. -/
def mask (source : Interrupt) : Byte := Byte.bit source.index

/-- The byte in which the bits of all sources are set. -/
def all : Byte := 0x1F

/-- The address that belongs to the lowest set bit of a byte. -/
def vectorOfBits (bits : Byte) : Word := 0x40 + 8 * UInt16.ofNat (Byte.trailingZeros bits)

/-- The address of the source's service routine. -/
def vector (source : Interrupt) : Word := vectorOfBits source.mask

theorem toNat_vector (source : Interrupt) :
    source.vector.toNat = 0x40 + 8 * source.index.val := by
  cases source <;> decide

/-- The first source in the order of service whose bit is set. -/
def first? (bits : Byte) : Option Interrupt :=
  priority.find? fun source => bits &&& source.mask != 0

/-- Set bits of the interrupt flags and keep the others. -/
def request {β : Type} [Bus β] (bits : Byte) (bus : β) : β :=
  let (flags, bus) := Bus.read8 Hardware.interruptFlags bus
  Bus.write8 Hardware.interruptFlags (flags ||| bits) bus

/-- The name of the source in log records. -/
def name : Interrupt → String
  | vblank => "VBLANK"
  | lcdStat => "LCD_STAT"
  | timer => "TIMER"
  | serial => "SERIAL"
  | joypad => "JOYPAD"

end Interrupt

end GameBoy
