import GameBoy.Registers

/-!
# The processor

The state of the processor: its registers, the interrupt master enable, the two low-power states,
and three flags that reach from one instruction into the next.

* `haltBug` makes the next opcode fetch leave the program counter where it is.
* `enablePending` and `enableDelay` are the two stages by which `EI` takes effect. `EI` sets the
  first; it moves to the second when `EI` itself is over, and to `ime` when the instruction after
  `EI` is over.

`Cpu.powerOn` is the state in which the boot program hands over control.
-/

namespace GameBoy

/-- What to do with an opcode that has no meaning. -/
inductive HolePolicy where
  /-- Pass over it at no cost. -/
  | skip
  /-- Stop the machine. -/
  | fault
  deriving DecidableEq, Repr

structure Cpu where
  registers : Registers
  ime : Bool := false
  halted : Bool := false
  stopped : Bool := false
  /-- The next opcode fetch does not advance the program counter. -/
  haltBug : Bool := false
  /-- `EI` was the instruction that is now running. -/
  enablePending : Bool := false
  /-- `EI` was the instruction before the one that is now running. -/
  enableDelay : Bool := false
  policy : HolePolicy := .skip
  /-- Whether every instruction is reported as an event. -/
  tracing : Bool := false
  deriving DecidableEq, Repr

namespace Cpu

/-- The registers at power-on. -/
def powerOnRegisters : Registers :=
  { a := 0x01, f := 0xB0, b := 0x00, c := 0x13, d := 0x00, e := 0xD8, h := 0x01, l := 0x4D,
    sp := 0xFFFE, pc := 0x0100 }

def powerOn : Cpu := { registers := powerOnRegisters }

/-- Return to power-on; the two settings stay. -/
def reset (cpu : Cpu) : Cpu := { powerOn with policy := cpu.policy, tracing := cpu.tracing }

/-- Whether an `EI` has yet to take effect. -/
def enableScheduled (cpu : Cpu) : Bool := cpu.enablePending || cpu.enableDelay

/-- Move a scheduled enable on by one instruction. -/
def advanceEnable (cpu : Cpu) : Cpu :=
  if cpu.enableDelay then { cpu with ime := true, enableDelay := false }
  else if cpu.enablePending then { cpu with enablePending := false, enableDelay := true }
  else cpu

theorem registers_advanceEnable (cpu : Cpu) : cpu.advanceEnable.registers = cpu.registers := by
  unfold advanceEnable
  split
  · rfl
  · split <;> rfl

theorem haltBug_advanceEnable (cpu : Cpu) : cpu.advanceEnable.haltBug = cpu.haltBug := by
  unfold advanceEnable
  split
  · rfl
  · split <;> rfl

end Cpu

end GameBoy
