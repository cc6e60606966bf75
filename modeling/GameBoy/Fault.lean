import GameBoy.Hex

/-!
# Faults

The conditions that stop the machine. A fault is a cause with the numbers that describe it;
`Fault.message` is its text.
-/

namespace GameBoy

/-- Why the machine stopped, or why a program was refused. -/
inductive Fault where
  /-- The opcode at `pc` is not modelled; `extended` says that it stood behind the prefix byte. -/
  | unimplementedOpcode (opcode : Byte) (pc : Word) (extended : Bool)
  /-- The opcode at `pc` is a hole of the opcode map. -/
  | unassignedOpcode (opcode : Byte) (pc : Word)
  /-- The requested and enabled interrupts overlap, but on none of the five sources. -/
  | invalidInterruptState (pending enabled : Byte)
  /-- There is no program to load. -/
  | emptyProgram
  deriving DecidableEq, Repr

/-- The text of a fault. -/
def Fault.message : Fault → String
  | unimplementedOpcode opcode pc extended =>
    "unimplemented opcode 0x" ++ Hex.byte opcode ++ " (extended=" ++ toString extended ++
      ") at PC=0x" ++ Hex.word pc
  | unassignedOpcode opcode pc =>
    "unassigned opcode 0x" ++ Hex.byte opcode ++ " at PC=0x" ++ Hex.word pc
  | invalidInterruptState pending enabled =>
    "invalid interrupt state: IF=0x" ++ Hex.byte pending ++ " IE=0x" ++ Hex.byte enabled ++
      " overlap outside the five sources"
  | emptyProgram => "program image is empty"

end GameBoy
