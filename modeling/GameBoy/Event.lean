import GameBoy.Instruction.Mnemonic
import GameBoy.Interrupt
import GameBoy.Registers

/-!
# Log records

The machine tells what it does as a list of events. An event is data; `Event.level` is its
severity and `Event.text` its wording. Nothing the machine does depends on the events, so a reader
that filters them by level sees the same machine.
-/

namespace GameBoy

/-- Severities, the most severe first. -/
inductive Level where
  | error
  | warn
  | info
  | debug
  | trace
  deriving DecidableEq, Repr

/-- Something the machine did. -/
inductive Event where
  /-- An instruction is about to run; its immediate is fetched. -/
  | executing (pc : Word) (instruction : Instruction) (operand : Operand) (registers : Registers)
  /-- An instruction behind the prefix byte is about to run. -/
  | executingExtended (pc : Word) (instruction : Extended)
  /-- The processor entered the stopped state. -/
  | stopped (pc : Word)
  /-- A button ended the stopped state. -/
  | resumed
  /-- An opcode without an entry in its table stopped the machine. -/
  | unimplemented (opcode : Byte) (pc : Word) (extended : Bool)
  /-- A hole of the opcode map was passed over. -/
  | holeSkipped (opcode : Byte) (pc : Word)
  /-- A hole of the opcode map stopped the machine. -/
  | holeHit (opcode : Byte) (pc : Word)
  /-- An interrupt was dispatched; `pc` is the return address. -/
  | dispatched (source : Interrupt) (pc sp : Word) (pending enabled : Byte)
  /-- The interrupt registers overlap outside the five sources. -/
  | overlap (pending enabled : Byte)
  /-- The display finished its last visible line. -/
  | vblankEntered
  /-- A program with a header was loaded. -/
  | loaded (title : String) (cartridgeType romSize : Byte) (copied length : Nat)
  /-- A program without a header was loaded. -/
  | loadedPlain (copied : Nat)
  /-- The header of a loaded program contradicts its own checksum. -/
  | checksumMismatch (stated computed : Byte)
  /-- A loaded program expects more memory than the fixed window. -/
  | banked (cartridgeType : Byte) (window : Nat)
  /-- A run gave up after too many steps without a cost. -/
  | stalled (steps : Nat) (pc : Word)

namespace Event

/-- The severity of an event. -/
def level : Event → Level
  | executing .. | executingExtended .. => .trace
  | stopped _ | resumed | dispatched .. | vblankEntered => .debug
  | loaded .. | loadedPlain _ => .info
  | holeSkipped .. | checksumMismatch .. | banked .. | stalled .. => .warn
  | unimplemented .. | holeHit .. | overlap .. => .error

/-- Text padded on the right with blanks to a width. -/
def padRight (width : Nat) (text : String) : String :=
  text ++ String.ofList (List.replicate (width - text.length) ' ')

/-- The wording of an event. -/
def text : Event → String
  | executing pc instruction operand r =>
    Hex.word pc ++ ": " ++ padRight 14 instruction.text ++ " " ++ operand.text ++
      " af=" ++ Hex.word r.af ++ " bc=" ++ Hex.word r.bc ++ " de=" ++ Hex.word r.de ++
      " hl=" ++ Hex.word r.hl ++ " sp=" ++ Hex.word r.sp
  | executingExtended pc instruction => Hex.word pc ++ ": " ++ instruction.text
  | stopped pc => "GB CPU: STOP at pc=0x" ++ Hex.word pc
  | resumed => "GB CPU: leaving STOP on joypad input"
  | unimplemented opcode pc extended =>
    "GB CPU: unimplemented opcode 0x" ++ (if extended then "CB 0x" else "") ++ Hex.byte opcode ++
      " at pc=0x" ++ Hex.word pc
  | holeSkipped opcode pc =>
    "GB CPU: unassigned opcode 0x" ++ Hex.byte opcode ++ " at pc=0x" ++ Hex.word pc ++ " skipped"
  | holeHit opcode pc =>
    "GB CPU: unassigned opcode 0x" ++ Hex.byte opcode ++ " at pc=0x" ++ Hex.word pc
  | dispatched source pc sp pending enabled =>
    "GB CPU interrupt: Interrupt(" ++ source.name ++ ") vector=0x" ++ Hex.word source.vector ++
      " pc=0x" ++ Hex.word pc ++ " sp=0x" ++ Hex.word sp ++
      " IF=0x" ++ Hex.byte pending ++ " IE=0x" ++ Hex.byte enabled
  | overlap pending enabled =>
    "GB CPU interrupt state invalid: IF=0x" ++ Hex.byte pending ++ " IE=0x" ++ Hex.byte enabled ++
      " overlap only outside the five sources"
  | vblankEntered => "GB LCD: entering vblank"
  | loaded title cartridgeType romSize copied length =>
    "GB: loaded '" ++ title ++ "' type=0x" ++ Hex.byte cartridgeType ++
      " rom_size=0x" ++ Hex.byte romSize ++
      " (" ++ toString copied ++ " of " ++ toString length ++ " bytes mapped)"
  | loadedPlain copied => "GB: loaded " ++ toString copied ++ " bytes (no cartridge header)"
  | checksumMismatch stated computed =>
    "GB: header checksum mismatch (header=0x" ++ Hex.byte stated ++
      " computed=0x" ++ Hex.byte computed ++ ")"
  | banked cartridgeType window =>
    "GB: cartridge type 0x" ++ Hex.byte cartridgeType ++
      " uses bank switching; only the first 0x" ++ Hex.padded 4 window ++ " bytes are mapped"
  | stalled steps pc =>
    "GB: no cycles retired for " ++ toString steps ++ " steps at pc=0x" ++ Hex.word pc ++
      "; ending step early"

end Event

end GameBoy
