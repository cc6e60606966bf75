import GameBoy.Hex
import GameBoy.Instruction.Basic

/-!
# Mnemonics

The assembly text of an instruction. An immediate is written as the name of its kind: `d8` and
`d16` for data, `a8` and `a16` for addresses, and `r8` for a displacement.
-/

namespace GameBoy

/-- The assembly name of a place. -/
def Place.text : Place → String
  | b => "B"
  | c => "C"
  | d => "D"
  | e => "E"
  | h => "H"
  | l => "L"
  | atHl => "(HL)"
  | a => "A"

/-- The assembly name of a pair. -/
def Pair.text : Pair → String
  | bc => "BC"
  | de => "DE"
  | hl => "HL"
  | sp => "SP"

/-- The assembly name of a stack pair. -/
def StackPair.text : StackPair → String
  | bc => "BC"
  | de => "DE"
  | hl => "HL"
  | af => "AF"

/-- The assembly name of a pointer. -/
def Pointer.text : Pointer → String
  | bc => "(BC)"
  | de => "(DE)"
  | hlUp => "(HL+)"
  | hlDown => "(HL-)"

/-- The assembly name of a condition. -/
def Condition.text : Condition → String
  | nz => "NZ"
  | z => "Z"
  | nc => "NC"
  | c => "C"

/-- The name of an operation, up to where its second operand is written. -/
def AluOp.text : AluOp → String
  | add => "ADD A,"
  | adc => "ADC A,"
  | sub => "SUB "
  | sbc => "SBC A,"
  | and => "AND "
  | xor => "XOR "
  | or => "OR "
  | cp => "CP "

/-- The name of a rotate or shift. -/
def ShiftOp.text : ShiftOp → String
  | rlc => "RLC"
  | rrc => "RRC"
  | rl => "RL"
  | rr => "RR"
  | sla => "SLA"
  | sra => "SRA"
  | swap => "SWAP"
  | srl => "SRL"

/-- The name of an accumulator operation. -/
def AccumulatorOp.text : AccumulatorOp → String
  | rlca => "RLCA"
  | rrca => "RRCA"
  | rla => "RLA"
  | rra => "RRA"
  | daa => "DAA"
  | cpl => "CPL"
  | scf => "SCF"
  | ccf => "CCF"

/-- The operands of a branch, with its condition first. -/
def Condition.branch (name target : String) : Option Condition → String
  | none => name ++ " " ++ target
  | some condition => name ++ " " ++ condition.text ++ "," ++ target

/-- The assembly text of an instruction. -/
def Instruction.text : Instruction → String
  | nop => "NOP"
  | stop => "STOP"
  | halt => "HALT"
  | di => "DI"
  | ei => "EI"
  | loadPair target => "LD " ++ target.text ++ ",d16"
  | storeA pointer => "LD " ++ pointer.text ++ ",A"
  | loadA pointer => "LD A," ++ pointer.text
  | storeSp => "LD (a16),SP"
  | incPair pair => "INC " ++ pair.text
  | decPair pair => "DEC " ++ pair.text
  | addHl pair => "ADD HL," ++ pair.text
  | inc place => "INC " ++ place.text
  | dec place => "DEC " ++ place.text
  | loadByte target => "LD " ++ target.text ++ ",d8"
  | accumulator op => op.text
  | jr condition => Condition.branch "JR" "r8" condition
  | load target source => "LD " ++ target.text ++ "," ++ source.text
  | alu op source => op.text ++ source.text
  | aluByte op => op.text ++ "d8"
  | ret none => "RET"
  | ret (some condition) => "RET " ++ condition.text
  | reti => "RETI"
  | pop pair => "POP " ++ pair.text
  | push pair => "PUSH " ++ pair.text
  | jp condition => Condition.branch "JP" "a16" condition
  | jpHl => "JP HL"
  | call condition => Condition.branch "CALL" "a16" condition
  | rst vector => "RST " ++ Hex.byte vector ++ "H"
  | storeHigh => "LDH (a8),A"
  | loadHigh => "LDH A,(a8)"
  | storeHighC => "LD (C),A"
  | loadHighC => "LD A,(C)"
  | storeAt => "LD (a16),A"
  | loadAt => "LD A,(a16)"
  | addSp => "ADD SP,r8"
  | loadHlSp => "LD HL,SP+r8"
  | loadSpHl => "LD SP,HL"
  | prefixed => "PREFIX CB"
  | hole _ => "???"

/-- The assembly text of an instruction behind the prefix byte. -/
def Extended.text : Extended → String
  | shift op place => op.text ++ " " ++ place.text
  | test bit place => "BIT " ++ toString bit.val ++ "," ++ place.text
  | reset bit place => "RES " ++ toString bit.val ++ "," ++ place.text
  | set bit place => "SET " ++ toString bit.val ++ "," ++ place.text

end GameBoy
