import GameBoy.Alu
import GameBoy.Instruction.Operand

/-!
# Instructions

The instruction set, one constructor for each form. Operand places, register pairs, pointers and
branch conditions are types of their own, so `LD B,(HL)` is `load .b .atHl` and `JR NZ,e` is
`jr (some .nz)`.

Three things are read off an instruction and nowhere else:

* `Instruction.operand` is the immediate that follows the opcode, hence the encoded length;
* `Instruction.cycles` is the cost in machine cycles when no branch is taken, and
  `Instruction.takenCycles` the cost when one is;
* `Instruction.taken` says whether the branch is taken, from the flags before the instruction.

An instruction behind the prefix byte is an `Extended`. Eleven opcodes have no meaning; they decode
to a `hole` that remembers its byte.
-/

namespace GameBoy

/-! ## Operands -/

/-- A place that holds a byte: a register, or memory at the address in `HL`. -/
inductive Place where
  | b
  | c
  | d
  | e
  | h
  | l
  | atHl
  | a
  deriving DecidableEq, Repr

namespace Place

/-- The place encoded by the low three bits of a byte. -/
def ofBits (bits : Byte) : Place :=
  match bits &&& 7 with
  | 0 => b
  | 1 => c
  | 2 => d
  | 3 => e
  | 4 => h
  | 5 => l
  | 6 => atHl
  | _ => a

/-- Whether reading or writing the place goes over the bus. -/
def isMemory : Place → Bool
  | atHl => true
  | _ => false

end Place

/-- A register pair of the 16-bit loads, counts and additions. -/
inductive Pair where
  | bc
  | de
  | hl
  | sp
  deriving DecidableEq, Repr

/-- The pair encoded by the low two bits of a byte. -/
def Pair.ofBits (bits : Byte) : Pair :=
  match bits &&& 3 with
  | 0 => bc
  | 1 => de
  | 2 => hl
  | _ => sp

/-- A register pair of `PUSH` and `POP`. -/
inductive StackPair where
  | bc
  | de
  | hl
  | af
  deriving DecidableEq, Repr

/-- The pair encoded by the low two bits of a byte. -/
def StackPair.ofBits (bits : Byte) : StackPair :=
  match bits &&& 3 with
  | 0 => bc
  | 1 => de
  | 2 => hl
  | _ => af

/-- A pair used as an address; `HL` may be counted up or down after the access. -/
inductive Pointer where
  | bc
  | de
  | hlUp
  | hlDown
  deriving DecidableEq, Repr

/-- The pointer encoded by the low two bits of a byte. -/
def Pointer.ofBits (bits : Byte) : Pointer :=
  match bits &&& 3 with
  | 0 => bc
  | 1 => de
  | 2 => hlUp
  | _ => hlDown

/-- A branch condition. -/
inductive Condition where
  | nz
  | z
  | nc
  | c
  deriving DecidableEq, Repr

namespace Condition

/-- The condition encoded by the low two bits of a byte. -/
def ofBits (bits : Byte) : Condition :=
  match bits &&& 3 with
  | 0 => nz
  | 1 => z
  | 2 => nc
  | _ => c

/-- Whether the flags meet the condition. -/
def holds (r : Registers) : Condition → Bool
  | nz => !r.flag .z
  | z => r.flag .z
  | nc => !r.flag .c
  | c => r.flag .c

/-- Whether a branch is taken: always when it has no condition. -/
def met (r : Registers) : Option Condition → Bool
  | none => true
  | some condition => condition.holds r

end Condition

/-! ## Pairs in the register file -/

namespace Registers

/-- The word in a pair. -/
def pair (r : Registers) : Pair → Word
  | .bc => r.bc
  | .de => r.de
  | .hl => r.hl
  | .sp => r.sp

/-- Store a word to a pair. -/
def setPair (r : Registers) (pair : Pair) (value : Word) : Registers :=
  match pair with
  | .bc => r.setBc value
  | .de => r.setDe value
  | .hl => r.setHl value
  | .sp => { r with sp := value }

/-- The word in a stack pair. -/
def stackPair (r : Registers) : StackPair → Word
  | .bc => r.bc
  | .de => r.de
  | .hl => r.hl
  | .af => r.af

/-- Store a word to a stack pair. -/
def setStackPair (r : Registers) (pair : StackPair) (value : Word) : Registers :=
  match pair with
  | .bc => r.setBc value
  | .de => r.setDe value
  | .hl => r.setHl value
  | .af => r.setAf value

/-- The address a pointer holds, and the registers after `HL` is counted up or down. -/
def follow (r : Registers) : Pointer → Word × Registers
  | .bc => (r.bc, r)
  | .de => (r.de, r)
  | .hlUp => (r.hl, r.setHl (r.hl + 1))
  | .hlDown => (r.hl, r.setHl (r.hl - 1))

end Registers

/-! ## The instruction set -/

/-- An instruction of the one-byte opcode map. -/
inductive Instruction where
  | nop
  | stop
  | halt
  /-- Disable interrupts. -/
  | di
  /-- Enable interrupts after the next instruction. -/
  | ei
  /-- `LD rr,d16` -/
  | loadPair (target : Pair)
  /-- `LD (rr),A` -/
  | storeA (pointer : Pointer)
  /-- `LD A,(rr)` -/
  | loadA (pointer : Pointer)
  /-- `LD (a16),SP` -/
  | storeSp
  | incPair (pair : Pair)
  | decPair (pair : Pair)
  /-- `ADD HL,rr` -/
  | addHl (pair : Pair)
  | inc (place : Place)
  | dec (place : Place)
  /-- `LD r,d8` -/
  | loadByte (target : Place)
  | accumulator (op : AccumulatorOp)
  | jr (condition : Option Condition)
  /-- `LD r,r` -/
  | load (target source : Place)
  | alu (op : AluOp) (source : Place)
  /-- The operation with an immediate byte. -/
  | aluByte (op : AluOp)
  | ret (condition : Option Condition)
  /-- Return and enable interrupts at once. -/
  | reti
  | pop (pair : StackPair)
  | push (pair : StackPair)
  | jp (condition : Option Condition)
  | jpHl
  | call (condition : Option Condition)
  /-- Call a fixed address in the first 64 bytes. -/
  | rst (vector : Byte)
  /-- `LDH (a8),A` -/
  | storeHigh
  /-- `LDH A,(a8)` -/
  | loadHigh
  /-- `LD (C),A` -/
  | storeHighC
  /-- `LD A,(C)` -/
  | loadHighC
  /-- `LD (a16),A` -/
  | storeAt
  /-- `LD A,(a16)` -/
  | loadAt
  /-- `ADD SP,e8` -/
  | addSp
  /-- `LD HL,SP+e8` -/
  | loadHlSp
  /-- `LD SP,HL` -/
  | loadSpHl
  /-- The byte that announces an `Extended` instruction. -/
  | prefixed
  /-- One of the eleven opcodes without a meaning. -/
  | hole (opcode : Byte)
  deriving DecidableEq, Repr

/-- An instruction behind the prefix byte. -/
inductive Extended where
  | shift (op : ShiftOp) (place : Place)
  | test (bit : Fin 8) (place : Place)
  | reset (bit : Fin 8) (place : Place)
  | set (bit : Fin 8) (place : Place)
  deriving DecidableEq, Repr

namespace Instruction

/-- The immediate that follows the opcode. -/
def operand : Instruction → OperandKind
  | stop | loadByte _ | aluByte _ | storeHigh | loadHigh => .byte
  | jr _ | addSp | loadHlSp => .offset
  | loadPair _ | storeSp | jp _ | call _ | storeAt | loadAt => .word
  | _ => .none

/-- The encoded length in bytes. -/
def length (i : Instruction) : Nat := 1 + i.operand.length

/-- Whether the instruction branches, given the flags before it. -/
def taken (r : Registers) : Instruction → Bool
  | jr condition | jp condition | call condition | ret condition => Condition.met r condition
  | _ => false

/-- The cost in machine cycles of an instruction that does not branch on a condition, or whose
condition fails. The cost of `prefixed` is that of the prefix byte alone. -/
def cycles : Instruction → Nat
  | nop | stop | halt | di | ei | accumulator _ | jpHl | prefixed => 1
  | storeA _ | loadA _ | incPair _ | decPair _ | addHl _ => 2
  | aluByte _ | storeHighC | loadHighC | loadSpHl => 2
  | loadPair _ | pop _ | storeHigh | loadHigh | loadHlSp => 3
  | reti | push _ | rst _ | storeAt | loadAt | addSp => 4
  | storeSp => 5
  | inc place | dec place => if place.isMemory then 3 else 1
  | loadByte target => if target.isMemory then 3 else 2
  | load target source => if target.isMemory || source.isMemory then 2 else 1
  | alu _ source => if source.isMemory then 2 else 1
  | jr condition => if condition.isSome then 2 else 3
  | ret condition => if condition.isSome then 2 else 4
  | jp condition => if condition.isSome then 3 else 4
  | call condition => if condition.isSome then 3 else 6
  | hole _ => 0

/-- The cost in machine cycles when a condition holds. It differs from `cycles` for the
conditional branches only. -/
def takenCycles : Instruction → Nat
  | jr (some _) => 3
  | ret (some _) => 5
  | jp (some _) => 4
  | call (some _) => 6
  | i => i.cycles

/-- The cost in machine cycles, given the flags before the instruction. -/
def cost (i : Instruction) (r : Registers) : Nat :=
  if i.taken r then i.takenCycles else i.cycles

end Instruction

namespace Extended

/-- The byte the instruction works on. -/
def place : Extended → Place
  | shift _ p | test _ p | reset _ p | set _ p => p

/-- The cost in machine cycles beyond that of the prefix byte: one, one more to read memory, and
one more to write it back. -/
def cycles : Extended → Nat
  | test _ p => if p.isMemory then 2 else 1
  | i => if i.place.isMemory then 3 else 1

end Extended

end GameBoy
