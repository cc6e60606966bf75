import GameBoy.Cpu.Core
import GameBoy.Instruction.Decode
import GameBoy.Interrupt
import GameBoy.Outcome

/-!
# Executing one instruction

`Core.apply` is the effect of an instruction on the registers and the bus, with the program counter
already past the instruction and its immediate. `Core.execute` adds the cost, the events, and the
two instructions that go further: the prefix byte, behind which another instruction is fetched, and
the holes, which follow the processor's policy.

A conditional branch is decided by the flags before the instruction (`Instruction.taken`), and the
same decision picks the cost.
-/

namespace GameBoy.Core

variable {β : Type} [Bus β]

/-! ## Building blocks -/

/-- Read a place, and hand the byte and the registers to an operation on the registers. -/
def combine (op : Registers → Byte → Registers) (place : Place) (s : Core β) :
    Core β :=
  let (value, s) := s.readPlace place
  s.mapRegisters (op · value)

/-- Read a place, hand the byte and the registers to an operation that gives a byte, and write that
byte back to the place. -/
def update (op : Registers → Byte → Byte × Registers) (place : Place) (s : Core β) :
    Core β :=
  let (value, s) := s.readPlace place
  let (result, r) := op s.cpu.registers value
  (s.setRegisters r).writePlace place result

def loadFrom (addr : Word) (s : Core β) : Core β :=
  let (value, s) := s.read addr
  s.mapRegisters ({ · with a := value })

def storeTo (addr : Word) (s : Core β) : Core β := s.write addr s.cpu.registers.a

def popPc (s : Core β) : Core β :=
  let (pc, s) := s.pop
  s.setPc pc

def callTo (target : Word) (s : Core β) : Core β :=
  (s.push s.cpu.registers.pc).setPc target

/-- Stop until an interrupt is requested. With interrupts disabled and one already requested and
enabled, the processor does not wait; instead its next fetch does not advance. -/
def halt (s : Core β) : Core β :=
  let (pending, s) := s.read Hardware.interruptFlags
  let (enabled, s) := s.read Hardware.interruptEnable
  if !s.cpu.ime && pending &&& enabled &&& Interrupt.all != 0 then
    { s with cpu := { s.cpu with haltBug := true } }
  else
    { s with cpu := { s.cpu with halted := true } }

/-- The address in the high page with a given low byte. -/
def highPage (lo : Byte) : Word := Word.ofBytes 0xFF lo

/-! ## The instruction set -/

/-- The effect of an instruction. The prefix byte and the holes have none of their own. -/
def apply (i : Instruction) (operand : Operand) (s : Core β) : Core β :=
  match i with
  | .nop | .prefixed | .hole _ => s
  | .stop => { s with cpu := { s.cpu with stopped := true } }
  | .halt => s.halt
  | .di =>
    { s with cpu := { s.cpu with ime := false, enablePending := false, enableDelay := false } }
  | .ei => if s.cpu.ime then s else { s with cpu := { s.cpu with enablePending := true } }
  | .loadPair target => s.mapRegisters (·.setPair target operand.toWord)
  | .storeA pointer =>
    let (addr, r) := s.cpu.registers.follow pointer
    (s.setRegisters r).storeTo addr
  | .loadA pointer =>
    let (addr, r) := s.cpu.registers.follow pointer
    (s.setRegisters r).loadFrom addr
  | .storeSp => { s with bus := Bus.write16 operand.toWord s.cpu.registers.sp s.bus }
  | .incPair pair => s.mapRegisters fun r => r.setPair pair (r.pair pair + 1)
  | .decPair pair => s.mapRegisters fun r => r.setPair pair (r.pair pair - 1)
  | .addHl pair => s.mapRegisters fun r => Alu.addHl r (r.pair pair)
  | .inc place => s.update Alu.inc place
  | .dec place => s.update Alu.dec place
  | .loadByte target => s.writePlace target operand.toByte
  | .accumulator op => s.mapRegisters op.apply
  | .jr condition =>
    if Condition.met s.cpu.registers condition then
      s.mapRegisters fun r => { r with pc := r.pc + Byte.signExtend operand.toByte }
    else s
  | .load target source =>
    let (value, s) := s.readPlace source
    s.writePlace target value
  | .alu op source => s.combine op.apply source
  | .aluByte op => s.mapRegisters (op.apply · operand.toByte)
  | .ret condition => if Condition.met s.cpu.registers condition then s.popPc else s
  | .reti =>
    let s := s.popPc
    { s with cpu := { s.cpu with ime := true } }
  | .pop pair =>
    let (value, s) := s.pop
    s.mapRegisters (·.setStackPair pair value)
  | .push pair => s.push (s.cpu.registers.stackPair pair)
  | .jp condition =>
    if Condition.met s.cpu.registers condition then s.setPc operand.toWord else s
  | .jpHl => s.setPc s.cpu.registers.hl
  | .call condition =>
    if Condition.met s.cpu.registers condition then s.callTo operand.toWord else s
  | .rst vector => s.callTo vector.toUInt16
  | .storeHigh => s.storeTo (highPage operand.toByte)
  | .loadHigh => s.loadFrom (highPage operand.toByte)
  | .storeHighC => s.storeTo (highPage s.cpu.registers.c)
  | .loadHighC => s.loadFrom (highPage s.cpu.registers.c)
  | .storeAt => s.storeTo operand.toWord
  | .loadAt => s.loadFrom operand.toWord
  | .addSp =>
    let (sum, r) := Alu.addOffset s.cpu.registers s.cpu.registers.sp operand.toByte
    s.setRegisters { r with sp := sum }
  | .loadHlSp =>
    let (sum, r) := Alu.addOffset s.cpu.registers s.cpu.registers.sp operand.toByte
    s.setRegisters (r.setHl sum)
  | .loadSpHl => s.mapRegisters fun r => { r with sp := r.hl }

/-- The effect of an instruction behind the prefix byte. -/
def applyExtended (i : Extended) (s : Core β) : Core β :=
  match i with
  | .shift op place => s.update op.apply place
  | .test bit place => s.combine (fun r value => Alu.testBit r bit value) place
  | .reset bit place => s.update (fun r value => (Byte.setBit value bit false, r)) place
  | .set bit place => s.update (fun r value => (Byte.setBit value bit true, r)) place

/-- Stop at an opcode that its table has no entry for. -/
def unimplemented (opcode : Byte) (pc : Word) (extended : Bool) (s : Core β) :
    Outcome (Core β) Nat :=
  ⟨.error (.unimplementedOpcode opcode pc extended), s, #[.unimplemented opcode pc extended]⟩

/-- Fetch the byte behind the prefix and run the instruction it stands for. The cost includes that
of the prefix byte. -/
def executeExtended (s : Core β) : Outcome (Core β) Nat :=
  let pc := s.cpu.registers.pc
  let (opcode, s) := s.fetch
  match Extended.table.find? opcode with
  | none => s.unimplemented opcode pc true
  | some i =>
    ⟨.ok (Instruction.prefixed.cycles + i.cycles), s.applyExtended i,
      if s.cpu.tracing then #[.executingExtended pc i] else #[]⟩

/-- The table behind the prefix is complete. -/
theorem executeExtended_eq (s : Core β) :
    s.executeExtended =
      let i := Extended.decode s.fetch.1
      ⟨.ok (Instruction.prefixed.cycles + i.cycles), s.fetch.2.applyExtended i,
        if s.fetch.2.cpu.tracing then #[.executingExtended s.cpu.registers.pc i] else #[]⟩ := by
  unfold executeExtended
  obtain ⟨opcode, t⟩ := s.fetch
  dsimp only
  rw [Extended.find?_table]

/-- Pass over a hole or stop at it. The address reported is that of the byte before the program
counter. -/
def executeHole (opcode : Byte) (s : Core β) : Outcome (Core β) Nat :=
  let pc := s.cpu.registers.pc - 1
  match s.cpu.policy with
  | .skip => ⟨.ok (Instruction.hole opcode).cycles, s, #[.holeSkipped opcode pc]⟩
  | .fault => ⟨.error (.unassignedOpcode opcode pc), s, #[.holeHit opcode pc]⟩

/-- Run an instruction whose immediate is fetched. -/
def execute (i : Instruction) (operand : Operand) (s : Core β) :
    Outcome (Core β) Nat :=
  match i with
  | .prefixed => s.executeExtended
  | .hole opcode => s.executeHole opcode
  | .stop => ⟨.ok i.cycles, s.apply i operand, #[.stopped (s.cpu.registers.pc - 2)]⟩
  | _ => .ok (i.cost s.cpu.registers) (s.apply i operand)

theorem execute_prefixed (operand : Operand) (s : Core β) :
    s.execute .prefixed operand =
      let i := Extended.decode s.fetch.1
      ⟨.ok (Instruction.prefixed.cycles + i.cycles), s.fetch.2.applyExtended i,
        if s.fetch.2.cpu.tracing then #[.executingExtended s.cpu.registers.pc i] else #[]⟩ :=
  executeExtended_eq s

end GameBoy.Core
