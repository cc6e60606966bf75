import GameBoy.Bus
import GameBoy.Cpu.Basic
import GameBoy.Instruction.Basic

/-!
# The processor on its bus

A `Core` is a processor together with the bus it works on. This module holds the steps that
instructions are made of: fetching at the program counter, reading and writing an operand place,
and the stack.

Every step is a function of the core. The order in which a step uses the bus is the order in which
its definition reads.
-/

namespace GameBoy

/-- A processor and the bus it works on. -/
structure Core (β : Type) where
  cpu : Cpu
  bus : β

namespace Core

variable {β : Type} [Bus β]

def mapRegisters (f : Registers → Registers) (s : Core β) : Core β :=
  { s with cpu := { s.cpu with registers := f s.cpu.registers } }

def setRegisters (r : Registers) (s : Core β) : Core β :=
  { s with cpu := { s.cpu with registers := r } }

/-- Jump: replace the program counter. -/
def setPc (pc : Word) (s : Core β) : Core β := s.mapRegisters ({ · with pc := pc })

def read (addr : Word) (s : Core β) : Byte × Core β :=
  let (value, bus) := Bus.read8 addr s.bus
  (value, { s with bus := bus })

def write (addr : Word) (value : Byte) (s : Core β) : Core β :=
  { s with bus := Bus.write8 addr value s.bus }

/-! ## Fetching -/

/-- Read the byte at the program counter and move the counter past it. After the halt bug the
counter stays for one fetch. -/
def fetch (s : Core β) : Byte × Core β :=
  let (value, s) := s.read s.cpu.registers.pc
  if s.cpu.haltBug then
    (value, { s with cpu := { s.cpu with haltBug := false } })
  else
    (value, s.mapRegisters fun r => { r with pc := r.pc + 1 })

theorem fetch_fst (s : Core β) : s.fetch.1 = (Bus.read8 s.cpu.registers.pc s.bus).1 := by
  unfold fetch
  dsimp only
  split <;> rfl

theorem bus_fetch (s : Core β) : s.fetch.2.bus = (Bus.read8 s.cpu.registers.pc s.bus).2 := by
  unfold fetch
  dsimp only
  split <;> rfl

theorem pc_fetch (s : Core β) :
    s.fetch.2.cpu.registers.pc =
      if s.cpu.haltBug then s.cpu.registers.pc else s.cpu.registers.pc + 1 := by
  unfold fetch
  dsimp only
  split
  · rename_i h
    exact (if_pos h).symm
  · rename_i h
    exact (if_neg h).symm

/-- Fetch a word, its low byte first. -/
def fetchWord (s : Core β) : Word × Core β :=
  let (lo, s) := s.fetch
  let (hi, s) := s.fetch
  (Word.ofBytes hi lo, s)

/-- Fetch the immediate of a given kind. -/
def fetchOperand (kind : OperandKind) (s : Core β) : Operand × Core β :=
  match kind with
  | .none => (.none, s)
  | .byte => let (value, s) := s.fetch; (.byte value, s)
  | .offset => let (value, s) := s.fetch; (.offset value, s)
  | .word => let (value, s) := s.fetchWord; (.word value, s)

/-! ## Operand places -/

def readPlace (place : Place) (s : Core β) : Byte × Core β :=
  match place with
  | .b => (s.cpu.registers.b, s)
  | .c => (s.cpu.registers.c, s)
  | .d => (s.cpu.registers.d, s)
  | .e => (s.cpu.registers.e, s)
  | .h => (s.cpu.registers.h, s)
  | .l => (s.cpu.registers.l, s)
  | .atHl => s.read s.cpu.registers.hl
  | .a => (s.cpu.registers.a, s)

def writePlace (place : Place) (value : Byte) (s : Core β) : Core β :=
  match place with
  | .b => s.mapRegisters ({ · with b := value })
  | .c => s.mapRegisters ({ · with c := value })
  | .d => s.mapRegisters ({ · with d := value })
  | .e => s.mapRegisters ({ · with e := value })
  | .h => s.mapRegisters ({ · with h := value })
  | .l => s.mapRegisters ({ · with l := value })
  | .atHl => s.write s.cpu.registers.hl value
  | .a => s.mapRegisters ({ · with a := value })

/-! ## The stack -/

/-- Push a word: the high byte below the stack pointer, and the low byte below that. -/
def push (value : Word) (s : Core β) : Core β :=
  let sp := s.cpu.registers.sp
  let s := s.write (sp - 1) (Word.hi value)
  let s := s.write (sp - 2) (Word.lo value)
  s.mapRegisters ({ · with sp := sp - 2 })

def pop (s : Core β) : Word × Core β :=
  let sp := s.cpu.registers.sp
  let (value, bus) := Bus.read16 sp s.bus
  (value, { s with bus := bus }.mapRegisters ({ · with sp := sp + 2 }))

end Core

end GameBoy
