import GameBoy.Proofs.Core.ProgramCounter

/-!
# Measuring accesses

A `Bus.Meter` reads a number off a bus to which every read adds one fixed amount and every write
another: the number of accesses, or of writes alone. How far an instruction moves it depends on
nothing but how often it reads and writes, beyond its own encoding, and that is a table
(`Instruction.loads`, `Instruction.stores`).

Main lemma: `Bus.Meter.reading_runInstruction`. It is proved along the moves of the processor and
for all meters at once, so that a law about one kind of access needs no induction of its own.
-/

namespace GameBoy

/-! ## Loads and stores -/

/-- The accesses of one use of a place. -/
def Place.accesses (place : Place) : Nat := if place.isMemory then 1 else 0

namespace Extended

/-- How often an instruction behind the prefix reads, beyond its encoding. -/
def loads (i : Extended) : Nat := i.place.accesses

/-- How often an instruction behind the prefix writes. -/
def stores : Extended → Nat
  | test .. => 0
  | i => i.place.accesses

end Extended

namespace Instruction

/-- How often an instruction reads, beyond its encoding. It depends on whether it branches, and for
the prefix on the instruction behind it. -/
def loads (taken : Bool) (behind : Extended) : Instruction → Nat
  | loadA _ | loadHigh | loadHighC | loadAt => 1
  | halt | reti | pop _ => 2
  | ret _ => if taken then 2 else 0
  | inc place | dec place | load _ place | alu _ place => place.accesses
  | prefixed => behind.loads
  | _ => 0

/-- How often an instruction writes: twice where it stores a word, and once where its destination is
a byte in memory. -/
def stores (taken : Bool) (behind : Extended) : Instruction → Nat
  | storeSp | push _ | rst _ => 2
  | call _ => if taken then 2 else 0
  | storeA _ | storeHigh | storeHighC | storeAt => 1
  | inc place | dec place | loadByte place | load place _ => place.accesses
  | prefixed => behind.stores
  | _ => 0

theorem loads_prefixed (taken : Bool) (behind : Extended) :
    prefixed.loads taken behind = behind.loads := rfl

theorem stores_prefixed (taken : Bool) (behind : Extended) :
    prefixed.stores taken behind = behind.stores := rfl

theorem taken_past {β : Type} (i : Instruction) (pc : Word) (bus : β) (s : Core β) :
    i.taken (s.past pc bus).cpu.registers = i.taken s.cpu.registers := by
  cases i <;> rfl

end Instruction

/-- The instruction that the bytes behind a prefix stand for. -/
def Extended.ofBytes (bytes : List Byte) : Extended := decode (bytes.headD 0)

/-! ## Meters -/

/-- A number read off a bus, to which every read and every write adds a fixed amount. -/
structure Bus.Meter (β : Type) [Bus β] where
  reading : β → Nat
  perRead : Nat
  perWrite : Nat
  read (addr : Word) (bus : β) : reading (Bus.read8 addr bus).2 = reading bus + perRead
  write (addr : Word) (value : Byte) (bus : β) :
    reading (Bus.write8 addr value bus) = reading bus + perWrite

namespace Bus.Meter

open GameBoy.Core

variable {β : Type} [Bus β] (m : Bus.Meter β)

/-- What some reads and writes add. -/
def charge (loads stores : Nat) : Nat := loads * m.perRead + stores * m.perWrite

theorem charge_add (loads loads' stores stores' : Nat) :
    m.charge (loads + loads') (stores + stores') =
      m.charge loads stores + m.charge loads' stores' := by
  simp only [charge, Nat.add_mul]
  omega

/-! ### Moves -/

theorem reading_none (bus : β) : m.reading bus = m.reading bus + m.charge 0 0 := by
  simp [charge]

theorem reading_read (addr : Word) (bus : β) :
    m.reading (Bus.read8 addr bus).2 = m.reading bus + m.charge 1 0 := by
  simp [m.read, charge]

theorem reading_write (addr : Word) (value : Byte) (bus : β) :
    m.reading (Bus.write8 addr value bus) = m.reading bus + m.charge 0 1 := by
  simp [m.write, charge]

theorem reading_read_read (addr addr' : Word) (bus : β) :
    m.reading (Bus.read8 addr' (Bus.read8 addr bus).2).2 = m.reading bus + m.charge 2 0 := by
  rw [reading_read, reading_read, Nat.add_assoc, ← charge_add]

theorem reading_write_write (addr addr' : Word) (value value' : Byte) (bus : β) :
    m.reading (Bus.write8 addr' value' (Bus.write8 addr value bus)) =
      m.reading bus + m.charge 0 2 := by
  rw [reading_write, reading_write, Nat.add_assoc, ← charge_add]

theorem reading_readList (addr : Word) (n : Nat) (bus : β) :
    m.reading (Bus.readList addr n bus).2 = m.reading bus + m.charge n 0 := by
  induction n generalizing addr bus with
  | zero => exact m.reading_none bus
  | succ n ih =>
    show m.reading (Bus.readList (addr + 1) n (Bus.read8 addr bus).2).2 = _
    rw [ih, reading_read, Nat.add_assoc, ← charge_add, Nat.add_comm 1]

theorem reading_readPlace (place : Place) (s : Core β) :
    m.reading (s.readPlace place).2.bus = m.reading s.bus + m.charge place.accesses 0 := by
  cases place with
  | atHl => exact m.reading_read _ _
  | _ => exact m.reading_none _

theorem reading_writePlace (place : Place) (value : Byte) (s : Core β) :
    m.reading (s.writePlace place value).bus = m.reading s.bus + m.charge 0 place.accesses := by
  cases place with
  | atHl => exact m.reading_write _ _ _
  | _ => exact m.reading_none _

theorem reading_combine (op : Registers → Byte → Registers) (place : Place) (s : Core β) :
    m.reading (s.combine op place).bus = m.reading s.bus + m.charge place.accesses 0 :=
  m.reading_readPlace place s

theorem reading_transfer (source target : Place) (value : Byte) {s t : Core β}
    (h : t.bus = (s.readPlace source).2.bus) :
    m.reading (t.writePlace target value).bus =
      m.reading s.bus + m.charge source.accesses target.accesses := by
  rw [reading_writePlace, h, reading_readPlace, Nat.add_assoc, ← charge_add, Nat.add_zero,
    Nat.zero_add]

theorem reading_update (op : Registers → Byte → Byte × Registers) (place : Place) (s : Core β) :
    m.reading (s.update op place).bus =
      m.reading s.bus + m.charge place.accesses place.accesses :=
  m.reading_transfer place place _ rfl

/-! ### Instructions -/

theorem reading_apply {i : Instruction} (h : i ≠ .prefixed) (operand : Operand) (behind : Extended)
    (s : Core β) :
    m.reading (s.apply i operand).bus = m.reading s.bus +
      m.charge (i.loads (i.taken s.cpu.registers) behind)
        (i.stores (i.taken s.cpu.registers) behind) := by
  cases i with
  | prefixed => exact absurd rfl h
  | halt =>
    have hlook := m.reading_read_read Hardware.interruptFlags Hardware.interruptEnable s.bus
    unfold apply halt
    dsimp only
    split
    · exact hlook
    · exact hlook
  | ei => unfold apply; dsimp only; split <;> exact m.reading_none _
  | storeA pointer => exact m.reading_write _ _ _
  | loadA pointer => exact m.reading_read _ _
  | storeSp => exact m.reading_write_write _ _ _ _ _
  | inc place => exact m.reading_update _ place s
  | dec place => exact m.reading_update _ place s
  | loadByte target => exact m.reading_writePlace target _ s
  | jr condition | jp condition => unfold apply; dsimp only; split <;> exact m.reading_none _
  | load target source => exact m.reading_transfer source target _ rfl
  | alu op source => exact m.reading_combine _ source s
  | ret condition =>
    show m.reading (if Condition.met s.cpu.registers condition then s.popPc else s).bus =
      _ + m.charge (if Condition.met s.cpu.registers condition then 2 else 0) 0
    split
    · exact m.reading_read_read _ _ _
    · exact m.reading_none _
  | call condition =>
    show m.reading (if Condition.met s.cpu.registers condition then s.callTo _ else s).bus =
      _ + m.charge 0 (if Condition.met s.cpu.registers condition then 2 else 0)
    split
    · exact m.reading_write_write _ _ _ _ _
    · exact m.reading_none _
  | reti | pop pair => exact m.reading_read_read _ _ _
  | push pair | rst vector => exact m.reading_write_write _ _ _ _ _
  | storeHigh | storeHighC | storeAt => exact m.reading_write _ _ _
  | loadHigh | loadHighC | loadAt => exact m.reading_read _ _
  | _ => exact m.reading_none _

theorem reading_applyExtended (i : Extended) (s : Core β) :
    m.reading (s.applyExtended i).bus = m.reading s.bus + m.charge i.loads i.stores := by
  cases i with
  | shift op place => exact m.reading_update _ place s
  | test bit place => exact m.reading_combine _ place s
  | reset bit place => exact m.reading_update _ place s
  | set bit place => exact m.reading_update _ place s

theorem reading_effect (i : Instruction) (bytes : List Byte) (s : Core β) :
    m.reading (s.effect i bytes).bus = m.reading s.bus +
      m.charge (i.loads (i.taken s.cpu.registers) (.ofBytes bytes))
        (i.stores (i.taken s.cpu.registers) (.ofBytes bytes)) := by
  by_cases h : i = .prefixed
  · subst h
    exact m.reading_applyExtended _ s
  · rw [effect_of_ne h]
    exact m.reading_apply h _ _ s

/-- **Metering an instruction.** The current instruction reads its encoding and what it loads, and
writes what it stores. -/
theorem reading_runInstruction (s : Core β) :
    m.reading s.runInstruction.state.bus = m.reading s.bus +
      m.charge
        (s.current.size + s.current.loads (s.current.taken s.cpu.registers) (.ofBytes s.behind.1))
        (s.current.stores (s.current.taken s.cpu.registers) (.ofBytes s.behind.1)) := by
  have hready : m.reading s.ready.bus = m.reading s.bus + m.charge s.current.size 0 := by
    have hsize : s.current.size = 1 + (s.current.size - 1) := by
      cases hi : s.current <;> simp [Instruction.size, Instruction.length]
    show m.reading (Bus.readList _ (s.current.size - 1) _).2 = _
    rw [reading_readList, reading_read, Nat.add_assoc, ← charge_add, ← hsize]
  have htaken : s.current.taken s.ready.cpu.registers = s.current.taken s.cpu.registers :=
    Instruction.taken_past s.current s.next s.behind.2 s
  rw [(of_runInstruction s).2.2, reading_effect, hready, htaken, Nat.add_assoc, ← charge_add,
    Nat.zero_add]

end Bus.Meter

end GameBoy
