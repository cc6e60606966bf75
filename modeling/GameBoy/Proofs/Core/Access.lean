import GameBoy.Cpu.Step
import GameBoy.Memory

/-!
# Bus accesses

Whatever the processor does, it reaches its bus through `Bus.read8` and `Bus.write8` only.
`Bus.Reaches start bus` says that some list of such accesses leads from `start` to `bus`; every move
of the processor, from a fetch to a whole step, is shown to lead to a bus that it reaches.

A fact that each single access keeps is therefore kept by every program. For the memory this gives
`Memory.read_of_reaches`: no program changes a byte of the cartridge window or of the unusable
block.
-/

namespace GameBoy

/-- Some byte accesses lead from one bus to another. -/
inductive Bus.Reaches {β : Type} [Bus β] (start : β) : β → Prop
  | refl : Reaches start start
  | read (addr : Word) {bus : β} : Reaches start bus → Reaches start (Bus.read8 addr bus).2
  | write (addr : Word) (value : Byte) {bus : β} :
      Reaches start bus → Reaches start (Bus.write8 addr value bus)

namespace Core

variable {β : Type} [Bus β] {start : β} {s : Core β}

open Bus (Reaches)

theorem reaches_fetch (h : Reaches start s.bus) : Reaches start s.fetch.2.bus := by
  rw [bus_fetch]
  exact .read _ h

theorem reaches_fetchOperand (kind : OperandKind) (h : Reaches start s.bus) :
    Reaches start (s.fetchOperand kind).2.bus := by
  cases kind with
  | none => exact h
  | byte => exact reaches_fetch h
  | offset => exact reaches_fetch h
  | word => exact reaches_fetch (reaches_fetch h)

theorem reaches_readPlace (place : Place) (h : Reaches start s.bus) :
    Reaches start (s.readPlace place).2.bus := by
  cases place with
  | atHl => exact .read _ h
  | _ => exact h

theorem reaches_writePlace (place : Place) (value : Byte) (h : Reaches start s.bus) :
    Reaches start (s.writePlace place value).bus := by
  cases place with
  | atHl => exact .write _ _ h
  | _ => exact h

theorem reaches_push (value : Word) (h : Reaches start s.bus) :
    Reaches start (s.push value).bus := .write _ _ (.write _ _ h)

theorem reaches_pop (h : Reaches start s.bus) : Reaches start s.pop.2.bus := .read _ (.read _ h)

theorem reaches_combine (op : Registers → Byte → Registers) (place : Place)
    (h : Reaches start s.bus) : Reaches start (s.combine op place).bus :=
  reaches_readPlace place h

theorem reaches_update (op : Registers → Byte → Byte × Registers) (place : Place)
    (h : Reaches start s.bus) : Reaches start (s.update op place).bus :=
  reaches_writePlace place _ (reaches_readPlace (s := s) place h)

theorem reaches_apply (i : Instruction) (operand : Operand) (h : Reaches start s.bus) :
    Reaches start (s.apply i operand).bus := by
  cases i with
  | halt =>
    simp only [apply, halt]
    split
    · exact .read _ (.read _ h)
    · exact .read _ (.read _ h)
  | ei => unfold apply; dsimp only; split <;> exact h
  | storeA pointer => exact .write _ _ h
  | loadA pointer => exact .read _ h
  | storeSp => exact .write _ _ (.write _ _ h)
  | inc place => exact reaches_update _ place h
  | dec place => exact reaches_update _ place h
  | loadByte target => exact reaches_writePlace target _ h
  | jr condition => unfold apply; dsimp only; split <;> exact h
  | load target source => exact reaches_writePlace target _ (reaches_readPlace source h)
  | alu op source => exact reaches_combine _ source h
  | ret condition =>
    unfold apply; dsimp only; split
    · exact reaches_pop h
    · exact h
  | reti => exact reaches_pop h
  | pop pair => exact reaches_pop h
  | push pair => exact reaches_push _ h
  | jp condition => unfold apply; dsimp only; split <;> exact h
  | call condition =>
    unfold apply; dsimp only; split
    · exact reaches_push _ h
    · exact h
  | rst vector => exact reaches_push _ h
  | storeHigh | storeHighC | storeAt => exact .write _ _ h
  | loadHigh | loadHighC | loadAt => exact .read _ h
  | _ => exact h

theorem reaches_applyExtended (i : Extended) (h : Reaches start s.bus) :
    Reaches start (s.applyExtended i).bus := by
  cases i with
  | shift op place => exact reaches_update _ place h
  | test bit place => exact reaches_combine _ place h
  | reset bit place => exact reaches_update _ place h
  | set bit place => exact reaches_update _ place h

theorem reaches_execute (i : Instruction) (operand : Operand) (h : Reaches start s.bus) :
    Reaches start (s.execute i operand).state.bus := by
  cases i with
  | prefixed =>
    rw [execute_prefixed]
    exact reaches_applyExtended _ (reaches_fetch h)
  | hole opcode => unfold execute executeHole; dsimp only; split <;> exact h
  | _ => exact reaches_apply _ operand h

theorem reaches_runInstruction (h : Reaches start s.bus) :
    Reaches start s.runInstruction.state.bus := by
  have key := reaches_execute (Instruction.decode s.fetch.1)
    (s.fetch.2.fetchOperand (Instruction.decode s.fetch.1).operand).1
    (reaches_fetchOperand (Instruction.decode s.fetch.1).operand (reaches_fetch h))
  rw [runInstruction_eq]
  dsimp only
  split
  · rename_i heq
    rw [heq] at key
    exact key
  · rename_i heq
    rw [heq] at key
    exact key

theorem reaches_stepAwake (h : Reaches start s.bus) : Reaches start s.stepAwake.state.bus := by
  unfold stepAwake
  split
  · exact h
  · exact reaches_runInstruction h

theorem reaches_step (h : Reaches start s.bus) : Reaches start s.step.state.bus := by
  unfold step
  split
  · dsimp only
    split
    · exact .read _ h
    · exact reaches_stepAwake (s := ⟨_, _⟩) (.read _ h)
  · exact reaches_stepAwake h

theorem reaches_dispatch (source : Interrupt) (pending enabled : Byte)
    (h : Reaches start s.bus) : Reaches start (s.dispatch source pending enabled).state.bus :=
  .write _ _ (.read _ (.write _ _ (.write _ _ h)))

theorem reaches_serviceInterrupts (h : Reaches start s.bus) :
    Reaches start s.serviceInterrupts.state.bus := by
  unfold serviceInterrupts
  split
  · exact h
  · have h' : Reaches start (Bus.read8 Hardware.interruptEnable
        (Bus.read8 Hardware.interruptFlags s.bus).2).2 := .read _ (.read _ h)
    dsimp only
    split
    · split
      · exact reaches_dispatch (s := ⟨_, _⟩) _ _ _ h'
      · split <;> exact h'
    · exact h'

theorem reaches_tick (h : Reaches start s.bus) : Reaches start s.tick.state.bus := by
  have hserved := reaches_serviceInterrupts h
  refine Outcome.state_andThen (P := fun s : Core β => Reaches start s.bus) hserved
    fun served _ => ?_
  rw [Outcome.state_andThen_ok]
  exact reaches_step hserved

end Core

/-! ## The memory under a program -/

/-- The addresses at which a write is dropped. -/
def Memory.ReadOnly (addr : Word) : Prop :=
  Region.of addr = .cartridge ∨ Region.of addr = .unusable

/-- A write leaves the read-only addresses alone, whatever region it falls into. -/
theorem Memory.read_write_of_readOnly {addr : Word} (h : ReadOnly addr) (m : Memory)
    (target : Word) (value : Byte) : (m.write target value).read addr = m.read addr := by
  have hne : ∀ other, ¬ ReadOnly other → addr ≠ other := fun other ho e => ho (e ▸ h)
  rw [read_write]
  cases ht : Region.of target with
  | cartridge => rfl
  | unusable => rfl
  | echo =>
    have h₁ := hne target (by simp [ReadOnly, ht])
    -- the second store of an echo goes to plain memory
    have h₂ := hne (echoed target) (by simp [ReadOnly, Region.of_echoed ht])
    simp [h₁, h₂]
  | line => simp [hne target (by simp [ReadOnly, ht])]
  | plain => simp [hne target (by simp [ReadOnly, ht])]

/-- Above the echo a write changes no other address than its own. -/
theorem Memory.read_write_of_high {addr other : Word} (h : 0xFE00 ≤ other.toNat)
    (hne : other ≠ addr) (m : Memory) (value : Byte) :
    (m.write addr value).read other = m.read other := by
  rw [read_write]
  cases hr : Region.of addr with
  | cartridge => rfl
  | unusable => rfl
  | echo =>
    have hbelow : other ≠ echoed addr := by
      rintro rfl
      have := Region.of_eq_echo_iff.mp hr
      have := toNat_echoed hr
      omega
    simp [hne, hbelow]
  | line => simp [hne]
  | plain => simp [hne]

/-- No program changes a byte of the cartridge window or of the unusable block. -/
theorem Memory.read_of_reaches {addr : Word} (h : ReadOnly addr) {m m' : Memory}
    (hr : Bus.Reaches m m') : m'.read addr = m.read addr := by
  induction hr with
  | refl => rfl
  | read _ _ ih => exact ih
  | write target value _ ih => exact (read_write_of_readOnly h _ target value).trans ih

end GameBoy
