import GameBoy.Proofs.Core.Step

/-!
# The control flags

Next to its registers the processor has the interrupt master enable, the two low-power states, the
halt bug, the two stages of a scheduled enable and two settings. `Cpu.control` is the processor with
its registers forgotten, so two processors with the same control differ in their registers only.

Five instructions touch the control: `STOP`, `HALT`, `DI`, `EI` and `RETI`
(`Instruction.isControl`). Every other one leaves it as it was (`Core.control_apply`); a fetch ends
the halt bug, and the end of an instruction moves a scheduled enable on. No instruction and no
interrupt touches the two settings (`Core.settings_tick`).
-/

namespace GameBoy

/-- The processor with its registers forgotten. -/
def Cpu.control (cpu : Cpu) : Cpu := { cpu with registers := {} }

/-- The instructions that touch more than registers and memory. -/
def Instruction.isControl : Instruction → Bool
  | stop | halt | di | ei | reti => true
  | _ => false

namespace Core

variable {β : Type} [Bus β]

@[simp] theorem control_readPlace (place : Place) (s : Core β) :
    (s.readPlace place).2.cpu.control = s.cpu.control := by
  cases place <;> rfl

@[simp] theorem control_writePlace (place : Place) (value : Byte) (s : Core β) :
    (s.writePlace place value).cpu.control = s.cpu.control := by
  cases place <;> rfl

@[simp] theorem control_combine (op : Registers → Byte → Registers) (place : Place)
    (s : Core β) : (s.combine op place).cpu.control = s.cpu.control :=
  control_readPlace place s

@[simp] theorem control_update (op : Registers → Byte → Byte × Registers) (place : Place)
    (s : Core β) : (s.update op place).cpu.control = s.cpu.control :=
  (control_writePlace place _ _).trans (control_readPlace place s)

/-- A fetch ends the halt bug and touches no other control flag. -/
theorem control_fetch (s : Core β) :
    s.fetch.2.cpu.control = { s.cpu.control with haltBug := false } := by
  simp only [fetch]
  split
  · rfl
  · rename_i h
    have h : s.cpu.haltBug = false := eq_false_of_ne_true h
    rw [← h]
    rfl

theorem control_fetch_of_not_haltBug {s : Core β} (h : s.cpu.haltBug = false) :
    s.fetch.2.cpu.control = s.cpu.control := by
  rw [control_fetch, ← h]
  rfl

theorem control_fetchOperand (kind : OperandKind) {s : Core β} (h : s.cpu.haltBug = false) :
    (s.fetchOperand kind).2.cpu.control = s.cpu.control := by
  have hf := control_fetch_of_not_haltBug h
  cases kind with
  | none => rfl
  | byte => exact hf
  | offset => exact hf
  | word =>
    have hb : s.fetch.2.cpu.haltBug = false := (congrArg Cpu.haltBug hf).trans h
    exact (control_fetch_of_not_haltBug hb).trans hf

theorem control_immediate (s : Core β) :
    s.immediate.2.cpu.control = { s.cpu.control with haltBug := false } := by
  have hb : s.fetch.2.cpu.haltBug = false := congrArg Cpu.haltBug (control_fetch s)
  exact (control_fetchOperand _ hb).trans (control_fetch s)

theorem control_apply {i : Instruction} (h : i.isControl = false) (operand : Operand)
    (s : Core β) : (s.apply i operand).cpu.control = s.cpu.control := by
  cases i with
  | stop | halt | di | ei | reti => cases h
  | inc place => exact control_update _ place s
  | dec place => exact control_update _ place s
  | loadByte target => exact control_writePlace target _ s
  | load target source =>
    exact (control_writePlace target _ _).trans (control_readPlace source s)
  | alu op source => exact control_combine _ source s
  | jr condition | ret condition | jp condition | call condition =>
    unfold apply; dsimp only; split <;> rfl
  | _ => rfl

theorem control_applyExtended (i : Extended) (s : Core β) :
    (s.applyExtended i).cpu.control = s.cpu.control := by
  cases i with
  | shift op place => exact control_update _ place s
  | test bit place => exact control_combine _ place s
  | reset bit place => exact control_update _ place s
  | set bit place => exact control_update _ place s

/-- What the control is when an instruction other than the five has run. -/
theorem control_executeCurrent {s : Core β} (h : s.current.isControl = false) :
    s.executeCurrent.state.cpu.control = { s.cpu.control with haltBug := false } := by
  rw [← control_immediate s, executeCurrent]
  generalize s.current = i at h ⊢
  cases i with
  | stop | halt | di | ei | reti => cases h
  | prefixed =>
    have hb : s.immediate.2.cpu.haltBug = false := congrArg Cpu.haltBug (control_immediate s)
    rw [execute_prefixed]
    exact (control_applyExtended _ _).trans (control_fetch_of_not_haltBug hb)
  | hole opcode => unfold execute executeHole; dsimp only; split <;> rfl
  | _ => exact control_apply h s.immediate.1 s.immediate.2

end Core

/-! ## The settings -/

/-- The two settings: what to do with a hole, and whether instructions are reported. -/
def Cpu.settings (cpu : Cpu) : HolePolicy × Bool := (cpu.policy, cpu.tracing)

/-- The settings are a part of the control state that the halt bug has nothing to do with. -/
theorem Cpu.settings_of_control {cpu cpu' : Cpu}
    (h : cpu.control = { cpu'.control with haltBug := false }) : cpu.settings = cpu'.settings := by
  show cpu.control.settings = cpu'.control.settings
  rw [h]
  rfl

theorem Cpu.settings_advanceEnable (cpu : Cpu) : cpu.advanceEnable.settings = cpu.settings := by
  unfold advanceEnable
  split
  · rfl
  · split <;> rfl

namespace Core

variable {β : Type} [Bus β] (s : Core β)

theorem settings_immediate : s.immediate.2.cpu.settings = s.cpu.settings :=
  Cpu.settings_of_control (control_immediate s)

theorem settings_executeCurrent : s.executeCurrent.state.cpu.settings = s.cpu.settings := by
  cases hc : s.current.isControl with
  | false => exact Cpu.settings_of_control (control_executeCurrent hc)
  | true =>
    refine Eq.trans ?_ (settings_immediate s)
    unfold executeCurrent
    generalize s.current = i at hc ⊢
    cases i with
    | stop | di | reti => rfl
    | halt => unfold execute apply halt; dsimp only [Outcome.ok]; split <;> rfl
    | ei => unfold execute apply; dsimp only [Outcome.ok]; split <;> rfl
    | _ => cases hc

theorem settings_step : s.step.state.cpu.settings = s.cpu.settings := by
  cases ha : s.awake? with
  | none =>
    rw [(step_of_asleep ha).2.1]
    rfl
  | some s' =>
    obtain ⟨before, -, hstep⟩ := step_of_awake ha
    have hcpu : s'.cpu.settings = s.cpu.settings := by
      rw [(of_awake ha).2.1]
      rfl
    rw [hstep, ← hcpu]
    refine Eq.trans ?_ (settings_executeCurrent s')
    cases hr : s'.executeCurrent.result with
    | ok cycles => rw [runInstruction_of_ok hr]; exact Cpu.settings_advanceEnable _
    | error fault => rw [runInstruction_of_error hr]

theorem settings_serviceInterrupts :
    s.serviceInterrupts.state.cpu.settings = s.cpu.settings := by
  rcases serviceInterrupts_cases s with ⟨s', rfl | rfl, h⟩ | ⟨-, ⟨source, h⟩ | h⟩ <;> rw [h] <;> rfl

theorem settings_tick : s.tick.state.cpu.settings = s.cpu.settings := by
  have hserved := settings_serviceInterrupts s
  refine Outcome.state_andThen (P := fun n : Core β => n.cpu.settings = s.cpu.settings)
    hserved fun served _ => ?_
  rw [Outcome.state_andThen_ok]
  exact (settings_step _).trans hserved

end Core

end GameBoy
