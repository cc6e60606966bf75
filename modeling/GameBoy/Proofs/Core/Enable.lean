import GameBoy.Proofs.Core.Control

/-!
# The interrupt enable and its schedule

The interrupt master enable and the two stages of a scheduled enable form a small machine of their
own (`EnableState`). What the processor does moves it in two ways: a dispatch clears the enable, and
an instruction that runs to its end executes and then moves the schedule on (`EnableState.run`).

`Core.enableState_serviceInterrupts` and `Core.enableState_step` are the simulation: whatever the
registers and the bus hold, the three flags follow the small machine.
-/

namespace GameBoy

/-! ## The small machine -/

/-- The interrupt master enable and the two stages of a scheduled enable. -/
structure EnableState where
  on : Bool
  pending : Bool
  delayed : Bool
  deriving DecidableEq, Repr

namespace EnableState

/-- Move a scheduled enable on by one instruction. -/
def advance (e : EnableState) : EnableState :=
  if e.delayed then { e with on := true, delayed := false }
  else if e.pending then { e with pending := false, delayed := true }
  else e

/-- What a dispatch does. -/
def dispatch (e : EnableState) : EnableState := { e with on := false }

/-- What the effect of an instruction does. -/
def execute (i : Instruction) (e : EnableState) : EnableState :=
  match i with
  | .di => ⟨false, false, false⟩
  | .ei => if e.on then e else { e with pending := true }
  | .reti => { e with on := true }
  | _ => e

/-- What an instruction that runs to its end does. -/
def run (i : Instruction) (e : EnableState) : EnableState := (e.execute i).advance

/-- The number of instructions after which a scheduled enable takes effect. -/
def wait? (e : EnableState) : Option Nat :=
  if e.delayed then some 1 else if e.pending then some 2 else none

theorem execute_of_not_isControl {i : Instruction} (h : i.isControl = false) (e : EnableState) :
    e.execute i = e := by
  cases i with
  | stop | halt | di | ei | reti => cases h
  | _ => rfl

/-- Only two instructions can turn a cleared enable on by their own effect or schedule it. -/
theorem run_of_calm {i : Instruction} (hei : i ≠ .ei) (hreti : i ≠ .reti) (hdi : i ≠ .di)
    (e : EnableState) : e.run i = e.advance := by
  cases i with
  | ei => exact absurd rfl hei
  | reti => exact absurd rfl hreti
  | di => exact absurd rfl hdi
  | _ => rfl

end EnableState

/-- The three flags of a processor. -/
def Cpu.enableState (cpu : Cpu) : EnableState := ⟨cpu.ime, cpu.enablePending, cpu.enableDelay⟩

theorem Cpu.enableState_of_control {cpu cpu' : Cpu} (h : cpu.control = cpu'.control) :
    cpu.enableState = cpu'.enableState := by
  show cpu.control.enableState = cpu'.control.enableState
  rw [h]

theorem Cpu.enableState_advanceEnable (cpu : Cpu) :
    cpu.advanceEnable.enableState = cpu.enableState.advance := by
  unfold advanceEnable EnableState.advance enableState
  split
  · rfl
  · split <;> rfl

namespace Core

variable {β : Type} [Bus β]

/-! ## Instructions -/

theorem enableState_fetch (s : Core β) : s.fetch.2.cpu.enableState = s.cpu.enableState := by
  show s.fetch.2.cpu.control.enableState = _
  rw [control_fetch]
  rfl

theorem enableState_halt (s : Core β) : s.halt.cpu.enableState = s.cpu.enableState := by
  unfold halt
  dsimp only
  split <;> rfl

theorem enableState_apply (i : Instruction) (operand : Operand) (s : Core β) :
    (s.apply i operand).cpu.enableState = s.cpu.enableState.execute i := by
  cases hi : i.isControl with
  | false =>
    rw [EnableState.execute_of_not_isControl hi]
    exact Cpu.enableState_of_control (control_apply hi operand s)
  | true =>
    cases i with
    | stop => rfl
    | halt => exact enableState_halt s
    | di => rfl
    | ei =>
      unfold apply EnableState.execute Cpu.enableState
      dsimp only
      split <;> rfl
    | reti => rfl
    | _ => cases hi

theorem enableState_execute (i : Instruction) (operand : Operand) (s : Core β) :
    (s.execute i operand).state.cpu.enableState = s.cpu.enableState.execute i := by
  cases i with
  | prefixed =>
    rw [execute_prefixed]
    exact (Cpu.enableState_of_control (control_applyExtended _ _)).trans (enableState_fetch s)
  | hole opcode => unfold execute executeHole; dsimp only; split <;> rfl
  | stop => exact enableState_apply .stop operand s
  | _ => exact enableState_apply _ operand s

theorem enableState_executeCurrent (s : Core β) :
    s.executeCurrent.state.cpu.enableState = s.cpu.enableState.execute s.current := by
  have himmediate : s.immediate.2.cpu.enableState = s.cpu.enableState := by
    show s.immediate.2.cpu.control.enableState = _
    rw [control_immediate]
    rfl
  rw [executeCurrent, enableState_execute, himmediate]

theorem hole_of_error {s : Core β} {fault : Fault} (h : s.executeCurrent.result = .error fault) :
    ∃ opcode, s.current = .hole opcode := by
  unfold executeCurrent at h
  generalize s.current = i at h ⊢
  cases i with
  | hole opcode => exact ⟨opcode, rfl⟩
  | prefixed =>
    rw [execute_prefixed] at h
    cases h
  | _ => cases h

/-! ## Steps and dispatches -/

/-- The instruction that a step runs to its end. None when the step idles or faults. -/
def finished? (s : Core β) : Option Instruction :=
  s.awake?.bind fun s' =>
    match s'.executeCurrent.result with
    | .ok _ => some s'.current
    | .error _ => none

theorem finished?_of_ok {s s' : Core β} (h : s.awake? = some s') {cycles : Nat}
    (hr : s'.executeCurrent.result = .ok cycles) : s.finished? = some s'.current := by
  rw [finished?, h, Option.bind_some, hr]

/-- A step moves the three flags by the instruction it runs to its end. -/
theorem enableState_step (s : Core β) :
    s.step.state.cpu.enableState =
      (s.finished?.elim s.cpu.enableState fun i => s.cpu.enableState.run i) := by
  unfold finished?
  cases ha : s.awake? with
  | none =>
    rw [(step_of_asleep ha).2.1]
    rfl
  | some s' =>
    obtain ⟨before, -, hstep⟩ := step_of_awake ha
    have hcpu : s'.cpu.enableState = s.cpu.enableState := by
      rw [(of_awake ha).2.1]
      rfl
    rw [hstep, Option.bind_some]
    dsimp only
    cases hr : s'.executeCurrent.result with
    | ok cycles =>
      rw [runInstruction_of_ok hr]
      show s'.executeCurrent.state.cpu.advanceEnable.enableState = s.cpu.enableState.run s'.current
      rw [Cpu.enableState_advanceEnable, enableState_executeCurrent, hcpu]
      rfl
    | error fault =>
      obtain ⟨opcode, hhole⟩ := hole_of_error hr
      rw [runInstruction_of_error hr]
      show s'.executeCurrent.state.cpu.enableState = s.cpu.enableState
      rw [enableState_executeCurrent, hhole, hcpu]
      rfl

/-- Without a dispatch, serving interrupts keeps the three flags; a dispatch needs the enable and
clears it. -/
theorem enableState_serviceInterrupts (s : Core β) :
    (s.serviceInterrupts.result ≠ .ok dispatchCycles ∧
        s.serviceInterrupts.state.cpu.enableState = s.cpu.enableState) ∨
      (s.cpu.ime = true ∧ s.serviceInterrupts.result = .ok dispatchCycles ∧
        s.serviceInterrupts.state.cpu.enableState = s.cpu.enableState.dispatch) := by
  rcases serviceInterrupts_cases s with ⟨s', hs', heq⟩ | ⟨hime, ⟨source, heq⟩ | heq⟩
  · rw [heq]
    refine .inl ⟨by simp [Outcome.ok, dispatchCycles], ?_⟩
    rcases hs' with rfl | rfl
    · rfl
    · rfl
  · rw [heq]
    exact .inr ⟨hime, rfl, rfl⟩
  · rw [heq]
    exact .inl ⟨by simp, rfl⟩

end Core

end GameBoy
