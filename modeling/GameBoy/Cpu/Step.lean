import GameBoy.Cpu.Execute

/-!
# Steps and interrupts

The two things a processor does when it is given time.

* `Core.step` runs one instruction. A halted or stopped processor idles for one cycle instead; a
  stopped one first looks whether a selected button is down.
* `Core.serviceInterrupts` comes before each step. It wakes a halted processor, and dispatches the
  interrupt with the highest priority among those requested and enabled.
-/

namespace GameBoy.Core

variable {β : Type} [Bus β]

/-- Fetch an instruction and its immediate and run it. A scheduled enable moves on when the
instruction ends without a fault. -/
def runInstruction (s : Core β) : Outcome (Core β) Nat :=
  let pc := s.cpu.registers.pc
  let (opcode, s) := s.fetch
  match Instruction.table.find? opcode with
  | none => s.unimplemented opcode pc false
  | some i =>
    let (operand, s) := s.fetchOperand i.operand
    let events : Array Event :=
      if s.cpu.tracing then #[.executing pc i operand s.cpu.registers] else #[]
    match s.execute i operand with
    | ⟨.ok cycles, s, more⟩ => ⟨.ok cycles, { s with cpu := s.cpu.advanceEnable }, events ++ more⟩
    | ⟨.error fault, s, more⟩ => ⟨.error fault, s, events ++ more⟩

/-- The table of the opcodes is complete. -/
theorem runInstruction_eq (s : Core β) :
    s.runInstruction =
      let i := Instruction.decode s.fetch.1
      let (operand, t) := s.fetch.2.fetchOperand i.operand
      let events : Array Event :=
        if t.cpu.tracing then #[.executing s.cpu.registers.pc i operand t.cpu.registers] else #[]
      match t.execute i operand with
      | ⟨.ok cycles, t, more⟩ => ⟨.ok cycles, { t with cpu := t.cpu.advanceEnable }, events ++ more⟩
      | ⟨.error fault, t, more⟩ => ⟨.error fault, t, events ++ more⟩ := by
  unfold runInstruction
  obtain ⟨opcode, t⟩ := s.fetch
  dsimp only
  rw [Instruction.find?_table]

/-- Idle for a cycle if halted, and run an instruction otherwise. -/
def stepAwake (s : Core β) : Outcome (Core β) Nat :=
  if s.cpu.halted then .ok 1 s else s.runInstruction

/-- Run one instruction, or idle for a cycle. The result is the cost in machine cycles. -/
def step (s : Core β) : Outcome (Core β) Nat :=
  if s.cpu.stopped then
    let (lines, s) := s.read Hardware.joypad
    if lines &&& 0x0F == 0x0F then .ok 1 s
    else
      match ({ s with cpu := { s.cpu with stopped := false } } : Core β).stepAwake with
      | ⟨result, s, events⟩ => ⟨result, s, #[.resumed] ++ events⟩
  else s.stepAwake

/-- The cost of a dispatch in machine cycles. -/
def dispatchCycles : Nat := 5

/-- Dispatch to a source: push the return address, jump to the service routine, disable interrupts,
and clear the source's request in the flags as they are after the push. The return address is one
less while the halt bug is pending, so that the halting byte runs again. -/
def dispatch (source : Interrupt) (pending enabled : Byte) (s : Core β) :
    Outcome (Core β) Nat :=
  let r := s.cpu.registers
  let pc := if s.cpu.haltBug then r.pc - 1 else r.pc
  let s : Core β := { s with cpu := { s.cpu with haltBug := false } }
  let s := (s.push pc).setPc source.vector
  let s : Core β := { s with cpu := { s.cpu with ime := false } }
  let (flags, s) := s.read Hardware.interruptFlags
  let s := s.write Hardware.interruptFlags (flags &&& ~~~source.mask)
  ⟨.ok dispatchCycles, s, #[.dispatched source pc s.cpu.registers.sp pending enabled]⟩

/-- Dispatch at most one interrupt. The result is the cost in machine cycles, zero when nothing is
dispatched. A stopped processor does not look. A halted one wakes as soon as a source is requested
and enabled, whether or not interrupts are enabled as a whole. -/
def serviceInterrupts (s : Core β) : Outcome (Core β) Nat :=
  if s.cpu.stopped then .ok 0 s
  else
    let (pending, s) := s.read Hardware.interruptFlags
    let (enabled, s) := s.read Hardware.interruptEnable
    let requested := pending &&& enabled
    let s : Core β :=
      { s with cpu := { s.cpu with halted := s.cpu.halted && requested &&& Interrupt.all == 0 } }
    if s.cpu.ime then
      match Interrupt.first? requested with
      | some source => s.dispatch source pending enabled
      | none =>
        if requested == 0 then .ok 0 s
        else ⟨.error (.invalidInterruptState pending enabled), s, #[.overlap pending enabled]⟩
    else .ok 0 s

/-- Serve an interrupt, then step. The result is the cost of both. -/
def tick (s : Core β) : Outcome (Core β) Nat :=
  s.serviceInterrupts.andThen fun dispatch s =>
    s.step.andThen fun cycles s => .ok (dispatch + cycles) s

end GameBoy.Core
