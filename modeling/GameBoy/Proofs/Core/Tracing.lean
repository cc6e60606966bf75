import GameBoy.Proofs.Core.Step

/-!
# Reporting instructions

With its tracing setting on, the processor reports every instruction as an event of the lowest
severity. `Core.muted` is the core with the setting off, and `Outcome.erase` an outcome without the
events of that severity. Every move commutes with them, from a fetch to a tick (`Core.tick_muted`),
so the setting decides about those events and about nothing else.
-/

namespace GameBoy

/-! ## Events and outcomes without reports -/

namespace Event

/-- The events that are more than the report of an instruction. -/
def notable (events : Array Event) : Array Event := events.filter (·.level != .trace)

theorem notable_empty : notable #[] = #[] := by simp [notable]

theorem notable_singleton {event : Event} (h : event.level ≠ .trace) :
    notable #[event] = #[event] := by
  simp [notable, h]

theorem notable_append (events more : Array Event) :
    notable (events ++ more) = notable events ++ notable more := by
  simp [notable]

theorem notable_report (event : Event) (h : event.level = .trace) (tracing : Bool) :
    notable (if tracing then #[event] else #[]) = #[] := by
  cases tracing with
  | false => exact notable_empty
  | true => simp [notable, h]

end Event

/-- An outcome without the reports of instructions, and with a part of its state forgotten. -/
def Outcome.erase {σ τ α : Type} (forget : σ → τ) (o : Outcome σ α) : Outcome τ α :=
  ⟨o.result, forget o.state, Event.notable o.events⟩

namespace Outcome

variable {σ τ α δ : Type} {forget : σ → τ}

theorem erase_ok (value : α) (state : σ) :
    (ok value state).erase forget = ok value (forget state) := by
  simp only [erase, ok, Event.notable_empty]

theorem erase_andThen (first : Outcome σ α) {second : α → σ → Outcome σ δ}
    {erased : α → τ → Outcome τ δ}
    (h : ∀ value, erased value (forget first.state) = (second value first.state).erase forget) :
    (first.andThen second).erase forget = (first.erase forget).andThen erased := by
  cases hr : first.result with
  | error fault =>
    have hr' : (first.erase forget).result = .error fault := hr
    rw [andThen_of_error hr, andThen_of_error hr']
    rfl
  | ok value =>
    have hr' : (first.erase forget).result = .ok value := hr
    rw [andThen_of_ok hr, andThen_of_ok hr']
    show _ = Outcome.mk (erased value (forget first.state)).result
      (erased value (forget first.state)).state
      (Event.notable first.events ++ (erased value (forget first.state)).events)
    rw [h]
    simp only [erase, Event.notable_append]

end Outcome

namespace Core

variable {β : Type}

/-- The core that does not report instructions. -/
def muted (s : Core β) : Core β := ⟨{ s.cpu with tracing := false }, s.bus⟩

theorem advanceEnable_muted (s : Core β) :
    (⟨s.muted.cpu.advanceEnable, s.muted.bus⟩ : Core β) =
      (⟨s.cpu.advanceEnable, s.bus⟩ : Core β).muted := by
  have hdelay : s.muted.cpu.enableDelay = s.cpu.enableDelay := rfl
  have hpending : s.muted.cpu.enablePending = s.cpu.enablePending := rfl
  unfold Cpu.advanceEnable
  rw [hdelay, hpending]
  split
  · rfl
  · split <;> rfl

theorem executeHole_muted (opcode : Byte) (s : Core β) :
    s.muted.executeHole opcode = (s.executeHole opcode).erase muted := by
  have hpolicy : s.muted.cpu.policy = s.cpu.policy := rfl
  unfold executeHole
  dsimp only
  rw [hpolicy]
  cases s.cpu.policy with
  | skip => rw [Outcome.erase, Event.notable_singleton (by simp [Event.level])]; rfl
  | fault => rw [Outcome.erase, Event.notable_singleton (by simp [Event.level])]; rfl

variable [Bus β]

/-! ## Moves -/

theorem fetch_muted (s : Core β) : s.muted.fetch = (s.fetch.1, s.fetch.2.muted) := by
  unfold fetch
  dsimp only [read, muted]
  split <;> rfl

theorem fetchOperand_muted (kind : OperandKind) (s : Core β) :
    s.muted.fetchOperand kind = ((s.fetchOperand kind).1, (s.fetchOperand kind).2.muted) := by
  cases kind with
  | none => rfl
  | byte => simp only [fetchOperand, fetch_muted]
  | offset => simp only [fetchOperand, fetch_muted]
  | word => simp only [fetchOperand, fetchWord, fetch_muted]

theorem readPlace_muted (place : Place) (s : Core β) :
    s.muted.readPlace place = ((s.readPlace place).1, (s.readPlace place).2.muted) := by
  cases place <;> rfl

theorem writePlace_muted (place : Place) (value : Byte) (s : Core β) :
    s.muted.writePlace place value = (s.writePlace place value).muted := by
  cases place <;> rfl

theorem combine_muted (op : Registers → Byte → Registers) (place : Place) (s : Core β) :
    s.muted.combine op place = (s.combine op place).muted := by
  cases place <;> rfl

theorem update_muted (op : Registers → Byte → Byte × Registers) (place : Place) (s : Core β) :
    s.muted.update op place = (s.update op place).muted := by
  cases place <;> rfl

theorem halt_muted (s : Core β) : s.muted.halt = s.halt.muted := by
  unfold halt
  dsimp only [read, muted]
  split <;> rfl

/-! ## Instructions -/

theorem apply_muted (i : Instruction) (operand : Operand) (s : Core β) :
    s.muted.apply i operand = (s.apply i operand).muted := by
  cases i with
  | halt => exact halt_muted s
  | inc place => exact update_muted Alu.inc place s
  | dec place => exact update_muted Alu.dec place s
  | loadByte target => exact writePlace_muted target _ s
  | load target source => simp only [apply, readPlace_muted, writePlace_muted]
  | alu op source => exact combine_muted op.apply source s
  | ei | jr condition | jp condition | call condition | ret condition =>
    -- both branches commute, and what decides between them is not the setting
    simp only [apply, apply_ite muted]
    rfl
  | _ => rfl

theorem applyExtended_muted (i : Extended) (s : Core β) :
    s.muted.applyExtended i = (s.applyExtended i).muted := by
  cases i with
  | shift op place => exact update_muted op.apply place s
  | test bit place => exact combine_muted (fun r value => Alu.testBit r bit value) place s
  | reset bit place => exact update_muted (fun r value => (Byte.setBit value bit false, r)) place s
  | set bit place => exact update_muted (fun r value => (Byte.setBit value bit true, r)) place s

theorem executeExtended_muted (s : Core β) :
    s.muted.executeExtended = s.executeExtended.erase muted := by
  have hreport := Event.notable_report
    (.executingExtended s.cpu.registers.pc (Extended.decode s.fetch.1)) rfl s.fetch.2.cpu.tracing
  rw [executeExtended_eq, executeExtended_eq, Outcome.erase]
  simp only [fetch_muted, applyExtended_muted, hreport]
  rfl

/-- An instruction costs the same, has the same effect, and reports the same but for itself. -/
theorem execute_muted (i : Instruction) (operand : Operand) (s : Core β) :
    s.muted.execute i operand = (s.execute i operand).erase muted := by
  have happly := apply_muted i operand s
  cases i with
  | prefixed => exact executeExtended_muted s
  | hole opcode => exact executeHole_muted opcode s
  | stop =>
    unfold execute Outcome.erase
    dsimp only
    rw [happly, Event.notable_singleton (by simp [Event.level])]
    rfl
  | _ =>
    unfold execute
    dsimp only
    rw [happly, Outcome.erase_ok]
    rfl

/-! ## Steps -/

theorem current_muted (s : Core β) : s.muted.current = s.current := by
  rw [current, current, fetch_muted]

theorem immediate_muted (s : Core β) :
    s.muted.immediate = (s.immediate.1, s.immediate.2.muted) := by
  simp only [immediate, current_muted, fetch_muted, fetchOperand_muted]

theorem executeCurrent_muted (s : Core β) :
    s.muted.executeCurrent = s.executeCurrent.erase muted := by
  simp only [executeCurrent, current_muted, immediate_muted, execute_muted]

theorem report_muted (s : Core β) : s.muted.report = #[] := by
  simp only [report, immediate_muted]
  rfl

theorem runInstruction_muted (s : Core β) :
    s.muted.runInstruction = s.runInstruction.erase muted := by
  have hreport : Event.notable s.report = #[] := Event.notable_report _ rfl _
  have hexecute := executeCurrent_muted s
  cases hr : s.executeCurrent.result with
  | ok cycles =>
    have hr' : s.muted.executeCurrent.result = .ok cycles := by rw [hexecute]; exact hr
    have henable := advanceEnable_muted s.executeCurrent.state
    rw [runInstruction_of_ok hr, runInstruction_of_ok hr', report_muted, hexecute]
    simp only [Outcome.erase, henable, Event.notable_append, hreport]
  | error fault =>
    have hr' : s.muted.executeCurrent.result = .error fault := by rw [hexecute]; exact hr
    rw [runInstruction_of_error hr, runInstruction_of_error hr', report_muted, hexecute]
    simp only [Outcome.erase, Event.notable_append, hreport]

theorem stepAwake_muted (s : Core β) : s.muted.stepAwake = s.stepAwake.erase muted := by
  cases hh : s.cpu.halted with
  | true => rw [stepAwake_of_halted hh, stepAwake_of_halted (s := s.muted) hh, Outcome.erase_ok]
  | false =>
    rw [stepAwake_of_not_halted hh, stepAwake_of_not_halted (s := s.muted) hh,
      runInstruction_muted]

theorem step_muted (s : Core β) : s.muted.step = s.step.erase muted := by
  cases hs : s.cpu.stopped with
  | false => rw [step_of_not_stopped hs, step_of_not_stopped (s := s.muted) hs, stepAwake_muted]
  | true =>
    cases hb : s.noButton with
    | true =>
      rw [step_of_noButton hs hb, step_of_noButton (s := s.muted) hs hb, Outcome.erase_ok]
      rfl
    | false =>
      have hreleased : s.muted.released = s.released.muted := rfl
      rw [step_of_button hs hb, step_of_button (s := s.muted) hs hb, hreleased, stepAwake_muted]
      have hresumed : Event.notable #[.resumed] = #[.resumed] :=
        Event.notable_singleton (by simp [Event.level])
      simp only [Outcome.erase, Event.notable_append, hresumed]

/-! ## Interrupts -/

theorem dispatch_muted (source : Interrupt) (pending enabled : Byte) (s : Core β) :
    s.muted.dispatch source pending enabled =
      (s.dispatch source pending enabled).erase muted := rfl

theorem serviceInterrupts_muted (s : Core β) :
    s.muted.serviceInterrupts = s.serviceInterrupts.erase muted := by
  have hattentive : s.muted.attentive = s.attentive.muted := rfl
  cases hs : s.cpu.stopped with
  | true =>
    rw [serviceInterrupts_of_stopped hs, serviceInterrupts_of_stopped (s := s.muted) hs,
      Outcome.erase_ok]
  | false =>
    cases hi : s.cpu.ime with
    | false =>
      rw [serviceInterrupts_of_masked hs hi, serviceInterrupts_of_masked (s := s.muted) hs hi,
        Outcome.erase_ok, hattentive]
    | true =>
      rw [serviceInterrupts_of_unmasked hs hi, serviceInterrupts_of_unmasked (s := s.muted) hs hi,
        hattentive]
      have hpending : s.muted.pending = s.pending := rfl
      have henabled : s.muted.enabled = s.enabled := rfl
      rw [hpending, henabled]
      split
      · exact dispatch_muted _ _ _ _
      · split <;> rfl

/-- **Reporting instructions.** A processor that does not report instructions takes the same ticks
as one that does, with the same results and all other events. -/
theorem tick_muted (s : Core β) : s.muted.tick = s.tick.erase muted := by
  unfold tick
  rw [serviceInterrupts_muted]
  refine (Outcome.erase_andThen _ fun served => ?_).symm
  rw [step_muted]
  refine (Outcome.erase_andThen _ fun cycles => ?_).symm
  rfl

end Core

end GameBoy
