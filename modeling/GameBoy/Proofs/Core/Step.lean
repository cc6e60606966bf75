import GameBoy.Proofs.Core.Access

/-!
# What a step comes to

The two moves of the processor, taken apart once.

* A step idles or runs the instruction at the program counter. `Core.awake?` is the core that
  fetches that instruction; `Core.step_of_awake` and `Core.step_of_asleep` are the two cases.
* Serving interrupts does nothing, dispatches a source, or stops at an overlap outside the sources
  (`Core.serviceInterrupts_cases`). The processor that does so differs from the one before at most
  in having woken from the halt.
-/

namespace GameBoy.Core

variable {β : Type} [Bus β] {s s' : Core β}

/-! ## Running the current instruction -/

/-- The instruction at the program counter. -/
def current (s : Core β) : Instruction := Instruction.decode s.fetch.1

theorem current_eq (s : Core β) :
    s.current = Instruction.decode (Bus.read8 s.cpu.registers.pc s.bus).1 := by
  rw [current, fetch_fst]

theorem current_of_byte {byte : Byte} {i : Instruction}
    (hbyte : (Bus.read8 s.cpu.registers.pc s.bus).1 = byte) (hi : Instruction.decode byte = i) :
    s.current = i := by
  rw [current_eq, hbyte, hi]

/-- The immediate of the current instruction, and the core that has fetched both. -/
def immediate (s : Core β) : Operand × Core β := s.fetch.2.fetchOperand s.current.operand

/-- What the current instruction does, before a scheduled enable moves on. -/
def executeCurrent (s : Core β) : Outcome (Core β) Nat :=
  s.immediate.2.execute s.current s.immediate.1

/-- The record of the current instruction, if instructions are reported. -/
def report (s : Core β) : Array Event :=
  if s.immediate.2.cpu.tracing then
    #[.executing s.cpu.registers.pc s.current s.immediate.1 s.immediate.2.cpu.registers]
  else #[]

theorem runInstruction_of_ok {cycles : Nat} (h : s.executeCurrent.result = .ok cycles) :
    s.runInstruction =
      ⟨.ok cycles, ⟨s.executeCurrent.state.cpu.advanceEnable, s.executeCurrent.state.bus⟩,
        s.report ++ s.executeCurrent.events⟩ := by
  rw [runInstruction_eq]
  dsimp only
  split
  · rename_i heq
    change s.executeCurrent = _ at heq
    rw [heq] at h ⊢
    cases h
    rfl
  · rename_i heq
    change s.executeCurrent = _ at heq
    rw [heq] at h
    cases h

theorem runInstruction_of_error {fault : Fault} (h : s.executeCurrent.result = .error fault) :
    s.runInstruction =
      ⟨.error fault, s.executeCurrent.state, s.report ++ s.executeCurrent.events⟩ := by
  rw [runInstruction_eq]
  dsimp only
  split
  · rename_i heq
    change s.executeCurrent = _ at heq
    rw [heq] at h
    cases h
  · rename_i heq
    change s.executeCurrent = _ at heq
    rw [heq] at h ⊢
    cases h
    rfl

theorem result_runInstruction (s : Core β) :
    s.runInstruction.result = s.executeCurrent.result := by
  cases h : s.executeCurrent.result with
  | ok cycles => rw [runInstruction_of_ok h]
  | error fault => rw [runInstruction_of_error h]

theorem events_runInstruction (s : Core β) :
    s.runInstruction.events = s.report ++ s.executeCurrent.events := by
  cases h : s.executeCurrent.result with
  | ok cycles => rw [runInstruction_of_ok h]
  | error fault => rw [runInstruction_of_error h]

/-! ## Idling or running -/

/-- Whether the joypad register shows no button. -/
def noButton (s : Core β) : Bool := (s.read Hardware.joypad).1 &&& 0x0F == 0x0F

/-- The core that has left the stop. -/
def released (s : Core β) : Core β :=
  ⟨{ s.cpu with stopped := false }, (s.read Hardware.joypad).2.bus⟩

theorem stepAwake_of_halted (h : s.cpu.halted = true) : s.stepAwake = .ok 1 s := by
  rw [stepAwake, if_pos h]

theorem stepAwake_of_not_halted (h : s.cpu.halted = false) : s.stepAwake = s.runInstruction := by
  rw [stepAwake, if_neg (by simp [h])]

theorem step_of_not_stopped (h : s.cpu.stopped = false) : s.step = s.stepAwake := by
  rw [step, if_neg (by simp [h])]

theorem step_of_running (hhalted : s.cpu.halted = false) (hstopped : s.cpu.stopped = false) :
    s.step = s.runInstruction := by
  rw [step_of_not_stopped hstopped, stepAwake_of_not_halted hhalted]

theorem step_of_noButton (h : s.cpu.stopped = true) (hb : s.noButton = true) :
    s.step = .ok 1 ⟨s.cpu, (s.read Hardware.joypad).2.bus⟩ := by
  rw [step, if_pos h]
  exact if_pos hb

theorem step_of_button (h : s.cpu.stopped = true) (hb : s.noButton = false) :
    s.step = ⟨s.released.stepAwake.result, s.released.stepAwake.state,
      #[.resumed] ++ s.released.stepAwake.events⟩ := by
  rw [step, if_pos h]
  exact if_neg (by rw [← Bool.not_eq_true] at hb; exact hb)

/-- The core that fetches an instruction when it is given a step; none when the step idles. -/
def awake? (s : Core β) : Option (Core β) :=
  if s.cpu.halted then none
  else if s.cpu.stopped then
    if s.noButton then none else some s.released
  else some s

theorem awake?_of_running (hhalted : s.cpu.halted = false) (hstopped : s.cpu.stopped = false) :
    s.awake? = some s := by
  rw [awake?, if_neg (by simp [hhalted]), if_neg (by simp [hstopped])]

/-- A core that is awake differs from the one before the step only in having left the stop. -/
theorem of_awake (h : s.awake? = some s') :
    s.cpu.halted = false ∧ s'.cpu = { s.cpu with stopped := false } ∧
      (s'.bus = s.bus ∨ s'.bus = (s.read Hardware.joypad).2.bus) := by
  cases hh : s.cpu.halted with
  | true => simp [awake?, hh] at h
  | false =>
    cases hs : s.cpu.stopped with
    | false =>
      obtain rfl : s = s' := by simpa [awake?, hh, hs] using h
      exact ⟨rfl, by rw [← hs], .inl rfl⟩
    | true =>
      obtain ⟨-, rfl⟩ : s.noButton = false ∧ s.released = s' := by
        simpa [awake?, hh, hs] using h
      exact ⟨rfl, rfl, .inr rfl⟩

theorem step_of_awake (h : s.awake? = some s') :
    ∃ before : Array Event, (before = #[] ∨ before = #[.resumed]) ∧
      s.step = ⟨s'.runInstruction.result, s'.runInstruction.state,
        before ++ s'.runInstruction.events⟩ := by
  cases hh : s.cpu.halted with
  | true => simp [awake?, hh] at h
  | false =>
    cases hs : s.cpu.stopped with
    | false =>
      obtain rfl : s = s' := by simpa [awake?, hh, hs] using h
      refine ⟨#[], .inl rfl, ?_⟩
      rw [step_of_not_stopped hs, stepAwake_of_not_halted hh, Array.empty_append]
    | true =>
      obtain ⟨hb, rfl⟩ : s.noButton = false ∧ s.released = s' := by
        simpa [awake?, hh, hs] using h
      refine ⟨#[.resumed], .inr rfl, ?_⟩
      rw [step_of_button hs hb, stepAwake_of_not_halted (s := s.released) hh]

/-- A step of any other core idles for a cycle. -/
theorem step_of_asleep (h : s.awake? = none) :
    s.step.result = .ok 1 ∧
      s.step.state.cpu = { s.cpu with stopped := s.step.state.cpu.stopped } ∧
      (s.step.events = #[] ∨ s.step.events = #[.resumed]) := by
  cases hs : s.cpu.stopped with
  | false =>
    have hh : s.cpu.halted = true := by simpa [awake?, hs] using h
    rw [step_of_not_stopped hs, stepAwake_of_halted hh]
    exact ⟨rfl, rfl, .inl rfl⟩
  | true =>
    cases hb : s.noButton with
    | true =>
      rw [step_of_noButton hs hb]
      exact ⟨rfl, rfl, .inl rfl⟩
    | false =>
      have hh : s.cpu.halted = true := by simpa [awake?, hs, hb] using h
      rw [step_of_button hs hb, stepAwake_of_halted (s := s.released) hh]
      exact ⟨rfl, rfl, .inr rfl⟩

/-- What a step comes to that runs an instruction without an immediate at the cost of one cycle. -/
theorem step_of_brief {i : Instruction} (hs : s.cpu.stopped = false) (hh : s.cpu.halted = false)
    (hc : s.current = i) (hoperand : i.operand = .none)
    (hi : ∀ t : Core β, t.execute i .none = .ok 1 (t.apply i .none)) :
    s.executeCurrent = .ok 1 (s.fetch.2.apply i .none) ∧
      s.step = ⟨.ok 1, ⟨(s.fetch.2.apply i .none).cpu.advanceEnable,
        (s.fetch.2.apply i .none).bus⟩, s.report⟩ := by
  have himmediate : s.immediate = (.none, s.fetch.2) := by
    rw [immediate, hc, hoperand]
    rfl
  have hexecute : s.executeCurrent = .ok 1 (s.fetch.2.apply i .none) := by
    rw [executeCurrent, himmediate, hc, hi]
  refine ⟨hexecute, ?_⟩
  rw [step_of_running hh hs,
    runInstruction_of_ok (show s.executeCurrent.result = .ok 1 by rw [hexecute]; rfl), hexecute]
  rfl

theorem step_of_nop_or_ei {i : Instruction} (hs : s.cpu.stopped = false)
    (hh : s.cpu.halted = false) (hc : s.current = i) (hi : i = .nop ∨ i = .ei) :
    s.executeCurrent = .ok 1 (s.fetch.2.apply i .none) ∧
      s.step = ⟨.ok 1, ⟨(s.fetch.2.apply i .none).cpu.advanceEnable,
        (s.fetch.2.apply i .none).bus⟩, s.report⟩ := by
  rcases hi with rfl | rfl
  · exact step_of_brief hs hh hc rfl fun _ => rfl
  · exact step_of_brief hs hh hc rfl fun _ => rfl

/-! ## Serving interrupts -/

/-- The interrupt flags as the processor reads them. -/
def pending (s : Core β) : Byte := (s.read Hardware.interruptFlags).1

/-- The interrupt enable register as the processor reads it, after the flags. -/
def enabled (s : Core β) : Byte :=
  ((s.read Hardware.interruptFlags).2.read Hardware.interruptEnable).1

/-- The core that has looked at both interrupt registers, and has woken if a source is in both. -/
def attentive (s : Core β) : Core β :=
  ⟨{ s.cpu with halted := s.cpu.halted && s.pending &&& s.enabled &&& Interrupt.all == 0 },
    ((s.read Hardware.interruptFlags).2.read Hardware.interruptEnable).2.bus⟩

theorem serviceInterrupts_of_stopped (h : s.cpu.stopped = true) :
    s.serviceInterrupts = .ok 0 s := by
  rw [serviceInterrupts, if_pos h]

theorem serviceInterrupts_of_masked (h : s.cpu.stopped = false) (hi : s.cpu.ime = false) :
    s.serviceInterrupts = .ok 0 s.attentive := by
  rw [serviceInterrupts, if_neg (by simp [h])]
  exact if_neg (by simpa using hi)

theorem serviceInterrupts_of_unmasked (h : s.cpu.stopped = false) (hi : s.cpu.ime = true) :
    s.serviceInterrupts =
      match Interrupt.first? (s.pending &&& s.enabled) with
      | some source => s.attentive.dispatch source s.pending s.enabled
      | none =>
        if s.pending &&& s.enabled == 0 then .ok 0 s.attentive
        else ⟨.error (.invalidInterruptState s.pending s.enabled), s.attentive,
          #[.overlap s.pending s.enabled]⟩ := by
  rw [serviceInterrupts, if_neg (by simp [h])]
  exact if_pos hi

/-- Serving interrupts does nothing, dispatches a source, or stops at an overlap. -/
theorem serviceInterrupts_cases (s : Core β) :
    (∃ s', (s' = s ∨ s' = s.attentive) ∧ s.serviceInterrupts = .ok 0 s') ∨
      s.cpu.ime = true ∧
        ((∃ source, s.serviceInterrupts = s.attentive.dispatch source s.pending s.enabled) ∨
          s.serviceInterrupts =
            ⟨.error (.invalidInterruptState s.pending s.enabled), s.attentive,
              #[.overlap s.pending s.enabled]⟩) := by
  cases hs : s.cpu.stopped with
  | true => exact .inl ⟨s, .inl rfl, serviceInterrupts_of_stopped hs⟩
  | false =>
    cases hi : s.cpu.ime with
    | false => exact .inl ⟨_, .inr rfl, serviceInterrupts_of_masked hs hi⟩
    | true =>
      rw [serviceInterrupts_of_unmasked hs hi]
      split
      · exact .inr ⟨rfl, .inl ⟨_, rfl⟩⟩
      · split
        · exact .inl ⟨_, .inr rfl, rfl⟩
        · exact .inr ⟨rfl, .inr rfl⟩

/-- A core that serves nothing and idles has waited for a cycle. -/
theorem tick_of_idle (hserve : s.serviceInterrupts = .ok 0 s) (hstep : s.step = .ok 1 s) :
    s.tick.result = .ok 1 ∧ s.tick.state = s := by
  unfold tick
  rw [hserve]
  dsimp only [Outcome.ok, Outcome.andThen]
  rw [hstep]
  exact ⟨rfl, rfl⟩

end GameBoy.Core
