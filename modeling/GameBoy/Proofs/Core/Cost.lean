import GameBoy.Proofs.Core.Control

/-!
# The cost of a step

An instruction costs at most six machine cycles, and a dispatch before it five more, so serving
interrupts and stepping cost at most eleven (`Core.cost_tick_le`). Only a hole that is passed over
costs nothing, and all that it does is to move past its byte (`Core.tick_of_free`).
-/

namespace GameBoy

/-! ## Instructions -/

namespace Instruction

theorem cycles_le (i : Instruction) : i.cycles ≤ 6 := by
  cases i <;> simp only [cycles] <;> (try split) <;> omega

theorem takenCycles_le (i : Instruction) : i.takenCycles ≤ 6 := by
  unfold takenCycles
  split
  · omega
  · omega
  · omega
  · omega
  · exact cycles_le _

theorem cost_le (i : Instruction) (r : Registers) : i.cost r ≤ 6 := by
  unfold cost
  split
  · exact takenCycles_le i
  · exact cycles_le i

theorem cost_pos {i : Instruction} (h : ∀ opcode, i ≠ .hole opcode) (r : Registers) :
    0 < i.cost r := by
  have hc : 0 < i.cycles := by
    cases i with
    | hole opcode => exact absurd rfl (h opcode)
    | _ =>
      simp only [cycles]
      (try split) <;> omega
  unfold cost
  split
  · unfold takenCycles
    split
    · omega
    · omega
    · omega
    · omega
    · exact hc
  · exact hc

end Instruction

theorem Extended.cycles_le (i : Extended) : i.cycles ≤ 3 := by
  unfold cycles
  split <;> split <;> omega

namespace Core

variable {β : Type} [Bus β] {s : Core β} {cycles : Nat}

/-! ## Steps -/

theorem cost_execute {i : Instruction} {operand : Operand}
    (h : (s.execute i operand).result = .ok cycles) :
    cycles ≤ 6 ∧
      (cycles = 0 → (∃ opcode, i = .hole opcode) ∧ (s.execute i operand).state = s) := by
  cases i with
  | prefixed =>
    have hle := Extended.cycles_le (Extended.decode s.fetch.1)
    rw [execute_prefixed] at h
    have hc : 1 + (Extended.decode s.fetch.1).cycles = cycles := Except.ok.inj h
    omega
  | hole opcode =>
    unfold execute executeHole at h ⊢
    dsimp only at h ⊢
    split at h
    · obtain rfl := Except.ok.inj h
      exact ⟨by simp [Instruction.cycles], fun _ => ⟨⟨_, rfl⟩, rfl⟩⟩
    · cases h
  | stop =>
    obtain rfl : Instruction.stop.cycles = cycles := Except.ok.inj h
    simp only [Instruction.cycles]
    omega
  | _ =>
    obtain rfl := Except.ok.inj h
    refine ⟨Instruction.cost_le _ _, fun h0 => ?_⟩
    exact absurd h0 (Nat.pos_iff_ne_zero.mp (Instruction.cost_pos (by simp) _))

theorem cost_executeCurrent (h : s.executeCurrent.result = .ok cycles) :
    cycles ≤ 6 ∧
      (cycles = 0 →
        (∃ opcode, s.current = .hole opcode) ∧ s.executeCurrent.state = s.fetch.2) := by
  obtain ⟨hle, hfree⟩ := cost_execute h
  refine ⟨hle, fun h0 => ?_⟩
  obtain ⟨⟨opcode, hi⟩, hs⟩ := hfree h0
  refine ⟨⟨opcode, hi⟩, hs.trans ?_⟩
  rw [immediate, hi]
  rfl

/-- What a step costs, and what a step does that costs nothing: it fetches the byte of a hole. -/
theorem cost_step (h : s.step.result = .ok cycles) :
    cycles ≤ 6 ∧
      (cycles = 0 → ∃ s', s.awake? = some s' ∧ (∃ opcode, s'.current = .hole opcode) ∧
        s.step.state = ⟨s'.fetch.2.cpu.advanceEnable, s'.fetch.2.bus⟩) := by
  cases ha : s.awake? with
  | none =>
    obtain rfl : 1 = cycles := Except.ok.inj ((step_of_asleep ha).1.symm.trans h)
    exact ⟨by omega, fun h0 => absurd h0 (by decide)⟩
  | some s' =>
    obtain ⟨before, -, hstep⟩ := step_of_awake ha
    rw [hstep] at h ⊢
    cases hc : s'.executeCurrent.result with
    | error fault => rw [runInstruction_of_error hc] at h; cases h
    | ok cycles' =>
      rw [runInstruction_of_ok hc] at h ⊢
      obtain rfl : cycles' = cycles := Except.ok.inj h
      obtain ⟨hle, hfree⟩ := cost_executeCurrent hc
      refine ⟨hle, fun h0 => ⟨s', rfl, (hfree h0).1, ?_⟩⟩
      rw [← (hfree h0).2]

/-! ## Interrupts -/

/-- Serving interrupts costs nothing or a dispatch, and without a dispatch at most the halt ends. -/
theorem cost_serviceInterrupts (h : s.serviceInterrupts.result = .ok cycles) :
    cycles = 5 ∨
      cycles = 0 ∧ (s.serviceInterrupts.state = s ∨ s.serviceInterrupts.state = s.attentive) := by
  rcases serviceInterrupts_cases s with ⟨s', hs', heq⟩ | ⟨-, ⟨source, heq⟩ | heq⟩
  · rw [heq] at h ⊢
    obtain rfl : 0 = cycles := Except.ok.inj h
    exact .inr ⟨rfl, hs'⟩
  · rw [heq] at h
    obtain rfl : dispatchCycles = cycles := Except.ok.inj h
    exact .inl rfl
  · rw [heq] at h
    cases h

/-! ## Both together -/

theorem tick_of_ok (h : s.tick.result = .ok cycles) :
    ∃ served stepped, s.serviceInterrupts.result = .ok served ∧
      s.serviceInterrupts.state.step.result = .ok stepped ∧ cycles = served + stepped ∧
      s.tick.state = s.serviceInterrupts.state.step.state := by
  obtain ⟨served, hs, hrest, hstate⟩ := Outcome.andThen_eq_ok h
  obtain ⟨stepped, ht, hsum, hstate'⟩ := Outcome.andThen_eq_ok hrest
  exact ⟨served, stepped, hs, ht, (Except.ok.inj hsum).symm, hstate.trans hstate'⟩

theorem cost_tick_le (h : s.tick.result = .ok cycles) : cycles ≤ 11 := by
  obtain ⟨served, stepped, hs, ht, rfl, -⟩ := tick_of_ok h
  have := (cost_step ht).1
  have := cost_serviceInterrupts hs
  omega

theorem tick_of_nop {s : Core Memory} (hs : s.cpu.stopped = false) (hh : s.cpu.halted = false)
    (hi : s.cpu.ime = false) (hop : s.bus.read s.cpu.registers.pc = 0) :
    s.tick.result = .ok 1 := by
  have hserved := serviceInterrupts_of_masked hs hi
  have hhalted : s.attentive.cpu.halted = false := by simp [attentive, hh]
  have hcurrent : s.attentive.current = .nop := by
    rw [current, fetch_fst]
    exact congrArg Instruction.decode hop
  rw [tick, hserved, Outcome.andThen_of_ok rfl]
  show (Outcome.andThen s.attentive.step _).result = _
  rw [(step_of_nop_or_ei (s := s.attentive) hs hhalted hcurrent (.inl rfl)).2]
  rfl

/-- A tick that costs nothing passes over a hole: the byte at the program counter stands for no
instruction, the memory stays, and the counter moves past the byte unless the halt bug holds it. -/
theorem tick_of_free {s : Core Memory} (h : s.tick.result = .ok 0) :
    (∃ opcode, Instruction.decode (s.bus.read s.cpu.registers.pc) = .hole opcode) ∧
      s.tick.state.bus = s.bus ∧ s.tick.state.cpu.haltBug = false ∧
      s.tick.state.cpu.registers.pc =
        if s.cpu.haltBug then s.cpu.registers.pc else s.cpu.registers.pc + 1 := by
  obtain ⟨served, stepped, hs, ht, hsum, hstate⟩ := tick_of_ok h
  obtain rfl : stepped = 0 := by omega
  obtain ⟨s', ha, ⟨opcode, hhole⟩, hstep⟩ := (cost_step ht).2 rfl
  obtain ⟨-, hcpu, hbus⟩ := of_awake ha
  -- neither looking at the interrupt registers nor leaving the stop touches what is claimed
  have hserved : s.serviceInterrupts.state.bus = s.bus ∧
      s.serviceInterrupts.state.cpu.registers = s.cpu.registers ∧
      s.serviceInterrupts.state.cpu.haltBug = s.cpu.haltBug := by
    rcases cost_serviceInterrupts hs with h5 | ⟨-, heq | heq⟩
    · omega
    · rw [heq]; exact ⟨rfl, rfl, rfl⟩
    · rw [heq]; exact ⟨rfl, rfl, rfl⟩
  obtain ⟨hb, hr, hh⟩ := hserved
  have hbus' : s'.bus = s.bus := (hbus.elim id id).trans hb
  have hpc : s'.cpu.registers.pc = s.cpu.registers.pc := by rw [hcpu, ← hr]
  have hbug : s'.cpu.haltBug = s.cpu.haltBug := by rw [hcpu, ← hh]
  rw [hstate, hstep]
  refine ⟨⟨opcode, ?_⟩, ?_, ?_, ?_⟩
  · rw [← hhole, current, fetch_fst, hpc, hbus']
    rfl
  · show s'.fetch.2.bus = s.bus
    rw [bus_fetch, hbus']
    rfl
  · show s'.fetch.2.cpu.advanceEnable.haltBug = false
    rw [Cpu.haltBug_advanceEnable]
    exact congrArg Cpu.haltBug (control_fetch s')
  · show s'.fetch.2.cpu.advanceEnable.registers.pc = _
    rw [Cpu.registers_advanceEnable, pc_fetch, hpc, hbug]

end Core

end GameBoy
