import GameBoy.Proofs.Machine.Splitting

/-!
# Faults are kept

A run that faults leaves one error record, and the machine keeps the fault. From then on no step
does anything, whatever else is done to the machine, until it is reset.

Main theorem: `Machine.fault_latched`.
-/

namespace GameBoy.Machine

variable {ρ : Type} [LineRenderer ρ] {m : Machine ρ} {input : JoypadInput} {budget retired : Nat}
  {o : Outcome (Machine ρ) Nat} {fault : Fault}

/-! ## Keeping a fault -/

theorem fault_perform (h : m.fault = some fault) {op : Operation} (hop : op ≠ .reset) :
    (m.perform op).fault = some fault := by
  cases op with
  | reset => exact absurd rfl hop
  | step input budget => simp only [perform, step_of_fault h]; exact h
  | stepFrame input => simp only [perform, stepFrame, step_of_fault h]; exact h
  | load image => simp only [perform, load]; split <;> exact h
  | map image window => simp only [perform]; split <;> exact h
  | write | write16 | setCpu => exact h

theorem fault_performAll (h : m.fault = some fault) {ops : List Operation}
    (hops : Operation.reset ∉ ops) : (m.performAll ops).fault = some fault := by
  induction ops generalizing m with
  | nil => exact h
  | cons op ops ih =>
    have hop : op ≠ .reset := fun e => hops (e ▸ List.mem_cons_self)
    exact ih (fault_perform h hop) fun hrest => hops (List.mem_cons_of_mem _ hrest)

/-- **Faults are kept.** A step that faults reports one error, of a hole under the policy that says
so or of interrupt registers that overlap outside the five sources. From then on every step ends
with that fault, changes nothing and reports nothing, whatever is done to the machine in between,
until it is reset. A step that does not fault reports no error. -/
theorem fault_latched (hm : m.Reachable) (hf : m.fault = none)
    (ho : (∃ input budget, o = m.step input budget) ∨ ∃ input, o = m.stepFrame input) :
    (∀ r, o.result = .ok r → o.state.fault = none ∧ Event.errors o.events = #[]) ∧
    ∀ fault, o.result = .error fault →
      ((∃ opcode pc, fault = .unassignedOpcode opcode pc ∧ m.cpu.policy = .fault ∧
          Event.errors o.events = #[.holeHit opcode pc]) ∨
        ∃ pending enabled, fault = .invalidInterruptState pending enabled ∧
          pending &&& enabled ≠ 0 ∧ pending &&& enabled &&& 0x1F = 0 ∧
          Event.errors o.events = #[.overlap pending enabled]) ∧
      o.state.fault = some fault ∧
      ∀ ops : List Operation, .reset ∉ ops →
        let later := o.state.performAll ops
        later.fault = some fault ∧ later.reset.fault = none ∧
          (∀ input, later.stepFrame input = ⟨.error fault, later, #[]⟩) ∧
          ∀ input budget, later.step input budget = ⟨.error fault, later, #[]⟩ := by
  obtain ⟨input, budget, rfl⟩ : ∃ input budget, o = m.step input budget := by
    rcases ho with ho | ⟨input, ho⟩
    · exact ho
    · exact ⟨input, _, ho⟩
  have hloop := loop_run hm.unusableClear input budget
  refine ⟨fun r hr => ?_, fun fault hr => ?_⟩
  · rw [result_step hf] at hr
    rw [step_of_ok hf hr]
    exact ⟨hloop.fault_state.trans hf, (hloop.accounted.routine hr).errors⟩
  · rw [result_step hf] at hr
    rw [step_of_error hf hr]
    refine ⟨?_, rfl, fun ops hops => ?_⟩
    · obtain ⟨record, hraised, herrors⟩ := hloop.accounted.errors hr
      cases hraised with
      | hole opcode pc hpolicy => exact .inl ⟨opcode, pc, rfl, hpolicy, herrors⟩
      | overlap pending enabled hne hsources =>
        exact .inr ⟨pending, enabled, rfl, hne, hsources, herrors⟩
    · intro later
      have hlater : later.fault = some fault := fault_performAll rfl hops
      exact ⟨hlater, rfl, fun input => step_of_fault hlater input _, step_of_fault hlater⟩

/-- A step onto a hole under the policy that says so, and what happens to the machine afterwards. -/
theorem fault_latched_at_hole :
    let m := ((withBackground {}).perform (.write 0xC000 0xD3)).perform
      (.setCpu { registers := { pc := 0xC000 }, policy := .fault })
    let o := m.step {} 1
    let fault : Fault := .unassignedOpcode 0xD3 0xC000
    let ops : List Operation :=
      [.load #[0x00], .write 0xC000 0x00, .setCpu { registers := {} },
        .stepFrame (.ofList Button.all)]
    let later := o.state.performAll ops
    m.Reachable ∧ m.fault = none ∧ o.result = .error fault ∧
      Event.errors o.events = #[.holeHit 0xD3 0xC000] ∧ .reset ∉ ops ∧
      later.fault = some fault ∧ later.step (.ofList [.right]) 5 = ⟨.error fault, later, #[]⟩ := by
  intro m o fault ops later
  have hm : m.Reachable := .perform _ (.perform _ (.create _ _))
  have hbyte : (m.latch {}).core.bus.read 0xC000 = 0xD3 := by
    refine (Joypad.read_latch_of_ne _ _ _ (by decide) (by decide)).trans ?_
    exact (Memory.read_write_of_plain (by decide) _ _ _).trans (if_pos rfl)
  have htick : (m.latch {}).core.tick.result = .error fault := by
    have hhole : Instruction.decode ((m.latch {}).core.bus.read 0xC000) = .hole 0xD3 := by
      rw [hbyte]
      decide
    have hpc : (0xC000 : Word) + 1 - 1 = 0xC000 := by decide
    rw [Core.tick_of_hole (s := (m.latch {}).core) rfl rfl rfl rfl hhole, Core.pc_fetch]
    exact congrArg (fun pc => Except.error (Fault.unassignedOpcode 0xD3 pc)) hpc
  have hiterate : ((m.latch {}).iterate {}).result = .error fault := by rw [iterate_of_error htick]
  have hresult : o.result = .error fault := by
    show (m.step {} 1).result = _
    have key : Loop {} 1 0 (m.latch {}) _ := .fault (by omega) hiterate
    rw [result_step rfl, (loop_run hm.unusableClear {} 1).deterministic key]
  have hops : Operation.reset ∉ ops := by simp [ops]
  obtain ⟨hkind, -, hlater⟩ := (fault_latched hm rfl (.inl ⟨{}, 1, rfl⟩)).2 fault hresult
  obtain ⟨hkept, -, -, hstep⟩ := hlater ops hops
  refine ⟨hm, rfl, hresult, ?_, hops, hkept, hstep _ _⟩
  rcases hkind with ⟨opcode, pc, heq, -, herrors⟩ | ⟨_, _, heq, -⟩
  · obtain ⟨rfl, rfl⟩ := Fault.unassignedOpcode.inj heq
    exact herrors
  · exact Fault.noConfusion heq

end GameBoy.Machine
