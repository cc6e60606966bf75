import GameBoy.Proofs.Core.Cost
import GameBoy.Proofs.Core.Service

/-!
# The events of a tick

Most of what the processor reports is routine (`Event.isRoutine`): instructions, low-power states,
holes that are passed over, and interrupts. It faults in two ways, at a hole of the opcode map if
its policy says so, and at interrupt registers that overlap outside the five sources; either is
reported by one record more (`Fault.Raised`). A third fault, at an opcode without an entry in its
table, does not arise, because both tables are complete (`Core.runInstruction_eq`,
`Core.executeExtended_eq`).

An outcome that keeps to this is `Outcome.Accounted`, and two parts that keep to it do so together.
So a tick does (`Core.accounted_tick`).
-/

namespace GameBoy

/-! ## Routine records -/

namespace Event

/-- The events that are reported in passing. -/
def isRoutine : Event → Bool
  | executing .. | executingExtended .. | stopped _ | resumed => true
  | holeSkipped .. | dispatched .. | vblankEntered => true
  | _ => false

/-- Nothing but routine is reported. -/
def AllRoutine (events : Array Event) : Prop := ∀ e ∈ events, e.isRoutine = true

theorem allRoutine_empty : AllRoutine #[] := by simp [AllRoutine]

theorem AllRoutine.append {events more : Array Event} (h : AllRoutine events)
    (hmore : AllRoutine more) : AllRoutine (events ++ more) := fun e he =>
  (Array.mem_append.mp he).elim (h e) (hmore e)

theorem allRoutine_singleton {e : Event} (h : e.isRoutine = true) : AllRoutine #[e] := by
  simp [AllRoutine, h]

/-- The records of the severity `error`. -/
def errors (events : Array Event) : Array Event := events.filter fun e => e.level = .error

theorem errors_append (events more : Array Event) :
    errors (events ++ more) = errors events ++ errors more := by
  simp [errors]

theorem AllRoutine.errors {events : Array Event} (h : AllRoutine events) : errors events = #[] := by
  unfold Event.errors
  rw [Array.filter_eq_empty_iff]
  intro e he herror
  have hroutine := h e he
  cases e <;> cases hroutine <;> simp [level] at herror

end Event

/-! ## Faults and their records -/

/-- The faults that a processor with some policy raises, each with its record. -/
inductive Fault.Raised (policy : HolePolicy) : Fault → Event → Prop
  | hole (opcode : Byte) (pc : Word) (h : policy = .fault) :
      Raised policy (.unassignedOpcode opcode pc) (.holeHit opcode pc)
  | overlap (pending enabled : Byte) (h : pending &&& enabled ≠ 0)
      (hsources : pending &&& enabled &&& Interrupt.all = 0) :
      Raised policy (.invalidInterruptState pending enabled) (.overlap pending enabled)

namespace Outcome

open Event (AllRoutine)

variable {σ α β : Type} {policy : HolePolicy} {o : Outcome σ α}

/-- Without a fault all that is reported is routine; with one, its record follows. -/
def Accounted (policy : HolePolicy) (o : Outcome σ α) : Prop :=
  match o.result with
  | .ok _ => AllRoutine o.events
  | .error fault => ∃ routine record, AllRoutine routine ∧ fault.Raised policy record ∧
      o.events = routine ++ #[record]

namespace Accounted

theorem of_ok {value : α} (ho : o.result = .ok value) (h : AllRoutine o.events) :
    o.Accounted policy := by
  unfold Accounted
  rw [ho]
  exact h

theorem routine (h : o.Accounted policy) {value : α} (ho : o.result = .ok value) :
    AllRoutine o.events := by
  unfold Accounted at h
  rw [ho] at h
  exact h

theorem record (h : o.Accounted policy) {fault : Fault} (ho : o.result = .error fault) :
    ∃ routine record, AllRoutine routine ∧ fault.Raised policy record ∧
      o.events = routine ++ #[record] := by
  unfold Accounted at h
  rw [ho] at h
  exact h

/-- The state does not count. -/
theorem of_error {τ γ : Type} {o' : Outcome τ γ} {fault : Fault} (h : o.Accounted policy)
    (ho : o.result = .error fault) (ho' : o'.result = .error fault)
    (hevents : o'.events = o.events) : o'.Accounted policy := by
  unfold Accounted
  rw [ho', hevents]
  exact h.record ho

/-- Routine may come first. -/
theorem after (h : o.Accounted policy) {before : Array Event} (hbefore : AllRoutine before) :
    Accounted policy ⟨o.result, o.state, before ++ o.events⟩ := by
  cases ho : o.result with
  | ok value => exact hbefore.append (h.routine ho)
  | error fault =>
    obtain ⟨routine, record, hroutine, hraised, hevents⟩ := h.record ho
    refine ⟨before ++ routine, record, hbefore.append hroutine, hraised, ?_⟩
    rw [hevents, Array.append_assoc]

theorem andThen {first : Outcome σ α} {second : α → σ → Outcome σ β}
    (h₁ : first.Accounted policy)
    (h₂ : ∀ value, first.result = .ok value → (second value first.state).Accounted policy) :
    (first.andThen second).Accounted policy := by
  cases h : first.result with
  | error fault =>
    rw [andThen_of_error h]
    exact h₁.of_error h rfl rfl
  | ok value =>
    rw [andThen_of_ok h]
    exact (h₂ value h).after (h₁.routine h)

theorem errors (h : o.Accounted policy) {fault : Fault} (ho : o.result = .error fault) :
    ∃ record, fault.Raised policy record ∧ Event.errors o.events = #[record] := by
  obtain ⟨routine, record, hroutine, hraised, hevents⟩ := h.record ho
  refine ⟨record, hraised, ?_⟩
  rw [hevents, Event.errors_append, hroutine.errors, Array.empty_append]
  cases hraised <;> rfl

theorem stalled_notMem (h : o.Accounted policy) (steps : Nat) (pc : Word) :
    Event.stalled steps pc ∉ o.events := by
  intro hmem
  cases ho : o.result with
  | ok value => cases h.routine ho _ hmem
  | error fault =>
    obtain ⟨routine, record, hroutine, hraised, hevents⟩ := h.record ho
    rw [hevents] at hmem
    rcases Array.mem_append.mp hmem with hmem | hmem
    · cases hroutine _ hmem
    · rw [← Array.mem_singleton.mp hmem] at hraised
      cases hraised

end Accounted

end Outcome

/-! ## Ticks -/

namespace Core

open Event (AllRoutine)

variable {β : Type} [Bus β] {policy : HolePolicy} {s : Core β}

theorem accounted_execute (hs : s.cpu.policy = policy) (i : Instruction) (operand : Operand) :
    (s.execute i operand).Accounted policy := by
  cases i with
  | prefixed =>
    rw [execute_prefixed]
    refine .of_ok rfl ?_
    dsimp only
    split
    · exact Event.allRoutine_singleton rfl
    · exact Event.allRoutine_empty
  | hole opcode =>
    unfold execute executeHole
    dsimp only
    split
    · exact Event.allRoutine_singleton rfl
    · rename_i hpolicy
      exact ⟨#[], _, Event.allRoutine_empty, .hole _ _ (hs.symm.trans hpolicy), rfl⟩
  | stop => exact Event.allRoutine_singleton rfl
  | _ => exact Event.allRoutine_empty

theorem accounted_runInstruction (hs : s.cpu.policy = policy) :
    s.runInstruction.Accounted policy := by
  have hpolicy : s.immediate.2.cpu.policy = policy :=
    (congrArg Prod.fst (settings_immediate s)).trans hs
  have hreport : AllRoutine s.report := by
    unfold report
    split
    · exact Event.allRoutine_singleton rfl
    · exact Event.allRoutine_empty
  have hcurrent : s.executeCurrent.Accounted policy := accounted_execute hpolicy _ _
  have hboth := hcurrent.after hreport
  cases hr : s.executeCurrent.result with
  | ok cycles =>
    rw [runInstruction_of_ok hr]
    exact hboth.routine hr
  | error fault =>
    rw [runInstruction_of_error hr]
    exact hboth.of_error hr rfl rfl

theorem accounted_step (hs : s.cpu.policy = policy) : s.step.Accounted policy := by
  have hbefore : ∀ before : Array Event, before = #[] ∨ before = #[.resumed] →
      AllRoutine before := by
    rintro before (rfl | rfl)
    · exact Event.allRoutine_empty
    · exact Event.allRoutine_singleton rfl
  cases ha : s.awake? with
  | none =>
    obtain ⟨hresult, -, hevents⟩ := step_of_asleep ha
    exact .of_ok hresult (hbefore _ hevents)
  | some s' =>
    have hs' : s'.cpu.policy = policy := by rw [(of_awake ha).2.1]; exact hs
    obtain ⟨before, hevents, hstep⟩ := step_of_awake ha
    rw [hstep]
    exact (accounted_runInstruction hs').after (hbefore _ hevents)

theorem accounted_serviceInterrupts (policy : HolePolicy) (s : Core β) :
    s.serviceInterrupts.Accounted policy := by
  cases hs : s.cpu.stopped with
  | true => rw [serviceInterrupts_of_stopped hs]; exact Event.allRoutine_empty
  | false =>
    cases hi : s.cpu.ime with
    | false => rw [serviceInterrupts_of_masked hs hi]; exact Event.allRoutine_empty
    | true =>
      rw [serviceInterrupts_of_unmasked hs hi]
      split
      · exact Event.allRoutine_singleton rfl
      · rename_i hnone
        split
        · exact Event.allRoutine_empty
        · rename_i hne
          have hoverlap : s.pending &&& s.enabled ≠ 0 := fun h => hne (beq_iff_eq.mpr h)
          have hsources := (Interrupt.first?_eq_none_iff _).mp hnone
          exact ⟨#[], _, Event.allRoutine_empty, .overlap _ _ hoverlap hsources, rfl⟩

/-- A tick that faults has met a hole under the policy that says so, or an overlap outside the
sources, and has reported that last. -/
theorem accounted_tick (s : Core β) : s.tick.Accounted s.cpu.policy := by
  refine (accounted_serviceInterrupts _ s).andThen fun served _ => ?_
  have hpolicy : s.serviceInterrupts.state.cpu.policy = s.cpu.policy :=
    congrArg Prod.fst (settings_serviceInterrupts s)
  exact (accounted_step hpolicy).andThen fun stepped _ => Event.allRoutine_empty

theorem tick_of_hole {s : Core Memory} (hs : s.cpu.stopped = false) (hh : s.cpu.halted = false)
    (hi : s.cpu.ime = false) (hp : s.cpu.policy = .fault) {opcode : Byte}
    (hop : Instruction.decode (s.bus.read s.cpu.registers.pc) = .hole opcode) :
    s.tick.result = .error (.unassignedOpcode opcode (s.fetch.2.cpu.registers.pc - 1)) := by
  have hserved := serviceInterrupts_of_masked hs hi
  have hhalted : s.attentive.cpu.halted = false := by simp [attentive, hh]
  have hcurrent : s.attentive.current = .hole opcode := by
    rw [current, fetch_fst]
    exact hop
  have hpolicy : s.attentive.fetch.2.cpu.policy = .fault :=
    (congrArg Cpu.policy (control_fetch s.attentive)).trans hp
  have hexecute : s.attentive.executeCurrent = s.attentive.fetch.2.executeHole opcode := by
    unfold executeCurrent immediate
    rw [hcurrent]
    rfl
  have hresult : s.attentive.executeCurrent.result =
      .error (.unassignedOpcode opcode (s.attentive.fetch.2.cpu.registers.pc - 1)) := by
    rw [hexecute]
    unfold executeHole
    simp only [hpolicy]
  rw [pc_fetch] at hresult ⊢
  rw [tick, hserved, Outcome.andThen_of_ok rfl]
  show (Outcome.andThen s.attentive.step _).result = _
  rw [step_of_not_stopped (s := s.attentive) hs, stepAwake_of_not_halted hhalted,
    runInstruction_of_error hresult]
  rfl

end Core

end GameBoy
