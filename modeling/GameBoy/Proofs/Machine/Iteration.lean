import GameBoy.Machine.Run
import GameBoy.Proofs.Core.Events
import GameBoy.Proofs.Machine.Hardware

/-!
# One iteration of a run

An iteration is a tick of the processor, after which the joypad register shows the buttons and the
display moves on by the cycles of the tick. `Machine.iterate_of_ok` and `Machine.iterate_of_error`
say what each field of the machine is afterwards, and everything else about an iteration follows
from them.

Main facts: an iteration costs at most eleven cycles (`cost_iterate_le`), it keeps the read-only
bytes of the memory (`read_iterate`), and it leaves the joypad register as a latch of the same
buttons would (`latch_iterate`).
-/

namespace GameBoy.Machine

variable {ρ : Type} {m : Machine ρ} {input : JoypadInput} {cycles : Nat}

/-! ## The buttons -/

theorem latch_of_shown (hheld : m.joypad.held = input.mask)
    (hshown : Joypad.registerByte (m.core.bus.read Hardware.joypad) input.mask =
      m.core.bus.read Hardware.joypad) : m.latch input = m := by
  unfold latch
  rw [Joypad.latch_of_shown hheld hshown]

theorem latch_latch (m : Machine ρ) (input : JoypadInput) :
    (m.latch input).latch input = m.latch input := by
  apply latch_of_shown rfl
  show Joypad.registerByte ((m.joypad.latch _ _).2.read _) _ = (m.joypad.latch _ _).2.read _
  rw [Joypad.read_latch_joypad, Joypad.registerByte_registerByte]

/-- The machine after a tick, with the buttons shown. -/
def shown (input : JoypadInput) (m : Machine ρ) : Machine ρ :=
  ({ m with core := m.core.tick.state } : Machine ρ).latch input

/-- Nothing is left to show after a tick that changes nothing, if the buttons are shown before it.
-/
theorem shown_of_latched (hstate : m.core.tick.state = m.core) (hlatched : m.latch input = m) :
    m.shown input = m := by
  unfold shown
  rw [hstate]
  exact hlatched

variable [LineRenderer ρ]

/-! ## The fields after an iteration -/

theorem drawFinished_eq (finished : Option Byte) (m : Machine ρ) :
    ∃ renderer frame,
      m.drawFinished finished = { m with renderer := renderer, frame := frame } := by
  unfold drawFinished
  split
  · exact ⟨m.renderer, m.frame, rfl⟩
  · split
    · exact ⟨_, _, rfl⟩
    · exact ⟨m.renderer, m.frame, rfl⟩

theorem iterate_of_error {fault : Fault} (h : m.core.tick.result = .error fault) :
    m.iterate input = ⟨.error fault, { m with core := m.core.tick.state }, m.core.tick.events⟩ := by
  have ht : m.tick.result = .error fault := h
  rw [iterate, Outcome.andThen_of_error ht]
  rfl

theorem iterate_of_ok (h : m.core.tick.result = .ok cycles) :
    m.iterate input =
      ⟨.ok cycles, ((m.shown input).advanceDisplay cycles).1,
        m.core.tick.events ++ ((m.shown input).advanceDisplay cycles).2⟩ := by
  have ht : m.tick.result = .ok cycles := h
  rw [iterate, Outcome.andThen_of_ok ht]
  rfl

theorem state_iterate_of_ok (input : JoypadInput) (h : m.core.tick.result = .ok cycles) :
    ∃ renderer frame, (m.iterate input).state =
      { m with
        core := ⟨m.core.tick.state.cpu,
          (m.timer.advance (m.joypad.latch m.core.tick.state.bus input).2 cycles).memory⟩
        timer := (m.timer.advance (m.joypad.latch m.core.tick.state.bus input).2 cycles).timer
        joypad := ⟨input.mask⟩
        renderer := renderer
        frame := frame } := by
  rw [iterate_of_ok h]
  exact drawFinished_eq _ _

theorem tick_of_iterate (h : (m.iterate input).result = .ok cycles) :
    m.core.tick.result = .ok cycles := by
  cases ht : m.core.tick.result with
  | error fault => rw [iterate_of_error ht] at h; cases h
  | ok cycles' => rw [iterate_of_ok ht] at h; exact h

theorem cpu_iterate (m : Machine ρ) (input : JoypadInput) :
    (m.iterate input).state.cpu = m.core.tick.state.cpu := by
  cases ht : m.core.tick.result with
  | error fault => rw [iterate_of_error ht]; rfl
  | ok cycles =>
    obtain ⟨renderer, frame, hs⟩ := state_iterate_of_ok input ht
    rw [hs]
    rfl

theorem fault_iterate (m : Machine ρ) (input : JoypadInput) :
    (m.iterate input).state.fault = m.fault := by
  cases ht : m.core.tick.result with
  | error fault => rw [iterate_of_error ht]
  | ok cycles =>
    obtain ⟨renderer, frame, hs⟩ := state_iterate_of_ok input ht
    rw [hs]

/-! ## Cost and events -/

theorem cost_iterate_le (h : (m.iterate input).result = .ok cycles) : cycles ≤ 11 :=
  Core.cost_tick_le (tick_of_iterate h)

theorem policy_iterate (m : Machine ρ) (input : JoypadInput) :
    (m.iterate input).state.cpu.policy = m.cpu.policy := by
  rw [cpu_iterate]
  exact congrArg Prod.fst (Core.settings_tick m.core)

theorem allRoutine_advanceDisplay (m : Machine ρ) (cycles : Nat) :
    Event.AllRoutine (m.advanceDisplay cycles).2 := by
  show Event.AllRoutine (m.timer.advance m.core.bus cycles).events
  rcases m.timer.advance_cases m.core.bus cycles with ⟨-, h⟩ | ⟨-, -, h⟩ | ⟨-, -, events, he, h⟩
  · rw [h]; exact Event.allRoutine_empty
  · rw [h]; exact Event.allRoutine_empty
  · rw [h]
    rcases he with rfl | rfl
    · exact Event.allRoutine_empty
    · exact Event.allRoutine_singleton rfl

/-- An iteration reports its fault, if it faults, and routine before. -/
theorem accounted_iterate (m : Machine ρ) (input : JoypadInput) :
    (m.iterate input).Accounted m.cpu.policy := by
  have htick := Core.accounted_tick m.core
  cases ht : m.core.tick.result with
  | error fault =>
    rw [iterate_of_error ht]
    exact htick.of_error ht rfl rfl
  | ok cycles =>
    rw [iterate_of_ok ht]
    exact (htick.routine ht).append (allRoutine_advanceDisplay _ _)

/-! ## Memory -/

theorem not_isUpdated_of_readOnly {addr : Word} (h : Memory.ReadOnly addr) :
    ¬ Hardware.IsUpdated addr := by
  rintro (rfl | rfl | rfl | rfl) <;> revert h <;> unfold Memory.ReadOnly <;> decide

theorem read_iterate {addr : Word} (h : Memory.ReadOnly addr) :
    (m.iterate input).state.core.bus.read addr = m.core.bus.read addr := by
  have hu := not_isUpdated_of_readOnly h
  have ht : m.core.tick.state.bus.read addr = m.core.bus.read addr :=
    Memory.read_of_reaches h (Core.reaches_tick .refl)
  cases hr : m.core.tick.result with
  | error fault => rw [iterate_of_error hr]; exact ht
  | ok cycles =>
    obtain ⟨renderer, frame, hs⟩ := state_iterate_of_ok input hr
    rw [hs, ← ht]
    exact (m.timer.read_advance_of_not_updated hu _ _).trans
      (m.joypad.read_latch_of_not_updated hu _ _)

/-! ## The buttons after an iteration -/

/-- After an iteration the joypad register already shows the buttons. -/
theorem latch_iterate (h : (m.iterate input).result = .ok cycles) :
    (m.iterate input).state.latch input = (m.iterate input).state := by
  obtain ⟨renderer, frame, hs⟩ := state_iterate_of_ok input (tick_of_iterate h)
  rw [hs]
  apply latch_of_shown rfl
  show Joypad.registerByte ((m.timer.advance _ _).memory.read _) _ =
    (m.timer.advance _ _).memory.read _
  rw [ScanlineTimer.read_advance_of_ne _ _ _ (by decide) (by decide) (by decide),
    Joypad.read_latch_joypad, Joypad.registerByte_registerByte]

end GameBoy.Machine
