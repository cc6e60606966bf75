import GameBoy.Proofs.Core.FlagNibble
import Mathlib.Data.Bool.Basic

/-!
# Low power is exclusive

A processor is halted, or stopped, or under the halt bug, or none of these, and never two at once;
and an `EI` that has yet to take effect is in one of its two stages (`Cpu.Exclusive`). Only `HALT`
and `STOP` set one of the first three flags. A processor that executes them is neither halted nor
stopped, and fetching them has ended the halt bug, so each of them sets its flag among cleared ones
(`Core.count_restFlags_executeCurrent`). Serving interrupts only clears flags. The stages are kept
apart at the end of an instruction, whatever they were before
(`Cpu.exclusive_advanceEnable`), and an instruction that faults has not touched them.

Main theorem: `Core.lowPower_actAll`.
-/

namespace GameBoy

namespace Cpu

/-- The two low-power states and the halt bug. -/
def restFlags (cpu : Cpu) : List Bool := [cpu.halted, cpu.stopped, cpu.haltBug]

/-- At most one of the three flags is set, and at most one stage of a scheduled enable. -/
structure Exclusive (cpu : Cpu) : Prop where
  rest : cpu.restFlags.count true ≤ 1
  stages : ¬(cpu.enablePending = true ∧ cpu.enableDelay = true)

variable {cpu cpu' : Cpu}

theorem restFlags_eq_clear_iff : cpu.restFlags = [false, false, false] ↔
    cpu.halted = false ∧ cpu.stopped = false ∧ cpu.haltBug = false := by
  simp [restFlags]

theorem restFlags_of_control (h : cpu.control = cpu'.control) : cpu.restFlags = cpu'.restFlags := by
  show cpu.control.restFlags = cpu'.control.restFlags
  rw [h]

theorem restFlags_advanceEnable (cpu : Cpu) : cpu.advanceEnable.restFlags = cpu.restFlags := by
  unfold advanceEnable
  split
  · rfl
  · split <;> rfl

theorem count_restFlags_le (hhalted : cpu'.halted ≤ cpu.halted)
    (hstopped : cpu'.stopped ≤ cpu.stopped) (hbug : cpu'.haltBug ≤ cpu.haltBug) :
    cpu'.restFlags.count true ≤ cpu.restFlags.count true := by
  suffices h : ∀ a b c a' b' c' : Bool, a' ≤ a → b' ≤ b → c' ≤ c →
      [a', b', c'].count true ≤ [a, b, c].count true from h _ _ _ _ _ _ hhalted hstopped hbug
  decide

theorem Exclusive.not_halted_and_stopped (h : cpu.Exclusive) :
    ¬(cpu.halted = true ∧ cpu.stopped = true) := by
  rintro ⟨hhalted, hstopped⟩
  have hrest := h.rest
  rw [restFlags, hhalted, hstopped] at hrest
  simp at hrest

theorem Exclusive.of_cleared (h : cpu.Exclusive) (hhalted : cpu'.halted ≤ cpu.halted)
    (hstopped : cpu'.stopped ≤ cpu.stopped) (hbug : cpu'.haltBug ≤ cpu.haltBug)
    (hpending : cpu'.enablePending = cpu.enablePending)
    (hdelay : cpu'.enableDelay = cpu.enableDelay) : cpu'.Exclusive where
  rest := Nat.le_trans (count_restFlags_le hhalted hstopped hbug) h.rest
  stages := by
    rw [hpending, hdelay]
    exact h.stages

theorem Exclusive.of_control (h : cpu.Exclusive) (hcontrol : cpu'.control = cpu.control) :
    cpu'.Exclusive where
  rest := by
    rw [restFlags_of_control hcontrol]
    exact h.rest
  stages := by
    show ¬(cpu'.control.enablePending = true ∧ cpu'.control.enableDelay = true)
    rw [hcontrol]
    exact h.stages

/-- A stage that moves on leaves its place. -/
theorem exclusive_advanceEnable (h : cpu.restFlags.count true ≤ 1) :
    cpu.advanceEnable.Exclusive where
  rest := by
    rw [restFlags_advanceEnable]
    exact h
  stages := by
    unfold advanceEnable
    split
    case isTrue => simp
    case isFalse hdelay =>
      split
      case isTrue => simp
      case isFalse => simp [hdelay]

theorem exclusive_powerOn (policy : HolePolicy) (tracing : Bool) :
    ({ powerOn with policy := policy, tracing := tracing } : Cpu).Exclusive where
  rest := (by decide : [false, false, false].count true ≤ 1)
  stages := (by decide : ¬(false = true ∧ false = true))

end Cpu

namespace Core

variable {β : Type} [Bus β] {s : Core β}

/-! ## Instructions -/

/-- On cleared flags, `HALT` sets that of the halt or that of the halt bug. -/
theorem count_restFlags_halt (h : s.cpu.restFlags = [false, false, false]) :
    s.halt.cpu.restFlags.count true ≤ 1 := by
  obtain ⟨hhalted, hstopped, hbug⟩ := Cpu.restFlags_eq_clear_iff.mp h
  unfold halt
  dsimp only
  split
  · show [s.cpu.halted, s.cpu.stopped, true].count true ≤ 1
    simp [hhalted, hstopped]
  · show [true, s.cpu.stopped, s.cpu.haltBug].count true ≤ 1
    simp [hstopped, hbug]

/-- On cleared flags, an instruction sets one at most. -/
theorem count_restFlags_apply (h : s.cpu.restFlags = [false, false, false]) (i : Instruction)
    (operand : Operand) : (s.apply i operand).cpu.restFlags.count true ≤ 1 := by
  have hnone : s.cpu.restFlags.count true ≤ 1 := by simp [h]
  cases hi : i.isControl with
  | false =>
    rw [Cpu.restFlags_of_control (control_apply hi operand s)]
    exact hnone
  | true =>
    cases i with
    | halt => exact count_restFlags_halt h
    | stop =>
      obtain ⟨hhalted, -, hbug⟩ := Cpu.restFlags_eq_clear_iff.mp h
      show [s.cpu.halted, true, s.cpu.haltBug].count true ≤ 1
      simp [hhalted, hbug]
    | di | reti => exact hnone
    | ei =>
      unfold apply
      dsimp only
      split
      · exact hnone
      · exact hnone
    | _ => cases hi

theorem count_restFlags_executeCurrent (hhalted : s.cpu.halted = false)
    (hstopped : s.cpu.stopped = false) :
    s.executeCurrent.state.cpu.restFlags.count true ≤ 1 := by
  have hready : s.ready.cpu.restFlags = [false, false, false] :=
    Cpu.restFlags_eq_clear_iff.mpr ⟨hhalted, hstopped, rfl⟩
  rw [state_executeCurrent]
  by_cases hi : s.current = .prefixed
  · rw [hi]
    show (s.ready.applyExtended _).cpu.restFlags.count true ≤ 1
    rw [Cpu.restFlags_of_control (control_applyExtended _ _), hready]
    decide
  · rw [effect_of_ne hi]
    exact count_restFlags_apply hready _ _

theorem exclusive_runInstruction (h : s.cpu.Exclusive) (hhalted : s.cpu.halted = false)
    (hstopped : s.cpu.stopped = false) : s.runInstruction.state.cpu.Exclusive := by
  cases hr : s.executeCurrent.result with
  | ok cycles =>
    rw [runInstruction_of_ok hr]
    exact Cpu.exclusive_advanceEnable (count_restFlags_executeCurrent hhalted hstopped)
  | error fault =>
    obtain ⟨opcode, hhole⟩ := hole_of_error hr
    have hfetched : ({ s.cpu with haltBug := false } : Cpu).Exclusive :=
      h.of_cleared le_rfl le_rfl (Bool.false_le _) rfl rfl
    rw [runInstruction_of_error hr]
    exact hfetched.of_control (control_executeCurrent (by rw [hhole]; rfl))

/-! ## Moves and resets -/

theorem cpu_step_of_asleep (h : s.awake? = none)
    (hone : ¬(s.cpu.halted = true ∧ s.cpu.stopped = true)) : s.step.state.cpu = s.cpu := by
  cases hstopped : s.cpu.stopped with
  | false =>
    have hhalted : s.cpu.halted = true := by simpa [awake?, hstopped] using h
    rw [step_of_not_stopped hstopped, stepAwake_of_halted hhalted]
    rfl
  | true =>
    have hhalted : s.cpu.halted = false := by simpa [hstopped] using hone
    have hbutton : s.noButton = true := by simpa [awake?, hstopped, hhalted] using h
    rw [step_of_noButton hstopped hbutton]
    rfl

theorem exclusive_step (h : s.cpu.Exclusive) : s.step.state.cpu.Exclusive := by
  cases ha : s.awake? with
  | none =>
    rw [cpu_step_of_asleep ha h.not_halted_and_stopped]
    exact h
  | some s' =>
    obtain ⟨hhalted, hcpu, -⟩ := of_awake ha
    obtain ⟨_, -, hstep⟩ := step_of_awake ha
    have h' : s'.cpu.Exclusive := by
      rw [hcpu]
      exact h.of_cleared le_rfl (Bool.false_le _) le_rfl rfl rfl
    rw [hstep]
    exact exclusive_runInstruction h' (by rw [hcpu]; exact hhalted) (by rw [hcpu])

theorem exclusive_attentive (h : s.cpu.Exclusive) : s.attentive.cpu.Exclusive :=
  h.of_cleared (Bool.and_le_left _ _) le_rfl le_rfl rfl rfl

theorem exclusive_serviceInterrupts (h : s.cpu.Exclusive) :
    s.serviceInterrupts.state.cpu.Exclusive := by
  have hattentive := exclusive_attentive h
  rcases serviceInterrupts_cases s with ⟨s', hs', ho⟩ | ⟨-, ⟨source, ho⟩ | ho⟩
  · rw [ho]
    rcases hs' with rfl | rfl
    · exact h
    · exact hattentive
  · rw [ho]
    exact hattentive.of_cleared le_rfl le_rfl (Bool.false_le _) rfl rfl
  · rw [ho]
    exact hattentive

theorem exclusive_act (s : Core β) (a : Action β) (h : s.cpu.Exclusive) :
    (s.act a).cpu.Exclusive := by
  cases a with
  | reset => exact Cpu.exclusive_powerOn _ _
  | move m =>
    cases m with
    | service => exact exclusive_serviceInterrupts h
    | step => exact exclusive_step h
    | change bus => exact h

/-- **Low power is exclusive.** From power-on, whatever the processor does and however its bus
changes meanwhile, at most one of the two low-power states and the halt bug is set, and an `EI` that
has yet to take effect is in one of its stages. -/
theorem lowPower_actAll (policy : HolePolicy) (tracing : Bool) (bus : β)
    (actions : List (Action β)) :
    let cpu := ((powerOn policy tracing bus).actAll actions).cpu
    [cpu.halted, cpu.stopped, cpu.haltBug].count true ≤ 1 ∧
      ¬(cpu.enablePending = true ∧ cpu.enableDelay = true) := by
  intro cpu
  have hstart : (powerOn policy tracing bus).cpu.Exclusive := Cpu.exclusive_powerOn policy tracing
  obtain ⟨hrest, hstages⟩ : cpu.Exclusive :=
    actAll_of_act (P := fun s => s.cpu.Exclusive) exclusive_act hstart actions
  exact ⟨hrest, hstages⟩

end Core

end GameBoy
