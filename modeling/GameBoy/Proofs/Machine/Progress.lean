import GameBoy.Proofs.Machine.Operation

/-!
# Progress of a step

A step of a machine without a fault ends with its budget spent or with a fault, whatever bytes the
program consists of: the early end of a run that makes no progress is there to make a run total, and
no machine that can be reached takes it. The budget is exceeded by ten cycles at most, since the
costliest iteration, a dispatch and a call, takes eleven.

Main theorem: `Machine.step_progress`.
-/

namespace GameBoy.Machine

variable {ρ : Type} [LineRenderer ρ] {m : Machine ρ} {input : JoypadInput}
  {o : Outcome (Machine ρ) Nat}

theorem Loop.retired_of_no_budget (h : Loop input 0 0 m o) {r : Nat} (ho : o.result = .ok r) :
    r = 0 := by
  cases h with
  | spent => exact (Except.ok.inj ho).symm
  | fault h => exact absurd h (Nat.lt_irrefl 0)
  | more h => exact absurd h (Nat.lt_irrefl 0)

theorem result_step (hf : m.fault = none) (input : JoypadInput) (budget : UInt32) :
    (m.step input budget).result = (m.run input budget).result := by
  cases hr : (m.run input budget).result with
  | error fault => rw [step_of_error hf hr]
  | ok retired => rw [step_of_ok hf hr, hr]

theorem events_step (hf : m.fault = none) (input : JoypadInput) (budget : UInt32) :
    (m.step input budget).events = (m.run input budget).events := by
  cases hr : (m.run input budget).result with
  | error fault => rw [step_of_error hf hr]
  | ok retired => rw [step_of_ok hf hr]

/-- **Progress.** The run of a step is an execution of the loop without the limit, and no step
reports that it stalled. If it ends without a fault, it has spent its budget, and ten more cycles at
most. -/
theorem step_progress (hm : m.Reachable) (hf : m.fault = none) (input : JoypadInput)
    (budget : UInt32) :
    Loop input budget.toNat 0 (m.latch input) (m.run input budget) ∧
      (∀ steps pc, Event.stalled steps pc ∉ (m.step input budget).events) ∧
      ((∃ fault, (m.step input budget).result = .error fault) ∨
        ∃ r, (m.step input budget).result = .ok r ∧ budget.toNat ≤ r ∧ r ≤ 0xFFFFFFFF ∧
          (0 < budget → r ≤ budget.toNat + 10) ∧ (budget = 0 → r = 0)) := by
  have hloop := loop_run hm.unusableClear input budget
  refine ⟨hloop, fun steps pc => ?_, ?_⟩
  · rw [events_step hf]
    exact hloop.stalled_notMem steps pc
  · rw [result_step hf]
    cases hr : (m.run input budget).result with
    | error fault => exact .inl ⟨fault, rfl⟩
    | ok r =>
      obtain ⟨hle, hmax, hover⟩ := hloop.retired_bounds (Nat.zero_le _) hr
      refine .inr ⟨r, rfl, hle, hmax, fun hpos => ?_, ?_⟩
      · -- a positive budget is not spent at the start
        have := UInt32.lt_iff_toNat_lt.mp hpos
        rw [UInt32.toNat_zero] at this
        omega
      · rintro rfl
        exact hloop.retired_of_no_budget hr

/-- A step of a machine whose next byte stands for no instruction. -/
theorem step_progress_at_hole :
    let m := ((withBackground {}).perform (.write 0xC000 0xD3)).perform
      (.setCpu { registers := { pc := 0xC000 } })
    m.Reachable ∧ m.fault = none ∧
      Loop {} 1 0 (m.latch {}) (m.run {} 1) ∧
      (∀ steps pc, Event.stalled steps pc ∉ (m.step {} 1).events) ∧
      ((∃ fault, (m.step {} 1).result = .error fault) ∨
        ∃ r, (m.step {} 1).result = .ok r ∧ 1 ≤ r ∧ r ≤ 0xFFFFFFFF ∧ r ≤ 1 + 10) := by
  intro m
  have hm : m.Reachable := .perform _ (.perform _ (.create _ _))
  obtain ⟨hloop, hstalled, hresult⟩ := step_progress hm rfl {} 1
  refine ⟨hm, rfl, hloop, hstalled, hresult.imp_right ?_⟩
  rintro ⟨r, hr, hle, hmax, hover, -⟩
  exact ⟨r, hr, hle, hmax, hover (by decide)⟩

end GameBoy.Machine
