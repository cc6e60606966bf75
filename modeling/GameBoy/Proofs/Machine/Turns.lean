import GameBoy.Proofs.Core.Simulation
import GameBoy.Proofs.Machine.Invariant

/-!
# The turns of a run

A machine is stepped again and again, each time with buttons and a budget (`Machine.steps`). All
these steps consist of iterations, and `Machine.turns` lists them in order: a `Turn` is the machine
before an iteration, and the buttons. So what happens during some steps can be said of the list,
such as which bytes the processor stored (`Turn.accesses`).
-/

namespace GameBoy

/-- One iteration of a run: the machine before it, and the buttons. -/
structure Turn (ρ : Type) where
  machine : Machine ρ
  input : JoypadInput

/-- One step: the buttons, and the budget of machine cycles. -/
structure Call where
  input : JoypadInput
  budget : UInt32

namespace Machine

variable {ρ : Type} [LineRenderer ρ] {m : Machine ρ} {input : JoypadInput} {budget : UInt32}
  {retired idle cycles : Nat}

/-! ## Steps in a row -/

/-- Some steps in a row, up to the first fault. The result is the number of cycles that they
retired together. -/
def steps (m : Machine ρ) : List Call → Outcome (Machine ρ) Nat
  | [] => .ok 0 m
  | call :: calls =>
    (m.step call.input call.budget).andThen fun retired m =>
      (m.steps calls).andThen fun more m => .ok (retired + more) m

/-- The iterations of a run from its loop on. -/
def turnsFrom (input : JoypadInput) (budget : UInt32) (retired idle : Nat) (m : Machine ρ) :
    List (Turn ρ) :=
  if _ : retired < budget.toNat then
    ⟨m, input⟩ ::
      match (m.iterate input).result with
      | .error _ => []
      | .ok 0 =>
        if _ : idle + 1 < idleLimit then
          turnsFrom input budget retired (idle + 1) (m.iterate input).state
        else []
      | .ok (cycles + 1) =>
        turnsFrom input budget (min (retired + (cycles + 1)) maxRetired) 0 (m.iterate input).state
  else []
termination_by (budget.toNat - retired, idleLimit - idle)
decreasing_by
  · exact Prod.Lex.right _ (by omega)
  · apply Prod.Lex.left
    have := budget.toNat_lt
    simp only [maxRetired]
    omega

/-- The iterations of some steps in a row, up to the first fault. -/
def turns (m : Machine ρ) : List Call → List (Turn ρ)
  | [] => []
  | call :: calls =>
    turnsFrom call.input call.budget 0 0 (m.latch call.input) ++
      match (m.step call.input call.budget).result with
      | .ok _ => (m.step call.input call.budget).state.turns calls
      | .error _ => []

theorem steps_cons_of_ok {call : Call} {calls : List Call} {total : Nat}
    (h : (m.steps (call :: calls)).result = .ok total) :
    ∃ retired more, (m.step call.input call.budget).result = .ok retired ∧
      ((m.step call.input call.budget).state.steps calls).result = .ok more ∧
      total = retired + more ∧
      (m.steps (call :: calls)).state = ((m.step call.input call.budget).state.steps calls).state ∧
      m.turns (call :: calls) =
        turnsFrom call.input call.budget 0 0 (m.latch call.input) ++
          (m.step call.input call.budget).state.turns calls := by
  obtain ⟨retired, hstep, hrest, hstate⟩ := Outcome.andThen_eq_ok h
  obtain ⟨more, hsteps, hsum, hstate'⟩ := Outcome.andThen_eq_ok hrest
  refine ⟨retired, more, hstep, hsteps, (Except.ok.inj hsum).symm, hstate.trans hstate', ?_⟩
  rw [turns, hstep]

theorem Reachable.steps (hm : m.Reachable) (calls : List Call) :
    (m.steps calls).state.Reachable := by
  induction calls generalizing m with
  | nil => exact hm
  | cons call calls ih =>
    have hstep : (m.step call.input call.budget).state.Reachable := hm.perform (.step _ _)
    refine Outcome.state_andThen (P := Reachable) hstep fun retired _ => ?_
    rw [Outcome.state_andThen_ok]
    exact ih hstep

/-! ## From turn to turn -/

theorem turnsFrom_of_spent (h : budget.toNat ≤ retired) :
    turnsFrom input budget retired idle m = [] := by
  rw [turnsFrom, dif_neg (Nat.not_lt.mpr h)]

theorem turnsFrom_of_lt (h : retired < budget.toNat) :
    ∃ turns, turnsFrom input budget retired idle m = ⟨m, input⟩ :: turns := by
  rw [turnsFrom, dif_pos h]
  exact ⟨_, rfl⟩

theorem turnsFrom_of_error {fault : Fault} (h : retired < budget.toNat)
    (hi : (m.iterate input).result = .error fault) :
    turnsFrom input budget retired idle m = [⟨m, input⟩] := by
  rw [turnsFrom, dif_pos h, hi]

/-- An iteration that ends without a fault is followed by those of the machine that it leaves,
because the limit plays no part. -/
theorem turnsFrom_of_ok (hm : m.UnusableClear) (hidle : WithinLimit idle m)
    (hr : retired ≤ maxRetired) (h : retired < budget.toNat)
    (hi : (m.iterate input).result = .ok cycles) :
    ∃ idle', WithinLimit idle' (m.iterate input).state ∧
      turnsFrom input budget retired idle m =
        ⟨m, input⟩ :: turnsFrom input budget (min (retired + cycles) maxRetired) idle'
          (m.iterate input).state := by
  rw [turnsFrom, dif_pos h, hi]
  cases cycles with
  | zero =>
    obtain ⟨hahead, hle⟩ := holesAhead_iterate hm hi
    unfold WithinLimit at hidle
    have hlimit : idle + 1 < idleLimit := by
      unfold idleLimit
      omega
    refine ⟨idle + 1, .inr (by omega), ?_⟩
    dsimp only
    rw [dif_pos hlimit]
    show _ = _ :: turnsFrom input budget (min retired maxRetired) (idle + 1) _
    rw [Nat.min_eq_left hr]
  | succ cycles => exact ⟨0, .inl rfl, rfl⟩

end Machine

/-! ## The processor in a turn -/

namespace Turn

variable {ρ : Type} [LineRenderer ρ]

/-- The machine after the iteration. -/
def next (turn : Turn ρ) : Machine ρ := (turn.machine.iterate turn.input).state

/-- What the processor reads and stores, the oldest first. -/
def accesses (turn : Turn ρ) : Array Access := turn.machine.core.tickAccesses

end Turn

end GameBoy
