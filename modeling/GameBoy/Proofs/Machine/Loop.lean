import GameBoy.Proofs.Machine.Iteration

/-!
# Runs without the limit

A run gives up after `Machine.idleLimit` iterations in a row that cost nothing. `Machine.Loop` is
the run without that limit: a finite execution of the loop that ends because the budget is spent or
because an iteration faults.

**The limit plays no part** (`loop_continueRun`). Passing over a hole moves the program counter on
by one byte, and the unusable block, whose bytes are zero in every machine that runs, holds no hole.
So the distance from the program counter to that block (`Machine.holesAhead`) bounds the number of
iterations without a cost, and the bound is below the limit.
-/

namespace GameBoy.Machine

variable {ρ : Type} {m : Machine ρ} {input : JoypadInput} {budget retired : Nat}
  {o : Outcome (Machine ρ) Nat}

/-! ## The unusable block -/

/-- The first address of the unusable block. -/
def unusableStart : Word := 0xFEA0

/-- The unusable block is zero, as it is after power-on. -/
def UnusableClear (m : Machine ρ) : Prop :=
  ∀ addr, Region.of addr = .unusable → m.core.bus.read addr = 0

/-- The distance from the program counter up to the unusable block, and one more while the halt bug
holds the counter. -/
def holesAhead (m : Machine ρ) : Nat :=
  (unusableStart - m.cpu.registers.pc).toNat + if m.cpu.haltBug then 1 else 0

theorem decode_zero : Instruction.decode 0 = .nop := by decide

theorem distance_succ {pc : Word} (h : Region.of pc ≠ .unusable) :
    (unusableStart - (pc + 1)).toNat + 1 = (unusableStart - pc).toNat ∧
      (unusableStart - pc).toNat ≤ 65441 := by
  rw [ne_eq, Region.of_eq_unusable_iff] at h
  have := pc.toNat_lt
  simp only [unusableStart, UInt16.toNat_sub, UInt16.toNat_add, UInt16.reduceToNat]
  omega

theorem unusableClear_latch (hm : m.UnusableClear) (input : JoypadInput) :
    (m.latch input).UnusableClear := by
  intro addr h
  have hu := not_isUpdated_of_readOnly (.inr h)
  refine Eq.trans ?_ (hm addr h)
  exact m.joypad.read_latch_of_not_updated hu _ _

/-! ## Executions of the loop -/

theorem toNat_le_maxRetired (budget : UInt32) : budget.toNat ≤ maxRetired := by
  have := budget.toNat_lt
  unfold maxRetired
  omega

variable [LineRenderer ρ]

theorem unusableClear_iterate (hm : m.UnusableClear) (input : JoypadInput) :
    (m.iterate input).state.UnusableClear := fun addr h =>
  (read_iterate (.inr h)).trans (hm addr h)

/-- An execution of the loop of a run, from a machine and the cycles retired so far, that ends with
the budget spent or with a fault. -/
inductive Loop (input : JoypadInput) (budget : Nat) :
    Nat → Machine ρ → Outcome (Machine ρ) Nat → Prop
  | spent {retired : Nat} {m : Machine ρ} (h : budget ≤ retired) :
      Loop input budget retired m (.ok retired m)
  | fault {retired : Nat} {m : Machine ρ} {fault : Fault} (h : retired < budget)
      (hi : (m.iterate input).result = .error fault) :
      Loop input budget retired m ⟨.error fault, (m.iterate input).state, (m.iterate input).events⟩
  | more {retired cycles : Nat} {m : Machine ρ} {o : Outcome (Machine ρ) Nat} (h : retired < budget)
      (hi : (m.iterate input).result = .ok cycles)
      (rest : Loop input budget (min (retired + cycles) maxRetired) (m.iterate input).state o) :
      Loop input budget retired m ⟨o.result, o.state, (m.iterate input).events ++ o.events⟩

namespace Loop

/-- What an execution retires: at least the budget, and less than an iteration more. -/
theorem retired_bounds (h : Loop input budget retired m o) (hr : retired ≤ maxRetired)
    {r : Nat} (ho : o.result = .ok r) :
    budget ≤ r ∧ r ≤ maxRetired ∧ (r = retired ∨ r ≤ budget + 10) := by
  induction h with
  | spent h =>
    obtain rfl := Except.ok.inj ho
    exact ⟨h, hr, .inl rfl⟩
  | fault => cases ho
  | more h hi _ ih =>
    have hc := cost_iterate_le hi
    have key := ih (by omega) ho
    omega

theorem accounted (h : Loop input budget retired m o) : o.Accounted m.cpu.policy := by
  induction h with
  | spent => exact Event.allRoutine_empty
  | fault _ hi => exact (accounted_iterate _ input).of_error hi rfl rfl
  | more _ hi _ ih =>
    rw [policy_iterate] at ih
    exact ih.after ((accounted_iterate _ input).routine hi)

theorem stalled_notMem (h : Loop input budget retired m o) (steps : Nat) (pc : Word) :
    Event.stalled steps pc ∉ o.events := h.accounted.stalled_notMem steps pc

/-- What each iteration keeps, an execution keeps. -/
theorem invariant {P : Machine ρ → Prop} (hP : ∀ m, P m → P (m.iterate input).state)
    (h : Loop input budget retired m o) (hm : P m) : P o.state := by
  induction h with
  | spent => exact hm
  | fault => exact hP _ hm
  | more _ _ _ ih => exact ih (hP _ hm)

/-- An execution does not fault if no iteration does. -/
theorem result_of_invariant {P : Machine ρ → Prop}
    (hok : ∀ m, P m → ∃ cycles, (m.iterate input).result = .ok cycles)
    (hP : ∀ m, P m → P (m.iterate input).state) (h : Loop input budget retired m o) (hm : P m) :
    ∃ r, o.result = .ok r := by
  induction h with
  | spent => exact ⟨_, rfl⟩
  | fault _ hi =>
    obtain ⟨cycles, hc⟩ := hok _ hm
    rw [hi] at hc
    cases hc
  | more _ _ _ ih => exact ih (hP _ hm)

theorem unusableClear (h : Loop input budget retired m o) (hm : m.UnusableClear) :
    o.state.UnusableClear :=
  h.invariant (fun _ hn => unusableClear_iterate hn input) hm

theorem fault_state (h : Loop input budget retired m o) : o.state.fault = m.fault :=
  h.invariant (P := fun n => n.fault = m.fault) (fun n hn => (fault_iterate n input).trans hn) rfl

end Loop

/-! ## How many holes can follow each other -/

/-- An iteration without a cost comes one byte closer to the unusable block. -/
theorem holesAhead_iterate (hm : m.UnusableClear) (h : (m.iterate input).result = .ok 0) :
    (m.iterate input).state.holesAhead + 1 = m.holesAhead ∧ m.holesAhead ≤ 65442 := by
  have ht := tick_of_iterate h
  obtain ⟨⟨opcode, hd⟩, -, hbug, hpc⟩ := Core.tick_of_free ht
  -- the unusable block holds no hole, because its bytes stand for the idle instruction
  have hnot : Region.of m.core.cpu.registers.pc ≠ .unusable := by
    intro hr
    rw [hm _ hr, decode_zero] at hd
    cases hd
  obtain ⟨hsucc, hle⟩ := distance_succ hnot
  unfold holesAhead
  rw [cpu_iterate, hbug, hpc, show m.cpu = m.core.cpu from rfl]
  cases hb : m.core.cpu.haltBug with
  | true =>
    rw [if_pos rfl, if_pos rfl, if_neg Bool.false_ne_true]
    omega
  | false =>
    rw [if_neg Bool.false_ne_true, if_neg Bool.false_ne_true]
    omega

/-! ## The limit plays no part -/

/-- The iterations without a cost so far, and those that can follow. -/
def WithinLimit (idle : Nat) (m : Machine ρ) : Prop := idle = 0 ∨ idle + m.holesAhead ≤ 65442

/-- A run within the limit is an execution of the loop without it. -/
theorem loop_continueRun (input : JoypadInput) (budget : UInt32) (p : Progress ρ)
    (hr : p.retired ≤ maxRetired) (hm : p.machine.UnusableClear)
    (hp : WithinLimit p.idle p.machine) :
    ∃ o, Loop input budget.toNat p.retired p.machine o ∧
      continueRun input budget p = ⟨o.result, o.state, p.events ++ o.events⟩ := by
  fun_induction continueRun input budget p with
  | case1 m retired idle events h fault m' more hi =>
    refine ⟨_, .fault h (by rw [hi]), ?_⟩
    rw [hi]
  | case2 m retired idle events h m' more hi hlimit ih =>
    -- the program counter has come one byte closer to the unusable block
    replace hr : retired ≤ maxRetired := hr
    replace hp : WithinLimit idle m := hp
    have hresult : (m.iterate input).result = .ok 0 := by rw [hi]
    obtain ⟨hahead, hle⟩ := holesAhead_iterate (m := m) hm hresult
    have hclear := unusableClear_iterate (m := m) hm input
    have hnext : WithinLimit (idle + 1) (m.iterate input).state := by
      unfold WithinLimit at hp ⊢
      omega
    rw [hi] at hclear hnext
    obtain ⟨o, ho, heq⟩ := ih hr hclear hnext
    refine ⟨⟨o.result, o.state, more ++ o.events⟩, ?_, ?_⟩
    · have key := Loop.more (o := o) h hresult
      rw [hi, Nat.add_zero, Nat.min_eq_left hr] at key
      exact key ho
    · rw [heq, Array.append_assoc]
  | case3 m retired idle events h m' more hi hlimit =>
    replace hp : WithinLimit idle m := hp
    have hresult : (m.iterate input).result = .ok 0 := by rw [hi]
    have hahead := holesAhead_iterate (m := m) hm hresult
    unfold WithinLimit at hp
    unfold idleLimit at hlimit
    omega
  | case4 m retired idle events h cycles m' more hi ih =>
    have hresult : (m.iterate input).result = .ok (cycles + 1) := by rw [hi]
    have hclear := unusableClear_iterate (m := m) hm input
    rw [hi] at hclear
    obtain ⟨o, ho, heq⟩ := ih (Nat.min_le_right _ _) hclear (.inl rfl)
    refine ⟨⟨o.result, o.state, more ++ o.events⟩, ?_, ?_⟩
    · have key := Loop.more (o := o) h hresult
      rw [hi] at key
      exact key ho
    · rw [heq, Array.append_assoc]
  | case5 m retired idle events h =>
    exact ⟨_, .spent (Nat.le_of_not_lt h), by simp [Outcome.ok]⟩

/-! ## Runs -/

/-- A run is an execution of the loop without the limit. -/
theorem loop_run (hm : m.UnusableClear) (input : JoypadInput) (budget : UInt32) :
    Loop input budget.toNat 0 (m.latch input) (m.run input budget) := by
  obtain ⟨o, ho, heq⟩ := loop_continueRun input budget { machine := m.latch input }
    (Nat.zero_le _) (unusableClear_latch hm input) (.inl rfl)
  rw [run, heq, Array.empty_append]
  exact ho

theorem step_of_fault {fault : Fault} (hf : m.fault = some fault) (input : JoypadInput)
    (budget : UInt32) : m.step input budget = ⟨.error fault, m, #[]⟩ := by
  unfold step
  rw [hf]

theorem step_of_ok (hf : m.fault = none) {budget : UInt32} {r : Nat}
    (h : (m.run input budget).result = .ok r) : m.step input budget = m.run input budget := by
  unfold step
  rw [hf]
  dsimp only
  split
  · rename_i heq
    rw [heq] at h
    cases h
  · rfl

/-- A step whose run faults keeps the fault in the machine. -/
theorem step_of_error (hf : m.fault = none) {budget : UInt32} {fault : Fault}
    (h : (m.run input budget).result = .error fault) :
    m.step input budget =
      ⟨.error fault, { (m.run input budget).state with fault := some fault },
        (m.run input budget).events⟩ := by
  unfold step
  rw [hf]
  generalize m.run input budget = o at h ⊢
  obtain ⟨result, state, events⟩ := o
  cases h
  rfl

end GameBoy.Machine
