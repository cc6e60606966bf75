import GameBoy.Proofs.Machine.Progress

/-!
# Splitting a budget

Two steps in a row, with the same buttons, do what one step does with the budget that the first
retired and the second was given (`Machine.step_split`): the same machine, the same events, and the
same cycles or the same fault.

A run is an execution of the loop, so the theorem is about executions. The second one starts at zero
cycles, and is moved up by those of the first (`Loop.shift`); then the two are joined
(`Loop.append`), and an execution is the only one from its start (`Loop.deterministic`). That the
second step shows the buttons again has no effect, because the last iteration of the first left them
in the joypad register (`Loop.latch_state`).
-/

namespace GameBoy.Machine

variable {ρ : Type} [LineRenderer ρ] {m : Machine ρ} {input : JoypadInput}
  {budget budget' retired r : Nat} {o o' : Outcome (Machine ρ) Nat}

/-! ## Executions as arguments -/

namespace Loop

theorem latch_state (h : Loop input budget retired m o) (hm : m.latch input = m)
    (ho : o.result = .ok r) : o.state.latch input = o.state := by
  induction h with
  | spent => exact hm
  | fault => cases ho
  | more _ hi _ ih => exact ih (latch_iterate hi) ho

/-- There is one execution from each start. -/
theorem deterministic (h : Loop input budget retired m o) (h' : Loop input budget retired m o') :
    o = o' := by
  induction h generalizing o' with
  | spent hle =>
    cases h' with
    | spent => rfl
    | fault hlt => omega
    | more hlt => omega
  | fault hlt hi =>
    cases h' with
    | spent hle => omega
    | fault _ hi' =>
      rw [hi] at hi'
      cases hi'
      rfl
    | more _ hi' => rw [hi] at hi'; cases hi'
  | more hlt hi _ ih =>
    cases h' with
    | spent hle => omega
    | fault _ hi' => rw [hi] at hi'; cases hi'
    | more _ hi' rest' =>
      rw [hi] at hi'
      cases hi'
      rw [ih rest']

/-- An execution can be moved up by some cycles, as long as the count stays exact. -/
theorem shift (h : Loop input budget retired m o) (k : Nat)
    (hk : k + budget + 10 ≤ maxRetired) :
    Loop input (k + budget) (k + retired) m ⟨o.result.map (k + ·), o.state, o.events⟩ := by
  induction h with
  | spent hle => exact .spent (by omega)
  | fault hlt hi => exact .fault (by omega) hi
  | @more retired cycles m o hlt hi _ ih =>
    have hc := cost_iterate_le hi
    rw [Nat.min_eq_left (by omega)] at ih
    refine Loop.more (o := ⟨o.result.map (k + ·), o.state, o.events⟩) (by omega) hi ?_
    rw [Nat.min_eq_left (by omega), Nat.add_assoc]
    exact ih

/-- Go on from the end of an execution, with a larger budget. -/
theorem append (h : Loop input budget retired m o) (ho : o.result = .ok r)
    (hb : budget ≤ budget') (h' : Loop input budget' r o.state o') :
    Loop input budget' retired m ⟨o'.result, o'.state, o.events ++ o'.events⟩ := by
  induction h with
  | spent =>
    obtain rfl := Except.ok.inj ho
    rw [show (Outcome.ok _ _ : Outcome (Machine ρ) Nat).events = #[] from rfl, Array.empty_append]
    exact h'
  | fault => cases ho
  | more hlt hi _ ih =>
    rw [Array.append_assoc]
    exact .more (by omega) hi (ih ho h')

end Loop

/-! ## Steps in a row -/

/-- Two runs are one run with the budget that the first retired and the second was given. -/
theorem run_split (hm : m.UnusableClear) {input : JoypadInput} {b₁ b₂ : UInt32}
    (h₁ : (m.run input b₁).result = .ok r) (hb : r + b₂.toNat + 10 ≤ maxRetired) :
    m.run input (UInt32.ofNat (r + b₂.toNat)) =
      ⟨((m.run input b₁).state.run input b₂).result.map (r + ·),
        ((m.run input b₁).state.run input b₂).state,
        (m.run input b₁).events ++ ((m.run input b₁).state.run input b₂).events⟩ := by
  have hfirst := loop_run hm input b₁
  have hsecond := loop_run (unusableClear_run hm input b₁) input b₂
  rw [hfirst.latch_state (latch_latch m input) h₁] at hsecond
  have hspent := (hfirst.retired_bounds (Nat.zero_le _) h₁).1
  have hboth := hfirst.append h₁ (by omega) (hsecond.shift r hb)
  have hone := loop_run hm input (UInt32.ofNat (r + b₂.toNat))
  have hsum : (UInt32.ofNat (r + b₂.toNat)).toNat = r + b₂.toNat := by
    unfold maxRetired at hb
    exact UInt32.toNat_ofNat_of_lt' (show r + b₂.toNat < UInt32.size by unfold UInt32.size; omega)
  rw [hsum] at hone
  exact hone.deterministic hboth

theorem run_of_step_ok {budget : UInt32} (h : (m.step input budget).result = .ok r) :
    m.fault = none ∧ m.step input budget = m.run input budget := by
  cases hf : m.fault with
  | some fault =>
    rw [step_of_fault hf] at h
    cases h
  | none =>
    rw [result_step hf] at h
    exact ⟨rfl, step_of_ok hf h⟩

theorem step_of_run {n : Machine ρ} {budget budget' : UInt32} {k : Nat} {events : Array Event}
    (hm : m.fault = none) (hn : n.fault = none)
    (h : m.run input budget = ⟨(n.run input budget').result.map (k + ·),
      (n.run input budget').state, events ++ (n.run input budget').events⟩) :
    m.step input budget = ⟨(n.step input budget').result.map (k + ·),
      (n.step input budget').state, events ++ (n.step input budget').events⟩ := by
  cases hr : (n.run input budget').result with
  | error fault =>
    rw [hr] at h
    rw [step_of_error hn hr, step_of_error hm (by rw [h]; rfl), h]
    rfl
  | ok cycles =>
    rw [step_of_ok hn hr, step_of_ok hm (by rw [h, hr]; rfl), h]

/-- **Splitting a budget.** A second step with the same buttons leads to the machine, and with the
first one to the events, of a single step that is given its budget and what the first retired. It
ends as the single step does: with the remaining cycles, or with the same fault. The renderer is a
part of the machine, so it is handed the same lines in the same order. -/
theorem step_split (hm : m.Reachable) {input : JoypadInput} {b₁ b₂ : UInt32} {r₁ : Nat}
    (h₁ : (m.step input b₁).result = .ok r₁) (hb : r₁ + b₂.toNat + 10 ≤ 0xFFFFFFFF) :
    let first := m.step input b₁
    let second := first.state.step input b₂
    let once := m.step input (UInt32.ofNat (r₁ + b₂.toNat))
    second.state = once.state ∧ first.events ++ second.events = once.events ∧
      (∀ r₂, second.result = .ok r₂ ↔ once.result = .ok (r₁ + r₂)) ∧
      (∀ fault, second.result = .error fault ↔ once.result = .error fault) := by
  intro first second once
  obtain ⟨hf, hrun⟩ := run_of_step_ok h₁
  have hf' : first.state.fault = none := by
    show (m.step input b₁).state.fault = none
    rw [hrun]
    exact (loop_run hm.unusableClear input b₁).fault_state.trans hf
  have honce : once =
      ⟨second.result.map (r₁ + ·), second.state, first.events ++ second.events⟩ := by
    refine step_of_run hf hf' ?_
    show m.run input _ = ⟨((m.step input b₁).state.run input b₂).result.map _,
      ((m.step input b₁).state.run input b₂).state,
      (m.step input b₁).events ++ ((m.step input b₁).state.run input b₂).events⟩
    rw [hrun] at h₁ ⊢
    exact run_split hm.unusableClear h₁ hb
  rw [honce]
  refine ⟨rfl, rfl, fun r₂ => ?_, fun fault => ?_⟩
  · cases second.result <;> simp [Except.map]
  · cases second.result <;> simp [Except.map]

theorem result_run_of_nop (hm : m.UnusableClear)
    (ht : (m.latch input).core.tick.result = .ok 1) : (m.run input 1).result = .ok 1 := by
  have hi : ((m.latch input).iterate input).result = .ok 1 := by rw [iterate_of_ok ht]
  have key : Loop input 1 0 (m.latch input) _ := .more (by omega) hi (.spent (by decide))
  rw [(loop_run hm input 1).deterministic key]
  rfl

/-- The first frame after power-on, split behind its first cycle, with a renderer that keeps what it
is handed. -/
theorem step_split_powerOn :
    let m : Machine LineRecorder := create {} {}
    let first := m.step {} 1
    let second := first.state.step {} 17555
    let once := m.step {} 17556
    m.Reachable ∧ first.result = .ok 1 ∧
      second.state = once.state ∧ first.events ++ second.events = once.events ∧
      (∀ r, second.result = .ok r ↔ once.result = .ok (1 + r)) ∧
      (∀ fault, second.result = .error fault ↔ once.result = .error fault) := by
  intro m first second once
  have hm : m.Reachable := .create _ _
  have hop : (m.latch {}).core.bus.read 0x0100 = 0 := by
    refine (Joypad.read_latch_of_ne _ _ _ (by decide) (by decide)).trans ?_
    exact Memory.read_powerOn_of_lt (by decide)
  have h₁ : first.result = .ok 1 := by
    show (m.step {} 1).result = _
    rw [result_step rfl]
    exact result_run_of_nop hm.unusableClear (Core.tick_of_nop rfl rfl rfl hop)
  exact ⟨hm, h₁, step_split hm h₁ (show 1 + (17555 : UInt32).toNat + 10 ≤ _ by decide)⟩

end GameBoy.Machine
