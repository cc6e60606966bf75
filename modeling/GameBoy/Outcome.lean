import GameBoy.Event
import GameBoy.Fault

/-!
# Outcomes

What running a part of the machine gives: a result or a fault, the state reached, and the events on
the way. The state is there in both cases, because a fault does not undo what happened before it.

`Outcome.andThen` runs a second part on the state of the first. It stops at a fault, and joins the
events in order.
-/

namespace GameBoy

/-- A result or a fault, the state in which it left the machine, and the events. -/
structure Outcome (σ : Type) (α : Type) where
  result : Except Fault α
  state : σ
  events : Array Event := #[]

namespace Outcome

variable {σ α β : Type}

def ok (value : α) (state : σ) : Outcome σ α := ⟨.ok value, state, #[]⟩

/-- Run a second part after a first one that ended without a fault. -/
def andThen (first : Outcome σ α) (second : α → σ → Outcome σ β) : Outcome σ β :=
  match first with
  | ⟨.error fault, state, events⟩ => ⟨.error fault, state, events⟩
  | ⟨.ok value, state, events⟩ =>
    match second value state with
    | ⟨result, state', events'⟩ => ⟨result, state', events ++ events'⟩

theorem andThen_of_ok {first : Outcome σ α} {value : α} (h : first.result = .ok value)
    (second : α → σ → Outcome σ β) :
    first.andThen second =
      ⟨(second value first.state).result, (second value first.state).state,
        first.events ++ (second value first.state).events⟩ := by
  obtain ⟨result, state, events⟩ := first
  cases h
  rfl

theorem andThen_of_error {first : Outcome σ α} {fault : Fault} (h : first.result = .error fault)
    (second : α → σ → Outcome σ β) :
    first.andThen second = ⟨.error fault, first.state, first.events⟩ := by
  obtain ⟨result, state, events⟩ := first
  cases h
  rfl

/-- Two parts that end without a fault, taken apart. -/
theorem andThen_eq_ok {first : Outcome σ α} {second : α → σ → Outcome σ β} {value : β}
    (h : (first.andThen second).result = .ok value) :
    ∃ v, first.result = .ok v ∧ (second v first.state).result = .ok value ∧
      (first.andThen second).state = (second v first.state).state := by
  cases hf : first.result with
  | error fault => rw [andThen_of_error hf] at h; cases h
  | ok v =>
    rw [andThen_of_ok hf] at h ⊢
    exact ⟨v, rfl, h, rfl⟩

/-- A second part that only changes the result leaves the state. -/
theorem state_andThen_ok (o : Outcome σ α) (f : α → β) :
    (o.andThen fun value state => .ok (f value) state).state = o.state := by
  cases h : o.result with
  | ok value => rw [andThen_of_ok h]; rfl
  | error fault => rw [andThen_of_error h]

/-- What holds of the state after the first part, and of that after the second, holds at the end. -/
theorem state_andThen {P : σ → Prop} {first : Outcome σ α} {second : α → σ → Outcome σ β}
    (h₁ : P first.state)
    (h₂ : ∀ value, first.result = .ok value → P (second value first.state).state) :
    P (first.andThen second).state := by
  cases h : first.result with
  | ok value => rw [andThen_of_ok h]; exact h₂ value h
  | error fault => rw [andThen_of_error h]; exact h₁

/-- Change the result of a part that ends without a fault. -/
def map (f : α → β) (o : Outcome σ α) : Outcome σ β := ⟨o.result.map f, o.state, o.events⟩

/-- Change the state that was reached, whether by a result or by a fault. -/
def mapState {τ : Type} (f : σ → τ) (o : Outcome σ α) : Outcome τ α :=
  ⟨o.result, f o.state, o.events⟩

end Outcome

end GameBoy
