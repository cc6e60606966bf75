import GameBoy.Proofs.Machine.Turns

/-!
# Paths through a run

The turns of a run follow each other: each of them starts from the machine that the one before it
leaves, and all but the last one end without a fault. A `Machine.Path` is such a row of turns. What
is to be said about the machines on the way, or about the machine at the end, given the turns
before, is shown along a path by one induction (`Path.history`).

The turns before any turn of a run are a path (`Machine.path_of_turnsFrom`), and so are all of them
if the run ends without a fault (`Loop.path`).
-/

namespace GameBoy.Machine

variable {ρ : Type} [LineRenderer ρ] {m m' : Machine ρ} {input : JoypadInput} {budget : UInt32}
  {retired idle : Nat} {turn : Turn ρ} {turns before after : List (Turn ρ)}
  {o : Outcome (Machine ρ) Nat}

/-- Iterations that end without a fault, from one machine to another. -/
inductive Path (input : JoypadInput) : Machine ρ → List (Turn ρ) → Machine ρ → Prop
  | nil (m : Machine ρ) : Path input m [] m
  | cons {m m' : Machine ρ} {turns : List (Turn ρ)} {cycles : Nat}
      (h : (m.iterate input).result = .ok cycles)
      (rest : Path input (m.iterate input).state turns m') :
      Path input m (⟨m, input⟩ :: turns) m'

namespace Path

/-- What each iteration keeps, given the turns so far, a path keeps. -/
theorem history (h : Path input m turns m') (P : List (Turn ρ) → Machine ρ → Prop)
    (hP : ∀ past m cycles, (m.iterate input).result = .ok cycles → P past m →
      P (past ++ [⟨m, input⟩]) (m.iterate input).state)
    (past : List (Turn ρ)) (hm : P past m) : P (past ++ turns) m' := by
  induction h generalizing past with
  | nil => rwa [List.append_nil]
  | cons hi _ ih =>
    rw [List.append_cons]
    exact ih _ (hP _ _ _ hi hm)

theorem invariant {P : Machine ρ → Prop}
    (hP : ∀ m cycles, (m.iterate input).result = .ok cycles → P m → P (m.iterate input).state)
    (h : Path input m turns m') (hm : P m) : P m' := by
  induction h with
  | nil => exact hm
  | cons hi _ ih => exact ih (hP _ _ hi hm)

theorem result_of_mem (h : Path input m turns m') (hturn : turn ∈ turns) :
    ∃ cycles, (turn.machine.iterate input).result = .ok cycles := by
  induction h with
  | nil => cases hturn
  | cons hi _ ih =>
    rcases List.mem_cons.mp hturn with rfl | hrest
    · exact ⟨_, hi⟩
    · exact ih hrest

theorem suffix {n : Machine ρ} (h : Path input m (before ++ after) m')
    (hbefore : Path input m before n) : Path input n after m' := by
  induction before generalizing m with
  | nil =>
    cases hbefore
    exact h
  | cons turn before ih =>
    cases h with
    | cons hi rest =>
      cases hbefore with
      | cons _ hrest => exact ih rest hrest

end Path

/-- The turns of a loop: none, one more of this machine, or one that ends without a fault and those
of the machine that it leaves. -/
theorem turnsFrom_cases (input : JoypadInput) (budget : UInt32) (retired idle : Nat)
    (m : Machine ρ) :
    turnsFrom input budget retired idle m = [] ∨
      turnsFrom input budget retired idle m = [⟨m, input⟩] ∨
      ∃ cycles retired' idle', (m.iterate input).result = .ok cycles ∧
        turnsFrom input budget retired idle m =
          ⟨m, input⟩ :: turnsFrom input budget retired' idle' (m.iterate input).state := by
  rw [turnsFrom]
  split
  · split
    · exact .inr (.inl rfl)
    · split
      · exact .inr (.inr ⟨_, _, _, ‹_›, rfl⟩)
      · exact .inr (.inl rfl)
    · exact .inr (.inr ⟨_, _, _, ‹_›, rfl⟩)
  · exact .inl rfl

/-- A path leads to the machine of each turn. -/
theorem path_of_turnsFrom (h : turnsFrom input budget retired idle m = before ++ turn :: after) :
    turn.input = input ∧ Path input m before turn.machine := by
  induction before generalizing m retired idle with
  | nil =>
    rcases turnsFrom_cases input budget retired idle m with hnil | hone | ⟨_, _, _, -, hmore⟩
    · rw [hnil] at h
      cases h
    · rw [hone] at h
      cases h
      exact ⟨rfl, .nil m⟩
    · rw [hmore] at h
      cases h
      exact ⟨rfl, .nil m⟩
  | cons first before ih =>
    rcases turnsFrom_cases input budget retired idle m with hnil | hone | ⟨_, _, _, hi, hmore⟩
    · rw [hnil] at h
      cases h
    · rw [hone] at h
      simp at h
    · rw [hmore] at h
      obtain ⟨rfl, hrest⟩ := List.cons.inj h
      obtain ⟨hinput, hpath⟩ := ih hrest
      exact ⟨hinput, .cons hi hpath⟩

/-- What each iteration keeps holds before every one of them. -/
theorem forall_turnsFrom {P : Machine ρ → Prop} (hP : ∀ m, P m → P (m.iterate input).state)
    (hm : P m) : ∀ turn ∈ turnsFrom input budget retired idle m,
      turn.input = input ∧ P turn.machine := by
  intro turn hturn
  obtain ⟨before, after, h⟩ := List.append_of_mem hturn
  obtain ⟨hinput, hpath⟩ := path_of_turnsFrom h
  exact ⟨hinput, hpath.invariant (fun n _ _ => hP n) hm⟩

/-- An execution of the loop is a path, up to a turn that faults if the execution does. -/
theorem Loop.path (h : Loop input budget.toNat retired m o) (hr : retired ≤ maxRetired)
    (hm : m.UnusableClear) (hidle : WithinLimit idle m) :
    (∃ r, o.result = .ok r ∧ Path input m (turnsFrom input budget retired idle m) o.state) ∨
      ∃ fault before last, o.result = .error fault ∧
        turnsFrom input budget retired idle m = before ++ [⟨last, input⟩] ∧
        Path input m before last ∧ (last.iterate input).result = .error fault ∧
        o.state = (last.iterate input).state := by
  induction h generalizing idle with
  | spent h =>
    rw [turnsFrom_of_spent h]
    exact .inl ⟨_, rfl, .nil _⟩
  | @fault retired m fault h hi =>
    exact .inr ⟨fault, [], m, rfl, turnsFrom_of_error h hi, .nil m, hi, rfl⟩
  | @more retired cycles m o hlt hi _ ih =>
    obtain ⟨idle', hidle', heq⟩ := turnsFrom_of_ok hm hidle hr hlt hi
    rw [heq]
    rcases ih (Nat.min_le_right _ _) (unusableClear_iterate hm input) hidle' with
      ⟨r, ho, hpath⟩ | ⟨fault, before, last, ho, hturns, hpath, hlast, hstate⟩
    · exact .inl ⟨r, ho, .cons hi hpath⟩
    · exact .inr ⟨fault, ⟨m, input⟩ :: before, last, ho, by rw [hturns]; rfl, .cons hi hpath, hlast,
        hstate⟩

end GameBoy.Machine
