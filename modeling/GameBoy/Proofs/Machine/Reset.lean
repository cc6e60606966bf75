import GameBoy.Proofs.Machine.Operation

/-!
# Returning to power-on

A reset takes a machine back to power-on but for four things: the settings of the machine, its
renderer, the two settings of its processor, and the program that it remembers. No operation changes
the settings of the machine, and the program remembered is the one that the last successful load
brought (`origin_performAll`).

Main theorem: `Machine.reset_eq_rebuilt`. Whatever was done to a machine since it was built, a reset
makes it a machine that has just been built and has loaded that program.
-/

namespace GameBoy.Machine

variable {ρ : Type} {m : Machine ρ}

/-! ## A machine built anew -/

/-- A new machine with the settings and the renderer of another one, and the two settings of its
processor. -/
def rebuilt (m : Machine ρ) : Machine ρ :=
  (create m.config m.renderer).mapCpu fun cpu =>
    { cpu with policy := m.cpu.policy, tracing := m.cpu.tracing }

theorem reset_of_no_program (h : m.program = #[]) : m.reset = m.rebuilt := by
  unfold reset
  rw [h]
  rfl

/-- A reset maps the program as loading it into the new machine does. -/
theorem reset_of_program (h : m.program.isEmpty = false) :
    m.reset = (m.rebuilt.load m.program).state := by
  rw [load_of_nonempty h]
  unfold reset
  rw [h]
  rfl

theorem reset_reset (m : Machine ρ) : m.reset.reset = m.reset := rfl

/-! ## What a machine remembers -/

/-- The settings of a machine and the program that it remembers. -/
def origin (m : Machine ρ) : Config × Array Byte := (m.config, m.program)

/-- The program that an operation loads, if it is a load and succeeds. -/
def loaded? (m : Machine ρ) : Operation → Option (Array Byte)
  | .load image =>
    match (m.load image).result with
    | .ok _ => some image
    | .error _ => none
  | _ => none

theorem nonempty_of_loaded? {op : Operation} {image : Array Byte} (h : m.loaded? op = some image) :
    image.isEmpty = false := by
  cases op with
  | load other =>
    cases he : other.isEmpty with
    | true => simp [loaded?, load_of_empty he] at h
    | false =>
      obtain rfl : other = image := by simpa [loaded?, load_of_nonempty he] using h
      exact he
  | _ => cases h

variable [LineRenderer ρ]

/-- The program of the last load that succeeds, when some operations are performed in turn. -/
def lastLoaded? (m : Machine ρ) : List Operation → Option (Array Byte)
  | [] => none
  | op :: ops => ((m.perform op).lastLoaded? ops).or (m.loaded? op)

theorem nonempty_of_lastLoaded? {ops : List Operation} {image : Array Byte}
    (h : m.lastLoaded? ops = some image) : image.isEmpty = false := by
  induction ops generalizing m with
  | nil => cases h
  | cons op ops ih =>
    rcases Option.or_eq_some_iff.mp h with hlater | ⟨-, hnow⟩
    · exact ih hlater
    · exact nonempty_of_loaded? hnow

/-! ### What operations do to it -/

theorem origin_iterate (m : Machine ρ) (input : JoypadInput) :
    (m.iterate input).state.origin = m.origin := by
  cases ht : m.core.tick.result with
  | error fault => rw [iterate_of_error ht]; rfl
  | ok cycles =>
    obtain ⟨renderer, frame, hs⟩ := state_iterate_of_ok input ht
    rw [hs]
    rfl

/-- No step touches what the machine remembers, whether it faults or not. -/
theorem origin_step (hm : m.UnusableClear) (input : JoypadInput) (budget : UInt32) :
    (m.step input budget).state.origin = m.origin := by
  have hrun : (m.run input budget).state.origin = m.origin :=
    (loop_run hm input budget).invariant (P := fun n => n.origin = m.origin)
      (fun n hn => (origin_iterate n input).trans hn) rfl
  cases hf : m.fault with
  | some fault => rw [step_of_fault hf]
  | none =>
    cases hr : (m.run input budget).result with
    | error fault => rw [step_of_error hf hr]; exact hrun
    | ok retired => rw [step_of_ok hf hr]; exact hrun

/-- Only a load that succeeds changes what the machine remembers, and it changes the program. -/
theorem origin_perform (hm : m.UnusableClear) (op : Operation) :
    (m.perform op).origin = (m.config, (m.loaded? op).getD m.program) := by
  cases op with
  | load image =>
    unfold perform loaded? load
    dsimp only
    cases m.memory.load image m.config.window with
    | error fault => rfl
    | ok mapped => rfl
  | step input budget => exact origin_step hm input budget
  | stepFrame input => exact origin_step hm input _
  | map image window =>
    unfold perform
    dsimp only
    split <;> rfl
  | reset | write | write16 | setCpu => rfl

theorem origin_performAll (hm : m.UnusableClear) (ops : List Operation) :
    (m.performAll ops).origin = (m.config, (m.lastLoaded? ops).getD m.program) := by
  induction ops generalizing m with
  | nil => rfl
  | cons op ops ih =>
    obtain ⟨hconfig, hprogram⟩ := Prod.mk.inj (origin_perform hm op)
    show ((m.perform op).performAll ops).origin = _
    rw [ih (unusableClear_perform hm op), hconfig, hprogram, lastLoaded?]
    cases (m.perform op).lastLoaded? ops <;> rfl

/-! ## Resetting -/

/-- **Returning to power-on.** Take any machine and anything that was done to it since it was built.
A reset makes it the machine that is built with the same settings and the renderer it has now, is
given the two settings of its processor, and loads the program of the last load that succeeded. So
nothing that is done later tells the two apart. A reset of that machine changes nothing, and neither
does a load that fails, now or for a later reset. -/
theorem reset_eq_rebuilt (config : Config) (renderer : ρ) (ops : List Operation) :
    let start := create config renderer
    let m := start.performAll ops
    let blank := (create config m.renderer).mapCpu fun cpu =>
      { cpu with policy := m.cpu.policy, tracing := m.cpu.tracing }
    let new := (start.lastLoaded? ops).elim blank fun image => (blank.load image).state
    m.config = config ∧
      (∀ image, start.lastLoaded? ops = some image → (blank.load image).result = .ok ()) ∧
      m.reset = new ∧ m.reset.fault = none ∧ m.reset.reset = m.reset ∧
      (∀ later op, (m.reset.performAll later).operate op = (new.performAll later).operate op) ∧
      ∀ image fault, (m.load image).result = .error fault →
        (m.load image).state = m ∧ (m.load image).state.reset = new := by
  intro start m blank new
  have hm : m.Reachable := .performAll (.create config renderer) ops
  obtain ⟨hconfig, hprogram⟩ := Prod.mk.inj
    (origin_performAll (Reachable.create config renderer).unusableClear ops)
  replace hconfig : m.config = config := hconfig
  replace hprogram : m.program = (start.lastLoaded? ops).getD #[] := hprogram
  have hblank : m.rebuilt = blank := by unfold rebuilt; rw [hconfig]
  have hreset : m.reset = new := by
    show m.reset = (start.lastLoaded? ops).elim blank fun image => (blank.load image).state
    cases hlast : start.lastLoaded? ops with
    | none =>
      rw [hlast] at hprogram
      exact (reset_of_no_program hprogram).trans hblank
    | some image =>
      rw [hlast] at hprogram
      replace hprogram : m.program = image := hprogram
      rw [reset_of_program (hprogram ▸ nonempty_of_lastLoaded? hlast), hblank, hprogram]
      rfl
  refine ⟨hconfig, ?_, hreset, rfl, m.reset_reset, ?_, ?_⟩
  · intro image hlast
    rw [load_of_nonempty (nonempty_of_lastLoaded? hlast)]
  · intro later op
    rw [hreset]
  · intro image fault hfails
    cases he : image.isEmpty with
    | true =>
      rw [load_of_empty he]
      exact ⟨rfl, hreset⟩
    | false =>
      rw [load_of_nonempty he] at hfails
      cases hfails

/-- A machine that has loaded a program, was refused another one, and has faulted in its memory. -/
theorem reset_eq_rebuilt_after_fault :
    let start : Machine LineRecorder := create { cyclesPerFrame := 100 } {}
    let ops : List Operation :=
      [.load #[0x3C], .stepFrame (.ofList [.a]), .load #[], .write 0xC000 0xD3,
        .setCpu { registers := { pc := 0xC000 }, policy := .fault, tracing := true }, .step {} 1]
    let m := start.performAll ops
    let blank := (create { cyclesPerFrame := 100 } m.renderer).mapCpu fun cpu =>
      { cpu with policy := m.cpu.policy, tracing := m.cpu.tracing }
    start.lastLoaded? ops = some #[0x3C] ∧ (blank.load #[0x3C]).result = .ok () ∧
      m.reset = (blank.load #[0x3C]).state ∧
      (m.load #[]).result = .error .emptyProgram ∧ (m.load #[]).state = m := by
  intro start ops m blank
  have hlast : start.lastLoaded? ops = some #[0x3C] := by
    simp [ops, lastLoaded?, loaded?, load_of_empty, load_of_nonempty]
  have hrefused : (m.load #[]).result = .error .emptyProgram := rfl
  obtain ⟨-, hloads, hreset, -, -, -, hfails⟩ :=
    reset_eq_rebuilt { cyclesPerFrame := 100 } ({} : LineRecorder) ops
  refine ⟨hlast, hloads _ hlast, ?_, hrefused, (hfails _ _ hrefused).1⟩
  refine hreset.trans ?_
  rw [hlast]
  rfl

end GameBoy.Machine
