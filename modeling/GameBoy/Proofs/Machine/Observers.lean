import GameBoy.Proofs.Machine.Erasure
import GameBoy.Proofs.Machine.Operation

/-!
# Observers

The reports of instructions, the renderer, its colours and the frame that it draws show what a
machine does, and the machine never looks at them. `Machine.unobserved` is the machine with all of
them taken away, and every operation does to it what it does to the machine itself
(`Machine.operate_unobserved`).

Main theorem: `Machine.operate_of_sameButObservers`. Two machines that differ in their observers
only, their renderers even in type, go through the same operations with the same results, the same
events but for the reports, and the same state but for the observers.
-/

namespace GameBoy

/-- A renderer that draws nothing. -/
structure Blind where

instance : LineRenderer Blind where
  renderLine renderer _ _ frame := (renderer, frame)

/-- The settings without those of the observers. -/
def Config.unobserved (config : Config) : Config :=
  { config with tracing := false, palette := .gray }

namespace Machine

variable {ρ σ : Type}

/-! ## Machines without observers -/

/-- The machine that reports no instruction and draws nothing. -/
def unobserved (m : Machine ρ) : Machine Blind where
  core := m.core.muted
  timer := m.timer
  joypad := m.joypad
  frame := .blank
  renderer := {}
  config := m.config.unobserved
  program := m.program
  fault := m.fault

/-- Two machines that differ in their observers only: in whether they report instructions, and in
their renderers, colours and frames. -/
structure SameButObservers (m : Machine ρ) (n : Machine σ) : Prop where
  cpu : { m.cpu with tracing := false } = { n.cpu with tracing := false }
  memory : m.memory = n.memory
  timer : m.timer = n.timer
  joypad : m.joypad = n.joypad
  program : m.program = n.program
  fault : m.fault = n.fault
  config : m.config.unobserved = n.config.unobserved

theorem sameButObservers_iff {m : Machine ρ} {n : Machine σ} :
    SameButObservers m n ↔ m.unobserved = n.unobserved := by
  constructor
  · rintro ⟨hcpu, hmemory, htimer, hjoypad, hprogram, hfault, hconfig⟩
    have hcore : m.core.muted = n.core.muted := by
      unfold Core.muted
      exact congr (congrArg Core.mk hcpu) hmemory
    unfold unobserved
    rw [hcore, htimer, hjoypad, hprogram, hfault, hconfig]
  · intro h
    exact ⟨congrArg Machine.cpu h, congrArg Machine.memory h, congrArg Machine.timer h,
      congrArg Machine.joypad h, congrArg Machine.program h, congrArg Machine.fault h,
      congrArg Machine.config h⟩

/-! ## Loading -/

theorem notable_loadEvents (image : Array Byte) (copied window : Nat) :
    Event.notable (loadEvents image copied window) = loadEvents image copied window := by
  unfold loadEvents
  split
  · rfl
  · simp only [Event.notable_append]
    congr 1
    · congr 1
      split <;> rfl
    · split <;> rfl

theorem load_unobserved (image : Array Byte) (m : Machine ρ) :
    m.unobserved.load image = (m.load image).erase unobserved := by
  have hload : m.unobserved.memory.load image m.unobserved.config.window =
      m.memory.load image m.config.window := rfl
  unfold load
  rw [hload]
  cases m.memory.load image m.config.window with
  | error fault => rfl
  | ok mapped =>
    unfold Outcome.erase
    dsimp only
    rw [notable_loadEvents]
    rfl

/-! ## Running -/

theorem tick_unobserved (m : Machine ρ) : m.unobserved.tick = m.tick.erase unobserved := by
  have hcore : m.unobserved.core.tick = m.core.tick.erase Core.muted := Core.tick_muted m.core
  unfold tick
  dsimp only
  rw [hcore]
  rfl

variable [LineRenderer ρ] [LineRenderer σ]

theorem drawFinished_unobserved (finished : Option Byte) (m : Machine ρ) :
    m.unobserved.drawFinished finished = (m.drawFinished finished).unobserved := by
  cases finished with
  | none => rfl
  | some line =>
    unfold drawFinished
    dsimp only
    split <;> rfl

theorem advanceDisplay_unobserved (cycles : Nat) (m : Machine ρ) :
    m.unobserved.advanceDisplay cycles =
      ((m.advanceDisplay cycles).1.unobserved, Event.notable (m.advanceDisplay cycles).2) := by
  have hevents := notable_advance m.timer m.core.bus cycles
  unfold advanceDisplay
  dsimp only
  rw [← drawFinished_unobserved, hevents]
  rfl

/-- All observers may be forgotten. -/
def unobserving : Erasure ρ Blind where
  forget := unobserved
  tick := tick_unobserved
  latch _ _ := rfl
  advanceDisplay := advanceDisplay_unobserved
  pc _ := rfl
  fault _ := rfl
  stop _ _ := rfl

theorem step_unobserved (input : JoypadInput) (budget : UInt32) (m : Machine ρ) :
    m.unobserved.step input budget = (m.step input budget).erase unobserved :=
  unobserving.step input budget m

/-! ## Operations -/

/-- What an operation is to a machine without observers. -/
def Operation.unobserved : Operation → Operation
  | .setCpu cpu => .setCpu { cpu with tracing := false }
  | op => op

/-- An operation does to the machine without observers what it does to the machine. -/
theorem operate_unobserved (m : Machine ρ) (op : Operation) :
    m.unobserved.operate op.unobserved = (m.operate op).erase unobserved := by
  cases op with
  | load image => exact congrArg (Outcome.map fun _ => none) (load_unobserved image m)
  | step input budget => exact congrArg (Outcome.map some) (step_unobserved input budget m)
  | stepFrame input => exact congrArg (Outcome.map some) (step_unobserved input _ m)
  | map image window =>
    have hload : m.unobserved.memory.load image window = m.memory.load image window := rfl
    simp only [Operation.unobserved, operate]
    rw [hload]
    cases m.memory.load image window <;> rfl
  | reset | write | write16 | setCpu => rfl

/-- An operation gives two machines that differ in their observers only the same, and they still
differ in them only. -/
theorem erase_operate {m : Machine ρ} {n : Machine σ} (h : SameButObservers m n) (op : Operation) :
    (m.operate op).erase unobserved = (n.operate op).erase unobserved := by
  rw [← operate_unobserved, ← operate_unobserved, sameButObservers_iff.mp h]

theorem SameButObservers.perform {m : Machine ρ} {n : Machine σ} (h : SameButObservers m n)
    (op : Operation) : SameButObservers (m.perform op) (n.perform op) := by
  rw [← state_operate, ← state_operate]
  exact sameButObservers_iff.mpr (congrArg Outcome.state (erase_operate h op))

theorem SameButObservers.performAll {m : Machine ρ} {n : Machine σ} (h : SameButObservers m n)
    (ops : List Operation) : SameButObservers (m.performAll ops) (n.performAll ops) := by
  induction ops generalizing m n with
  | nil => exact h
  | cons op ops ih => exact ih (h.perform op)

/-- **Observers do not matter.** Take two machines that differ in their observers only, and do the
same to both. Whatever is done next gives both the same result and the same events but for the
reports of instructions, and leaves them different in their observers only. -/
theorem operate_of_sameButObservers {m : Machine ρ} {n : Machine σ} (h : SameButObservers m n)
    (ops : List Operation) (op : Operation) :
    let a := (m.performAll ops).operate op
    let b := (n.performAll ops).operate op
    a.result = b.result ∧ Event.notable a.events = Event.notable b.events ∧
      SameButObservers a.state b.state := by
  intro a b
  have herase : a.erase unobserved = b.erase unobserved := erase_operate (h.performAll ops) op
  exact ⟨congrArg Outcome.result herase, congrArg Outcome.events herase,
    sameButObservers_iff.mpr (congrArg Outcome.state herase)⟩

/-- A machine that draws in gray, and one that reports every instruction and records its lines. -/
theorem operate_of_sameButObservers_reporting :
    let m := withBackground {}
    let n := create { tracing := true, palette := .replicate 4 .black } ({} : LineRecorder)
    let ops : List Operation := [.load #[0x3C], .step (.ofList [.a]) 1, .write 0xC000 0xD3, .reset]
    let a := (m.performAll ops).operate (.stepFrame {})
    let b := (n.performAll ops).operate (.stepFrame {})
    SameButObservers m n ∧ m.cpu.tracing = false ∧ n.cpu.tracing = true ∧
      a.result = b.result ∧ Event.notable a.events = Event.notable b.events ∧
      SameButObservers a.state b.state := by
  intro m n ops a b
  have h : SameButObservers m n := ⟨rfl, rfl, rfl, rfl, rfl, rfl, rfl⟩
  exact ⟨h, rfl, rfl, operate_of_sameButObservers h ops (.stepFrame {})⟩

end Machine

end GameBoy
