import GameBoy.Cpu.Step
import GameBoy.Machine.Basic

/-!
# Running the machine

A run has a budget of machine cycles. It repeats one iteration (`Machine.iterate`) until the cycles
retired reach the budget: serve an interrupt, run an instruction, show the buttons in the joypad
register, and move the display on by the cycles both took, drawing a line if a visible one ended.
The last iteration may exceed the budget.

An iteration may cost nothing, when it passes over a hole of the opcode map. A run that meets
`Machine.idleLimit` such iterations in a row ends early, which makes a run total: each iteration
either retires cycles or comes closer to that limit.

A fault ends the run at once, and the machine keeps it (`Machine.step`): from then on every run ends
with that fault and does nothing, until a reset.
-/

namespace GameBoy.Machine

variable {ρ : Type} [LineRenderer ρ]

/-- Show the buttons in the joypad register. -/
def latch (input : JoypadInput) (m : Machine ρ) : Machine ρ :=
  let (joypad, memory) := m.joypad.latch m.core.bus input
  { m with core := { m.core with bus := memory }, joypad := joypad }

/-- Draw a line that ended, if it is a visible one. -/
def drawFinished (finished : Option Byte) (m : Machine ρ) : Machine ρ :=
  match finished with
  | none => m
  | some line =>
    if line.toNat < Lcd.vblankLine then
      let (renderer, frame) := LineRenderer.renderLine m.renderer m.core.bus line m.frame
      { m with renderer := renderer, frame := frame }
    else m

/-- Move the display on by some cycles, and draw the line that ended. -/
def advanceDisplay (cycles : Nat) (m : Machine ρ) : Machine ρ × Array Event :=
  let advance := m.timer.advance m.core.bus cycles
  let m : Machine ρ :=
    { m with core := { m.core with bus := advance.memory }, timer := advance.timer }
  (m.drawFinished advance.finished, advance.events)

/-- Let the processor serve an interrupt and run an instruction. -/
def tick (m : Machine ρ) : Outcome (Machine ρ) Nat :=
  let outcome := m.core.tick
  ⟨outcome.result, { m with core := outcome.state }, outcome.events⟩

/-- One iteration of a run. The result is the number of cycles it retired. -/
def iterate (input : JoypadInput) (m : Machine ρ) : Outcome (Machine ρ) Nat :=
  m.tick.andThen fun cycles m =>
    let (m, events) := (m.latch input).advanceDisplay cycles
    ⟨.ok cycles, m, events⟩

/-! ## Runs -/

/-- The number of iterations without a cost after which a run ends early. -/
def idleLimit : Nat := 0x10000

def maxRetired : Nat := 0xFFFFFFFF

structure Progress (ρ : Type) where
  machine : Machine ρ
  retired : Nat := 0
  /-- The iterations without a cost since the last one with a cost. -/
  idle : Nat := 0
  events : Array Event := #[]

/-- Continue a run until its budget is spent, a fault stops it, or it stalls. -/
def continueRun (input : JoypadInput) (budget : UInt32) (p : Progress ρ) :
    Outcome (Machine ρ) Nat :=
  match p with
  | ⟨m, retired, idle, events⟩ =>
    if _ : retired < budget.toNat then
      match m.iterate input with
      | ⟨.error fault, m, more⟩ => ⟨.error fault, m, events ++ more⟩
      | ⟨.ok 0, m, more⟩ =>
        if _ : idle + 1 < idleLimit then
          continueRun input budget ⟨m, retired, idle + 1, events ++ more⟩
        else
          ⟨.ok retired, m, (events ++ more).push (.stalled (idle + 1) m.cpu.registers.pc)⟩
      | ⟨.ok (cycles + 1), m, more⟩ =>
        continueRun input budget ⟨m, min (retired + (cycles + 1)) maxRetired, 0, events ++ more⟩
    else ⟨.ok retired, m, events⟩
termination_by (budget.toNat - p.retired, idleLimit - p.idle)
decreasing_by
  · exact Prod.Lex.right _ (by omega)
  · apply Prod.Lex.left
    have := budget.toNat_lt
    simp only [maxRetired]
    omega

/-- Show the buttons and run for a budget of machine cycles. The result is the number of cycles
retired. -/
def run (input : JoypadInput) (budget : UInt32) (m : Machine ρ) : Outcome (Machine ρ) Nat :=
  continueRun input budget { machine := m.latch input }

/-- Run for a budget of machine cycles, unless a fault stopped the machine before. A fault of this
run is kept. -/
def step (input : JoypadInput) (budget : UInt32) (m : Machine ρ) : Outcome (Machine ρ) Nat :=
  match m.fault with
  | some fault => ⟨.error fault, m, #[]⟩
  | none =>
    match m.run input budget with
    | ⟨.error fault, m, events⟩ => ⟨.error fault, { m with fault := some fault }, events⟩
    | outcome => outcome

def stepFrame (input : JoypadInput) (m : Machine ρ) : Outcome (Machine ρ) Nat :=
  m.step input m.config.cyclesPerFrame

end GameBoy.Machine
