import GameBoy.Proofs.Joypad.Register
import GameBoy.Proofs.Machine.Courses

/-!
# A stopped machine

A stopped processor waits for a button of a selected group. As long as none is pressed, each
iteration of a run retires one cycle and changes nothing but what the display does in it: the
processor neither looks at interrupts nor runs an instruction, and the latch shows buttons that are
shown already.

So a whole step is one latch and then one cycle of the display for each cycle of the budget
(`Machine.loop_of_stopped`), and what these cycles do can be said of the display alone
(`Machine.displayed`).

Main theorem: `Machine.step_of_stopped`.
-/

namespace GameBoy

/-! ## A display and its renderer -/

namespace Display

/-- The lines that a renderer is asked for during some actions, with the memory it is given. -/
def draws (d : Display) : List Action → List (Memory × Byte)
  | [] => []
  | a :: as => ((visible (d.finished? a)).map ((d.act a).memory, ·)).toList ++ (d.act a).draws as

/-- They are the visible ones among the lines that end, in their order. -/
theorem lines_draws (d : Display) (as : List Action) :
    (d.draws as).map Prod.snd = (d.finished as).filter fun line => line.toNat < Lcd.vblankLine := by
  induction as generalizing d with
  | nil => rfl
  | cons a as ih =>
    rw [draws, finished, List.map_append, List.filter_append, ih, ← Option.toList_filter]
    refine congrArg (· ++ _) ?_
    show _ = (visible (d.finished? a)).toList
    cases visible (d.finished? a) <;> rfl

theorem read_run_advances (d : Display) (portions : List Nat) {addr : Word}
    (hl : addr ≠ Hardware.line) (hs : addr ≠ Hardware.lcdStatus)
    (hi : addr ≠ Hardware.interruptFlags) :
    (d.run (advances portions)).memory.read addr = d.memory.read addr := by
  induction portions generalizing d with
  | nil => rfl
  | cons cycles portions ih =>
    exact (ih (d.act (.advance cycles))).trans (d.timer.read_advance_of_ne _ _ hl hs hi)

end Display

namespace Machine

variable {ρ : Type} [LineRenderer ρ] {m : Machine ρ} {input : JoypadInput}

/-- The machine after some actions on its display, with each visible line drawn that ended. -/
def displayed (m : Machine ρ) (as : List Display.Action) : Machine ρ :=
  let d := m.display.run as
  let canvas := (m.display.draws as).foldl paint m.canvas
  { m with
    core := ⟨m.cpu, d.memory⟩
    timer := d.timer
    renderer := canvas.1
    frame := canvas.2 }

theorem advanceDisplay_eq (m : Machine ρ) (cycles : Nat) :
    (m.advanceDisplay cycles).1 = m.displayed [.advance cycles] := by
  let advance := m.timer.advance m.core.bus cycles
  let moved : Machine ρ :=
    { m with core := { m.core with bus := advance.memory }, timer := advance.timer }
  obtain ⟨renderer, frame, hdrawn⟩ := drawFinished_eq advance.finished moved
  have hcanvas := canvas_drawFinished moved advance.finished
  rw [hdrawn] at hcanvas
  show moved.drawFinished advance.finished = _
  unfold displayed
  simp only [Display.draws, List.append_nil]
  rw [hdrawn]
  exact congrArg (fun canvas : ρ × FrameBuffer =>
    ({ moved with renderer := canvas.1, frame := canvas.2 } : Machine ρ)) hcanvas

theorem displayed_cons (m : Machine ρ) (a : Display.Action) (as : List Display.Action) :
    m.displayed (a :: as) = (m.displayed [a]).displayed as := by
  unfold displayed
  simp only [Display.draws, List.append_nil, List.foldl_append]
  rfl

end Machine

/-! ## The processor -/

theorem Core.tick_of_stopped {s : Core Memory} (hstopped : s.cpu.stopped = true)
    (hnone : s.bus.read Hardware.joypad &&& 0x0F = 0x0F) :
    s.tick.result = .ok 1 ∧ s.tick.state = s := by
  have hstep : s.step = .ok 1 s := step_of_noButton hstopped (beq_iff_eq.mpr hnone)
  exact tick_of_idle (serviceInterrupts_of_stopped hstopped) hstep

/-! ## The run -/

namespace Machine

variable {ρ : Type} {m : Machine ρ} {input : JoypadInput}

/-- The processor is stopped, and the register shows the buttons of an input, none of them
selected. -/
structure Waits (m : Machine ρ) (input : JoypadInput) : Prop where
  stopped : m.cpu.stopped = true
  latched : m.latch input = m
  none : m.memory.read Hardware.joypad &&& 0x0F = 0x0F

/-- After the first latch of a step a stopped processor waits, if no button is pressed in a selected
group. -/
theorem waits_latch (hstopped : m.cpu.stopped = true)
    (hinput : ∀ button : Button,
      Byte.has (m.memory.read Hardware.joypad) button.selector = false →
        input.isPressed button = false) : (m.latch input).Waits input := by
  refine ⟨hstopped, latch_latch m input, ?_⟩
  show (m.joypad.latch m.memory input).2.read Hardware.joypad &&& 0x0F = 0x0F
  rw [Joypad.read_latch_joypad]
  exact (Joypad.shows_none_iff (Joypad.shows_registerByte rfl input)).mpr hinput

variable [LineRenderer ρ]

namespace Waits

theorem iterate (h : m.Waits input) :
    (m.iterate input).result = .ok 1 ∧
      (m.iterate input).state = m.displayed (Display.advances [1]) := by
  obtain ⟨hresult, hstate⟩ := Core.tick_of_stopped h.stopped h.none
  rw [iterate_of_ok hresult, shown_of_latched hstate h.latched]
  exact ⟨rfl, m.advanceDisplay_eq 1⟩

theorem next (h : m.Waits input) : (m.iterate input).state.Waits input := by
  obtain ⟨hresult, hstate⟩ := h.iterate
  refine ⟨?_, latch_iterate hresult, ?_⟩
  · rw [hstate]
    exact h.stopped
  · rw [hstate]
    refine (congrArg (· &&& 0x0F) ?_).trans h.none
    exact m.display.read_run_advances [1] (show Hardware.joypad ≠ Hardware.line by decide)
      (by decide) (by decide)

/-- The loop takes one cycle after another until the budget is spent. -/
theorem loop {budget retired : Nat} (h : m.Waits input) (cycles : Nat)
    (hbudget : retired + cycles = budget) (hmax : budget ≤ maxRetired) :
    ∃ events, Loop input budget retired m ⟨.ok budget,
      m.displayed (Display.advances (List.replicate cycles 1)), events⟩ := by
  induction cycles generalizing m retired with
  | zero =>
    obtain rfl : retired = budget := hbudget
    exact ⟨#[], .spent (Nat.le_refl _)⟩
  | succ cycles ih =>
    obtain ⟨hresult, hstate⟩ := h.iterate
    have hcount : min (retired + 1) maxRetired = retired + 1 := by omega
    obtain ⟨events, hrest⟩ := ih h.next (show retired + 1 + cycles = budget by omega)
    have hmoved : (m.iterate input).state.displayed
        (Display.advances (List.replicate cycles 1)) =
          m.displayed (Display.advances (List.replicate (cycles + 1) 1)) := by
      rw [hstate]
      exact (m.displayed_cons (.advance 1) _).symm
    rw [hmoved, ← hcount] at hrest
    exact ⟨_, .more (by omega) hresult hrest⟩

end Waits

/-- **A stopped machine.** Let the processor be stopped, and let no button be pressed in a group
that the joypad register selects. Then a step retires its budget exactly, whatever the interrupt
registers say, and leaves the processor as it is, and stopped. Everything else is as after one latch
and one advance of the display by a cycle for each cycle of the budget, where each visible line that
ends is drawn, in order. No byte of the memory changes but the four that the hardware updates. -/
theorem step_of_stopped (hm : m.Reachable) (hf : m.fault = none) (hstopped : m.cpu.stopped = true)
    (hinput : ∀ button : Button,
      Byte.has (m.memory.read Hardware.joypad) button.selector = false →
        input.isPressed button = false) (budget : UInt32) :
    let start := (m.latch input).display
    let cycles := Display.advances (List.replicate budget.toNat 1)
    let canvas := (start.draws cycles).foldl paint m.canvas
    let o := m.step input budget
    o.result = .ok budget.toNat ∧ o.state.cpu = m.cpu ∧ o.state.cpu.stopped = true ∧
      o.state =
        { m.latch input with
          core := ⟨m.cpu, (start.run cycles).memory⟩
          timer := (start.run cycles).timer
          renderer := canvas.1
          frame := canvas.2 } ∧
      (start.draws cycles).map Prod.snd =
        (start.finished cycles).filter (fun line => line.toNat < 144) ∧
      ∀ addr, ¬ Hardware.IsUpdated addr → o.state.memory.read addr = m.memory.read addr := by
  intro start cycles canvas o
  obtain ⟨events, hloop⟩ := (waits_latch hstopped hinput).loop budget.toNat (Nat.zero_add _)
    (toNat_le_maxRetired budget)
  have hrun := (loop_run hm.unusableClear input budget).deterministic hloop
  have ho : o = ⟨.ok budget.toNat, (m.latch input).displayed cycles, events⟩ := by
    show m.step input budget = _
    rw [step_of_ok hf (by rw [hrun]), hrun]
  rw [ho]
  refine ⟨rfl, rfl, hstopped, rfl, start.lines_draws cycles, fun addr haddr => ?_⟩
  simp only [Hardware.IsUpdated, not_or] at haddr
  obtain ⟨hjoypad, hflags, hline, hstatus⟩ := haddr
  exact (start.read_run_advances _ hline hstatus hflags).trans
    (m.joypad.read_latch_of_ne _ _ hjoypad hflags)

/-- A stopped processor with all interrupts requested and enabled, and with all directions pressed
while the program has selected the actions. -/
theorem step_of_stopped_deselected :
    let m : Machine LineRecorder := (create {} {}).performAll
      [.write Hardware.joypad 0x10, .write Hardware.interruptFlags 0x1F,
        .write Hardware.interruptEnable 0x1F,
        .setCpu { registers := { pc := 0xC000 }, ime := true, haltBug := true, stopped := true }]
    let o := m.step (.ofList [.right, .left, .up, .down]) 1000
    m.Reachable ∧ m.fault = none ∧ m.memory.read Hardware.joypad = 0x10 ∧
      o.result = .ok 1000 ∧ o.state.cpu = m.cpu ∧
      o.state.memory.read Hardware.interruptEnable = m.memory.read Hardware.interruptEnable := by
  intro m o
  have hm : m.Reachable := (Reachable.create _ _).performAll _
  have hjoypad : m.memory.read Hardware.joypad = 0x10 := by
    have hhigh : 0xFE00 ≤ Hardware.joypad.toNat := by decide
    have hstored := Memory.read_write_of_plain (show Region.of Hardware.joypad = .plain by decide)
      .powerOn Hardware.joypad 0x10
    have hflags := Memory.read_write_of_high hhigh
      (show Hardware.joypad ≠ Hardware.interruptFlags by decide)
      (Memory.write .powerOn Hardware.joypad 0x10) 0x1F
    have henable := Memory.read_write_of_high hhigh
      (show Hardware.joypad ≠ Hardware.interruptEnable by decide)
      ((Memory.write .powerOn Hardware.joypad 0x10).write Hardware.interruptFlags 0x1F) 0x1F
    rw [if_pos rfl] at hstored
    exact henable.trans (hflags.trans hstored)
  have hinput : ∀ button : Button,
      Byte.has (m.memory.read Hardware.joypad) button.selector = false →
        JoypadInput.isPressed (.ofList [.right, .left, .up, .down]) button = false := by
    rw [hjoypad]
    intro button
    cases button <;> decide
  obtain ⟨hresult, hcpu, -, -, -, hmemory⟩ := step_of_stopped hm rfl rfl hinput 1000
  exact ⟨hm, rfl, hjoypad, hresult, hcpu, hmemory _ (by unfold Hardware.IsUpdated; decide)⟩

end Machine

end GameBoy
