import GameBoy.Proofs.Machine.Courses
import GameBoy.Proofs.Machine.Paths

/-!
# Frame timing

The main theorem, `Machine.frame_timing`, says for any steps from any machine which lines end, which
are drawn, and when the vertical blank is requested: the cycles retired determine all of it, as long
as the processor is steady. A frame from power-on is a special case, because it overshoots its
budget by less than a line.
-/

namespace GameBoy

/-! ## Power-on -/

theorem Memory.lcd_powerOn : powerOn.lcd .power = true := by
  rw [lcd, read_powerOn]
  decide +kernel

namespace Machine

variable {ρ : Type} {m : Machine ρ}

variable [LineRenderer ρ] {input : JoypadInput} {r : Nat}

/-- A machine at power-on, with any program: its display is on, at the start of line 0. -/
theorem display_load {config : Config} {renderer : ρ} {image : Array Byte}
    (h : m = ((create config renderer).load image).state) :
    m.Reachable ∧ m.memory.lcd .power = true ∧ m.memory.read Hardware.line = 0 ∧
      m.timer.countdown = 114 := by
  subst h
  obtain ⟨d, hd, htimer, hread⟩ := display_of_mapsProgram
    (show Operation.MapsProgram (.load image) from trivial) (create config renderer)
  obtain rfl : d = ⟨{}, .powerOn⟩ := hd.elim id id
  refine ⟨.perform (.load image) (.create config renderer), ?_, ?_, congrArg _ htimer⟩
  · refine Eq.trans ?_ Memory.lcd_powerOn
    exact congrArg LcdSwitch.power.isOn (hread _ (by decide))
  · exact (hread _ (by decide)).trans Memory.line_powerOn

/-! ## A frame -/

theorem steps_single {budget : UInt32} (h : (m.step input budget).result = .ok r) :
    (m.steps [⟨input, budget⟩]).result = .ok r ∧
      (m.steps [⟨input, budget⟩]).state = (m.step input budget).state := by
  unfold steps
  rw [Outcome.andThen_of_ok h]
  exact ⟨rfl, rfl⟩

/-- After a frame from the start of line 0, each line has ended once. -/
theorem linesFrom_frame :
    (Lcd.linesFrom 0 154).filter (fun line => line.toNat < Lcd.vblankLine) =
      (List.range 144).map UInt8.ofNat := by
  decide +kernel

/-- From the start of line 0 on, the budget of a frame draws each visible line once. -/
theorem draws_frame (hm : m.Reachable) (hon : m.memory.lcd .power = true)
    (hline : m.memory.read Hardware.line = 0) (hcountdown : m.timer.countdown = 114)
    (hok : (m.step input Lcd.cyclesPerFrame).result = .ok r)
    (hsteady : ∀ turn ∈ m.turns [⟨input, Lcd.cyclesPerFrame⟩], turn.Steady) :
    let draws := (m.turns [⟨input, Lcd.cyclesPerFrame⟩]).filterMap Turn.drawn?
    draws.map Prod.snd = (List.range 144).map UInt8.ofNat ∧
      (m.step input Lcd.cyclesPerFrame).state.canvas = draws.foldl paint m.canvas := by
  intro draws
  obtain ⟨hresult, hstate⟩ := steps_single hok
  have hb : Lcd.cyclesPerFrame.toNat ≤ maxBudget := by decide
  have hcourse := course_steps hm hon (List.forall_mem_singleton.mpr hb) hresult hsteady
  have hcount := hcourse.length_lines (hm.steps _).inFrame
  -- the frame overshoots its budget by less than a line
  have hretired : 17556 ≤ r ∧ r ≤ 17566 := by
    obtain ⟨-, hrun⟩ := run_of_step_ok hok
    rw [hrun] at hok
    have := (loop_run hm.unusableClear input Lcd.cyclesPerFrame).retired_bounds (Nat.zero_le _) hok
    have hbudget : Lcd.cyclesPerFrame.toNat = 17556 := by decide
    omega
  have hlines := hcourse.lines
  rw [hcountdown] at hcount
  rw [show ((m.turns [⟨input, Lcd.cyclesPerFrame⟩]).filterMap Turn.finished?).length = 154 by omega,
    hline] at hlines
  refine ⟨?_, ?_⟩
  · rw [Turn.lines_drawn, hlines]
    exact linesFrom_frame
  · rw [← hstate]
    exact hcourse.canvas

end Machine

/-! ## A program that spins -/

namespace Core

/-- The processor is at power-on, and its program jumps to itself at the entry. -/
structure Spinning (s : Core Memory) : Prop where
  cpu : s.cpu = .powerOn
  opcode : s.bus.read 0x0100 = 0x18
  offset : s.bus.read 0x0101 = 0xFE

theorem executeCurrent_of_spin {t : Core (Traced Memory)} (hcpu : t.cpu = .powerOn)
    (hopcode : t.bus.bus.read 0x0100 = 0x18) (hoffset : t.bus.bus.read 0x0101 = 0xFE) :
    t.executeCurrent = .ok 3 ⟨.powerOn, ⟨t.bus.bus,
      (t.bus.accesses.push (.read 0x0100 0x18)).push (.read 0x0101 0xFE)⟩⟩ := by
  obtain ⟨cpu, m, accesses⟩ := t
  obtain rfl : cpu = .powerOn := hcpu
  replace hopcode : m.read 0x0100 = 0x18 := hopcode
  replace hoffset : m.read 0x0101 = 0xFE := hoffset
  have hfetch : (⟨.powerOn, ⟨m, accesses⟩⟩ : Core (Traced Memory)).fetch =
      (0x18, ⟨{ Cpu.powerOn with registers := { Cpu.powerOnRegisters with pc := 0x0101 } },
        ⟨m, accesses.push (.read 0x0100 0x18)⟩⟩) := by
    rw [← hopcode]
    rfl
  have hcurrent : (⟨.powerOn, ⟨m, accesses⟩⟩ : Core (Traced Memory)).current = .jr none := by
    rw [current, hfetch]
    show Instruction.decode 0x18 = _
    decide
  have himmediate : (⟨.powerOn, ⟨m, accesses⟩⟩ : Core (Traced Memory)).immediate =
      (.offset 0xFE, ⟨{ Cpu.powerOn with registers := { Cpu.powerOnRegisters with pc := 0x0102 } },
        ⟨m, (accesses.push (.read 0x0100 0x18)).push (.read 0x0101 0xFE)⟩⟩) := by
    rw [immediate, hcurrent, hfetch, ← hoffset]
    rfl
  have hback : (0x0102 : Word) + Byte.signExtend 0xFE = 0x0100 := by decide
  rw [executeCurrent, hcurrent, himmediate]
  show Outcome.ok 3 (⟨{ Cpu.powerOn with registers :=
    { Cpu.powerOnRegisters with pc := 0x0102 + Byte.signExtend 0xFE } }, _⟩ :
      Core (Traced Memory)) = _
  rw [hback]
  rfl

theorem Spinning.tick {s : Core Memory} (h : s.Spinning) :
    s.tick.result = .ok 3 ∧ s.tick.state.cpu = .powerOn ∧
      ∀ access ∈ s.tickAccesses, access.Steady := by
  obtain ⟨hresult, -, hcpu, -⟩ := s.tick_traced
  rw [← hresult, ← hcpu]
  show s.traced.tick.result = .ok 3 ∧ s.traced.tick.state.cpu = .powerOn ∧
    ∀ access ∈ s.traced.tick.state.bus.accesses, access.Steady
  have hpowerOn : s.traced.cpu = .powerOn := h.cpu
  have hserved : s.traced.serviceInterrupts = .ok 0 s.traced.attentive :=
    serviceInterrupts_of_masked (by rw [hpowerOn]; rfl) (by rw [hpowerOn]; rfl)
  have hattentive : s.traced.attentive.cpu = .powerOn := by
    unfold attentive
    rw [hpowerOn]
    rfl
  have hexecute := executeCurrent_of_spin hattentive h.opcode h.offset
  have hstep : s.traced.attentive.step = s.traced.attentive.runInstruction := by
    rw [step_of_not_stopped (by rw [hattentive]; rfl),
      stepAwake_of_not_halted (by rw [hattentive]; rfl)]
  have htick : s.traced.tick = ⟨.ok 3, ⟨.powerOn, ⟨s.bus,
      #[.read Hardware.interruptFlags (s.bus.read Hardware.interruptFlags),
        .read Hardware.interruptEnable (s.bus.read Hardware.interruptEnable),
        .read 0x0100 0x18, .read 0x0101 0xFE]⟩⟩, s.traced.tick.events⟩ := by
    unfold Core.tick
    rw [hserved, Outcome.andThen_of_ok rfl]
    dsimp only [Outcome.ok]
    rw [hstep, runInstruction_of_ok (by rw [hexecute]; rfl), hexecute, Outcome.andThen_of_ok rfl]
    rfl
  rw [htick]
  refine ⟨rfl, rfl, ?_⟩
  simp [Access.Steady]

end Core

namespace Machine

variable {ρ : Type} {m : Machine ρ}

theorem spinning_latch (h : m.core.Spinning) (input : JoypadInput) :
    (m.latch input).core.Spinning := by
  refine ⟨h.cpu, ?_, ?_⟩
  · exact (m.joypad.read_latch_of_ne _ _ (by decide) (by decide)).trans h.opcode
  · exact (m.joypad.read_latch_of_ne _ _ (by decide) (by decide)).trans h.offset

/-- A program with a jump to itself at the entry. -/
def spinProgram : Array Byte := Array.replicate 256 0 ++ #[0x18, 0xFE]

theorem spinning_load {renderer : ρ} (h : m = ((create {} renderer).load spinProgram).state) :
    m.core.Spinning ∧ m.fault = none ∧ m.config = {} ∧ m.renderer = renderer := by
  have hnonempty : spinProgram.isEmpty = false := by decide +kernel
  have hlength : Memory.mappedLength spinProgram ({} : Config).window = 258 := by decide +kernel
  have hbytes : spinProgram.getD 256 0 = 0x18 ∧ spinProgram.getD 257 0 = 0xFE := by decide +kernel
  rw [h, load_of_nonempty hnonempty]
  refine ⟨⟨rfl, ?_, ?_⟩, rfl, rfl, rfl⟩
  · refine (Memory.read_overlay _ _ _ _).trans ((if_pos ?_).trans hbytes.1)
    exact hlength ▸ (by decide : 256 < 258)
  · refine (Memory.read_overlay _ _ _ _).trans ((if_pos ?_).trans hbytes.2)
    exact hlength ▸ (by decide : 257 < 258)

variable [LineRenderer ρ]

theorem spinning_iterate (h : m.core.Spinning) (input : JoypadInput) :
    (m.iterate input).result = .ok 3 ∧ (m.iterate input).state.core.Spinning := by
  obtain ⟨hresult, hcpu, -⟩ := h.tick
  refine ⟨by rw [iterate_of_ok hresult], (cpu_iterate m input).trans hcpu, ?_, ?_⟩
  · exact (read_iterate (.inl (by decide))).trans h.opcode
  · exact (read_iterate (.inl (by decide))).trans h.offset

/-- A machine on its way that has raised no fault, and whose processor spins. -/
structure Spins (m : Machine ρ) : Prop where
  reachable : m.Reachable
  fault : m.fault = none
  spinning : m.core.Spinning

theorem Spins.step (h : m.Spins) (input : JoypadInput) (budget : UInt32) :
    (∃ retired, (m.step input budget).result = .ok retired) ∧
      (m.step input budget).state.Spins := by
  have hlatch := spinning_latch h.spinning input
  have hloop := loop_run h.reachable.unusableClear input budget
  obtain ⟨retired, hrun⟩ := hloop.result_of_invariant (P := fun n => n.core.Spinning)
    (fun n hn => ⟨3, (spinning_iterate hn input).1⟩)
    (fun n hn => (spinning_iterate hn input).2) hlatch
  have hreachable : (m.step input budget).state.Reachable := h.reachable.perform (.step _ _)
  rw [step_of_ok h.fault hrun] at hreachable ⊢
  exact ⟨⟨retired, hrun⟩, hreachable, hloop.fault_state.trans h.fault,
    hloop.invariant (P := fun n => n.core.Spinning) (fun n hn => (spinning_iterate hn input).2)
      hlatch⟩

/-- Steps of a spinning machine do not fault, and its processor is steady. -/
theorem Spins.steps (h : m.Spins) (calls : List Call) :
    (∃ total, (m.steps calls).result = .ok total) ∧ ∀ turn ∈ m.turns calls, turn.Steady := by
  induction calls generalizing m with
  | nil => exact ⟨⟨0, rfl⟩, by simp [turns]⟩
  | cons call calls ih =>
    obtain ⟨⟨retired, hstep⟩, hspins⟩ := h.step call.input call.budget
    obtain ⟨⟨more, hmore⟩, hrest⟩ := ih hspins
    refine ⟨⟨retired + more, ?_⟩, ?_⟩
    · rw [Machine.steps, Outcome.andThen_of_ok hstep]
      dsimp only
      rw [Outcome.andThen_of_ok hmore]
      rfl
    · rw [turns, hstep]
      refine List.forall_mem_append.mpr ⟨fun turn hturn => ?_, hrest⟩
      have hturn' := (forall_turnsFrom (P := fun n => n.core.Spinning)
        (fun n hn => (spinning_iterate hn call.input).2) (spinning_latch h.spinning call.input)
        turn hturn).2
      exact hturn'.tick.2.2

/-! ## Frame timing -/

/-- **Frame timing.** Take any machine that can be reached and whose display is on, and any steps
that all end without a fault, during which the processor is steady. Then a line has ended for each
114 of the cycles retired, counted from the last end of a line; the lines follow each other from the
one in the line register; the renderer has been asked for the visible ones among them, in this order
and once each; and the vertical blank has been requested exactly when line 144 was reached. So the
first frame from power-on draws each line of the screen once, from the top down, whatever the
program. -/
theorem frame_timing :
    (∀ m : Machine ρ, m.Reachable → (m.memory.read 0xFF40).toNat.testBit 7 = true →
      ∀ calls : List Call, (∀ call ∈ calls, call.budget.toNat ≤ 2 ^ 32 - 12) →
      ∀ total, (m.steps calls).result = .ok total → (∀ turn ∈ m.turns calls, turn.Steady) →
        let after := (m.steps calls).state
        let first := (m.memory.read Hardware.line).toNat
        let lines := (m.turns calls).filterMap Turn.finished?
        let draws := (m.turns calls).filterMap Turn.drawn?
        (lines.length : Int) = (total + 114 - m.timer.countdown) / 114 ∧
          lines = Lcd.linesFrom first lines.length ∧
          (after.memory.read Hardware.line).toNat = (first + lines.length) % 154 ∧
          draws.map Prod.snd = lines.filter (fun line => line.toNat < 144) ∧
          after.canvas = draws.foldl paint m.canvas ∧
          ∀ turn ∈ m.turns calls, turn.RequestsBlank) ∧
    ∀ (config : Config) (renderer : ρ) (image : Array Byte) (input : JoypadInput),
      config.cyclesPerFrame = Lcd.cyclesPerFrame →
      let m := ((create config renderer).load image).state
      ∀ retired, (m.stepFrame input).result = .ok retired →
        (∀ turn ∈ m.turns [⟨input, Lcd.cyclesPerFrame⟩], turn.Steady) →
        let draws := (m.turns [⟨input, Lcd.cyclesPerFrame⟩]).filterMap Turn.drawn?
        draws.map Prod.snd = (List.range 144).map UInt8.ofNat ∧
          (m.stepFrame input).state.canvas = draws.foldl paint m.canvas := by
  refine ⟨?_, ?_⟩
  · intro m hm hon calls hb total hok hsteady after first lines draws
    have hcourse := course_steps hm ((Memory.lcd_power m.memory).trans hon) hb hok hsteady
    refine ⟨?_, hcourse.lines, hcourse.line, Turn.lines_drawn _, hcourse.canvas, hcourse.blank⟩
    exact hcourse.length_lines (hm.steps calls).inFrame
  · intro config renderer image input hconfig m retired hok hsteady draws
    obtain ⟨hm, hon, hline, hcountdown⟩ := display_load (show m = _ from rfl)
    have hframe : m.stepFrame input = m.step input Lcd.cyclesPerFrame := by
      rw [stepFrame, show m.config = config from config_load image _, hconfig]
    rw [hframe] at hok ⊢
    exact draws_frame hm hon hline hcountdown hok hsteady

theorem lines_paint (draws : List (Memory × Byte)) (canvas : LineRecorder × FrameBuffer) :
    (draws.foldl paint canvas).1.lines.toList = canvas.1.lines.toList ++ draws.map Prod.snd := by
  induction draws generalizing canvas with
  | nil => simp
  | cons draw draws ih => simp [ih, paint, LineRenderer.renderLine]

/-- A program that spins, over two steps with different buttons and over a frame. -/
theorem frame_timing_of_spin :
    let m : Machine LineRecorder := ((create {} {}).load spinProgram).state
    let calls : List Call := [⟨.ofList [.right], 1000⟩, ⟨{}, 500⟩]
    let lines := (m.turns calls).filterMap Turn.finished?
    m.Reachable ∧ (m.memory.read 0xFF40).toNat.testBit 7 = true ∧
      (∀ turn ∈ m.turns calls, turn.Steady) ∧
      (∃ total : Nat, (m.steps calls).result = .ok total ∧ (lines.length : Int) = total / 114) ∧
      lines = Lcd.linesFrom 0 lines.length ∧
      (∃ retired, (m.stepFrame {}).result = .ok retired) ∧
      (∀ turn ∈ m.turns [⟨{}, Lcd.cyclesPerFrame⟩], turn.Steady) ∧
      (m.stepFrame {}).state.renderer.lines.toList = (List.range 144).map UInt8.ofNat := by
  intro m calls lines
  obtain ⟨hspin, hf, hconfig, hrenderer⟩ := spinning_load (show m = _ from rfl)
  obtain ⟨hm, hon, hline, hcountdown⟩ := display_load (show m = _ from rfl)
  rw [Memory.lcd_power] at hon
  have hbudget : m.stepFrame {} = m.step {} Lcd.cyclesPerFrame := by rw [stepFrame, hconfig]
  obtain ⟨hsome, hall⟩ := frame_timing (ρ := LineRecorder)
  have hframe : ∀ retired, (m.stepFrame {}).result = .ok retired →
      (∀ turn ∈ m.turns [⟨{}, Lcd.cyclesPerFrame⟩], turn.Steady) →
      let draws := (m.turns [⟨{}, Lcd.cyclesPerFrame⟩]).filterMap Turn.drawn?
      draws.map Prod.snd = (List.range 144).map UInt8.ofNat ∧
        (m.stepFrame {}).state.canvas = draws.foldl paint m.canvas := hall {} {} spinProgram {} rfl
  clear_value m
  have hspins : m.Spins := ⟨hm, hf, hspin⟩
  obtain ⟨⟨total, htotal⟩, hsteady⟩ := hspins.steps calls
  obtain ⟨⟨retired, hsteps⟩, hsteady'⟩ := hspins.steps [⟨{}, Lcd.cyclesPerFrame⟩]
  obtain ⟨hcount, hlines, -⟩ := hsome m hm hon calls (by decide) total htotal hsteady
  obtain ⟨r, hr⟩ : ∃ r, (m.stepFrame {}).result = .ok r := by
    obtain ⟨r, -, hstep, -⟩ := steps_cons_of_ok hsteps
    exact ⟨r, hbudget ▸ hstep⟩
  refine ⟨hm, hon, hsteady, ⟨total, htotal, ?_⟩, ?_, ⟨r, hr⟩, hsteady', ?_⟩
  · refine hcount.trans ?_
    rw [hcountdown]
    omega
  · rw [hline] at hlines
    exact hlines
  · obtain ⟨hdraws, hcanvas⟩ := hframe r hr hsteady'
    show (m.stepFrame {}).state.canvas.1.lines.toList = _
    rw [hcanvas, lines_paint, hdraws, canvas, hrenderer]
    rfl

end Machine

end GameBoy
