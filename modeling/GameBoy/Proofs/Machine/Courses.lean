import GameBoy.Proofs.Machine.Splitting
import GameBoy.Proofs.Machine.Turns

/-!
# Courses

While the display is on and the processor leaves the line register alone, the display depends on the
cycles retired only: a line ends for each 114 of them, whichever instructions, dispatches and idle
cycles they went to, and however they were dealt out to steps. The lines that end follow each other,
the visible ones are drawn in that order, and reaching line 144 requests the vertical blank.

What some turns do to a machine in this respect is a `Course`. A turn of a steady processor has one
(`Course.single`), and courses in a row are a course (`Course.append`); so the turns of any steps
have one (`Machine.course_steps`).
-/

namespace GameBoy

/-- Some lines in order, where line 0 follows line 153. -/
def Lcd.linesFrom (first count : Nat) : List Byte :=
  (List.range count).map fun i => UInt8.ofNat ((first + i) % 154)

theorem Lcd.linesFrom_append (first n k : Nat) :
    linesFrom first n ++ linesFrom ((first + n) % 154) k = linesFrom first (n + k) := by
  unfold linesFrom
  rw [List.range_add, List.map_append, List.map_map]
  refine congrArg (_ ++ ·) (List.map_congr_left fun i _ => congrArg UInt8.ofNat ?_)
  show ((first + n) % 154 + i) % 154 = (first + (n + i)) % 154
  omega

/-! ## A display that is on -/

namespace Display

variable {d : Display}

theorem advance_cases (d : Display) (cycles : Nat) :
    (d.memory.lcd .power = false ∧ d.act (.advance cycles) = d ∧
      d.finished? (.advance cycles) = none) ∨
    (d.memory.lcd .power = true ∧
      d.act (.advance cycles) = ⟨⟨d.timer.countdown - cycles⟩, d.memory⟩ ∧
      d.finished? (.advance cycles) = none) ∨
    (d.memory.lcd .power = true ∧
      d.act (.advance cycles) = ⟨⟨d.timer.countdown - cycles + 114⟩, Lcd.endLine d.memory⟩ ∧
      d.finished? (.advance cycles) = some (d.memory.read Hardware.line)) := by
  have hact : d.act (.advance cycles) =
    ⟨(d.timer.advance d.memory cycles).timer, (d.timer.advance d.memory cycles).memory⟩ := rfl
  have hfinished : d.finished? (.advance cycles) = (d.timer.advance d.memory cycles).finished := rfl
  rw [hact, hfinished]
  rcases d.timer.advance_cases d.memory cycles with ⟨hm, h⟩ | ⟨hm, -, h⟩ | ⟨hm, -, _, -, h⟩
  · rw [h]; exact .inl ⟨hm, rfl, rfl⟩
  · rw [h]; exact .inr (.inl ⟨hm, rfl, rfl⟩)
  · -- what ending a line does to the memory plays no part
    generalize Lcd.endLine d.memory = ended at h ⊢
    rw [h]; exact .inr (.inr ⟨hm, rfl, rfl⟩)

theorem advance_of_on (hon : d.memory.lcd .power = true)
    (hline : (d.memory.read Hardware.line).toNat ≤ 153) (cycles : Nat) :
    let after := d.act (.advance cycles)
    let lines := (d.finished? (.advance cycles)).toList
    let first := (d.memory.read Hardware.line).toNat
    after.memory.lcd .power = true ∧
      after.timer.countdown = d.timer.countdown - cycles + 114 * lines.length ∧
      (after.memory.read Hardware.line).toNat = (first + lines.length) % 154 ∧
      lines = Lcd.linesFrom first lines.length := by
  have hsame := Nat.mod_eq_of_lt (show (d.memory.read Hardware.line).toNat < 154 by omega)
  rcases d.advance_cases cycles with ⟨hoff, -⟩ | ⟨-, h, hf⟩ | ⟨-, h, hf⟩
  · rw [hon] at hoff
    cases hoff
  · rw [h, hf]
    exact ⟨hon, (Int.add_zero _).symm, hsame.symm, rfl⟩
  · have hpower := (Lcd.lcd_endLine d.memory .power).trans hon
    have hnext := Lcd.line_endLine hline
    generalize Lcd.endLine d.memory = ended at h hpower hnext
    rw [h, hf]
    refine ⟨hpower, rfl, hnext, ?_⟩
    show [_] = [UInt8.ofNat (_ % 154)]
    rw [Nat.add_zero, hsame, UInt8.ofNat_toNat]

/-- The cycles request the vertical blank when line 143 ends, and at no other time. -/
theorem vblank_advance (d : Display) (cycles : Nat) :
    Byte.has ((d.act (.advance cycles)).memory.read Hardware.interruptFlags) 0 =
      (Byte.has (d.memory.read Hardware.interruptFlags) 0 ||
        d.finished? (.advance cycles) == some 143) := by
  have hnext : ∀ line : Byte, ((Lcd.nextLine line).toNat == Lcd.vblankLine) = (line == 143) :=
    Byte.forall_of_fin (by decide +kernel)
  rcases d.advance_cases cycles with ⟨-, h, hf⟩ | ⟨-, h, hf⟩ | ⟨-, h, hf⟩
  · rw [h, hf]; exact (Bool.or_false _).symm
  · rw [h, hf]; exact (Bool.or_false _).symm
  · rw [h, hf, Option.some_beq_some, ← hnext]
    exact Lcd.vblank_enterLine _ _

end Display

/-! ## A steady processor -/

/-- An access that neither stores to the line register nor switches the display off. -/
def Access.Steady : Access → Prop
  | .read _ _ => True
  | .write addr value =>
    addr ≠ Hardware.line ∧ (addr = Hardware.lcdControl → value.toNat.testBit 7 = true)

/-- Steady accesses keep the line register, and keep the display on. -/
theorem Bus.Reaches.steady {start bus : Traced Memory} (hr : Bus.Reaches start bus)
    (h : ∀ access ∈ bus.accesses, access.Steady) (hon : start.bus.lcd .power = true) :
    bus.bus.read Hardware.line = start.bus.read Hardware.line ∧ bus.bus.lcd .power = true := by
  induction hr with
  | refl => exact ⟨rfl, hon⟩
  | read addr _ ih => exact ih fun access ha => h access (Array.mem_push_of_mem _ ha)
  | @write addr value bus _ ih =>
    obtain ⟨hline, hpower⟩ := ih fun access ha => h access (Array.mem_push_of_mem _ ha)
    obtain ⟨hne, hswitch⟩ := h (.write addr value) (Array.mem_push_self)
    refine ⟨(Memory.read_write_of_high (by decide) hne.symm _ _).trans hline, ?_⟩
    show LcdSwitch.power.isOn ((bus.bus.write addr value).read Hardware.lcdControl) = true
    by_cases haddr : addr = Hardware.lcdControl
    · rw [haddr, Memory.read_write_of_plain (by decide), if_pos rfl]
      exact (LcdSwitch.isOn_power value).trans (hswitch haddr)
    · rw [Memory.read_write_of_high (by decide) (Ne.symm haddr)]
      exact hpower

/-- A tick of steady accesses keeps the line register, and keeps the display on. -/
theorem Core.steady_tick {s : Core Memory} (h : ∀ access ∈ s.tickAccesses, access.Steady)
    (hon : s.bus.lcd .power = true) :
    s.tick.state.bus.read Hardware.line = s.bus.read Hardware.line ∧
      s.tick.state.bus.lcd .power = true := by
  rw [← s.tick_traced.2.2.2]
  exact (Core.reaches_tick (s := s.traced) .refl).steady h hon

/-! ## Drawing -/

section Drawing

variable {ρ : Type} [LineRenderer ρ]

/-- Ask a renderer for a line, given the memory. -/
def paint (canvas : ρ × FrameBuffer) (draw : Memory × Byte) : ρ × FrameBuffer :=
  LineRenderer.renderLine canvas.1 draw.1 draw.2 canvas.2

/-- The renderer, and the frame that it draws into. -/
def Machine.canvas (m : Machine ρ) : ρ × FrameBuffer := (m.renderer, m.frame)

/-- The line to draw when a line ends: that line, if it is visible. -/
def visible (finished : Option Byte) : Option Byte :=
  finished.filter fun line => line.toNat < Lcd.vblankLine

theorem visible_of_lt {line : Byte} (h : line.toNat < Lcd.vblankLine) :
    visible (some line) = some line := Option.filter_some_pos (decide_eq_true h)

theorem visible_of_not_lt {line : Byte} (h : ¬ line.toNat < Lcd.vblankLine) :
    visible (some line) = none := Option.filter_some_neg (by simpa using h)

theorem Machine.canvas_drawFinished (m : Machine ρ) (finished : Option Byte) :
    (m.drawFinished finished).canvas =
      ((visible finished).map (m.memory, ·)).toList.foldl paint m.canvas := by
  cases finished with
  | none => rfl
  | some line =>
    by_cases h : line.toNat < Lcd.vblankLine
    · rw [visible_of_lt h, drawFinished]
      dsimp only
      rw [if_pos h]
      rfl
    · rw [visible_of_not_lt h, drawFinished]
      dsimp only
      rw [if_neg h]
      rfl

end Drawing

/-! ## What a turn does to the display -/

namespace Turn

variable {ρ : Type} {turn : Turn ρ} {cycles : Nat}

/-- Neither does the processor store to the line register nor does it switch the display off. -/
def Steady (turn : Turn ρ) : Prop := ∀ access ∈ turn.accesses, access.Steady

/-- The display after the tick, before the cycles of the tick pass. -/
def shown (turn : Turn ρ) : Display := (turn.machine.shown turn.input).display

/-- The line that ends, if one does. -/
def finished? (turn : Turn ρ) : Option Byte :=
  match turn.machine.core.tick.result with
  | .ok cycles => turn.shown.finished? (.advance cycles)
  | .error _ => none

theorem finished?_of_ok (h : turn.machine.core.tick.result = .ok cycles) :
    turn.finished? = turn.shown.finished? (.advance cycles) := by
  unfold finished?
  rw [h]

/-- A steady processor keeps the line register and keeps the display on, and so do the buttons. -/
theorem shown_of_steady (h : turn.Steady) (hon : turn.machine.memory.lcd .power = true) :
    turn.shown.memory.read Hardware.line = turn.machine.memory.read Hardware.line ∧
      turn.shown.memory.lcd .power = true := by
  obtain ⟨hline, hpower⟩ := Core.steady_tick h hon
  have hlatch : ∀ addr, addr ≠ Hardware.joypad → addr ≠ Hardware.interruptFlags →
      turn.shown.memory.read addr = turn.machine.core.tick.state.bus.read addr := fun addr hj hi =>
    turn.machine.joypad.read_latch_of_ne _ _ hj hi
  refine ⟨(hlatch _ (by decide) (by decide)).trans hline, ?_⟩
  unfold Memory.lcd
  rw [hlatch _ (by decide) (by decide)]
  exact hpower

variable [LineRenderer ρ]

/-- The line that the renderer is asked for, if it is, with the memory it is given. -/
def drawn? (turn : Turn ρ) : Option (Memory × Byte) :=
  (visible turn.finished?).map (turn.next.memory, ·)

/-- The vertical blank is requested in addition exactly when the display reaches line 144. -/
def RequestsBlank (turn : Turn ρ) : Prop :=
  Byte.has (turn.next.memory.read Hardware.interruptFlags) 0 =
    (Byte.has (turn.shown.memory.read Hardware.interruptFlags) 0 || turn.finished? == some 143)

theorem display_next (h : turn.machine.core.tick.result = .ok cycles) :
    turn.next.display = turn.shown.act (.advance cycles) := Machine.display_iterate_of_ok h

theorem requestsBlank (h : turn.machine.core.tick.result = .ok cycles) : turn.RequestsBlank := by
  show Byte.has (turn.next.display.memory.read _) 0 = _
  rw [display_next h, finished?_of_ok h]
  exact Display.vblank_advance _ _

/-- The renderer is asked for the line of the turn and for nothing else. -/
theorem canvas_next (h : turn.machine.core.tick.result = .ok cycles) :
    turn.next.canvas = turn.drawn?.toList.foldl paint turn.machine.canvas := by
  have hmemory : turn.next.memory = (turn.shown.act (.advance cycles)).memory :=
    congrArg Display.memory (display_next h)
  unfold drawn?
  rw [finished?_of_ok h, hmemory, next, Machine.iterate_of_ok h]
  exact Machine.canvas_drawFinished _ _

theorem lines_drawn (turns : List (Turn ρ)) :
    (turns.filterMap drawn?).map Prod.snd =
      (turns.filterMap finished?).filter fun line => line.toNat < Lcd.vblankLine := by
  induction turns with
  | nil => rfl
  | cons turn turns ih =>
    cases hf : turn.finished? with
    | none =>
      have hd : turn.drawn? = none := by rw [drawn?, hf]; rfl
      rw [List.filterMap_cons_none hd, List.filterMap_cons_none hf, ih]
    | some line =>
      rw [List.filterMap_cons_some hf]
      by_cases hline : line.toNat < Lcd.vblankLine
      · have hd : turn.drawn? = some (turn.next.memory, line) := by
          rw [drawn?, hf, visible_of_lt hline]
          rfl
        rw [List.filterMap_cons_some hd, List.map_cons, ih]
        exact (List.filter_cons_of_pos (by simpa using hline)).symm
      · have hd : turn.drawn? = none := by
          rw [drawn?, hf, visible_of_not_lt hline]
          rfl
        rw [List.filterMap_cons_none hd, ih]
        exact (List.filter_cons_of_neg (by simpa using hline)).symm

end Turn

/-! ## Courses -/

/-- What some turns, which take a number of cycles, do to a display that stays on: from one machine
to another. -/
structure Course {ρ : Type} [LineRenderer ρ] (m : Machine ρ) (turns : List (Turn ρ)) (cycles : Nat)
    (m' : Machine ρ) : Prop where
  power : m'.memory.lcd .power = true
  countdown : m'.timer.countdown =
    m.timer.countdown - cycles + 114 * (turns.filterMap Turn.finished?).length
  line : (m'.memory.read Hardware.line).toNat =
    ((m.memory.read Hardware.line).toNat + (turns.filterMap Turn.finished?).length) % 154
  lines : turns.filterMap Turn.finished? =
    Lcd.linesFrom (m.memory.read Hardware.line).toNat (turns.filterMap Turn.finished?).length
  canvas : m'.canvas = (turns.filterMap Turn.drawn?).foldl paint m.canvas
  blank : ∀ turn ∈ turns, turn.RequestsBlank

namespace Course

variable {ρ : Type} [LineRenderer ρ] {m m₁ m₂ : Machine ρ} {turns turns₁ turns₂ : List (Turn ρ)}
  {cycles cycles₁ cycles₂ : Nat}

/-- Without a turn, everything that the display and the renderer have to do with stays. -/
theorem nil (hon : m₁.memory.lcd .power = true) (htimer : m₁.timer = m.timer)
    (hline : m₁.memory.read Hardware.line = m.memory.read Hardware.line)
    (hcanvas : m₁.canvas = m.canvas) (hle : (m.memory.read Hardware.line).toNat ≤ 153) :
    Course m [] 0 m₁ where
  power := hon
  countdown := by rw [htimer]; simp
  line := by rw [hline]; exact (Nat.mod_eq_of_lt (by omega)).symm
  lines := rfl
  canvas := hcanvas
  blank := by simp

/-- Turns in a row. -/
theorem append (h₁ : Course m turns₁ cycles₁ m₁) (h₂ : Course m₁ turns₂ cycles₂ m₂) :
    Course m (turns₁ ++ turns₂) (cycles₁ + cycles₂) m₂ := by
  have hcountdown₁ := h₁.countdown
  have hcountdown₂ := h₂.countdown
  have hline₁ := h₁.line
  have hline₂ := h₂.line
  have hlines := h₂.lines
  rw [hline₁] at hlines
  refine ⟨h₂.power, ?_, ?_, ?_, ?_, ?_⟩
  · rw [List.filterMap_append, List.length_append]
    omega
  · rw [List.filterMap_append, List.length_append]
    omega
  · rw [List.filterMap_append, List.length_append, ← Lcd.linesFrom_append, ← h₁.lines, ← hlines]
  · rw [List.filterMap_append, List.foldl_append, ← h₁.canvas]
    exact h₂.canvas
  · intro turn hturn
    exact (List.mem_append.mp hturn).elim (h₁.blank turn) (h₂.blank turn)

/-- A line has ended for each 114 cycles, counted from the last end of a line. -/
theorem length_lines (h : Course m turns cycles m₁) (hm : m₁.display.InFrame) :
    ((turns.filterMap Turn.finished?).length : Int) =
      (cycles + 114 - m.timer.countdown) / 114 := by
  have hcountdown := h.countdown
  have hpos : 1 ≤ m₁.timer.countdown := hm.countdown_pos
  have hle : m₁.timer.countdown ≤ 114 := hm.countdown_le
  omega

theorem single {turn : Turn ρ} (h : turn.machine.core.tick.result = .ok cycles)
    (hsteady : turn.Steady) (hon : turn.machine.memory.lcd .power = true)
    (hle : (turn.machine.memory.read Hardware.line).toNat ≤ 153) :
    Course turn.machine [turn] cycles turn.next := by
  obtain ⟨hline, hpower⟩ := Turn.shown_of_steady hsteady hon
  obtain ⟨hon', hcountdown, hline', hlines⟩ :=
    Display.advance_of_on hpower (by rw [hline]; exact hle) cycles
  rw [← Turn.display_next h, ← Turn.finished?_of_ok h, hline] at *
  have hfinished : [turn].filterMap Turn.finished? = turn.finished?.toList := by
    cases hf : turn.finished? <;> simp [hf]
  have hdrawn : [turn].filterMap Turn.drawn? = turn.drawn?.toList := by
    cases hd : turn.drawn? <;> simp [hd]
  refine ⟨hon', ?_, ?_, ?_, ?_, ?_⟩
  · rw [hfinished]; exact hcountdown
  · rw [hfinished]; exact hline'
  · rw [hfinished]; exact hlines
  · rw [hdrawn]; exact Turn.canvas_next h
  · intro other hother
    rw [List.mem_singleton.mp hother]
    exact Turn.requestsBlank h

end Course

/-! ## The course of some steps -/

namespace Machine

variable {ρ : Type} [LineRenderer ρ] {m : Machine ρ} {input : JoypadInput} {retired idle r : Nat}
  {o : Outcome (Machine ρ) Nat}

/-- A budget that the count of cycles does not saturate on. -/
def maxBudget : Nat := 2 ^ 32 - 12

theorem Loop.course {budget : UInt32} (h : Loop input budget.toNat retired m o)
    (hb : budget.toNat ≤ maxBudget) (hr : retired ≤ maxRetired) (hm : m.UnusableClear)
    (hidle : WithinLimit idle m) (hframe : m.display.InFrame) (hon : m.memory.lcd .power = true)
    (hsteady : ∀ turn ∈ turnsFrom input budget retired idle m, turn.Steady)
    (ho : o.result = .ok r) :
    ∃ cycles, r = retired + cycles ∧
      Course m (turnsFrom input budget retired idle m) cycles o.state := by
  induction h generalizing idle with
  | spent h =>
    rw [turnsFrom_of_spent h]
    exact ⟨0, (Except.ok.inj ho).symm, .nil hon rfl rfl rfl hframe.line_le⟩
  | fault => cases ho
  | @more retired cycles m o hlt hi _ ih =>
    obtain ⟨idle', hidle', heq⟩ := turnsFrom_of_ok hm hidle hr hlt hi
    rw [heq] at hsteady ⊢
    obtain ⟨hfirst, hrest⟩ := List.forall_mem_cons.mp hsteady
    have hturn : Course m [⟨m, input⟩] cycles (m.iterate input).state :=
      .single (tick_of_iterate hi) hfirst hon hframe.line_le
    obtain ⟨more, hsum, hcourse⟩ := ih (Nat.min_le_right _ _) (unusableClear_iterate hm input)
      hidle' (standing_inFrame.iterate m input hframe) hturn.power hrest ho
    -- the budget leaves room for the costliest iteration
    have hexact : min (retired + cycles) maxRetired = retired + cycles := by
      have := cost_iterate_le hi
      unfold maxBudget at hb
      unfold maxRetired
      omega
    rw [hexact] at hsum
    exact ⟨cycles + more, by omega, hturn.append hcourse⟩

theorem course_step (hm : m.Reachable) (hon : m.memory.lcd .power = true) {call : Call}
    (hb : call.budget.toNat ≤ maxBudget) (hok : (m.step call.input call.budget).result = .ok r)
    (hsteady : ∀ turn ∈ turnsFrom call.input call.budget 0 0 (m.latch call.input), turn.Steady) :
    Course m (turnsFrom call.input call.budget 0 0 (m.latch call.input)) r
      (m.step call.input call.budget).state := by
  obtain ⟨-, hrun⟩ := run_of_step_ok hok
  rw [hrun] at hok ⊢
  have hread : ∀ addr, addr ≠ Hardware.joypad → addr ≠ Hardware.interruptFlags →
      (m.latch call.input).memory.read addr = m.memory.read addr := fun addr hj hi =>
    m.joypad.read_latch_of_ne _ _ hj hi
  have hon' : (m.latch call.input).memory.lcd .power = true := by
    unfold Memory.lcd
    rw [hread _ (by decide) (by decide)]
    exact hon
  have hlatch : Course m [] 0 (m.latch call.input) :=
    .nil hon' rfl (hread _ (by decide) (by decide)) rfl hm.inFrame.line_le
  obtain ⟨cycles, hsum, hcourse⟩ := (loop_run hm.unusableClear call.input call.budget).course hb
    (Nat.zero_le _) (unusableClear_latch hm.unusableClear call.input) (.inl rfl)
    (inFrame_latch hm.inFrame call.input) hon' hsteady hok
  rw [hsum]
  exact hlatch.append hcourse

/-- Steps that all end without a fault have a course. -/
theorem course_steps (hm : m.Reachable) (hon : m.memory.lcd .power = true) {calls : List Call}
    (hb : ∀ call ∈ calls, call.budget.toNat ≤ maxBudget) {total : Nat}
    (hok : (m.steps calls).result = .ok total) (hsteady : ∀ turn ∈ m.turns calls, turn.Steady) :
    Course m (m.turns calls) total (m.steps calls).state := by
  induction calls generalizing m total with
  | nil =>
    obtain rfl : 0 = total := Except.ok.inj hok
    exact .nil hon rfl rfl rfl hm.inFrame.line_le
  | cons call calls ih =>
    obtain ⟨retired, more, hstep, hsteps, rfl, hstate, hturns⟩ := steps_cons_of_ok hok
    obtain ⟨hbfirst, hbrest⟩ := List.forall_mem_cons.mp hb
    rw [hturns] at hsteady ⊢
    rw [hstate]
    obtain ⟨hfirst, hrest⟩ := List.forall_mem_append.mp hsteady
    have hcourse := course_step hm hon hbfirst hstep hfirst
    exact hcourse.append (ih (hm.perform (.step _ _)) hcourse.power hbrest hsteps hrest)

end Machine

end GameBoy
