import GameBoy.Proofs.Machine.Operation

/-!
# What every machine keeps

A store leaves the line register alone or clears it, and an iteration is shorter than a line, so
that the display takes at most one line further. Hence the display of a machine stays within its
frame (`Machine.standing_inFrame`), whatever the machine is used for.

Main theorem: `Machine.Reachable.machine_invariant`. In every machine the unusable block is zero,
the line register shows a line of the frame, and the countdown is within a line; and no run and no
store changes the cartridge window.
-/

namespace GameBoy

/-! ## The display within a frame -/

theorem Memory.line_write (m : Memory) (addr : Word) (value : Byte) :
    (m.write addr value).read Hardware.line = m.read Hardware.line ∨
      (m.write addr value).read Hardware.line = 0 := by
  by_cases h : Hardware.line = addr
  · subst h
    rw [read_write, show Region.of Hardware.line = .line by decide]
    exact .inr (if_pos rfl)
  · exact .inl (read_write_of_high (by decide) h m value)

theorem Memory.line_powerOn : powerOn.read Hardware.line = 0 := by
  rw [read_powerOn]
  decide +kernel

/-- The line register shows a line of the frame, and the countdown is within a line. -/
structure Display.InFrame (d : Display) : Prop where
  line_le : (d.memory.read Hardware.line).toNat ≤ 153
  countdown_pos : 1 ≤ d.timer.countdown
  countdown_le : d.timer.countdown ≤ 114

namespace Display.InFrame

variable {d : Display}

theorem write (h : d.InFrame) (addr : Word) (value : Byte) :
    (d.act (.write addr value)).InFrame := by
  refine ⟨?_, h.countdown_pos, h.countdown_le⟩
  show ((d.memory.write addr value).read Hardware.line).toNat ≤ 153
  rcases d.memory.line_write addr value with hl | hl
  · rw [hl]
    exact h.line_le
  · rw [hl]
    decide

theorem reaches (h : d.InFrame) {m : Memory} (hr : Bus.Reaches d.memory m) :
    InFrame ⟨d.timer, m⟩ := by
  induction hr with
  | refl => exact h
  | read _ _ ih => exact ih
  | write addr value _ ih => exact ih.write addr value

theorem advance (h : d.InFrame) {cycles : Nat} (hc : cycles ≤ 114) :
    (d.act (.advance cycles)).InFrame := by
  have hpos := h.countdown_pos
  have hle := h.countdown_le
  show InFrame ⟨(d.timer.advance d.memory cycles).timer, (d.timer.advance d.memory cycles).memory⟩
  rcases d.timer.advance_cases d.memory cycles with ⟨-, ha⟩ | ⟨-, hleft, ha⟩ | ⟨-, hleft, _, -, ha⟩
  · rw [ha]
    exact h
  · rw [ha]
    exact ⟨h.line_le, hleft, by dsimp only; omega⟩
  · rw [ha]
    refine ⟨?_, by dsimp only; omega, by dsimp only; omega⟩
    have hline := Lcd.line_endLine h.line_le
    dsimp only
    omega

end Display.InFrame

/-! ## Every machine -/

namespace Machine

variable {ρ : Type} {m : Machine ρ} {input : JoypadInput}

theorem inFrame_latch (h : m.display.InFrame) (input : JoypadInput) :
    (m.latch input).display.InFrame := by
  refine ⟨?_, h.countdown_pos, h.countdown_le⟩
  show ((m.joypad.latch m.memory input).2.read Hardware.line).toNat ≤ 153
  rw [Joypad.read_latch_of_ne _ _ _ (by decide) (by decide)]
  exact h.line_le

variable [LineRenderer ρ]

theorem display_iterate_of_ok {cycles : Nat} (h : m.core.tick.result = .ok cycles) :
    (m.iterate input).state.display = (m.shown input).display.act (.advance cycles) := by
  obtain ⟨renderer, frame, hs⟩ := state_iterate_of_ok input h
  rw [hs]
  rfl

/-- The display stays within its frame, because an iteration is shorter than a line. -/
theorem standing_inFrame : Standing ρ Display.InFrame where
  latch m input h := inFrame_latch h input
  iterate m input h := by
    have htick : Display.InFrame ⟨m.timer, m.core.tick.state.bus⟩ :=
      h.reaches (Core.reaches_tick .refl)
    cases ht : m.core.tick.result with
    | error fault => rw [iterate_of_error ht]; exact htick
    | ok cycles =>
      have hcost := Core.cost_tick_le ht
      rw [display_iterate_of_ok ht]
      exact (inFrame_latch (m := { m with core := m.core.tick.state }) htick input).advance
        (by omega)
  write d addr value h := h.write addr value
  powerOn := by
    refine ⟨?_, by decide, by decide⟩
    show (Memory.powerOn.read Hardware.line).toNat ≤ 153
    rw [Memory.line_powerOn]
    decide
  congr htimer hread h := by
    refine ⟨?_, ?_, ?_⟩
    · rw [hread _ (by decide)]
      exact h.line_le
    · rw [htimer]
      exact h.countdown_pos
    · rw [htimer]
      exact h.countdown_le

theorem Reachable.inFrame (h : m.Reachable) : m.display.InFrame := standing_inFrame.reachable h

/-- Operations that map no program keep the cartridge window. -/
theorem read_performAll {addr : Word} (h : Memory.ReadOnly addr) {ops : List Operation}
    (hops : ∀ op ∈ ops, ¬ op.MapsProgram) (hm : m.UnusableClear) :
    (m.performAll ops).memory.read addr = m.memory.read addr := by
  induction ops generalizing m with
  | nil => rfl
  | cons op ops ih =>
    obtain ⟨hop, hrest⟩ := List.forall_mem_cons.mp hops
    exact (ih hrest (unusableClear_perform hm op)).trans
      ((kept_readOnly h _).perform hm hop rfl)

/-- **What holds of every machine.** The unusable block is zero, the line register shows a line of
the frame, and the countdown is within a line. Among the operations, only those that map a program
change a byte of the cartridge window, in a series of any length. -/
theorem Reachable.machine_invariant (hm : m.Reachable) :
    (∀ addr : Word, 0xFEA0 ≤ addr → addr ≤ 0xFEFE → m.memory.read addr = 0) ∧
      (m.memory.read Hardware.line).toNat ≤ 153 ∧
      1 ≤ m.timer.countdown ∧ m.timer.countdown ≤ 114 ∧
      ∀ ops : List Operation, (∀ op ∈ ops, ¬ op.MapsProgram) → ∀ addr : Word, addr < 0x8000 →
        (m.performAll ops).memory.read addr = m.memory.read addr := by
  have hframe := hm.inFrame
  refine ⟨fun addr hge hle => ?_, hframe.line_le, hframe.countdown_pos, hframe.countdown_le,
    fun ops hops addr hlt => ?_⟩
  · exact hm.unusableClear addr (Region.of_eq_unusable_iff.mpr ⟨hge, hle⟩)
  · have hwindow : Region.of addr = .cartridge := by
      unfold Region.of
      exact if_pos hlt
    exact read_performAll (.inl hwindow) hops hm.unusableClear

/-- A machine that has loaded and run a program, and a further frame of it. -/
theorem machine_invariant_of_run :
    let ops : List Operation :=
      [.load #[0x3C], .write 0xFF44 7, .step {} 1000, .reset, .step {} 9]
    let m : Machine LineRecorder := (create {} {}).performAll ops
    let frame : List Operation := [.write 0x0100 0xFF, .stepFrame {}]
    m.Reachable ∧ (∀ addr : Word, 0xFEA0 ≤ addr → addr ≤ 0xFEFE → m.memory.read addr = 0) ∧
      (m.memory.read Hardware.line).toNat ≤ 153 ∧
      1 ≤ m.timer.countdown ∧ m.timer.countdown ≤ 114 ∧
      (∀ op ∈ frame, ¬ op.MapsProgram) ∧
      ∀ addr : Word, addr < 0x8000 →
        (m.performAll frame).memory.read addr = m.memory.read addr := by
  intro ops m frame
  have hm : m.Reachable := .performAll (.create _ _) ops
  have hframe : ∀ op ∈ frame, ¬ op.MapsProgram := by simp [frame, Operation.MapsProgram]
  obtain ⟨hunusable, hline, hpos, hle, hwindow⟩ := hm.machine_invariant
  exact ⟨hm, hunusable, hline, hpos, hle, hframe, hwindow frame hframe⟩

end Machine

end GameBoy
