import GameBoy.Proofs.Core.Service
import GameBoy.Proofs.Machine.Buttons

/-!
# Waiting for the vertical blank

A halted processor wakes as soon as a source is requested and enabled, whether or not interrupts are
enabled as a whole. Until then each iteration of a run takes one cycle, and only the display moves.
While the display is on, each of these cycles brings the vertical blank one cycle closer
(`Display.untilBlank`), and at the end of the last visible line it is requested. So a halted
processor that has it enabled waits a frame at most.

One measure carries the proof. It is zero exactly when the vertical blank is requested, and then the
processor is awake; otherwise an iteration that only waits makes it smaller by one
(`Display.untilBlank_advance`).

Main theorem: `Machine.halt_waits_at_most_a_frame`.
-/

namespace GameBoy

/-! ## The halted processor -/

namespace Core

/-- After serving interrupts the core goes into the step neither halted nor stopped. So it runs an
instruction there. -/
def EntersInstruction {β : Type} [Bus β] (s : Core β) : Prop :=
  (∃ cycles, s.serviceInterrupts.result = .ok cycles) ∧
    s.serviceInterrupts.state.cpu.halted = false ∧ s.serviceInterrupts.state.cpu.stopped = false

variable {s : Core Memory}

/-- The sources that are requested and enabled. -/
def sources (s : Core Memory) : Byte := s.pending &&& s.enabled &&& Interrupt.all

theorem attentive_of_no_source (hhalted : s.cpu.halted = true) (h : s.sources = 0) :
    s.attentive = s := by
  have hslept : (s.cpu.halted && s.sources == 0) = s.cpu.halted := by simp [hhalted, h]
  rw [attentive_eq]
  show (⟨{ s.cpu with halted := s.cpu.halted && s.sources == 0 }, s.bus⟩ : Core Memory) = s
  rw [hslept]

theorem entersInstruction_of_source (hstopped : s.cpu.stopped = false) (h : s.sources ≠ 0) :
    s.EntersInstruction := by
  have hawake : s.attentive.cpu.halted = false := by
    rw [attentive_eq]
    show (s.cpu.halted && s.sources == 0) = false
    simp [h]
  have hrunning : s.attentive.cpu.stopped = false := by
    rw [attentive_eq]
    exact hstopped
  unfold EntersInstruction
  cases hime : s.cpu.ime with
  | false =>
    rw [serviceInterrupts_of_masked hstopped hime]
    exact ⟨⟨0, rfl⟩, hawake, hrunning⟩
  | true =>
    rw [serviceInterrupts_of_unmasked hstopped hime]
    cases hfirst : Interrupt.first? (s.pending &&& s.enabled) with
    | none => exact absurd ((Interrupt.first?_eq_none_iff _).mp hfirst) h
    | some source =>
      dsimp only
      rw [state_dispatch]
      exact ⟨⟨dispatchCycles, rfl⟩, hawake, hrunning⟩

/-- A fault of a core with interrupts enabled as a whole: the interrupt registers overlap, but on
none of the sources. -/
def Overlap (s : Core Memory) (fault : Fault) : Prop :=
  s.cpu.ime = true ∧ ∃ p e : Byte, p &&& e ≠ 0 ∧ p &&& e &&& 0x1F = 0 ∧
    fault = .invalidInterruptState p e

/-- What a halted core does with its time: it enters an instruction, stops at an overlap, or waits
for a cycle. -/
theorem tick_of_halted (hhalted : s.cpu.halted = true) (hstopped : s.cpu.stopped = false) :
    s.EntersInstruction ∨
      (∃ fault, s.Overlap fault ∧ s.tick.result = .error fault) ∨
      s.sources = 0 ∧ s.tick.result = .ok 1 ∧ s.tick.state = s := by
  by_cases hsource : s.sources = 0
  · refine .inr ?_
    have hattentive := attentive_of_no_source hhalted hsource
    have hstep : s.step = .ok 1 s := by
      rw [step_of_not_stopped hstopped, stepAwake_of_halted hhalted]
    cases hime : s.cpu.ime with
    | false =>
      have hserve := serviceInterrupts_of_masked hstopped hime
      rw [hattentive] at hserve
      exact .inr ⟨hsource, tick_of_idle hserve hstep⟩
    | true =>
      have hserve := serviceInterrupts_of_unmasked hstopped hime
      have hnone := (Interrupt.first?_eq_none_iff (s.pending &&& s.enabled)).mpr hsource
      rw [hnone, hattentive] at hserve
      dsimp only at hserve
      split at hserve
      · exact .inr ⟨hsource, tick_of_idle hserve hstep⟩
      · rename_i hoverlap
        have herror : s.serviceInterrupts.result =
            .error (.invalidInterruptState s.pending s.enabled) := by rw [hserve]
        have hne : s.pending &&& s.enabled ≠ 0 := fun h => hoverlap (beq_iff_eq.mpr h)
        refine .inl ⟨_, ⟨hime, _, _, hne, hsource, rfl⟩, ?_⟩
        rw [tick, Outcome.andThen_of_error herror]
  · exact .inl (entersInstruction_of_source hstopped hsource)

end Core

/-! ## The way to the vertical blank -/

namespace Display

variable {d : Display}

/-- Whether the vertical blank is requested. -/
def blankRequested (d : Display) : Bool := Byte.has (d.memory.read Hardware.interruptFlags) 0

/-- The cycles until the vertical blank is requested, if the display is on: the rest of this line,
and the lines from the next one up to the last visible one. -/
def untilBlank (d : Display) : Nat :=
  if d.blankRequested then 0
  else d.timer.countdown.toNat + 114 * ((297 - (d.memory.read Hardware.line).toNat) % 154)

theorem untilBlank_of_none (h : d.blankRequested = false) :
    d.untilBlank =
      d.timer.countdown.toNat + 114 * ((297 - (d.memory.read Hardware.line).toNat) % 154) := by
  rw [untilBlank, if_neg (by simp [h])]

theorem untilBlank_le (h : d.InFrame) : d.untilBlank ≤ 17556 := by
  have := h.countdown_le
  unfold untilBlank
  split <;> omega

theorem blankRequested_endLine {m : Memory} (hline : (m.read Hardware.line).toNat ≤ 153)
    (timer : ScanlineTimer) :
    blankRequested ⟨timer, Lcd.endLine m⟩ =
      (Byte.has (m.read Hardware.interruptFlags) 0 ||
        ((m.read Hardware.line).toNat + 1) % 154 == 144) := by
  rw [← Lcd.line_endLine hline, Lcd.endLine, Lcd.read_enterLine_line]
  exact Lcd.vblank_enterLine _ _

/-- A cycle brings the vertical blank one cycle closer. -/
theorem untilBlank_advance (h : d.InFrame) (hon : d.memory.lcd .power = true)
    (hnone : d.blankRequested = false) :
    (d.act (.advance 1)).untilBlank + 1 = d.untilBlank := by
  obtain ⟨timer, m⟩ := d
  obtain ⟨hline, hpos, hle⟩ := h
  rw [untilBlank_of_none hnone]
  dsimp only at hline hpos hle hon ⊢
  rcases timer.advance_cases m 1 with ⟨hoff, -⟩ | ⟨-, hleft, ha⟩ | ⟨-, hleft, events, -, ha⟩
  · rw [hon] at hoff
    cases hoff
  · -- the line goes on
    have hact : act ⟨timer, m⟩ (.advance 1) = ⟨⟨timer.countdown - 1⟩, m⟩ := by
      rw [act, ha]
      rfl
    have hstill : (⟨⟨timer.countdown - 1⟩, m⟩ : Display).blankRequested = false := hnone
    rw [hact, untilBlank_of_none hstill]
    dsimp only
    omega
  · -- the line ends
    have hact : act ⟨timer, m⟩ (.advance 1) = ⟨⟨timer.countdown - 1 + 114⟩, Lcd.endLine m⟩ := by
      rw [act, ha]
      rfl
    have hnext := Lcd.line_endLine hline
    have hrequest := blankRequested_endLine hline ⟨timer.countdown - 1 + 114⟩
    rw [show Byte.has (m.read Hardware.interruptFlags) 0 = false from hnone, Bool.false_or]
      at hrequest
    rw [hact]
    by_cases hlast : ((m.read Hardware.line).toNat + 1) % 154 = 144
    · rw [untilBlank, hrequest, if_pos (beq_iff_eq.mpr hlast)]
      omega
    · rw [untilBlank_of_none (hrequest.trans (beq_eq_false_iff_ne.mpr hlast)), hnext]
      dsimp only
      omega

end Display

/-! ## The wait -/

namespace Machine

variable {ρ : Type} {m : Machine ρ} {input : JoypadInput}

/-- What the processor and the display do in an iteration that only waits. -/
theorem iterate_of_idle [LineRenderer ρ] (hlatched : m.latch input = m)
    (hresult : m.core.tick.result = .ok 1) (hstate : m.core.tick.state = m.core) :
    (m.iterate input).result = .ok 1 ∧ (m.iterate input).state.cpu = m.cpu ∧
      (m.iterate input).state.display = m.display.act (.advance 1) := by
  refine ⟨by rw [iterate_of_ok hresult], ?_, ?_⟩
  · rw [cpu_iterate, hstate]
    rfl
  · rw [display_iterate_of_ok hresult, shown_of_latched hstate hlatched]

/-- The processor is halted, and the display is on its way to the vertical blank, which will wake
it. -/
structure AwaitsBlank (m : Machine ρ) : Prop where
  clear : m.UnusableClear
  inFrame : m.display.InFrame
  halted : m.cpu.halted = true
  stopped : m.cpu.stopped = false
  on : m.memory.lcd .power = true
  enabled : Byte.has (m.memory.read Hardware.interruptEnable) 0 = true

namespace AwaitsBlank

/-- It does not matter what the hardware writes on its own. -/
theorem of_read (h : m.AwaitsBlank) {n : Machine ρ} (hclear : n.UnusableClear)
    (hframe : n.display.InFrame) (hcpu : n.cpu = m.cpu)
    (hread : ∀ addr, ¬ Hardware.IsUpdated addr → n.memory.read addr = m.memory.read addr) :
    n.AwaitsBlank where
  clear := hclear
  inFrame := hframe
  halted := hcpu ▸ h.halted
  stopped := hcpu ▸ h.stopped
  on := by
    unfold Memory.lcd
    rw [hread _ (by decide)]
    exact h.on
  enabled := by
    rw [hread _ (by decide)]
    exact h.enabled

theorem latch (h : m.AwaitsBlank) (input : JoypadInput) : (m.latch input).AwaitsBlank := by
  refine h.of_read (unusableClear_latch h.clear input) (inFrame_latch h.inFrame input) rfl ?_
  exact fun addr haddr => m.joypad.read_latch_of_not_updated haddr _ _

theorem blankRequested (h : m.AwaitsBlank) (hsource : m.core.sources = 0) :
    m.display.blankRequested = false := by
  have hbit : Byte.has m.core.sources 0 = false := by rw [hsource]; decide
  have hsources : m.core.sources = m.memory.read Hardware.interruptFlags &&&
      m.memory.read Hardware.interruptEnable &&& Interrupt.all := rfl
  rw [hsources, Byte.has_and, Byte.has_and, h.enabled, Bool.and_true,
    show Byte.has Interrupt.all 0 = true by decide, Bool.and_true] at hbit
  exact hbit

variable [LineRenderer ρ]

theorem next (h : m.AwaitsBlank) (hlatched : m.latch input = m)
    (hresult : m.core.tick.result = .ok 1) (hstate : m.core.tick.state = m.core) :
    (m.iterate input).state.AwaitsBlank := by
  obtain ⟨-, hcpu, hdisplay⟩ := iterate_of_idle hlatched hresult hstate
  have hframe : (m.iterate input).state.display.InFrame := by
    rw [hdisplay]
    exact h.inFrame.advance (by omega)
  refine h.of_read (unusableClear_iterate h.clear input) hframe hcpu fun addr haddr => ?_
  refine (congrArg (fun d : Display => d.memory.read addr) hdisplay).trans ?_
  exact m.timer.read_advance_of_not_updated haddr _ _

/-- The iterations of the rest of a step: some that wait, and one that does not. The induction is on
the cycles until the vertical blank. -/
theorem turns {budget : UInt32} {retired idle : Nat} (h : m.AwaitsBlank)
    (hlatched : m.latch input = m) (hidle : WithinLimit idle m)
    (hbudget : retired + m.display.untilBlank < budget.toNat) :
    ∃ waiting last rest, turnsFrom input budget retired idle m = waiting ++ last :: rest ∧
      waiting.length ≤ m.display.untilBlank ∧
      (∀ turn ∈ waiting,
        (turn.machine.iterate turn.input).result = .ok 1 ∧ turn.next.cpu = m.cpu) ∧
      last.machine.cpu = m.cpu ∧
      (last.machine.core.EntersInstruction ∨ rest = [] ∧
        ∃ fault, last.machine.core.Overlap fault ∧
          (last.machine.iterate input).result = .error fault) := by
  induction hn : m.display.untilBlank using Nat.strongRecOn generalizing m retired idle with
  | ind n ih =>
    have hlt : retired < budget.toNat := by omega
    rcases Core.tick_of_halted h.halted h.stopped with
      hwoken | ⟨fault, hoverlap, herror⟩ | ⟨hsource, hok, hstate⟩
    · obtain ⟨rest, hrest⟩ :
          ∃ rest, turnsFrom input budget retired idle m = ⟨m, input⟩ :: rest := turnsFrom_of_lt hlt
      exact ⟨[], ⟨m, input⟩, rest, hrest, Nat.zero_le _, by simp, rfl, .inl hwoken⟩
    · have hi : (m.iterate input).result = .error fault := by
        rw [iterate_of_error herror]
      exact ⟨[], ⟨m, input⟩, [], turnsFrom_of_error hlt hi, Nat.zero_le _, by simp, rfl,
        .inr ⟨rfl, fault, hoverlap, hi⟩⟩
    · obtain ⟨hi, hcpu, hdisplay⟩ := iterate_of_idle hlatched hok hstate
      have hcloser := Display.untilBlank_advance h.inFrame h.on (h.blankRequested hsource)
      rw [← hdisplay] at hcloser
      have hmax := toNat_le_maxRetired budget
      obtain ⟨idle', hidle', hturns⟩ := turnsFrom_of_ok h.clear hidle (by omega) hlt hi
      rw [Nat.min_eq_left (by omega)] at hturns
      obtain ⟨waiting, last, rest, hrest, hlength, hwaiting, hlast, hend⟩ :=
        ih (m.iterate input).state.display.untilBlank (by omega) (h.next hlatched hok hstate)
          (latch_iterate hi) hidle' (show retired + 1 + _ < budget.toNat by omega) rfl
      rw [hrest] at hturns
      refine ⟨⟨m, input⟩ :: waiting, last, rest, hturns, ?_, ?_, hlast.trans hcpu, hend⟩
      · rw [List.length_cons]
        omega
      · refine List.forall_mem_cons.mpr ⟨⟨hi, hcpu⟩, fun turn hturn => ?_⟩
        obtain ⟨hone, hkept⟩ := hwaiting turn hturn
        exact ⟨hone, hkept.trans hcpu⟩

end AwaitsBlank

variable [LineRenderer ρ]

/-- **Waiting for the vertical blank.** Let the processor be halted, not stopped, with the display
on and the vertical blank enabled, whatever else is requested or enabled, and wherever in the frame.
A step of more than a frame begins with iterations that wait, at most a frame of them: each takes
one cycle and leaves the processor as it is. The next one serves interrupts and goes on to an
instruction, unless interrupts are enabled as a whole and their registers overlap outside the
sources; then it is the last one, and the step ends with that fault. The iterations follow each
other from the latched machine to the one that the step leaves. -/
theorem halt_waits_at_most_a_frame (hm : m.Reachable) (hf : m.fault = none)
    (hhalted : m.cpu.halted = true) (hstopped : m.cpu.stopped = false)
    (hon : (m.memory.read 0xFF40).toNat.testBit 7 = true)
    (henabled : Byte.has (m.memory.read Hardware.interruptEnable) 0 = true) (input : JoypadInput)
    (budget : UInt32) (hbudget : 17557 ≤ budget.toNat) :
    ∃ waiting last rest, m.stepTurns input budget = waiting ++ last :: rest ∧
      waiting.length ≤ 17556 ∧
      (∀ turn ∈ waiting,
        (turn.machine.iterate turn.input).result = .ok 1 ∧ turn.next.cpu = m.cpu) ∧
      last.machine.cpu = m.cpu ∧
      (last.machine.core.EntersInstruction ∨ rest = [] ∧
        ∃ fault, last.machine.core.Overlap fault ∧
          (m.step input budget).result = .error fault) ∧
      LeadsTo input (m.latch input) (waiting ++ last :: rest) (m.step input budget) := by
  have hstart : (m.latch input).AwaitsBlank :=
    AwaitsBlank.latch ⟨hm.unusableClear, hm.inFrame, hhalted, hstopped,
      (Memory.lcd_power m.memory).trans hon, henabled⟩ input
  have hframe := Display.untilBlank_le hstart.inFrame
  obtain ⟨waiting, last, rest, hturns, hlength, hwaiting, hlast, hend⟩ :=
    hstart.turns (latch_latch m input) (.inl rfl) (show 0 + _ < budget.toNat by omega)
  have hleads := step_leadsTo hm.unusableClear hf input budget
  rw [show m.stepTurns input budget = _ from hturns] at hleads
  refine ⟨waiting, last, rest, hturns, by omega, hwaiting, hlast, hend.imp_right ?_, hleads⟩
  rintro ⟨rfl, fault, hoverlap, herror⟩
  refine ⟨rfl, fault, hoverlap, ?_⟩
  rcases hleads with ⟨r, -, hpath⟩ | ⟨other, before, faulty, hstep, hsplit, -, hi, -⟩
  · obtain ⟨cycles, hok⟩ := hpath.result_of_mem (List.mem_append_right _ (.head _))
    rw [herror] at hok
    cases hok
  · obtain rfl : last = ⟨faulty, input⟩ := by simpa using (List.append_inj' hsplit rfl).2
    rw [hstep, ← herror, hi]

/-- A processor that has halted with interrupts disabled as a whole, without a request. -/
theorem halt_waits_at_most_a_frame_masked :
    let m : Machine LineRecorder := (create {} {}).performAll
      [.write Hardware.interruptEnable 0x01, .write Hardware.interruptFlags 0x00,
        .setCpu { registers := { pc := 0xC000 }, halted := true }]
    m.Reachable ∧ m.fault = none ∧ m.cpu.halted = true ∧ m.cpu.stopped = false ∧
      (m.memory.read 0xFF40).toNat.testBit 7 = true ∧
      Byte.has (m.memory.read Hardware.interruptEnable) 0 = true ∧
      ∃ turn ∈ m.stepTurns {} 17557, turn.machine.core.EntersInstruction := by
  intro m
  have hm : m.Reachable := (Reachable.create _ _).performAll _
  have hread : ∀ addr : Word, 0xFE00 ≤ addr.toNat → addr ≠ Hardware.interruptFlags →
      m.memory.read addr = (Memory.powerOn.write Hardware.interruptEnable 0x01).read addr :=
    fun addr hhigh hflags => Memory.read_write_of_high hhigh hflags _ 0x00
  have hon : (m.memory.read 0xFF40).toNat.testBit 7 = true := by
    rw [hread _ (by decide) (by decide), Memory.read_write_of_high (by decide) (by decide),
      Memory.read_powerOn]
    decide +kernel
  have henabled : Byte.has (m.memory.read Hardware.interruptEnable) 0 = true := by
    rw [hread _ (by decide) (by decide), Memory.read_write_of_plain (by decide), if_pos rfl]
    decide
  obtain ⟨waiting, last, rest, hturns, -, -, hcpu, hend, -⟩ :=
    halt_waits_at_most_a_frame hm rfl rfl rfl hon henabled {} 17557 (by decide)
  have hmasked : last.machine.core.cpu.ime = false := congrArg Cpu.ime hcpu
  have hwoken : last.machine.core.EntersInstruction := by
    rcases hend with hwoken | ⟨-, fault, ⟨hime, -⟩, -⟩
    · exact hwoken
    · rw [hmasked] at hime
      cases hime
  exact ⟨hm, rfl, rfl, rfl, hon, henabled, last, by rw [hturns]; simp, hwoken⟩

end Machine

end GameBoy
