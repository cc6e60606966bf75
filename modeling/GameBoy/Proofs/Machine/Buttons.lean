import GameBoy.Proofs.Core.Masking
import GameBoy.Proofs.Joypad.Register
import GameBoy.Proofs.Machine.Paths
import GameBoy.Proofs.Machine.Splitting

/-!
# Buttons over whole runs

A run shows the buttons once before its first iteration, and again in each iteration, after the
processor has had the register to itself. So the register shows them at the start of every iteration
and at the end, whatever the program stored there, and with the selection that it stored last.

What was stored last, and which buttons the last step was given, is a matter of all that was done to
the machine since it was built (`Machine.joypadLog`). The machine itself remembers the buttons, and
the selection is in the register (`Machine.Recorded`).

The interrupt is requested when the first latch of a step finds a button that the step before was
not given. The other latches of the step are given the same buttons and find no new one. So once the
program has taken the request back, it stays away for the rest of the step.

Main theorem: `Machine.buttons_shown`.
-/

namespace GameBoy

/-! ## The byte last stored -/

/-- The byte stored last at an address, after one more access. -/
def Access.storedAt (addr : Word) (stored : Byte) : Access → Byte
  | .read _ _ => stored
  | .write target value => if target = addr then value else stored

/-- The byte stored last at an address, after some more accesses. -/
def lastStored (addr : Word) (stored : Byte) (accesses : List Access) : Byte :=
  accesses.foldl (Access.storedAt addr) stored

theorem lastStored_append (addr : Word) (stored : Byte) (as more : List Access) :
    lastStored addr stored (as ++ more) = lastStored addr (lastStored addr stored as) more :=
  List.foldl_append

/-- A part of the byte depends on that part of the earlier one only. -/
theorem lastStored_and_congr {addr : Word} {mask stored stored' : Byte}
    (h : stored &&& mask = stored' &&& mask) (accesses : List Access) :
    lastStored addr stored accesses &&& mask = lastStored addr stored' accesses &&& mask := by
  induction accesses generalizing stored stored' with
  | nil => exact h
  | cons access accesses ih =>
    refine ih ?_
    cases access with
    | read target value => exact h
    | write target value =>
      dsimp only [Access.storedAt]
      split
      · rfl
      · exact h

/-- Above the echo an address of plain memory holds the byte stored last. -/
theorem Memory.read_write_eq_storedAt {addr : Word} (hplain : Region.of addr = .plain)
    (hhigh : 0xFE00 ≤ addr.toNat) (m : Memory) (target : Word) (value : Byte) :
    (m.write target value).read addr = (Access.write target value).storedAt addr (m.read addr) := by
  unfold Access.storedAt
  dsimp only
  split
  · rename_i h
    rw [h, read_write_of_plain hplain, if_pos rfl]
  · rename_i h
    exact read_write_of_high hhigh (Ne.symm h) m value

theorem Bus.Reaches.read_eq_lastStored {start bus : Traced Memory} (hr : Bus.Reaches start bus)
    (hstart : start.accesses = #[]) {addr : Word} (hplain : Region.of addr = .plain)
    (hhigh : 0xFE00 ≤ addr.toNat) :
    bus.bus.read addr = lastStored addr (start.bus.read addr) bus.accesses.toList := by
  induction hr with
  | refl =>
    rw [hstart]
    rfl
  | @read target bus _ ih =>
    show bus.bus.read addr = lastStored addr _ (bus.accesses.push _).toList
    rw [Array.toList_push, lastStored_append, ← ih]
    rfl
  | @write target value bus _ ih =>
    show (bus.bus.write target value).read addr = lastStored addr _ (bus.accesses.push _).toList
    rw [Array.toList_push, lastStored_append, ← ih, Memory.read_write_eq_storedAt hplain hhigh]
    rfl

theorem Core.read_tick_eq_lastStored (s : Core Memory) {addr : Word}
    (hplain : Region.of addr = .plain) (hhigh : 0xFE00 ≤ addr.toNat) :
    s.tick.state.bus.read addr = lastStored addr (s.bus.read addr) s.tickAccesses.toList := by
  rw [← s.tick_traced.2.2.2]
  exact (Core.reaches_tick (s := s.traced) .refl).read_eq_lastStored rfl hplain hhigh

theorem has_lastStored {addr : Word} {stored : Byte} {n : Fin 8} {accesses : List Access}
    (h : Byte.has stored n = false)
    (hstores : ∀ value, Access.write addr value ∈ accesses → Byte.has value n = false) :
    Byte.has (lastStored addr stored accesses) n = false := by
  induction accesses generalizing stored with
  | nil => exact h
  | cons access accesses ih =>
    refine ih ?_ fun value hvalue => hstores value (List.mem_cons_of_mem _ hvalue)
    cases access with
    | read target value => exact h
    | write target value =>
      dsimp only [Access.storedAt]
      split
      · rename_i htarget
        exact hstores value (htarget ▸ List.mem_cons_self)
      · exact h

/-- What the processor reads and stores in some turns. -/
def Turn.allAccesses {ρ : Type} (turns : List (Turn ρ)) : List Access :=
  turns.flatMap fun turn => turn.accesses.toList

theorem Turn.lastStored_allAccesses_concat {ρ : Type} (addr : Word) (stored : Byte)
    (turns : List (Turn ρ)) (turn : Turn ρ) :
    lastStored addr stored (allAccesses (turns ++ [turn])) =
      lastStored addr (lastStored addr stored (allAccesses turns)) turn.accesses.toList := by
  rw [← lastStored_append]
  simp [allAccesses]

/-! ## What is dispatched -/

namespace Core

variable {β : Type} [Bus β] {s : Core β} {source : Interrupt} {pc sp : Word} {p e : Byte}

/-- Only a source is dispatched that was requested. -/
theorem has_pending_of_dispatched
    (h : Event.dispatched source pc sp p e ∈ s.serviceInterrupts.events) :
    Byte.has s.pending source.index = true := by
  cases hstopped : s.cpu.stopped with
  | true =>
    rw [serviceInterrupts_of_stopped hstopped] at h
    simp [Outcome.ok] at h
  | false =>
    cases hime : s.cpu.ime with
    | false =>
      rw [serviceInterrupts_of_masked hstopped hime] at h
      simp [Outcome.ok] at h
    | true =>
      rw [serviceInterrupts_of_unmasked hstopped hime] at h
      split at h
      · rename_i first hfirst
        obtain rfl : source = first := (Event.dispatched.inj (Array.mem_singleton.mp h)).1
        have hbit := List.find?_some (show Interrupt.priority.find?
          (fun source => Byte.has (s.pending &&& s.enabled) source.index) = some source from hfirst)
        rw [Byte.has_and, Bool.and_eq_true] at hbit
        exact hbit.1
      · split at h
        · simp [Outcome.ok] at h
        · cases Array.mem_singleton.mp h

theorem dispatched_of_tick (h : Event.dispatched source pc sp p e ∈ s.tick.events) :
    Event.dispatched source pc sp p e ∈ s.serviceInterrupts.events := by
  unfold tick at h
  cases hserve : s.serviceInterrupts.result with
  | error fault =>
    rw [Outcome.andThen_of_error hserve] at h
    exact h
  | ok cycles =>
    rw [Outcome.andThen_of_ok hserve] at h
    refine (Array.mem_append.mp h).resolve_right fun hstep => ?_
    have hquiet := noDispatch_step s.serviceInterrupts.state
    cases hresult : s.serviceInterrupts.state.step.result with
    | error fault =>
      rw [Outcome.andThen_of_error hresult] at hstep
      cases hquiet _ hstep
    | ok more =>
      rw [Outcome.andThen_of_ok hresult] at hstep
      simp only [Outcome.ok, Array.append_empty] at hstep
      cases hquiet _ hstep

end Core

/-! ## What the joypad has to do with -/

/-- The byte stored last in the joypad register, and the buttons that the last step was given. -/
structure JoypadLog where
  stored : Byte := 0xCF
  input : JoypadInput := {}
  deriving DecidableEq

/-- The log after a store by the holder of the machine. -/
def JoypadLog.store (log : JoypadLog) (addr : Word) (value : Byte) : JoypadLog :=
  { log with stored := lastStored Hardware.joypad log.stored [.write addr value] }

namespace Machine

variable {ρ : Type} {m m' : Machine ρ} {input : JoypadInput} {budget : UInt32} {stored : Byte}
  {log : JoypadLog}

/-- The machine remembers the buttons of a log, and its register holds the selection. -/
structure Recorded (m : Machine ρ) (log : JoypadLog) : Prop where
  held : m.joypad = ⟨log.input.mask⟩
  selection : m.memory.read Hardware.joypad &&& 0x30 = log.stored &&& 0x30

/-- Whether the joypad interrupt is requested. -/
def joypadRequested (m : Machine ρ) : Bool :=
  Byte.has (m.memory.read Hardware.interruptFlags) 4

theorem joypadRequested_write_flags (m : Machine ρ) (value : Byte) :
    (m.mapMemory (·.write Hardware.interruptFlags value)).joypadRequested = Byte.has value 4 := by
  have hread :=
    Memory.read_write_of_plain (show Region.of Hardware.interruptFlags = .plain by decide)
    m.memory Hardware.interruptFlags value
  rw [if_pos rfl] at hread
  exact congrArg (Byte.has · 4) hread

theorem joypad_powerOn : Memory.powerOn.read Hardware.joypad = 0xCF := by
  rw [Memory.read_powerOn]
  decide +kernel

theorem Recorded.write (h : m.Recorded log) (addr : Word) (value : Byte) :
    (m.mapMemory (·.write addr value)).Recorded (log.store addr value) := by
  refine ⟨h.held, ?_⟩
  show (m.memory.write addr value).read Hardware.joypad &&& 0x30 = _
  rw [Memory.read_write_eq_storedAt (by decide) (by decide)]
  exact lastStored_and_congr h.selection [.write addr value]

theorem recorded_create (config : Config) (renderer : ρ) :
    (create config renderer).Recorded {} := by
  refine ⟨congrArg Joypad.mk JoypadInput.mask_none.symm, ?_⟩
  show Memory.powerOn.read Hardware.joypad &&& 0x30 = _
  rw [joypad_powerOn]

theorem recorded_latch (h : m.memory.read Hardware.joypad &&& 0x30 = stored &&& 0x30)
    (input : JoypadInput) : (m.latch input).Recorded ⟨stored, input⟩ := by
  refine ⟨rfl, ?_⟩
  show (m.joypad.latch m.memory input).2.read _ &&& 0x30 = _
  rw [Joypad.read_latch_joypad, Joypad.selection_registerByte, h]

theorem shows_of_latched (hlatched : m.latch input = m)
    (hselection : m.memory.read Hardware.joypad &&& 0x30 = stored &&& 0x30) :
    Joypad.Shows (m.memory.read Hardware.joypad) stored input := by
  have hshown : Joypad.registerByte (m.memory.read Hardware.joypad) input.mask =
      m.memory.read Hardware.joypad := by
    rw [← Joypad.read_latch_joypad m.joypad]
    exact congrArg (fun n : Machine ρ => n.memory.read Hardware.joypad) hlatched
  have key := Joypad.shows_registerByte hselection input
  rwa [hshown] at key

/-- The first latch of a step requests the interrupt for a button that the last step was not given,
and makes no other request. -/
theorem has_flags_latch (h : m.Recorded log) (input : JoypadInput) (n : Fin 8) :
    Byte.has ((m.latch input).memory.read Hardware.interruptFlags) n = true ↔
      Byte.has (m.memory.read Hardware.interruptFlags) n = true ∨ n = 4 ∧
        ∃ button : Button, input.isPressed button = true ∧ log.input.isPressed button = false := by
  show Byte.has ((m.joypad.latch m.memory input).2.read _) n = true ↔ _
  rw [Joypad.flags_latch, h.held, Byte.has_or, Interrupt.has_mask_if, Bool.or_eq_true,
    Bool.and_eq_true, decide_eq_true_iff, decide_eq_true_iff, Joypad.newPress_iff, and_comm]
  simp only [JoypadInput.has_mask]
  rfl

variable [LineRenderer ρ]

/-! ## One iteration -/

/-- An iteration leaves the joypad request as the processor left it, since it finds no new button.
-/
theorem joypadRequested_iterate (h : m.joypad = ⟨input.mask⟩) :
    (m.iterate input).state.joypadRequested =
      Byte.has (m.core.tick.state.bus.read Hardware.interruptFlags) 4 := by
  cases ht : m.core.tick.result with
  | error fault =>
    rw [iterate_of_error ht]
    rfl
  | ok cycles =>
    obtain ⟨renderer, frame, hs⟩ := state_iterate_of_ok input ht
    have hnone : input.mask &&& ~~~input.mask = 0 := by simp
    rw [hs, h]
    refine (ScanlineTimer.has_flags_advance _ _ _ (by decide)).trans ?_
    rw [Joypad.flags_latch, hnone, if_neg (by simp), UInt8.or_zero]

theorem recorded_iterate (h : m.Recorded ⟨stored, input⟩) :
    (m.iterate input).state.Recorded
      ⟨lastStored Hardware.joypad stored m.core.tickAccesses.toList, input⟩ := by
  have htick : m.core.tick.state.bus.read Hardware.joypad &&& 0x30 =
      lastStored Hardware.joypad stored m.core.tickAccesses.toList &&& 0x30 := by
    rw [Core.read_tick_eq_lastStored _ (by decide) (by decide)]
    exact lastStored_and_congr h.selection _
  cases ht : m.core.tick.result with
  | error fault =>
    rw [iterate_of_error ht]
    exact ⟨h.held, htick⟩
  | ok cycles =>
    obtain ⟨renderer, frame, hs⟩ := state_iterate_of_ok input ht
    rw [hs]
    refine ⟨rfl, ?_⟩
    show (m.timer.advance _ _).memory.read _ &&& 0x30 = _
    rw [ScanlineTimer.read_advance_of_ne _ _ _ (by decide) (by decide) (by decide),
      Joypad.read_latch_joypad, Joypad.selection_registerByte, htick]

/-! ## One step -/

/-- What the joypad has to do with, along a path. -/
theorem Path.recorded {turns : List (Turn ρ)} (h : Path input m turns m')
    (hm : m.Recorded ⟨stored, input⟩) :
    m'.Recorded ⟨lastStored Hardware.joypad stored (Turn.allAccesses turns), input⟩ := by
  refine h.history (fun past n => n.Recorded
    ⟨lastStored Hardware.joypad stored (Turn.allAccesses past), input⟩)
    (fun past n cycles _ hn => ?_) [] hm
  rw [Turn.lastStored_allAccesses_concat]
  exact recorded_iterate hn

/-- The turns of a step. -/
def stepTurns (input : JoypadInput) (budget : UInt32) (m : Machine ρ) : List (Turn ρ) :=
  turnsFrom input budget 0 0 (m.latch input)

/-- A run is the path of its turns, up to the turn that faults if it ends with a fault. -/
theorem run_path (hm : m.UnusableClear) (input : JoypadInput) (budget : UInt32) :
    (∃ r, (m.run input budget).result = .ok r ∧
        Path input (m.latch input) (m.stepTurns input budget) (m.run input budget).state) ∨
      ∃ fault before last, (m.run input budget).result = .error fault ∧
        m.stepTurns input budget = before ++ [⟨last, input⟩] ∧
        Path input (m.latch input) before last ∧ (last.iterate input).result = .error fault ∧
        (m.run input budget).state = (last.iterate input).state :=
  (loop_run hm input budget).path (Nat.zero_le _) (unusableClear_latch hm input) (.inl rfl)

/-- The turns from a machine lead to an outcome: to the machine that it leaves, or to a turn that
faults, and then the fault is latched in the machine that this turn leaves. -/
def LeadsTo (input : JoypadInput) (m : Machine ρ) (turns : List (Turn ρ))
    (o : Outcome (Machine ρ) Nat) : Prop :=
  (∃ r, o.result = .ok r ∧ Path input m turns o.state) ∨
    ∃ fault before last, o.result = .error fault ∧ turns = before ++ [⟨last, input⟩] ∧
      Path input m before last ∧ (last.iterate input).result = .error fault ∧
      o.state = { (last.iterate input).state with fault := some fault }

theorem step_leadsTo (hm : m.UnusableClear) (hf : m.fault = none) (input : JoypadInput)
    (budget : UInt32) :
    LeadsTo input (m.latch input) (m.stepTurns input budget) (m.step input budget) := by
  rcases run_path hm input budget with
    ⟨r, hr, hpath⟩ | ⟨fault, before, last, hr, hturns, hpath, hi, hstate⟩
  · rw [step_of_ok hf hr]
    exact .inl ⟨r, hr, hpath⟩
  · rw [step_of_error hf hr, hstate]
    exact .inr ⟨fault, before, last, rfl, hturns, hpath, hi, rfl⟩

theorem path_of_step_ok {r : Nat} (hm : m.UnusableClear)
    (h : (m.step input budget).result = .ok r) :
    Path input (m.latch input) (m.stepTurns input budget) (m.step input budget).state := by
  obtain ⟨hf, -⟩ := run_of_step_ok h
  rcases step_leadsTo hm hf input budget with ⟨_, -, hpath⟩ | ⟨fault, _, _, herror, -⟩
  · exact hpath
  · rw [herror] at h
    cases h

/-- After the first latch of a step the register shows the buttons all along a path. -/
theorem Path.shows {turns : List (Turn ρ)} (h : Path input (m.latch input) turns m')
    (hm : m.Recorded log) :
    Joypad.Shows (m'.memory.read Hardware.joypad)
      (lastStored Hardware.joypad log.stored (Turn.allAccesses turns)) input := by
  have hlatched : m'.latch input = m' :=
    h.invariant (P := fun n => n.latch input = n) (fun _ _ hi _ => latch_iterate hi)
      (latch_latch m input)
  exact shows_of_latched hlatched (h.recorded (recorded_latch hm.selection input)).selection

/-- What a step does to the log, unless a fault stopped the machine before. -/
def logStep (m : Machine ρ) (log : JoypadLog) (input : JoypadInput) (budget : UInt32) : JoypadLog :=
  if m.fault = none then
    ⟨lastStored Hardware.joypad log.stored (Turn.allAccesses (m.stepTurns input budget)), input⟩
  else log

theorem recorded_step (hm : m.UnusableClear) (h : m.Recorded log) (input : JoypadInput)
    (budget : UInt32) : (m.step input budget).state.Recorded (m.logStep log input budget) := by
  cases hf : m.fault with
  | some fault =>
    rw [step_of_fault hf, logStep, if_neg (by simp [hf])]
    exact h
  | none =>
    rw [logStep, if_pos hf]
    have hrun : (m.run input budget).state.Recorded ⟨lastStored Hardware.joypad log.stored
        (Turn.allAccesses (m.stepTurns input budget)), input⟩ := by
      have hstart := recorded_latch h.selection input
      rcases run_path hm input budget with
        ⟨r, -, hpath⟩ | ⟨fault, before, last, -, hturns, hpath, -, hstate⟩
      · exact hpath.recorded hstart
      · rw [hturns, Turn.lastStored_allAccesses_concat, hstate]
        exact recorded_iterate (hpath.recorded hstart)
    cases hr : (m.run input budget).result with
    | error fault =>
      rw [step_of_error hf hr]
      exact ⟨hrun.held, hrun.selection⟩
    | ok r =>
      rw [step_of_ok hf hr]
      exact hrun

/-! ## All that is done to a machine -/

/-- What an operation does to the log. A store by the holder of the machine counts like one of the
processor. -/
def logOperation (m : Machine ρ) (log : JoypadLog) : Operation → JoypadLog
  | .step input budget => m.logStep log input budget
  | .stepFrame input => m.logStep log input m.config.cyclesPerFrame
  | .reset => {}
  | .write addr value => log.store addr value
  | .write16 addr value => (log.store addr (Word.lo value)).store (addr + 1) (Word.hi value)
  | .load _ | .map _ _ | .setCpu _ => log

/-- The log after some operations. -/
def joypadLog (m : Machine ρ) (log : JoypadLog) : List Operation → JoypadLog
  | [] => log
  | op :: ops => (m.perform op).joypadLog (m.logOperation log op) ops

theorem recorded_perform (hm : m.UnusableClear) (h : m.Recorded log) (op : Operation) :
    (m.perform op).Recorded (m.logOperation log op) := by
  cases op with
  | step input budget => exact recorded_step hm h input budget
  | stepFrame input => exact recorded_step hm h input _
  | write addr value => exact h.write addr value
  | write16 addr value => exact (h.write addr (Word.lo value)).write (addr + 1) (Word.hi value)
  | setCpu cpu => exact ⟨h.held, h.selection⟩
  | load image =>
    simp only [perform, load, logOperation]
    split
    · exact h
    · rename_i hload
      exact ⟨h.held, (congrArg (· &&& 0x30) (Memory.read_load_of_le (by decide) hload)).trans
        h.selection⟩
  | map image window =>
    simp only [perform, logOperation]
    split
    · exact h
    · rename_i hload
      exact ⟨h.held, (congrArg (· &&& 0x30) (Memory.read_load_of_le (by decide) hload)).trans
        h.selection⟩
  | reset =>
    refine ⟨congrArg Joypad.mk JoypadInput.mask_none.symm, ?_⟩
    show (if m.program.isEmpty then Memory.powerOn else _ : Memory).read _ &&& 0x30 = _
    split
    · rw [joypad_powerOn]
      rfl
    · rw [Memory.read_overlay_of_le (by decide), joypad_powerOn]
      rfl

theorem recorded_performAll (hm : m.UnusableClear) (h : m.Recorded log) (ops : List Operation) :
    (m.performAll ops).Recorded (m.joypadLog log ops) := by
  induction ops generalizing m log with
  | nil => exact h
  | cons op ops ih => exact ih (unusableClear_perform hm op) (recorded_perform hm h op)

/-! ## Requests taken back -/

theorem noDispatch_advanceDisplay (m : Machine ρ) (cycles : Nat) :
    Event.NoDispatch (m.advanceDisplay cycles).2 := by
  show Event.NoDispatch (m.timer.advance m.core.bus cycles).events
  rcases m.timer.advance_cases m.core.bus cycles with ⟨-, h⟩ | ⟨-, -, h⟩ | ⟨-, -, _, he, h⟩
  · rw [h]
    exact Event.noDispatch_empty
  · rw [h]
    exact Event.noDispatch_empty
  · rw [h]
    rcases he with rfl | rfl
    · exact Event.noDispatch_empty
    · exact Event.noDispatch_singleton rfl

end Machine

namespace Turn

variable {ρ : Type} {turn : Turn ρ}

/-- The processor stores a request of the joypad interrupt in the flags. -/
def StoresRequest (turn : Turn ρ) : Prop :=
  ∃ value, Access.write Hardware.interruptFlags value ∈ turn.accesses ∧ Byte.has value 4 = true

/-- The joypad interrupt is dispatched. -/
def DispatchesJoypad [LineRenderer ρ] (turn : Turn ρ) : Prop :=
  ∃ pc sp pending enabled, Event.dispatched .joypad pc sp pending enabled ∈
    (turn.machine.iterate turn.input).events

/-- The joypad interrupt is not dispatched unless it is requested at the start of the turn. -/
theorem not_dispatchesJoypad [LineRenderer ρ] (h : turn.machine.joypadRequested = false) :
    ¬ turn.DispatchesJoypad := by
  rintro ⟨pc, sp, pending, enabled, hevent⟩
  have htick : Event.dispatched .joypad pc sp pending enabled ∈ turn.machine.core.tick.events := by
    cases ht : turn.machine.core.tick.result with
    | error fault =>
      rw [Machine.iterate_of_error ht] at hevent
      exact hevent
    | ok cycles =>
      rw [Machine.iterate_of_ok ht] at hevent
      refine (Array.mem_append.mp hevent).resolve_right fun hdisplay => ?_
      cases Machine.noDispatch_advanceDisplay _ _ _ hdisplay
  have hpending : turn.machine.joypadRequested = true :=
    Core.has_pending_of_dispatched (Core.dispatched_of_tick htick)
  rw [h] at hpending
  cases hpending

/-- Without a request at the start, and if the processor stores none, there is none at the end. -/
theorem not_requested_tick (turn : Turn ρ) (h : turn.machine.joypadRequested = false)
    (hquiet : ¬ turn.StoresRequest) :
    Byte.has (turn.machine.core.tick.state.bus.read Hardware.interruptFlags) 4 = false := by
  rw [Core.read_tick_eq_lastStored _ (by decide) (by decide)]
  refine has_lastStored h fun value hvalue => ?_
  exact eq_false_of_ne_true fun hbit => hquiet ⟨value, Array.mem_toList_iff.mp hvalue, hbit⟩

end Turn

namespace Machine

variable {ρ : Type} [LineRenderer ρ] {m m' : Machine ρ} {input : JoypadInput}

/-- A request that was taken back stays away, as long as the processor stores none. -/
theorem Path.not_requested {turns : List (Turn ρ)} (h : Path input m turns m')
    (hheld : m.joypad = ⟨input.mask⟩) (hm : m.joypadRequested = false)
    (hquiet : ∀ turn ∈ turns, ¬ turn.StoresRequest) : m'.joypadRequested = false := by
  induction h with
  | nil => exact hm
  | @cons m m' turns cycles hi _ ih =>
    obtain ⟨hfirst, hrest⟩ := List.forall_mem_cons.mp hquiet
    have hlatched := latch_iterate hi
    refine ih (congrArg Machine.joypad hlatched).symm ?_ hrest
    rw [joypadRequested_iterate hheld]
    exact Turn.not_requested_tick ⟨m, input⟩ hm hfirst

/-- **Buttons over whole runs.** Take anything that was done to a machine since it was built, and a
step that no fault of an earlier one refuses.

The joypad register shows the buttons of the step, in the groups that the byte stored there last
selects, at the start of every iteration and when the step ends without a fault.

The first latch requests the joypad interrupt exactly when a button is pressed that the last such
step was not given, and changes no other request. What the joypad and the display do after the
processor in an iteration leaves that request as it is. So from an iteration on at whose start there
is none, there is none later in the step, and the interrupt is not dispatched, unless the processor
itself stores a request. -/
theorem buttons_shown (config : Config) (renderer : ρ) (ops : List Operation)
    (input : JoypadInput) (budget : UInt32) :
    let start := create config renderer
    let m := start.performAll ops
    let log := start.joypadLog {} ops
    let turns := m.stepTurns input budget
    let o := m.step input budget
    m.fault = none →
      (∀ before turn after, turns = before ++ turn :: after → turn.input = input ∧
        Joypad.Shows (turn.machine.memory.read Hardware.joypad)
          (lastStored Hardware.joypad log.stored (Turn.allAccesses before)) input) ∧
      (∀ r, o.result = .ok r →
        Joypad.Shows (o.state.memory.read Hardware.joypad)
          (lastStored Hardware.joypad log.stored (Turn.allAccesses turns)) input) ∧
      (∀ n, Byte.has ((m.latch input).memory.read Hardware.interruptFlags) n = true ↔
        Byte.has (m.memory.read Hardware.interruptFlags) n = true ∨ n = 4 ∧
          ∃ button : Button, input.isPressed button = true ∧
            log.input.isPressed button = false) ∧
      (∀ turn ∈ turns, turn.next.joypadRequested =
        Byte.has (turn.machine.core.tick.state.bus.read Hardware.interruptFlags) 4) ∧
      ∀ before turn after, turns = before ++ turn :: after →
        turn.machine.joypadRequested = false →
        (∀ later ∈ turn :: after, ¬ later.StoresRequest) →
          (∀ later ∈ turn :: after,
            later.machine.joypadRequested = false ∧ ¬ later.DispatchesJoypad) ∧
          ∀ r, o.result = .ok r → o.state.joypadRequested = false := by
  intro start m log turns o hf
  have hm : m.UnusableClear := ((Reachable.create config renderer).performAll ops).unusableClear
  have hrecorded : m.Recorded log := recorded_performAll
    (Reachable.create config renderer).unusableClear (recorded_create config renderer) ops
  have hstart := recorded_latch hrecorded.selection input
  have hpath : ∀ before turn after, turns = before ++ turn :: after →
      turn.input = input ∧ Path input (m.latch input) before turn.machine :=
    fun before turn after h => path_of_turnsFrom h
  have hend : ∀ r, o.result = .ok r → Path input (m.latch input) turns o.state :=
    fun r ho => path_of_step_ok hm ho
  refine ⟨fun before turn after h => ?_, fun r ho => (hend r ho).shows hrecorded,
    has_flags_latch hrecorded input, fun turn hturn => ?_,
    fun before turn after h hclear hquiet => ?_⟩
  · obtain ⟨hinput, hbefore⟩ := hpath before turn after h
    exact ⟨hinput, hbefore.shows hrecorded⟩
  · obtain ⟨before, after, h⟩ := List.append_of_mem hturn
    obtain ⟨hinput, hbefore⟩ := hpath before turn after h
    unfold Turn.next
    rw [hinput]
    exact joypadRequested_iterate (hbefore.recorded hstart).held
  · obtain ⟨-, hbefore⟩ := hpath before turn after h
    have hheld := (hbefore.recorded hstart).held
    refine ⟨fun later hlater => ?_, fun r ho => ?_⟩
    · obtain ⟨between, rest, hsplit⟩ := List.append_of_mem hlater
      have hlast : turns = (before ++ between) ++ later :: rest := by
        rw [h, hsplit, List.append_assoc]
      obtain ⟨-, hreach⟩ := hpath _ _ _ hlast
      have hnone := (hreach.suffix hbefore).not_requested hheld hclear fun t ht =>
        hquiet t (hsplit ▸ List.mem_append_left _ ht)
      exact ⟨hnone, Turn.not_dispatchesJoypad hnone⟩
    · have hall := hend r ho
      rw [h] at hall
      exact (hall.suffix hbefore).not_requested hheld hclear hquiet

/-- The program has selected the actions. A button of the directions is held over from the step
before, and one of the actions is added to it. -/
theorem buttons_shown_second_press :
    let start : Machine LineRecorder := create {} {}
    let ops : List Operation :=
      [.write Hardware.joypad 0x10, .step (.ofList [.right]) 0, .write Hardware.interruptFlags 0]
    let m := start.performAll ops
    let input : JoypadInput := .ofList [.right, .a]
    let first := m.latch input
    m.fault = none ∧ start.joypadLog {} ops = ⟨0x10, .ofList [.right]⟩ ∧
      (∃ turns, m.stepTurns input 1 = ⟨first, input⟩ :: turns) ∧
      Joypad.Shows (first.memory.read Hardware.joypad) 0x10 input ∧
      m.joypadRequested = false ∧ first.joypadRequested = true := by
  intro start ops m input first
  let selecting : Machine LineRecorder := start.perform (.write Hardware.joypad 0x10)
  let before : JoypadInput := .ofList [.right]
  have hclear : selecting.UnusableClear :=
    ((Reachable.create {} ({} : LineRecorder)).perform _).unusableClear
  have hrun : selecting.run before 0 = .ok 0 (selecting.latch before) :=
    (loop_run hclear before 0).deterministic (.spent (Nat.le_refl 0))
  have hstep : selecting.step before 0 = .ok 0 (selecting.latch before) := by
    rw [step_of_ok rfl (by rw [hrun]; rfl), hrun]
  have hm : m = (selecting.step before 0).state.mapMemory (·.write Hardware.interruptFlags 0) := rfl
  rw [hstep] at hm
  have hfault : m.fault = none := by rw [hm]; rfl
  have hlog : start.joypadLog {} ops = ⟨0x10, before⟩ := by
    have hnone : selecting.stepTurns before 0 = [] := turnsFrom_of_spent (Nat.le_refl 0)
    have hstart : selecting.fault = none := rfl
    have hops : start.joypadLog {} ops =
        (selecting.logStep (JoypadLog.store {} Hardware.joypad 0x10) before 0).store
          Hardware.interruptFlags 0 := rfl
    rw [hops, logStep, if_pos hstart, hnone]
    decide
  obtain ⟨turns, hturns⟩ : ∃ turns, m.stepTurns input 1 = ⟨first, input⟩ :: turns := by
    rw [stepTurns, turnsFrom, dif_pos (by decide)]
    exact ⟨_, rfl⟩
  obtain ⟨hshows, -, hflags, -⟩ := buttons_shown {} ({} : LineRecorder) ops input 1 hfault
  have hfirst := (hshows [] ⟨first, input⟩ turns hturns).2
  have hrequest := (hflags 4).mpr (.inr ⟨rfl, .a, by decide, by rw [hlog]; decide⟩)
  rw [hlog] at hfirst
  refine ⟨hfault, hlog, ⟨turns, hturns⟩, hfirst, ?_, hrequest⟩
  rw [hm]
  exact joypadRequested_write_flags _ 0

end Machine

end GameBoy
