import GameBoy.Proofs.Core.Nesting
import GameBoy.Proofs.Core.Service

/-!
# Masking interrupts

While the interrupt master enable is off, serving interrupts may end a halt and does nothing else
(`Core.Undisturbed`). `DI` and `EI` decide how long that lasts.

* `DI` clears the enable and both stages of its schedule. Nothing is left that could turn the enable
  on later, so the program is undisturbed until it executes `EI` or `RETI`
  (`Core.masked_after_di`).
* `EI` schedules the enable for the end of the instruction behind it. That instruction, whatever it
  is, is reached and run undisturbed, and at its end the enable is on, unless it is `DI`
  (`Core.enabled_behind_ei`).

A run is followed on the small machine of the three flags (`EnableState`): `DI` takes it to
`EnableState.off`, where every other instruction but `EI` and `RETI` leaves it.
-/

namespace GameBoy

/-! ## The three flags -/

namespace EnableState

/-- Interrupts are disabled, and no enable is scheduled. -/
def off : EnableState := ⟨false, false, false⟩

theorem run_off {i : Instruction} (hei : i ≠ .ei) (hreti : i ≠ .reti) : off.run i = off := by
  by_cases hdi : i = .di
  · subst hdi
    rfl
  · rw [run_of_calm hei hreti hdi]
    rfl

/-- An enable in its second stage takes effect at the end of any instruction that does not cancel
it. -/
theorem on_run_of_delayed {e : EnableState} (h : e.delayed = true) {i : Instruction}
    (hdi : i ≠ .di) : (e.run i).on = true := by
  have hexecute : (e.execute i).delayed = true := by
    cases i with
    | di => exact absurd rfl hdi
    | ei =>
      unfold execute
      dsimp only
      split <;> exact h
    | _ => exact h
  rw [run, advance, if_pos hexecute]

end EnableState

theorem Cpu.enableState_eq_off_iff {cpu : Cpu} :
    cpu.enableState = .off ↔ cpu.ime = false ∧ cpu.enableScheduled = false := by
  simp [enableState, EnableState.off, enableScheduled]

/-- The two low-power states. -/
def Cpu.lowPower (cpu : Cpu) : Bool × Bool := (cpu.halted, cpu.stopped)

theorem Cpu.lowPower_advanceEnable (cpu : Cpu) : cpu.advanceEnable.lowPower = cpu.lowPower := by
  unfold advanceEnable
  split
  · rfl
  · split <;> rfl

/-! ## Reading a bus -/

/-- Some reads lead from one bus to another. -/
inductive Bus.ReadsTo {β : Type} [Bus β] (start : β) : β → Prop
  | refl : ReadsTo start start
  | read (addr : Word) {bus : β} : ReadsTo start bus → ReadsTo start (Bus.read8 addr bus).2

theorem Bus.ReadsTo.eq {β : Type} [Bus β] [QuietBus β] {start bus : β} (h : ReadsTo start bus) :
    bus = start := by
  induction h with
  | refl => rfl
  | read addr _ ih => rw [QuietBus.read8_snd, ih]

/-! ## Records of dispatches -/

namespace Event

/-- Whether an event is the record of a dispatch. -/
def isDispatch : Event → Bool
  | dispatched .. => true
  | _ => false

/-- No dispatch is reported. -/
def NoDispatch (events : Array Event) : Prop := ∀ e ∈ events, e.isDispatch = false

theorem noDispatch_empty : NoDispatch #[] := by simp [NoDispatch]

theorem noDispatch_singleton {e : Event} (h : e.isDispatch = false) : NoDispatch #[e] := by
  simp [NoDispatch, h]

theorem NoDispatch.append {events more : Array Event} (h : NoDispatch events)
    (hmore : NoDispatch more) : NoDispatch (events ++ more) := fun e he =>
  (Array.mem_append.mp he).elim (h e) (hmore e)

end Event

namespace Core

open Event (NoDispatch)

variable {β : Type} [Bus β] {s : Core β}

theorem noDispatch_execute (i : Instruction) (operand : Operand) (s : Core β) :
    NoDispatch (s.execute i operand).events := by
  cases i with
  | prefixed =>
    rw [execute_prefixed]
    dsimp only
    split
    · exact Event.noDispatch_singleton rfl
    · exact Event.noDispatch_empty
  | hole opcode =>
    unfold execute executeHole
    dsimp only
    split
    · exact Event.noDispatch_singleton rfl
    · exact Event.noDispatch_singleton rfl
  | stop => exact Event.noDispatch_singleton rfl
  | _ => exact Event.noDispatch_empty

theorem noDispatch_step (s : Core β) : NoDispatch s.step.events := by
  have hbefore : ∀ before : Array Event, before = #[] ∨ before = #[.resumed] →
      NoDispatch before := by
    rintro before (rfl | rfl)
    · exact Event.noDispatch_empty
    · exact Event.noDispatch_singleton rfl
  cases ha : s.awake? with
  | none => exact hbefore _ (step_of_asleep ha).2.2
  | some s' =>
    obtain ⟨before, hevents, hstep⟩ := step_of_awake ha
    have hreport : NoDispatch s'.report := by
      unfold report
      split
      · exact Event.noDispatch_singleton rfl
      · exact Event.noDispatch_empty
    rw [hstep, events_runInstruction]
    exact (hbefore before hevents).append (hreport.append (noDispatch_execute _ _ _))

/-! ## Undisturbed cores -/

/-- Serving interrupts neither dispatches one nor faults: the registers stay, and the bus is at most
read. -/
structure Undisturbed (s : Core β) : Prop where
  result : s.serviceInterrupts.result = .ok 0
  registers : s.serviceInterrupts.state.cpu.registers = s.cpu.registers
  bus : Bus.ReadsTo s.bus s.serviceInterrupts.state.bus

theorem undisturbed_of_masked (h : s.cpu.ime = false) : s.Undisturbed := by
  cases hs : s.cpu.stopped with
  | true =>
    have ho := serviceInterrupts_of_stopped hs
    exact ⟨by rw [ho]; rfl, by rw [ho]; rfl, by rw [ho]; exact .refl⟩
  | false =>
    have ho := serviceInterrupts_of_masked hs h
    exact ⟨by rw [ho]; rfl, by rw [ho]; rfl, by rw [ho]; exact .read _ (.read _ .refl)⟩

/-! ## Runs with interrupts off -/

theorem calm_cons {m : Move β} {ms : List (Move β)} :
    s.Calm (m :: ms) ↔
      (s.ran? m ≠ some .ei ∧ s.ran? m ≠ some .reti) ∧ (s.move m).Calm ms := by
  have hmem : ∀ i, i ∈ s.ran (m :: ms) ↔ s.ran? m = some i ∨ i ∈ (s.move m).ran ms := fun i => by
    rw [ran, List.mem_append, Option.mem_toList]
  unfold Calm
  rw [hmem, hmem, not_or, not_or, and_and_and_comm]

theorem Calm.of_prefix {before ms : List (Move β)} (h : s.Calm ms) (hbefore : before <+: ms) :
    s.Calm before := by
  obtain ⟨more, rfl⟩ := hbefore
  unfold Calm at h
  rw [ran_append] at h
  exact ⟨fun hei => h.1 (List.mem_append_left _ hei),
    fun hreti => h.2 (List.mem_append_left _ hreti)⟩

theorem off_move (h : s.cpu.enableState = .off) {m : Move β} (hei : s.ran? m ≠ some .ei)
    (hreti : s.ran? m ≠ some .reti) : (s.move m).cpu.enableState = .off := by
  rw [enableState_move (congrArg EnableState.on h) m, h]
  cases hi : s.ran? m with
  | none => rfl
  | some i =>
    refine EnableState.run_off ?_ ?_
    · rintro rfl
      exact hei hi
    · rintro rfl
      exact hreti hi

/-- With interrupts off and nothing scheduled, only `EI` and `RETI` bring them back. -/
theorem off_after {ms : List (Move β)} (h : s.cpu.enableState = .off) (hcalm : s.Calm ms) :
    (s.after ms).cpu.enableState = .off := by
  induction ms generalizing s with
  | nil => exact h
  | cons m ms ih =>
    obtain ⟨⟨hei, hreti⟩, hrest⟩ := calm_cons.mp hcalm
    exact ih (off_move h hei hreti) hrest

/-- Until the next step, a processor that is not halted and has interrupts off stays as it is. -/
theorem cpu_after_of_masked {ms : List (Move β)} (hms : .step ∉ ms) (h : s.cpu.ime = false)
    (hhalted : s.cpu.halted = false) : (s.after ms).cpu = s.cpu := by
  induction ms generalizing s with
  | nil => rfl
  | cons m ms ih =>
    obtain ⟨hm, hrest⟩ := not_or.mp (mt List.mem_cons.mpr hms)
    have hmove : (s.move m).cpu = s.cpu := by
      cases m with
      | step => exact absurd rfl hm
      | change bus => rfl
      | service =>
        show s.serviceInterrupts.state.cpu = s.cpu
        cases hs : s.cpu.stopped with
        | true => rw [serviceInterrupts_of_stopped hs]; rfl
        | false =>
          rw [serviceInterrupts_of_masked hs h]
          show { s.cpu with
            halted := s.cpu.halted && s.pending &&& s.enabled &&& Interrupt.all == 0 } = s.cpu
          rw [hhalted, Bool.false_and, ← hhalted]
    exact (ih hrest (hmove ▸ h) (hmove ▸ hhalted)).trans hmove

/-! ## `DI` -/

/-- **Critical sections.** `DI` turns interrupts off, whatever was scheduled before it. From there
on, and until the program executes `EI` or `RETI`, they stay off with nothing scheduled, and serving
them disturbs nothing, however often it is tried and whatever happens to the bus in between. -/
theorem masked_after_di (hhalted : s.cpu.halted = false) (hstopped : s.cpu.stopped = false)
    (hdi : Instruction.decode (Bus.read8 s.cpu.registers.pc s.bus).1 = .di) {ms : List (Move β)}
    (hcalm : s.step.state.Calm ms) :
    s.step.result = .ok 1 ∧ ∀ before, before <+: ms →
      let t := s.step.state.after before
      t.cpu.ime = false ∧ t.cpu.enableScheduled = false ∧ t.Undisturbed := by
  have hcurrent : s.current = .di := (current_eq s).trans hdi
  obtain ⟨-, hstep⟩ := step_of_brief hstopped hhalted hcurrent rfl fun _ => rfl
  have hoff : s.step.state.cpu.enableState = .off := by rw [hstep]; rfl
  refine ⟨by rw [hstep], fun before hbefore => ?_⟩
  obtain ⟨hime, hscheduled⟩ := Cpu.enableState_eq_off_iff.mp
    (off_after hoff (hcalm.of_prefix hbefore))
  exact ⟨hime, hscheduled, undisturbed_of_masked hime⟩

/-- `DI` under the halt bug, with interrupts on and both stages of a schedule set, in an address
space of nothing but `DI`, where the interrupt registers overlap too. -/
theorem masked_after_di_everywhere :
    ∃ space : AddressSpace,
      let s : Core AddressSpace :=
        ⟨{ registers := { pc := 0xC000 }, ime := true, haltBug := true, enablePending := true,
            enableDelay := true }, space⟩
      let ms : List (Move AddressSpace) := [.service, .step, .service]
      let t := s.step.state.after ms
      Instruction.decode (Bus.read8 s.cpu.registers.pc s.bus).1 = .di ∧ s.step.state.Calm ms ∧
        space.get Hardware.interruptFlags &&& space.get Hardware.interruptEnable &&& 0x1F ≠ 0 ∧
        s.step.result = .ok 1 ∧ t.cpu.ime = false ∧ t.serviceInterrupts.result = .ok 0 ∧
        t.serviceInterrupts.state.bus = t.bus := by
  obtain ⟨space, hread⟩ : ∃ space : AddressSpace, ∀ addr, space.get addr = 0xF3 :=
    ⟨.ofFn fun _ => 0xF3, AddressSpace.get_ofFn _⟩
  refine ⟨space, ?_⟩
  intro s ms t
  have hdecode : ∀ addr, Instruction.decode (Bus.read8 addr space).1 = .di := fun addr => by
    show Instruction.decode (space.get addr) = _
    rw [hread]
    rfl
  have hcurrent : ∀ cpu : Cpu, (⟨cpu, space⟩ : Core AddressSpace).current = .di :=
    fun _ => current_of_byte (hread _) rfl
  let t₀ : Core AddressSpace := ⟨{ registers := { pc := 0xC000 } }, space⟩
  have hstep : s.step.state = t₀ := by
    rw [(step_of_brief (s := s) rfl rfl (hcurrent _) rfl fun _ => rfl).2]
    rfl
  -- the byte is fetched again, so that the one instruction in the run is another `DI`
  have hran : t₀.ran ms = [.di] := by
    have hexecute : t₀.executeCurrent.result = .ok 1 := by
      rw [(step_of_brief (s := t₀) rfl rfl (hcurrent _) rfl fun _ => rfl).1]
      rfl
    have hfinished : t₀.finished? = some .di := by
      rw [finished?_of_ok (s := t₀) rfl hexecute, hcurrent]
    show t₀.finished?.toList ++ [] = _
    rw [hfinished]
    rfl
  have hcalm : s.step.state.Calm ms := by
    unfold Calm
    rw [hstep, hran]
    decide
  obtain ⟨hresult, hmasked⟩ := masked_after_di (s := s) rfl rfl (hdecode _) hcalm
  obtain ⟨hime, -, hundisturbed⟩ := hmasked ms (List.prefix_refl ms)
  exact ⟨hdecode _, hcalm, by rw [hread, hread]; decide,
    hresult, hime, hundisturbed.result, hundisturbed.bus.eq⟩

/-! ## `EI` -/

theorem step_of_ei (hhalted : s.cpu.halted = false) (hstopped : s.cpu.stopped = false)
    (hoff : s.cpu.enableState = .off) (hi : s.current = .ei) :
    s.step.result = .ok 1 ∧ s.step.state.cpu.enableState = ⟨false, false, true⟩ ∧
      s.step.state.cpu.lowPower = s.cpu.lowPower := by
  obtain ⟨-, hstep⟩ := step_of_brief hstopped hhalted hi rfl fun _ => rfl
  have hfetch : s.fetch.2.cpu.lowPower = s.cpu.lowPower := by
    show s.fetch.2.cpu.control.lowPower = _
    rw [control_fetch]
    rfl
  rw [hstep]
  refine ⟨rfl, ?_, ?_⟩
  · rw [Cpu.enableState_advanceEnable, enableState_apply, enableState_fetch, hoff]
    rfl
  · rw [Cpu.lowPower_advanceEnable, ← hfetch]
    unfold apply
    dsimp only
    split <;> rfl

/-- An instruction that runs while an enable is in its second stage. Only a hole fails to end, and
then interrupts are still off. -/
theorem step_of_delayed {t : Core β} (hhalted : t.cpu.halted = false)
    (hstopped : t.cpu.stopped = false) (ht : t.cpu.enableState = ⟨false, false, true⟩) :
    (∀ cycles, t.step.result = .ok cycles → t.finished? = some t.current ∧
      (t.current ≠ .di → t.step.state.cpu.ime = true) ∧
      (t.current = .di → t.step.state.cpu.enableState = .off)) ∧
    (∀ fault, t.step.result = .error fault →
      (∃ opcode, t.current = .hole opcode) ∧ t.step.state.cpu.ime = false) := by
  have hawake := awake?_of_running hhalted hstopped
  have hflags := enableState_step t
  rw [step_of_running hhalted hstopped] at hflags ⊢
  rw [result_runInstruction]
  constructor
  · intro cycles hr
    have hfinished := finished?_of_ok hawake hr
    rw [hfinished, ht] at hflags
    replace hflags : t.runInstruction.state.cpu.enableState =
        EnableState.run t.current ⟨false, false, true⟩ := hflags
    refine ⟨hfinished, fun hdi => ?_, fun hdi => ?_⟩
    · show t.runInstruction.state.cpu.enableState.on = true
      rw [hflags]
      exact EnableState.on_run_of_delayed rfl hdi
    · rw [hflags, hdi]
      rfl
  · intro fault hr
    refine ⟨hole_of_error hr, ?_⟩
    have hfinished : t.finished? = none := by rw [finished?, hawake, Option.bind_some, hr]
    rw [hfinished, ht] at hflags
    exact congrArg EnableState.on hflags

/-- **The delay of `EI`.** With interrupts off and nothing scheduled, `EI` leaves them off, and
serving them disturbs nothing before the next step, however often it is tried and whatever happens
to the bus. The step dispatches nothing either. When its instruction has run to the end, interrupts
are on, unless it is `DI`, after which they are off with nothing scheduled. -/
theorem enabled_behind_ei (hhalted : s.cpu.halted = false) (hstopped : s.cpu.stopped = false)
    (hime : s.cpu.ime = false) (hscheduled : s.cpu.enableScheduled = false)
    (hei : Instruction.decode (Bus.read8 s.cpu.registers.pc s.bus).1 = .ei)
    {between : List (Move β)} (hbetween : .step ∉ between) :
    let t := s.step.state.after between
    let i := Instruction.decode (Bus.read8 t.cpu.registers.pc t.bus).1
    s.step.result = .ok 1 ∧
      (∀ before, before <+: between →
        (s.step.state.after before).cpu.ime = false ∧ (s.step.state.after before).Undisturbed) ∧
      NoDispatch t.step.events ∧
      (∀ cycles, t.step.result = .ok cycles → t.finished? = some i ∧
        (i ≠ .di → t.step.state.cpu.ime = true) ∧
        (i = .di → t.step.state.cpu.ime = false ∧ t.step.state.cpu.enableScheduled = false)) ∧
      (∀ fault, t.step.result = .error fault →
        (∃ opcode, i = .hole opcode) ∧ t.step.state.cpu.ime = false) := by
  intro t i
  obtain ⟨hresult, hflags, hlow⟩ := step_of_ei hhalted hstopped
    (Cpu.enableState_eq_off_iff.mpr ⟨hime, hscheduled⟩) ((current_eq s).trans hei)
  have hoff : s.step.state.cpu.ime = false := congrArg EnableState.on hflags
  have hawake : s.step.state.cpu.halted = false := (congrArg Prod.fst hlow).trans hhalted
  have hcpu : ∀ before, before <+: between → (s.step.state.after before).cpu = s.step.state.cpu :=
    fun before hbefore =>
      cpu_after_of_masked (fun hmem => hbetween (hbefore.subset hmem)) hoff hawake
  have ht : t.cpu = s.step.state.cpu := hcpu between (List.prefix_refl between)
  have hi : i = t.current := (current_eq t).symm
  obtain ⟨hended, hfaulted⟩ := step_of_delayed (t := t) (ht ▸ hawake)
    (ht ▸ (congrArg Prod.snd hlow).trans hstopped) (ht ▸ hflags)
  refine ⟨hresult, fun before hbefore => ?_, noDispatch_step t, fun cycles hr => ?_,
    hi ▸ hfaulted⟩
  · have hmasked : (s.step.state.after before).cpu.ime = false := hcpu before hbefore ▸ hoff
    exact ⟨hmasked, undisturbed_of_masked hmasked⟩
  · obtain ⟨hfinished, hon, hdi⟩ := hended cycles hr
    rw [hi]
    exact ⟨hfinished, hon, fun h => Cpu.enableState_eq_off_iff.mp (hdi h)⟩

/-- `EI` in an address space of nothing but `EI`, and `HALT` behind it in one of nothing but `HALT`.
The interrupt registers overlap in both, but nothing is served before `HALT` has run. -/
theorem enabled_behind_ei_halt :
    ∃ first second : AddressSpace,
      let s : Core AddressSpace := ⟨{ registers := { pc := 0xC000 } }, first⟩
      let between : List (Move AddressSpace) := [.service, .change second, .service]
      let t := s.step.state.after between
      (∀ space ∈ [first, second], space.get Hardware.interruptFlags &&&
        space.get Hardware.interruptEnable &&& 0x1F ≠ 0) ∧
      Instruction.decode (Bus.read8 s.cpu.registers.pc s.bus).1 = .ei ∧
        Instruction.decode (Bus.read8 t.cpu.registers.pc t.bus).1 = .halt ∧
        t.serviceInterrupts.result = .ok 0 ∧
        ∃ cycles, t.step.result = .ok cycles ∧ t.step.state.cpu.ime = true := by
  obtain ⟨first, hfirst⟩ : ∃ space : AddressSpace, ∀ addr, space.get addr = 0xFB :=
    ⟨.ofFn fun _ => 0xFB, AddressSpace.get_ofFn _⟩
  obtain ⟨second, hsecond⟩ : ∃ space : AddressSpace, ∀ addr, space.get addr = 0x76 :=
    ⟨.ofFn fun _ => 0x76, AddressSpace.get_ofFn _⟩
  refine ⟨first, second, ?_⟩
  intro s between t
  have hoverlap : ∀ space ∈ [first, second], space.get Hardware.interruptFlags &&&
      space.get Hardware.interruptEnable &&& 0x1F ≠ 0 := by
    simp only [List.mem_cons, List.not_mem_nil, or_false, forall_eq_or_imp, forall_eq, hfirst,
      hsecond]
    decide
  have hei : Instruction.decode (Bus.read8 s.cpu.registers.pc s.bus).1 = .ei := by
    show Instruction.decode (first.get _) = _
    rw [hfirst]
    rfl
  have hbetween : .step ∉ between := by simp [between]
  obtain ⟨-, hquiet, -, hended, hfaulted⟩ :=
    enabled_behind_ei (s := s) rfl rfl rfl rfl hei hbetween
  -- the second service leaves the second address space as it is
  have hbus : t.bus = second :=
    (hquiet [.service, .change second] ⟨[.service], rfl⟩).2.bus.eq
  have hhalt : Instruction.decode (Bus.read8 t.cpu.registers.pc t.bus).1 = .halt := by
    rw [hbus]
    show Instruction.decode (second.get _) = _
    rw [hsecond]
    rfl
  refine ⟨hoverlap, hei, hhalt, (hquiet between (List.prefix_refl between)).2.result, ?_⟩
  cases hr : t.step.result with
  | ok cycles => exact ⟨cycles, rfl, (hended cycles hr).2.1 (by rw [hhalt]; simp)⟩
  | error fault =>
    obtain ⟨⟨opcode, hhole⟩, -⟩ := hfaulted fault hr
    rw [hhalt] at hhole
    cases hhole

end Core

end GameBoy
