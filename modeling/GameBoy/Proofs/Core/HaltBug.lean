import GameBoy.Proofs.Core.Nesting
import GameBoy.Proofs.Core.ProgramCounter
import Mathlib.Data.List.Induction

/-!
# The halt bug

`HALT` does not halt while interrupts are off and one is already requested and enabled. Instead the
next fetch leaves the program counter where it is, so the byte behind `HALT` is read twice: as the
opcode, and as whatever comes first behind the opcode.

That is the same as a program in which the byte stands twice, one address lower. If the two bytes
are equal there, a step under the halt bug and one without it from the lower address are the same in
result, processor and bus, whatever the instruction is (`Core.step_of_haltBug`). All that the halt
bug changes is the first fetch, and both steps come out of theirs in one state.

The address that a fault reports is the one below the program counter. So it is that of the hole,
unless the halt bug has kept the counter from moving past it; then it is one less. In a run from
power-on this happens right behind `HALT` only (`Core.fault_address`).
-/

namespace GameBoy

theorem Instruction.eq_of_decode_eq_hole {byte opcode : Byte} (h : decode byte = .hole opcode) :
    opcode = byte := by
  have key : ∀ byte, (match decode byte with
      | .hole opcode => opcode == byte
      | _ => true) = true := Byte.forall_of_fin (by decide +kernel)
  have hbyte := key byte
  rw [h] at hbyte
  exact eq_of_beq hbyte

namespace Core

variable {β : Type} [Bus β] {s t : Core β}

/-! ## Steps that fetch alike -/

theorem executeCurrent_of_fetch_eq (h : s.fetch = t.fetch) :
    s.executeCurrent = t.executeCurrent := by
  unfold executeCurrent immediate current
  rw [h]

theorem runInstruction_of_fetch_eq (h : s.fetch = t.fetch) :
    s.runInstruction.result = t.runInstruction.result ∧
      s.runInstruction.state = t.runInstruction.state := by
  have hexecute := executeCurrent_of_fetch_eq h
  cases hr : t.executeCurrent.result with
  | ok cycles =>
    rw [runInstruction_of_ok hr, runInstruction_of_ok (hexecute ▸ hr), hexecute]
    exact ⟨rfl, rfl⟩
  | error fault =>
    rw [runInstruction_of_error hr, runInstruction_of_error (hexecute ▸ hr), hexecute]
    exact ⟨rfl, rfl⟩

theorem report_of_not_tracing (h : s.cpu.tracing = false) : s.report = #[] := by
  have himmediate : s.immediate.2.cpu.tracing = false :=
    (congrArg Prod.snd (settings_immediate s)).trans h
  rw [report, if_neg (by simp [himmediate])]

/-! ## Holes -/

theorem executeCurrent_of_hole {opcode : Byte} (h : s.current = .hole opcode) :
    s.executeCurrent = s.ready.executeHole opcode := by
  rw [executeCurrent, immediate_eq (by rw [h]; simp), h]
  rfl

/-- What running a hole comes to. The address in its fault is the one below the program counter that
the fetch has left. -/
theorem result_of_hole {opcode : Byte} (h : s.current = .hole opcode) :
    s.executeCurrent.result = match s.cpu.policy with
      | .skip => .ok 0
      | .fault => .error (.unassignedOpcode opcode (s.cpu.registers.pc - s.lag)) := by
  have hnext : s.next - 1 = s.cpu.registers.pc - s.lag := by
    have hone : s.next = s.cpu.registers.pc + 1 - s.lag := by rw [next, h]; rfl
    rw [hone]
    grind
  rw [executeCurrent_of_hole h, ← hnext]
  unfold executeHole
  show (match s.cpu.policy with | .skip => _ | .fault => _ : Outcome (Core β) Nat).result = _
  cases s.cpu.policy <;> rfl

theorem step_of_hole (hhalted : s.cpu.halted = false) (hstopped : s.cpu.stopped = false)
    (hpolicy : s.cpu.policy = .fault) {opcode : Byte} (h : s.current = .hole opcode) :
    s.step.result = .error (.unassignedOpcode opcode (s.cpu.registers.pc - s.lag)) := by
  rw [step_of_running hhalted hstopped, result_runInstruction, result_of_hole h, hpolicy]

theorem of_step_error {fault : Fault} (h : s.step.result = .error fault) :
    ∃ s', s.awake? = some s' ∧ s.cpu.policy = .fault ∧ ∃ opcode, s'.current = .hole opcode ∧
      fault = .unassignedOpcode opcode (s.cpu.registers.pc - s.lag) := by
  cases ha : s.awake? with
  | none =>
    rw [(step_of_asleep ha).1] at h
    cases h
  | some s' =>
    obtain ⟨_, -, hstep⟩ := step_of_awake ha
    rw [hstep] at h
    replace h : s'.executeCurrent.result = .error fault := (result_runInstruction s').symm.trans h
    obtain ⟨opcode, hhole⟩ := hole_of_error h
    have hcpu := (of_awake ha).2.1
    have hlag : s'.lag = s.lag := by unfold lag; rw [hcpu]
    rw [result_of_hole hhole, hlag, hcpu] at h
    cases hpolicy : s.cpu.policy with
    | skip =>
      rw [hpolicy] at h
      cases h
    | fault =>
      rw [hpolicy] at h
      cases h
      exact ⟨s', rfl, rfl, opcode, hhole, rfl⟩

/-! ## The repeated byte -/

/-- A fetch under the halt bug is one from the address below without it, if the same byte is
there. -/
theorem fetch_of_haltBug (hbug : s.cpu.haltBug = true)
    (hread : Bus.read8 (s.cpu.registers.pc - 1) s.bus = Bus.read8 s.cpu.registers.pc s.bus) :
    s.fetch = (s.past (s.cpu.registers.pc - 1) s.bus).fetch := by
  have hlag : s.lag = 1 := if_pos hbug
  have hup : s.cpu.registers.pc + 1 - 1 = s.cpu.registers.pc := UInt16.add_sub_cancel _ 1
  have hdown : s.cpu.registers.pc - 1 + 1 = s.cpu.registers.pc := UInt16.sub_add_cancel _ 1
  rw [fetch_eq, fetch_past, hlag, hread, hup, hdown]

/-- **The halt bug as a repeated byte.** Under the halt bug, and with the same byte at the program
counter and below it, a step gives the same result or fault and leaves the same processor and bus as
from the address below without the bug. What is reported is the same too, but for the address in
the record of an instruction. -/
theorem step_of_haltBug [QuietBus β] (hhalted : s.cpu.halted = false)
    (hstopped : s.cpu.stopped = false) (hbug : s.cpu.haltBug = true)
    (hbytes : Bus.peek (s.cpu.registers.pc - 1) s.bus = Bus.peek s.cpu.registers.pc s.bus) :
    let below : Core β :=
      ⟨{ s.cpu with
          registers := { s.cpu.registers with pc := s.cpu.registers.pc - 1 }
          haltBug := false }, s.bus⟩
    s.step.result = below.step.result ∧ s.step.state = below.step.state ∧
      (s.cpu.tracing = false → s.step.events = below.step.events) := by
  intro below
  have hread : Bus.read8 (s.cpu.registers.pc - 1) s.bus = Bus.read8 s.cpu.registers.pc s.bus :=
    Prod.ext hbytes ((QuietBus.read8_snd _ _).trans (QuietBus.read8_snd _ _).symm)
  have hfetch : s.fetch = below.fetch := fetch_of_haltBug hbug hread
  obtain ⟨hresult, hstate⟩ := runInstruction_of_fetch_eq hfetch
  rw [step_of_running hhalted hstopped, step_of_running (s := below) hhalted hstopped]
  refine ⟨hresult, hstate, fun htracing => ?_⟩
  rw [events_runInstruction, events_runInstruction, executeCurrent_of_fetch_eq hfetch,
    report_of_not_tracing htracing, report_of_not_tracing (s := below) htracing]

/-- A hole at both ends of the address space: under the halt bug at address zero, the fault reports
the last address, as it does without the bug from there. -/
theorem step_of_haltBug_at_hole :
    ∃ space : AddressSpace,
      let s : Core AddressSpace :=
        ⟨{ registers := { pc := 0 }, haltBug := true, policy := .fault }, space⟩
      let below : Core AddressSpace :=
        ⟨{ registers := { pc := 0xFFFF }, policy := .fault }, space⟩
      Bus.peek 0xFFFF s.bus = Bus.peek 0 s.bus ∧
        s.step.result = .error (.unassignedOpcode 0xFD 0xFFFF) ∧
        s.step.result = below.step.result ∧ s.step.state = below.step.state := by
  obtain ⟨space, hread⟩ : ∃ space : AddressSpace, ∀ addr, space.get addr = 0xFD :=
    ⟨.ofFn fun _ => 0xFD, AddressSpace.get_ofFn _⟩
  refine ⟨space, ?_⟩
  intro s below
  have hbytes : ∀ addr addr' : Word, Bus.peek addr space = Bus.peek addr' space :=
    fun addr addr' => (hread addr).trans (hread addr').symm
  have hlast : (0 : Word) - 1 = 0xFFFF := by decide
  have hhole : s.current = .hole 0xFD := current_of_byte (hread 0) rfl
  have hresult := step_of_hole rfl rfl rfl hhole
  obtain ⟨hsame, hstate, -⟩ := step_of_haltBug (s := s) rfl rfl rfl (hbytes _ _)
  have hbelow : (⟨{ registers := { pc := 0 - 1 }, policy := .fault }, space⟩ : Core AddressSpace) =
      below := by
    rw [hlast]
  exact ⟨hbytes _ _, hresult, hbelow ▸ hsame, hbelow ▸ hstate⟩

/-! ## The address of a fault -/

/-- `HALT` does not halt while interrupts are off and one is requested and enabled. -/
theorem halt_of_requested (hime : s.cpu.ime = false)
    (hrequested : s.pending &&& s.enabled &&& Interrupt.all ≠ 0) :
    s.halt = ⟨{ s.cpu with haltBug := true }, s.attentive.bus⟩ := by
  have hguard : (!s.cpu.ime && s.pending &&& s.enabled &&& Interrupt.all != 0) = true := by
    simpa [hime] using hrequested
  exact if_pos hguard

/-- What is left of the halt bug after a step: `HALT` brings it about, and a core that only idles
keeps it. -/
theorem of_haltBug_step (h : s.step.state.cpu.haltBug = true) :
    s.finished? = some .halt ∨ s.finished? = none ∧ s.cpu.haltBug = true := by
  cases ha : s.awake? with
  | none =>
    rw [(step_of_asleep ha).2.1] at h
    exact .inr ⟨by rw [finished?, ha]; rfl, h⟩
  | some s' =>
    obtain ⟨_, -, hstep⟩ := step_of_awake ha
    rw [hstep] at h
    replace h := (of_runInstruction s').2.1.symm.trans h
    by_cases hi : s'.current = .halt
    · have hresult : s'.executeCurrent.result = .ok 1 := by
        rw [executeCurrent, hi]
        rfl
      exact .inl ((finished?_of_ok ha hresult).trans (congrArg some hi))
    · -- any other instruction leaves the flag as the fetch has left it
      rw [haltBug_effect hi] at h
      cases h

theorem of_haltBug_move {m : Move β} (h : (s.move m).cpu.haltBug = true) :
    s.ran? m = some .halt ∨ s.ran? m = none ∧ s.cpu.haltBug = true := by
  cases m with
  | step => exact of_haltBug_step h
  | change bus => exact .inr ⟨rfl, h⟩
  | service =>
    refine .inr ⟨rfl, ?_⟩
    replace h : s.serviceInterrupts.state.cpu.haltBug = true := h
    rcases serviceInterrupts_cases s with ⟨s', rfl | rfl, ho⟩ | ⟨-, ⟨source, ho⟩ | ho⟩
    · rwa [ho] at h
    · rwa [ho] at h
    · rw [ho] at h
      cases h
    · rwa [ho] at h

/-- In a run that does not start under the halt bug, the last instruction before it is `HALT`. -/
theorem getLast?_ran_of_haltBug {ms : List (Move β)} (hs : s.cpu.haltBug = false)
    (h : (s.after ms).cpu.haltBug = true) : (s.ran ms).getLast? = some .halt := by
  induction ms using List.reverseRecOn with
  | nil => exact absurd h (by rw [after, hs]; simp)
  | append_singleton ms m ih =>
    rw [after_append] at h
    rw [ran_append]
    show (s.ran ms ++ (((s.after ms).ran? m).toList ++ [])).getLast? = _
    rcases of_haltBug_move h with hran | ⟨hran, hbug⟩
    · rw [hran]
      simp
    · rw [hran]
      simpa using ih hbug

/-- **The address of a fault.** When a step in a run from power-on faults at an opcode, that is the
byte at the program counter. The address in the fault is the program counter, unless the halt bug
is pending; then it is one less, and the last instruction was `HALT`. -/
theorem fault_address (policy : HolePolicy) (tracing : Bool) (bus : β) (ms : List (Move β))
    {opcode : Byte} {pc : Word} :
    let start := powerOn policy tracing bus
    let s := start.after ms
    s.step.result = .error (.unassignedOpcode opcode pc) →
      (∃ s', s.awake? = some s' ∧ opcode = (Bus.read8 s.cpu.registers.pc s'.bus).1) ∧
      (s.cpu.haltBug = false → pc = s.cpu.registers.pc) ∧
      (s.cpu.haltBug = true →
        pc = s.cpu.registers.pc - 1 ∧ (start.ran ms).getLast? = some .halt) := by
  intro start s h
  obtain ⟨s', hawake, -, opcode', hhole, hfault⟩ := of_step_error h
  obtain ⟨rfl, rfl⟩ : opcode = opcode' ∧ pc = s.cpu.registers.pc - s.lag := by
    cases hfault
    exact ⟨rfl, rfl⟩
  have hpc : s'.cpu.registers.pc = s.cpu.registers.pc := by rw [(of_awake hawake).2.1]
  refine ⟨⟨s', hawake, ?_⟩, fun hbug => ?_, fun hbug => ⟨?_, ?_⟩⟩
  · rw [current_eq, hpc] at hhole
    exact Instruction.eq_of_decode_eq_hole hhole
  · rw [show s.lag = 0 from if_neg (by simp [hbug])]
    exact UInt16.sub_zero _
  · rw [show s.lag = 1 from if_pos hbug]
  · exact getLast?_ran_of_haltBug (s := start) rfl hbug

theorem exists_hole_behind (first : Byte) :
    ∃ space : AddressSpace, space.get 0x0100 = first ∧ space.get 0x0101 = 0xFD ∧
      space.get Hardware.interruptFlags = 0x01 ∧ space.get Hardware.interruptEnable = 0x01 := by
  refine ⟨.ofFn fun addr =>
    if addr = 0x0100 then first else if addr = 0x0101 then 0xFD else 0x01, ?_, ?_, ?_, ?_⟩ <;>
    rw [AddressSpace.get_ofFn]
  · exact if_pos rfl
  · exact (if_neg (by decide)).trans (if_pos rfl)
  · exact (if_neg (by decide)).trans (if_neg (by decide))
  · exact (if_neg (by decide)).trans (if_neg (by decide))

/-- Behind an idle instruction, the fault reports where the hole is. -/
theorem fault_address_behind_nop :
    ∃ space : AddressSpace,
      let s := (powerOn .fault false space).after [.step]
      s.cpu.haltBug = false ∧ s.step.result = .error (.unassignedOpcode 0xFD 0x0101) ∧
        (0x0101 : Word) = s.cpu.registers.pc := by
  obtain ⟨space, hfirst, hsecond, -, -⟩ := exists_hole_behind 0x00
  refine ⟨space, ?_⟩
  intro s
  have hnop : (powerOn .fault false space).current = .nop := current_of_byte hfirst rfl
  have hs : s = ⟨{ registers := { Cpu.powerOnRegisters with pc := 0x0101 }, policy := .fault },
      space⟩ := by
    show (powerOn .fault false space).step.state = _
    rw [(step_of_brief rfl rfl hnop rfl fun _ => rfl).2]
    rfl
  have hbug : s.cpu.haltBug = false := by rw [hs]
  have hpc : s.cpu.registers.pc = 0x0101 := by rw [hs]
  have hhole : s.current = .hole 0xFD := by
    rw [hs]
    exact current_of_byte hsecond rfl
  have hfault : s.step.result = .error (.unassignedOpcode 0xFD 0x0101) := by
    have hlag : s.lag = 0 := if_neg (by simp [hbug])
    rw [step_of_hole (by rw [hs]) (by rw [hs]) (by rw [hs]) hhole, hpc, hlag, UInt16.sub_zero]
  exact ⟨hbug, hfault, (fault_address .fault false space [.step] hfault).2.1 hbug⟩

/-- Behind a `HALT` that does not halt, the fault reports the address of `HALT`. -/
theorem fault_address_behind_halt :
    ∃ space : AddressSpace,
      let s := (powerOn .fault false space).after [.step]
      s.cpu.registers.pc = 0x0101 ∧ space.get 0x0100 = 0x76 ∧ space.get 0x0101 = 0xFD ∧
        s.step.result = .error (.unassignedOpcode 0xFD 0x0100) := by
  obtain ⟨space, hfirst, hsecond, hflags, henable⟩ := exists_hole_behind 0x76
  refine ⟨space, ?_⟩
  intro s
  have hhalt : (powerOn .fault false space).current = .halt := current_of_byte hfirst rfl
  have hrequested : space.get Hardware.interruptFlags &&& space.get Hardware.interruptEnable &&&
      Interrupt.all ≠ 0 := by
    rw [hflags, henable]
    decide
  have hs : s =
      ⟨{ registers := { Cpu.powerOnRegisters with pc := 0x0101 }
         haltBug := true
         policy := .fault }, space⟩ := by
    show (powerOn .fault false space).step.state = _
    rw [(step_of_brief rfl rfl hhalt rfl fun _ => rfl).2]
    show (⟨((powerOn .fault false space).fetch.2.halt).cpu.advanceEnable,
      ((powerOn .fault false space).fetch.2.halt).bus⟩ : Core _) = _
    rw [halt_of_requested (s := (powerOn .fault false space).fetch.2) rfl hrequested]
    rfl
  have hpc : s.cpu.registers.pc = 0x0101 := by rw [hs]
  have hlag : s.lag = 1 := if_pos (by rw [hs])
  have hhole : s.current = .hole 0xFD := by
    rw [hs]
    exact current_of_byte hsecond rfl
  have hbelow : (0x0101 : Word) - 1 = 0x0100 := by decide
  refine ⟨hpc, hfirst, hsecond, ?_⟩
  rw [step_of_hole (by rw [hs]) (by rw [hs]) (by rw [hs]) hhole, hpc, hlag, hbelow]

end Core

end GameBoy
