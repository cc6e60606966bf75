import GameBoy.Proofs.Core.Code
import GameBoy.Proofs.Core.Traffic

/-!
# The regular opcodes run as their fields say

A step of a regular opcode is a run of the opcode by its bit fields (`Code.run`), whatever the bus
is and under the halt bug too. The effects of the instructions are compared with the fields first
(`Core.apply_decode`, `Core.applyExtended_decode`), then the fetches before them. The interpreter
runs on every bus, so that on a bus with a recorder it also says which accesses a step makes.

Main theorem: `Core.step_eq_run`.
-/

namespace GameBoy

namespace Core

variable {β : Type} [Bus β]

/-! ## Effects -/

/-- The core with other registers and another bus. -/
def acted (s : Core β) (after : Registers × β) : Core β :=
  ⟨{ s.cpu with registers := after.1 }, after.2⟩

theorem readPlace_ofNumber (n : Fin 8) (s : Core β) :
    s.readPlace (.ofNumber n) =
      ((Code.load n s.cpu.registers s.bus).1,
        ⟨s.cpu, (Code.load n s.cpu.registers s.bus).2⟩) := by
  match n with
  | 0 | 1 | 2 | 3 | 4 | 5 | 6 | 7 => rfl

theorem writePlace_ofNumber (n : Fin 8) (v : Byte) (s : Core β) :
    s.writePlace (.ofNumber n) v =
      s.acted (Code.store n s.cpu.registers.hl v s.cpu.registers s.bus) := by
  match n with
  | 0 | 1 | 2 | 3 | 4 | 5 | 6 | 7 => rfl

theorem combine_ofNumber (op : Registers → Byte → Registers) (n : Fin 8) (s : Core β) :
    s.combine op (.ofNumber n) =
      s.acted (op s.cpu.registers (Code.load n s.cpu.registers s.bus).1,
        (Code.load n s.cpu.registers s.bus).2) := by
  rw [combine, readPlace_ofNumber]
  rfl

/-- An operation that leaves `HL` alone is stored at the address that was there before. -/
theorem update_ofNumber {op : Registers → Byte → Byte × Registers}
    (hop : ∀ r v, (op r v).2.hl = r.hl) (n : Fin 8) (s : Core β) :
    s.update op (.ofNumber n) =
      s.acted (Code.store n s.cpu.registers.hl
        (op s.cpu.registers (Code.load n s.cpu.registers s.bus).1).1
        (op s.cpu.registers (Code.load n s.cpu.registers s.bus).1).2
        (Code.load n s.cpu.registers s.bus).2) := by
  rw [update, readPlace_ofNumber]
  dsimp only
  rw [writePlace_ofNumber]
  show acted _ (Code.store n (op s.cpu.registers _).2.hl _ _ _) = _
  rw [hop]
  rfl

/-- Behind its opcode byte, a regular opcode of the first map runs as its fields say. -/
theorem apply_decode {opcode : Byte} (h : Code.Plain opcode)
    (s : Core β) :
    s.apply (Instruction.decode opcode) .none =
      s.acted (Code.run ⟨false, opcode⟩ s.cpu.registers s.bus) := by
  rw [Code.decode_eq opcode h]
  by_cases hblock : Code.block ⟨false, opcode⟩ = 1
  · rw [if_pos hblock]
    show (s.readPlace _).2.writePlace _ (s.readPlace _).1 = _
    rw [readPlace_ofNumber, writePlace_ofNumber]
    simp only [Code.run, Code.compute, Code.destination, hblock]
    rfl
  · rw [if_neg hblock]
    show s.combine _ _ = _
    rw [combine_ofNumber, Code.apply_aluOp]
    simp only [Code.run, Code.compute, Code.destination]

/-- Every opcode behind the prefix runs as its fields say. -/
theorem applyExtended_decode (opcode : Byte) (s : Core β) :
    s.applyExtended (Extended.decode opcode) =
      s.acted (Code.run ⟨true, opcode⟩ s.cpu.registers s.bus) := by
  have hhl (op : ShiftOp) (r : Registers) (v : Byte) : (op.apply r v).2.hl = r.hl := rfl
  match hblock : Code.block ⟨true, opcode⟩ with
  | 0 =>
    simp only [Code.decode_extended_eq, hblock, applyExtended, Code.run, Code.compute,
      Code.destination, update_ofNumber (hhl _), Code.apply_shiftOp]
  | 1 =>
    simp only [Code.decode_extended_eq, hblock, applyExtended, Code.run, Code.compute,
      Code.destination, combine_ofNumber, Code.testBit_eq]
  | 2 | 3 =>
    simp only [Code.decode_extended_eq, hblock, applyExtended, Code.run, Code.compute,
      Code.destination, Code.setBit_eq]
    rw [update_ofNumber]
    intro r v
    rfl

end Core

/-! ## Fetching -/

/-- An opcode that has been fetched with its prefix, the core that has done so, and what it read. -/
structure Fetched (β : Type) where
  code : Code
  core : Core β
  accesses : List Access

namespace Core

variable {β : Type} [Bus β] {s : Core β}

/-- Fetch an opcode, and under the prefix the byte behind it. -/
def fetched (s : Core β) : Fetched β :=
  let pc := s.cpu.registers.pc
  let next := pc + 1 - s.lag
  let (first, bus) := Bus.read8 pc s.bus
  if first = 0xCB then
    let (second, bus) := Bus.read8 next bus
    ⟨⟨true, second⟩, s.past (next + 1) bus, [.read pc first, .read next second]⟩
  else ⟨⟨false, first⟩, s.past next bus, [.read pc first]⟩

theorem fetched_extended (h : (Bus.read8 s.cpu.registers.pc s.bus).1 = 0xCB) :
    s.fetched =
      let next := s.cpu.registers.pc + 1 - s.lag
      let second := Bus.read8 next (Bus.read8 s.cpu.registers.pc s.bus).2
      ⟨⟨true, second.1⟩, s.past (next + 1) second.2,
        [.read s.cpu.registers.pc (Bus.read8 s.cpu.registers.pc s.bus).1,
          .read next second.1]⟩ := if_pos h

theorem fetched_plain (h : (Bus.read8 s.cpu.registers.pc s.bus).1 ≠ 0xCB) :
    s.fetched =
      let first := Bus.read8 s.cpu.registers.pc s.bus
      ⟨⟨false, first.1⟩, s.past (s.cpu.registers.pc + 1 - s.lag) first.2,
        [.read s.cpu.registers.pc first.1]⟩ := if_neg h

end Core

namespace Fetched

variable {β : Type} [Bus β] (f : Fetched β)

/-- The core in which the opcode has run. -/
def ran : Core β := f.core.acted (f.code.run f.core.cpu.registers f.core.bus)

/-- The core when the opcode is over, and a scheduled enable has moved on. -/
def finish : Core β := ⟨f.ran.cpu.advanceEnable, f.ran.bus⟩

theorem registers_finish :
    f.finish.cpu.registers = (f.code.run f.core.cpu.registers f.core.bus).1 :=
  Cpu.registers_advanceEnable _

end Fetched

namespace Core

variable {β : Type} [Bus β] {s : Core β}

/-- The first byte of a regular opcode stands for an instruction without an immediate, whose cost is
its accesses. -/
theorem regular_first (first : Byte)
    (h : first = 0xCB ∨ Code.Plain first) :
    first ∉ Instruction.holes ∧ first ≠ 0x10 ∧ first ≠ 0x76 ∧
      (Instruction.decode first).operand = .none ∧
      ∀ taken, (Instruction.decode first).internalCycles taken = 0 := by
  revert first
  exact Byte.forall_of_fin (by decide +kernel)

/-- The two ways in which an opcode is fetched. -/
theorem fetched_cases (h : s.fetched.code.Regular) :
    let first := (Bus.read8 s.cpu.registers.pc s.bus).1
    (first = 0xCB ∧ s.fetched.code = ⟨true, s.fetch.2.fetch.1⟩ ∧
        s.fetched.core = s.fetch.2.fetch.2) ∨
      (Code.Plain first ∧ s.fetched.code = ⟨false, first⟩ ∧
        s.fetched.core = s.fetch.2) := by
  intro first
  rw [fetch_eq s, fetch_past]
  by_cases hfirst : first = 0xCB
  · rw [fetched_extended hfirst]
    exact .inl ⟨hfirst, rfl, rfl⟩
  · rw [fetched_plain hfirst] at h ⊢
    exact .inr ⟨h.resolve_left (by simp), rfl, rfl⟩

/-- What an opcode of a regular block does is what its fields say. -/
theorem state_executeCurrent_of_regular (h : s.fetched.code.Regular) :
    s.executeCurrent.state = s.fetched.ran := by
  have hcurrent := current_eq s
  unfold Fetched.ran
  rcases fetched_cases h with ⟨hfirst, hcode, hcore⟩ | ⟨hfirst, hcode, hcore⟩
  · rw [hcode, hcore, ← applyExtended_decode]
    have hprefixed : s.current = .prefixed := by
      rw [hcurrent, hfirst]
      rfl
    rw [executeCurrent, immediate, hprefixed, execute_prefixed]
    rfl
  · obtain ⟨-, -, -, hoperand, -⟩ := regular_first _ (.inr hfirst)
    rw [hcode, hcore, ← apply_decode hfirst, ← hcurrent]
    rw [← hcurrent] at hoperand
    rw [executeCurrent, immediate, hoperand,
      state_execute (hcurrent ▸ Code.decode_ne_prefixed hfirst)]
    rfl

/-- A step costs one cycle for each access, and ends as the fields say. -/
theorem step_of_regular (hhalted : s.cpu.halted = false) (hstopped : s.cpu.stopped = false)
    (h : s.fetched.code.Regular) :
    s.step.result = .ok s.stepAccesses.size ∧ s.step.state = s.fetched.finish := by
  have hfirst : (Bus.read8 s.cpu.registers.pc s.bus).1 = 0xCB ∨ _ :=
    (fetched_cases h).imp And.left And.left
  obtain ⟨hassigned, hstop, hhalt, -, hinternal⟩ := regular_first _ hfirst
  have hresult : s.step.result = .ok s.stepAccesses.size := by
    rw [cost_step_eq_traffic hhalted hstopped rfl hassigned hstop hhalt rfl, hinternal]
    rfl
  refine ⟨hresult, ?_⟩
  rw [step_of_running hhalted hstopped, result_runInstruction] at hresult
  rw [step_of_running hhalted hstopped, runInstruction_of_ok hresult,
    state_executeCurrent_of_regular h]
  rfl

/-! ## A step -/

theorem core_fetched (s : Core β) :
    s.fetched.core = s.past
      (if s.fetched.code.extended then s.cpu.registers.pc + 1 - s.lag + 1
        else s.cpu.registers.pc + 1 - s.lag) s.fetched.core.bus := by
  unfold fetched
  dsimp only
  split <;> rfl

theorem registers_fetched (s : Core β) :
    s.fetched.core.cpu.registers =
      { s.cpu.registers with pc := s.fetched.core.cpu.registers.pc } := by
  rw [core_fetched]
  rfl

theorem fetched_traced (s : Core β) :
    s.traced.fetched = ⟨s.fetched.code,
      ⟨s.fetched.core.cpu, ⟨s.fetched.core.bus, s.fetched.accesses.toArray⟩⟩,
      s.fetched.accesses⟩ := by
  by_cases hfirst : (Bus.read8 s.cpu.registers.pc s.bus).1 = 0xCB
  · rw [fetched_extended hfirst, fetched_extended (s := s.traced) hfirst]
    rfl
  · rw [fetched_plain hfirst, fetched_plain (s := s.traced) hfirst]
    rfl

/-- A step reads the encoding, and then makes the accesses that the fields say. -/
theorem stepAccesses_of_regular (hhalted : s.cpu.halted = false) (hstopped : s.cpu.stopped = false)
    (h : s.fetched.code.Regular) :
    s.stepAccesses.toList =
      s.fetched.accesses ++ s.fetched.code.accesses s.cpu.registers s.fetched.core.bus := by
  have htraced := fetched_traced s
  have hstep := (step_of_regular (s := s.traced) hhalted hstopped (by rw [htraced]; exact h)).2
  rw [stepAccesses, hstep, htraced, ← s.fetched.code.accesses_setPc _
    s.fetched.core.cpu.registers.pc, ← registers_fetched]
  exact s.fetched.code.accesses_run _ _

/-- The same processor with a register as the operand that holds the byte which is read at `HL`. -/
theorem step_withOperand {t : Core β} {k : Fin 8} (hhalted : s.cpu.halted = false)
    (hstopped : s.cpu.stopped = false) (hregular : s.fetched.code.Regular)
    (hz : s.fetched.code.z = 6) (hcpu : t.cpu = s.cpu)
    (hcode : t.fetched.code = s.fetched.code.withOperand k)
    (hk : s.cpu.registers.numbered k =
      some (Bus.read8 s.cpu.registers.hl s.fetched.core.bus).1) :
    t.step.state.cpu.registers.f = s.step.state.cpu.registers.f ∧
      (s.fetched.code.destination ≠ some 6 →
        t.step.state.cpu.registers = s.step.state.cpu.registers) ∧
      (s.fetched.code.destination = some 6 →
        ∃ v, .write s.cpu.registers.hl v ∈ s.stepAccesses.toList ∧
          t.step.state.cpu.registers.numbered k = some v) := by
  have hk6 : k ≠ 6 := fun h6 => by simp [(Registers.numbered_eq_none_iff _ k).mpr h6] at hk
  have ht : t.fetched.core.cpu = s.fetched.core.cpu := by
    rw [core_fetched t, core_fetched s, hcode]
    simp only [past, lag, hcpu, Code.withOperand]
  have hstate := (step_of_regular hhalted hstopped hregular).2
  have hstate' := (step_of_regular (s := t) (hcpu ▸ hhalted) (hcpu ▸ hstopped)
    (hcode ▸ hregular.withOperand hk6)).2
  obtain ⟨hflags, hsame, hback⟩ := Code.run_withOperand hregular hz
    (r := s.fetched.core.cpu.registers) s.fetched.core.bus t.fetched.core.bus
    (by rw [registers_fetched]; exact hk)
  rw [hstate, hstate', Fetched.registers_finish, Fetched.registers_finish, hcode, ht]
  refine ⟨hflags, hsame, fun hd => ?_⟩
  obtain ⟨v, hv, hk'⟩ := hback hd
  refine ⟨v, ?_, hk'⟩
  rw [registers_fetched, Code.accesses_setPc] at hv
  rw [stepAccesses_of_regular hhalted hstopped hregular]
  exact List.mem_append_right _ hv

/-- **The regular opcodes.** A step of an opcode in block 1 or 2, other than `HALT`, or behind the
prefix does what the fields of the opcode say, at a cost of one cycle for each access. It accesses
the bytes of its encoding, then a source in memory once, then a destination in memory once, at the
address that was in `HL` before. A register in place of the byte at `HL`, if it holds the same byte,
gives the same result and the same flags. -/
theorem step_eq_run (hhalted : s.cpu.halted = false) (hstopped : s.cpu.stopped = false)
    (hregular : s.fetched.code.Regular) :
    s.step.result = .ok s.stepAccesses.size ∧ s.step.state = s.fetched.finish ∧
      s.stepAccesses.toList =
        s.fetched.accesses ++ s.fetched.code.accesses s.cpu.registers s.fetched.core.bus ∧
      ∀ (t : Core β) (k : Fin 8), s.fetched.code.z = 6 → t.cpu = s.cpu →
        t.fetched.code = s.fetched.code.withOperand k →
        s.cpu.registers.numbered k = some (Bus.read8 s.cpu.registers.hl s.fetched.core.bus).1 →
        t.step.state.cpu.registers.f = s.step.state.cpu.registers.f ∧
          (s.fetched.code.destination ≠ some 6 →
            t.step.state.cpu.registers = s.step.state.cpu.registers) ∧
          (s.fetched.code.destination = some 6 →
            ∃ v, .write s.cpu.registers.hl v ∈ s.stepAccesses.toList ∧
              t.step.state.cpu.registers.numbered k = some v) := by
  obtain ⟨hresult, hstate⟩ := step_of_regular hhalted hstopped hregular
  exact ⟨hresult, hstate, stepAccesses_of_regular hhalted hstopped hregular,
    fun t k hz hcpu hcode hk => step_withOperand hhalted hstopped hregular hz hcpu hcode hk⟩

/-! ### In a flat memory -/

theorem fetched_flat {s : Core AddressSpace} {opcode : Byte}
    (hopcode : s.bus.get s.cpu.registers.pc = opcode) (hplain : opcode ≠ 0xCB)
    (hbug : s.cpu.haltBug = false) :
    s.fetched.code = ⟨false, opcode⟩ ∧
      s.fetched.core = s.past (s.cpu.registers.pc + 1) s.bus ∧
      s.fetched.accesses = [.read s.cpu.registers.pc opcode] := by
  subst hopcode
  rw [fetched_plain hplain, lag_eq_zero hbug, UInt16.sub_zero]
  exact ⟨rfl, rfl, rfl⟩

theorem fetched_flat_prefixed {s : Core AddressSpace} {opcode : Byte}
    (hfirst : s.bus.get s.cpu.registers.pc = 0xCB)
    (hopcode : s.bus.get (s.cpu.registers.pc + 1) = opcode) (hbug : s.cpu.haltBug = false) :
    s.fetched.code = ⟨true, opcode⟩ ∧
      s.fetched.core = s.past (s.cpu.registers.pc + 1 + 1) s.bus ∧
      s.fetched.accesses =
        [.read s.cpu.registers.pc 0xCB, .read (s.cpu.registers.pc + 1) opcode] := by
  subst hopcode
  rw [fetched_extended hfirst, lag_eq_zero hbug, UInt16.sub_zero, ← hfirst]
  exact ⟨rfl, rfl, rfl⟩

/-- `RL (HL)` and `RL B` where both operands are `81` and the carry is set, and then `ADC A, (HL)`
and `ADC A, B` where both operands are `FF`: the carry makes the operand zero, and is lost. -/
theorem step_eq_run_rotate_and_add :
    (∃ s t : Core AddressSpace, s.cpu = t.cpu ∧ s.fetched.code = ⟨true, 0x16⟩ ∧
      t.fetched.code = ⟨true, 0x10⟩ ∧ s.step.result = .ok 4 ∧
      s.stepAccesses.toList =
        [.read 0xC000 0xCB, .read 0xC001 0x16, .read 0xD000 0x81, .write 0xD000 0x03] ∧
      t.step.state.cpu.registers.numbered 0 = some 0x03 ∧
      t.step.state.cpu.registers.f = s.step.state.cpu.registers.f) ∧
    ∃ s t : Core AddressSpace, s.cpu = t.cpu ∧ s.fetched.code = ⟨false, 0x8E⟩ ∧
      t.fetched.code = ⟨false, 0x88⟩ ∧ s.step.result = .ok 2 ∧
      s.stepAccesses.toList = [.read 0xC000 0x8E, .read 0xD000 0xFF] ∧
      s.step.state.cpu.registers =
        { a := 0x12, b := 0xFF, f := 0x00, h := 0xD0, pc := 0xC001 } ∧
      t.step.state.cpu.registers = s.step.state.cpu.registers := by
  obtain ⟨bus, hbus⟩ : ∃ bus : Byte → Byte → Byte → AddressSpace, ∀ first second operand,
      (bus first second operand).get 0xC000 = first ∧
        (bus first second operand).get 0xC001 = second ∧
        (bus first second operand).get 0xD000 = operand :=
    ⟨fun first second operand =>
      ((AddressSpace.zero.set 0xC000 first).set 0xC001 second).set 0xD000 operand,
      fun first second operand => by simp [AddressSpace.get_set]⟩
  refine ⟨?rotate, ?add⟩
  case rotate =>
    let cpu : Cpu := { registers := { pc := 0xC000, h := 0xD0, b := 0x81, f := 0x10 } }
    let core (opcode : Byte) : Core AddressSpace := ⟨cpu, bus 0xCB opcode 0x81⟩
    have hfetched (opcode : Byte) := fetched_flat_prefixed (s := core opcode)
      (hbus 0xCB opcode 0x81).1 (hbus 0xCB opcode 0x81).2.1 rfl
    have hhl : cpu.registers.hl = 0xD000 := by decide
    have hsource : (Bus.read8 cpu.registers.hl (core 0x16).bus).1 = 0x81 := by
      rw [hhl]
      exact (hbus 0xCB 0x16 0x81).2.2
    obtain ⟨hcode, hcore, hencoding⟩ := hfetched 0x16
    obtain ⟨hcode', -, -⟩ := hfetched 0x10
    obtain ⟨hresult, -, haccesses, hregister⟩ := step_eq_run (s := core 0x16) rfl rfl
      (by rw [hcode]; exact .inl rfl)
    obtain ⟨hflags, -, hback⟩ := hregister (core 0x10) 0 (by rw [hcode]; decide) rfl
      (by rw [hcode, hcode']; decide) (by rw [hcore, past, hsource]; rfl)
    have hlist : (core 0x16).stepAccesses.toList =
        [.read 0xC000 0xCB, .read 0xC001 0x16, .read 0xD000 0x81, .write 0xD000 0x03] := by
      have hread : (Code.load (Code.z ⟨true, 0x16⟩) cpu.registers (core 0x16).bus).1 = 0x81 :=
        hsource
      have hwritten : (Code.compute ⟨true, 0x16⟩ cpu.registers 0x81).1 = 0x03 := by decide +kernel
      rw [haccesses, hencoding, hcode, hcore]
      simp only [Code.accesses, past]
      rw [if_pos (by decide), if_pos (by decide), hread, hwritten, hhl]
      rfl
    obtain ⟨v, hv, hstored⟩ := hback (by rw [hcode]; decide)
    refine ⟨core 0x16, core 0x10, rfl, hcode, hcode', ?_, hlist, ?_, hflags⟩
    · rw [hresult, ← Array.length_toList, hlist]
      rfl
    · rw [hlist] at hv
      obtain ⟨-, rfl⟩ : cpu.registers.hl = 0xD000 ∧ v = 0x03 := by simpa using hv
      exact hstored
  case add =>
    let cpu : Cpu := { registers := { pc := 0xC000, h := 0xD0, a := 0x12, b := 0xFF, f := 0x10 } }
    let core (opcode : Byte) : Core AddressSpace := ⟨cpu, bus opcode 0 0xFF⟩
    have hfetched (opcode : Byte) (hplain : opcode ≠ 0xCB) :=
      fetched_flat (s := core opcode) (hbus opcode 0 0xFF).1 hplain rfl
    have hhl : cpu.registers.hl = 0xD000 := by decide
    have hsource : (Bus.read8 cpu.registers.hl (core 0x8E).bus).1 = 0xFF := by
      rw [hhl]
      exact (hbus 0x8E 0 0xFF).2.2
    obtain ⟨hcode, hcore, hencoding⟩ := hfetched 0x8E (by decide)
    obtain ⟨hcode', -, -⟩ := hfetched 0x88 (by decide)
    obtain ⟨hresult, hstate, haccesses, hregister⟩ := step_eq_run (s := core 0x8E) rfl rfl
      (by rw [hcode]; exact .inr (by decide))
    obtain ⟨-, hsame, -⟩ := hregister (core 0x88) 0 (by rw [hcode]; decide) rfl
      (by rw [hcode, hcode']; decide) (by rw [hcore, past, hsource]; rfl)
    have hlist : (core 0x8E).stepAccesses.toList = [.read 0xC000 0x8E, .read 0xD000 0xFF] := by
      have hread : (Code.load (Code.z ⟨false, 0x8E⟩) cpu.registers (core 0x8E).bus).1 = 0xFF :=
        hsource
      rw [haccesses, hencoding, hcode, hcore]
      simp only [Code.accesses, past]
      rw [if_pos (by decide), if_neg (by decide), hread, hhl]
      rfl
    refine ⟨core 0x8E, core 0x88, rfl, hcode, hcode', ?_, hlist, ?_, hsame (by rw [hcode]; decide)⟩
    · rw [hresult, ← Array.length_toList, hlist]
      rfl
    · have hread : (Code.load (Code.z ⟨false, 0x8E⟩) { cpu.registers with pc := 0xC001 }
          (core 0x8E).bus) = (0xFF, (core 0x8E).bus) := Prod.ext hsource rfl
      rw [hstate, Fetched.registers_finish, hcode, hcore]
      show (Code.run _ { cpu.registers with pc := 0xC001 } (core 0x8E).bus).1 = _
      unfold Code.run
      rw [hread]
      show (Code.compute ⟨false, 0x8E⟩ _ 0xFF).2 = _
      decide +kernel

end Core

end GameBoy
