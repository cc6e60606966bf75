import GameBoy.Proofs.Alu.Bitwise
import GameBoy.Proofs.Core.Control
import GameBoy.Proofs.Core.Service

/-!
# The program counter

An instruction is fetched byte by byte, and each fetch moves the program counter past its byte. Only
under the halt bug the first one does not, so that the bytes behind the opcode are taken from one
address below. When the instruction takes effect, the counter is at the end of its encoding
(`Core.ready`), and from there only branches, calls and returns move it
(`Instruction.continuation`).

Main theorem: `Core.pc_step`. It says for every instruction which bytes it takes, where the program
goes on, and what a call pushes.
-/

namespace GameBoy

/-! ## Bytes in a row -/

/-- Some bytes in a row, read one after the other, and the bus after that. -/
def Bus.readList {β : Type} [Bus β] (addr : Word) : Nat → β → List Byte × β
  | 0, bus => ([], bus)
  | n + 1, bus =>
    let (value, bus) := Bus.read8 addr bus
    let (values, bus) := readList (addr + 1) n bus
    (value :: values, bus)

/-- The immediate that some bytes make up, the low byte of a word first. -/
def Operand.ofBytes : OperandKind → List Byte → Operand
  | .byte, [value] => .byte value
  | .offset, [value] => .offset value
  | .word, [lo, hi] => .word (Word.ofBytes hi lo)
  | _, _ => .none

/-! ## Branches -/

/-- Whether a branch is taken, by the bits of `F`: bit 7 says that a result was zero, and bit 4 that
there was a carry. -/
def Condition.metBy (f : Byte) : Option Condition → Bool
  | none => true
  | some nz => !f.toNat.testBit 7
  | some z => f.toNat.testBit 7
  | some nc => !f.toNat.testBit 4
  | some c => f.toNat.testBit 4

theorem Condition.met_eq (r : Registers) (condition : Option Condition) :
    met r condition = metBy r.f condition := by
  have hzero : r.flag .z = r.f.toNat.testBit 7 := Byte.has_eq_testBit r.f 7
  have hcarry : r.flag .c = r.f.toNat.testBit 4 := Byte.has_eq_testBit r.f 4
  cases condition with
  | none => rfl
  | some condition => cases condition <;> simp only [met, holds, metBy, hzero, hcarry]

namespace Instruction

/-- Whether the instruction branches, by the bits of `F` before it. -/
def branches (f : Byte) : Instruction → Bool
  | jr condition | jp condition | call condition | ret condition => Condition.metBy f condition
  | _ => false

theorem taken_eq (i : Instruction) (r : Registers) : i.taken r = i.branches r.f := by
  cases i with
  | jr condition | jp condition | call condition | ret condition =>
    exact Condition.met_eq r condition
  | _ => rfl

/-- The encoded length in bytes, with the byte behind the prefix. -/
def size : Instruction → Nat
  | prefixed => 2
  | i => i.length

theorem size_of_ne {i : Instruction} (h : i ≠ prefixed) : i.size = 1 + i.operand.length := by
  cases i with
  | prefixed => exact absurd rfl h
  | _ => rfl

/-- Whether the instruction pushes a return address, by the bits of `F` before it. -/
def calls (f : Byte) : Instruction → Bool
  | call condition => Condition.metBy f condition
  | rst _ => true
  | _ => false

/-- Where the program goes on after an instruction, given its immediate, the address behind its
encoding, and the registers and the bus before its effect. -/
def continuation {β : Type} [Bus β] (operand : Operand) (next : Word) (r : Registers) (bus : β) :
    Instruction → Word
  | jr condition =>
    if Condition.metBy r.f condition then next + Byte.signExtend operand.toByte else next
  | jp condition | call condition => if Condition.metBy r.f condition then operand.toWord else next
  | jpHl => r.hl
  | ret condition => if Condition.metBy r.f condition then (Bus.read16 r.sp bus).1 else next
  | reti => (Bus.read16 r.sp bus).1
  | rst vector => vector.toUInt16
  | _ => next

end Instruction

namespace Core

variable {β : Type} [Bus β] {s : Core β} {i : Instruction}

/-! ## Fetching -/

/-- How far the halt bug holds the program counter back. -/
def lag (s : Core β) : Word := if s.cpu.haltBug then 1 else 0

/-- The core whose program counter is at some address, whose bus is another one, and whose halt bug
is over. -/
def past (pc : Word) (bus : β) (s : Core β) : Core β :=
  ⟨{ s.cpu with registers := { s.cpu.registers with pc := pc }, haltBug := false }, bus⟩

omit [Bus β] in
theorem lag_eq_zero (h : s.cpu.haltBug = false) : s.lag = 0 := by
  rw [lag, h]
  rfl

theorem fetch_eq (s : Core β) :
    s.fetch = ((Bus.read8 s.cpu.registers.pc s.bus).1,
      s.past (s.cpu.registers.pc + 1 - s.lag) (Bus.read8 s.cpu.registers.pc s.bus).2) := by
  unfold fetch lag past
  dsimp only [read]
  by_cases h : s.cpu.haltBug = true
  · have hpc : s.cpu.registers.pc + 1 - 1 = s.cpu.registers.pc := UInt16.add_sub_cancel _ 1
    rw [if_pos h, if_pos h, hpc]
  · have hpc : s.cpu.registers.pc + 1 - 0 = s.cpu.registers.pc + 1 := UInt16.sub_zero _
    have hbug : s.cpu.haltBug = false := by simpa using h
    rw [if_neg h, if_neg h, hpc, ← hbug]
    rfl

theorem fetch_past (pc : Word) (bus : β) (s : Core β) :
    (s.past pc bus).fetch = ((Bus.read8 pc bus).1, s.past (pc + 1) (Bus.read8 pc bus).2) := by
  have hpc : pc + 1 - 0 = pc + 1 := UInt16.sub_zero _
  rw [fetch_eq]
  show (_, s.past (pc + 1 - 0) _) = _
  rw [hpc]
  rfl

theorem fetchOperand_past (kind : OperandKind) (pc : Word) (bus : β) (s : Core β) :
    (s.past pc bus).fetchOperand kind =
      (Operand.ofBytes kind (Bus.readList pc kind.length bus).1,
        s.past (pc + UInt16.ofNat kind.length) (Bus.readList pc kind.length bus).2) := by
  cases kind with
  | none =>
    have hpc : pc + UInt16.ofNat 0 = pc := UInt16.add_zero pc
    simp only [fetchOperand, OperandKind.length, hpc]
    rfl
  | byte => simp only [fetchOperand, fetch_past]; rfl
  | offset => simp only [fetchOperand, fetch_past]; rfl
  | word =>
    have hpc : pc + 1 + 1 = pc + UInt16.ofNat 2 := UInt16.add_assoc pc 1 1
    simp only [fetchOperand, fetchWord, fetch_past, hpc]
    rfl

/-! ## The fetched instruction -/

/-- The address behind the current instruction, one less under the halt bug. -/
def next (s : Core β) : Word := s.cpu.registers.pc + UInt16.ofNat s.current.size - s.lag

/-- The bytes behind the current opcode, and the bus after they were read. -/
def behind (s : Core β) : List Byte × β :=
  Bus.readList (s.cpu.registers.pc + 1 - s.lag) (s.current.size - 1)
    (Bus.read8 s.cpu.registers.pc s.bus).2

/-- The core that has fetched the current instruction to its end. -/
def ready (s : Core β) : Core β := s.past s.next s.behind.2

theorem next_eq (s : Core β) {n : Nat} (h : s.current.size = 1 + n) :
    s.cpu.registers.pc + 1 - s.lag + UInt16.ofNat n = s.next := by
  have hone : UInt16.ofNat (1 + n) = 1 + UInt16.ofNat n := UInt16.ofNat_add 1 n
  rw [next, h, hone]
  grind

/-- Fetching the immediate of an instruction fetches it to its end. -/
theorem immediate_eq (h : s.current ≠ .prefixed) :
    s.immediate = (Operand.ofBytes s.current.operand s.behind.1, s.ready) := by
  have hsize := Instruction.size_of_ne h
  have hcount : s.current.size - 1 = s.current.operand.length := by omega
  rw [immediate, fetch_eq, fetchOperand_past, next_eq s hsize, ready, behind, hcount]

theorem fetch_immediate_of_prefixed (h : s.current = .prefixed) :
    s.immediate.2.fetch = (s.behind.1.headD 0, s.ready) := by
  have hsize : s.current.size = 1 + 1 := by rw [h]; rfl
  have himmediate : s.immediate.2 = s.fetch.2 := by rw [immediate, h]; rfl
  have hnext : s.cpu.registers.pc + 1 - s.lag + 1 = s.next := next_eq s hsize
  have hfirst : s.fetch.2 =
      s.past (s.cpu.registers.pc + 1 - s.lag) (Bus.read8 s.cpu.registers.pc s.bus).2 := by
    rw [fetch_eq]
  rw [himmediate, hfirst, fetch_past, hnext, ready, behind, hsize]
  rfl

/-! ## Its effect -/

/-- What an instruction does that is fetched to its end, given the bytes behind its opcode. -/
def effect (i : Instruction) (bytes : List Byte) (s : Core β) : Core β :=
  match i with
  | .prefixed => s.applyExtended (Extended.decode (bytes.headD 0))
  | i => s.apply i (Operand.ofBytes i.operand bytes)

theorem effect_of_ne (h : i ≠ .prefixed) (bytes : List Byte) (s : Core β) :
    s.effect i bytes = s.apply i (Operand.ofBytes i.operand bytes) := by
  cases i with
  | prefixed => exact absurd rfl h
  | _ => rfl

theorem state_execute (h : i ≠ .prefixed) (operand : Operand) (s : Core β) :
    (s.execute i operand).state = s.apply i operand := by
  cases i with
  | prefixed => exact absurd rfl h
  | hole opcode =>
    show (s.executeHole opcode).state = s
    unfold executeHole
    dsimp only
    split <;> rfl
  | _ => rfl

/-- The current instruction takes effect on the core that has fetched it to its end. -/
theorem state_executeCurrent (s : Core β) :
    s.executeCurrent.state = s.ready.effect s.current s.behind.1 := by
  by_cases h : s.current = .prefixed
  · have hfetch := fetch_immediate_of_prefixed h
    rw [executeCurrent, h, execute_prefixed]
    show s.immediate.2.fetch.2.applyExtended (Extended.decode s.immediate.2.fetch.1) = _
    rw [hfetch]
    rfl
  · rw [executeCurrent, immediate_eq h, state_execute h, effect_of_ne h]

theorem of_runInstruction (s : Core β) :
    s.runInstruction.state.cpu.registers = (s.ready.effect s.current s.behind.1).cpu.registers ∧
      s.runInstruction.state.cpu.haltBug = (s.ready.effect s.current s.behind.1).cpu.haltBug ∧
      s.runInstruction.state.bus = (s.ready.effect s.current s.behind.1).bus := by
  rw [← state_executeCurrent]
  cases hr : s.executeCurrent.result with
  | ok cycles =>
    rw [runInstruction_of_ok hr]
    exact ⟨Cpu.registers_advanceEnable _, Cpu.haltBug_advanceEnable _, rfl⟩
  | error fault => rw [runInstruction_of_error hr]; exact ⟨rfl, rfl, rfl⟩

/-! ## Pushing -/

theorem bus_step_of_push {s' : Core β} (h : s.awake? = some s') {pair : StackPair}
    (hi : s'.current = .push pair) :
    s.step.state.bus =
      Bus.write8 (s.cpu.registers.sp - 2) (Word.lo (s.cpu.registers.stackPair pair))
        (Bus.write8 (s.cpu.registers.sp - 1) (Word.hi (s.cpu.registers.stackPair pair))
          s'.fetch.2.bus) := by
  obtain ⟨_, -, hstep⟩ := step_of_awake h
  have hr : s'.cpu.registers = s.cpu.registers := by rw [(of_awake h).2.1]
  have hbus : s'.ready.bus = s'.fetch.2.bus := by
    rw [bus_fetch]
    show s'.behind.2 = _
    rw [behind, hi]
    rfl
  have hpair : s'.ready.cpu.registers.stackPair pair = s.cpu.registers.stackPair pair := by
    rw [← hr]
    cases pair <;> rfl
  rw [hstep, (of_runInstruction s').2.2, hi, ← hbus, ← hpair, ← hr]
  rfl

/-! ## Where the program goes on -/

theorem pc_writePlace (place : Place) (value : Byte) (s : Core β) :
    (s.writePlace place value).cpu.registers.pc = s.cpu.registers.pc := by
  cases place <;> rfl

theorem registers_readPlace (place : Place) (s : Core β) :
    (s.readPlace place).2.cpu.registers = s.cpu.registers := by
  cases place <;> rfl

theorem registers_combine (op : Registers → Byte → Registers) (place : Place) (s : Core β) :
    (s.combine op place).cpu.registers = op s.cpu.registers (s.readPlace place).1 :=
  congrArg (op · _) (registers_readPlace place s)

/-- An update ends with a write to its place, and before that the operation has its say. -/
theorem update_eq (op : Registers → Byte → Byte × Registers) (place : Place) (s : Core β) :
    ∃ (t : Core β) (value : Byte), s.update op place = t.writePlace place value ∧
      t.cpu.registers = (op s.cpu.registers (s.readPlace place).1).2 :=
  ⟨_, _, rfl, congrArg (fun r => (op r _).2) (registers_readPlace place s)⟩

theorem pc_update {op : Registers → Byte → Byte × Registers}
    (h : ∀ r value, (op r value).2.pc = r.pc) (place : Place) (s : Core β) :
    (s.update op place).cpu.registers.pc = s.cpu.registers.pc := by
  obtain ⟨t, value, hupdate, ht⟩ := update_eq op place s
  rw [hupdate, pc_writePlace, ht]
  exact h _ _

theorem pc_combine {op : Registers → Byte → Registers} (h : ∀ r value, (op r value).pc = r.pc)
    (place : Place) (s : Core β) :
    (s.combine op place).cpu.registers.pc = s.cpu.registers.pc := by
  rw [registers_combine]
  exact h _ _

theorem pc_setPair (pair : Pair) (r : Registers) (value : Word) :
    (r.setPair pair value).pc = r.pc := by
  cases pair <;> rfl

theorem pc_apply (i : Instruction) (operand : Operand) (s : Core β) :
    (s.apply i operand).cpu.registers.pc =
      i.continuation operand s.cpu.registers.pc s.cpu.registers s.bus := by
  cases i with
  | halt => simp only [apply, halt]; split <;> rfl
  | ei => simp only [apply]; split <;> rfl
  | loadPair target => exact pc_setPair target _ _
  | storeA pointer => cases pointer <;> rfl
  | loadA pointer => cases pointer <;> rfl
  | incPair pair => exact pc_setPair pair _ _
  | decPair pair => exact pc_setPair pair _ _
  | inc place => exact pc_update (fun _ _ => rfl) place s
  | dec place => exact pc_update (fun _ _ => rfl) place s
  | loadByte target => exact pc_writePlace target _ s
  | accumulator op => cases op <;> rfl
  | jr condition =>
    simp only [apply, Instruction.continuation, Condition.met_eq]
    split <;> rfl
  | load target source =>
    exact (pc_writePlace target _ _).trans (congrArg Registers.pc (registers_readPlace source s))
  | alu op source => exact pc_combine (by intro r value; cases op <;> rfl) source s
  | aluByte op => cases op <;> rfl
  | ret condition | jp condition | call condition =>
    simp only [apply, Instruction.continuation, Condition.met_eq]
    split <;> rfl
  | pop pair => cases pair <;> rfl
  | _ => rfl

theorem pc_applyExtended (i : Extended) (s : Core β) :
    (s.applyExtended i).cpu.registers.pc = s.cpu.registers.pc := by
  cases i with
  | shift op place => exact pc_update (fun _ _ => rfl) place s
  | test bit place => exact pc_combine (fun _ _ => rfl) place s
  | reset bit place => exact pc_update (fun _ _ => rfl) place s
  | set bit place => exact pc_update (fun _ _ => rfl) place s

theorem pc_effect (i : Instruction) (bytes : List Byte) (s : Core β) :
    (s.effect i bytes).cpu.registers.pc =
      i.continuation (Operand.ofBytes i.operand bytes) s.cpu.registers.pc s.cpu.registers
        s.bus := by
  by_cases h : i = .prefixed
  · subst h
    exact pc_applyExtended _ s
  · rw [effect_of_ne h, pc_apply]

theorem effect_of_calls (h : i.calls s.cpu.registers.f = true) (bytes : List Byte) :
    (s.effect i bytes).bus = s.pushed s.cpu.registers.pc ∧
      (s.effect i bytes).cpu.registers.sp = s.cpu.registers.sp - 2 := by
  cases i with
  | call condition =>
    have hmet : Condition.met s.cpu.registers condition = true := (Condition.met_eq _ _).trans h
    simp only [effect, apply, hmet, if_true]
    exact ⟨rfl, rfl⟩
  | rst vector => exact ⟨rfl, rfl⟩
  | _ => cases h

theorem haltBug_effect (h : i ≠ .halt) (bytes : List Byte) (s : Core β) :
    (s.effect i bytes).cpu.haltBug = s.cpu.haltBug := by
  cases hc : i.isControl with
  | false =>
    by_cases hi : i = .prefixed
    · subst hi
      show (s.applyExtended _).cpu.control.haltBug = s.cpu.control.haltBug
      rw [control_applyExtended]
    · rw [effect_of_ne hi]
      show (s.apply i _).cpu.control.haltBug = s.cpu.control.haltBug
      rw [control_apply hc]
  | true =>
    cases i with
    | halt => exact absurd rfl h
    | ei => simp only [effect, apply]; split <;> rfl
    | stop | di | reti => rfl
    | _ => cases hc

/-- The program counter is no part of what decides where the program goes on. -/
theorem continuation_past (i : Instruction) (operand : Operand) (next pc : Word) (bus : β)
    (s : Core β) :
    i.continuation operand next (s.past pc bus).cpu.registers bus =
      i.continuation operand next s.cpu.registers bus := by
  cases i <;> rfl

/-! ## The law -/

/-- **The program counter of a step.** The instruction at the program counter takes effect on the
bytes behind its opcode, all of them one address lower under the halt bug. The program goes on
behind the last of them, but where a branch, call or return that is taken leads; a call pushes the
address behind itself. The halt bug is over, unless `HALT` brings it about again. -/
theorem pc_step {i : Instruction} (hhalted : s.cpu.halted = false)
    (hstopped : s.cpu.stopped = false)
    (hi : Instruction.decode (Bus.read8 s.cpu.registers.pc s.bus).1 = i) :
    let r := s.cpu.registers
    let h : Word := if s.cpu.haltBug then 1 else 0
    let next := r.pc + UInt16.ofNat i.size - h
    let behind := Bus.readList (r.pc + 1 - h) (i.size - 1) (Bus.read8 r.pc s.bus).2
    let operand := Operand.ofBytes i.operand behind.1
    let effect := (s.past next behind.2).effect i behind.1
    let after := s.step.state
    after.cpu.registers = effect.cpu.registers ∧ after.bus = effect.bus ∧
      after.cpu.registers.pc = i.continuation operand next r behind.2 ∧
      (i.calls r.f = true →
        after.bus = (s.past next behind.2).pushed next ∧ after.cpu.registers.sp = r.sp - 2) ∧
      (i ≠ .halt → after.cpu.haltBug = false) := by
  have hcurrent : s.current = i := (current_eq s).trans hi
  subst hcurrent
  intro r h next behind operand effect after
  have hafter : after = s.runInstruction.state := by
    show s.step.state = _
    rw [step_of_not_stopped hstopped, stepAwake_of_not_halted hhalted]
  obtain ⟨hregisters, hbug, hbus⟩ := of_runInstruction s
  rw [hafter]
  refine ⟨hregisters, hbus, ?_, fun hcalls => ?_, fun hne => ?_⟩
  · rw [hregisters, pc_effect]
    exact continuation_past s.current operand next next behind.2 s
  · rw [hregisters, hbus]
    exact effect_of_calls (s := s.ready) hcalls s.behind.1
  · rw [hbug, haltBug_effect hne]
    rfl

/-- A call under the halt bug at the end of the address space: its own opcode is the low byte of
its target, and the address that it pushes has wrapped around to zero. -/
theorem pc_step_call_at_end :
    ∃ space : AddressSpace,
      let s : Core AddressSpace :=
        ⟨{ registers := { pc := 0xFFFE, sp := 0xC000 }, haltBug := true }, space⟩
      let after := s.step.state
      s.cpu.halted = false ∧ s.cpu.stopped = false ∧
        Instruction.decode (Bus.read8 s.cpu.registers.pc s.bus).1 = .call none ∧
        after.cpu.registers.pc = 0x34CD ∧ after.bus = (space.set 0xBFFF 0).set 0xBFFE 0 ∧
        after.cpu.registers.sp = 0xBFFE ∧ after.cpu.haltBug = false := by
  obtain ⟨space, hopcode, hhigh⟩ :
      ∃ space : AddressSpace, space.get 0xFFFE = 0xCD ∧ space.get 0xFFFF = 0x34 := by
    refine ⟨(AddressSpace.zero.set 0xFFFE 0xCD).set 0xFFFF 0x34, ?_, by simp⟩
    rw [AddressSpace.get_set_of_ne _ _ (by decide), AddressSpace.get_set_self]
  refine ⟨space, ?_⟩
  intro s after
  have hi : Instruction.decode (Bus.read8 s.cpu.registers.pc s.bus).1 = .call none := by
    show Instruction.decode (space.get 0xFFFE) = _
    rw [hopcode]
    rfl
  have hbehind : Bus.readList (0xFFFE + 1 - 1) 2 space = ([0xCD, 0x34], space) := by
    show ([space.get 0xFFFE, space.get 0xFFFF], space) = _
    rw [hopcode, hhigh]
  obtain ⟨-, -, hpc, hcalls, hbug⟩ := pc_step (s := s) rfl rfl hi
  obtain ⟨hbus, hsp⟩ := hcalls rfl
  have hnext : (0xFFFE : Word) + UInt16.ofNat 3 - 1 = 0 := by decide
  have hbelow : (0xC000 : Word) - 1 = 0xBFFF := by decide
  have hlow : (0xC000 : Word) - 2 = 0xBFFE := by decide
  refine ⟨rfl, rfl, hi, hpc.trans ?_, hbus.trans ?_, hsp.trans hlow, hbug (by simp)⟩
  · show (Operand.ofBytes .word (Bus.readList (0xFFFE + 1 - 1) 2 space).1).toWord = _
    rw [hbehind]
    rfl
  · show ((Bus.readList (0xFFFE + 1 - 1) 2 space).2.set (0xC000 - 1)
      (Word.hi (0xFFFE + UInt16.ofNat 3 - 1))).set (0xC000 - 2)
        (Word.lo (0xFFFE + UInt16.ofNat 3 - 1)) = _
    rw [hbehind, hnext, hbelow, hlow]
    rfl

end Core

end GameBoy
