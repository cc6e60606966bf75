import GameBoy.Proofs.Core.Footprint
import GameBoy.Proofs.Core.Nesting

/-!
# The low nibble of the flag register

`F` is a raw byte, and a caller may store anything to it. The processor does not: whatever it does,
a clear low nibble of `F` stays clear (`Registers.Tidy`). An instruction that writes `F` packs four
flags anew, writes single flags, or pops `AF`, and each of the three has its lemma. For all other
instructions the footprint says that `F` stays.

Main theorem: `Core.tidy_after_actions`. With a clear low nibble, `AF` is `A` and `F` with no bit
hidden, so that a push stores the two registers as they are.
-/

namespace GameBoy

/-! ## Register files with a clear low nibble -/

namespace Registers

/-- The low nibble of `F` is zero. -/
def Tidy (r : Registers) : Prop := r.f &&& 0x0F = 0

instance (r : Registers) : Decidable r.Tidy := inferInstanceAs (Decidable (r.f &&& 0x0F = 0))

variable {r r' : Registers}

theorem tidy_iff : r.Tidy ↔ ∀ n : Fin 8, n < 4 → Byte.has r.f n = false := by
  suffices h : ∀ f : Byte, f &&& 0x0F = 0 ↔ ∀ n : Fin 8, n < 4 → Byte.has f n = false from h r.f
  exact Byte.forall_of_fin (by decide +kernel)

theorem Tidy.of_sameBut {written : List Register} (h : r.Tidy) (hr : SameBut written r r')
    (hf : .f ∉ written) : r'.Tidy := by
  unfold Tidy
  rw [hr.f_eq hf]
  exact h

/-- All four flags lie above the low nibble. -/
theorem Tidy.setFlag (h : r.Tidy) (flag : Flag) (value : Bool) : (r.setFlag flag value).Tidy := by
  rw [tidy_iff] at h ⊢
  intro n hn
  have hne : n ≠ flag.position := by
    rintro rfl
    revert hn
    cases flag <;> decide
  show Byte.has (Byte.setBit r.f flag.position value) n = false
  rw [Byte.has_setBit, if_neg hne]
  exact h n hn

theorem tidy_setFlags (r : Registers) (z n h c : Bool) : (r.setFlags z n h c).Tidy :=
  Flag.pack_and_low z n h c

theorem tidy_setAf (r : Registers) (value : Word) : (r.setAf value).Tidy := by
  show Word.lo value &&& 0xF0 &&& 0x0F = 0
  rw [UInt8.and_assoc]
  exact UInt8.and_zero

theorem Tidy.af_eq (h : r.Tidy) : r.af = Word.ofBytes r.a r.f := by
  have hmask : r.f &&& 0xF0 = r.f := by
    revert h
    show r.f &&& 0x0F = 0 → _
    generalize r.f = f
    revert f
    exact Byte.forall_of_fin (by decide +kernel)
  rw [af, hmask]

/-! ### Operations that write `F` -/

theorem Tidy.inc (h : r.Tidy) (value : Byte) : (Alu.inc r value).2.Tidy :=
  ((h.setFlag _ _).setFlag _ _).setFlag _ _

theorem Tidy.dec (h : r.Tidy) (value : Byte) : (Alu.dec r value).2.Tidy :=
  ((h.setFlag _ _).setFlag _ _).setFlag _ _

theorem Tidy.testBit (h : r.Tidy) (bit : Fin 8) (value : Byte) : (Alu.testBit r bit value).Tidy :=
  ((h.setFlag _ _).setFlag _ _).setFlag _ _

theorem Tidy.setHl (h : r.Tidy) (value : Word) : (r.setHl value).Tidy := h

theorem Tidy.addHl (h : r.Tidy) (value : Word) : (Alu.addHl r value).Tidy :=
  (((h.setFlag _ _).setFlag _ _).setFlag _ _).setHl _

theorem tidy_alu (op : AluOp) (r : Registers) (value : Byte) : (op.apply r value).Tidy := by
  cases op with
  | cp | sub | sbc => exact tidy_setFlags r _ _ _ _
  | _ => exact tidy_setFlags _ _ _ _ _

theorem Tidy.accumulator (h : r.Tidy) (op : AccumulatorOp) : (op.apply r).Tidy := by
  cases op with
  | rlca | rrca | rla | rra => exact (r.tidy_setFlags _ _ _ _).setFlag .z _
  | daa => exact ((h.setFlag .c _).setFlag .h _).setFlag .z _
  | cpl => exact (h.setFlag .n _).setFlag .h _
  | scf | ccf => exact ((h.setFlag .n _).setFlag .h _).setFlag .c _

theorem tidy_shift (op : ShiftOp) (r : Registers) (value : Byte) : (op.apply r value).2.Tidy :=
  tidy_setFlags _ _ _ _ _

theorem Tidy.setStackPair (h : r.Tidy) (pair : StackPair) (value : Word) :
    (r.setStackPair pair value).Tidy := by
  cases pair with
  | af => exact r.tidy_setAf value
  | _ => exact h

end Registers

/-! ## Registers that are not `F` -/

theorem Place.f_notMem_registers (place : Place) : .f ∉ place.registers := by
  cases place <;> decide

theorem Pair.f_notMem_registers (pair : Pair) : .f ∉ pair.registers := by
  cases pair <;> decide

theorem Pointer.f_notMem_registers (pointer : Pointer) : .f ∉ pointer.registers := by
  cases pointer <;> decide

namespace Core

variable {β : Type} [Bus β] {s : Core β}

open Registers (Tidy)

theorem tidy_combine {op : Registers → Byte → Registers} {place : Place}
    (h : (op s.cpu.registers (s.readPlace place).1).Tidy) :
    (s.combine op place).cpu.registers.Tidy := by
  rw [registers_combine]
  exact h

theorem tidy_update {op : Registers → Byte → Byte × Registers} {place : Place}
    (h : (op s.cpu.registers (s.readPlace place).1).2.Tidy) :
    (s.update op place).cpu.registers.Tidy := by
  obtain ⟨t, value, hupdate, ht⟩ := update_eq op place s
  rw [← ht] at h
  rw [hupdate]
  exact h.of_sameBut (sameBut_writePlace place value t) place.f_notMem_registers

theorem tidy_apply (h : s.cpu.registers.Tidy) (i : Instruction) (operand : Operand) :
    (s.apply i operand).cpu.registers.Tidy := by
  have hsame := sameBut_apply i operand (.set 0 .b) s
  cases i with
  | inc place => exact tidy_update (h.inc _)
  | dec place => exact tidy_update (h.dec _)
  | addHl pair => exact h.addHl _
  | accumulator op => exact h.accumulator op
  | alu op source => exact tidy_combine (Registers.tidy_alu op _ _)
  | aluByte op => exact Registers.tidy_alu op _ _
  | addSp | loadHlSp => exact Registers.tidy_setFlags s.cpu.registers _ _ _ _
  | pop pair =>
    have hpop : s.pop.2.cpu.registers.Tidy := h
    exact hpop.setStackPair pair _
  -- the others do not write `F`
  | loadPair pair | incPair pair | decPair pair =>
    exact h.of_sameBut hsame pair.f_notMem_registers
  | loadByte place | load place source => exact h.of_sameBut hsame place.f_notMem_registers
  | storeA pointer => exact h.of_sameBut hsame pointer.f_notMem_registers
  | loadA pointer =>
    refine h.of_sameBut hsame fun hmem => ?_
    rcases List.mem_append.mp hmem with hmem | hmem
    · exact pointer.f_notMem_registers hmem
    · exact absurd hmem (by decide)
  | ret condition | call condition =>
    refine h.of_sameBut hsame ?_
    show Register.f ∉ if Condition.met s.cpu.registers condition then [Register.sp] else []
    split <;> decide
  | prefixed => exact h
  | loadHigh | loadHighC | loadAt =>
    exact h.of_sameBut hsame (by decide : Register.f ∉ [Register.a])
  | loadSpHl | reti | push _ | rst _ =>
    exact h.of_sameBut hsame (by decide : Register.f ∉ [Register.sp])
  | _ => exact h.of_sameBut hsame (by decide : Register.f ∉ [])

theorem tidy_applyExtended (h : s.cpu.registers.Tidy) (i : Extended) :
    (s.applyExtended i).cpu.registers.Tidy := by
  have hsame := sameBut_applyExtended i s
  cases i with
  | shift op place => exact tidy_update (Registers.tidy_shift op _ _)
  | test bit place => exact tidy_combine (h.testBit bit _)
  | reset bit place => exact h.of_sameBut hsame place.f_notMem_registers
  | set bit place => exact h.of_sameBut hsame place.f_notMem_registers

/-! ## Moves and resets -/

theorem tidy_runInstruction (h : s.cpu.registers.Tidy) :
    s.runInstruction.state.cpu.registers.Tidy := by
  rw [(of_runInstruction s).1]
  have hready : s.ready.cpu.registers.Tidy := h
  by_cases hi : s.current = .prefixed
  · rw [hi]
    exact tidy_applyExtended hready _
  · rw [effect_of_ne hi]
    exact tidy_apply hready _ _

theorem tidy_step (h : s.cpu.registers.Tidy) : s.step.state.cpu.registers.Tidy := by
  cases hs : s.awake? with
  | none =>
    rw [(step_of_asleep hs).2.1]
    exact h
  | some s' =>
    obtain ⟨_, -, hstep⟩ := step_of_awake hs
    have h' : s'.cpu.registers.Tidy := by
      rw [(of_awake hs).2.1]
      exact h
    rw [hstep]
    exact tidy_runInstruction h'

theorem tidy_serviceInterrupts (h : s.cpu.registers.Tidy) :
    s.serviceInterrupts.state.cpu.registers.Tidy := by
  rcases serviceInterrupts_cases s with ⟨s', hs', ho⟩ | ⟨-, ⟨source, ho⟩ | ho⟩
  · rw [ho]
    rcases hs' with rfl | rfl <;> exact h
  · rw [ho]
    exact h
  · rw [ho]
    exact h

/-- What happens to a processor that may also be reset. -/
inductive Action (β : Type) where
  | move (m : Move β)
  | reset

/-- The core after an action, whether it faults or not. -/
def act (s : Core β) : Action β → Core β
  | .move m => s.move m
  | .reset => ⟨s.cpu.reset, s.bus⟩

/-- The core after some actions. -/
def actAll (s : Core β) (actions : List (Action β)) : Core β := actions.foldl act s

theorem actAll_of_act {P : Core β → Prop} (hact : ∀ s a, P s → P (s.act a)) (h : P s)
    (actions : List (Action β)) : P (s.actAll actions) := by
  induction actions generalizing s with
  | nil => exact h
  | cons a actions ih => exact ih (hact s a h)

theorem tidy_powerOnRegisters : Cpu.powerOnRegisters.Tidy := by decide

theorem tidy_act (s : Core β) (a : Action β) (h : s.cpu.registers.Tidy) :
    (s.act a).cpu.registers.Tidy := by
  cases a with
  | reset => exact tidy_powerOnRegisters
  | move m =>
    cases m with
    | service => exact tidy_serviceInterrupts h
    | step => exact tidy_step h
    | change bus => exact h

/-- **The low nibble of `F`.** Started with a clear low nibble, the flag register keeps it clear
through all actions. So `AF` is `A` and `F`, and `PUSH AF` stores these two bytes. -/
theorem lowNibble_actAll {start : Core β} (hstart : start.cpu.registers.f &&& 0x0F = 0)
    (actions : List (Action β)) :
    let s := start.actAll actions
    let r := s.cpu.registers
    r.f &&& 0x0F = 0 ∧ r.af = Word.ofBytes r.a r.f ∧
      ∀ s', s.awake? = some s' → s'.current = .push .af →
        s.step.state.bus =
          Bus.write8 (r.sp - 2) r.f (Bus.write8 (r.sp - 1) r.a s'.fetch.2.bus) := by
  intro s r
  have htidy : r.Tidy := actAll_of_act (P := fun s => s.cpu.registers.Tidy) tidy_act hstart actions
  have haf : r.af = Word.ofBytes r.a r.f := htidy.af_eq
  refine ⟨htidy, haf, fun s' hawake hi => ?_⟩
  have hpush := bus_step_of_push hawake hi
  rw [show s.cpu.registers.stackPair .af = Word.ofBytes r.a r.f from haf, Word.lo_ofBytes,
    Word.hi_ofBytes] at hpush
  exact hpush

/-- From power-on, `POP AF` takes a word of ones off the stack, and of its low nibble nothing is
left for the `PUSH AF` behind it to put back. -/
theorem lowNibble_of_popped_ones :
    ∃ space : AddressSpace,
      let start : Core AddressSpace := powerOn .skip false space
      let s := start.actAll [.reset, .move (.change space), .move .step]
      start.cpu.registers.f &&& 0x0F = 0 ∧ s.cpu.registers.f = 0xF0 ∧
        s.cpu.registers.af = 0xFFF0 ∧ s.awake? = some s ∧ s.current = .push .af ∧
        s.step.state.bus = (space.set 0xFFFF 0xFF).set 0xFFFE 0xF0 := by
  obtain ⟨space, hpop, hpush, hlo, hhi⟩ : ∃ space : AddressSpace, space.get 0x0100 = 0xF1 ∧
      space.get 0x0101 = 0xF5 ∧ space.get 0xFFFE = 0xFF ∧ space.get 0xFFFF = 0xFF := by
    refine ⟨.ofFn fun addr => if addr = 0x0100 then 0xF1 else if addr = 0x0101 then 0xF5 else 0xFF,
      ?_, ?_, ?_, ?_⟩ <;> rw [AddressSpace.get_ofFn] <;> decide
  refine ⟨space, ?_⟩
  intro start s
  have hcurrent : start.current = .pop .af := by
    rw [current_eq]
    show Instruction.decode (space.get 0x0100) = _
    rw [hpop]
    rfl
  have hready : start.ready =
      ⟨{ registers := { Cpu.powerOnRegisters with pc := 0x0101 } }, space⟩ := by
    have hnext : start.next = 0x0101 := by
      rw [next, hcurrent]
      exact (by decide : (0x0100 : Word) + UInt16.ofNat 1 - 0 = 0x0101)
    rw [ready, hnext, behind, hcurrent]
    rfl
  have hword : (Bus.read16 0xFFFE space).1 = 0xFFFF := by
    show Word.ofBytes (space.get (0xFFFE + 1)) (space.get 0xFFFE) = _
    rw [show (0xFFFE : Word) + 1 = 0xFFFF by decide, hhi, hlo]
    decide
  have hexecute : start.executeCurrent = .ok 3 ⟨{ registers := { Cpu.powerOnRegisters with
      a := 0xFF, f := 0xF0, sp := 0, pc := 0x0101 } }, space⟩ := by
    rw [executeCurrent, immediate_eq (by rw [hcurrent]; simp), hcurrent, hready]
    show Outcome.ok 3 (⟨{ registers := ({ Cpu.powerOnRegisters with
      sp := 0xFFFE + 2, pc := 0x0101 } : Registers).setAf (Bus.read16 0xFFFE space).1 }, space⟩ :
        Core AddressSpace) = _
    rw [hword]
    exact congrArg (fun r => Outcome.ok 3 (⟨{ registers := r }, space⟩ : Core AddressSpace))
      (by decide)
  have hs : s = ⟨{ registers := { Cpu.powerOnRegisters with
      a := 0xFF, f := 0xF0, sp := 0, pc := 0x0101 } }, space⟩ := by
    show start.step.state = _
    rw [step_of_running (s := start) rfl rfl,
      runInstruction_of_ok (show start.executeCurrent.result = .ok 3 by rw [hexecute]; rfl),
      hexecute]
    rfl
  have hstart : start.cpu.registers.f &&& 0x0F = 0 := tidy_powerOnRegisters
  obtain ⟨-, haf, hbus⟩ := lowNibble_actAll hstart
    [.reset, .move (.change space), .move .step]
  have hawake : s.awake? = some s := by
    rw [hs]
    rfl
  have hpushes : s.current = .push .af := by
    rw [hs, current_eq]
    show Instruction.decode (space.get 0x0101) = _
    rw [hpush]
    rfl
  refine ⟨hstart, by rw [hs], haf.trans ?_, hawake, hpushes, (hbus s hawake hpushes).trans ?_⟩
  · show Word.ofBytes s.cpu.registers.a s.cpu.registers.f = _
    rw [hs]
    exact (by decide : Word.ofBytes 0xFF 0xF0 = 0xFFF0)
  · show Bus.write8 (s.cpu.registers.sp - 2) s.cpu.registers.f
      (Bus.write8 (s.cpu.registers.sp - 1) s.cpu.registers.a s.fetch.2.bus) = _
    rw [hs, bus_fetch]
    rfl

end Core

end GameBoy
