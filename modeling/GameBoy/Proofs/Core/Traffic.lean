import GameBoy.Proofs.Core.Meter
import GameBoy.Proofs.Core.Simulation

/-!
# Cost and bus traffic

A machine cycle is the time of one byte access. So what an instruction costs is the number of its
accesses and a few cycles more, in which the processor works on addresses by itself
(`Instruction.internalCycles`). The costs are read off a table and the accesses are made by the
moves that carry an instruction out, so that the two agree is a law about both.

The accesses are counted on a bus with a recorder in front of it (`Core.traffic`). Their number is
metered: an instruction adds the length of its encoding, and its effect
`Instruction.dataAccesses`. The law about the tables alone is `Instruction.cost_eq`; together they
give the main theorem, `Core.cost_step_eq_traffic`.
-/

namespace GameBoy

/-! ## What instructions access -/

namespace Instruction

/-- The accesses that an instruction makes beyond those that fetch it, given whether it branches. -/
def dataAccesses (taken : Bool) : Instruction → Nat
  | storeA _ | loadA _ | storeHigh | loadHigh | storeHighC | loadHighC | storeAt | loadAt => 1
  | halt | storeSp | reti | pop _ | push _ | rst _ => 2
  | ret _ | call _ => if taken then 2 else 0
  | inc place | dec place => place.accesses + place.accesses
  | loadByte target => target.accesses
  | load target source => source.accesses + target.accesses
  | alu _ source => source.accesses
  | _ => 0

/-- The cycles of an instruction without an access, given whether it branches. -/
def internalCycles (taken : Bool) : Instruction → Nat
  | addSp => 2
  | ret (some _) => if taken then 2 else 1
  | jr _ | jp _ | call _ => if taken then 1 else 0
  | ret none | reti | push _ | rst _ | incPair _ | decPair _ | addHl _ | loadSpHl | loadHlSp => 1
  | _ => 0

/-- The instructions whose cost is their accesses and their internal cycles. `HALT` looks at the
interrupt registers and `STOP` skips a byte, both at no cost; a hole costs nothing, and the prefix
costs what stands behind it. No opcode stands for a load from memory to memory. -/
def isRegular : Instruction → Bool
  | halt | stop | prefixed | hole _ | load .atHl .atHl => false
  | _ => true

theorem cost_eq {i : Instruction} (h : i.isRegular = true) (r : Registers) :
    i.cost r = i.length + i.dataAccesses (i.taken r) + i.internalCycles (i.taken r) := by
  cases i with
  | halt | stop | prefixed | hole opcode => cases h
  | inc place | dec place | loadByte place | alu op place => cases place <;> rfl
  | load target source =>
    cases source with
    | atHl =>
      cases target with
      | atHl => cases h
      | _ => rfl
    | _ => cases target <;> rfl
  | jr condition | jp condition | call condition | ret condition =>
    cases condition with
    | none => rfl
    | some condition =>
      by_cases ht : condition.holds r = true
      · simp only [cost, taken, Condition.met, ht, if_true]
        rfl
      · rw [Bool.not_eq_true] at ht
        simp only [cost, taken, Condition.met, ht, Bool.false_eq_true, if_false]
        rfl
  | _ => rfl

/-- An opcode with a meaning stands for a regular instruction, the prefix, `HALT` or `STOP`. -/
theorem isRegular_decode (opcode : Byte) (hassigned : opcode ∉ holes) (hstop : opcode ≠ 0x10)
    (hhalt : opcode ≠ 0x76) : decode opcode = prefixed ∨ (decode opcode).isRegular = true := by
  revert opcode
  exact Byte.forall_of_fin (by decide +kernel)

theorem loads_add_stores {i : Instruction} (h : i ≠ prefixed) (taken : Bool) (behind : Extended) :
    i.loads taken behind + i.stores taken behind = i.dataAccesses taken := by
  cases i with
  | prefixed => exact absurd rfl h
  | loadByte target => exact Nat.zero_add _
  | ret condition | call condition => cases taken <;> rfl
  | _ => rfl

end Instruction

namespace Extended

/-- The accesses that an instruction behind the prefix makes beyond those that fetch it. -/
def dataAccesses : Extended → Nat
  | test _ place => place.accesses
  | i => i.place.accesses + i.place.accesses

theorem loads_add_stores (i : Extended) : i.loads + i.stores = i.dataAccesses := by
  cases i <;> rfl

theorem cycles_eq (i : Extended) : i.cycles = 1 + i.dataAccesses := by
  cases i with
  | shift op place | test bit place | reset bit place | set bit place => cases place <;> rfl

end Extended

/-- The number of accesses that a recorder has seen, as a meter. -/
def Traced.counter (β : Type) [Bus β] : Bus.Meter (Traced β) where
  reading traced := traced.accesses.size
  perRead := 1
  perWrite := 1
  read _ _ := Array.size_push _
  write _ _ _ := Array.size_push _

theorem Traced.charge_counter {β : Type} [Bus β] (loads stores : Nat) :
    (counter β).charge loads stores = loads + stores := by
  simp only [Bus.Meter.charge, counter, Nat.mul_one]

namespace Core

variable {β : Type}

/-! ## Counting -/

/-- The number of accesses that the recorder in front of the bus has seen. -/
def traffic (s : Core (Traced β)) : Nat := s.bus.accesses.size

variable [Bus β]

/-- The accesses of a step, the oldest first. -/
def stepAccesses (s : Core β) : Array Access := s.traced.step.state.bus.accesses

theorem traffic_executeCurrent (s : Core (Traced β)) :
    s.executeCurrent.state.traffic = s.traffic +
      (s.current.size + s.current.loads (s.current.taken s.cpu.registers) (.ofBytes s.behind.1) +
        s.current.stores (s.current.taken s.cpu.registers) (.ofBytes s.behind.1)) := by
  have hmeter := (Traced.counter β).reading_runInstruction s
  rw [Bus.Simulation.bus_runInstruction, Traced.charge_counter] at hmeter
  exact hmeter

/-! ## A step -/

/-- The decisions of an instruction do not depend on the program counter, and so they are those of
the core that has yet to fetch it. -/
theorem taken_immediate {s : Core β} (h : s.current ≠ .prefixed) (i : Instruction) :
    i.taken s.immediate.2.cpu.registers = i.taken s.cpu.registers := by
  rw [immediate_eq h]
  exact Instruction.taken_past i s.next s.behind.2 s

theorem result_execute {i : Instruction} (h : i.isRegular = true) (operand : Operand)
    (s : Core β) : (s.execute i operand).result = .ok (i.cost s.cpu.registers) := by
  cases i with
  | halt | stop | prefixed | hole opcode => cases h
  | _ => rfl

/-- What an instruction costs is the accesses that it adds, and its internal cycles. -/
theorem cost_eq_traffic {s : Core (Traced β)}
    (h : s.current = .prefixed ∨ s.current.isRegular = true) :
    ∃ cycles, s.executeCurrent.result = .ok cycles ∧
      s.traffic + cycles = s.executeCurrent.state.traffic +
        s.current.internalCycles (s.current.taken s.cpu.registers) := by
  have htraffic := traffic_executeCurrent s
  rcases h with h | h
  · -- the byte behind the prefix is one more access
    have hbehind : Extended.decode s.immediate.2.fetch.1 = .ofBytes s.behind.1 := by
      rw [fetch_immediate_of_prefixed h]
      rfl
    have hresult : s.executeCurrent.result =
        .ok (1 + (Extended.decode s.immediate.2.fetch.1).cycles) := by
      rw [executeCurrent, h, execute_prefixed]
      rfl
    have haccesses := (Extended.ofBytes s.behind.1).loads_add_stores
    rw [hbehind, Extended.cycles_eq] at hresult
    rw [h] at htraffic ⊢
    refine ⟨_, hresult, ?_⟩
    have hsize : Instruction.prefixed.size = 2 := rfl
    have hinternal (taken : Bool) : Instruction.prefixed.internalCycles taken = 0 := rfl
    rw [hsize, Instruction.loads_prefixed, Instruction.stores_prefixed] at htraffic
    rw [hinternal]
    omega
  · have hne : s.current ≠ .prefixed := by
      intro hp
      rw [hp] at h
      cases h
    have hcost : s.executeCurrent.result = .ok (s.current.cost s.cpu.registers) := by
      rw [executeCurrent, result_execute h, Instruction.cost, taken_immediate hne]
      rfl
    have hsize : s.current.size = s.current.length := Instruction.size_of_ne hne
    rw [Nat.add_assoc, Instruction.loads_add_stores hne] at htraffic
    refine ⟨_, hcost, ?_⟩
    rw [htraffic, Instruction.cost_eq h, hsize]
    omega

theorem step_traced (s : Core β) :
    s.traced.step.result = s.step.result ∧ s.traced.step.events = s.step.events ∧
      s.traced.step.state.cpu = s.step.state.cpu ∧
      s.traced.step.state.bus.bus = s.step.state.bus :=
  ((Traced.simulation β).alike_step (s := s.traced) (.inr ⟨rfl, rfl⟩)).resolve_left id

/-- **Cost and traffic.** An instruction other than `HALT` and `STOP` costs one cycle for each of
its accesses and a fixed number of internal cycles, which depends on whether it branches. -/
theorem cost_step_eq_traffic {s : Core β} {opcode : Byte} {i : Instruction}
    (hhalted : s.cpu.halted = false) (hstopped : s.cpu.stopped = false)
    (hopcode : (Bus.read8 s.cpu.registers.pc s.bus).1 = opcode)
    (hassigned : opcode ∉ Instruction.holes) (hstop : opcode ≠ 0x10) (hhalt : opcode ≠ 0x76)
    (hi : Instruction.decode opcode = i) :
    s.step.result =
      .ok (s.stepAccesses.size + i.internalCycles (i.branches s.cpu.registers.f)) := by
  have hcurrent : s.traced.current = i := by
    rw [current_eq, ← hi, ← hopcode]
    rfl
  have hregular : s.traced.current = .prefixed ∨ s.traced.current.isRegular = true := by
    rw [hcurrent, ← hi]
    exact Instruction.isRegular_decode opcode hassigned hstop hhalt
  obtain ⟨cycles, hresult, hcost⟩ := cost_eq_traffic hregular
  have hrun : s.traced.step = s.traced.runInstruction := by
    rw [step_of_not_stopped (s := s.traced) hstopped,
      stepAwake_of_not_halted (s := s.traced) hhalted]
  have hstep : s.step.result = .ok cycles := by
    rw [← (step_traced s).1, hrun, runInstruction_of_ok hresult]
  have hbus : s.stepAccesses = s.traced.executeCurrent.state.bus.accesses := by
    rw [stepAccesses, hrun, Bus.Simulation.bus_runInstruction]
  have hnone : s.traced.traffic = 0 := rfl
  rw [hstep, hbus]
  rw [hcurrent, hnone, Nat.zero_add] at hcost
  rw [← Instruction.taken_eq]
  exact congrArg Except.ok hcost

/-- A return under the halt bug whose condition holds: its opcode and the two bytes of the address
are read, and two of its five cycles are internal. -/
theorem cost_step_eq_traffic_taken_return :
    ∃ space : AddressSpace,
      let s : Core AddressSpace :=
        ⟨{ registers := { pc := 0xC000, sp := 0xD000 }, haltBug := true }, space⟩
      (Bus.read8 s.cpu.registers.pc s.bus).1 = 0xC0 ∧ s.step.result = .ok 5 ∧
        s.stepAccesses.size = 3 := by
  refine ⟨AddressSpace.zero.set 0xC000 0xC0, ?_⟩
  intro s
  have hopcode : (Bus.read8 s.cpu.registers.pc s.bus).1 = 0xC0 := AddressSpace.get_set_self _ _ _
  have hcurrent : s.current = .ret (some .nz) := by
    rw [current_eq, hopcode]
    rfl
  have htaken : Instruction.taken s.cpu.registers (.ret (some .nz)) = true := by decide
  have hresult : s.step.result = .ok 5 := by
    have hexecute : s.executeCurrent.result = .ok 5 := by
      have htaken' := (taken_immediate (by rw [hcurrent]; simp) (.ret (some .nz))).trans htaken
      rw [executeCurrent, hcurrent, result_execute rfl, Instruction.cost, htaken']
      rfl
    rw [step_of_not_stopped (s := s) rfl, stepAwake_of_not_halted (s := s) rfl,
      runInstruction_of_ok hexecute]
  have hlaw := cost_step_eq_traffic (s := s) (i := .ret (some .nz)) rfl rfl hopcode (by decide)
    (by decide) (by decide) rfl
  rw [← Instruction.taken_eq, htaken, hresult] at hlaw
  have hsize : 5 = s.stepAccesses.size + 2 := Except.ok.inj hlaw
  exact ⟨hopcode, hresult, by omega⟩

end Core

end GameBoy
