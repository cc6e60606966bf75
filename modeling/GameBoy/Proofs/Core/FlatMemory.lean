import GameBoy.Proofs.Core.ProgramCounter
import GameBoy.Proofs.Core.Simulation

/-!
# The memory as a flat bus

An `AddressSpace` stores every byte where it is told to; a `Memory` does so at most addresses
(`Memory.Ordinary`), and by the rule of a region at the others. A processor that writes to ordinary
addresses only cannot tell the two apart.

The recorder decides what was written: a memory behind a recorder simulates the flat address space
under it, and is lost as soon as a write elsewhere is recorded (`Memory.flatSimulation`). Nothing
about instructions is proved here; the simulation carries over to calls, and by induction to any
number of them (`Bus.Simulation.outcomes_eq`).

Main theorem: `Core.outcomes_flat`.
-/

namespace GameBoy

/-! ## Calls -/

namespace Core

variable {β : Type}

/-- The core with its bus replaced by what a function makes of it. -/
def mapBus {γ : Type} (f : β → γ) (s : Core β) : Core γ := ⟨s.cpu, f s.bus⟩

/-- What a driver asks of a processor. -/
inductive Call where
  | service
  | step
  deriving DecidableEq, Repr

variable [Bus β]

def call (s : Core β) : Call → Outcome (Core β) Nat
  | .service => s.serviceInterrupts
  | .step => s.step

/-- The outcomes of some calls, one after the other. A fault does not end them. -/
def outcomes (s : Core β) : List Call → List (Outcome (Core β) Nat)
  | [] => []
  | c :: cs => s.call c :: (s.call c).state.outcomes cs

/-- The core after some calls. -/
def afterCalls (s : Core β) : List Call → Core β
  | [] => s
  | c :: cs => (s.call c).state.afterCalls cs

/-- The accesses of some calls, the oldest first. -/
def callAccesses (s : Core β) (calls : List Call) : Array Access :=
  (s.traced.afterCalls calls).bus.accesses

theorem reaches_call {start : β} {s : Core β} (c : Call) (h : Bus.Reaches start s.bus) :
    Bus.Reaches start (s.call c).state.bus := by
  cases c with
  | service => exact reaches_serviceInterrupts h
  | step => exact reaches_step h

theorem reaches_afterCalls {start : β} {s : Core β} (calls : List Call)
    (h : Bus.Reaches start s.bus) : Bus.Reaches start (s.afterCalls calls).bus := by
  induction calls generalizing s with
  | nil => exact h
  | cons c cs ih => exact ih (reaches_call c h)

end Core

namespace Bus.Simulation

variable {β γ : Type} [Bus β] [Bus γ] (sim : Bus.Simulation β γ)

theorem alike_call {s : Core β} {t : Core γ} (h : sim.Alike s t) (c : Core.Call) :
    sim.AlikeOutcome (s.call c) (t.call c) := by
  cases c with
  | service => exact sim.alike_serviceInterrupts h
  | step => exact sim.alike_step h

/-- A relation that is a function carries the outcomes on one bus to those on the other, as long as
the first bus is not lost. -/
theorem outcomes_eq (f : β → γ) (hf : ∀ {b c}, sim.related b c ↔ f b = c) {s : Core β}
    (calls : List Core.Call) (hlost : ¬ sim.lost (s.afterCalls calls).bus) :
    (s.outcomes calls).map (Outcome.mapState (Core.mapBus f)) = (s.mapBus f).outcomes calls := by
  induction calls generalizing s with
  | nil => rfl
  | cons c cs ih =>
    have halike := sim.alike_call (s := s) (t := s.mapBus f) (.inr ⟨rfl, hf.mpr rfl⟩) c
    have hkept : ¬ sim.lost (s.call c).state.bus := fun h =>
      hlost (sim.lost_of_reaches h (Core.reaches_afterCalls cs .refl))
    obtain ⟨hresult, hevents, hcpu, hbus⟩ := halike.resolve_left hkept
    have hcall : (s.call c).mapState (Core.mapBus f) = (s.mapBus f).call c := by
      unfold Outcome.mapState Core.mapBus
      rw [hresult, hevents, hcpu, hf.mp hbus]
      rfl
    have hstate : (s.call c).state.mapBus f = ((s.mapBus f).call c).state :=
      congrArg Outcome.state hcall
    show (s.call c).mapState _ :: ((s.call c).state.outcomes cs).map _ = _
    rw [hcall, ih hlost, hstate]
    rfl

end Bus.Simulation

/-! ## Ordinary addresses -/

namespace Memory

/-- The addresses at which a write stores its byte and does nothing else. -/
def Ordinary (addr : Word) : Prop :=
  0x8000 ≤ addr.toNat ∧ addr.toNat ≤ 0xDFFF ∨ 0xFE00 ≤ addr.toNat ∧ addr.toNat ≤ 0xFE9F ∨
    0xFEFF ≤ addr.toNat ∧ addr.toNat ≤ 0xFF43 ∨ 0xFF45 ≤ addr.toNat ∧ addr.toNat ≤ 0xFFFF

instance (addr : Word) : Decidable (Ordinary addr) := inferInstanceAs (Decidable (_ ∨ _))

theorem ordinary_iff {addr : Word} : Ordinary addr ↔ Region.of addr = .plain := by
  have := addr.toNat_lt
  rw [Region.of_eq]
  unfold Ordinary
  grind

theorem space_write_of_ordinary {addr : Word} (h : Ordinary addr) (m : Memory) (value : Byte) :
    (m.write addr value).space = m.space.set addr value := by
  rw [write, ordinary_iff.mp h]
  rfl

/-- A memory behind a recorder is flat, unless a write to another than an ordinary address has been
recorded. -/
def flatSimulation : Bus.Simulation (Traced Memory) AddressSpace where
  related traced space := traced.bus.space = space
  lost traced := ∃ addr value, .write addr value ∈ traced.accesses ∧ ¬ Ordinary addr
  value addr h := by rw [← h]; rfl
  read addr h := h
  write {traced space} addr value h := by
    by_cases ho : Ordinary addr
    · refine .inr ?_
      show (traced.bus.write addr value).space = space.set addr value
      rw [space_write_of_ordinary ho, h]
    · exact .inl ⟨addr, value, Array.mem_push_self, ho⟩
  lost_read addr := by
    rintro ⟨addr', value, hmem, ho⟩
    exact ⟨addr', value, Array.mem_push_of_mem _ hmem, ho⟩
  lost_write addr value := by
    rintro ⟨addr', value', hmem, ho⟩
    exact ⟨addr', value', Array.mem_push_of_mem _ hmem, ho⟩

end Memory

/-! ## The law -/

namespace Core

/-- **The memory refines the flat bus.** On a memory and on an address space that holds the same
bytes, calls have the same outcomes, one by one: results and faults, events, processors, and the
bytes at all addresses. This holds as long as the calls on the memory write to ordinary addresses
only. -/
theorem outcomes_flat (cpu : Cpu) {m : Memory} {flat : AddressSpace} (calls : List Call)
    (hbytes : ∀ addr, m.read addr = flat.get addr)
    (hwrites : ∀ addr value,
      .write addr value ∈ (⟨cpu, m⟩ : Core Memory).callAccesses calls → Memory.Ordinary addr) :
    ((⟨cpu, m⟩ : Core Memory).outcomes calls).map (Outcome.mapState (mapBus Memory.space)) =
      (⟨cpu, flat⟩ : Core AddressSpace).outcomes calls := by
  obtain rfl : m.space = flat := AddressSpace.ext hbytes
  let s : Core Memory := ⟨cpu, m⟩
  have hkept : ¬ Memory.flatSimulation.lost (s.traced.afterCalls calls).bus := by
    rintro ⟨addr, value, hmem, ho⟩
    exact ho (hwrites addr value hmem)
  -- both runs are read off the one on the memory behind a recorder
  have hflat := Memory.flatSimulation.outcomes_eq (·.bus.space) Iff.rfl calls hkept
  have htraced := (Traced.simulation Memory).outcomes_eq (s := s.traced) Traced.bus Iff.rfl calls id
  show (s.outcomes calls).map _ = _
  rw [show s.traced.mapBus Traced.bus = s from rfl] at htraced
  rw [← htraced, List.map_map]
  exact hflat

/-- A push right below the echo. -/
theorem outcomes_flat_of_push :
    ∃ m : Memory,
      let cpu : Cpu := { registers := { b := 0x12, c := 0x34, sp := 0xE000, pc := 0x0100 } }
      let s : Core Memory := ⟨cpu, m⟩
      m.read 0x0100 = 0xC5 ∧
      s.callAccesses [.step] = #[.read 0x0100 0xC5, .write 0xDFFF 0x12, .write 0xDFFE 0x34] ∧
        (s.outcomes [.step]).map (Outcome.mapState (mapBus Memory.space)) =
          (⟨cpu, m.space⟩ : Core AddressSpace).outcomes [.step] := by
  obtain ⟨m, hm⟩ : ∃ m : Memory, m.read 0x0100 = 0xC5 :=
    ⟨(⟨.zero⟩ : Memory).poke 0x0100 0xC5, Memory.read_poke_self _ _ _⟩
  refine ⟨m, ?_⟩
  intro cpu s
  have hcurrent : s.traced.current = .push .bc := by
    rw [current_eq]
    show Instruction.decode (m.read 0x0100) = _
    rw [hm]
    rfl
  have haccesses : s.callAccesses [.step] =
      #[.read 0x0100 0xC5, .write 0xDFFF 0x12, .write 0xDFFE 0x34] := by
    show s.traced.step.state.bus.accesses = _
    rw [bus_step_of_push (s := s.traced) rfl hcurrent, bus_fetch]
    show #[Access.read 0x0100 (m.read 0x0100),
      .write (0xE000 - 1) (Word.hi (Word.ofBytes 0x12 0x34)),
      .write (0xE000 - 2) (Word.lo (Word.ofBytes 0x12 0x34))] = _
    rw [hm]
    decide
  refine ⟨hm, haccesses, outcomes_flat cpu [.step] (fun _ => rfl) fun addr value hmem => ?_⟩
  rw [haccesses] at hmem
  have haddr : addr = 0xDFFF ∧ value = 0x12 ∨ addr = 0xDFFE ∧ value = 0x34 := by
    simpa using hmem
  rcases haddr with ⟨rfl, -⟩ | ⟨rfl, -⟩ <;> decide

end Core

end GameBoy
