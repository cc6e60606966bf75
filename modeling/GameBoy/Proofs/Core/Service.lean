import GameBoy.Proofs.Core.Step
import GameBoy.Memory

/-!
# Serving interrupts

What serving interrupts does is determined by the two interrupt registers and four flags of the
processor. `Core.serviceInterrupts_exact` says it case by case, for every bus that a read leaves
alone: which source is dispatched, what is pushed and where, and what becomes of the two registers.

The push goes through the bus like any other store. When the stack reaches into the interrupt
registers, or into a region that drops or repeats a write, the request of the source is cleared in
the flags as the push left them.
-/

namespace GameBoy

/-! ## Buses without read effects -/

/-- A bus that a read leaves alone. -/
class QuietBus (β : Type) [Bus β] : Prop where
  read8_snd (addr : Word) (bus : β) : (Bus.read8 addr bus).2 = bus

instance : QuietBus AddressSpace := ⟨fun _ _ => rfl⟩

instance : QuietBus Memory := ⟨fun _ _ => rfl⟩

/-- The byte that a read at an address gives. -/
def Bus.peek {β : Type} [Bus β] (addr : Word) (bus : β) : Byte := (Bus.read8 addr bus).1

/-! ## The source with priority -/

/-- A bit is the lowest one that is set. -/
def Byte.IsLowest (bits : Byte) (k : Fin 8) : Prop :=
  Byte.has bits k = true ∧ ∀ j < k, Byte.has bits j = false

namespace Interrupt

theorem first?_eq_none_iff (bits : Byte) : first? bits = none ↔ bits &&& all = 0 := by
  revert bits
  exact Byte.forall_of_fin (by decide +kernel)

/-- The source with priority owns the lowest of the five bits that is set. -/
theorem isLowest_of_first? (bits : Byte) {source : Interrupt} :
    first? bits = some source → Byte.IsLowest (bits &&& all) source.index := by
  revert bits
  unfold Byte.IsLowest
  cases source <;> exact Byte.forall_of_fin (by decide +kernel)

theorem vector_eq (source : Interrupt) :
    source.vector = 0x40 + 8 * UInt16.ofNat source.index.val := by
  cases source <;> decide

end Interrupt

/-! ## Serving -/

namespace Core

variable {β : Type} [Bus β]

/-- Where the program goes on after an interrupt: at the halting byte while the halt bug is
pending. -/
def returnAddress (s : Core β) : Word :=
  if s.cpu.haltBug then s.cpu.registers.pc - 1 else s.cpu.registers.pc

/-- The bus after a word is pushed, the high byte first. -/
def pushed (value : Word) (s : Core β) : β :=
  Bus.write8 (s.cpu.registers.sp - 2) (Word.lo value)
    (Bus.write8 (s.cpu.registers.sp - 1) (Word.hi value) s.bus)

variable [QuietBus β]

theorem enabled_eq (s : Core β) : s.enabled = Bus.peek Hardware.interruptEnable s.bus := by
  show (Bus.read8 _ (Bus.read8 _ s.bus).2).1 = _
  rw [QuietBus.read8_snd]
  rfl

theorem attentive_eq (s : Core β) :
    s.attentive = ⟨{ s.cpu with
      halted := s.cpu.halted && s.pending &&& s.enabled &&& Interrupt.all == 0 }, s.bus⟩ := by
  unfold attentive
  congr 1
  show (Bus.read8 _ (Bus.read8 _ s.bus).2).2 = _
  rw [QuietBus.read8_snd, QuietBus.read8_snd]

theorem state_dispatch (source : Interrupt) (p e : Byte) (s : Core β) :
    (s.dispatch source p e).state =
      ⟨{ s.cpu with
          registers := { s.cpu.registers with pc := source.vector, sp := s.cpu.registers.sp - 2 }
          ime := false
          haltBug := false },
        Bus.write8 Hardware.interruptFlags
          (Byte.setBit (Bus.peek Hardware.interruptFlags (s.pushed s.returnAddress))
            source.index false)
          (s.pushed s.returnAddress)⟩ := by
  unfold dispatch
  dsimp only [read, write, push]
  rw [QuietBus.read8_snd]
  rfl

/-- **Serving interrupts.** A stopped processor does nothing. Any other wakes from the halt when
one of the five sources is requested and enabled. With interrupts enabled as a whole, the lowest
such source is dispatched: the return address goes on the stack, the program counter to the
source's routine, and the request is cleared in the flags as they are after the push. When the two
registers overlap, but on none of the sources, that is a fault which leaves everything as it was.
In all other cases nothing but the halt changes. -/
theorem serviceInterrupts_exact (s : Core β) :
    let pending := Bus.peek Hardware.interruptFlags s.bus
    let enabled := Bus.peek Hardware.interruptEnable s.bus
    let sources := pending &&& enabled &&& 0x1F
    let awake : Cpu := { s.cpu with halted := s.cpu.halted && sources == 0 }
    let o := s.serviceInterrupts
    (s.cpu.stopped = true → o.result = .ok 0 ∧ o.state = s) ∧
    (s.cpu.stopped = false →
      (s.cpu.ime = true → sources ≠ 0 → o.result = .ok 5 ∧
        ∃ k, Byte.IsLowest sources k ∧ o.state =
          ⟨{ awake with
              registers := { s.cpu.registers with
                pc := 0x40 + 8 * UInt16.ofNat k.val, sp := s.cpu.registers.sp - 2 }
              ime := false
              haltBug := false },
            Bus.write8 Hardware.interruptFlags
              (Byte.setBit (Bus.peek Hardware.interruptFlags (s.pushed s.returnAddress)) k false)
              (s.pushed s.returnAddress)⟩) ∧
      (s.cpu.ime = true → pending &&& enabled ≠ 0 → sources = 0 →
        o.result = .error (.invalidInterruptState pending enabled) ∧ o.state = s) ∧
      (s.cpu.ime = false ∨ pending &&& enabled = 0 →
        o.result = .ok 0 ∧ o.state = ⟨awake, s.bus⟩)) := by
  intro pending enabled sources awake o
  have henabled : s.enabled = enabled := enabled_eq s
  have hattentive : s.attentive = ⟨awake, s.bus⟩ := by rw [attentive_eq, henabled]; rfl
  refine ⟨fun hstopped => ?_, fun hstopped => ⟨fun hime hsources => ?_,
    fun hime hoverlap hsources => ?_, fun hquiet => ?_⟩⟩
  · -- stopped
    have ho : o = .ok 0 s := serviceInterrupts_of_stopped hstopped
    rw [ho]
    exact ⟨rfl, rfl⟩
  · -- a source is dispatched
    have ho := serviceInterrupts_of_unmasked hstopped hime
    rw [henabled, hattentive] at ho
    cases hfirst : Interrupt.first? (s.pending &&& enabled) with
    | none => exact absurd ((Interrupt.first?_eq_none_iff _).mp hfirst) hsources
    | some source =>
      rw [hfirst] at ho
      replace ho : o = (⟨awake, s.bus⟩ : Core β).dispatch source s.pending enabled := ho
      refine ⟨by rw [ho]; rfl, source.index, Interrupt.isLowest_of_first? _ hfirst, ?_⟩
      rw [ho, state_dispatch, Interrupt.vector_eq]
      rfl
  · -- the registers overlap outside the sources
    have ho := serviceInterrupts_of_unmasked hstopped hime
    have hnone := (Interrupt.first?_eq_none_iff (s.pending &&& enabled)).mpr hsources
    rw [henabled, hattentive, hnone] at ho
    replace ho : o = _ := ho.trans (if_neg fun h => hoverlap (eq_of_beq h))
    have hawake : awake = s.cpu := by
      show { s.cpu with halted := s.cpu.halted && sources == 0 } = s.cpu
      rw [hsources, beq_self_eq_true, Bool.and_true]
    rw [ho, hawake]
    exact ⟨rfl, rfl⟩
  · -- nothing to serve
    suffices ho : o = .ok 0 ⟨awake, s.bus⟩ by rw [ho]; exact ⟨rfl, rfl⟩
    cases hime : s.cpu.ime with
    | false => rw [← hattentive]; exact serviceInterrupts_of_masked hstopped hime
    | true =>
      have hzero : s.pending &&& enabled = 0 := hquiet.resolve_left (by simp [hime])
      have ho := serviceInterrupts_of_unmasked hstopped hime
      rw [henabled, hattentive, hzero] at ho
      exact ho

/-- A dispatch under the halt bug whose push lands on the flags: the request is cleared in the byte
that was pushed. -/
theorem serviceInterrupts_exact_onto_flags :
    ∃ m : Memory, m.read Hardware.interruptFlags = 0x05 ∧
      m.read Hardware.interruptEnable = 0x03 ∧
      let s : Core Memory :=
        ⟨{ registers := { pc := 0xC004, sp := 0xFF11 }, ime := true, haltBug := true }, m⟩
      let o := s.serviceInterrupts
      s.returnAddress = 0xC003 ∧ o.result = .ok 5 ∧
        o.state.cpu = { registers := { pc := 0x0040, sp := 0xFF0F } } ∧
        o.state.bus.read 0xFF10 = 0xC0 ∧ o.state.bus.read Hardware.interruptFlags = 0x02 := by
  obtain ⟨m, hpending, henabled⟩ : ∃ m : Memory, m.read Hardware.interruptFlags = 0x05 ∧
      m.read Hardware.interruptEnable = 0x03 := by
    refine ⟨((⟨.zero⟩ : Memory).poke Hardware.interruptFlags 0x05).poke
      Hardware.interruptEnable 0x03, ?_, Memory.read_poke_self _ _ _⟩
    rw [Memory.read_poke, if_neg (by decide), Memory.read_poke_self]
  refine ⟨m, hpending, henabled, ?_⟩
  intro s o
  have hreturn : s.returnAddress = 0xC003 := (by decide : (0xC004 : Word) - 1 = 0xC003)
  have hsp : (0xFF11 : Word) - 2 = Hardware.interruptFlags := by decide
  have hpushed : s.pushed 0xC003 = (m.write 0xFF10 0xC0).write Hardware.interruptFlags 0x03 := by
    unfold pushed
    dsimp only [s]
    rw [hsp, show (0xFF11 : Word) - 1 = 0xFF10 by decide, show Word.hi 0xC003 = 0xC0 by decide,
      show Word.lo 0xC003 = 0x03 by decide]
    rfl
  have key := (serviceInterrupts_exact s).2 rfl
  rw [show Bus.peek _ s.bus = 0x05 from hpending, show Bus.peek _ s.bus = 0x03 from henabled,
    hreturn, hpushed] at key
  obtain ⟨hresult, k, hk, hstate⟩ := key.1 rfl (by decide)
  obtain rfl : k = 0 := by
    clear hstate
    revert k
    unfold Byte.IsLowest
    decide
  have hflags : Region.of Hardware.interruptFlags = .plain := by decide
  rw [hstate]
  refine ⟨hreturn, hresult, ?_, ?_, ?_⟩
  · show ({ registers := { pc := _, sp := (0xFF11 : Word) - 2 } } : Cpu) = _
    rw [hsp]
    rfl
  · show (Memory.write _ _ _).read _ = _
    rw [Memory.read_write_of_plain hflags, if_neg (by decide), Memory.read_write_of_plain hflags,
      if_neg (by decide), Memory.read_write_of_plain (by decide), if_pos rfl]
  · show (Memory.write _ _ (Byte.setBit (Memory.read _ _) _ _)).read _ = _
    rw [Memory.read_write_of_plain hflags, if_pos rfl, Memory.read_write_of_plain hflags,
      if_pos rfl]
    rfl

end Core

end GameBoy
