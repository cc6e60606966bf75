import GameBoy.Proofs.Core.Masking
import GameBoy.Proofs.Core.Service
import GameBoy.Proofs.Memory.Arrival

/-!
# Interrupts that leave no trace

A service routine that is nothing but `RETI` costs time and otherwise goes unnoticed. A dispatch
pushes the return address and turns interrupts off; `RETI` pops the address and turns them on again.
So one round, which is a dispatch and the step behind it, resumes the interrupted program with one
request less (`Core.resumes_round`), and the next round finds the same return address, the same
stack and the remaining requests.

The two bytes below the stack pointer must take a write and give it back, and they must not be
interrupt registers (`Memory.Slot`). In the echo they are stored a second time, and that is all that
changes in memory besides the requests.

Main theorem: `Core.served_in_turn`. As many rounds as there are requests that are enabled serve
each of them once, in the order of priority, and resume the program.
-/

namespace GameBoy

/-! ## The sources in turn -/

namespace Interrupt

/-- The sources whose bit is set, in the order of service. -/
def sources (bits : Byte) : List Interrupt :=
  priority.filter fun source => Byte.has bits source.index

theorem mem_sources {bits : Byte} {source : Interrupt} :
    source ∈ sources bits ↔ Byte.has bits source.index = true := by
  have hall : source ∈ priority := by cases source <;> decide
  rw [sources, List.mem_filter]
  exact and_iff_right hall

/-- The order of service is that of the bits, and no source comes twice. -/
theorem sources_sorted (bits : Byte) : (sources bits).Pairwise fun x y => x.index < y.index :=
  List.Pairwise.filter _ (by decide)

/-- The source with priority is the first of them. -/
theorem first?_eq_head? (bits : Byte) : first? bits = (sources bits).head? :=
  List.head?_filter.symm

/-- The bits above the five belong to no source. -/
theorem sources_and_all (bits : Byte) : sources (bits &&& all) = sources bits := by
  have hall : ∀ source : Interrupt, Byte.has all source.index = true := by
    intro source
    cases source <;> decide
  refine List.filter_congr fun source _ => ?_
  rw [Byte.has_and, hall, Bool.and_true]

theorem index_inj {x y : Interrupt} : x.index = y.index ↔ x = y := by
  cases x <;> cases y <;> decide

theorem sources_acknowledge (bits : Byte) (source : Interrupt) :
    sources (bits &&& ~~~source.mask) = (sources bits).erase source := by
  have hnodup : (sources bits).Nodup :=
    (sources_sorted bits).imp fun hlt heq => Fin.ne_of_lt hlt (congrArg index heq)
  rw [hnodup.erase_eq_filter, sources, sources, List.filter_filter]
  refine List.filter_congr fun other _ => ?_
  rw [Byte.has_and, Byte.has_not, mask, Byte.has_bit, Bool.and_comm]
  simp only [index_inj]
  rfl

theorem sources_ne_nil {bits : Byte} (h : bits &&& all ≠ 0) : sources bits ≠ [] := by
  intro hnil
  rw [← List.head?_eq_none_iff, ← first?_eq_head?, first?_eq_none_iff] at hnil
  exact h hnil

theorem and_mask_of_mem {bits : Byte} {source : Interrupt} (h : source ∈ sources bits) :
    bits &&& source.mask = source.mask := by
  apply Byte.ext
  intro n
  rw [Byte.has_and, mask, Byte.has_bit]
  by_cases hn : n = source.index
  · rw [hn, mem_sources.mp h, Bool.true_and]
  · rw [decide_eq_false hn, Bool.and_false]

end Interrupt

/-! ## Places for the stack -/

namespace Memory

/-- An address that takes what is stored there, other than an interrupt register. -/
structure Slot (addr : Word) : Prop where
  above_window : 0x8000 ≤ addr
  usable : ¬ (0xFEA0 ≤ addr ∧ addr ≤ 0xFEFE)
  ne_line : addr ≠ Hardware.line
  ne_flags : addr ≠ Hardware.interruptFlags
  ne_enable : addr ≠ Hardware.interruptEnable

theorem Slot.takes {addr : Word} (h : Slot addr) : Takes addr :=
  takes_iff.mpr ⟨h.above_window, h.usable, h.ne_line⟩

theorem Slot.ne_flags_of_arrives {target addr : Word} (h : Slot target) (ha : Arrives target addr) :
    addr ≠ Hardware.interruptFlags := by
  rintro rfl
  exact not_arrives_of_high (by decide) h.ne_flags ha

theorem not_arrives_twice {sp addr : Word} (hhigh : Arrives (sp - 1) addr) :
    ¬ Arrives (sp - 2) addr := by
  unfold Arrives echoed at *
  grind

end Memory

/-! ## A dispatch and the return from it -/

theorem Cpu.ime_advanceEnable {cpu : Cpu} (h : cpu.ime = true) : cpu.advanceEnable.ime = true := by
  unfold advanceEnable
  split
  · rfl
  · split
    · exact h
    · exact h

namespace Core

/-- A round: an interrupt is served, and a step follows. -/
def round {β : Type} [Bus β] (s : Core β) : Core β := s.serviceInterrupts.state.step.state

/-- The core after some rounds. -/
def rounds {β : Type} [Bus β] (s : Core β) : Nat → Core β
  | 0 => s
  | n + 1 => s.round.rounds n

/-- Interrupts are on, each service routine returns at once, and the stack has place for a return
address. -/
structure Returning (s : Core Memory) : Prop where
  stopped : s.cpu.stopped = false
  ime : s.cpu.ime = true
  routine (source : Interrupt) : s.bus.read source.vector = 0xD9
  high : Memory.Slot (s.cpu.registers.sp - 1)
  low : Memory.Slot (s.cpu.registers.sp - 2)

/-- The round dispatches a source in five cycles, and returns from its routine in four. -/
structure Serves (s : Core Memory) (source : Interrupt) : Prop where
  dispatch : s.serviceInterrupts.result = .ok 5
  routine : s.serviceInterrupts.state.cpu.registers.pc = source.vector
  record : s.serviceInterrupts.events =
    #[.dispatched source s.returnAddress (s.cpu.registers.sp - 2) s.pending s.enabled]
  returned : s.serviceInterrupts.state.step.result = .ok 4

/-- A core goes on where another was interrupted. Nothing has changed in memory but the flags and
the stack entry of the return address. -/
structure Resumes (s t : Core Memory) : Prop where
  registers : t.cpu.registers = { s.cpu.registers with pc := s.returnAddress }
  ime : t.cpu.ime = true
  halted : t.cpu.halted = false
  haltBug : t.cpu.haltBug = false
  stopped : t.cpu.stopped = false
  high (addr : Word) : Memory.Arrives (s.cpu.registers.sp - 1) addr →
    t.bus.read addr = Word.hi s.returnAddress
  low (addr : Word) : Memory.Arrives (s.cpu.registers.sp - 2) addr →
    t.bus.read addr = Word.lo s.returnAddress
  memory (addr : Word) : addr ≠ Hardware.interruptFlags →
    ¬ Memory.Arrives (s.cpu.registers.sp - 1) addr →
    ¬ Memory.Arrives (s.cpu.registers.sp - 2) addr → t.bus.read addr = s.bus.read addr

variable {s t u : Core Memory} {source : Interrupt}

theorem step_of_reti (hstopped : s.cpu.stopped = false) (hhalted : s.cpu.halted = false)
    (hbug : s.cpu.haltBug = false) (hi : s.current = .reti) :
    s.step.result = .ok 4 ∧ s.step.state =
      ⟨Cpu.advanceEnable { s.cpu with
          registers := { s.cpu.registers with
            sp := s.cpu.registers.sp + 2
            pc := (Bus.read16 s.cpu.registers.sp s.bus).1 }
          ime := true }, s.bus⟩ := by
  have hfetch : s.fetch.2 = s.mapRegisters fun r => { r with pc := r.pc + 1 } := by
    unfold fetch
    dsimp only
    rw [if_neg (by simp [Core.read, hbug])]
    rfl
  have hpop : (s.mapRegisters fun r => { r with pc := r.pc + 1 }).apply .reti .none =
      ⟨{ s.cpu with
          registers := { s.cpu.registers with
            sp := s.cpu.registers.sp + 2
            pc := (Bus.read16 s.cpu.registers.sp s.bus).1 }
          ime := true }, s.bus⟩ := by
    dsimp only [apply, popPc, pop, setPc, mapRegisters]
    rfl
  have hexecute : s.executeCurrent = .ok 4 (s.fetch.2.apply .reti .none) := by
    rw [executeCurrent, immediate, hi]
    rfl
  rw [hfetch, hpop] at hexecute
  have hresult : s.executeCurrent.result = .ok 4 := by rw [hexecute]; rfl
  rw [step_of_running hhalted hstopped, runInstruction_of_ok hresult, hexecute]
  exact ⟨rfl, rfl⟩

/-! ## One round -/

/-- The two interrupt registers overlap on these sources. -/
def requests (s : Core Memory) : Byte :=
  s.bus.read Hardware.interruptFlags &&& s.bus.read Hardware.interruptEnable &&& Interrupt.all

/-- The core at the start of a service routine. -/
def entered (s : Core Memory) (source : Interrupt) : Core Memory :=
  let pushed : Memory := s.pushed s.returnAddress
  ⟨{ s.cpu with
      registers := { s.cpu.registers with pc := source.vector, sp := s.cpu.registers.sp - 2 }
      ime := false
      halted := false
      haltBug := false },
    pushed.write Hardware.interruptFlags
      (pushed.read Hardware.interruptFlags &&& ~~~source.mask)⟩

theorem first?_of_sources {rest : List Interrupt}
    (hsources : Interrupt.sources s.requests = source :: rest) :
    Interrupt.first? (s.pending &&& s.enabled) = some source := by
  rw [Interrupt.first?_eq_head?, ← Interrupt.sources_and_all]
  exact congrArg List.head? hsources

namespace Returning

variable (h : s.Returning)

include h

theorem read_pushed (value : Word) (addr : Word) :
    (s.pushed value).read addr =
      if Memory.Arrives (s.cpu.registers.sp - 2) addr then Word.lo value
      else if Memory.Arrives (s.cpu.registers.sp - 1) addr then Word.hi value
      else s.bus.read addr := by
  show ((s.bus.write _ _).write _ _).read addr = _
  rw [Memory.read_write_of_takes h.low.takes, Memory.read_write_of_takes h.high.takes]

theorem read_entered (addr : Word) :
    (s.entered source).bus.read addr =
      if addr = Hardware.interruptFlags then
        s.bus.read Hardware.interruptFlags &&& ~~~source.mask
      else (s.pushed s.returnAddress).read addr := by
  have hflags : (s.pushed s.returnAddress).read Hardware.interruptFlags =
      s.bus.read Hardware.interruptFlags := by
    rw [h.read_pushed, if_neg (Memory.not_arrives_of_high (by decide) h.low.ne_flags),
      if_neg (Memory.not_arrives_of_high (by decide) h.high.ne_flags)]
  unfold entered
  dsimp only
  rw [Memory.read_write_of_plain (by decide), hflags]

/-- The pop behind the push gives the return address back. -/
theorem read16_entered :
    (Bus.read16 (s.cpu.registers.sp - 2) (s.entered source).bus).1 = s.returnAddress := by
  have hnext : s.cpu.registers.sp - 2 + 1 = s.cpu.registers.sp - 1 := by grind
  have hhigh : Memory.Arrives (s.cpu.registers.sp - 1) (s.cpu.registers.sp - 1) := .inl rfl
  show Word.ofBytes ((s.entered source).bus.read (s.cpu.registers.sp - 2 + 1))
    ((s.entered source).bus.read (s.cpu.registers.sp - 2)) = _
  rw [hnext, h.read_entered, if_neg h.high.ne_flags, h.read_entered, if_neg h.low.ne_flags,
    h.read_pushed, if_neg (Memory.not_arrives_twice hhigh), if_pos hhigh, h.read_pushed,
    if_pos (.inl rfl), Word.ofBytes_hi_lo]

/-- The routine is where it was, since it lies in the cartridge window. -/
theorem current_entered : (s.entered source).current = .reti := by
  have hwindow : Memory.ReadOnly source.vector := .inl (by cases source <;> decide)
  have hbyte : (s.entered source).bus.read source.vector = 0xD9 := by
    rw [← h.routine source]
    exact Memory.read_of_reaches hwindow (.write _ _ (.write _ _ (.write _ _ .refl)))
  exact current_of_byte hbyte (by decide)

variable (hfirst : Interrupt.first? (s.pending &&& s.enabled) = some source)

include hfirst

theorem serviceInterrupts_eq :
    s.serviceInterrupts = ⟨.ok 5, s.entered source,
      #[.dispatched source s.returnAddress (s.cpu.registers.sp - 2) s.pending s.enabled]⟩ := by
  have hawake : s.attentive = ⟨{ s.cpu with halted := false }, s.bus⟩ := by
    have hrequested : (s.pending &&& s.enabled &&& Interrupt.all == 0) = false := by
      refine beq_false_of_ne fun hzero => ?_
      rw [(Interrupt.first?_eq_none_iff _).mpr hzero] at hfirst
      cases hfirst
    rw [attentive_eq, hrequested, Bool.and_false]
  rw [serviceInterrupts_of_unmasked h.stopped h.ime, hfirst, hawake]
  rfl

theorem round_eq :
    s.serviceInterrupts.state.step.result = .ok 4 ∧
      s.round = ⟨Cpu.advanceEnable { (s.entered source).cpu with
        registers := { s.cpu.registers with pc := s.returnAddress }
        ime := true }, (s.entered source).bus⟩ := by
  have hserve : s.serviceInterrupts.state = s.entered source := by
    rw [h.serviceInterrupts_eq hfirst]
  obtain ⟨hresult, hstate⟩ := step_of_reti (s := s.entered source) h.stopped rfl rfl
    h.current_entered
  have hsp : s.cpu.registers.sp - 2 + 2 = s.cpu.registers.sp := by grind
  unfold round
  rw [hserve]
  refine ⟨hresult, ?_⟩
  rw [hstate]
  show (⟨Cpu.advanceEnable { (s.entered source).cpu with
    registers := { (s.entered source).cpu.registers with
      sp := s.cpu.registers.sp - 2 + 2
      pc := (Bus.read16 (s.cpu.registers.sp - 2) (s.entered source).bus).1 }
    ime := true }, (s.entered source).bus⟩ : Core Memory) = _
  rw [hsp, h.read16_entered]
  rfl

theorem serves : s.Serves source := by
  have hserve := h.serviceInterrupts_eq hfirst
  exact ⟨by rw [hserve], by rw [hserve]; rfl, by rw [hserve], (h.round_eq hfirst).1⟩

/-- A round resumes the program. -/
theorem resumes_round : s.Resumes s.round := by
  obtain ⟨-, hround⟩ := h.round_eq hfirst
  have hread : ∀ addr, addr ≠ Hardware.interruptFlags →
      s.round.bus.read addr = (s.pushed s.returnAddress).read addr := fun addr haddr => by
    rw [hround]
    exact (h.read_entered addr).trans (if_neg haddr)
  have hlow := Cpu.lowPower_advanceEnable { (s.entered source).cpu with
    registers := { s.cpu.registers with pc := s.returnAddress }
    ime := true }
  refine ⟨?_, ?_, ?_, ?_, ?_, fun addr haddr => ?_, fun addr haddr => ?_,
    fun addr hflags hhigh hlow => ?_⟩
  · rw [hround]
    exact Cpu.registers_advanceEnable _
  · rw [hround]
    exact Cpu.ime_advanceEnable rfl
  · rw [hround]
    exact congrArg Prod.fst hlow
  · rw [hround]
    exact Cpu.haltBug_advanceEnable _
  · rw [hround]
    exact (congrArg Prod.snd hlow).trans h.stopped
  · rw [hread addr (h.high.ne_flags_of_arrives haddr), h.read_pushed,
      if_neg (Memory.not_arrives_twice haddr), if_pos haddr]
  · rw [hread addr (h.low.ne_flags_of_arrives haddr), h.read_pushed, if_pos haddr]
  · rw [hread addr hflags, h.read_pushed, if_neg hlow, if_neg hhigh]

/-- A round acknowledges one request. -/
theorem flags_round :
    s.round.bus.read Hardware.interruptFlags =
      s.bus.read Hardware.interruptFlags &&& ~~~source.mask := by
  rw [(h.round_eq hfirst).2]
  exact (h.read_entered _).trans (if_pos rfl)

/-- The next round finds what this one found. -/
theorem returning_round : s.round.Returning := by
  have ht := h.resumes_round hfirst
  refine ⟨ht.stopped, ht.ime, fun source => ?_, ?_, ?_⟩
  · have hwindow : Memory.ReadOnly source.vector := .inl (by cases source <;> decide)
    rw [← h.routine source]
    exact Memory.read_of_reaches hwindow (reaches_step (reaches_serviceInterrupts .refl))
  · rw [ht.registers]
    exact h.high
  · rw [ht.registers]
    exact h.low

theorem requests_round : s.round.requests = s.requests &&& ~~~source.mask := by
  have henable : s.round.bus.read Hardware.interruptEnable =
      s.bus.read Hardware.interruptEnable :=
    (h.resumes_round hfirst).memory _ (by decide)
      (Memory.not_arrives_of_high (by decide) h.high.ne_enable)
      (Memory.not_arrives_of_high (by decide) h.low.ne_enable)
  unfold requests
  rw [h.flags_round hfirst, henable]
  ac_rfl

end Returning

/-! ## All rounds -/

namespace Resumes

theorem returnAddress (h : s.Resumes t) : t.returnAddress = s.returnAddress := by
  rw [Core.returnAddress, if_neg (by simp [h.haltBug]), h.registers]

theorem trans (hst : s.Resumes t) (htu : t.Resumes u) : s.Resumes u := by
  have hreturn := hst.returnAddress
  have hsp : t.cpu.registers.sp = s.cpu.registers.sp := by rw [hst.registers]
  refine ⟨?_, htu.ime, htu.halted, htu.haltBug, htu.stopped, fun addr haddr => ?_,
    fun addr haddr => ?_, fun addr hflags hhigh hlow => ?_⟩
  · rw [htu.registers, hst.registers, hreturn]
  · rw [← hreturn]
    exact htu.high addr (hsp ▸ haddr)
  · rw [← hreturn]
    exact htu.low addr (hsp ▸ haddr)
  · rw [htu.memory addr hflags (hsp ▸ hhigh) (hsp ▸ hlow), hst.memory addr hflags hhigh hlow]

end Resumes

/-- Clearing one of some bits before all of them makes no difference. -/
theorem acknowledge_first {flags enabled all mask : Byte}
    (h : flags &&& enabled &&& all &&& mask = mask) :
    flags &&& ~~~mask &&& ~~~(flags &&& enabled &&& all &&& ~~~mask) =
      flags &&& ~~~(flags &&& enabled &&& all) := by
  apply Byte.ext
  intro n
  have hn := congrArg (Byte.has · n) h
  simp only [Byte.has_and, Byte.has_not] at hn ⊢
  grind

/-- The rounds for all sources. The induction is on those that are left: the first round resumes the
program, with the remaining sources requested and the same other flags. -/
theorem Returning.rounds {sources : List Interrupt} (h : s.Returning)
    (hsources : Interrupt.sources s.requests = sources) :
    (∀ i source, sources[i]? = some source → (s.rounds i).Serves source) ∧
      (sources ≠ [] → s.Resumes (s.rounds sources.length)) ∧
      (s.rounds sources.length).bus.read Hardware.interruptFlags =
        s.bus.read Hardware.interruptFlags &&& ~~~s.requests := by
  induction sources generalizing s with
  | nil =>
    have hall : s.requests &&& Interrupt.all = s.requests := by
      rw [requests, UInt8.and_assoc, UInt8.and_self]
    have hnone : s.requests = 0 := by
      rw [← hall]
      exact Classical.not_not.mp fun hne => Interrupt.sources_ne_nil hne hsources
    refine ⟨fun i source hi => by simp at hi, fun hne => absurd rfl hne, ?_⟩
    rw [hnone, UInt8.not_zero, UInt8.and_neg_one]
    rfl
  | cons source rest ih =>
    have hfirst := first?_of_sources hsources
    have hleft : Interrupt.sources s.round.requests = rest := by
      rw [h.requests_round hfirst, Interrupt.sources_acknowledge, hsources, List.erase_cons_head]
    have hround := h.resumes_round hfirst
    obtain ⟨hserves, hresumes, hflags⟩ := ih (h.returning_round hfirst) hleft
    refine ⟨fun i x hx => ?_, fun _ => ?_, ?_⟩
    · cases i with
      | zero =>
        obtain rfl : source = x := by simpa using hx
        exact h.serves hfirst
      | succ i => exact hserves i x (by simpa using hx)
    · by_cases hrest : rest = []
      · subst hrest
        exact hround
      · exact hround.trans (hresumes hrest)
    · refine hflags.trans ?_
      rw [h.flags_round hfirst, h.requests_round hfirst]
      exact acknowledge_first (Interrupt.and_mask_of_mem (hsources ▸ List.mem_cons_self))

/-- **Serving in turn.** Let interrupts be on, all service routines return at once, and the stack
have place for a return address. When sources are requested and enabled, as many rounds as there are
of them dispatch each one once, the lowest bit first, in five cycles and four for the return. They
resume the program, or the halting byte while the halt bug was pending. No register has changed, the
requests that were served are cleared, and otherwise nothing in memory has changed but the two bytes
below the stack pointer, and those that they echo. -/
theorem served_in_turn (h : s.Returning)
    (hrequests : s.bus.read Hardware.interruptFlags &&& s.bus.read Hardware.interruptEnable &&&
      0x1F ≠ 0) :
    let requests := s.bus.read Hardware.interruptFlags &&& s.bus.read Hardware.interruptEnable &&&
      0x1F
    let sources := Interrupt.sources requests
    let t := s.rounds sources.length
    (sources.Pairwise fun x y => x.index < y.index) ∧
      (∀ source, source ∈ sources ↔ Byte.has requests source.index = true) ∧
      (∀ i source, sources[i]? = some source → (s.rounds i).Serves source) ∧
      s.Resumes t ∧
      t.bus.read Hardware.interruptFlags =
        s.bus.read Hardware.interruptFlags &&& ~~~requests := by
  intro requests sources t
  obtain ⟨hserves, hresumes, hflags⟩ :=
    h.rounds (show Interrupt.sources s.requests = sources from rfl)
  have hne : sources ≠ [] := by
    refine Interrupt.sources_ne_nil ?_
    rw [UInt8.and_assoc, show (0x1F : Byte) &&& Interrupt.all = 0x1F by decide]
    exact hrequests
  exact ⟨Interrupt.sources_sorted _, fun _ => Interrupt.mem_sources, hserves, hresumes hne, hflags⟩

/-- Two of three requests are enabled, under the halt bug and with a stack that reaches into the
echo by one byte. -/
theorem served_in_turn_at_echo :
    ∃ m : Memory, m.read Hardware.interruptFlags = 0x0B ∧ m.read Hardware.interruptEnable = 0x0A ∧
      let s : Core Memory :=
        ⟨{ registers := { a := 0x12, pc := 0xC105, sp := 0xE001 }, ime := true, haltBug := true },
          m⟩
      let t := s.rounds 2
      s.Returning ∧ s.Serves .lcdStat ∧ (s.rounds 1).Serves .serial ∧
        t.cpu.registers = { a := 0x12, pc := 0xC104, sp := 0xE001 } ∧ t.cpu.ime = true ∧
        t.bus.read Hardware.interruptFlags = 0x01 ∧ t.bus.read 0xDFFF = 0x04 ∧
        t.bus.read 0xE000 = 0xC1 ∧ t.bus.read 0xC000 = 0xC1 := by
  obtain ⟨m, hroutine, hflags, henable⟩ : ∃ m : Memory,
      (∀ source : Interrupt, m.read source.vector = 0xD9) ∧
        m.read Hardware.interruptFlags = 0x0B ∧ m.read Hardware.interruptEnable = 0x0A := by
    refine ⟨⟨.ofFn fun addr => if addr = Hardware.interruptFlags then 0x0B
      else if addr = Hardware.interruptEnable then 0x0A else 0xD9⟩, fun source => ?_, ?_, ?_⟩
    · rw [Memory.read_mk, AddressSpace.get_ofFn]
      cases source <;> decide
    · rw [Memory.read_mk, AddressSpace.get_ofFn]
      decide
    · rw [Memory.read_mk, AddressSpace.get_ofFn]
      decide
  refine ⟨m, hflags, henable, ?_⟩
  intro s t
  have hhigh : Memory.Slot (0xE001 - 1) := by constructor <;> decide
  have hlow : Memory.Slot (0xE001 - 2) := by constructor <;> decide
  have hreturning : s.Returning := ⟨rfl, rfl, hroutine, hhigh, hlow⟩
  have hreturn : s.returnAddress = 0xC104 := (by decide : (0xC105 : Word) - 1 = 0xC104)
  have key := served_in_turn hreturning
  rw [show s.bus.read Hardware.interruptFlags = 0x0B from hflags,
    show s.bus.read Hardware.interruptEnable = 0x0A from henable,
    show (0x0B : Byte) &&& 0x0A &&& 0x1F = 0x0A by decide] at key
  obtain ⟨-, -, hserves, hresumes, hafter⟩ := key (by decide)
  have hsources : Interrupt.sources 0x0A = [.lcdStat, .serial] := by decide
  rw [hsources] at hserves hresumes hafter
  have h₁ : Memory.Arrives (0xE001 - 2) 0xDFFF := by decide
  have h₂ : Memory.Arrives (0xE001 - 1) 0xE000 := by decide
  have h₃ : Memory.Arrives (0xE001 - 1) 0xC000 := by decide
  refine ⟨hreturning, hserves 0 _ rfl, hserves 1 _ rfl, hresumes.registers.trans ?_, hresumes.ime,
    hafter, (hresumes.low _ h₁).trans ?_, (hresumes.high _ h₂).trans ?_,
    (hresumes.high _ h₃).trans ?_⟩
  · rw [hreturn]
  · rw [hreturn]
    decide
  · rw [hreturn]
    decide
  · rw [hreturn]
    decide

end Core

end GameBoy
