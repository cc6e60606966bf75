import GameBoy.Proofs.Core.Enable

/-!
# Interrupts inside a service routine

A processor is driven by moves (`Core.Move`): it serves interrupts, it steps, and between the two
its bus may change in any way. A dispatch clears the interrupt master enable, so that the service
routine runs with interrupts disabled until it executes `EI` or `RETI`.

That holds as far as nothing is scheduled. A dispatch leaves the schedule of an earlier `EI` in
place, and the enable that it clears comes back when the schedule runs out
(`Core.staysMasked_iff`): after one or two instructions of the routine, unless one of them is `DI`.
A schedule is left at a dispatch only when `EI` was executed while another `EI` was still scheduled
(`Core.RepeatsEi`), as in `EI; EI`: the second one finds the enable cleared and schedules it again,
and the schedule of the first one turns it on at the end of the same instruction.
-/

namespace GameBoy

/-! ## When a schedule runs out -/

/-- A scheduled enable takes effect within some instructions: they are enough, and no `DI` among
them cancels it. -/
def TakesEffect (wait : Option Nat) (instructions : List Instruction) : Prop :=
  ∃ n, wait = some n ∧ n ≤ instructions.length ∧ Instruction.di ∉ instructions.take n

theorem takesEffect_some {n : Nat} {is : List Instruction} :
    TakesEffect (some n) is ↔ n ≤ is.length ∧ Instruction.di ∉ is.take n := by
  constructor
  · rintro ⟨n', hn, h⟩
    obtain rfl := Option.some.inj hn
    exact h
  · exact fun h => ⟨n, rfl, h⟩

theorem not_takesEffect_none (is : List Instruction) : ¬ TakesEffect none is := by
  rintro ⟨n, hn, -⟩
  cases hn

namespace EnableState

theorem not_takesEffect_nil (e : EnableState) : ¬ TakesEffect e.wait? [] := by
  unfold wait?
  split
  · simp [takesEffect_some]
  · split
    · simp [takesEffect_some]
    · exact not_takesEffect_none _

/-- With the enable cleared, the schedule runs out at the next instruction or later on. -/
theorem takesEffect_cons {e : EnableState} (hon : e.on = false) {i : Instruction} (hei : i ≠ .ei)
    (hreti : i ≠ .reti) (is : List Instruction) :
    TakesEffect e.wait? (i :: is) ↔ (e.run i).on = true ∨ TakesEffect (e.run i).wait? is := by
  obtain ⟨on, pending, delayed⟩ := e
  obtain rfl : on = false := hon
  by_cases hdi : i = .di
  · -- `DI` cancels whatever is scheduled
    subst hdi
    cases pending <;> cases delayed <;>
      simp [run, execute, advance, wait?, takesEffect_some, not_takesEffect_none]
  · rw [run_of_calm hei hreti hdi]
    cases pending <;> cases delayed <;>
      simp [advance, wait?, takesEffect_some, not_takesEffect_none, Ne.symm hdi]

/-- What the flags are between two moves as long as no `EI` is executed while one is scheduled. -/
structure Settled (e : EnableState) : Prop where
  pending : e.pending = false
  delayed : e.on = true → e.delayed = false

theorem Settled.wait?_of_on {e : EnableState} (h : e.Settled) (hon : e.on = true) :
    e.wait? = none := by
  simp [wait?, h.pending, h.delayed hon]

theorem Settled.dispatch {e : EnableState} (h : e.Settled) : e.dispatch.Settled :=
  ⟨h.pending, fun hon => nomatch hon⟩

/-- A settled schedule that moves on is settled: an enable that is delayed takes effect. -/
theorem Settled.advance {e : EnableState} (h : e.Settled) : e.advance.Settled := by
  unfold EnableState.advance
  split
  · exact ⟨h.pending, fun _ => rfl⟩
  · split
    · rename_i hp
      rw [h.pending] at hp
      cases hp
    · exact h

theorem Settled.run {e : EnableState} (h : e.Settled) {i : Instruction}
    (hi : i = .ei → e.delayed = false) : (e.run i).Settled := by
  by_cases hei : i = .ei
  · -- the second stage is free, so that the schedule moves into it
    obtain ⟨on, pending, delayed⟩ := e
    obtain rfl : pending = false := h.pending
    obtain rfl : delayed = false := hi hei
    subst hei
    cases on with
    | true => exact ⟨rfl, fun _ => rfl⟩
    | false => exact ⟨rfl, fun hon => nomatch hon⟩
  by_cases hreti : i = .reti
  · obtain ⟨on, pending, delayed⟩ := e
    obtain rfl : pending = false := h.pending
    subst hreti
    cases delayed with
    | true => exact ⟨rfl, fun _ => rfl⟩
    | false => exact ⟨rfl, fun _ => rfl⟩
  by_cases hdi : i = .di
  · subst hdi
    exact ⟨rfl, fun _ => rfl⟩
  rw [run_of_calm hei hreti hdi]
  exact h.advance

end EnableState

/-! ## Moves -/

namespace Core

variable {β : Type} [Bus β] {s : Core β}

/-- What happens to a processor: it serves interrupts, it steps, or its bus changes. -/
inductive Move (β : Type) where
  | service
  | step
  | change (bus : β)

/-- The core after a move, whether it faults or not. -/
def move (s : Core β) : Move β → Core β
  | .service => s.serviceInterrupts.state
  | .step => s.step.state
  | .change bus => ⟨s.cpu, bus⟩

/-- The instruction that a move runs to its end. -/
def ran? (s : Core β) : Move β → Option Instruction
  | .step => s.finished?
  | _ => none

/-- The core after some moves. -/
def after (s : Core β) : List (Move β) → Core β
  | [] => s
  | m :: ms => (s.move m).after ms

/-- The instructions that some moves run to their end. -/
def ran (s : Core β) : List (Move β) → List Instruction
  | [] => []
  | m :: ms => (s.ran? m).toList ++ (s.move m).ran ms

/-- Interrupts are disabled, and serving them dispatches none. -/
def Masked (s : Core β) : Prop :=
  s.cpu.ime = false ∧ s.serviceInterrupts.result ≠ .ok dispatchCycles

/-- Interrupts are disabled, and none can be dispatched, before, between and after some moves. -/
def StaysMasked (s : Core β) : List (Move β) → Prop
  | [] => s.Masked
  | m :: ms => s.Masked ∧ (s.move m).StaysMasked ms

/-- No move runs an instruction that asks for interrupts. -/
def Calm (s : Core β) (ms : List (Move β)) : Prop := .ei ∉ s.ran ms ∧ .reti ∉ s.ran ms

/-- Some move executes `EI` while an enable is scheduled. -/
def RepeatsEi (s : Core β) : List (Move β) → Prop
  | [] => False
  | m :: ms => s.ran? m = some .ei ∧ s.cpu.enableScheduled = true ∨ (s.move m).RepeatsEi ms

/-- A processor at power-on, with its two settings, on a bus. -/
def powerOn (policy : HolePolicy) (tracing : Bool) (bus : β) : Core β :=
  ⟨{ Cpu.powerOn with policy := policy, tracing := tracing }, bus⟩

theorem after_append (s : Core β) (ms more : List (Move β)) :
    s.after (ms ++ more) = (s.after ms).after more := by
  induction ms generalizing s with
  | nil => rfl
  | cons m ms ih => exact ih (s.move m)

theorem ran_append (s : Core β) (ms more : List (Move β)) :
    s.ran (ms ++ more) = s.ran ms ++ (s.after ms).ran more := by
  induction ms generalizing s with
  | nil => rfl
  | cons m ms ih =>
    show (s.ran? m).toList ++ (s.move m).ran (ms ++ more) = _
    rw [ih, ← List.append_assoc]
    rfl

theorem masked_iff : s.Masked ↔ s.cpu.ime = false := by
  refine ⟨And.left, fun h => ⟨h, ?_⟩⟩
  rcases enableState_serviceInterrupts s with ⟨hr, -⟩ | ⟨hime, -⟩
  · exact hr
  · rw [h] at hime
    cases hime

theorem enableState_move (h : s.cpu.ime = false) (m : Move β) :
    (s.move m).cpu.enableState =
      ((s.ran? m).elim s.cpu.enableState fun i => s.cpu.enableState.run i) := by
  cases m with
  | service =>
    rcases enableState_serviceInterrupts s with ⟨-, hs⟩ | ⟨hime, -⟩
    · exact hs
    · rw [h] at hime
      cases hime
  | step => exact enableState_step s
  | change bus => rfl

/-- From disabled interrupts on, and without an instruction that asks for them, interrupts stay
disabled exactly as long as no scheduled enable takes effect. -/
theorem staysMasked_iff {ms : List (Move β)} (h : s.cpu.ime = false) (hcalm : s.Calm ms) :
    s.StaysMasked ms ↔ ¬ TakesEffect s.cpu.enableState.wait? (s.ran ms) := by
  induction ms generalizing s with
  | nil => exact ⟨fun _ => s.cpu.enableState.not_takesEffect_nil, fun _ => masked_iff.mpr h⟩
  | cons m ms ih =>
    have hstate := enableState_move h m
    unfold Calm ran at hcalm
    rw [StaysMasked, masked_iff, ran]
    cases hm : s.ran? m with
    | none =>
      rw [hm] at hstate hcalm
      have hime : (s.move m).cpu.ime = false := (congrArg EnableState.on hstate).trans h
      rw [ih hime hcalm, hstate]
      exact ⟨And.right, fun hw => ⟨h, hw⟩⟩
    | some i =>
      rw [hm] at hstate hcalm
      replace hstate : (s.move m).cpu.enableState = s.cpu.enableState.run i := hstate
      simp only [Option.toList_some, List.singleton_append, List.mem_cons, not_or] at hcalm
      obtain ⟨⟨hei, hcei⟩, hreti, hcreti⟩ := hcalm
      rw [Option.toList_some, List.singleton_append,
        EnableState.takesEffect_cons h (Ne.symm hei) (Ne.symm hreti), ← hstate]
      cases hime : (s.move m).cpu.ime with
      | true =>
        -- the schedule runs out at this instruction
        have hnot : ¬ (s.move m).StaysMasked ms := by
          intro hw
          have hmasked : (s.move m).Masked := by
            cases ms with
            | nil => exact hw
            | cons => exact hw.1
          rw [masked_iff, hime] at hmasked
          cases hmasked
        exact ⟨fun hw => absurd hw.2 hnot, fun hw => absurd (.inl hime) hw⟩
      | false =>
        have hon : (s.move m).cpu.enableState.on = false := hime
        rw [ih hime ⟨hcei, hcreti⟩, hon]
        simp [h]

/-! ## Two short programs -/

/-- A memory with `EI` and a second byte where a program starts. Two interrupts are requested and
enabled. -/
def enabling (second : Byte) : Memory :=
  ⟨.ofFn fun addr =>
    if addr = 0x100 then 0xFB
    else if addr = 0x101 then second
    else if addr = Hardware.interruptFlags ∨ addr = Hardware.interruptEnable then 3
    else 0⟩

theorem read_enabling (second : Byte) (addr : Word) :
    (enabling second).read addr =
      if addr = 0x100 then 0xFB
      else if addr = 0x101 then second
      else if addr = Hardware.interruptFlags ∨ addr = Hardware.interruptEnable then 3
      else 0 := by
  rw [enabling, Memory.read_mk, AddressSpace.get_ofFn]

/-- Serving interrupts and stepping twice, as a machine does. -/
def twice : List (Move Memory) := [.service, .step, .service, .step]

/-- A processor as at power-on, further on in the program and with other interrupt flags. -/
def resumedAt (pc sp : Word) (e : EnableState) (m : Memory) : Core Memory :=
  ⟨{ Cpu.powerOn with
      registers := { Cpu.powerOnRegisters with pc := pc, sp := sp }
      ime := e.on
      enablePending := e.pending
      enableDelay := e.delayed }, m⟩

section

variable {pc : Word} (sp : Word) {e : EnableState} {m : Memory}

theorem move_step_resumedAt {i : Instruction} (hc : Instruction.decode (m.read pc) = i)
    (hi : i = .nop ∨ i = .ei) :
    (resumedAt pc sp e m).move .step = resumedAt (pc + 1) sp (e.run i) m ∧
      (resumedAt pc sp e m).ran? .step = some i := by
  have hcurrent : (resumedAt pc sp e m).current = i := by
    rw [current, fetch_fst]
    exact hc
  obtain ⟨hexecute, hstep⟩ := step_of_nop_or_ei (s := resumedAt pc sp e m) rfl rfl hcurrent hi
  constructor
  · show (resumedAt pc sp e m).step.state = _
    rw [hstep]
    obtain ⟨on, pending, delayed⟩ := e
    rcases hi with rfl | rfl
    · cases pending <;> cases delayed <;> rfl
    · cases on <;> cases pending <;> cases delayed <;> rfl
  · show (resumedAt pc sp e m).finished? = some i
    rw [finished?, show (resumedAt pc sp e m).awake? = some (resumedAt pc sp e m) from rfl,
      Option.bind_some, hexecute, hcurrent]
    rfl

theorem move_service_resumedAt (hon : e.on = false) :
    (resumedAt pc sp e m).move .service = resumedAt pc sp e m := by
  show (resumedAt pc sp e m).serviceInterrupts.state = _
  rw [serviceInterrupts_of_masked (s := resumedAt pc sp e m) rfl hon]
  rfl

theorem after_step_resumedAt {i : Instruction} (hc : Instruction.decode (m.read pc) = i)
    (hi : i = .nop ∨ i = .ei) (ms : List (Move Memory)) :
    (resumedAt pc sp e m).after (.step :: ms) = (resumedAt (pc + 1) sp (e.run i) m).after ms ∧
      (resumedAt pc sp e m).ran (.step :: ms) =
        i :: (resumedAt (pc + 1) sp (e.run i) m).ran ms := by
  obtain ⟨hstep, hran⟩ := move_step_resumedAt sp (e := e) hc hi
  rw [after, ran, hstep, hran]
  exact ⟨rfl, rfl⟩

theorem after_service_resumedAt (hon : e.on = false) (ms : List (Move Memory)) :
    (resumedAt pc sp e m).after (.service :: ms) = (resumedAt pc sp e m).after ms ∧
      (resumedAt pc sp e m).ran (.service :: ms) = (resumedAt pc sp e m).ran ms := by
  rw [after, ran, move_service_resumedAt sp hon]
  exact ⟨rfl, rfl⟩

/-- The memory after a dispatch: the return address is pushed, and the request is cleared. -/
def acknowledged (source : Interrupt) (pc sp : Word) (m : Memory) : Memory :=
  let pushed := (m.write (sp - 1) (Word.hi pc)).write (sp - 2) (Word.lo pc)
  pushed.write Hardware.interruptFlags (pushed.read Hardware.interruptFlags &&& ~~~source.mask)

theorem serviceInterrupts_resumedAt (source : Interrupt) (hon : e.on = true)
    (hf : Interrupt.first? (m.read Hardware.interruptFlags &&& m.read Hardware.interruptEnable) =
      some source) :
    (resumedAt pc sp e m).serviceInterrupts.result = .ok dispatchCycles ∧
      (resumedAt pc sp e m).serviceInterrupts.state =
        resumedAt source.vector (sp - 2) e.dispatch (acknowledged source pc sp m) := by
  have hserve := serviceInterrupts_of_unmasked (s := resumedAt pc sp e m) rfl hon
  rw [show (resumedAt pc sp e m).pending = m.read Hardware.interruptFlags from rfl,
    show (resumedAt pc sp e m).enabled = m.read Hardware.interruptEnable from rfl, hf] at hserve
  rw [hserve]
  exact ⟨rfl, rfl⟩

theorem read_acknowledged (source : Interrupt) (pc : Word) (m : Memory) {addr : Word}
    (hd : addr ≠ 0xFFFD) (hc : addr ≠ 0xFFFC) :
    (acknowledged source pc 0xFFFE m).read addr =
      if addr = Hardware.interruptFlags then m.read Hardware.interruptFlags &&& ~~~source.mask
      else m.read addr := by
  have hhi : (0xFFFE : Word) - 1 = 0xFFFD := by decide
  have hlo : (0xFFFE : Word) - 2 = 0xFFFC := by decide
  have hpushed : ∀ other hi lo, other ≠ 0xFFFD → other ≠ 0xFFFC →
      ((m.write 0xFFFD hi).write 0xFFFC lo).read other = m.read other := by
    intro other hi lo hd hc
    rw [Memory.read_write_of_plain (by decide), if_neg hc, Memory.read_write_of_plain (by decide),
      if_neg hd]
  simp only [acknowledged]
  rw [hhi, hlo, Memory.read_write_of_plain (by decide), hpushed _ _ _ hd hc,
    hpushed _ _ _ (by decide) (by decide)]

end

/-- `EI` and a second instruction, and the dispatch behind them. -/
theorem dispatch_enabling (second : Byte) {i : Instruction} {e : EnableState}
    (hsecond : Instruction.decode second = i) (hi : i = .nop ∨ i = .ei)
    (he : (EnableState.run .ei ⟨false, false, false⟩).run i = e) (hon : e.on = true) :
    let s := (powerOn .skip false (enabling second)).after twice
    s.serviceInterrupts.result = .ok dispatchCycles ∧
      s.serviceInterrupts.state = resumedAt 0x40 (0xFFFE - 2) e.dispatch
        (acknowledged .vblank 0x102 0xFFFE (enabling second)) := by
  intro s
  have hfirst : Instruction.decode ((enabling second).read 0x100) = .ei := by
    rw [read_enabling, if_pos rfl]
    decide
  have hnext : Instruction.decode ((enabling second).read 0x101) = i := by
    rw [read_enabling, if_neg (by decide), if_pos rfl, hsecond]
  have hf : (enabling second).read Hardware.interruptFlags = 3 := by
    rw [read_enabling, if_neg (by decide), if_neg (by decide), if_pos (.inl rfl)]
  have he' : (enabling second).read Hardware.interruptEnable = 3 := by
    rw [read_enabling, if_neg (by decide), if_neg (by decide), if_pos (.inr rfl)]
  have hs : s = resumedAt 0x102 0xFFFE e (enabling second) := by
    show (resumedAt 0x100 0xFFFE ⟨false, false, false⟩ (enabling second)).after twice = _
    have hpc : (0x100 + 1 : Word) = 0x101 := by decide
    rw [twice, (after_service_resumedAt _ rfl _).1, (after_step_resumedAt _ hfirst (.inr rfl) _).1,
      (after_service_resumedAt _ rfl _).1, hpc, (after_step_resumedAt _ hnext hi _).1, he]
    rfl
  have hfirst? : Interrupt.first? ((enabling second).read Hardware.interruptFlags &&&
      (enabling second).read Hardware.interruptEnable) = some .vblank := by
    rw [hf, he']
    decide
  obtain ⟨hresult, hstate⟩ := serviceInterrupts_resumedAt 0xFFFE .vblank hon hfirst?
  rw [hs]
  exact ⟨hresult, hstate⟩

/-- Two idle instructions at the start of the service routine. -/
theorem routine_enabling (second : Byte) {e : EnableState} (hon : (e.run .nop).on = false) :
    let t := resumedAt 0x40 (0xFFFE - 2) e (acknowledged .vblank 0x102 0xFFFE (enabling second))
    t.after [.step, .service, .step] = resumedAt 0x42 (0xFFFE - 2) ((e.run .nop).run .nop)
        (acknowledged .vblank 0x102 0xFFFE (enabling second)) ∧
      t.ran [.step, .service, .step] = [.nop, .nop] := by
  intro t
  have hidle : ∀ addr : Word, addr = 0x40 ∨ addr = 0x41 → Instruction.decode
      ((acknowledged .vblank 0x102 0xFFFE (enabling second)).read addr) = .nop := by
    rintro addr (rfl | rfl)
    · rw [read_acknowledged _ _ _ (by decide) (by decide), if_neg (by decide), read_enabling,
        if_neg (by decide), if_neg (by decide), if_neg (by decide)]
      decide
    · rw [read_acknowledged _ _ _ (by decide) (by decide), if_neg (by decide), read_enabling,
        if_neg (by decide), if_neg (by decide), if_neg (by decide)]
      decide
  obtain ⟨ha₁, hr₁⟩ := after_step_resumedAt (0xFFFE - 2) (e := e) (hidle 0x40 (.inl rfl))
    (.inl rfl) [.service, .step]
  obtain ⟨ha₂, hr₂⟩ := after_service_resumedAt (0xFFFE - 2)
    (m := acknowledged .vblank 0x102 0xFFFE (enabling second)) hon [.step]
  obtain ⟨ha₃, hr₃⟩ := after_step_resumedAt (0xFFFE - 2) (e := e.run .nop)
    (hidle 0x41 (.inr rfl)) (.inl rfl) []
  have hpc : (0x40 + 1 : Word) = 0x41 := by decide
  have hpc' : (0x41 + 1 : Word) = 0x42 := by decide
  rw [hpc] at ha₁ hr₁
  rw [hpc'] at ha₃ hr₃
  exact ⟨ha₁.trans (ha₂.trans ha₃), hr₁.trans (congrArg _ (hr₂.trans hr₃))⟩

/-! ## From power-on -/

theorem settled_move (h : s.cpu.enableState.Settled) {m : Move β}
    (hm : ¬ (s.ran? m = some .ei ∧ s.cpu.enableScheduled = true)) :
    (s.move m).cpu.enableState.Settled := by
  cases m with
  | service =>
    show s.serviceInterrupts.state.cpu.enableState.Settled
    rcases enableState_serviceInterrupts s with ⟨-, hs⟩ | ⟨-, -, hs⟩
    · rwa [hs]
    · rw [hs]
      exact h.dispatch
  | step =>
    show s.step.state.cpu.enableState.Settled
    rw [enableState_step]
    cases hi : s.finished? with
    | none => exact h
    | some i =>
      refine h.run ?_
      rintro rfl
      refine eq_false_of_ne_true fun hd => hm ⟨hi, ?_⟩
      rw [Cpu.enableScheduled, show s.cpu.enableDelay = true from hd, Bool.or_true]
  | change bus => exact h

theorem settled_after {ms : List (Move β)} (h : s.cpu.enableState.Settled)
    (hms : ¬ s.RepeatsEi ms) : (s.after ms).cpu.enableState.Settled := by
  induction ms generalizing s with
  | nil => exact h
  | cons m ms ih =>
    obtain ⟨hm, hrest⟩ := not_or.mp hms
    exact ih (settled_move h hm) hrest

/-- **Nesting.** After a dispatch in a run from power-on, and until an `EI` or a `RETI` is executed,
interrupts stay disabled and none is dispatched exactly as long as no enable that was scheduled
before the dispatch takes effect. In a run that executes no `EI` while an enable is scheduled, they
always stay so. -/
theorem staysMasked_of_dispatch (policy : HolePolicy) (tracing : Bool) (bus : β)
    (before : List (Move β)) :
    let start := powerOn policy tracing bus
    let s := start.after before
    let t := s.serviceInterrupts.state
    s.serviceInterrupts.result = .ok dispatchCycles →
      (∀ ms, t.Calm ms →
        (t.StaysMasked ms ↔ ¬ TakesEffect s.cpu.enableState.wait? (t.ran ms))) ∧
      (¬ start.RepeatsEi before → ∀ ms, t.Calm ms → t.StaysMasked ms) := by
  intro start s t hdispatch
  rcases enableState_serviceInterrupts s with ⟨hr, -⟩ | ⟨hime, -, hstate⟩
  · exact absurd hdispatch hr
  have hmasked : t.cpu.ime = false := congrArg EnableState.on hstate
  have hwait : t.cpu.enableState.wait? = s.cpu.enableState.wait? := by
    rw [show t.cpu.enableState = s.cpu.enableState.dispatch from hstate]
    rfl
  have hiff : ∀ ms, t.Calm ms →
      (t.StaysMasked ms ↔ ¬ TakesEffect s.cpu.enableState.wait? (t.ran ms)) := by
    intro ms hcalm
    rw [← hwait]
    exact staysMasked_iff hmasked hcalm
  refine ⟨hiff, fun hbefore ms hcalm => ?_⟩
  have hsettled : s.cpu.enableState.Settled :=
    settled_after (s := start) ⟨rfl, fun hon => nomatch hon⟩ hbefore
  rw [hiff ms hcalm, hsettled.wait?_of_on hime]
  exact not_takesEffect_none _

/-- After `EI` and another instruction the service routine stays undisturbed. -/
theorem staysMasked_after_ei :
    let start := powerOn .skip false (enabling 0x00)
    let s := start.after twice
    let t := s.serviceInterrupts.state
    s.serviceInterrupts.result = .ok dispatchCycles ∧ ¬ start.RepeatsEi twice ∧
      t.Calm [.step, .service, .step] ∧ t.StaysMasked [.step, .service, .step] ∧
      (t.StaysMasked [.step, .service, .step] ↔
        ¬ TakesEffect s.cpu.enableState.wait? (t.ran [.step, .service, .step])) := by
  intro start s t
  obtain ⟨hdispatch, hstate⟩ := dispatch_enabling 0x00 (i := .nop)
    (e := ⟨true, false, false⟩) (by decide) (.inl rfl) rfl rfl
  obtain ⟨-, hran⟩ := routine_enabling 0x00 (e := ⟨false, false, false⟩) rfl
  have ht : t = resumedAt 0x40 (0xFFFE - 2) ⟨false, false, false⟩
      (acknowledged .vblank 0x102 0xFFFE (enabling 0x00)) := hstate
  have hcalm : t.Calm [.step, .service, .step] := by
    unfold Calm
    rw [ht, hran]
    decide
  have hrepeat : ¬ start.RepeatsEi twice := by
    have hfirst : Instruction.decode ((enabling 0x00).read 0x100) = .ei := by
      rw [read_enabling, if_pos rfl]
      decide
    have hnext : Instruction.decode ((enabling 0x00).read (0x100 + 1)) = .nop := by
      rw [read_enabling, if_neg (by decide), if_pos (by decide)]
      decide
    have hstart : start = resumedAt 0x100 0xFFFE ⟨false, false, false⟩ (enabling 0x00) := rfl
    rw [hstart, twice]
    rintro (⟨h, -⟩ | ⟨-, h⟩ | ⟨h, -⟩ | ⟨h, -⟩ | h)
    · cases h
    · rw [move_service_resumedAt _ rfl] at h
      cases h
    · cases h
    · rw [move_service_resumedAt _ rfl, (move_step_resumedAt _ hfirst (.inr rfl)).1,
        move_service_resumedAt _ rfl, (move_step_resumedAt _ hnext (.inl rfl)).2] at h
      cases h
    · exact h
  obtain ⟨hiff, hstays⟩ := staysMasked_of_dispatch .skip false (enabling 0x00) twice hdispatch
  exact ⟨hdispatch, hrepeat, hcalm, hstays hrepeat _ hcalm, hiff _ hcalm⟩

/-- After `EI; EI` a second dispatch interrupts the service routine of the first, although the
routine has executed neither `EI` nor `RETI`. -/
theorem nested_after_repeated_ei :
    let s := (powerOn .skip false (enabling 0xFB)).after twice
    let t := s.serviceInterrupts.state
    let u := t.after [.step, .service, .step]
    s.serviceInterrupts.result = .ok dispatchCycles ∧ t.Calm [.step, .service, .step] ∧
      u.cpu.ime = true ∧ u.serviceInterrupts.result = .ok dispatchCycles := by
  intro s t u
  obtain ⟨hdispatch, hstate⟩ := dispatch_enabling 0xFB (i := .ei)
    (e := ⟨true, true, false⟩) (by decide) (.inr rfl) rfl rfl
  obtain ⟨hafter, hran⟩ := routine_enabling 0xFB (e := ⟨false, true, false⟩) rfl
  have ht : t = resumedAt 0x40 (0xFFFE - 2) ⟨false, true, false⟩
      (acknowledged .vblank 0x102 0xFFFE (enabling 0xFB)) := hstate
  have hu : u = resumedAt 0x42 (0xFFFE - 2) ⟨true, false, false⟩
      (acknowledged .vblank 0x102 0xFFFE (enabling 0xFB)) := by
    show t.after _ = _
    rw [ht]
    exact hafter
  refine ⟨hdispatch, ?_, ?_, ?_⟩
  · unfold Calm
    rw [ht, hran]
    decide
  · rw [hu]
    rfl
  · rw [hu]
    refine (serviceInterrupts_resumedAt _ .lcdStat rfl ?_).1
    rw [read_acknowledged _ _ _ (by decide) (by decide), if_pos rfl,
      read_acknowledged _ _ _ (by decide) (by decide), if_neg (by decide), read_enabling,
      read_enabling]
    decide

end Core

end GameBoy
