import GameBoy.Proofs.Core.Step

/-!
# One processor on two buses

A processor learns about its bus only from the bytes that it reads. So a relation between two buses
under which reads answer alike, and which the same access to both keeps, is kept by everything that
the processor does: it takes the same steps on both (`Bus.Simulation.alike_tick`).

A relation that only some stores keep is of use as well. A `Bus.Simulation` may give up a bus as
lost, after a store that takes the two apart, and then claims nothing more about it.

The first use is the recorder: a processor whose accesses are recorded does what it does without
the recorder (`Core.tick_traced`).
-/

namespace GameBoy

/-- A relation between two buses that accesses keep, unless a store gives the first one up. -/
structure Bus.Simulation (β γ : Type) [Bus β] [Bus γ] where
  related : β → γ → Prop
  lost : β → Prop
  value {b : β} {c : γ} (addr : Word) :
    related b c → (Bus.read8 addr b).1 = (Bus.read8 addr c).1
  read {b : β} {c : γ} (addr : Word) :
    related b c → related (Bus.read8 addr b).2 (Bus.read8 addr c).2
  write {b : β} {c : γ} (addr : Word) (value : Byte) : related b c →
    lost (Bus.write8 addr value b) ∨ related (Bus.write8 addr value b) (Bus.write8 addr value c)
  lost_read {b : β} (addr : Word) : lost b → lost (Bus.read8 addr b).2
  lost_write {b : β} (addr : Word) (value : Byte) : lost b → lost (Bus.write8 addr value b)

namespace Bus.Simulation

variable {β γ α : Type} [Bus β] [Bus γ] (sim : Bus.Simulation β γ) {s : Core β} {t : Core γ}

/-- A bus that is lost stays lost. -/
theorem lost_of_reaches {start bus : β} (h : sim.lost start) (hr : Reaches start bus) :
    sim.lost bus := by
  induction hr with
  | refl => exact h
  | read addr _ ih => exact sim.lost_read addr ih
  | write addr value _ ih => exact sim.lost_write addr value ih

/-! ## Being alike -/

/-- Two cores are alike when their processors are equal and their buses related. -/
def Alike (s : Core β) (t : Core γ) : Prop :=
  sim.lost s.bus ∨ s.cpu = t.cpu ∧ sim.related s.bus t.bus

/-- Two cores that each come with a value are alike. -/
def AlikeWith (x : α × Core β) (y : α × Core γ) : Prop :=
  sim.lost x.2.bus ∨ x.1 = y.1 ∧ x.2.cpu = y.2.cpu ∧ sim.related x.2.bus y.2.bus

/-- Two outcomes are alike. -/
def AlikeOutcome (o : Outcome (Core β) α) (o' : Outcome (Core γ) α) : Prop :=
  sim.lost o.state.bus ∨ o.result = o'.result ∧ o.events = o'.events ∧
    o.state.cpu = o'.state.cpu ∧ sim.related o.state.bus o'.state.bus

variable {sim}

theorem AlikeWith.alike {x : α × Core β} {y : α × Core γ} (h : sim.AlikeWith x y) :
    sim.Alike x.2 y.2 := h.imp_right And.right

theorem AlikeWith.bind {x : α × Core β} {y : α × Core γ} (h : sim.AlikeWith x y)
    {f : α → Core β → Core β} {g : α → Core γ → Core γ}
    (hf : Reaches x.2.bus (f x.1 x.2).bus)
    (hfg : ∀ v, sim.Alike x.2 y.2 → sim.Alike (f v x.2) (g v y.2)) :
    sim.Alike (f x.1 x.2) (g y.1 y.2) := by
  rcases h with hl | ⟨hv, hrest⟩
  · exact .inl (sim.lost_of_reaches hl hf)
  · rw [hv]
    exact hfg y.1 (.inr hrest)

variable (sim)

/-! ## Moves -/

theorem alike_mapCpu (h : sim.Alike s t) (f : Cpu → Cpu) :
    sim.Alike ⟨f s.cpu, s.bus⟩ ⟨f t.cpu, t.bus⟩ :=
  h.imp_right fun ⟨hc, hr⟩ => ⟨congrArg f hc, hr⟩

theorem alike_mapRegisters (h : sim.Alike s t) (f : Registers → Registers) :
    sim.Alike (s.mapRegisters f) (t.mapRegisters f) :=
  sim.alike_mapCpu h fun cpu => { cpu with registers := f cpu.registers }

theorem alike_write (h : sim.Alike s t) (addr : Word) (value : Byte) :
    sim.Alike (s.write addr value) (t.write addr value) := by
  rcases h with hl | ⟨hc, hr⟩
  · exact .inl (sim.lost_write addr value hl)
  · exact (sim.write addr value hr).imp_right fun hr' => ⟨hc, hr'⟩

theorem alike_read (h : sim.Alike s t) (addr : Word) :
    sim.AlikeWith (s.read addr) (t.read addr) := by
  rcases h with hl | ⟨hc, hr⟩
  · exact .inl (sim.lost_read addr hl)
  · exact .inr ⟨sim.value addr hr, hc, sim.read addr hr⟩

theorem alike_fetch (h : sim.Alike s t) : sim.AlikeWith s.fetch t.fetch := by
  rcases h with hl | ⟨hc, hr⟩
  · exact .inl (sim.lost_of_reaches hl (Core.reaches_fetch .refl))
  · refine .inr ⟨?_, ?_, ?_⟩
    · rw [Core.fetch_fst, Core.fetch_fst, hc]
      exact sim.value _ hr
    · unfold Core.fetch
      dsimp only [Core.read, Core.mapRegisters]
      rw [hc]
      split <;> rfl
    · rw [Core.bus_fetch, Core.bus_fetch, hc]
      exact sim.read _ hr

theorem alike_fetchOperand (h : sim.Alike s t) (kind : OperandKind) :
    sim.AlikeWith (s.fetchOperand kind) (t.fetchOperand kind) := by
  have hone := sim.alike_fetch h
  cases kind with
  | none => exact h.imp_right fun hr => ⟨rfl, hr⟩
  | byte => exact hone.imp_right fun ⟨hv, hr⟩ => ⟨congrArg Operand.byte hv, hr⟩
  | offset => exact hone.imp_right fun ⟨hv, hr⟩ => ⟨congrArg Operand.offset hv, hr⟩
  | word =>
    have htwo := sim.alike_fetch hone.alike
    rcases hone with hl | ⟨hlo, -⟩
    · exact .inl (sim.lost_of_reaches hl (Core.reaches_fetch .refl))
    · refine htwo.imp_right fun ⟨hhi, hr⟩ => ⟨?_, hr⟩
      show Operand.word (Word.ofBytes s.fetch.2.fetch.1 s.fetch.1) = _
      rw [hhi, hlo]
      rfl

theorem alike_readPlace (h : sim.Alike s t) (place : Place) :
    sim.AlikeWith (s.readPlace place) (t.readPlace place) := by
  rcases h with hl | ⟨hc, hr⟩
  · exact .inl (sim.lost_of_reaches hl (Core.reaches_readPlace place .refl))
  · obtain ⟨cpu, b⟩ := s
    obtain ⟨cpu', c⟩ := t
    obtain rfl : cpu = cpu' := hc
    cases place with
    | atHl => exact .inr ⟨sim.value _ hr, rfl, sim.read _ hr⟩
    | _ => exact .inr ⟨rfl, rfl, hr⟩

theorem alike_writePlace (h : sim.Alike s t) (place : Place) (value : Byte) :
    sim.Alike (s.writePlace place value) (t.writePlace place value) := by
  cases place with
  | atHl =>
    rcases h with hl | ⟨hc, hr⟩
    · exact .inl (sim.lost_write _ value hl)
    · unfold Core.writePlace
      rw [hc]
      exact sim.alike_write (.inr ⟨hc, hr⟩) _ value
  | _ => exact sim.alike_mapRegisters h _

theorem alike_push (h : sim.Alike s t) (value : Word) :
    sim.Alike (s.push value) (t.push value) := by
  rcases h with hl | ⟨hc, hr⟩
  · exact .inl (sim.lost_of_reaches hl (Core.reaches_push value .refl))
  · unfold Core.push
    rw [hc]
    exact sim.alike_mapRegisters
      (sim.alike_write (sim.alike_write (.inr ⟨hc, hr⟩) _ _) _ _) _

theorem alike_pop (h : sim.Alike s t) : sim.AlikeWith s.pop t.pop := by
  rcases h with hl | ⟨hc, hr⟩
  · exact .inl (sim.lost_of_reaches hl (Core.reaches_pop .refl))
  · obtain ⟨cpu, b⟩ := s
    obtain ⟨cpu', c⟩ := t
    obtain rfl : cpu = cpu' := hc
    refine .inr ⟨?_, rfl, sim.read _ (sim.read _ hr)⟩
    unfold Core.pop Bus.read16
    dsimp only
    rw [sim.value _ hr, sim.value _ (sim.read _ hr)]

theorem alike_combine (h : sim.Alike s t) (op : Registers → Byte → Registers) (place : Place) :
    sim.Alike (s.combine op place) (t.combine op place) :=
  (sim.alike_readPlace h place).bind (f := fun v s => s.mapRegisters (op · v))
    (g := fun v s => s.mapRegisters (op · v)) .refl
    fun v h' => sim.alike_mapRegisters h' (op · v)

theorem alike_update (h : sim.Alike s t) (op : Registers → Byte → Byte × Registers)
    (place : Place) : sim.Alike (s.update op place) (t.update op place) := by
  refine (sim.alike_readPlace h place).bind
    (f := fun v s => (s.setRegisters (op s.cpu.registers v).2).writePlace place
      (op s.cpu.registers v).1)
    (g := fun v s => (s.setRegisters (op s.cpu.registers v).2).writePlace place
      (op s.cpu.registers v).1)
    (Core.reaches_writePlace place _ .refl) fun v h' => ?_
  rcases h' with hl | ⟨hc, hr⟩
  · exact .inl (sim.lost_of_reaches hl (Core.reaches_writePlace place _ .refl))
  · rw [hc]
    exact sim.alike_writePlace (sim.alike_mapRegisters (.inr ⟨hc, hr⟩) fun _ => _) place _

theorem alike_halt (h : sim.Alike s t) : sim.Alike s.halt t.halt := by
  rcases h with hl | ⟨hc, hr⟩
  · exact .inl (sim.lost_of_reaches hl (Core.reaches_apply .halt .none .refl))
  · have hr' := sim.read Hardware.interruptEnable (sim.read Hardware.interruptFlags hr)
    unfold Core.halt
    dsimp only [Core.read]
    rw [hc, sim.value _ hr, sim.value _ (sim.read _ hr)]
    split
    · exact .inr ⟨rfl, hr'⟩
    · exact .inr ⟨rfl, hr'⟩

/-! ## Instructions -/

theorem alike_loadFrom (h : sim.Alike s t) (addr : Word) :
    sim.Alike (s.loadFrom addr) (t.loadFrom addr) :=
  (sim.alike_read h addr).bind (f := fun v s => s.mapRegisters ({ · with a := v }))
    (g := fun v s => s.mapRegisters ({ · with a := v })) .refl
    fun _ h' => sim.alike_mapRegisters h' _

theorem alike_popPc (h : sim.Alike s t) : sim.Alike s.popPc t.popPc :=
  (sim.alike_pop h).bind (f := Core.setPc) (g := Core.setPc) .refl
    fun _ h' => sim.alike_mapRegisters h' _

theorem alike_callTo (h : sim.Alike s t) (target : Word) :
    sim.Alike (s.callTo target) (t.callTo target) := by
  rcases h with hl | ⟨hc, hr⟩
  · exact .inl (sim.lost_of_reaches hl (Core.reaches_push s.cpu.registers.pc .refl))
  · unfold Core.callTo
    rw [hc]
    exact sim.alike_mapRegisters (sim.alike_push (.inr ⟨hc, hr⟩) _) _

theorem alike_apply (h : sim.Alike s t) (i : Instruction) (operand : Operand) :
    sim.Alike (s.apply i operand) (t.apply i operand) := by
  rcases h with hl | ⟨hc, hr⟩
  · exact .inl (sim.lost_of_reaches hl (Core.reaches_apply i operand .refl))
  · obtain ⟨cpu, b⟩ := s
    obtain ⟨cpu', c⟩ := t
    obtain rfl : cpu = cpu' := hc
    -- from here on both processors are the same, and only the buses differ
    have hcpu : ∀ cpu', sim.Alike ⟨cpu', b⟩ ⟨cpu', c⟩ := fun _ => .inr ⟨rfl, hr⟩
    cases i with
    | halt => exact sim.alike_halt (hcpu cpu)
    | ei => unfold Core.apply; dsimp only; split <;> exact hcpu _
    | storeA pointer => exact sim.alike_write (hcpu _) _ _
    | loadA pointer => exact sim.alike_loadFrom (hcpu _) _
    | storeSp => exact sim.alike_write (sim.alike_write (hcpu cpu) _ _) _ _
    | inc place => exact sim.alike_update (hcpu cpu) _ place
    | dec place => exact sim.alike_update (hcpu cpu) _ place
    | loadByte target => exact sim.alike_writePlace (hcpu cpu) target _
    | load target source =>
      exact (sim.alike_readPlace (hcpu cpu) source).bind (f := Core.writePlace target)
        (g := Core.writePlace target) (Core.reaches_writePlace target _ .refl)
        fun v h' => sim.alike_writePlace h' target v
    | alu op source => exact sim.alike_combine (hcpu cpu) _ source
    | jr condition | jp condition => unfold Core.apply; dsimp only; split <;> exact hcpu _
    | ret condition =>
      unfold Core.apply; dsimp only; split
      · exact sim.alike_popPc (hcpu cpu)
      · exact hcpu cpu
    | reti => exact sim.alike_mapCpu (sim.alike_popPc (hcpu cpu)) ({ · with ime := true })
    | pop pair =>
      exact (sim.alike_pop (hcpu cpu)).bind
        (f := fun v s => s.mapRegisters (·.setStackPair pair v))
        (g := fun v s => s.mapRegisters (·.setStackPair pair v)) .refl
        fun v h' => sim.alike_mapRegisters h' (·.setStackPair pair v)
    | push pair => exact sim.alike_push (hcpu cpu) _
    | call condition =>
      unfold Core.apply; dsimp only; split
      · exact sim.alike_callTo (hcpu cpu) _
      · exact hcpu cpu
    | rst vector => exact sim.alike_callTo (hcpu cpu) _
    | storeHigh | storeHighC | storeAt => exact sim.alike_write (hcpu cpu) _ _
    | loadHigh | loadHighC | loadAt => exact sim.alike_loadFrom (hcpu cpu) _
    | _ => exact hcpu _

theorem alike_applyExtended (h : sim.Alike s t) (i : Extended) :
    sim.Alike (s.applyExtended i) (t.applyExtended i) := by
  cases i with
  | shift op place => exact sim.alike_update h _ place
  | test bit place => exact sim.alike_combine h _ place
  | reset bit place => exact sim.alike_update h _ place
  | set bit place => exact sim.alike_update h _ place

theorem alike_execute (h : sim.Alike s t) (i : Instruction) (operand : Operand) :
    sim.AlikeOutcome (s.execute i operand) (t.execute i operand) := by
  rcases h with hl | ⟨hc, hr⟩
  · exact .inl (sim.lost_of_reaches hl (Core.reaches_execute i operand .refl))
  · have happly := sim.alike_apply (.inr ⟨hc, hr⟩) i operand
    cases i with
    | prefixed =>
      rw [Core.execute_prefixed, Core.execute_prefixed]
      have hfetch := sim.alike_fetch (.inr ⟨hc, hr⟩)
      rcases hfetch with hl | ⟨hv, hc', hr'⟩
      · exact .inl (sim.lost_of_reaches hl (Core.reaches_applyExtended _ .refl))
      · have hi := sim.alike_applyExtended (.inr ⟨hc', hr'⟩) (Extended.decode t.fetch.1)
        dsimp only
        rw [hv, hc', hc]
        exact hi.imp_right fun hstate => ⟨rfl, rfl, hstate⟩
    | hole opcode =>
      unfold Core.execute Core.executeHole
      dsimp only
      rw [hc]
      split <;> exact .inr ⟨rfl, rfl, hc, hr⟩
    | stop =>
      refine .inr ⟨rfl, ?_, ?_, hr⟩
      · unfold Core.execute; dsimp only; rw [hc]
      · unfold Core.execute Core.apply; dsimp only; rw [hc]
    | _ =>
      unfold Core.execute Outcome.ok
      dsimp only
      rw [hc]
      exact happly.imp_right fun hstate => ⟨rfl, rfl, hstate⟩

/-! ## Steps -/

theorem AlikeOutcome.andThen {δ : Type} {sim : Bus.Simulation β γ} {o : Outcome (Core β) α}
    {o' : Outcome (Core γ) α} (h : sim.AlikeOutcome o o') {f : α → Core β → Outcome (Core β) δ}
    {g : α → Core γ → Outcome (Core γ) δ}
    (hf : ∀ v, Reaches o.state.bus (f v o.state).state.bus)
    (hfg : ∀ v, sim.Alike o.state o'.state → sim.AlikeOutcome (f v o.state) (g v o'.state)) :
    sim.AlikeOutcome (o.andThen f) (o'.andThen g) := by
  rcases h with hl | ⟨hresult, hevents, hstate⟩
  · refine .inl ?_
    cases hr : o.result with
    | error fault => rw [Outcome.andThen_of_error hr]; exact hl
    | ok v => rw [Outcome.andThen_of_ok hr]; exact sim.lost_of_reaches hl (hf v)
  · cases hr : o.result with
    | error fault =>
      rw [Outcome.andThen_of_error hr, Outcome.andThen_of_error (hresult ▸ hr), hevents]
      exact .inr ⟨rfl, rfl, hstate⟩
    | ok v =>
      rw [Outcome.andThen_of_ok hr, Outcome.andThen_of_ok (hresult ▸ hr), hevents]
      exact (hfg v (.inr hstate)).imp_right fun ⟨h₁, h₂, h₃⟩ => ⟨h₁, by rw [h₂], h₃⟩

theorem alike_immediate (h : sim.Alike s t) :
    sim.lost s.immediate.2.bus ∨ s.current = t.current ∧ s.immediate.1 = t.immediate.1 ∧
      s.immediate.2.cpu = t.immediate.2.cpu ∧
      sim.related s.immediate.2.bus t.immediate.2.bus := by
  rcases sim.alike_fetch h with hl | ⟨hv, hfetch⟩
  · exact .inl (sim.lost_of_reaches hl (Core.reaches_fetchOperand _ .refl))
  · have hcurrent : s.current = t.current := congrArg Instruction.decode hv
    have key := sim.alike_fetchOperand (.inr hfetch) s.current.operand
    unfold Core.immediate
    rw [← hcurrent]
    exact key.imp_right fun hrest => ⟨rfl, hrest⟩

theorem bus_runInstruction (s : Core β) :
    s.runInstruction.state.bus = s.executeCurrent.state.bus := by
  cases hr : s.executeCurrent.result with
  | ok cycles => rw [Core.runInstruction_of_ok hr]
  | error fault => rw [Core.runInstruction_of_error hr]

theorem alike_runInstruction (h : sim.Alike s t) :
    sim.AlikeOutcome s.runInstruction t.runInstruction := by
  rcases h with hl | ⟨hc, hbus⟩
  · exact .inl (sim.lost_of_reaches hl (Core.reaches_runInstruction .refl))
  unfold AlikeOutcome
  rw [bus_runInstruction, bus_runInstruction]
  rcases sim.alike_immediate (.inr ⟨hc, hbus⟩) with hl | ⟨hcurrent, hoperand, hstate⟩
  · exact .inl (sim.lost_of_reaches hl (Core.reaches_execute _ _ .refl))
  have hexecute : sim.AlikeOutcome s.executeCurrent t.executeCurrent := by
    unfold Core.executeCurrent
    rw [hcurrent, hoperand]
    exact sim.alike_execute (.inr hstate) _ _
  have hreport : s.report = t.report := by
    unfold Core.report
    rw [hc, hcurrent, hoperand, hstate.1]
  refine hexecute.imp_right fun ⟨hresult, hevents, hcpu, hbus⟩ => ?_
  cases hr : s.executeCurrent.result with
  | ok cycles =>
    rw [Core.runInstruction_of_ok hr, Core.runInstruction_of_ok (hresult ▸ hr), hevents, hcpu,
      hreport]
    exact ⟨rfl, rfl, rfl, hbus⟩
  | error fault =>
    rw [Core.runInstruction_of_error hr, Core.runInstruction_of_error (hresult ▸ hr), hevents,
      hcpu, hreport]
    exact ⟨rfl, rfl, rfl, hbus⟩

theorem alike_stepAwake (h : sim.Alike s t) : sim.AlikeOutcome s.stepAwake t.stepAwake := by
  rcases h with hl | ⟨hc, hr⟩
  · exact .inl (sim.lost_of_reaches hl (Core.reaches_stepAwake .refl))
  · unfold Core.stepAwake
    rw [hc]
    split
    · exact .inr ⟨rfl, rfl, hc, hr⟩
    · exact sim.alike_runInstruction (.inr ⟨hc, hr⟩)

theorem alike_step (h : sim.Alike s t) : sim.AlikeOutcome s.step t.step := by
  rcases h with hl | ⟨hc, hr⟩
  · exact .inl (sim.lost_of_reaches hl (Core.reaches_step .refl))
  cases hs : s.cpu.stopped with
  | false =>
    rw [Core.step_of_not_stopped hs, Core.step_of_not_stopped (hc ▸ hs)]
    exact sim.alike_stepAwake (.inr ⟨hc, hr⟩)
  | true =>
    have hbutton : s.noButton = t.noButton := by
      show ((Bus.read8 _ s.bus).1 &&& 0x0F == 0x0F) = _
      rw [sim.value Hardware.joypad hr]
      rfl
    cases hb : s.noButton with
    | true =>
      rw [Core.step_of_noButton hs hb, Core.step_of_noButton (hc ▸ hs) (hbutton ▸ hb)]
      exact .inr ⟨rfl, rfl, hc, sim.read _ hr⟩
    | false =>
      rw [Core.step_of_button hs hb, Core.step_of_button (hc ▸ hs) (hbutton ▸ hb)]
      have hreleased : sim.Alike s.released t.released :=
        .inr ⟨congrArg (fun cpu : Cpu => { cpu with stopped := false }) hc, sim.read _ hr⟩
      exact (sim.alike_stepAwake hreleased).imp_right fun ⟨h₁, h₂, h₃⟩ => ⟨h₁, by rw [h₂], h₃⟩

/-! ## Interrupts -/

theorem alike_dispatch (h : sim.Alike s t) (source : Interrupt) (pending enabled : Byte) :
    sim.AlikeOutcome (s.dispatch source pending enabled) (t.dispatch source pending enabled) := by
  rcases h with hl | ⟨hc, hr⟩
  · exact .inl (sim.lost_of_reaches hl (Core.reaches_dispatch source pending enabled .refl))
  obtain ⟨cpu, b⟩ := s
  obtain ⟨cpu', c⟩ := t
  obtain rfl : cpu = cpu' := hc
  unfold Core.dispatch
  dsimp only
  generalize (if cpu.haltBug then cpu.registers.pc - 1 else cpu.registers.pc) = pc
  have hpushed := sim.alike_mapCpu (sim.alike_mapRegisters (sim.alike_push
    (s := ⟨{ cpu with haltBug := false }, b⟩) (t := ⟨{ cpu with haltBug := false }, c⟩)
    (.inr ⟨rfl, hr⟩) pc) ({ · with pc := source.vector })) ({ · with ime := false })
  refine ((sim.alike_read hpushed Hardware.interruptFlags).bind
    (f := fun flags s => s.write Hardware.interruptFlags (flags &&& ~~~source.mask))
    (g := fun flags t => t.write Hardware.interruptFlags (flags &&& ~~~source.mask))
    (.write _ _ .refl) fun flags h' => sim.alike_write h' _ _).imp_right ?_
  rintro ⟨hcpu, hbus⟩
  exact ⟨rfl, rfl, hcpu, hbus⟩

theorem alike_serviceInterrupts (h : sim.Alike s t) :
    sim.AlikeOutcome s.serviceInterrupts t.serviceInterrupts := by
  rcases h with hl | ⟨hc, hr⟩
  · exact .inl (sim.lost_of_reaches hl (Core.reaches_serviceInterrupts .refl))
  cases hs : s.cpu.stopped with
  | true =>
    rw [Core.serviceInterrupts_of_stopped hs, Core.serviceInterrupts_of_stopped (hc ▸ hs)]
    exact .inr ⟨rfl, rfl, hc, hr⟩
  | false =>
    have hpending : s.pending = t.pending := sim.value _ hr
    have henabled : s.enabled = t.enabled := sim.value _ (sim.read _ hr)
    have hattentive : s.attentive.cpu = t.attentive.cpu ∧
        sim.related s.attentive.bus t.attentive.bus := by
      refine ⟨?_, sim.read _ (sim.read _ hr)⟩
      unfold Core.attentive
      rw [hc, hpending, henabled]
    cases hi : s.cpu.ime with
    | false =>
      rw [Core.serviceInterrupts_of_masked hs hi,
        Core.serviceInterrupts_of_masked (hc ▸ hs) (hc ▸ hi)]
      exact .inr ⟨rfl, rfl, hattentive⟩
    | true =>
      rw [Core.serviceInterrupts_of_unmasked hs hi,
        Core.serviceInterrupts_of_unmasked (hc ▸ hs) (hc ▸ hi), hpending, henabled]
      split
      · exact sim.alike_dispatch (.inr hattentive) _ _ _
      · split <;> exact .inr ⟨rfl, rfl, hattentive⟩

/-- A processor takes the same tick on two related buses, or the first one is lost. -/
theorem alike_tick (h : sim.Alike s t) : sim.AlikeOutcome s.tick t.tick := by
  unfold Core.tick
  refine (sim.alike_serviceInterrupts h).andThen (fun _ => ?_) fun dispatch h' => ?_
  · rw [Outcome.state_andThen_ok]
    exact Core.reaches_step .refl
  · refine (sim.alike_step h').andThen (fun _ => .refl) fun cycles h'' => ?_
    exact h''.imp_right fun ⟨hc, hr⟩ => ⟨rfl, rfl, hc, hr⟩

end Bus.Simulation

/-! ## The recorder -/

/-- A recorder answers what the bus behind it answers. -/
def Traced.simulation (β : Type) [Bus β] : Bus.Simulation (Traced β) β where
  related traced bus := traced.bus = bus
  lost _ := False
  value addr h := by rw [← h]; rfl
  read addr h := by rw [← h]; rfl
  write addr value h := .inr (by rw [← h]; rfl)
  lost_read _ h := h
  lost_write _ _ h := h

namespace Core

variable {β : Type} [Bus β]

/-- The core with a recorder in front of its bus. -/
def traced (s : Core β) : Core (Traced β) := ⟨s.cpu, { bus := s.bus }⟩

/-- The accesses of a tick, the oldest first. -/
def tickAccesses (s : Core β) : Array Access := s.traced.tick.state.bus.accesses

theorem current_traced (s : Core β) : s.traced.current = s.current := by
  rw [current, current, fetch_fst, fetch_fst]
  rfl

theorem tick_traced (s : Core β) :
    s.traced.tick.result = s.tick.result ∧ s.traced.tick.events = s.tick.events ∧
      s.traced.tick.state.cpu = s.tick.state.cpu ∧
      s.traced.tick.state.bus.bus = s.tick.state.bus :=
  ((Traced.simulation β).alike_tick (s := s.traced) (.inr ⟨rfl, rfl⟩)).resolve_left id

end Core

end GameBoy
