import GameBoy.Proofs.Machine.Operation

/-!
# The interrupt on a match

When the display enters the line that the compare register names, it requests the status interrupt,
if the program has enabled that one. It does so on a new match only, and a match counts as new when
the match bit of the status register is clear. But that bit is not the comparison. It is brought up
to date when a line ends, and a store to the status register can put anything there. So after a
store to one of the registers involved it may show a match that is none, and then the next match
goes by without a request.

What the display does depends on five registers and its countdown, so it is a small machine
(`LcdState`) that the display follows step by step (`Display.state_run`), and what is to be said
about the match bit is said about that machine: the bit is the last verdict on a match
(`LcdState.matchBit_run`), and as long as the program leaves the three registers alone that is the
comparison (`LcdState.Agrees.run`).

Main theorem: `Display.request_of_meets`. A match that the line register runs into requests the
interrupt exactly when the last verdict was that there is none; so it always does if the program has
stored to none of the three registers since the last end of a line. `Display.unrequested_match` is a
program that moves the compare register on by one line, and misses the next match.
-/

namespace GameBoy

/-! ## The registers of the display -/

/-- The registers that the display reads and writes, and the countdown to the next line. -/
structure LcdState where
  countdown : Int
  control : Byte
  line : Byte
  compare : Byte
  status : Byte
  flags : Byte
  deriving DecidableEq

namespace LcdState

/-- The bit of the status register that shows a match. -/
def matchBit (s : LcdState) : Bool := Byte.has s.status 2

/-- Whether the program has enabled the interrupt on a match. -/
def matchEnabled (s : LcdState) : Bool := Byte.has s.status 6

/-- Whether the status interrupt is requested. -/
def statusRequested (s : LcdState) : Bool := Byte.has s.flags 1

/-- The request bits that entering a line sets. -/
def requests (s : LcdState) (line : Byte) : Byte :=
  (if line.toNat == Lcd.vblankLine then Interrupt.vblank.mask else 0) |||
    (if line == s.compare && (!s.matchBit && s.matchEnabled) then Interrupt.lcdStat.mask else 0)

/-- The registers on the next line. -/
def enter (s : LcdState) : LcdState :=
  let line := Lcd.nextLine s.line
  { s with
    line := line
    status := Lcd.statusFor s.status line (line == s.compare)
    flags := s.flags ||| s.requests line }

/-- Whether some cycles end a line: the display is on, and they use the countdown up. -/
def Ends (s : LcdState) (cycles : Nat) : Prop :=
  s.control.toNat.testBit 7 = true ∧ s.countdown ≤ cycles

instance (s : LcdState) (cycles : Nat) : Decidable (s.Ends cycles) :=
  inferInstanceAs (Decidable (_ ∧ _))

/-- The registers after an action on the display. -/
def act (s : LcdState) : Display.Action → LcdState
  | .advance cycles =>
    if s.Ends cycles then
      { s.enter with countdown := s.countdown - cycles + Lcd.cyclesPerLine }
    else if s.control.toNat.testBit 7 then { s with countdown := s.countdown - cycles }
    else s
  | .write addr value =>
    { s with
      control := if addr = Hardware.lcdControl then value else s.control
      line := if addr = Hardware.line then 0 else s.line
      compare := if addr = Hardware.lineCompare then value else s.compare
      status := if addr = Hardware.lcdStatus then value else s.status
      flags := if addr = Hardware.interruptFlags then value else s.flags }

/-- The registers after some actions. -/
def run (s : LcdState) : List Display.Action → LcdState
  | [] => s
  | a :: as => (s.act a).run as

end LcdState

/-! ## The display follows its registers -/

namespace Display

/-- The registers of a display. -/
def state (d : Display) : LcdState where
  countdown := d.timer.countdown
  control := d.memory.read Hardware.lcdControl
  line := d.memory.read Hardware.line
  compare := d.memory.read Hardware.lineCompare
  status := d.memory.read Hardware.lcdStatus
  flags := d.memory.read Hardware.interruptFlags

theorem reads_of_state {d : Display} {s : LcdState} (h : d.state = s) :
    d.memory.read Hardware.line = s.line ∧ d.memory.read Hardware.lineCompare = s.compare ∧
      d.memory.read Hardware.lcdStatus = s.status ∧
      d.memory.read Hardware.interruptFlags = s.flags := by
  subst h
  exact ⟨rfl, rfl, rfl, rfl⟩

theorem state_endLine (timer : ScanlineTimer) (m : Memory) :
    state ⟨timer, Lcd.endLine m⟩ =
      { (state ⟨timer, m⟩).enter with countdown := timer.countdown } := by
  have hcontrol : (Lcd.endLine m).read Hardware.lcdControl = m.read Hardware.lcdControl :=
    Lcd.read_enterLine_of_ne _ _ (by decide) (by decide) (by decide)
  have hcompare : (Lcd.endLine m).read Hardware.lineCompare = m.read Hardware.lineCompare :=
    Lcd.read_enterLine_of_ne _ _ (by decide) (by decide) (by decide)
  unfold state
  dsimp only
  rw [hcontrol, hcompare]
  unfold Lcd.endLine
  rw [Lcd.read_enterLine_line, Lcd.read_enterLine_status, Lcd.read_enterLine_flags]
  rfl

theorem state_write (d : Display) (addr : Word) (value : Byte) :
    (d.act (.write addr value)).state = d.state.act (.write addr value) := by
  have hplain : ∀ reg : Word, Region.of reg = .plain → 0xFE00 ≤ reg.toNat →
      (d.memory.write addr value).read reg = if addr = reg then value else d.memory.read reg := by
    intro reg hreg hhigh
    split
    · rename_i haddr
      rw [haddr, Memory.read_write_of_plain hreg, if_pos rfl]
    · rename_i haddr
      exact Memory.read_write_of_high hhigh (Ne.symm haddr) _ _
  have hline : (d.memory.write addr value).read Hardware.line =
      if addr = Hardware.line then 0 else d.memory.read Hardware.line := by
    split
    · rename_i haddr
      rw [haddr, Memory.read_write, show Region.of Hardware.line = .line by decide]
      exact if_pos rfl
    · rename_i haddr
      exact Memory.read_write_of_high (by decide) (Ne.symm haddr) _ _
  unfold state act
  dsimp only
  rw [hline, hplain Hardware.lcdControl (by decide) (by decide),
    hplain Hardware.lineCompare (by decide) (by decide),
    hplain Hardware.lcdStatus (by decide) (by decide),
    hplain Hardware.interruptFlags (by decide) (by decide)]
  rfl

/-- The registers after an action are determined by those before it. -/
theorem state_act (d : Display) (a : Action) : (d.act a).state = d.state.act a := by
  cases a with
  | write addr value => exact d.state_write addr value
  | advance cycles =>
    obtain ⟨timer, m⟩ := d
    show state ⟨(timer.advance m cycles).timer, (timer.advance m cycles).memory⟩ =
      if LcdState.Ends _ cycles then _ else if (m.read 0xFF40).toNat.testBit 7 then _ else _
    have hpower := m.lcd_power
    rcases timer.advance_cases m cycles with ⟨hoff, h⟩ | ⟨hon, hleft, h⟩ | ⟨hon, hleft, _, -, h⟩
    · have hgoes : ¬ (state ⟨timer, m⟩).Ends cycles := fun he => by
        rw [hpower, show (m.read 0xFF40).toNat.testBit 7 = true from he.1] at hoff
        cases hoff
      rw [h, if_neg hgoes, if_neg (by simp [← hpower, hoff])]
    · have hgoes : ¬ (state ⟨timer, m⟩).Ends cycles := fun he => by
        have := show timer.countdown ≤ cycles from he.2
        omega
      rw [h, if_neg hgoes, if_pos (hpower.symm.trans hon)]
      rfl
    · have hends : (state ⟨timer, m⟩).Ends cycles :=
        ⟨hpower.symm.trans hon, show timer.countdown ≤ cycles by omega⟩
      rw [h, state_endLine, if_pos hends]
      rfl

theorem state_run (d : Display) (as : List Action) : (d.run as).state = d.state.run as := by
  induction as generalizing d with
  | nil => rfl
  | cons a as ih =>
    rw [run, ih, state_act]
    rfl

/-- A line ends exactly when the registers say so. -/
theorem finished?_ne_none_iff (d : Display) (cycles : Nat) :
    d.finished? (.advance cycles) ≠ none ↔ d.state.Ends cycles := by
  obtain ⟨timer, m⟩ := d
  show (timer.advance m cycles).finished ≠ none ↔
    (m.read 0xFF40).toNat.testBit 7 = true ∧ timer.countdown ≤ cycles
  rw [← Memory.lcd_power]
  rcases timer.advance_cases m cycles with ⟨hoff, ha⟩ | ⟨hon, hleft, ha⟩ | ⟨hon, hleft, _, -, ha⟩
  · rw [ha, hoff]
    simp
  · rw [ha, hon]
    simp only [ne_eq, not_true_eq_false, true_and, false_iff]
    omega
  · rw [ha, hon]
    simp only [ne_eq, reduceCtorEq, not_false_eq_true, true_and, true_iff]
    omega

/-- The display at power-on. -/
def powerOn : Display := ⟨{}, .powerOn⟩

theorem state_powerOn : powerOn.state = ⟨114, 0x91, 0, 0, 0x85, 0x01⟩ := by
  unfold state powerOn
  simp only [Memory.read_powerOn]
  decide +kernel

end Display

/-! ## The match bit -/

/-- Whether an action stores to the line, to the compare or to the status register. -/
def Display.Action.Disturbs : Display.Action → Prop
  | .advance _ => False
  | .write addr _ =>
    addr = Hardware.line ∨ addr = Hardware.lineCompare ∨ addr = Hardware.lcdStatus

namespace Lcd

/-- The mode of a line is in the two low bits of its status byte; above them it shows a match and
keeps what was there. -/
theorem has_statusFor (status line : Byte) (isMatch : Bool) {n : Fin 8} (hn : n ≠ 0) :
    Byte.has (statusFor status line isMatch) n =
      (Byte.has status n && Byte.has 0xF8 n || isMatch && Byte.has matchBit n) := by
  have hmode : Byte.has (if line.toNat < vblankLine then 0 else 1) n = false := by
    split <;> revert n <;> decide
  have hmatch : ∀ (isMatch : Bool) (n : Fin 8),
      Byte.has (if isMatch then matchBit else 0) n = (isMatch && Byte.has matchBit n) := by decide
  rw [statusFor, Byte.has_or, Byte.has_or, Byte.has_and, hmode, hmatch, Bool.or_false]

end Lcd

namespace LcdState

variable {s : LcdState} {cycles : Nat}

theorem act_of_ends (h : s.Ends cycles) :
    s.act (.advance cycles) =
      { s.enter with countdown := s.countdown - cycles + Lcd.cyclesPerLine } := if_pos h

theorem act_of_not_ends (h : ¬ s.Ends cycles) :
    ∃ countdown, s.act (.advance cycles) = { s with countdown := countdown } := by
  rw [act, if_neg h]
  split
  · exact ⟨_, rfl⟩
  · exact ⟨s.countdown, rfl⟩

theorem matchBit_enter (s : LcdState) : s.enter.matchBit = (s.enter.line == s.compare) := by
  refine (Lcd.has_statusFor _ _ _ (by decide)).trans ?_
  rw [show Byte.has 0xF8 2 = false by decide, show Byte.has Lcd.matchBit 2 = true by decide,
    Bool.and_false, Bool.false_or, Bool.and_true]
  rfl

/-- A line that is entered requests the status interrupt if it matches and the interrupt is
enabled, unless the match bit was set. -/
theorem statusRequested_enter (s : LcdState) :
    s.enter.statusRequested =
      (s.statusRequested || (s.enter.line == s.compare && (!s.matchBit && s.matchEnabled))) := by
  show Byte.has (s.flags ||| s.requests _) 1 = _
  rw [requests, Byte.has_or, Byte.has_or, Interrupt.has_mask_if, Interrupt.has_mask_if,
    show decide ((1 : Fin 8) = Interrupt.vblank.index) = false by decide,
    show decide ((1 : Fin 8) = Interrupt.lcdStat.index) = true by decide, Bool.and_false,
    Bool.false_or, Bool.and_true, Bool.decide_eq_true]
  rfl

/-! ### Verdicts -/

/-- What an action says about a match: the end of a line compares the line that it enters, and a
store to the status register puts there what it likes. -/
def verdict? (s : LcdState) : Display.Action → Option Bool
  | .advance cycles => if s.Ends cycles then some (Lcd.nextLine s.line == s.compare) else none
  | .write addr value => if addr = Hardware.lcdStatus then some (Byte.has value 2) else none

/-- The last verdict of some actions, or else an earlier one. -/
def verdict (s : LcdState) (earlier : Bool) : List Display.Action → Bool
  | [] => earlier
  | a :: as => (s.act a).verdict ((s.verdict? a).getD earlier) as

theorem matchBit_act (s : LcdState) (a : Display.Action) :
    (s.act a).matchBit = (s.verdict? a).getD s.matchBit := by
  cases a with
  | write addr value =>
    show Byte.has (if addr = Hardware.lcdStatus then value else s.status) 2 =
      (if addr = Hardware.lcdStatus then some (Byte.has value 2) else none).getD
        (Byte.has s.status 2)
    split <;> rfl
  | advance cycles =>
    by_cases h : s.Ends cycles
    · rw [act_of_ends h, verdict?, if_pos h]
      exact s.matchBit_enter
    · obtain ⟨countdown, ha⟩ := act_of_not_ends h
      rw [ha, verdict?, if_neg h]
      rfl

/-- **The match bit is the last verdict.** -/
theorem matchBit_run (s : LcdState) (as : List Display.Action) :
    (s.run as).matchBit = s.verdict s.matchBit as := by
  induction as generalizing s with
  | nil => rfl
  | cons a as ih => rw [run, ih, matchBit_act, verdict]

/-! ### Meeting the compare register -/

/-- Some cycles take the line register from another value to that of the compare register. -/
def Meets (s : LcdState) (cycles : Nat) : Prop :=
  s.line ≠ s.compare ∧ (s.act (.advance cycles)).line = s.compare

/-- Cycles that meet the compare register request the interrupt, if it is enabled and the match bit
is clear. -/
theorem statusRequested_of_meets (h : s.Meets cycles) :
    (s.act (.advance cycles)).statusRequested =
      (s.statusRequested || (!s.matchBit && s.matchEnabled)) := by
  obtain ⟨hbefore, hafter⟩ := h
  by_cases hends : s.Ends cycles
  · rw [act_of_ends hends] at hafter ⊢
    have hline : s.enter.line = s.compare := hafter
    refine s.statusRequested_enter.trans ?_
    rw [hline, beq_self_eq_true, Bool.true_and]
  · obtain ⟨countdown, ha⟩ := act_of_not_ends hends
    rw [ha] at hafter
    exact absurd hafter hbefore

/-! ### Agreement -/

/-- The match bit is the comparison. -/
def Agrees (s : LcdState) : Prop := s.matchBit = (s.line == s.compare)

theorem agrees_of_ends (h : s.Ends cycles) : (s.act (.advance cycles)).Agrees := by
  rw [act_of_ends h]
  exact s.matchBit_enter

theorem Agrees.act (h : s.Agrees) {a : Display.Action} (ha : ¬ a.Disturbs) : (s.act a).Agrees := by
  cases a with
  | write addr value =>
    simp only [Display.Action.Disturbs, not_or] at ha
    obtain ⟨hline, hcompare, hstatus⟩ := ha
    unfold LcdState.act
    dsimp only
    rw [if_neg hline, if_neg hcompare, if_neg hstatus]
    exact h
  | advance cycles =>
    by_cases hends : s.Ends cycles
    · exact agrees_of_ends hends
    · obtain ⟨countdown, hact⟩ := act_of_not_ends hends
      rw [hact]
      exact h

/-- **The match bit agrees with the registers** as long as the program stores to none of the three.
-/
theorem Agrees.run (h : s.Agrees) {as : List Display.Action} (has : ∀ a ∈ as, ¬ a.Disturbs) :
    (s.run as).Agrees := by
  induction as generalizing s with
  | nil => exact h
  | cons a as ih =>
    obtain ⟨ha, hrest⟩ := List.forall_mem_cons.mp has
    exact ih (h.act ha) hrest

theorem run_append (s : LcdState) (as more : List Display.Action) :
    s.run (as ++ more) = (s.run as).run more := by
  induction as generalizing s with
  | nil => rfl
  | cons a as ih => exact ih (s.act a)

end LcdState

/-! ## Requests -/

namespace Display

/-- Some actions end with the end of a line, or there are none. -/
def EndsLine (d : Display) (as : List Action) : Prop :=
  as = [] ∨ ∃ earlier cycles, as = earlier ++ [.advance cycles] ∧
    (d.run earlier).finished? (.advance cycles) ≠ none

/-- The match bit is the comparison at power-on and at the end of each line. -/
theorem agrees_of_endsLine {as : List Action} (h : powerOn.EndsLine as) :
    (powerOn.state.run as).Agrees := by
  rcases h with rfl | ⟨earlier, cycles, rfl, hends⟩
  · rw [state_powerOn]
    exact (by decide : Byte.has 0x85 2 = (0 == (0 : Byte)))
  · rw [LcdState.run_append, ← state_run]
    exact LcdState.agrees_of_ends ((finished?_ne_none_iff _ _).mp hends)

/-- **Requests on a match.** Take the display after any actions from power-on, and cycles that take
its line register from another value to that of the compare register, while the interrupt on a match
is enabled. They leave the interrupt requested exactly if it was before, or the last verdict was
that there is no match. In particular it is requested if the program has stored to none of the
registers involved since the last end of a line. -/
theorem request_of_meets (as : List Action) (cycles : Nat) :
    let d := powerOn.run as
    let after := d.act (.advance cycles)
    d.memory.read Hardware.line ≠ d.memory.read Hardware.lineCompare →
    after.memory.read Hardware.line = d.memory.read Hardware.lineCompare →
    Byte.has (d.memory.read Hardware.lcdStatus) 6 = true →
      (Byte.has (after.memory.read Hardware.interruptFlags) 1 = true ↔
        Byte.has (d.memory.read Hardware.interruptFlags) 1 = true ∨
          powerOn.state.verdict true as = false) ∧
      ∀ before since, as = before ++ since → powerOn.EndsLine before →
        (∀ a ∈ since, ¬ a.Disturbs) →
          Byte.has (after.memory.read Hardware.interruptFlags) 1 = true := by
  intro d after hbefore hafter henabled
  have hmeets : d.state.Meets cycles := by
    refine ⟨hbefore, ?_⟩
    rw [← state_act]
    exact hafter
  have hrequested : Byte.has (after.memory.read Hardware.interruptFlags) 1 =
      (Byte.has (d.memory.read Hardware.interruptFlags) 1 || !d.state.matchBit) := by
    have key := LcdState.statusRequested_of_meets hmeets
    rw [← state_act, show d.state.matchEnabled = true from henabled, Bool.and_true] at key
    exact key
  have hbit : d.state.matchBit = powerOn.state.verdict true as := by
    rw [state_run, LcdState.matchBit_run, show powerOn.state.matchBit = true by
      rw [state_powerOn]; decide]
  refine ⟨?_, ?_⟩
  · rw [hrequested, hbit, Bool.or_eq_true, Bool.not_eq_true']
  · rintro before since rfl hends hsince
    have hagrees : d.state.Agrees := by
      rw [state_run, LcdState.run_append]
      exact (agrees_of_endsLine hends).run hsince
    have hclear : d.state.matchBit = false := hagrees.trans (beq_false_of_ne hbefore)
    rw [hrequested, hclear]
    exact Bool.or_true _

/-- A program that takes back the request of power-on, sets the line to compare with, and enables
the interrupt on a match. -/
def watching (line : Byte) : List Action :=
  [.write Hardware.interruptFlags 0, .write Hardware.lineCompare line,
    .write Hardware.lcdStatus 0x40]

/-- Two lines are counted, and the second one is the line to compare with. -/
theorem request_of_meets_second_line :
    let as := watching 2 ++ [.advance 114]
    let d := powerOn.run as
    let after := d.act (.advance 114)
    d.memory.read Hardware.line = 1 ∧ d.memory.read Hardware.lineCompare = 2 ∧
      after.memory.read Hardware.line = 2 ∧
      Byte.has (d.memory.read Hardware.lcdStatus) 6 = true ∧
      powerOn.EndsLine as ∧
      Byte.has (after.memory.read Hardware.interruptFlags) 1 = true := by
  intro as d after
  have hd : d.state = ⟨114, 0x91, 1, 2, 0x40, 0⟩ := by
    rw [state_run, state_powerOn]
    decide +kernel
  have hafter : after.state = ⟨114, 0x91, 2, 2, 0x44, 2⟩ := by
    rw [state_act, hd]
    decide +kernel
  obtain ⟨hline, hcompare, hstatus, -⟩ := reads_of_state hd
  obtain ⟨hnext, -, -, -⟩ := reads_of_state hafter
  have henabled : Byte.has (d.memory.read Hardware.lcdStatus) 6 = true := by
    rw [hstatus]
    decide
  have hends : powerOn.EndsLine as := by
    refine .inr ⟨watching 2, 114, rfl, ?_⟩
    rw [finished?_ne_none_iff, state_run, state_powerOn]
    decide +kernel
  have hmeets := request_of_meets as 114
  exact ⟨hline, hcompare, hnext, henabled, hends,
    (hmeets (by rw [hline, hcompare]; decide) (hnext.trans hcompare.symm) henabled).2 as []
      (List.append_nil _).symm hends (by simp)⟩

/-- A program that moves the compare register on when its line is reached. The line that it names
next is reached without a request. -/
theorem unrequested_match :
    let as := watching 1 ++
      [.advance 114, .write Hardware.interruptFlags 0, .write Hardware.lineCompare 2]
    let d := powerOn.run as
    let after := d.act (.advance 114)
    d.memory.read Hardware.line = 1 ∧ d.memory.read Hardware.lineCompare = 2 ∧
      after.memory.read Hardware.line = 2 ∧
      Byte.has (d.memory.read Hardware.lcdStatus) 6 = true ∧
      Byte.has (after.memory.read Hardware.interruptFlags) 1 = false := by
  intro as d after
  have hd : d.state = ⟨114, 0x91, 1, 2, 0x44, 0⟩ := by
    rw [state_run, state_powerOn]
    decide +kernel
  have hafter : after.state = ⟨114, 0x91, 2, 2, 0x44, 0⟩ := by
    rw [state_act, hd]
    decide +kernel
  obtain ⟨hline, hcompare, hstatus, -⟩ := reads_of_state hd
  obtain ⟨hnext, -, -, hflags⟩ := reads_of_state hafter
  refine ⟨hline, hcompare, hnext, ?_, ?_⟩
  · rw [hstatus]
    decide
  · rw [hflags]
    decide

end Display

end GameBoy
