import Mathlib.Algebra.Ring.Nat
import GameBoy.Proofs.Machine.Hardware

/-!
# Scanline accounting

The scanline timer is driven by cycle counts and by the stores of the program, which may switch the
display off and on (`Display.Action`). Over any sequence of both, no cycle is lost: what the
countdown has lost is what was charged while the display was on, less a whole line for each line
that ended (`Display.countdown_run`).

While the display stays on, and no count is longer than a line, it does not matter how the cycles
are dealt out. The countdown holds the cycles that are left of a line, so the cycles since the start
of the line and those still to come determine everything else: a line ends for each 114 of them
(`Display.run_advances`).
-/

namespace GameBoy

/-! ## Entering a line -/

namespace Lcd

theorem read_enterLine_line (m : Memory) (line : Byte) :
    (enterLine m line).read Hardware.line = line := by
  simp only [enterLine]
  rw [read_updateStatus_of_ne _ _ (by decide) (by decide),
    Interrupt.read_request_if_of_ne _ _ _ (by decide), Memory.read_poke_self]

/-- The display asks for a clear match bit and a set enable bit. -/
theorem newMatch_eq (status : Byte) :
    (status &&& matchBit == 0 && status &&& matchInterruptBit != 0) =
      (!Byte.has status 2 && Byte.has status 6) := by
  unfold Byte.has
  rw [show Byte.bit 2 = matchBit by decide, show Byte.bit 6 = matchInterruptBit by decide, bne, bne,
    Bool.not_not]

theorem read_enterLine_status (m : Memory) (line : Byte) :
    (enterLine m line).read Hardware.lcdStatus =
      statusFor (m.read Hardware.lcdStatus) line (line == m.read Hardware.lineCompare) := by
  simp only [enterLine, updateStatus]
  rw [Interrupt.read_request_if_of_ne _ _ _ (by decide), Memory.read_poke_self,
    Interrupt.read_request_if_of_ne _ _ _ (by decide), Memory.read_poke_of_ne _ _ (by decide),
    Interrupt.read_request_if_of_ne _ _ _ (by decide), Memory.read_poke_of_ne _ _ (by decide)]

theorem read_enterLine_flags (m : Memory) (line : Byte) :
    (enterLine m line).read Hardware.interruptFlags =
      m.read Hardware.interruptFlags |||
        ((if line.toNat == vblankLine then Interrupt.vblank.mask else 0) |||
          (if line == m.read Hardware.lineCompare &&
            (!Byte.has (m.read Hardware.lcdStatus) 2 && Byte.has (m.read Hardware.lcdStatus) 6)
          then Interrupt.lcdStat.mask else 0)) := by
  simp only [enterLine, updateStatus]
  rw [Interrupt.flags_request_if, Memory.read_poke_of_ne _ _ (by decide),
    Interrupt.flags_request_if, Memory.read_poke_of_ne _ _ (by decide),
    Interrupt.read_request_if_of_ne _ _ _ (by decide),
    Memory.read_poke_of_ne _ _ (by decide), Interrupt.read_request_if_of_ne _ _ _ (by decide),
    Memory.read_poke_of_ne _ _ (by decide), Bool.and_assoc, newMatch_eq, UInt8.or_assoc]

theorem vblank_enterLine (m : Memory) (line : Byte) :
    Byte.has ((enterLine m line).read Hardware.interruptFlags) 0 =
      (Byte.has (m.read Hardware.interruptFlags) 0 || line.toNat == vblankLine) := by
  rw [read_enterLine_flags, Byte.has_or, Byte.has_or, Interrupt.has_mask_if, Interrupt.has_mask_if,
    show decide ((0 : Fin 8) = Interrupt.vblank.index) = true by decide,
    show decide ((0 : Fin 8) = Interrupt.lcdStat.index) = false by decide, Bool.and_true,
    Bool.and_false, Bool.or_false, Bool.decide_eq_true]

/-- Entering a line requests nothing but the vertical blank and the status interrupt. -/
theorem has_flags_enterLine (m : Memory) (line : Byte) {n : Fin 8} (hn : 2 ≤ n) :
    Byte.has ((enterLine m line).read Hardware.interruptFlags) n =
      Byte.has (m.read Hardware.interruptFlags) n := by
  have hvblank : n ≠ Interrupt.vblank.index := by rintro rfl; revert hn; decide
  have hstat : n ≠ Interrupt.lcdStat.index := by rintro rfl; revert hn; decide
  rw [read_enterLine_flags, Byte.has_or, Byte.has_or, Interrupt.has_mask_if, Interrupt.has_mask_if,
    decide_eq_false hvblank, decide_eq_false hstat, Bool.and_false, Bool.and_false, Bool.or_false,
    Bool.or_false]

theorem lcd_endLine (m : Memory) (switch : LcdSwitch) : (endLine m).lcd switch = m.lcd switch := by
  unfold Memory.lcd endLine
  rw [read_enterLine_of_ne _ _ (by decide) (by decide) (by decide)]

theorem line_endLine {m : Memory} (h : (m.read Hardware.line).toNat ≤ 153) :
    ((endLine m).read Hardware.line).toNat = ((m.read Hardware.line).toNat + 1) % 154 := by
  rw [endLine, read_enterLine_line, toNat_nextLine]
  split <;> omega

/-- The memory after some lines have ended. -/
def endLines (m : Memory) : Nat → Memory
  | 0 => m
  | n + 1 => endLines (endLine m) n

/-- The lines that end on the way. -/
def ended (m : Memory) : Nat → List Byte
  | 0 => []
  | n + 1 => m.read Hardware.line :: ended (endLine m) n

theorem length_ended (m : Memory) (n : Nat) : (ended m n).length = n := by
  induction n generalizing m with
  | zero => rfl
  | succ n ih => rw [ended, List.length_cons, ih]

theorem line_endLines {m : Memory} (h : (m.read Hardware.line).toNat ≤ 153) (n : Nat) :
    ((endLines m n).read Hardware.line).toNat = ((m.read Hardware.line).toNat + n) % 154 := by
  induction n generalizing m with
  | zero => rw [endLines]; omega
  | succ n ih =>
    have hnext := line_endLine h
    rw [endLines, ih (by omega), hnext]
    omega

/-- The lines that end follow each other, and line 0 follows the last one. -/
theorem ended_eq {m : Memory} (h : (m.read Hardware.line).toNat ≤ 153) (n : Nat) :
    ended m n =
      (List.range n).map fun i => UInt8.ofNat (((m.read Hardware.line).toNat + i) % 154) := by
  induction n generalizing m with
  | zero => rfl
  | succ n ih =>
    have hnext := line_endLine h
    rw [ended, ih (by omega), hnext, List.range_succ_eq_map, List.map_cons, List.map_map]
    refine List.cons_eq_cons.mpr ⟨?_, List.map_congr_left fun i _ => congrArg UInt8.ofNat ?_⟩
    · rw [Nat.add_zero, Nat.mod_eq_of_lt (by omega), UInt8.ofNat_toNat]
    · rw [Nat.succ_eq_add_one]
      omega

/-- The vertical blank is requested when its first line is reached. -/
theorem vblank_endLines {m : Memory} (h : (m.read Hardware.line).toNat ≤ 153) (n : Nat) :
    Byte.has ((endLines m n).read Hardware.interruptFlags) 0 = true ↔
      Byte.has (m.read Hardware.interruptFlags) 0 = true ∨
        ∃ i < n, ((m.read Hardware.line).toNat + i + 1) % 154 = 144 := by
  induction n generalizing m with
  | zero => simp [endLines]
  | succ n ih =>
    have hnext := line_endLine h
    have hflag : Byte.has ((endLine m).read Hardware.interruptFlags) 0 = true ↔
        Byte.has (m.read Hardware.interruptFlags) 0 = true ∨
          ((m.read Hardware.line).toNat + 1) % 154 = 144 := by
      rw [← hnext, endLine, read_enterLine_line, vblank_enterLine, Bool.or_eq_true, beq_iff_eq]
      rfl
    rw [endLines, ih (by omega), hflag, hnext, or_assoc]
    refine or_congr_right ?_
    constructor
    · rintro (h0 | ⟨i, hi, he⟩)
      · exact ⟨0, by omega, h0⟩
      · exact ⟨i + 1, by omega, by omega⟩
    · rintro ⟨i, hi, he⟩
      cases i with
      | zero => exact .inl he
      | succ i => exact .inr ⟨i, by omega, by omega⟩

end Lcd

theorem ScanlineTimer.has_flags_advance (timer : ScanlineTimer) (m : Memory) (cycles : Nat)
    {n : Fin 8} (hn : 2 ≤ n) :
    Byte.has ((timer.advance m cycles).memory.read Hardware.interruptFlags) n =
      Byte.has (m.read Hardware.interruptFlags) n := by
  rcases timer.advance_cases m cycles with ⟨-, h⟩ | ⟨-, -, h⟩ | ⟨-, -, events, -, h⟩
  · rw [h]
  · rw [h]
  · rw [h]
    exact Lcd.has_flags_enterLine _ _ hn

/-! ## The timer and its memory -/

/-- The scanline timer and the memory it works on. -/
structure Display where
  timer : ScanlineTimer
  memory : Memory

namespace Display

/-- What happens to a display: cycles pass, or the program stores a byte. -/
inductive Action where
  | advance (cycles : Nat)
  | write (addr : Word) (value : Byte)

/-- The display after an action. -/
def act (d : Display) : Action → Display
  | .advance cycles =>
    let advance := d.timer.advance d.memory cycles
    ⟨advance.timer, advance.memory⟩
  | .write addr value => ⟨d.timer, d.memory.write addr value⟩

/-- The line that an action ends. -/
def finished? (d : Display) : Action → Option Byte
  | .advance cycles => (d.timer.advance d.memory cycles).finished
  | .write _ _ => none

/-- The cycles that an action takes while the display is on, by bit 7 of its control register. -/
def charge (d : Display) : Action → Nat
  | .advance cycles => if (d.memory.read 0xFF40).toNat.testBit 7 then cycles else 0
  | .write _ _ => 0

/-- The display after some actions. -/
def run (d : Display) : List Action → Display
  | [] => d
  | a :: as => (d.act a).run as

/-- The lines that some actions end. -/
def finished (d : Display) : List Action → List Byte
  | [] => []
  | a :: as => (d.finished? a).toList ++ (d.act a).finished as

/-- The cycles that some actions take while the display is on. -/
def charged (d : Display) : List Action → Nat
  | [] => 0
  | a :: as => d.charge a + (d.act a).charged as

theorem countdown_act (d : Display) (a : Action) :
    (d.act a).timer.countdown =
      d.timer.countdown - d.charge a + 114 * (d.finished? a).toList.length := by
  cases a with
  | write addr value => simp [act, charge, finished?]
  | advance cycles =>
    unfold act charge finished?
    rw [← Memory.lcd_power]
    rcases d.timer.advance_cases d.memory cycles with
      ⟨hm, h⟩ | ⟨hm, -, h⟩ | ⟨hm, -, events, -, h⟩
    · simp [h, hm]
    · simp [h, hm]
    · simp [h, hm]

/-- No cycle is lost, whatever the program stores and when. -/
theorem countdown_run (d : Display) (as : List Action) :
    (d.run as).timer.countdown =
      d.timer.countdown - d.charged as + 114 * (d.finished as).length := by
  induction as generalizing d with
  | nil => simp [run, charged, finished]
  | cons a as ih =>
    have key := countdown_act d a
    rw [run, charged, finished, ih, List.length_append]
    omega

/-! ## Counts of at most a line -/

/-- Cycles that pass in the given portions. -/
def advances (portions : List Nat) : List Action := portions.map .advance

/-- While the display is on, the cycles since the start of the line and the sum of the portions
determine what the portions do. -/
theorem run_advances {m : Memory} (hm : m.lcd .power = true) {passed : Nat} (hp : passed < 114)
    {portions : List Nat} (hle : ∀ cycles ∈ portions, cycles ≤ 114) :
    run ⟨⟨114 - passed⟩, m⟩ (advances portions) =
        ⟨⟨114 - ((passed + portions.sum) % 114 : Nat)⟩,
          Lcd.endLines m ((passed + portions.sum) / 114)⟩ ∧
      finished ⟨⟨114 - passed⟩, m⟩ (advances portions) =
        Lcd.ended m ((passed + portions.sum) / 114) := by
  induction portions generalizing m passed with
  | nil =>
    simp only [advances, List.map_nil, run, finished, List.sum_nil, Nat.add_zero]
    rw [Nat.mod_eq_of_lt hp, Nat.div_eq_of_lt hp]
    exact ⟨rfl, rfl⟩
  | cons cycles portions ih =>
    have hc := hle cycles List.mem_cons_self
    have hrest : ∀ c ∈ portions, c ≤ 114 := fun c hc => hle c (List.mem_cons_of_mem _ hc)
    rcases ScanlineTimer.advance_cases ⟨114 - passed⟩ m cycles with
      ⟨hoff, -⟩ | ⟨-, hleft, h⟩ | ⟨-, hleft, events, -, h⟩
    · rw [hm] at hoff
      cases hoff
    · -- the line goes on
      replace hleft : (0 : Int) < 114 - passed - cycles := hleft
      have hcount : (114 - passed - cycles : Int) = 114 - (passed + cycles : Nat) := by omega
      obtain ⟨hrun, hfinished⟩ := ih hm (show passed + cycles < 114 by omega) hrest
      rw [List.sum_cons, ← Nat.add_assoc]
      unfold advances at hrun hfinished ⊢
      rw [List.map_cons, run, finished, act, finished?, h]
      dsimp only
      rw [hcount]
      exact ⟨hrun, hfinished⟩
    · -- the line ends, and the cycles beyond its end are the first of the next one
      replace hleft : (114 - passed - cycles : Int) ≤ 0 := hleft
      have hcount : (114 - passed - cycles + 114 : Int) = 114 - (passed + cycles - 114 : Nat) := by
        omega
      obtain ⟨hrun, hfinished⟩ := ih ((Lcd.lcd_endLine m .power).trans hm)
        (show passed + cycles - 114 < 114 by omega) hrest
      have hmod : (passed + (cycles + portions.sum)) % 114 =
          (passed + cycles - 114 + portions.sum) % 114 := by omega
      have hdiv : (passed + (cycles + portions.sum)) / 114 =
          (passed + cycles - 114 + portions.sum) / 114 + 1 := by omega
      rw [List.sum_cons, hmod, hdiv, Lcd.endLines, Lcd.ended]
      unfold advances at hrun hfinished ⊢
      rw [List.map_cons, run, finished, act, finished?, h]
      dsimp only
      rw [hcount, hrun, hfinished]
      exact ⟨rfl, rfl⟩

/-- What portions of a number of cycles do to a display that is on, in terms of that number. -/
theorem advances_spec {d : Display} (hon : d.memory.lcd .power = true)
    (hline : (d.memory.read Hardware.line).toNat ≤ 153) (hpos : 1 ≤ d.timer.countdown)
    (hle : d.timer.countdown ≤ 114) :
    ∃ passed : Nat, d.timer.countdown = 114 - passed ∧
      ∀ portions : List Nat, (∀ cycles ∈ portions, cycles ≤ 114) →
        let lines := (passed + portions.sum) / 114
        d.run (advances portions) =
            ⟨⟨114 - ((passed + portions.sum) % 114 : Nat)⟩, Lcd.endLines d.memory lines⟩ ∧
          d.finished (advances portions) = Lcd.ended d.memory lines := by
  obtain ⟨passed, hp, hc⟩ : ∃ passed : Nat, passed < 114 ∧ d.timer.countdown = 114 - passed :=
    ⟨(114 - d.timer.countdown).toNat, by omega, by omega⟩
  refine ⟨passed, hc, fun portions hportions => ?_⟩
  obtain ⟨⟨countdown⟩, m⟩ := d
  obtain rfl : countdown = 114 - passed := hc
  exact run_advances hon hp hportions

/-- **Accounting.** Over any actions, the countdown loses the cycles that pass while the display is
on, and gains a line for each line that ends. Two ways to deal out the same cycles, in portions of
at most a line, to a display that stays on have the same effect: the countdown stays within a line,
the lines that end follow each other, the line register has moved on by their number, and the
vertical blank is requested if it was before or its first line was reached. -/
theorem accounting :
    (∀ (d : Display) (as : List Action),
      (d.run as).timer.countdown =
        d.timer.countdown - d.charged as + 114 * (d.finished as).length) ∧
    (∀ d : Display, (d.memory.read 0xFF40).toNat.testBit 7 = true →
      (d.memory.read Hardware.line).toNat ≤ 153 → 1 ≤ d.timer.countdown →
      d.timer.countdown ≤ 114 → ∀ portions portions' : List Nat,
        (∀ cycles ∈ portions, cycles ≤ 114) →
        (∀ cycles ∈ portions', cycles ≤ 114) → portions.sum = portions'.sum →
        let after := d.run (advances portions)
        let lines := d.finished (advances portions)
        let first := (d.memory.read Hardware.line).toNat
        d.run (advances portions') = after ∧ d.finished (advances portions') = lines ∧
          1 ≤ after.timer.countdown ∧ after.timer.countdown ≤ 114 ∧
          (lines.length : Int) = (portions.sum + 114 - d.timer.countdown) / 114 ∧
          lines = (List.range lines.length).map (fun i => UInt8.ofNat ((first + i) % 154)) ∧
          (after.memory.read Hardware.line).toNat = (first + lines.length) % 154 ∧
          (Byte.has (after.memory.read Hardware.interruptFlags) 0 = true ↔
            Byte.has (d.memory.read Hardware.interruptFlags) 0 = true ∨
              ∃ i < lines.length, (first + i + 1) % 154 = 144)) := by
  refine ⟨countdown_run, ?_⟩
  intro d hon hline hpos hle portions portions' hportions hportions' hsum after lines first
  obtain ⟨passed, hpassed, hspec⟩ :=
    advances_spec ((Memory.lcd_power d.memory).trans hon) hline hpos hle
  obtain ⟨hafter, hlines⟩ := hspec portions hportions
  obtain ⟨hafter', hlines'⟩ := hspec portions' hportions'
  rw [← hsum] at hafter' hlines'
  have hlength : lines.length = (passed + portions.sum) / 114 := by
    show (d.finished (advances portions)).length = _
    rw [hlines, Lcd.length_ended]
  refine ⟨hafter'.trans hafter.symm, hlines'.trans hlines.symm, ?_, ?_, ?_, ?_, ?_, ?_⟩
  · show 1 ≤ (d.run (advances portions)).timer.countdown
    rw [hafter]
    dsimp only
    omega
  · show (d.run (advances portions)).timer.countdown ≤ 114
    rw [hafter]
    dsimp only
    omega
  · rw [hlength, hpassed]
    omega
  · rw [hlength]
    exact hlines.trans (Lcd.ended_eq hline _)
  · rw [hlength]
    show ((d.run (advances portions)).memory.read Hardware.line).toNat = _
    rw [hafter]
    exact Lcd.line_endLines hline _
  · rw [hlength]
    show Byte.has ((d.run (advances portions)).memory.read Hardware.interruptFlags) 0 = true ↔ _
    rw [hafter]
    exact Lcd.vblank_endLines hline _

/-- One line and a half, dealt out in two and in three portions. -/
theorem accounting_of_two_portions :
    let d : Display := ⟨{}, (⟨.zero⟩ : Memory).poke Hardware.lcdControl 0x80⟩
    (d.memory.read 0xFF40).toNat.testBit 7 = true ∧ (d.memory.read Hardware.line).toNat = 0 ∧
      d.run (advances [57, 57, 57]) = d.run (advances [114, 57]) ∧
      d.finished (advances [57, 57, 57]) = d.finished (advances [114, 57]) ∧
      (d.finished (advances [114, 57])).length = 1 := by
  intro d
  have hon : (d.memory.read 0xFF40).toNat.testBit 7 = true := by
    show (Memory.read (Memory.poke _ Hardware.lcdControl _) Hardware.lcdControl).toNat.testBit 7 = _
    rw [Memory.read_poke_self]
    decide
  have hline : (d.memory.read Hardware.line).toNat = 0 := by
    show (Memory.read (Memory.poke _ _ _) _).toNat = 0
    rw [Memory.read_poke, if_neg (by decide), Memory.read_mk, AddressSpace.get_zero]
    rfl
  obtain ⟨hrun, hfinished, -, -, hlength, -⟩ := accounting.2 d hon (by omega) (by decide)
    (by decide) [114, 57] [57, 57, 57] (by decide) (by decide) (by decide)
  refine ⟨hon, hline, hrun, hfinished, ?_⟩
  have hcountdown : d.timer.countdown = 114 := rfl
  rw [hcountdown] at hlength
  simp only [List.sum_cons, List.sum_nil] at hlength
  omega

end Display

end GameBoy
