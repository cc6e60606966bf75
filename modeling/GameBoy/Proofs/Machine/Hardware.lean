import GameBoy.Joypad
import GameBoy.Lcd
import GameBoy.Proofs.Alu.Bitwise

/-!
# What the hardware writes on its own

Between two instructions the joypad and the display update their registers. Together they write four
addresses: the joypad register, the interrupt flags, the line register and the display status
(`Hardware.IsUpdated`). Every other byte is left to the program.
-/

namespace GameBoy

/-- The addresses that the joypad and the display write. -/
def Hardware.IsUpdated (addr : Word) : Prop :=
  addr = joypad ∨ addr = interruptFlags ∨ addr = line ∨ addr = lcdStatus

instance (addr : Word) : Decidable (Hardware.IsUpdated addr) :=
  inferInstanceAs (Decidable (_ ∨ _ ∨ _ ∨ _))

theorem Memory.read_poke_of_ne (m : Memory) {addr other : Word} (value : Byte)
    (h : other ≠ addr) : (m.poke addr value).read other = m.read other := by
  rw [read_poke, if_neg h]

theorem Interrupt.request_eq_poke (bits : Byte) (m : Memory) :
    request bits m =
      m.poke Hardware.interruptFlags (m.read Hardware.interruptFlags ||| bits) := by
  have hr : Region.of Hardware.interruptFlags = .plain := by decide
  show m.write Hardware.interruptFlags _ = _
  unfold Memory.write
  rw [hr]

theorem Interrupt.read_request_of_ne (bits : Byte) (m : Memory) {addr : Word}
    (h : addr ≠ Hardware.interruptFlags) : (request bits m).read addr = m.read addr := by
  rw [request_eq_poke, Memory.read_poke, if_neg h]

theorem Interrupt.flags_request_if (c : Prop) [Decidable c] (bits : Byte) (m : Memory) :
    (if c then request bits m else m).read Hardware.interruptFlags =
      m.read Hardware.interruptFlags ||| (if c then bits else 0) := by
  split
  · rw [request_eq_poke, Memory.read_poke_self]
  · rw [UInt8.or_zero]

theorem Interrupt.read_request_if_of_ne (c : Prop) [Decidable c] (bits : Byte) (m : Memory)
    {addr : Word} (h : addr ≠ Hardware.interruptFlags) :
    (if c then request bits m else m).read addr = m.read addr := by
  split
  · exact read_request_of_ne bits m h
  · rfl

/-- What a request of one source adds to the flags. -/
theorem Interrupt.has_mask_if (c : Prop) [Decidable c] (source : Interrupt) (n : Fin 8) :
    Byte.has (if c then source.mask else 0) n = (decide c && decide (n = source.index)) := by
  have hzero : Byte.has 0 n = false := by
    revert n
    decide
  by_cases hc : c
  · rw [if_pos hc, decide_eq_true hc, Bool.true_and]
    exact Byte.has_bit _ _
  · rw [if_neg hc, decide_eq_false hc, Bool.false_and, hzero]

/-! ## The joypad -/

namespace Joypad

theorem read_latch_of_ne (joypad : Joypad) (m : Memory) (input : JoypadInput) {addr : Word}
    (hj : addr ≠ Hardware.joypad) (hi : addr ≠ Hardware.interruptFlags) :
    (joypad.latch m input).2.read addr = m.read addr := by
  simp only [latch]
  rw [Interrupt.read_request_if_of_ne _ _ _ hi, Memory.read_poke_of_ne _ _ hj]

theorem read_latch_of_not_updated {addr : Word} (h : ¬ Hardware.IsUpdated addr) (joypad : Joypad)
    (m : Memory) (input : JoypadInput) : (joypad.latch m input).2.read addr = m.read addr :=
  joypad.read_latch_of_ne m input (fun e => h (.inl e)) (fun e => h (.inr (.inl e)))

theorem selection_registerByte (current mask : Byte) :
    registerByte current mask &&& 0x30 = current &&& 0x30 := by
  have hhigh : ∀ n, Byte.has 0xC0 n = true → Byte.has 0x30 n = false := by decide
  have hlow : ∀ n, Byte.has 0x0F n = true → Byte.has 0x30 n = false := by decide
  apply Byte.ext
  intro n
  simp only [registerByte, lines, Byte.has_and, Byte.has_or]
  have h₁ := hhigh n
  have h₂ := hlow n
  grind

/-- The register byte for some buttons already shows them. -/
theorem registerByte_registerByte (current mask : Byte) :
    registerByte (registerByte current mask) mask = registerByte current mask := by
  rw [registerByte, selection_registerByte]
  rfl

theorem read_latch_joypad (joypad : Joypad) (m : Memory) (input : JoypadInput) :
    (joypad.latch m input).2.read Hardware.joypad =
      registerByte (m.read Hardware.joypad) input.mask := by
  simp only [latch]
  rw [Interrupt.read_request_if_of_ne _ _ _ (by decide), Memory.read_poke_self]

/-- A latch changes nothing when the register shows the buttons and they were held before. -/
theorem latch_of_shown {joypad : Joypad} {m : Memory} {input : JoypadInput}
    (hheld : joypad.held = input.mask)
    (hshown : registerByte (m.read Hardware.joypad) input.mask = m.read Hardware.joypad) :
    joypad.latch m input = (joypad, m) := by
  have hpoke : m.poke Hardware.joypad (m.read Hardware.joypad) = m := by
    ext addr
    rw [Memory.read_poke]
    split
    · rename_i h
      rw [h]
    · rfl
  obtain ⟨held⟩ := joypad
  obtain rfl : held = input.mask := hheld
  simp [latch, hshown, hpoke]

end Joypad

/-! ## The display -/

namespace Lcd

theorem read_updateStatus_of_ne (m : Memory) (line : Byte) {addr : Word}
    (hs : addr ≠ Hardware.lcdStatus) (hi : addr ≠ Hardware.interruptFlags) :
    (updateStatus m line).read addr = m.read addr := by
  simp only [updateStatus]
  rw [Interrupt.read_request_if_of_ne _ _ _ hi, Memory.read_poke_of_ne _ _ hs]

theorem read_enterLine_of_ne (m : Memory) (line : Byte) {addr : Word}
    (hl : addr ≠ Hardware.line) (hs : addr ≠ Hardware.lcdStatus)
    (hi : addr ≠ Hardware.interruptFlags) : (enterLine m line).read addr = m.read addr := by
  simp only [enterLine]
  rw [read_updateStatus_of_ne _ _ hs hi, Interrupt.read_request_if_of_ne _ _ _ hi,
    Memory.read_poke_of_ne _ _ hl]

/-- The memory after a line has ended. -/
def endLine (m : Memory) : Memory := enterLine m (nextLine (m.read Hardware.line))

end Lcd

/-! ## The timer -/

theorem LcdSwitch.isOn_power (control : Byte) : power.isOn control = control.toNat.testBit 7 :=
  Byte.has_eq_testBit control 7

/-- The display is switched by bit 7 of the byte at `FF40`. -/
theorem Memory.lcd_power (m : Memory) : m.lcd .power = (m.read 0xFF40).toNat.testBit 7 :=
  LcdSwitch.isOn_power _

namespace ScanlineTimer

/-- The three things an advance can do: the display is off, the line goes on, or it ends. -/
theorem advance_cases (timer : ScanlineTimer) (m : Memory) (cycles : Nat) :
    (m.lcd .power = false ∧ timer.advance m cycles = ⟨none, timer, m, #[]⟩) ∨
    (m.lcd .power = true ∧ 0 < timer.countdown - cycles ∧
      timer.advance m cycles = ⟨none, ⟨timer.countdown - cycles⟩, m, #[]⟩) ∨
    (m.lcd .power = true ∧ timer.countdown - cycles ≤ 0 ∧
      ∃ events, (events = #[] ∨ events = #[.vblankEntered]) ∧
        timer.advance m cycles = ⟨some (m.read Hardware.line),
          ⟨timer.countdown - cycles + 114⟩, Lcd.endLine m, events⟩) := by
  unfold advance
  cases hm : m.lcd .power with
  | false => exact .inl ⟨rfl, rfl⟩
  | true =>
    rw [if_pos rfl]
    dsimp only
    split
    · rename_i h
      exact .inr (.inl ⟨rfl, h, rfl⟩)
    · rename_i h
      refine .inr (.inr ⟨rfl, Int.not_lt.mp h, _, ?_, rfl⟩)
      split
      · exact .inr rfl
      · exact .inl rfl

theorem read_advance_of_ne (timer : ScanlineTimer) (m : Memory) (cycles : Nat) {addr : Word}
    (hl : addr ≠ Hardware.line) (hs : addr ≠ Hardware.lcdStatus)
    (hi : addr ≠ Hardware.interruptFlags) :
    (timer.advance m cycles).memory.read addr = m.read addr := by
  rcases timer.advance_cases m cycles with ⟨-, h⟩ | ⟨-, -, h⟩ | ⟨-, -, events, -, h⟩
  · rw [h]
  · rw [h]
  · rw [h]
    exact Lcd.read_enterLine_of_ne _ _ hl hs hi

/-- Cycles leave to the program what the hardware does not write. -/
theorem read_advance_of_not_updated {addr : Word} (h : ¬ Hardware.IsUpdated addr)
    (timer : ScanlineTimer) (m : Memory) (cycles : Nat) :
    (timer.advance m cycles).memory.read addr = m.read addr :=
  timer.read_advance_of_ne m cycles (fun e => h (.inr (.inr (.inl e))))
    (fun e => h (.inr (.inr (.inr e)))) (fun e => h (.inr (.inl e)))

end ScanlineTimer

end GameBoy
