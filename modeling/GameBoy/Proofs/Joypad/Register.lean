import GameBoy.Proofs.Machine.Hardware

/-!
# The joypad register

Each button has a line in the register, shared with a button of the other group, and a bit that
selects its group (`Button.line`, `Button.selector`). The register shows some buttons
(`Joypad.Shows`) when a line is low exactly if a button on it is pressed whose group is selected,
the selection is the one that was stored, and the two bits above are set.

A latch makes the register show the buttons (`Joypad.shows_registerByte`), and requests the
interrupt exactly when a button is pressed that was not before, selected or not
(`Joypad.flags_latch`).
-/

namespace GameBoy

/-! ## Buttons and their bits -/

namespace Button

/-- The bit of the register that shows the button. -/
def line : Button → Fin 8
  | right | a => 0
  | left | b => 1
  | up | select => 2
  | down | start => 3

/-- The bit of the register that selects the group of the button when it is clear. -/
def selector : Button → Fin 8
  | right | left | up | down => 4
  | a | b | select | start => 5

theorem exists_iff {p : Button → Prop} :
    (∃ button, p button) ↔
      p right ∨ p left ∨ p up ∨ p down ∨ p a ∨ p b ∨ p select ∨ p start := by
  constructor
  · rintro ⟨button, h⟩
    cases button <;> simp [h]
  · rintro (h | h | h | h | h | h | h | h) <;> exact ⟨_, h⟩

theorem index_surjective (n : Fin 8) : ∃ button : Button, button.index = n := by
  rw [exists_iff]
  revert n
  decide

theorem exists_on_line {n : Fin 8} (hn : n < 4) {stored : Byte} {input : JoypadInput} :
    (∃ button : Button, button.line = n ∧ Byte.has stored button.selector = false ∧
        input.isPressed button = true) ↔
      Byte.has stored 4 = false ∧ Byte.has input.mask n = true ∨
        Byte.has stored 5 = false ∧ Byte.has input.mask (n + 4) = true := by
  rw [exists_iff]
  obtain rfl | rfl | rfl | rfl : n = 0 ∨ n = 1 ∨ n = 2 ∨ n = 3 := by
    revert n
    decide
  all_goals simp [line, selector, ← JoypadInput.has_mask, index]

end Button

theorem Byte.eq_zero_iff {b : Byte} : b = 0 ↔ ∀ n, has b n = false := by
  have hzero : ∀ n, has 0 n = false := by decide
  constructor
  · rintro rfl
    exact hzero
  · intro h
    exact Byte.ext fun n => (h n).trans (hzero n).symm

theorem Byte.has_shiftRight_four (b : Byte) {n : Fin 8} (hn : n < 4) :
    has (b >>> 4) n = has b (n + 4) := by
  revert n
  revert b
  exact Byte.forall_of_fin (by decide +kernel)

/-! ## Showing buttons -/

namespace Joypad

/-- The register shows which buttons are pressed in the groups that were selected by the byte last
stored there. -/
structure Shows (register stored : Byte) (input : JoypadInput) : Prop where
  high : register &&& 0xC0 = 0xC0
  selection : register &&& 0x30 = stored &&& 0x30
  lines (n : Fin 8) : n < 4 → (Byte.has register n = false ↔
    ∃ button : Button, button.line = n ∧ Byte.has stored button.selector = false ∧
      input.isPressed button = true)

/-- A line is high unless one of its two buttons is selected and pressed. -/
theorem has_lines (selection mask : Byte) {n : Fin 8} (hn : n < 4) :
    Byte.has (lines selection mask) n =
      ((Byte.has selection 4 || !Byte.has mask n) &&
        (Byte.has selection 5 || !Byte.has mask (n + 4))) := by
  have hlow : Byte.has 0x0F n = true := by
    revert n
    decide
  have hclear : ∀ k, (selection &&& Byte.bit k == 0) = !Byte.has selection k := fun k =>
    (Bool.not_not _).symm
  have hbit : ∀ (c : Bool) (b : Byte),
      Byte.has (if (!c) = true then b else 0x0F) n = (c || Byte.has b n) := by
    intro c b
    cases c with
    | true => exact hlow
    | false => rfl
  unfold lines
  dsimp only
  rw [show (0x10 : Byte) = Byte.bit 4 by decide, show (0x20 : Byte) = Byte.bit 5 by decide, hclear,
    hclear, Byte.has_and, Byte.has_and, hbit, hbit, hlow, Byte.has_not, Byte.has_not, Byte.has_and,
    hlow, Byte.has_shiftRight_four _ hn, Bool.and_true, Bool.true_and]

theorem has_registerByte (current mask : Byte) {n : Fin 8} (hn : n < 4) :
    Byte.has (registerByte current mask) n =
      ((Byte.has current 4 || !Byte.has mask n) &&
        (Byte.has current 5 || !Byte.has mask (n + 4))) := by
  have hhigh : Byte.has 0xC0 n = false ∧ Byte.has 0x30 n = false := by
    revert n
    decide
  unfold registerByte
  dsimp only
  rw [Byte.has_or, Byte.has_or, hhigh.1, Byte.has_and, hhigh.2, Bool.and_false, Bool.false_or,
    Bool.false_or, has_lines _ _ hn, Byte.has_and, Byte.has_and,
    show Byte.has 0x30 4 = true by decide, show Byte.has 0x30 5 = true by decide, Bool.and_true,
    Bool.and_true]

/-- The register byte for some buttons shows them, to the program that made the selection. -/
theorem shows_registerByte {current stored : Byte} (h : current &&& 0x30 = stored &&& 0x30)
    (input : JoypadInput) : Shows (registerByte current input.mask) stored input := by
  have hsame : ∀ k, Byte.has 0x30 k = true → Byte.has current k = Byte.has stored k := by
    intro k hk
    have key := congrArg (Byte.has · k) h
    simpa only [Byte.has_and, hk, Bool.and_true] using key
  refine ⟨?_, (selection_registerByte _ _).trans h, fun n hn => ?_⟩
  · unfold registerByte
    apply Byte.ext
    intro n
    rw [Byte.has_and, Byte.has_or, Byte.has_or]
    cases Byte.has 0xC0 n <;> simp
  · rw [has_registerByte _ _ hn, hsame 4 (by decide), hsame 5 (by decide), Button.exists_on_line hn,
      Bool.and_eq_false_iff, Bool.or_eq_false_iff, Bool.or_eq_false_iff, Bool.not_eq_false',
      Bool.not_eq_false']

/-- The register shows no button when none is pressed in a selected group. -/
theorem shows_none_iff {register stored : Byte} {input : JoypadInput}
    (h : Shows register stored input) :
    register &&& 0x0F = 0x0F ↔
      ∀ button : Button, Byte.has stored button.selector = false →
        input.isPressed button = false := by
  have hlow : ∀ n : Fin 8, Byte.has 0x0F n = decide (n < 4) := by decide
  constructor
  · intro hnone button hselected
    have hline : button.line < 4 := by cases button <;> decide
    have hbit := congrArg (Byte.has · button.line) hnone
    simp only [Byte.has_and, hlow, hline, decide_true, Bool.and_true] at hbit
    refine eq_false_of_ne_true fun hpressed => ?_
    rw [(h.lines _ hline).mpr ⟨button, rfl, hselected, hpressed⟩] at hbit
    cases hbit
  · intro hnone
    apply Byte.ext
    intro n
    rw [Byte.has_and, hlow]
    by_cases hn : n < 4
    · rw [decide_eq_true hn, Bool.and_true]
      refine eq_true_of_ne_false fun hbit => ?_
      obtain ⟨button, -, hselected, hpressed⟩ := (h.lines n hn).mp hbit
      rw [hnone button hselected] at hpressed
      cases hpressed
    · rw [decide_eq_false hn, Bool.and_false]

/-! ## Presses -/

theorem newPress_iff (held : Byte) (input : JoypadInput) :
    input.mask &&& ~~~held ≠ 0 ↔
      ∃ button : Button, input.isPressed button = true ∧ Byte.has held button.index = false := by
  simp only [← JoypadInput.has_mask]
  constructor
  · intro hne
    obtain ⟨n, hn⟩ := Classical.not_forall.mp (mt Byte.eq_zero_iff.mpr hne)
    obtain ⟨button, rfl⟩ := Button.index_surjective n
    rw [Byte.has_and, Byte.has_not, Bool.not_eq_false, Bool.and_eq_true, Bool.not_eq_true'] at hn
    exact ⟨button, hn.1, hn.2⟩
  · rintro ⟨button, hnow, hbefore⟩ hzero
    have hbit := Byte.eq_zero_iff.mp hzero button.index
    rw [Byte.has_and, Byte.has_not, hnow, hbefore] at hbit
    cases hbit

/-- A latch requests the joypad interrupt for a new press, and touches no other request. -/
theorem flags_latch (joypad : Joypad) (m : Memory) (input : JoypadInput) :
    (joypad.latch m input).2.read Hardware.interruptFlags =
      m.read Hardware.interruptFlags |||
        (if input.mask &&& ~~~joypad.held ≠ 0 then Interrupt.joypad.mask else 0) := by
  simp only [latch, bne_iff_ne]
  rw [Interrupt.flags_request_if, Memory.read_poke_of_ne _ _ (by decide)]

end Joypad

end GameBoy
