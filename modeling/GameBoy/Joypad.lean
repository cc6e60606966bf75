import GameBoy.Interrupt
import GameBoy.Memory

/-!
# The joypad

Eight buttons, seen through one register. The program selects the directions by clearing bit 4 of
the register and the actions by clearing bit 5; a clear bit among the low four then stands for a
pressed button of a selected group.

`JoypadInput` is a snapshot of the buttons, and `JoypadInput.mask` the byte that it comes to.
`Joypad.latch` shows a snapshot in the register, and requests the joypad interrupt when a button is
down that was up at the latch before.
-/

namespace GameBoy

/-- The buttons: the four directions, then the four actions. -/
inductive Button where
  | right
  | left
  | up
  | down
  | a
  | b
  | select
  | start
  deriving DecidableEq, Repr

namespace Button

/-- All buttons in order. -/
def all : List Button := [right, left, up, down, a, b, select, start]

/-- The place of a button in the order. -/
def index : Button → Fin 8
  | right => 0
  | left => 1
  | up => 2
  | down => 3
  | a => 4
  | b => 5
  | select => 6
  | start => 7

theorem index_inj {x y : Button} : x.index = y.index ↔ x = y := by
  cases x <;> cases y <;> decide

end Button

/-- Which buttons are pressed, in their order. -/
structure JoypadInput where
  pressed : Vector Bool 8 := .replicate 8 false
  deriving DecidableEq, Repr

namespace JoypadInput

/-- Whether a button is pressed. -/
def isPressed (input : JoypadInput) (button : Button) : Bool := input.pressed.get button.index

/-- Press or release a button. -/
def set (input : JoypadInput) (button : Button) (pressed : Bool) : JoypadInput :=
  ⟨input.pressed.set button.index pressed⟩

/-- Setting a button changes that button and no other. -/
theorem isPressed_set (input : JoypadInput) (button other : Button) (pressed : Bool) :
    (input.set button pressed).isPressed other =
      if other = button then pressed else input.isPressed other := by
  show (input.pressed.set button.index pressed)[other.index] = _
  rw [Fin.getElem_fin, Vector.getElem_set]
  simp only [Fin.val_inj, Button.index_inj, eq_comm]
  rfl

/-- The snapshot in which the buttons of a list are pressed. -/
def ofList (buttons : List Button) : JoypadInput :=
  buttons.foldl (fun input button => input.set button true) {}

/-- The buttons as a byte: bit `n` stands for button `n`, so the low nibble holds the directions and
the high nibble the actions. -/
def mask (input : JoypadInput) : Byte :=
  (List.finRange 8).foldl (fun mask n =>
    mask ||| (input.pressed.get n).toUInt8 <<< UInt8.ofNat n.val) 0

/-- A loop over some bits sets those that are asked for, and no other. -/
theorem has_foldl (asked : Fin 8 → Bool) (bits : List (Fin 8)) (mask : Byte) (n : Fin 8) :
    Byte.has (bits.foldl (fun mask k => mask ||| (asked k).toUInt8 <<< UInt8.ofNat k.val) mask) n =
      (Byte.has mask n || bits.contains n && asked n) := by
  have hbit : ∀ (b : Bool) (k : Fin 8),
      Byte.has (b.toUInt8 <<< UInt8.ofNat k.val) n = (decide (n = k) && b) := by
    revert n
    decide
  induction bits generalizing mask with
  | nil => simp
  | cons first rest ih =>
    rw [List.foldl_cons, ih, Byte.has_or, hbit]
    by_cases h : n = first
    · subst h
      cases asked n <;> simp
    · simp [h]

/-- A bit of the mask is set when its button is pressed. -/
theorem has_mask (input : JoypadInput) (button : Button) :
    Byte.has input.mask button.index = input.isPressed button := by
  have hzero : ∀ n, Byte.has 0 n = false := by decide
  rw [mask, has_foldl, hzero, Bool.false_or,
    List.contains_iff_mem.mpr (List.mem_finRange _), Bool.true_and]
  rfl

theorem mask_none : mask {} = 0 := by decide

end JoypadInput

/-- What the joypad remembers: the buttons that were down at the last latch. -/
structure Joypad where
  held : Byte := 0
  deriving DecidableEq, Repr

namespace Joypad

/-- The low four bits of the register: a clear bit for each pressed button of a selected group. -/
def lines (selection mask : Byte) : Byte :=
  let directions := if selection &&& 0x10 == 0 then ~~~(mask &&& 0x0F) else 0x0F
  let actions := if selection &&& 0x20 == 0 then ~~~(mask >>> 4) else 0x0F
  0x0F &&& directions &&& actions

/-- The register byte: the two high bits set, the program's selection kept, and the lines. -/
def registerByte (current mask : Byte) : Byte :=
  let selection := current &&& 0x30
  0xC0 ||| selection ||| lines selection mask

/-- Show a snapshot in the joypad register, and request the interrupt for a new press. -/
def latch (joypad : Joypad) (m : Memory) (input : JoypadInput) : Joypad × Memory :=
  let m := m.poke Hardware.joypad (registerByte (m.read Hardware.joypad) input.mask)
  let m := if input.mask &&& ~~~joypad.held != 0 then
      Interrupt.request Interrupt.joypad.mask m
    else m
  (⟨input.mask⟩, m)

end Joypad

end GameBoy
