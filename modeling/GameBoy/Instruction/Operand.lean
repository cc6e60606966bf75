import GameBoy.Word

/-!
# Immediate operands

An opcode byte may be followed by an immediate: a byte, a signed displacement, or a word with its
low byte first. `OperandKind` says which of these follows, and `Operand` is the value fetched.

An operand can be read as a byte or as a word whatever its kind. These readings agree on the low
byte (`Operand.lo_toWord`), so an instruction may use the one it needs.
-/

namespace GameBoy

/-- What follows an opcode byte. -/
inductive OperandKind where
  | none
  | byte
  | offset
  | word
  deriving DecidableEq, Repr

/-- The number of bytes an immediate occupies. -/
def OperandKind.length : OperandKind → Nat
  | none => 0
  | byte => 1
  | offset => 1
  | word => 2

/-- An immediate operand. A displacement is kept as the byte that encodes it. -/
inductive Operand where
  | none
  | byte (value : Byte)
  | offset (value : Byte)
  | word (value : Word)
  deriving DecidableEq, Repr

namespace Operand

/-- The operand as a byte: the low byte of a word, and zero where there is no operand. -/
def toByte : Operand → Byte
  | none => 0
  | byte v => v
  | offset v => v
  | word w => Word.lo w

/-- The operand as a word: a byte or a displacement is widened with zeros. -/
def toWord : Operand → Word
  | none => 0
  | byte v => v.toUInt16
  | offset v => v.toUInt16
  | word w => w

theorem lo_toWord (o : Operand) : Word.lo o.toWord = o.toByte := by
  cases o <;> simp [toWord, toByte, Word.lo]

/-- The text of an operand in a trace line, with its number in base ten. -/
def text : Operand → String
  | none => "None"
  | byte v => "Byte(" ++ toString v.toNat ++ ")"
  | offset v => "Offset(" ++ toString v.toInt8.toInt ++ ")"
  | word w => "Word(" ++ toString w.toNat ++ ")"

end Operand

end GameBoy
