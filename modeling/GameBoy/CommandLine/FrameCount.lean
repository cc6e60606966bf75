/-!
# Frame counts

The number of frames to run is given in base ten, with at most one plus sign before the digits, and
has to fit into 32 bits.

The text is read from the left and the first thing wrong with it is reported: a character that is
not a digit, or a digit that makes the number too large.
-/

namespace GameBoy.FrameCount

inductive Error where
  | empty
  | invalidDigit
  | tooLarge
  deriving DecidableEq, Repr

def Error.message : Error → String
  | empty => "cannot parse integer from empty string"
  | invalidDigit => "invalid digit found in string"
  | tooLarge => "number too large to fit in target type"

def limit : Nat := 0xFFFFFFFF

/-- The number that a digit stands for. -/
def digit? (c : Char) : Option Nat :=
  if '0' ≤ c && c ≤ '9' then some (c.toNat - '0'.toNat) else none

/-- Read digits after those that gave `value`. -/
def readDigits (value : Nat) : List Char → Except Error Nat
  | [] => .ok value
  | c :: rest =>
    match digit? c with
    | none => .error .invalidDigit
    | some d =>
      if value * 10 + d ≤ limit then readDigits (value * 10 + d) rest else .error .tooLarge

/-- Read a frame count. A sign alone is not a number. -/
def parse (text : String) : Except Error Nat :=
  match text.toList with
  | [] => .error .empty
  | ['+'] => .error .invalidDigit
  | '+' :: digits => readDigits 0 digits
  | digits => readDigits 0 digits

end GameBoy.FrameCount
