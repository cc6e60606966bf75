import GameBoy.Word

/-!
# The register file

Seven 8-bit registers, the flag register `F`, the stack pointer and the program counter. Six of
the 8-bit registers pair up into `BC`, `DE` and `HL`, and `A` pairs up with `F` into `AF`; the
first register of a pair is its high byte.

`F` holds four flags in its high nibble. Its low nibble is clear whenever the processor itself
writes the whole register, but nothing stops a caller from storing any byte there, so `F` is kept
as a raw byte and `Registers.af` masks it.

The lemmas at the end say what each write does to each flag.
-/

namespace GameBoy

/-- The four flags: zero, subtraction, half carry and carry. -/
inductive Flag where
  | z
  | n
  | h
  | c
  deriving DecidableEq, Repr

namespace Flag

/-- The bit of `F` that holds the flag. -/
def position : Flag → Fin 8
  | z => 7
  | n => 6
  | h => 5
  | c => 4

/-- The byte in which only the flag's bit is set. -/
def mask (flag : Flag) : Byte := Byte.bit flag.position

theorem position_inj {g g' : Flag} : g.position = g'.position ↔ g = g' := by
  cases g <;> cases g' <;> decide

/-- The byte that holds the four given flags and a clear low nibble. -/
def pack (z n h c : Bool) : Byte :=
  (if z then 0x80 else 0) ||| (if n then 0x40 else 0) ||| (if h then 0x20 else 0) |||
    (if c then 0x10 else 0)

theorem has_pack (z n h c : Bool) (g : Flag) :
    Byte.has (pack z n h c) g.position =
      (match g with | .z => z | .n => n | .h => h | .c => c) := by
  cases g <;> revert z n h c <;> decide

theorem pack_and_low (z n h c : Bool) : pack z n h c &&& 0x0F = 0 := by
  revert z n h c
  decide

def letter : Flag → String
  | z => "Z"
  | n => "N"
  | h => "H"
  | c => "C"

end Flag

structure Registers where
  a : Byte := 0
  f : Byte := 0
  b : Byte := 0
  c : Byte := 0
  d : Byte := 0
  e : Byte := 0
  h : Byte := 0
  l : Byte := 0
  sp : Word := 0
  pc : Word := 0
  deriving DecidableEq, Repr

namespace Registers

/-! ## Pairs -/

/-- `AF`, with the low nibble of `F` read as zero. -/
def af (r : Registers) : Word := Word.ofBytes r.a (r.f &&& 0xF0)

/-- Store to `AF`; the low nibble of `F` becomes zero. -/
def setAf (r : Registers) (w : Word) : Registers :=
  { r with a := Word.hi w, f := Word.lo w &&& 0xF0 }

def bc (r : Registers) : Word := Word.ofBytes r.b r.c

def setBc (r : Registers) (w : Word) : Registers :=
  { r with b := Word.hi w, c := Word.lo w }

def de (r : Registers) : Word := Word.ofBytes r.d r.e

def setDe (r : Registers) (w : Word) : Registers :=
  { r with d := Word.hi w, e := Word.lo w }

def hl (r : Registers) : Word := Word.ofBytes r.h r.l

def setHl (r : Registers) (w : Word) : Registers :=
  { r with h := Word.hi w, l := Word.lo w }

@[simp] theorem bc_setBc (r : Registers) (w : Word) : (r.setBc w).bc = w := by simp [bc, setBc]
@[simp] theorem de_setDe (r : Registers) (w : Word) : (r.setDe w).de = w := by simp [de, setDe]
def flag (r : Registers) (flag : Flag) : Bool := Byte.has r.f flag.position

/-- A flag as the number 0 or 1, the form in which carry enters a sum. -/
def flagBit (r : Registers) (flag : Flag) : Byte := if r.flag flag then 1 else 0

/-- Set or clear one flag; the other seven bits of `F` stay. -/
def setFlag (r : Registers) (flag : Flag) (value : Bool) : Registers :=
  { r with f := Byte.setBit r.f flag.position value }

def clearFlags (r : Registers) : Registers := { r with f := 0 }

/-- Write all four flags at once; the low nibble of `F` becomes zero. -/
def setFlags (r : Registers) (z n h c : Bool) : Registers :=
  { r with f := Flag.pack z n h c }

/-- A number other than 0 and 1 offered to a flag. -/
structure NotABit where
  flag : Flag
  value : Byte

/-- The text that reports the mistake. -/
def NotABit.message (e : NotABit) : String :=
  "flag " ++ e.flag.letter ++ " assigned non-bit value " ++ toString e.value.toNat

/-- Write the number 0 or 1 to a flag; any other number is refused. -/
def setFlagBit (r : Registers) (flag : Flag) (value : Byte) : Except NotABit Registers :=
  if value ≤ 1 then .ok (r.setFlag flag (value == 1)) else .error ⟨flag, value⟩

/-! ### What a write does to each flag -/

/-- Writing one flag writes that flag and no other. -/
theorem flag_setFlag (r : Registers) (g g' : Flag) (value : Bool) :
    (r.setFlag g value).flag g' = if g' = g then value else r.flag g' := by
  simp only [flag, setFlag, Byte.has_setBit, Flag.position_inj]

@[simp] theorem flag_setFlags (r : Registers) (z n h c : Bool) (g : Flag) :
    (r.setFlags z n h c).flag g = (match g with | .z => z | .n => n | .h => h | .c => c) :=
  Flag.has_pack z n h c g

end Registers

end GameBoy
