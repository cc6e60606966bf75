import GameBoy.Word

/-!
# Hexadecimal text

Log records, fault messages and `RST` mnemonics print numbers in base sixteen with upper-case
digits, padded with zeros to a width that depends on the field: two digits for a byte, four for an
address.
-/

namespace GameBoy.Hex

/-- The upper-case digit of a number below sixteen. -/
def digit (n : Nat) : Char :=
  if n < 10 then Char.ofNat (48 + n) else Char.ofNat (55 + n)

/-- The digits of `n` in base sixteen, most significant first; none for zero. -/
def digits (n : Nat) : List Char :=
  if n = 0 then [] else digits (n / 16) ++ [digit (n % 16)]

/-- `n` in base sixteen with at least `width` digits. -/
def padded (width n : Nat) : String :=
  let ds := digits n
  String.ofList (List.replicate (width - ds.length) '0' ++ ds)

/-- A byte as two digits. -/
def byte (b : Byte) : String := padded 2 b.toNat

/-- A word as four digits. -/
def word (w : Word) : String := padded 4 w.toNat

end GameBoy.Hex
