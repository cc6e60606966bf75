import GameBoy.Registers

/-!
# Arithmetic and logic

What the arithmetic instructions do to the register file. Nothing here touches memory, so one
definition serves the register form and the memory form of an instruction.

* `AluOp.apply` combines `A` with a second operand.
* `Alu.inc` and `Alu.dec` count a byte up and down and keep the carry.
* `ShiftOp.apply` rotates or shifts a byte.
* `AccumulatorOp.apply` is the group of one-byte instructions on `A` and the flags.
* `Alu.addHl` and `Alu.addOffset` are the two 16-bit additions.

Carries are stated on natural numbers: a sum carries out of its low nibble when the sum of the two
low nibbles exceeds 15, and out of the byte when the sum exceeds 255.

Adding and subtracting with carry first add the carry flag to the operand, modulo 256, and then add
or subtract the result. An operand of 255 with the carry set therefore acts as zero.
-/

namespace GameBoy

namespace Alu

/-! ## Eight-bit sums and differences -/

/-- `A + v`, with every flag set from the sum. -/
def add (r : Registers) (v : Byte) : Registers :=
  { r with a := r.a + v }.setFlags (r.a + v == 0) false
    (r.a.toNat % 16 + v.toNat % 16 > 15) (r.a.toNat + v.toNat > 255)

/-- Compare: the flags of `A - v`, with `A` kept. -/
def compare (r : Registers) (v : Byte) : Registers :=
  r.setFlags (r.a - v == 0) true (v.toNat % 16 > r.a.toNat % 16) (v > r.a)

/-- `A - v`, with every flag set from the difference. -/
def sub (r : Registers) (v : Byte) : Registers :=
  { compare r v with a := r.a - v }

/-- The operand with the carry flag added to it, modulo 256. -/
def withCarry (r : Registers) (v : Byte) : Byte := v + r.flagBit .c

def adc (r : Registers) (v : Byte) : Registers := add r (withCarry r v)

def sbc (r : Registers) (v : Byte) : Registers := sub r (withCarry r v)

def and (r : Registers) (v : Byte) : Registers :=
  { r with a := r.a &&& v }.setFlags (r.a &&& v == 0) false true false

def or (r : Registers) (v : Byte) : Registers :=
  { r with a := r.a ||| v }.setFlags (r.a ||| v == 0) false false false

def xor (r : Registers) (v : Byte) : Registers :=
  { r with a := r.a ^^^ v }.setFlags (r.a ^^^ v == 0) false false false

/-- `v + 1` with its flags; the carry flag stays. -/
def inc (r : Registers) (v : Byte) : Byte × Registers :=
  (v + 1, ((r.setFlag .z (v + 1 == 0)).setFlag .n false).setFlag .h (v.toNat % 16 == 15))

/-- `v - 1` with its flags; the carry flag stays. -/
def dec (r : Registers) (v : Byte) : Byte × Registers :=
  (v - 1, ((r.setFlag .z (v - 1 == 0)).setFlag .n true).setFlag .h (v.toNat % 16 == 0))

/-- Test bit `n` of `v`: the zero flag becomes the complement of the bit, and the carry stays. -/
def testBit (r : Registers) (n : Fin 8) (v : Byte) : Registers :=
  ((r.setFlag .z (!Byte.has v n)).setFlag .n false).setFlag .h true

/-! ## Sixteen-bit sums -/

/-- `HL + v` into `HL`. Half carry is the carry out of bit 11, and the zero flag stays. -/
def addHl (r : Registers) (v : Word) : Registers :=
  let hl := r.hl
  (((r.setFlag .n false).setFlag .h (hl.toNat % 4096 + v.toNat % 4096 > 4095)).setFlag .c
    (hl.toNat + v.toNat > 65535)).setHl (hl + v)

/-- The sum of a word and a displacement, with the flags of the unsigned sum of their low bytes. -/
def addOffset (r : Registers) (base : Word) (offset : Byte) : Word × Registers :=
  let d := Byte.signExtend offset
  (base + d, r.setFlags false false (base.toNat % 16 + d.toNat % 16 > 15)
    (base.toNat % 256 + d.toNat % 256 > 255))

end Alu

/-! ## The eight operations on `A` -/

/-- The operations that combine `A` with a second operand, in the order of their encoding. -/
inductive AluOp where
  | add
  | adc
  | sub
  | sbc
  | and
  | xor
  | or
  | cp
  deriving DecidableEq, Repr

namespace AluOp

/-- The operation encoded by the low three bits of a byte. -/
def ofBits (bits : Byte) : AluOp :=
  match bits &&& 7 with
  | 0 => add
  | 1 => adc
  | 2 => sub
  | 3 => sbc
  | 4 => and
  | 5 => xor
  | 6 => or
  | _ => cp

def apply (op : AluOp) (r : Registers) (v : Byte) : Registers :=
  match op with
  | add => Alu.add r v
  | adc => Alu.adc r v
  | sub => Alu.sub r v
  | sbc => Alu.sbc r v
  | and => Alu.and r v
  | xor => Alu.xor r v
  | or => Alu.or r v
  | cp => Alu.compare r v

end AluOp

/-! ## Rotates and shifts -/

/-- The rotates and shifts, in the order of their encoding. -/
inductive ShiftOp where
  /-- Rotate left. -/
  | rlc
  /-- Rotate right. -/
  | rrc
  /-- Rotate left through the carry. -/
  | rl
  /-- Rotate right through the carry. -/
  | rr
  /-- Shift left. -/
  | sla
  /-- Shift right, keeping the sign bit. -/
  | sra
  /-- Exchange the nibbles. -/
  | swap
  /-- Shift right. -/
  | srl
  deriving DecidableEq, Repr

namespace ShiftOp

/-- The operation encoded by the low three bits of a byte. -/
def ofBits (bits : Byte) : ShiftOp :=
  match bits &&& 7 with
  | 0 => rlc
  | 1 => rrc
  | 2 => rl
  | 3 => rr
  | 4 => sla
  | 5 => sra
  | 6 => swap
  | _ => srl

/-- The byte produced from `v`, where `carry` is the carry flag before the operation. -/
def result (op : ShiftOp) (carry : Bool) (v : Byte) : Byte :=
  match op with
  | rlc => v <<< 1 ||| v >>> 7
  | rrc => v >>> 1 ||| v <<< 7
  | rl => v <<< 1 ||| (if carry then 1 else 0)
  | rr => v >>> 1 ||| (if carry then 0x80 else 0)
  | sla => v <<< 1
  | sra => v >>> 1 ||| v &&& 0x80
  | swap => v <<< 4 ||| v >>> 4
  | srl => v >>> 1

/-- The bit that leaves `v` and becomes the carry flag. -/
def carryOut (op : ShiftOp) (v : Byte) : Bool :=
  match op with
  | rlc | rl | sla => Byte.has v 7
  | rrc | rr | sra | srl => Byte.has v 0
  | swap => false

def apply (op : ShiftOp) (r : Registers) (v : Byte) : Byte × Registers :=
  let result := op.result (r.flag .c) v
  (result, r.setFlags (result == 0) false false (op.carryOut v))

end ShiftOp

/-! ## The one-byte operations on `A` and the flags -/

/-- The accumulator group, in the order of its encoding. -/
inductive AccumulatorOp where
  | rlca
  | rrca
  | rla
  | rra
  /-- Decimal adjust after a sum or a difference of packed decimals. -/
  | daa
  /-- Complement `A`. -/
  | cpl
  /-- Set the carry. -/
  | scf
  /-- Complement the carry. -/
  | ccf
  deriving DecidableEq, Repr

namespace AccumulatorOp

/-- The operation encoded by the low three bits of a byte. -/
def ofBits (bits : Byte) : AccumulatorOp :=
  match bits &&& 7 with
  | 0 => rlca
  | 1 => rrca
  | 2 => rla
  | 3 => rra
  | 4 => daa
  | 5 => cpl
  | 6 => scf
  | _ => ccf

/-- Rotate `A`. The zero flag is cleared whatever the result. -/
def rotate (op : ShiftOp) (r : Registers) : Registers :=
  let (result, r) := op.apply r r.a
  { r with a := result }.setFlag .z false

/-- Bring `A` back into packed decimal. Each nibble is corrected by six when the operation before
carried out of it or, after a sum, when it is not a decimal digit. -/
def adjust (r : Registers) : Registers :=
  let afterSum := !r.flag .n
  let high := r.flag .c || (afterSum && r.a > 0x99)
  let low := r.flag .h || (afterSum && r.a &&& 0x0F > 0x09)
  let correction : Byte := (if high then 0x60 else 0) + (if low then 0x06 else 0)
  let a := if afterSum then r.a + correction else r.a - correction
  { ((r.setFlag .c high).setFlag .h false).setFlag .z (a == 0) with a := a }

def apply (op : AccumulatorOp) (r : Registers) : Registers :=
  match op with
  | rlca => rotate .rlc r
  | rrca => rotate .rrc r
  | rla => rotate .rl r
  | rra => rotate .rr r
  | daa => adjust r
  | cpl => ({ r with a := ~~~r.a }.setFlag .n true).setFlag .h true
  | scf => ((r.setFlag .n false).setFlag .h false).setFlag .c true
  | ccf => ((r.setFlag .n false).setFlag .h false).setFlag .c (!r.flag .c)

end AccumulatorOp

end GameBoy
