/-!
# Bytes and words

The processor computes on bytes and on 16-bit words, both modulo their width. A word is a pair of
bytes, the high one first in the register file (`Word.ofBytes`) and the low one first in memory.

The lemmas on words say that splitting a word and joining its halves undo each other. They are what
every register pair, every stack entry and every 16-bit bus access rests on. The lemmas on bytes
read a byte as its eight bits (`Byte.has`), which is how flags, buttons, interrupt sources and
display switches are packed.
-/

namespace GameBoy

abbrev Byte := UInt8

/-- Sixteen bits: an address, a register pair, or a 16-bit operand. -/
abbrev Word := UInt16

namespace Word

/-- The word with high byte `hi` and low byte `lo`. -/
def ofBytes (hi lo : Byte) : Word := hi.toUInt16 * 256 + lo.toUInt16

def hi (w : Word) : Byte := (w / 256).toUInt8

def lo (w : Word) : Byte := w.toUInt8

theorem toNat_ofBytes (hi lo : Byte) : (ofBytes hi lo).toNat = 256 * hi.toNat + lo.toNat := by
  have := hi.toNat_lt
  have := lo.toNat_lt
  simp only [ofBytes, UInt16.toNat_add, UInt16.toNat_mul, UInt8.toNat_toUInt16,
    UInt16.reduceToNat]
  omega

theorem toNat_hi (w : Word) : (hi w).toNat = w.toNat / 256 := by
  have := w.toNat_lt
  simp only [hi, UInt16.toNat_toUInt8, UInt16.toNat_div, UInt16.reduceToNat]
  omega

theorem toNat_lo (w : Word) : (lo w).toNat = w.toNat % 256 := by
  simp [lo]

@[simp] theorem hi_ofBytes (h l : Byte) : hi (ofBytes h l) = h := by
  have := l.toNat_lt
  apply UInt8.toNat_inj.mp
  rw [toNat_hi, toNat_ofBytes]
  omega

@[simp] theorem lo_ofBytes (h l : Byte) : lo (ofBytes h l) = l := by
  have := l.toNat_lt
  apply UInt8.toNat_inj.mp
  rw [toNat_lo, toNat_ofBytes]
  omega

@[simp] theorem ofBytes_hi_lo (w : Word) : ofBytes (hi w) (lo w) = w := by
  apply UInt16.toNat_inj.mp
  rw [toNat_ofBytes, toNat_hi, toNat_lo]
  omega

end Word

namespace Byte

/-- A byte read as a two's-complement displacement, widened to a word by copying its sign bit. -/
def signExtend (b : Byte) : Word :=
  if b < 0x80 then b.toUInt16 else b.toUInt16 + 0xFF00

/-- The bits of a byte can be named by numerals. -/
instance : @NeZero Nat Zero.ofOfNat0 8 := ⟨by decide⟩

/-- The byte in which only bit `n` is set. -/
def bit (n : Fin 8) : Byte := 1 <<< UInt8.ofNat n.val

/-- The number of clear bits below the lowest set bit; eight for the zero byte. -/
def trailingZeros (b : Byte) : Nat :=
  ((List.range 8).takeWhile fun n => !b.toNat.testBit n).length

/-- Whether bit `n` is set. -/
def has (b : Byte) (n : Fin 8) : Bool := b &&& bit n != 0

/-! ### Bits one by one

A byte is determined by its eight bits (`Byte.ext`), and the bitwise operations act on each bit
alone. -/

/-- What holds of each of the 256 bytes holds of every byte. -/
theorem forall_of_fin {p : Byte → Prop} (h : ∀ n : Fin 256, p (UInt8.ofNat n.val)) (b : Byte) :
    p b := by
  simpa only [UInt8.ofNat_toNat] using h ⟨b.toNat, b.toNat_lt⟩

theorem has_eq_getLsbD (b : Byte) (n : Fin 8) : has b n = b.toBitVec.getLsbD n.val := by
  revert n
  revert b
  exact forall_of_fin (by decide +kernel)

theorem has_bit (n m : Fin 8) : has (bit n) m = decide (m = n) := by
  revert n m
  decide

theorem has_or (a b : Byte) (n : Fin 8) : has (a ||| b) n = (has a n || has b n) := by
  simp only [has_eq_getLsbD, UInt8.toBitVec_or, BitVec.getLsbD_or]

theorem has_and (a b : Byte) (n : Fin 8) : has (a &&& b) n = (has a n && has b n) := by
  simp only [has_eq_getLsbD, UInt8.toBitVec_and, BitVec.getLsbD_and]

theorem has_not (a : Byte) (n : Fin 8) : has (~~~a) n = !has a n := by
  simp only [has_eq_getLsbD, UInt8.toBitVec_not, BitVec.getLsbD_not, n.isLt, decide_true,
    Bool.true_and]

theorem ext {a b : Byte} (h : ∀ n, has a n = has b n) : a = b := by
  apply UInt8.toBitVec_inj.mp
  apply BitVec.eq_of_getLsbD_eq
  intro i hi
  have key := h ⟨i, hi⟩
  simpa only [has_eq_getLsbD] using key

/-- Set or clear one bit. -/
def setBit (b : Byte) (n : Fin 8) (value : Bool) : Byte :=
  if value then b ||| bit n else b &&& ~~~bit n

/-- Writing one bit writes that bit and no other. -/
theorem has_setBit (b : Byte) (n m : Fin 8) (value : Bool) :
    has (setBit b n value) m = if m = n then value else has b m := by
  cases value <;> by_cases h : m = n <;> simp [setBit, has_or, has_and, has_not, has_bit, h]

end Byte

end GameBoy
