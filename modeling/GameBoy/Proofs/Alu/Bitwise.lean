import GameBoy.Alu
import Mathlib.Data.Nat.Bitwise

/-!
# Bytes bit by bit

A byte is the number that its bits make (`Byte.has_eq_testBit`), and any eight bits make a byte
(`Byte.ofBits`). A rotation or a shift by one moves every bit to the next place and lets a bit enter
at the end that has become free (`Byte.movedUp`, `Byte.movedDown`); the operations differ in this
bit only. Exchanging the nibbles moves every bit by four.
-/

namespace GameBoy.Byte

theorem has_eq_testBit (b : Byte) (n : Fin 8) : has b n = b.toNat.testBit n.val :=
  has_eq_getLsbD b n

theorem has_xor (a b : Byte) (n : Fin 8) : has (a ^^^ b) n = (has a n != has b n) := by
  simp only [has_eq_getLsbD, UInt8.toBitVec_xor, BitVec.getLsbD_xor, Bool.bne_eq_xor]

theorem has_shiftLeft (b : Byte) {shift : Byte} {k : Fin 8} (hk : shift.toNat = k.val)
    (n : Fin 8) : has (b <<< shift) n = (decide (k ≤ n) && has b (n - k)) := by
  rw [has_eq_testBit, has_eq_testBit, UInt8.toNat_shiftLeft, hk, Nat.mod_eq_of_lt k.isLt,
    Nat.testBit_mod_two_pow, Nat.testBit_shiftLeft, decide_eq_true n.isLt, Bool.true_and]
  by_cases h : k ≤ n
  · rw [Fin.sub_val_of_le h, decide_eq_true h, decide_eq_true (Fin.le_def.mp h)]
  · rw [decide_eq_false h, decide_eq_false (Fin.le_def.not.mp h), Bool.false_and, Bool.false_and]

theorem has_shiftRight (b : Byte) {shift : Byte} {k : Fin 8} (hk : shift.toNat = k.val)
    (n : Fin 8) : has (b >>> shift) n = (decide (n ≤ 7 - k) && has b (n + k)) := by
  rw [has_eq_testBit, has_eq_testBit, UInt8.toNat_shiftRight, hk, Nat.mod_eq_of_lt k.isLt,
    Nat.testBit_shiftRight, Fin.val_add, Nat.add_comm]
  have hle : n ≤ 7 - k ↔ n.val + k.val < 8 := by
    rw [Fin.le_def, Fin.sub_val_of_le (show k ≤ 7 from Fin.le_last k)]
    show n.val ≤ 7 - k.val ↔ _
    omega
  by_cases h : n ≤ 7 - k
  · rw [decide_eq_true h, Bool.true_and, Nat.mod_eq_of_lt (hle.mp h)]
  · have hb : b.toNat < 2 ^ (n.val + k.val) :=
      b.toNat_lt.trans_le (Nat.pow_le_pow_right (by decide) (by omega))
    rw [Nat.testBit_lt_two_pow hb, decide_eq_false h, Bool.false_and]

/-- The lowest bit of a byte that is shifted down. -/
theorem toNat_shiftRight_and_one (b shift : Byte) (h : shift.toNat < 8) :
    (b >>> shift &&& 1).toNat = (b.toNat.testBit shift.toNat).toNat := by
  rw [UInt8.toNat_and, UInt8.toNat_shiftRight, Nat.mod_eq_of_lt h, Nat.toNat_testBit,
    Nat.shiftRight_eq_div_pow]
  exact Nat.and_two_pow_sub_one_eq_mod _ 1

/-! ## Bytes from bits -/

/-- The byte with the given bits. -/
def ofBits (f : Fin 8 → Bool) : Byte := UInt8.ofNat (Nat.ofBits f)

@[simp] theorem has_ofBits (f : Fin 8 → Bool) (n : Fin 8) : has (ofBits f) n = f n := by
  have htoNat : (ofBits f).toNat = Nat.ofBits f :=
    UInt8.toNat_ofNat_of_lt' (Nat.ofBits_lt_two_pow f)
  rw [has_eq_testBit, htoNat, Nat.testBit_ofBits_lt f n.val n.isLt]

theorem eq_ofBits {b : Byte} {f : Fin 8 → Bool} (h : ∀ n, has b n = f n) : b = ofBits f :=
  ext fun n => (h n).trans (has_ofBits f n).symm

/-! ## Moving the bits -/

/-- The bits of a byte moved up by one place, with a bit that enters below. -/
def movedUp (entering : Bool) (b : Byte) (n : Fin 8) : Bool :=
  if n = 0 then entering else has b (n - 1)

/-- The bits of a byte moved down by one place, with a bit that enters above. -/
def movedDown (entering : Bool) (b : Byte) (n : Fin 8) : Bool :=
  if n = 7 then entering else has b (n + 1)

variable {b w : Byte} {entering : Bool}

theorem shiftLeft_or (h : ∀ n, has w n = (decide (n = 0) && entering)) :
    b <<< 1 ||| w = ofBits (movedUp entering b) := by
  refine eq_ofBits fun n => ?_
  rw [has_or, has_shiftLeft b (k := 1) rfl, h, movedUp]
  by_cases hn : n = 0
  · simp [hn]
  · have hle : 1 ≤ n := by omega
    simp [hn, hle]

theorem shiftRight_or (h : ∀ n, has w n = (decide (n = 7) && entering)) :
    b >>> 1 ||| w = ofBits (movedDown entering b) := by
  refine eq_ofBits fun n => ?_
  rw [has_or, has_shiftRight b (k := 1) rfl, h, movedDown]
  by_cases hn : n = 7
  · simp [hn]
  · have hle : n ≤ 6 := by omega
    simp [hn, hle]

/-- The byte in which at most one bit is set. -/
theorem has_ite_bit (p : Bool) (k n : Fin 8) :
    has (if p then bit k else 0) n = (decide (n = k) && p) := by
  revert p k n
  decide

/-- Shifted by seven places, one bit is left at the other end. -/
theorem has_shiftRight_seven (b : Byte) (n : Fin 8) :
    has (b >>> 7) n = (decide (n = 0) && has b 7) := by
  rw [has_shiftRight b (k := 7) rfl]
  by_cases hn : n = 0
  · simp [hn]
  · simp [hn]

theorem has_shiftLeft_seven (b : Byte) (n : Fin 8) :
    has (b <<< 7) n = (decide (n = 7) && has b 0) := by
  rw [has_shiftLeft b (k := 7) rfl]
  by_cases hn : n = 7
  · simp [hn]
  · have hle : ¬ 7 ≤ n := fun h => hn (Fin.last_le_iff.mp h)
    simp [hn, hle]

theorem has_and_sign (b : Byte) (n : Fin 8) :
    has (b &&& 0x80) n = (decide (n = 7) && has b 7) := by
  have hsign : has 0x80 n = decide (n = 7) := has_bit 7 n
  rw [has_and, hsign]
  by_cases hn : n = 7
  · simp [hn]
  · simp [hn]

theorem swap_eq (b : Byte) : b <<< 4 ||| b >>> 4 = ofBits fun n => has b (n + 4) := by
  refine eq_ofBits fun n => ?_
  rw [has_or, has_shiftLeft b (k := 4) rfl, has_shiftRight b (k := 4) rfl]
  match n with
  | 0 | 1 | 2 | 3 | 4 | 5 | 6 | 7 => simp

end GameBoy.Byte
