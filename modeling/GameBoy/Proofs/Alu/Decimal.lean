import GameBoy.Proofs.Alu.MultiByte

/-!
# Decimal numbers

A byte holds two decimal digits, one in each nibble. A sum or a difference of such bytes is a binary
one, and the decimal adjustment brings it back: it corrects a nibble by six that went past nine or
past zero, as the half carry and the carry tell (`AccumulatorOp.adjust`). The carry that enters is
folded into the operand, whose low nibble can therefore be ten, and the half carry is that of the
folded operand; the correction is the right one all the same (`Alu.addDecimal_positional`,
`Alu.subDecimal_positional`).

A packed operand is at most 99h, so that the fold never wraps around, and what a position does is
exact. The law of many bytes is that of `GameBoy.Proofs.Alu.MultiByte` with base 100.

Main theorem: `Alu.chain_decimal`.
-/

namespace GameBoy

namespace Byte

/-- Both nibbles are decimal digits. -/
def Packed (b : Byte) : Prop := b.toNat / 16 ≤ 9 ∧ b.toNat % 16 ≤ 9

instance (b : Byte) : Decidable (Packed b) := inferInstanceAs (Decidable (_ ∧ _))

/-- The number from 0 to 99 that two decimal digits stand for. -/
def decimal (b : Byte) : ℕ := 10 * (b.toNat / 16) + b.toNat % 16

theorem Packed.ne_255 {b : Byte} (h : Packed b) : b ≠ 0xFF := by
  rintro rfl
  exact absurd h (by decide)

end Byte

namespace AccumulatorOp

/-- Whether the adjustment corrects the high digit. -/
def correctsHigh (r : Registers) : Bool := r.flag .c || !r.flag .n && decide (153 < r.a.toNat)

/-- Whether the adjustment corrects the low digit. -/
def correctsLow (r : Registers) : Bool := r.flag .h || !r.flag .n && decide (9 < r.a.toNat % 16)

/-- What the adjustment adds or subtracts. -/
def correction (r : Registers) : ℕ := 96 * (correctsHigh r).toNat + 6 * (correctsLow r).toNat

theorem toNat_adjust (r : Registers) :
    (adjust r).a.toNat =
      (if r.flag .n then 256 - correction r + r.a.toNat else r.a.toNat + correction r) % 256 := by
  have hhigh : (r.flag .c || (!r.flag .n && decide (r.a > 0x99))) = correctsHigh r := rfl
  have hlow : (r.flag .h || (!r.flag .n && decide (r.a &&& 0x0F > 0x09))) = correctsLow r := by
    have hnibble : (r.a &&& 0x0F).toNat = r.a.toNat % 16 := Nat.and_two_pow_sub_one_eq_mod _ 4
    rw [correctsLow, ← hnibble]
    rfl
  have hcorrection : ((if correctsHigh r then 0x60 else 0) +
      (if correctsLow r then 0x06 else 0) : Byte).toNat = correction r := by
    unfold correction
    cases correctsHigh r <;> cases correctsLow r <;> rfl
  simp only [adjust, hhigh, hlow]
  rw [← hcorrection]
  cases r.flag .n with
  | false => exact UInt8.toNat_add _ _
  | true => exact UInt8.toNat_sub _ _

theorem carry_adjust (r : Registers) : (adjust r).carry = (correctsHigh r).toNat := by
  show ((((r.setFlag .c (correctsHigh r)).setFlag .h false).setFlag .z _).flag .c).toNat = _
  simp [Registers.flag_setFlag]

end AccumulatorOp

namespace Alu

open AccumulatorOp

/-- Add with carry, and adjust. -/
def addDecimal (r : Registers) (v : Byte) : Registers := adjust (adc r v)

/-- Subtract with carry, and adjust. -/
def subDecimal (r : Registers) (v : Byte) : Registers := adjust (sbc r v)

theorem toNat_withCarry {r : Registers} {v : Byte} (hv : v.Packed) :
    (withCarry r v).toNat = v.toNat + r.carry := by
  rw [withCarry_law, if_neg fun h => hv.ne_255 h.1]
  rfl

section Digits

variable {r : Registers} {v : Byte}

/-- After a sum the low digit is corrected exactly when the low digits and the carry make ten. -/
theorem correctsLow_adc (ha : r.a.Packed) (hv : v.Packed) :
    correctsLow (adc r v) = decide (10 ≤ r.a.toNat % 16 + v.toNat % 16 + r.carry) := by
  obtain ⟨-, ha⟩ := ha
  have hcarry := r.carry_le
  have hn : (adc r v).flag .n = false := Registers.flag_setFlags _ _ _ _ _ .n
  have hh : (adc r v).flag .h = decide (r.a.toNat % 16 + (withCarry r v).toNat % 16 > 15) :=
    Registers.flag_setFlags _ _ _ _ _ .h
  have hsum : (adc r v).a.toNat = (r.a.toNat + (withCarry r v).toNat) % 256 := UInt8.toNat_add _ _
  rw [toNat_withCarry hv] at hh hsum
  obtain ⟨-, hv⟩ := hv
  rw [correctsLow, hn, hh, hsum, Bool.eq_iff_iff]
  simp only [Bool.not_false, Bool.true_and, Bool.or_eq_true, decide_eq_true_eq]
  omega

/-- It is a carry out of the byte when all digits and the carry make a hundred. -/
theorem correctsHigh_adc (ha : r.a.Packed) (hv : v.Packed) :
    correctsHigh (adc r v) = decide (100 ≤ r.a.decimal + v.decimal + r.carry) := by
  have hcarry := r.carry_le
  have hn : (adc r v).flag .n = false := Registers.flag_setFlags _ _ _ _ _ .n
  have hc : (adc r v).flag .c = decide (r.a.toNat + (withCarry r v).toNat > 255) :=
    Registers.flag_setFlags _ _ _ _ _ .c
  have hsum : (adc r v).a.toNat = (r.a.toNat + (withCarry r v).toNat) % 256 := UInt8.toNat_add _ _
  rw [toNat_withCarry hv] at hc hsum
  rw [correctsHigh, hn, hc, hsum, Bool.eq_iff_iff]
  simp only [Bool.not_false, Bool.true_and, Bool.or_eq_true, decide_eq_true_eq]
  unfold Byte.Packed at ha hv
  unfold Byte.decimal
  omega

/-- The sum of two digits and a carry, adjusted. -/
theorem addDecimal_digits (ha : r.a.Packed) (hv : v.Packed) :
    (addDecimal r v).a.Packed ∧
      r.a.decimal + v.decimal + r.carry =
        (addDecimal r v).a.decimal + 100 * (addDecimal r v).carry := by
  have hcarry := r.carry_le
  have hn : (adc r v).flag .n = false := Registers.flag_setFlags _ _ _ _ _ .n
  have hsum : (adc r v).a.toNat = (r.a.toNat + (withCarry r v).toNat) % 256 := UInt8.toNat_add _ _
  have hresult : (addDecimal r v).a.toNat = _ := toNat_adjust (adc r v)
  have hout : (addDecimal r v).carry = _ := carry_adjust (adc r v)
  rw [toNat_withCarry hv] at hsum
  rw [hn, hsum, correction, correctsHigh_adc ha hv, correctsLow_adc ha hv] at hresult
  rw [correctsHigh_adc ha hv] at hout
  unfold Byte.Packed at ha hv ⊢
  unfold Byte.decimal at *
  rw [hout, hresult, if_neg Bool.false_ne_true]
  by_cases hlow : 10 ≤ r.a.toNat % 16 + v.toNat % 16 + r.carry <;>
    by_cases hhigh : 100 ≤ 10 * (r.a.toNat / 16) + r.a.toNat % 16 +
      (10 * (v.toNat / 16) + v.toNat % 16) + r.carry <;>
    simp only [hlow, hhigh, decide_true, decide_false, Bool.toNat_true, Bool.toNat_false] <;>
    omega

/-- After a difference the low digit is corrected exactly when it borrows. -/
theorem correctsLow_sbc (hv : v.Packed) :
    correctsLow (sbc r v) = decide (r.a.toNat % 16 < v.toNat % 16 + r.carry) := by
  have hcarry := r.carry_le
  have hn : (sbc r v).flag .n = true := Registers.flag_setFlags r _ _ _ _ .n
  have hh : (sbc r v).flag .h = decide ((withCarry r v).toNat % 16 > r.a.toNat % 16) :=
    Registers.flag_setFlags r _ _ _ _ .h
  rw [toNat_withCarry hv] at hh
  obtain ⟨-, hv⟩ := hv
  have hfold : (v.toNat + r.carry) % 16 = v.toNat % 16 + r.carry := by omega
  rw [correctsLow, hn, hh, hfold]
  simp

/-- It is a borrow out of the byte when the number does. -/
theorem correctsHigh_sbc (ha : r.a.Packed) (hv : v.Packed) :
    correctsHigh (sbc r v) = decide (r.a.decimal < v.decimal + r.carry) := by
  have hcarry := r.carry_le
  have hn : (sbc r v).flag .n = true := Registers.flag_setFlags r _ _ _ _ .n
  have hc : (sbc r v).flag .c = decide ((withCarry r v).toNat > r.a.toNat) :=
    Registers.flag_setFlags r _ _ _ _ .c
  rw [toNat_withCarry hv] at hc
  rw [correctsHigh, hn, hc, Bool.eq_iff_iff]
  simp only [Bool.not_true, Bool.false_and, Bool.or_false, decide_eq_true_eq]
  unfold Byte.Packed at ha hv
  unfold Byte.decimal
  omega

theorem subDecimal_digits (ha : r.a.Packed) (hv : v.Packed) :
    (subDecimal r v).a.Packed ∧
      r.a.decimal + 100 * (subDecimal r v).carry =
        (subDecimal r v).a.decimal + v.decimal + r.carry := by
  have hcarry := r.carry_le
  have hlaw : r.a.toNat + 256 * (sbc r v).carry = (sbc r v).a.toNat + _ := sub_law r (withCarry r v)
  have hn : (sbc r v).flag .n = true := Registers.flag_setFlags r _ _ _ _ .n
  have hborrow : correctsHigh (sbc r v) = (sbc r v).flag .c := by simp [correctsHigh, hn]
  have hresult : (subDecimal r v).a.toNat = _ := toNat_adjust (sbc r v)
  have hout : (subDecimal r v).carry = _ := carry_adjust (sbc r v)
  rw [toNat_withCarry hv, Registers.carry, ← hborrow, correctsHigh_sbc ha hv] at hlaw
  rw [hn, if_pos rfl, correction, correctsHigh_sbc ha hv, correctsLow_sbc hv] at hresult
  rw [correctsHigh_sbc ha hv] at hout
  unfold Byte.Packed at ha hv ⊢
  unfold Byte.decimal at *
  rw [hout]
  by_cases hlow : r.a.toNat % 16 < v.toNat % 16 + r.carry <;>
    by_cases hhigh : 10 * (r.a.toNat / 16) + r.a.toNat % 16 <
      10 * (v.toNat / 16) + v.toNat % 16 + r.carry <;>
    simp only [hlow, hhigh, decide_true, decide_false, Bool.toNat_true, Bool.toNat_false]
      at hresult hlaw ⊢ <;>
    omega

end Digits

/-! ## Many digits -/

theorem addDecimal_positional : Positional addDecimal 100 Byte.decimal Byte.Packed 1 := by
  intro r x y hx hy
  have hdigits : x.decimal + y.decimal + r.carry =
      (position addDecimal r x y).a.decimal + 100 * (position addDecimal r x y).carry :=
    (addDecimal_digits (r := { r with a := x }) hx hy).2
  rw [if_neg fun h => hy.ne_255 h.1]
  zify at hdigits
  push_cast
  linear_combination hdigits

theorem subDecimal_positional : Positional subDecimal 100 Byte.decimal Byte.Packed (-1) := by
  intro r x y hx hy
  have hdigits : x.decimal + 100 * (position subDecimal r x y).carry =
      (position subDecimal r x y).a.decimal + y.decimal + r.carry :=
    (subDecimal_digits (r := { r with a := x }) hx hy).2
  rw [if_neg fun h => hy.ne_255 h.1]
  zify at hdigits
  push_cast
  linear_combination hdigits

theorem sum_wraps_of_packed (op : Registers → Byte → Registers) (r : Registers) (xs : List Byte)
    {ys : List Byte} (hys : ∀ y ∈ ys, y.Packed) (base n : ℕ) :
    ∑ i ∈ Finset.range n with Wraps op r xs ys i, (base : ℤ) ^ (i + 1) = 0 := by
  have hnone : ∀ i ∈ Finset.range n, ¬ Wraps op r xs ys i := fun i _ hwraps =>
    (hys _ (List.mem_of_getElem? hwraps.1)).ne_255 rfl
  rw [Finset.filter_false_of_mem hnone, Finset.sum_empty]

section Rows

variable {n : ℕ} {x y : List Byte}

theorem packed_chain_addDecimal (hpx : ∀ b ∈ x, b.Packed) (hpy : ∀ b ∈ y, b.Packed)
    (r : Registers) : ∀ b ∈ (chain addDecimal r x y).1, b.Packed :=
  forall_chain (fun r x _ hx hy => (addDecimal_digits (r := { r with a := x }) hx hy).1) hpx hpy r

theorem packed_chain_subDecimal (hpx : ∀ b ∈ x, b.Packed) (hpy : ∀ b ∈ y, b.Packed)
    (r : Registers) : ∀ b ∈ (chain subDecimal r x y).1, b.Packed :=
  forall_chain (fun r x _ hx hy => (subDecimal_digits (r := { r with a := x }) hx hy).1) hpx hpy r

theorem chain_addDecimal (hx : x.length = n) (hy : y.length = n) (hpx : ∀ b ∈ x, b.Packed)
    (hpy : ∀ b ∈ y, b.Packed) (r : Registers) :
    value 100 Byte.decimal (chain addDecimal r x y).1 +
        100 ^ n * (chain addDecimal r x y).2.carry =
      value 100 Byte.decimal x + value 100 Byte.decimal y + r.carry := by
  subst hx
  have hlaw := addDecimal_positional.chain hy.symm hpx hpy r
  rw [sum_wraps_of_packed _ r x hpy] at hlaw
  zify
  linear_combination -hlaw

theorem chain_subDecimal (hx : x.length = n) (hy : y.length = n) (hpx : ∀ b ∈ x, b.Packed)
    (hpy : ∀ b ∈ y, b.Packed) (r : Registers) :
    value 100 Byte.decimal (chain subDecimal r x y).1 + value 100 Byte.decimal y + r.carry =
      value 100 Byte.decimal x + 100 ^ n * (chain subDecimal r x y).2.carry := by
  subst hx
  have hlaw := subDecimal_positional.chain hy.symm hpx hpy r
  rw [sum_wraps_of_packed _ r x hpy] at hlaw
  zify
  linear_combination -hlaw

/-- **Decimal numbers of many bytes.** Let two numbers be given by `n` packed bytes each, and the
carry be clear. Adding them position by position, each sum adjusted, gives packed bytes; their
number, with the last carry as a digit behind them, is the sum. Subtracting gives packed bytes as
well; their number is the difference, with `100 ^ n` borrowed if the last carry is set. -/
theorem chain_decimal (hx : x.length = n) (hy : y.length = n) (hpx : ∀ b ∈ x, b.Packed)
    (hpy : ∀ b ∈ y, b.Packed) {r : Registers} (hclear : r.flag .c = false) :
    let dec := value 100 Byte.decimal
    let sum := chain (fun r v => AccumulatorOp.daa.apply (AluOp.adc.apply r v)) r x y
    let difference := chain (fun r v => AccumulatorOp.daa.apply (AluOp.sbc.apply r v)) r x y
    (sum.1.length = n ∧ (∀ b ∈ sum.1, b.Packed) ∧
        dec sum.1 + 100 ^ n * sum.2.carry = dec x + dec y) ∧
      (difference.1.length = n ∧ (∀ b ∈ difference.1, b.Packed) ∧
        (dec difference.1 : ℤ) = dec x - dec y + 100 ^ n * difference.2.carry) := by
  intro dec sum difference
  have hlength := hx.trans hy.symm
  have hcarry : r.carry = 0 := by simp [Registers.carry, hclear]
  have hsum : dec sum.1 + 100 ^ n * sum.2.carry = dec x + dec y + r.carry :=
    chain_addDecimal hx hy hpx hpy r
  have hdifference : dec difference.1 + dec y + r.carry = dec x + 100 ^ n * difference.2.carry :=
    chain_subDecimal hx hy hpx hpy r
  rw [hcarry, Nat.add_zero] at hsum hdifference
  refine ⟨⟨(length_chain hlength r).trans hx, packed_chain_addDecimal hpx hpy r, hsum⟩,
    (length_chain hlength r).trans hx, packed_chain_subDecimal hpx hpy r, ?_⟩
  zify at hdifference
  linear_combination hdifference

end Rows

/-- `9905 + 0199` carries through both positions and out of the number. -/
theorem chain_decimal_carries :
    let x : List Byte := [0x05, 0x99]
    let y : List Byte := [0x99, 0x01]
    let sum := chain (fun r v => AccumulatorOp.daa.apply (AluOp.adc.apply r v)) {} x y
    x.length = 2 ∧ y.length = 2 ∧ (∀ b ∈ x, b.Packed) ∧ (∀ b ∈ y, b.Packed) ∧
      ({} : Registers).flag .c = false ∧ sum.1 = [0x04, 0x01] ∧ sum.2.flag .c = true ∧
      value 100 Byte.decimal sum.1 + 100 ^ 2 * sum.2.carry = 9905 + 199 := by
  intro x y sum
  have hpx : ∀ b ∈ x, b.Packed :=
    List.forall_mem_cons.mpr ⟨by decide, List.forall_mem_singleton.mpr (by decide)⟩
  have hpy : ∀ b ∈ y, b.Packed :=
    List.forall_mem_cons.mpr ⟨by decide, List.forall_mem_singleton.mpr (by decide)⟩
  have hclear : ({} : Registers).flag .c = false := by decide
  obtain ⟨⟨-, -, hsum⟩, -⟩ := chain_decimal (n := 2) rfl rfl hpx hpy hclear
  exact ⟨rfl, rfl, hpx, hpy, hclear, by decide, by decide, hsum⟩

end Alu

end GameBoy
