import GameBoy.Alu
import Mathlib.Algebra.BigOperators.Intervals
import Mathlib.Algebra.BigOperators.Ring.Finset
import Mathlib.Data.Nat.Digits.Defs
import Mathlib.Tactic.LinearCombination

/-!
# Numbers of many bytes

A number that does not fit into `A` is added byte by byte, the least significant one first, and the
carry flag takes what a position has left over to the next one (`Alu.chain`). The carry is folded
into the operand before the sum is taken. An operand of 255 with the carry set therefore wraps
around to zero, and what it carries is lost: `Alu.Wraps` names the positions at which this happens.

A position obeys a law of its own: the digit and the carry that it leaves are worth its two digits
and the carry that enters, but for a wrap (`Alu.Positional`). From the law of one position
`Alu.Positional.chain` gives that of all, for any base, and for sums and differences alike. Here the
base is 256; decimal numbers follow the same law.

Main theorem: `Alu.chain_binary`.
-/

namespace GameBoy

/-- The carry flag as the number that it adds. -/
def Registers.carry (r : Registers) : ℕ := (r.flag .c).toNat

theorem Registers.carry_le (r : Registers) : r.carry ≤ 1 := Bool.toNat_le _

namespace Alu

/-! ## Positions in a row -/

/-- Load a byte into `A` and combine it with a second one. -/
def position (op : Registers → Byte → Registers) (r : Registers) (x y : Byte) : Registers :=
  op { r with a := x } y

/-- Combine two rows of bytes position by position. The results are the bytes that `A` holds after
each position, and the registers after the last one. -/
def chain (op : Registers → Byte → Registers) :
    Registers → List Byte → List Byte → List Byte × Registers
  | r, x :: xs, y :: ys =>
    let rest := chain op (position op r x y) xs ys
    ((position op r x y).a :: rest.1, rest.2)
  | r, _, _ => ([], r)

/-- The registers on entry to a position. -/
def entering (op : Registers → Byte → Registers) (r : Registers) (xs ys : List Byte) (i : ℕ) :
    Registers :=
  (chain op r (xs.take i) (ys.take i)).2

/-- At this position the operand is 255 and the carry is set, so that the operand wraps around. -/
def Wraps (op : Registers → Byte → Registers) (r : Registers) (xs ys : List Byte) (i : ℕ) : Prop :=
  ys[i]? = some 0xFF ∧ (entering op r xs ys i).flag .c = true

instance (op : Registers → Byte → Registers) (r : Registers) (xs ys : List Byte) (i : ℕ) :
    Decidable (Wraps op r xs ys i) :=
  inferInstanceAs (Decidable (_ ∧ _))

theorem wraps_succ (op : Registers → Byte → Registers) (r : Registers) (x y : Byte)
    (xs ys : List Byte) (i : ℕ) :
    Wraps op r (x :: xs) (y :: ys) (i + 1) ↔ Wraps op (position op r x y) xs ys i := Iff.rfl

theorem length_chain {op : Registers → Byte → Registers} {xs ys : List Byte}
    (h : xs.length = ys.length) (r : Registers) : (chain op r xs ys).1.length = xs.length := by
  induction xs generalizing r ys with
  | nil => rfl
  | cons x xs ih =>
    cases ys with
    | nil => cases h
    | cons y ys => exact congrArg (· + 1) (ih (Nat.succ.inj h) _)

/-- What every position leaves in `A` holds of all results. -/
theorem forall_chain {op : Registers → Byte → Registers} {p q : Byte → Prop}
    (hop : ∀ r x y, p x → p y → q (position op r x y).a) {xs ys : List Byte} (hxs : ∀ x ∈ xs, p x)
    (hys : ∀ y ∈ ys, p y) (r : Registers) : ∀ result ∈ (chain op r xs ys).1, q result := by
  induction xs generalizing r ys with
  | nil => simp [chain]
  | cons x xs ih =>
    cases ys with
    | nil => simp [chain]
    | cons y ys =>
      rw [List.forall_mem_cons] at hxs hys
      exact List.forall_mem_cons.mpr ⟨hop r x y hxs.1 hys.1, ih hxs.2 hys.2 _⟩

/-! ## From one position to all -/

/-- The number that a row of bytes stands for in some base, the least significant byte first. -/
def value (base : ℕ) (digit : Byte → ℕ) (bytes : List Byte) : ℕ :=
  Nat.ofDigits base (bytes.map digit)

theorem value_cons (base : ℕ) (digit : Byte → ℕ) (b : Byte) (bytes : List Byte) :
    value base digit (b :: bytes) = digit b + base * value base digit bytes := by
  rw [value, List.map_cons, Nat.ofDigits_cons]
  rfl

theorem value_lt {base : ℕ} (hbase : 1 < base) {digit : Byte → ℕ} {bytes : List Byte}
    (h : ∀ b ∈ bytes, digit b < base) : value base digit bytes < base ^ bytes.length := by
  have hlt := Nat.ofDigits_lt_base_pow_length (l := bytes.map digit) hbase
    (List.forall_mem_map.mpr h)
  rwa [List.length_map] at hlt

/-- The law of one position on bytes that are digits: it keeps what the digits and the carry are
worth, unless the operand wraps around. The sign tells sums from differences. -/
def Positional (op : Registers → Byte → Registers) (base : ℕ) (digit : Byte → ℕ)
    (IsDigit : Byte → Prop) (sign : ℤ) : Prop :=
  ∀ (r : Registers) (x y : Byte), IsDigit x → IsDigit y →
    (digit x : ℤ) + sign * (digit y + r.carry) =
      digit (position op r x y).a +
        sign * (base * ((position op r x y).carry + if y = 0xFF ∧ r.flag .c = true then 1 else 0))

/-- **The positional law.** Two rows of digits and the carry are worth as much as the results, the
last carry, and a carry into the next position for each operand that wrapped around. -/
theorem Positional.chain {op : Registers → Byte → Registers} {base : ℕ} {digit : Byte → ℕ}
    {IsDigit : Byte → Prop} {sign : ℤ} (hop : Positional op base digit IsDigit sign)
    {xs ys : List Byte} (hlength : xs.length = ys.length) (hxs : ∀ x ∈ xs, IsDigit x)
    (hys : ∀ y ∈ ys, IsDigit y) (r : Registers) :
    (value base digit xs : ℤ) + sign * (value base digit ys + r.carry) =
      value base digit (Alu.chain op r xs ys).1 +
        sign * (base ^ xs.length * (Alu.chain op r xs ys).2.carry +
          ∑ i ∈ Finset.range xs.length with Wraps op r xs ys i, (base : ℤ) ^ (i + 1)) := by
  induction xs generalizing r ys with
  | nil =>
    obtain rfl := List.eq_nil_of_length_eq_zero hlength.symm
    simp [Alu.chain, value]
  | cons x xs ih =>
    cases ys with
    | nil => cases hlength
    | cons y ys =>
      rw [List.forall_mem_cons] at hxs hys
      have hfirst := hop r x y hxs.1 hys.1
      have hrest := ih (Nat.succ.inj hlength) hxs.2 hys.2 (position op r x y)
      have hwraps :
          ∑ i ∈ Finset.range (xs.length + 1) with Wraps op r (x :: xs) (y :: ys) i,
              (base : ℤ) ^ (i + 1) =
            base * ∑ i ∈ Finset.range xs.length with Wraps op (position op r x y) xs ys i,
              (base : ℤ) ^ (i + 1) +
            base * if y = 0xFF ∧ r.flag .c = true then 1 else 0 := by
        have hzero : Wraps op r (x :: xs) (y :: ys) 0 ↔ y = 0xFF ∧ r.flag .c = true := by
          show some y = some 0xFF ∧ _ ↔ _
          rw [Option.some_inj]
          rfl
        rw [Finset.sum_filter, Finset.sum_range_succ', Finset.sum_filter, Finset.mul_sum]
        simp only [wraps_succ, hzero, mul_ite, mul_zero, mul_one, zero_add, pow_one]
        simp only [pow_succ']
      have hchain : Alu.chain op r (x :: xs) (y :: ys) =
          ((position op r x y).a :: (Alu.chain op (position op r x y) xs ys).1,
            (Alu.chain op (position op r x y) xs ys).2) := rfl
      rw [List.length_cons, hwraps, hchain, value_cons, value_cons, value_cons]
      push_cast
      linear_combination hfirst + base * hrest

/-! ## Binary numbers -/

theorem add_law (r : Registers) (v : Byte) :
    r.a.toNat + v.toNat = (add r v).a.toNat + 256 * (add r v).carry := by
  have hcarry : (add r v).carry = (decide (r.a.toNat + v.toNat > 255)).toNat :=
    congrArg Bool.toNat (Registers.flag_setFlags _ _ _ _ _ .c)
  have hresult : (add r v).a.toNat = (r.a.toNat + v.toNat) % 256 := UInt8.toNat_add _ _
  have := r.a.toNat_lt
  have := v.toNat_lt
  rw [hcarry, hresult]
  by_cases h : r.a.toNat + v.toNat > 255
  · rw [decide_eq_true h, Bool.toNat_true]
    omega
  · rw [decide_eq_false h, Bool.toNat_false]
    omega

theorem sub_law (r : Registers) (v : Byte) :
    r.a.toNat + 256 * (sub r v).carry = (sub r v).a.toNat + v.toNat := by
  have hcarry : (sub r v).carry = (decide (v > r.a)).toNat :=
    congrArg Bool.toNat (Registers.flag_setFlags r _ _ _ _ .c)
  have hresult : (sub r v).a.toNat = (256 - v.toNat + r.a.toNat) % 256 := UInt8.toNat_sub _ _
  have := r.a.toNat_lt
  have := v.toNat_lt
  rw [hcarry, hresult]
  by_cases h : v > r.a
  · rw [decide_eq_true h, Bool.toNat_true]
    have : r.a.toNat < v.toNat := h
    omega
  · rw [decide_eq_false h, Bool.toNat_false]
    have : ¬ r.a.toNat < v.toNat := h
    omega

/-- Folding the carry into the operand loses it when the operand wraps around. -/
theorem withCarry_law (r : Registers) (v : Byte) :
    v.toNat + r.carry =
      (withCarry r v).toNat + 256 * if v = 0xFF ∧ r.flag .c = true then 1 else 0 := by
  have hv := v.toNat_lt
  unfold withCarry Registers.carry Registers.flagBit
  cases r.flag .c with
  | false => simp
  | true =>
    by_cases h : v = 0xFF
    · subst h
      decide
    · have : v.toNat ≠ 255 := fun e => h (UInt8.toNat_inj.mp e)
      have hsum : (v + 1).toNat = (v.toNat + 1) % 256 := UInt8.toNat_add _ _
      simp only [if_true, Bool.toNat_true, hsum, h, false_and, if_false]
      omega

theorem adc_positional : Positional adc 256 UInt8.toNat (fun _ => True) 1 := by
  intro r x y _ _
  have hfold := withCarry_law { r with a := x } y
  have hsum := add_law { r with a := x } (withCarry { r with a := x } y)
  change x.toNat + _ = (position adc r x y).a.toNat + 256 * (position adc r x y).carry at hsum
  change y.toNat + r.carry = _ + 256 * (if y = 0xFF ∧ r.flag .c = true then 1 else 0) at hfold
  zify at hsum hfold
  push_cast
  linear_combination hsum + hfold

theorem sbc_positional : Positional sbc 256 UInt8.toNat (fun _ => True) (-1) := by
  intro r x y _ _
  have hfold := withCarry_law { r with a := x } y
  have hdifference := sub_law { r with a := x } (withCarry { r with a := x } y)
  change x.toNat + 256 * (position sbc r x y).carry = (position sbc r x y).a.toNat + _
    at hdifference
  change y.toNat + r.carry = _ + 256 * (if y = 0xFF ∧ r.flag .c = true then 1 else 0) at hfold
  zify at hdifference hfold
  push_cast
  linear_combination hdifference - hfold

/-! ### Where the result is exact -/

/-- A sum that may have lost something has lost nothing exactly when it and its carry are right. -/
theorem carry_exact_iff {size total result lost : ℕ} {carry : Bool}
    (h : total = result + size * carry.toNat + lost) (hresult : result < size)
    (htotal : total < 2 * size) :
    result = total % size ∧ (carry = true ↔ size ≤ total) ↔ lost = 0 := by
  have hmod : total % size = if size ≤ total then total - size else total := by
    split
    · rw [Nat.mod_eq_sub_mod ‹_›, Nat.mod_eq_of_lt (by omega)]
    · exact Nat.mod_eq_of_lt (by omega)
  rw [hmod]
  cases carry with
  | false =>
    simp only [Bool.toNat_false, Nat.mul_zero, Bool.false_eq_true, false_iff] at h ⊢
    split <;> omega
  | true =>
    simp only [Bool.toNat_true, Nat.mul_one, true_iff] at h ⊢
    split <;> omega

theorem borrow_exact_iff {size x y result lost : ℕ} {borrow : Bool}
    (h : x + size * borrow.toNat + lost = result + y) (hx : x < size) (hy : y ≤ size)
    (hresult : result < size) :
    (result : ℤ) = ((x : ℤ) - y) % size ∧ (borrow = true ↔ x < y) ↔ lost = 0 := by
  have hmod : ((x : ℤ) - y) % size = if x < y then (x : ℤ) - y + size else x - y := by
    split
    · rw [← Int.add_emod_right, Int.emod_eq_of_lt (by omega) (by omega)]
    · exact Int.emod_eq_of_lt (by omega) (by omega)
  rw [hmod]
  cases borrow with
  | false =>
    simp only [Bool.toNat_false, Nat.mul_zero, Bool.false_eq_true, false_iff] at h ⊢
    split <;> omega
  | true =>
    simp only [Bool.toNat_true, Nat.mul_one, true_iff] at h ⊢
    split <;> omega

section Exactness

variable {n : ℕ} {a b : List Byte}

theorem value_bytes_lt {bytes : List Byte} (h : bytes.length = n) :
    value 256 UInt8.toNat bytes < 256 ^ n :=
  h ▸ value_lt (by decide) fun b _ => b.toNat_lt

theorem value_chain_lt (op : Registers → Byte → Registers) (ha : a.length = n) (hb : b.length = n)
    (r : Registers) : value 256 UInt8.toNat (chain op r a b).1 < 256 ^ n :=
  value_bytes_lt ((length_chain (ha.trans hb.symm) r).trans ha)

theorem sum_powers_eq_zero_iff (p : ℕ → Prop) [DecidablePred p] (n : ℕ) :
    ∑ i ∈ Finset.range n with p i, 256 ^ (i + 1) = 0 ↔ ∀ i < n, ¬ p i := by
  rw [Finset.sum_eq_zero_iff]
  simp

theorem chain_adc (ha : a.length = n) (hb : b.length = n) (r : Registers) :
    value 256 UInt8.toNat a + value 256 UInt8.toNat b + r.carry =
      value 256 UInt8.toNat (chain adc r a b).1 + 256 ^ n * (chain adc r a b).2.carry +
        ∑ i ∈ Finset.range n with Wraps adc r a b i, 256 ^ (i + 1) := by
  subst ha
  have hlaw := adc_positional.chain hb.symm (by simp) (by simp) r
  zify
  linear_combination hlaw

theorem chain_sbc (ha : a.length = n) (hb : b.length = n) (r : Registers) :
    value 256 UInt8.toNat a + 256 ^ n * (chain sbc r a b).2.carry +
        ∑ i ∈ Finset.range n with Wraps sbc r a b i, 256 ^ (i + 1) =
      value 256 UInt8.toNat (chain sbc r a b).1 + (value 256 UInt8.toNat b + r.carry) := by
  subst ha
  have hlaw := sbc_positional.chain hb.symm (by simp) (by simp) r
  zify
  linear_combination hlaw

/-- **Binary numbers of many bytes.** Adding two numbers of `n` bytes and a carry gives a number of
`n` bytes and a carry that together are worth as much, but for one carry into the next position
wherever the operand is 255 and the carry is set on entry. Subtracting loses as much in the same
way, at the positions of its own run. So the result is the sum modulo `256 ^ n` with its carry, or
the difference with its borrow, if and only if there is no such position. -/
theorem chain_binary (ha : a.length = n) (hb : b.length = n) (r : Registers) :
    let val := value 256 UInt8.toNat
    let sum := chain adc r a b
    let difference := chain sbc r a b
    (sum.1.length = n ∧
        val a + val b + r.carry = val sum.1 + 256 ^ n * sum.2.carry +
          ∑ i ∈ Finset.range n with Wraps adc r a b i, 256 ^ (i + 1)) ∧
      (difference.1.length = n ∧
        (val a - val b - r.carry : ℤ) = val difference.1 - 256 ^ n * difference.2.carry -
          ∑ i ∈ Finset.range n with Wraps sbc r a b i, (256 : ℤ) ^ (i + 1)) ∧
      (val sum.1 = (val a + val b + r.carry) % 256 ^ n ∧
          (sum.2.flag .c = true ↔ 256 ^ n ≤ val a + val b + r.carry) ↔
        ∀ i < n, ¬ Wraps adc r a b i) ∧
      ((val difference.1 : ℤ) = (val a - val b - r.carry) % 256 ^ n ∧
          (difference.2.flag .c = true ↔ val a < val b + r.carry) ↔
        ∀ i < n, ¬ Wraps sbc r a b i) := by
  intro val sum difference
  have hA : val a < 256 ^ n := value_bytes_lt ha
  have hB : val b < 256 ^ n := value_bytes_lt hb
  have hcarry := r.carry_le
  have hlength := ha.trans hb.symm
  have hsum := chain_adc ha hb r
  have hdifference := chain_sbc ha hb r
  refine ⟨⟨(length_chain hlength r).trans ha, hsum⟩, ⟨(length_chain hlength r).trans ha, ?_⟩,
    ?_, ?_⟩
  · have hlaw := hdifference
    zify at hlaw
    linear_combination hlaw
  · rw [← sum_powers_eq_zero_iff]
    exact carry_exact_iff hsum (value_chain_lt adc ha hb r) (by omega)
  · have hy : val b + r.carry ≤ 256 ^ n := by omega
    have hexact := borrow_exact_iff hdifference hA hy (value_chain_lt sbc ha hb r)
    push_cast at hexact
    rw [← sub_sub, sum_powers_eq_zero_iff] at hexact
    exact hexact

/-- `FF01` added to `FFFF`: at the second position the operand is 255 and the carry is set, so that
the carry out of the sum `1FF00` is lost. -/
theorem chain_binary_wraps :
    let a : List Byte := [0xFF, 0xFF]
    let b : List Byte := [0x01, 0xFF]
    let sum := chain adc {} a b
    a.length = 2 ∧ b.length = 2 ∧ sum.1 = [0x00, 0xFF] ∧ sum.2.flag .c = false ∧
      Wraps adc {} a b 1 ∧
      ¬ (value 256 UInt8.toNat sum.1 =
          (value 256 UInt8.toNat a + value 256 UInt8.toNat b + 0) % 256 ^ 2 ∧
        (sum.2.flag .c = true ↔
          256 ^ 2 ≤ value 256 UInt8.toNat a + value 256 UInt8.toNat b + 0)) := by
  intro a b sum
  have hwraps : Wraps adc {} a b 1 := by decide
  obtain ⟨-, -, hexact, -⟩ := chain_binary (n := 2) (a := a) (b := b) rfl rfl {}
  exact ⟨rfl, rfl, by decide, by decide, hwraps, fun h => hexact.mp h 1 (by decide) hwraps⟩

end Exactness

end Alu

end GameBoy
