import GameBoy.Bus
import GameBoy.Instruction.Decode
import GameBoy.Proofs.Alu.Bitwise

/-!
# The regular opcodes, read off their bit fields

Blocks 1 and 2 of the opcode map, and the whole map behind the prefix byte, are regular: bits 6 and
7 number a block, and bits 3 to 5 (`Code.y`) and 0 to 2 (`Code.z`) number operands, operations and
bits. Here these opcodes run without being decoded, and nothing of the instruction set is used. An
operand number reads a register or the byte at `HL` (`Registers.numbered`). Sums and differences are
those of numbers (`Code.combined`, with their carries in `Code.carried` and `Code.halfCarried`), and
the other operations are given by the bits of their results (`Code.shifted`, `Code.tested`,
`Code.forced`).

`Code.run` does what an opcode says to the registers and the bus, and `Code.accesses` lists what it
reads and stores on the way: a destination in memory is stored to at the address that was in `HL`
before anything else changed. `Code.decode_eq` and `Code.decode_extended_eq` say that the decoder
sees the same fields, and `Code.run_withOperand` compares the byte at `HL` with a register.
-/

namespace GameBoy

/-! ## Operands by number -/

namespace Registers

/-- The register with an operand number. Number 6 is the byte at `HL`, and no register. -/
def numbered (r : Registers) (n : Fin 8) : Option Byte :=
  match n with
  | 0 => some r.b
  | 1 => some r.c
  | 2 => some r.d
  | 3 => some r.e
  | 4 => some r.h
  | 5 => some r.l
  | 6 => none
  | 7 => some r.a

/-- Store to the register with an operand number. -/
def setNumbered (r : Registers) (n : Fin 8) (value : Byte) : Registers :=
  match n with
  | 0 => { r with b := value }
  | 1 => { r with c := value }
  | 2 => { r with d := value }
  | 3 => { r with e := value }
  | 4 => { r with h := value }
  | 5 => { r with l := value }
  | 6 => r
  | 7 => { r with a := value }

theorem numbered_setNumbered (r : Registers) {n : Fin 8} (hn : n ≠ 6) (value : Byte) :
    (r.setNumbered n value).numbered n = some value := by
  match n with
  | 0 | 1 | 2 | 3 | 4 | 5 | 7 => rfl
  | 6 => exact absurd rfl hn

theorem f_setNumbered (r : Registers) (n : Fin 8) (value : Byte) :
    (r.setNumbered n value).f = r.f := by
  match n with
  | 0 | 1 | 2 | 3 | 4 | 5 | 6 | 7 => rfl

theorem numbered_eq_none_iff (r : Registers) (n : Fin 8) : r.numbered n = none ↔ n = 6 := by
  match n with
  | 0 | 1 | 2 | 3 | 4 | 5 | 7 => exact ⟨nofun, fun h => absurd h (by decide)⟩
  | 6 => exact ⟨fun _ => rfl, fun _ => rfl⟩

end Registers

/-! ## The interpreter -/

/-- An opcode byte, with or without the prefix byte before it. -/
structure Code where
  extended : Bool
  opcode : Byte
  deriving DecidableEq, Repr

namespace Code

variable {β : Type} [Bus β] (code : Code)

def block : Fin 4 := ⟨code.opcode.toNat / 64, by have := code.opcode.toNat_lt; omega⟩

def y : Fin 8 := ⟨code.opcode.toNat / 8 % 8, Nat.mod_lt _ (by decide)⟩

def z : Fin 8 := ⟨code.opcode.toNat % 8, Nat.mod_lt _ (by decide)⟩

/-- An opcode byte of block 1 or 2 that is not `HALT`. -/
def Plain (opcode : Byte) : Prop := 0x40 ≤ opcode ∧ opcode < 0xC0 ∧ opcode ≠ 0x76

instance (opcode : Byte) : Decidable (Plain opcode) :=
  inferInstanceAs (Decidable (0x40 ≤ opcode ∧ opcode < 0xC0 ∧ opcode ≠ 0x76))

/-- The opcodes that their fields explain: those of blocks 1 and 2, and all behind the prefix. -/
def Regular : Prop := code.extended = true ∨ Plain code.opcode

/-! ### Operations -/

/-- The second operand of an operation of block 2: `ADD`, `ADC`, `SUB`, `SBC`, `AND`, `XOR`, `OR`
and `CP`. Two of them add the carry to it first, modulo 256. -/
def operand (y : Fin 8) (carry : Bool) (v : Byte) : Nat :=
  if y = 1 ∨ y = 3 then (v.toNat + carry.toNat) % 256 else v.toNat

/-- The sum, the difference or the bits that an operation of block 2 comes to. -/
def combined (y : Fin 8) (a : Byte) (w : Nat) : Byte :=
  match y with
  | 0 | 1 => UInt8.ofNat ((a.toNat + w) % 256)
  | 2 | 3 | 7 => UInt8.ofNat ((256 + a.toNat - w) % 256)
  | 4 => Byte.ofBits fun n => Byte.has a n && w.testBit n
  | 5 => Byte.ofBits fun n => Byte.has a n != w.testBit n
  | 6 => Byte.ofBits fun n => Byte.has a n || w.testBit n

/-- Whether an operation carries out of bit 3, or borrows there. `AND` says so always. -/
def halfCarried (y : Fin 8) (a : Byte) (w : Nat) : Bool :=
  match y with
  | 0 | 1 => 16 ≤ a.toNat % 16 + w % 16
  | 2 | 3 | 7 => a.toNat % 16 < w % 16
  | 4 => true
  | 5 | 6 => false

/-- Whether an operation carries out of bit 7, or borrows there. -/
def carried (y : Fin 8) (a : Byte) (w : Nat) : Bool :=
  match y with
  | 0 | 1 => 256 ≤ a.toNat + w
  | 2 | 3 | 7 => a.toNat < w
  | 4 | 5 | 6 => false

/-- The bits of `F` when all four flags are written. -/
def flags (z n h c : Bool) (k : Fin 8) : Bool :=
  match k with
  | 7 => z
  | 6 => n
  | 5 => h
  | 4 => c
  | _ => false

/-- The registers after an operation of block 2. `CP` leaves its difference nowhere. -/
def operation (y : Fin 8) (r : Registers) (v : Byte) : Registers :=
  let w := operand y (Byte.has r.f 4) v
  let result := combined y r.a w
  { r with
    a := if y = 7 then r.a else result
    f := Byte.ofBits (flags (result.toNat == 0) (y == 2 || y == 3 || y == 7)
      (halfCarried y r.a w) (carried y r.a w)) }

/-- The bits of a byte that is rotated or shifted: `RLC`, `RRC`, `RL`, `RR`, `SLA`, `SRA`, `SWAP`
and `SRL`. -/
def shifted (y : Fin 8) (carry : Bool) (v : Byte) : Fin 8 → Bool :=
  match y with
  | 0 => Byte.movedUp (Byte.has v 7) v
  | 1 => Byte.movedDown (Byte.has v 0) v
  | 2 => Byte.movedUp carry v
  | 3 => Byte.movedDown carry v
  | 4 => Byte.movedUp false v
  | 5 => Byte.movedDown (Byte.has v 7) v
  | 6 => fun n => Byte.has v (n + 4)
  | 7 => Byte.movedDown false v

/-- The bit that a rotation or shift moves into the carry. -/
def shiftedOut (y : Fin 8) (v : Byte) : Bool :=
  match y with
  | 0 | 2 | 4 => Byte.has v 7
  | 1 | 3 | 5 | 7 => Byte.has v 0
  | 6 => false

/-- The result of a rotation or shift, and the registers with its flags. -/
def rotation (y : Fin 8) (r : Registers) (v : Byte) : Byte × Registers :=
  let result := Byte.ofBits (shifted y (Byte.has r.f 4) v)
  (result, { r with f := Byte.ofBits (flags (result.toNat == 0) false false (shiftedOut y v)) })

/-- The bits of `F` after a bit test: the zero flag is the complement of the bit, `N` is clear, `H`
is set, and the others stay. -/
def tested (y : Fin 8) (v f : Byte) (n : Fin 8) : Bool :=
  if n = 7 then !Byte.has v y else if n = 6 then false else if n = 5 then true else Byte.has f n

/-- The bits of a byte in which one bit is cleared or set. -/
def forced (y : Fin 8) (value : Bool) (v : Byte) (n : Fin 8) : Bool :=
  if n = y then value else Byte.has v n

/-- The byte that is stored, if one is, and the registers otherwise, given the operand. -/
def compute (r : Registers) (v : Byte) : Byte × Registers :=
  match code.extended, code.block with
  | false, 1 => (v, r)
  | false, _ => (v, operation code.y r v)
  | true, 0 => rotation code.y r v
  | true, 1 => (v, { r with f := Byte.ofBits (tested code.y v r.f) })
  | true, 2 => (Byte.ofBits (forced code.y false v), r)
  | true, _ => (Byte.ofBits (forced code.y true v), r)

/-- The number of the operand that is stored to. -/
def destination : Option (Fin 8) :=
  match code.extended, code.block with
  | false, 1 => some code.y
  | false, _ => none
  | true, 1 => none
  | true, _ => some code.z

/-! ### A run -/

/-- Read a numbered operand. -/
def load (n : Fin 8) (r : Registers) (bus : β) : Byte × β :=
  match r.numbered n with
  | some v => (v, bus)
  | none => Bus.read8 r.hl bus

/-- Store to a numbered operand; in memory, to the given address. -/
def store (n : Fin 8) (addr : Word) (v : Byte) (r : Registers) (bus : β) : Registers × β :=
  if n = 6 then (r, Bus.write8 addr v bus) else (r.setNumbered n v, bus)

/-- The registers and the bus after the opcode, given those before it. -/
def run (r : Registers) (bus : β) : Registers × β :=
  let (v, bus) := load code.z r bus
  let (v', r') := code.compute r v
  match code.destination with
  | none => (r', bus)
  | some n => store n r.hl v' r' bus

/-- What the opcode reads and stores: a source in memory once, and then a destination in memory
once, at the address in `HL` before the opcode. -/
def accesses (r : Registers) (bus : β) : List Access :=
  let v := (load code.z r bus).1
  (if code.z = 6 then [.read r.hl v] else []) ++
    (if code.destination = some 6 then [.write r.hl (code.compute r v).1] else [])

/-- The opcode with another operand. -/
def withOperand (n : Fin 8) : Code :=
  ⟨code.extended, UInt8.ofNat (8 * (code.opcode.toNat / 8) + n.val)⟩

end Code

/-! ## The decoder sees the fields -/

/-- The place with an operand number. -/
def Place.ofNumber (n : Fin 8) : Place := .ofBits (UInt8.ofNat n.val)

namespace Code

/-- An operation of block 2 by name. -/
def aluOp (y : Fin 8) : AluOp := .ofBits (UInt8.ofNat y.val)

/-- A rotation or shift by name. -/
def shiftOp (y : Fin 8) : ShiftOp := .ofBits (UInt8.ofNat y.val)

/-! ### Sums, differences and logic -/

theorem setFlags_eq (r : Registers) (z n h c : Bool) :
    r.setFlags z n h c = { r with f := Byte.ofBits (flags z n h c) } := by
  have hpack : Flag.pack z n h c = Byte.ofBits (flags z n h c) := by
    refine Byte.eq_ofBits fun k => ?_
    revert z n h c k
    decide
  rw [Registers.setFlags, hpack]

theorem beq_zero (v : Byte) : (v == 0) = (v.toNat == 0) := by
  rw [Bool.eq_iff_iff, beq_iff_eq, beq_iff_eq]
  exact UInt8.toNat_inj.symm

section

variable {y : Fin 8} {r : Registers} {v w : Byte}

/-- What an operation leaves, given its result and the three other flags. -/
theorem operation_eq {result : Byte} {h c : Bool}
    (hresult : result = combined y r.a (operand y (Byte.has r.f 4) v))
    (hhalf : h = halfCarried y r.a (operand y (Byte.has r.f 4) v))
    (hcarry : c = carried y r.a (operand y (Byte.has r.f 4) v)) :
    operation y r v = Registers.setFlags { r with a := if y = 7 then r.a else result }
      (result == 0) (y == 2 || y == 3 || y == 7) h c := by
  rw [hhalf, hcarry, setFlags_eq, beq_zero, hresult]
  rfl

theorem toNat_withCarry_eq (r : Registers) (v : Byte) :
    (Alu.withCarry r v).toNat = (v.toNat + (Byte.has r.f 4).toNat) % 256 := by
  have hbit : (r.flagBit .c).toNat = (Byte.has r.f 4).toNat := by
    show (if Byte.has r.f 4 then 1 else 0 : Byte).toNat = _
    cases Byte.has r.f 4 <;> rfl
  rw [Alu.withCarry, UInt8.toNat_add, hbit]

/-- A sum, with whatever the operand is. -/
theorem add_eq_operation (hy : y = 0 ∨ y = 1) (hw : w.toNat = operand y (Byte.has r.f 4) v) :
    Alu.add r w = operation y r v := by
  have hsum : r.a + w = UInt8.ofNat ((r.a.toNat + w.toNat) % 256) := by
    rw [← UInt8.toNat_add, UInt8.ofNat_toNat]
  rcases hy with rfl | rfl
  all_goals
    rw [operation_eq (hsum.trans (by rw [hw]; rfl)) rfl rfl, ← hw]
    rfl

theorem compare_flags (hy : y = 2 ∨ y = 3 ∨ y = 7)
    (hw : w.toNat = operand y (Byte.has r.f 4) v) :
    (r.a - w = combined y r.a (operand y (Byte.has r.f 4) v)) ∧
      (decide (w.toNat % 16 > r.a.toNat % 16) =
        halfCarried y r.a (operand y (Byte.has r.f 4) v)) ∧
      (decide (w > r.a) = carried y r.a (operand y (Byte.has r.f 4) v)) := by
  have hlt := w.toNat_lt
  have hdifference : r.a - w = UInt8.ofNat ((256 + r.a.toNat - w.toNat) % 256) := by
    have hsub : (r.a - w).toNat = (256 + r.a.toNat - w.toNat) % 256 := by
      rw [UInt8.toNat_sub]
      omega
    rw [← hsub, UInt8.ofNat_toNat]
  have hborrow : decide (w > r.a) = decide (r.a.toNat < w.toNat) := decide_eq_decide.mpr Iff.rfl
  rw [hdifference, hborrow, hw]
  rcases hy with rfl | rfl | rfl
  all_goals exact ⟨rfl, rfl, rfl⟩

theorem sub_eq_operation (hy : y = 2 ∨ y = 3) (hw : w.toNat = operand y (Byte.has r.f 4) v) :
    Alu.sub r w = operation y r v := by
  obtain ⟨hresult, hhalf, hcarry⟩ := compare_flags (by tauto) hw
  rw [operation_eq hresult hhalf hcarry]
  rcases hy with rfl | rfl
  all_goals rfl

theorem compare_eq_operation (r : Registers) (v : Byte) : Alu.compare r v = operation 7 r v := by
  obtain ⟨hresult, hhalf, hcarry⟩ := compare_flags (r := r) (v := v) (w := v) (.inr (.inr rfl)) rfl
  rw [operation_eq hresult hhalf hcarry]
  rfl

/-- A logical operation, given what it does to each bit. -/
theorem logic_eq_operation {result : Byte} {h : Bool} (hy : y = 4 ∨ y = 5 ∨ y = 6)
    (hresult : result = combined y r.a v.toNat) (hhalf : h = halfCarried y r.a v.toNat) :
    Registers.setFlags { r with a := result } (result == 0) false h false = operation y r v := by
  rcases hy with rfl | rfl | rfl
  all_goals
    rw [operation_eq hresult hhalf rfl]
    rfl

end

theorem apply_aluOp (y : Fin 8) : (aluOp y).apply = operation y := by
  funext r v
  match y with
  | 0 => exact add_eq_operation (.inl rfl) rfl
  | 1 => exact add_eq_operation (.inr rfl) (toNat_withCarry_eq r v)
  | 2 => exact sub_eq_operation (.inl rfl) rfl
  | 3 => exact sub_eq_operation (.inr rfl) (toNat_withCarry_eq r v)
  | 4 =>
    refine logic_eq_operation (.inl rfl) (Byte.eq_ofBits fun n => ?_) rfl
    rw [Byte.has_and, Byte.has_eq_testBit v]
  | 5 =>
    refine logic_eq_operation (.inr (.inl rfl)) (Byte.eq_ofBits fun n => ?_) rfl
    rw [Byte.has_xor, Byte.has_eq_testBit v]
  | 6 =>
    refine logic_eq_operation (.inr (.inr rfl)) (Byte.eq_ofBits fun n => ?_) rfl
    rw [Byte.has_or, Byte.has_eq_testBit v]
  | 7 => exact compare_eq_operation r v

/-! ### Rotations, shifts and bits -/

theorem result_shiftOp (y : Fin 8) (carry : Bool) (v : Byte) :
    (shiftOp y).result carry v = Byte.ofBits (shifted y carry v) := by
  match y with
  | 0 => exact Byte.shiftLeft_or (Byte.has_shiftRight_seven v)
  | 1 => exact Byte.shiftRight_or (Byte.has_shiftLeft_seven v)
  | 2 => exact Byte.shiftLeft_or (Byte.has_ite_bit carry 0)
  | 3 => exact Byte.shiftRight_or (Byte.has_ite_bit carry 7)
  | 4 => exact UInt8.or_zero.symm.trans (Byte.shiftLeft_or (Byte.has_ite_bit false 0))
  | 5 => exact Byte.shiftRight_or (Byte.has_and_sign v)
  | 6 => exact Byte.swap_eq v
  | 7 => exact UInt8.or_zero.symm.trans (Byte.shiftRight_or (Byte.has_ite_bit false 7))

theorem carryOut_shiftOp (y : Fin 8) (v : Byte) : (shiftOp y).carryOut v = shiftedOut y v := by
  match y with
  | 0 | 1 | 2 | 3 | 4 | 5 | 6 | 7 => rfl

theorem apply_shiftOp (y : Fin 8) (r : Registers) (v : Byte) :
    (shiftOp y).apply r v = rotation y r v := by
  simp only [ShiftOp.apply, result_shiftOp, carryOut_shiftOp, setFlags_eq, beq_zero]
  rfl

theorem testBit_eq (r : Registers) (y : Fin 8) (v : Byte) :
    Alu.testBit r y v = { r with f := Byte.ofBits (tested y v r.f) } := by
  have hf : (Alu.testBit r y v).f = Byte.ofBits (tested y v r.f) := by
    refine Byte.eq_ofBits fun n => ?_
    simp only [Alu.testBit, Registers.setFlag, Byte.has_setBit, Flag.position, tested]
    grind
  rw [← hf]
  rfl

theorem setBit_eq (v : Byte) (y : Fin 8) (value : Bool) :
    Byte.setBit v y value = Byte.ofBits (forced y value v) :=
  Byte.eq_ofBits fun n => Byte.has_setBit v y n value

/-- The instruction that a regular opcode of the first map stands for. -/
theorem decode_eq (opcode : Byte) (h : Plain opcode) :
    Instruction.decode opcode =
      if block ⟨false, opcode⟩ = 1 then
        .load (.ofNumber (y ⟨false, opcode⟩)) (.ofNumber (z ⟨false, opcode⟩))
      else .alu (aluOp (y ⟨false, opcode⟩)) (.ofNumber (z ⟨false, opcode⟩)) := by
  revert opcode
  exact Byte.forall_of_fin (by decide +kernel)

theorem decode_ne_prefixed {opcode : Byte} (h : Plain opcode) :
    Instruction.decode opcode ≠ .prefixed := by
  rw [decode_eq opcode h]
  split <;> simp

/-- The instruction that an opcode behind the prefix stands for. -/
theorem decode_extended_eq (opcode : Byte) :
    Extended.decode opcode =
      match block ⟨true, opcode⟩ with
      | 0 => .shift (shiftOp (y ⟨true, opcode⟩)) (.ofNumber (z ⟨true, opcode⟩))
      | 1 => .test (y ⟨true, opcode⟩) (.ofNumber (z ⟨true, opcode⟩))
      | 2 => .reset (y ⟨true, opcode⟩) (.ofNumber (z ⟨true, opcode⟩))
      | _ => .set (y ⟨true, opcode⟩) (.ofNumber (z ⟨true, opcode⟩)) := by
  revert opcode
  exact Byte.forall_of_fin (by decide +kernel)

/-! ## What a recorder sees -/

variable {β : Type} [Bus β] (code : Code)

theorem load_traced (n : Fin 8) (r : Registers) (t : Traced β) :
    load n r t = ((load n r t.bus).1, ⟨(load n r t.bus).2,
      t.accesses ++ (if n = 6 then #[.read r.hl (load n r t.bus).1] else #[])⟩) := by
  match n with
  | 0 | 1 | 2 | 3 | 4 | 5 | 7 => simp [load, Registers.numbered]
  | 6 => rfl

theorem accesses_store (n : Fin 8) (addr : Word) (v : Byte) (r : Registers) (t : Traced β) :
    (store n addr v r t).2.accesses =
      t.accesses ++ (if n = 6 then #[.write addr v] else #[]) := by
  unfold store
  split
  · rfl
  · exact Array.append_empty.symm

theorem load_setPc (n : Fin 8) (r : Registers) (pc : Word) (bus : β) :
    load n { r with pc := pc } bus = load n r bus := by
  match n with
  | 0 | 1 | 2 | 3 | 4 | 5 | 6 | 7 => rfl

/-- What an opcode accesses does not depend on where it stands. -/
theorem accesses_setPc (r : Registers) (pc : Word) (bus : β) :
    code.accesses { r with pc := pc } bus = code.accesses r bus := by
  have hcompute (v : Byte) :
      (code.compute { r with pc := pc } v).1 = (code.compute r v).1 := by
    unfold compute
    split <;> rfl
  unfold accesses
  rw [load_setPc]
  simp only [hcompute]
  rfl

theorem accesses_run (r : Registers) (t : Traced β) :
    (code.run r t).2.accesses.toList = t.accesses.toList ++ code.accesses r t.bus := by
  unfold run accesses
  rw [load_traced]
  cases hdestination : code.destination with
  | none => simp [apply_ite Array.toList]
  | some n =>
    simp only [accesses_store, Array.toList_append, apply_ite Array.toList, List.append_assoc,
      Option.some.injEq]

/-! ## An operand in memory and one in a register -/

variable {code}

theorem toNat_withOperand (code : Code) (n : Fin 8) :
    (code.withOperand n).opcode.toNat = 8 * (code.opcode.toNat / 8) + n.val := by
  have := code.opcode.toNat_lt
  exact UInt8.toNat_ofNat_of_lt' (by rw [UInt8.size]; omega)

theorem block_withOperand (code : Code) (n : Fin 8) :
    (code.withOperand n).block = code.block := by
  refine Fin.ext ?_
  show (code.withOperand n).opcode.toNat / 64 = code.opcode.toNat / 64
  rw [toNat_withOperand]
  omega

theorem y_withOperand (code : Code) (n : Fin 8) : (code.withOperand n).y = code.y := by
  refine Fin.ext ?_
  show (code.withOperand n).opcode.toNat / 8 % 8 = code.opcode.toNat / 8 % 8
  rw [toNat_withOperand]
  omega

theorem z_withOperand (code : Code) (n : Fin 8) : (code.withOperand n).z = n := by
  refine Fin.ext ?_
  show (code.withOperand n).opcode.toNat % 8 = n.val
  rw [toNat_withOperand]
  omega

theorem Regular.withOperand (h : code.Regular) {n : Fin 8} (hn : n ≠ 6) :
    (code.withOperand n).Regular := by
  refine Or.imp id (fun ⟨hlow, hhigh, _⟩ => ?_) h
  have hopcode := toNat_withOperand code n
  have hlow : 0x40 ≤ code.opcode.toNat := hlow
  have hhigh : code.opcode.toNat < 0xC0 := hhigh
  refine ⟨?_, ?_, fun hhalt => hn (Fin.ext ?_)⟩
  · show 0x40 ≤ (code.withOperand n).opcode.toNat
    omega
  · show (code.withOperand n).opcode.toNat < 0xC0
    omega
  · have hhalt : (code.withOperand n).opcode.toNat = 0x76 := congrArg UInt8.toNat hhalt
    show n.val = 6
    omega

theorem compute_withOperand (code : Code) (n : Fin 8) :
    (code.withOperand n).compute = code.compute := by
  funext r v
  unfold compute
  rw [block_withOperand, y_withOperand]
  rfl

/-- `HALT` stands where the byte at `HL` would be copied to itself. -/
theorem Regular.y_ne (h : code.Regular) (hextended : code.extended = false)
    (hblock : code.block = 1) (hz : code.z = 6) : code.y ≠ 6 := by
  intro hy
  obtain ⟨-, -, hne⟩ := h.resolve_left (by simp [hextended])
  have hblock : code.opcode.toNat / 64 = 1 := congrArg Fin.val hblock
  have hy : code.opcode.toNat / 8 % 8 = 6 := congrArg Fin.val hy
  have hz : code.opcode.toNat % 8 = 6 := congrArg Fin.val hz
  refine hne (UInt8.toNat_inj.mp ?_)
  show code.opcode.toNat = 0x76
  omega

/-- With another operand an opcode still stores to the same place, unless it stores back. -/
theorem destination_withOperand (h : code.Regular) (hz : code.z = 6) (n : Fin 8) :
    (code.destination = some 6 → (code.withOperand n).destination = some n) ∧
      (code.destination ≠ some 6 → (code.withOperand n).destination = code.destination) := by
  have hextended : (code.withOperand n).extended = code.extended := rfl
  unfold destination
  rw [hextended, block_withOperand, y_withOperand, z_withOperand, hz]
  cases hext : code.extended with
  | false =>
    by_cases hcopy : code.block = 1
    · simp [hcopy, h.y_ne hext hcopy hz]
    · simp
  | true =>
    by_cases htest : code.block = 1
    · simp [htest]
    · simp

/-- An opcode does with a register what it does with the byte at `HL`, when the two hold the same
byte: the registers are the same afterwards, or else the byte that is stored back is, with `F`. -/
theorem run_withOperand {β γ : Type} [Bus β] [Bus γ] (h : code.Regular) (hz : code.z = 6)
    {r : Registers} {k : Fin 8} (bus : β) (bus' : γ)
    (hk : r.numbered k = some (load 6 r bus).1) :
    ((code.withOperand k).run r bus').1.f = (code.run r bus).1.f ∧
      (code.destination ≠ some 6 → ((code.withOperand k).run r bus').1 = (code.run r bus).1) ∧
      (code.destination = some 6 → ∃ v, .write r.hl v ∈ code.accesses r bus ∧
        ((code.withOperand k).run r bus').1.numbered k = some v) := by
  have hne : k ≠ 6 := fun hk' => by simp [(r.numbered_eq_none_iff k).mpr hk'] at hk
  have hload : load (code.withOperand k).z r bus' = ((load code.z r bus).1, bus') := by
    rw [z_withOperand, hz, load, hk]
  obtain ⟨hback, hforth⟩ := destination_withOperand h hz k
  by_cases hd : code.destination = some 6
  · -- the result is stored back, to a register in the one and to memory in the other
    have hrun : ((code.withOperand k).run r bus').1 =
        (code.compute r (load code.z r bus).1).2.setNumbered k
          (code.compute r (load code.z r bus).1).1 := by
      unfold run
      rw [hload, compute_withOperand, hback hd]
      simp only [store, if_neg hne]
    have hmem : (code.run r bus).1 = (code.compute r (load code.z r bus).1).2 := by
      unfold run
      rw [hd]
      rfl
    have hwrite : .write r.hl (code.compute r (load code.z r bus).1).1 ∈
        code.accesses r bus := by
      simp [accesses, hd]
    refine ⟨?_, fun hd' => absurd hd hd', fun _ => ⟨_, hwrite, ?_⟩⟩
    · rw [hrun, hmem, Registers.f_setNumbered]
    · rw [hrun, Registers.numbered_setNumbered _ hne]
  · have hrun : ((code.withOperand k).run r bus').1 = (code.run r bus).1 := by
      unfold run
      rw [hload, compute_withOperand, hforth hd]
      cases hn : code.destination with
      | none => rfl
      | some n =>
        have hn6 : n ≠ 6 := fun h6 => hd (by rw [hn, h6])
        simp only [store, if_neg hn6]
    exact ⟨congrArg Registers.f hrun, fun _ => hrun, fun hd' => absurd hd' hd⟩

end Code

end GameBoy
