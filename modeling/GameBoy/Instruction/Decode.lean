import GameBoy.Instruction.Basic

/-!
# Decoding

An opcode byte splits into three fields: its two high bits choose a block, and the two groups of
three bits below are called `y` and `z`. Blocks 1 and 2 and the whole map behind the prefix byte
are regular: the fields are operand numbers. Blocks 0 and 3 go by cases on `z`, and within a column
the low bit of `y` often separates two forms.

The processor looks its opcodes up in two tables, in which an entry may be missing: such an opcode
has no modelled behaviour. Every byte decodes, so no entry is (`Instruction.find?_table`,
`Extended.find?_table`). `Instruction.decode_eq_hole_iff` lists the eleven bytes without a meaning.
-/

namespace GameBoy

/-! ## Tables -/

/-- A table with room for an entry at each byte. -/
structure OpcodeTable (α : Type) where
  entries : Vector (Option α) 256

namespace OpcodeTable

variable {α : Type}

/-- The table of what some bytes decode to. -/
def ofDecoder (decode : Byte → Option α) : OpcodeTable α :=
  ⟨Vector.ofFn fun i => decode (UInt8.ofNat i.val)⟩

/-- The entry at a byte. -/
def find? (table : OpcodeTable α) (opcode : Byte) : Option α :=
  table.entries.get ⟨opcode.toNat, opcode.toNat_lt⟩

theorem find?_ofDecoder (decode : Byte → Option α) (opcode : Byte) :
    (ofDecoder decode).find? opcode = decode opcode := by
  have hlt := opcode.toNat_lt
  show (Vector.ofFn fun i : Fin 256 => decode (UInt8.ofNat i.val))[opcode.toNat] = _
  rw [Vector.getElem_ofFn, UInt8.ofNat_toNat]

-- A table is read by the equation above, never by computing its 256 entries.
attribute [irreducible] find?

end OpcodeTable

/-! ## Opcodes -/

namespace Instruction

/-- Opcodes `00` to `3F`: counts, immediate loads, pointers and relative branches. -/
def decodeLow (y z : Byte) : Instruction :=
  let even := y &&& 1 == 0
  match z with
  | 0 =>
    match y with
    | 0 => nop
    | 1 => storeSp
    | 2 => stop
    | 3 => jr none
    | _ => jr (some (.ofBits y))
  | 1 => if even then loadPair (.ofBits (y >>> 1)) else addHl (.ofBits (y >>> 1))
  | 2 => if even then storeA (.ofBits (y >>> 1)) else loadA (.ofBits (y >>> 1))
  | 3 => if even then incPair (.ofBits (y >>> 1)) else decPair (.ofBits (y >>> 1))
  | 4 => inc (.ofBits y)
  | 5 => dec (.ofBits y)
  | 6 => loadByte (.ofBits y)
  | _ => accumulator (.ofBits y)

/-- Opcodes `C0` to `FF`: control flow, the stack, the high page and the holes. -/
def decodeHigh (opcode y z : Byte) : Instruction :=
  let even := y &&& 1 == 0
  match z with
  | 0 =>
    match y with
    | 4 => storeHigh
    | 5 => addSp
    | 6 => loadHigh
    | 7 => loadHlSp
    | _ => ret (some (.ofBits y))
  | 1 =>
    if even then pop (.ofBits (y >>> 1)) else
    match y with
    | 1 => ret none
    | 3 => reti
    | 5 => jpHl
    | _ => loadSpHl
  | 2 =>
    match y with
    | 4 => storeHighC
    | 5 => storeAt
    | 6 => loadHighC
    | 7 => loadAt
    | _ => jp (some (.ofBits y))
  | 3 =>
    match y with
    | 0 => jp none
    | 1 => prefixed
    | 6 => di
    | 7 => ei
    | _ => hole opcode
  | 4 => if y < 4 then call (some (.ofBits y)) else hole opcode
  | 5 =>
    if even then push (.ofBits (y >>> 1)) else
    if y == 1 then call none else hole opcode
  | 6 => aluByte (.ofBits y)
  | _ => rst (y * 8)

/-- The instruction that an opcode byte stands for. -/
def decode (opcode : Byte) : Instruction :=
  let y := opcode >>> 3 &&& 7
  let z := opcode &&& 7
  match opcode >>> 6 with
  | 0 => decodeLow y z
  | 1 => if opcode == 0x76 then halt else load (.ofBits y) (.ofBits z)
  | 2 => alu (.ofBits y) (.ofBits z)
  | _ => decodeHigh opcode y z

def table : OpcodeTable Instruction := .ofDecoder fun opcode => some (decode opcode)

theorem find?_table (opcode : Byte) : table.find? opcode = some (decode opcode) :=
  OpcodeTable.find?_ofDecoder _ opcode

/-- The bytes that stand for no instruction. -/
def holes : List Byte := [0xD3, 0xDB, 0xDD, 0xE3, 0xE4, 0xEB, 0xEC, 0xED, 0xF4, 0xFC, 0xFD]

/-- A byte decodes to a hole exactly when it is listed in `holes`. -/
theorem decode_eq_hole_iff (opcode : Byte) : decode opcode = hole opcode ↔ opcode ∈ holes := by
  revert opcode
  exact Byte.forall_of_fin (by decide +kernel)

end Instruction

namespace Extended

/-- The instruction that the byte behind the prefix stands for. -/
def decode (opcode : Byte) : Extended :=
  let y : Fin 8 := Fin.ofNat 8 (opcode.toNat / 8)
  let place := Place.ofBits opcode
  match opcode >>> 6 with
  | 0 => .shift (.ofBits (opcode >>> 3)) place
  | 1 => .test y place
  | 2 => .reset y place
  | _ => .set y place

def table : OpcodeTable Extended := .ofDecoder fun opcode => some (decode opcode)

theorem find?_table (opcode : Byte) : table.find? opcode = some (decode opcode) :=
  OpcodeTable.find?_ofDecoder _ opcode

end Extended

end GameBoy
