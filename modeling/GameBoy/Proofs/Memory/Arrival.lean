import GameBoy.Proofs.Core.Access

/-!
# Where a store arrives

A write is a matter of two addresses: the one that is written to, and the one that is looked at
afterwards. `Memory.Arrives` relates them. A store arrives at its own address, and from the echo
also at the address that is echoed.

What an address then holds is its own affair: it keeps what it has (`Memory.ReadOnly`), it takes
what arrives (`Memory.Takes`), or it is the line register, which becomes zero.
`Memory.read_write_eq` puts both together.
-/

namespace GameBoy.Memory

variable {addr target : Word}

/-- Where a store arrives: at its address, and from the echo also at the address that is echoed. -/
def Arrives (target addr : Word) : Prop :=
  addr = target ∨ Region.of target = .echo ∧ addr = echoed target

instance (target addr : Word) : Decidable (Arrives target addr) :=
  inferInstanceAs (Decidable (_ ∨ _ ∧ _))

/-- A store arrives at its own address, and at a work-RAM address from its echo. -/
theorem arrives_iff :
    Arrives target addr ↔
      target = addr ∨ (0xC000 ≤ addr ∧ addr ≤ 0xDDFF) ∧ target = addr + 0x2000 := by
  simp only [Arrives, Region.of_eq_echo_iff, echoed, UInt16.le_iff_toNat_le, ← UInt16.toNat_inj,
    UInt16.toNat_add, UInt16.toNat_sub, UInt16.reduceToNat]
  have := target.toNat_lt
  have := addr.toNat_lt
  omega

theorem not_arrives_of_high (haddr : 0xFE00 ≤ addr.toNat) (hne : target ≠ addr) :
    ¬ Arrives target addr := by
  rw [arrives_iff]
  rintro (h | ⟨⟨-, hle⟩, -⟩)
  · exact hne h
  · have : addr.toNat ≤ 0xDDFF := hle
    omega

/-! ## What an address makes of it -/

/-- An address that holds the byte that was stored there. -/
def Takes (addr : Word) : Prop := Region.of addr = .echo ∨ Region.of addr = .plain

theorem takes_iff :
    Takes addr ↔
      0x8000 ≤ addr ∧ ¬ (0xFEA0 ≤ addr ∧ addr ≤ 0xFEFE) ∧ addr ≠ Hardware.line := by
  simp only [Takes, Region.of_eq, Hardware.line, UInt16.le_iff_toNat_le, ne_eq, ← UInt16.toNat_inj,
    UInt16.reduceToNat]
  grind

theorem readOnly_iff :
    ReadOnly addr ↔ addr < 0x8000 ∨ 0xFEA0 ≤ addr ∧ addr ≤ 0xFEFE := by
  simp only [ReadOnly, Region.of_eq, UInt16.lt_iff_toNat_lt, UInt16.le_iff_toNat_le,
    UInt16.reduceToNat]
  grind

/-- What is stored at an address that takes it is read wherever it arrives. -/
theorem read_write_of_takes (h : Takes target) (m : Memory) (addr : Word) (value : Byte) :
    (m.write target value).read addr = if Arrives target addr then value else m.read addr := by
  rcases h with hr | hr <;> simp [read_write, Arrives, hr]

theorem takes_of_arrives (h : Takes target) (ha : Arrives target addr) : Takes addr := by
  rcases ha with rfl | ⟨hecho, rfl⟩
  · exact h
  · exact .inr (Region.of_echoed hecho)

theorem Arrives.eq_of_not_takes (ha : Arrives target addr) (h : ¬ Takes target) :
    addr = target := by
  rcases ha with rfl | ⟨hecho, -⟩
  · rfl
  · exact absurd (.inl hecho) h

theorem read_write_of_not_arrives (h : ¬ Arrives target addr) (m : Memory) (value : Byte) :
    (m.write target value).read addr = m.read addr := by
  have hne : addr ≠ target := fun he => h (.inl he)
  rw [read_write]
  cases hr : Region.of target with
  | cartridge | unusable => rfl
  | echo =>
    have hne' : addr ≠ echoed target := fun he => h (.inr ⟨hr, he⟩)
    simp [hne, hne']
  | line | plain => simp [hne]

theorem read_write_line (m : Memory) (value : Byte) :
    (m.write Hardware.line value).read Hardware.line = 0 := by
  rw [read_write, show Region.of Hardware.line = .line by decide]
  exact if_pos rfl

/-- An address that neither keeps its byte nor takes another one is the line register. -/
theorem eq_line (hkept : ¬ ReadOnly addr) (htaken : ¬ Takes addr) : addr = Hardware.line := by
  rw [readOnly_iff, UInt16.lt_iff_toNat_lt] at hkept
  rw [takes_iff, UInt16.le_iff_toNat_le] at htaken
  grind

instance (addr : Word) : Decidable (ReadOnly addr) := inferInstanceAs (Decidable (_ ∨ _))

theorem read_write_eq (m : Memory) (target addr : Word) (value : Byte) :
    (m.write target value).read addr =
      if ReadOnly addr ∨ ¬ Arrives target addr then m.read addr
      else if addr = Hardware.line then 0 else value := by
  by_cases hkept : ReadOnly addr
  · simp [hkept, read_write_of_readOnly]
  by_cases ha : Arrives target addr
  · by_cases htakes : Takes target
    · have hne : addr ≠ Hardware.line := (takes_iff.mp (takes_of_arrives htakes ha)).2.2
      simp [hkept, ha, hne, read_write_of_takes htakes]
    · obtain rfl := ha.eq_of_not_takes htakes
      obtain rfl := eq_line hkept htakes
      simp [hkept, ha, read_write_line]
  · simp [ha, read_write_of_not_arrives]

end GameBoy.Memory
