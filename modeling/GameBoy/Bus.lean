import GameBoy.Word

/-!
# The bus

The processor reaches memory one byte at a time through a `Bus`. A read may change what is behind
the bus, so it returns the bus as well as the byte.

A 16-bit access is two byte accesses, the low byte first, and its second address wraps around at
the end of the address space (`Bus.read16`, `Bus.write16`).

`Traced` puts a recorder in front of any bus. It answers what the bus behind it answers and keeps
the list of byte accesses, so what an instruction does on the bus can be looked at.
-/

namespace GameBoy

/-- Byte-wise access to an address space. -/
class Bus (β : Type) where
  /-- The byte at an address, and the bus after the access. -/
  read8 : Word → β → Byte × β
  /-- The bus after a byte is stored at an address. -/
  write8 : Word → Byte → β → β

namespace Bus

variable {β : Type} [Bus β]

/-- The word at an address, its low byte first. -/
def read16 (addr : Word) (bus : β) : Word × β :=
  let (lo, bus) := read8 addr bus
  let (hi, bus) := read8 (addr + 1) bus
  (Word.ofBytes hi lo, bus)

/-- Store a word at an address, its low byte first. -/
def write16 (addr : Word) (value : Word) (bus : β) : β :=
  write8 (addr + 1) (Word.hi value) (write8 addr (Word.lo value) bus)

end Bus

/-! ## Recording accesses -/

/-- One byte access. -/
inductive Access where
  | read (addr : Word) (value : Byte)
  | write (addr : Word) (value : Byte)
  deriving DecidableEq, Repr

/-- A bus together with the accesses made through it, the oldest first. -/
structure Traced (β : Type) where
  bus : β
  accesses : Array Access := #[]

instance {β : Type} [Bus β] : Bus (Traced β) where
  read8 addr traced :=
    let (value, bus) := Bus.read8 addr traced.bus
    (value, ⟨bus, traced.accesses.push (.read addr value)⟩)
  write8 addr value traced :=
    ⟨Bus.write8 addr value traced.bus, traced.accesses.push (.write addr value)⟩

end GameBoy
