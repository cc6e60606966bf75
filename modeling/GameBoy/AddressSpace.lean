import GameBoy.Bus

/-!
# The address space

All 65536 bytes, one for every word. An `AddressSpace` is a bus without rules of its own: a read
gives the byte last stored, and a store changes one byte.

`AddressSpace.get_set`, `AddressSpace.get_ofFn` and `AddressSpace.ext` characterise it as a function
from words to bytes that can be updated at a point; nothing else about its representation matters.
-/

namespace GameBoy

/-- The bytes at all addresses. -/
structure AddressSpace where
  bytes : Vector Byte 0x10000

namespace AddressSpace

/-- The byte at an address. -/
def get (space : AddressSpace) (addr : Word) : Byte :=
  space.bytes.get ⟨addr.toNat, addr.toNat_lt⟩

/-- Store a byte at an address. -/
def set (space : AddressSpace) (addr : Word) (value : Byte) : AddressSpace :=
  ⟨space.bytes.set addr.toNat value addr.toNat_lt⟩

/-- The address space whose bytes are given by a function. -/
def ofFn (f : Word → Byte) : AddressSpace := ⟨Vector.ofFn fun i => f (UInt16.ofNat i.val)⟩

def zero : AddressSpace := ⟨Vector.replicate 0x10000 0⟩

theorem get_eq_getElem (space : AddressSpace) (addr : Word) (h : addr.toNat < 0x10000) :
    space.get addr = space.bytes[addr.toNat] := rfl

theorem get_set (space : AddressSpace) (addr other : Word) (value : Byte) :
    (space.set addr value).get other = if other = addr then value else space.get other := by
  have ha := addr.toNat_lt
  have ho := other.toNat_lt
  rw [get_eq_getElem _ _ ho, get_eq_getElem _ _ ho]
  simp only [set, Vector.getElem_set]
  by_cases h : other = addr
  · simp [h]
  · have h' : ¬ addr.toNat = other.toNat := fun e => h (UInt16.toNat_inj.mp e.symm)
    simp [h, h']

@[simp] theorem get_set_self (space : AddressSpace) (addr : Word) (value : Byte) :
    (space.set addr value).get addr = value := by
  simp [get_set]

theorem get_set_of_ne (space : AddressSpace) {addr other : Word} (value : Byte)
    (h : other ≠ addr) : (space.set addr value).get other = space.get other := by
  simp [get_set, h]

@[simp] theorem get_ofFn (f : Word → Byte) (addr : Word) : (ofFn f).get addr = f addr := by
  rw [get_eq_getElem _ _ addr.toNat_lt]
  simp [ofFn]

@[simp] theorem get_zero (addr : Word) : zero.get addr = 0 := by
  rw [get_eq_getElem _ _ addr.toNat_lt]
  simp [zero]

@[ext] theorem ext {s t : AddressSpace} (h : ∀ addr, s.get addr = t.get addr) : s = t := by
  obtain ⟨s⟩ := s
  obtain ⟨t⟩ := t
  congr 1
  apply Vector.ext
  intro i hi
  have key := h (UInt16.ofNat i)
  have hi' : (UInt16.ofNat i).toNat = i := UInt16.toNat_ofNat_of_lt' hi
  rw [get_eq_getElem _ _ (UInt16.toNat_lt _), get_eq_getElem _ _ (UInt16.toNat_lt _)] at key
  simpa only [hi'] using key

instance : Bus AddressSpace where
  read8 addr space := (space.get addr, space)
  write8 addr value space := space.set addr value

end AddressSpace

end GameBoy
