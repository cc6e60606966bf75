import GameBoy.Proofs.Memory.Arrival

/-!
# The last write

Whatever is written to a memory, and in whatever order, an address then holds the last byte that
arrived there, unless it drops what is written or is the line register. Two addresses share a
history in one place only: what is written to the echo arrives in the memory that it echoes as well,
and not the other way round.

A word is two bytes, and each of them is a write of its own (`Memory.Store.bytes`). So words need no
rule of their own where they straddle the end of a region, or that of the address space.

Main theorem: `Memory.read_storeAll`.
-/

namespace GameBoy

namespace Memory

/-! ## Histories of writes -/

/-- The byte of the last write to an address with some property, if there was one. -/
def lastTo? (hits : Word → Bool) (writes : List (Word × Byte)) : Option Byte :=
  (writes.reverse.find? fun write => hits write.1).map Prod.snd

theorem lastTo?_cons (hits : Word → Bool) (target : Word) (value : Byte)
    (writes : List (Word × Byte)) :
    lastTo? hits ((target, value) :: writes) =
      (lastTo? hits writes).or (if hits target then some value else none) := by
  simp only [lastTo?, List.reverse_cons, List.find?_append, Option.map_or, List.find?_singleton]
  split <;> rfl

/-- The memory after some bytes are written. -/
def writeAll (m : Memory) (writes : List (Word × Byte)) : Memory :=
  writes.foldl (fun m write => m.write write.1 write.2) m

theorem read_writeAll_of_readOnly {addr : Word} (h : ReadOnly addr) (m : Memory)
    (writes : List (Word × Byte)) : (m.writeAll writes).read addr = m.read addr := by
  induction writes generalizing m with
  | nil => rfl
  | cons write writes ih => exact (ih _).trans (read_write_of_readOnly h m write.1 write.2)

theorem read_writeAll_line (m : Memory) (writes : List (Word × Byte)) :
    (m.writeAll writes).read Hardware.line =
      if writes.any (·.1 == Hardware.line) then 0 else m.read Hardware.line := by
  induction writes generalizing m with
  | nil => rfl
  | cons write writes ih =>
    obtain ⟨target, value⟩ := write
    show ((m.write target value).writeAll writes).read Hardware.line = _
    rw [ih, List.any_cons]
    by_cases h : target = Hardware.line
    · subst h
      simp [read_write_line]
    · have hne : (target == Hardware.line) = false := beq_eq_false_iff_ne.mpr h
      rw [hne, Bool.false_or, read_write_of_not_arrives (not_arrives_of_high (by decide) h)]

/-- Any other address holds the last byte that arrived there. -/
theorem read_writeAll {addr : Word} (hkept : ¬ ReadOnly addr) (hline : addr ≠ Hardware.line)
    (m : Memory) (writes : List (Word × Byte)) :
    (m.writeAll writes).read addr = (lastTo? (Arrives · addr) writes).getD (m.read addr) := by
  induction writes generalizing m with
  | nil => rfl
  | cons write writes ih =>
    obtain ⟨target, value⟩ := write
    show ((m.write target value).writeAll writes).read addr = _
    rw [ih, lastTo?_cons, read_write_eq]
    by_cases ha : Arrives target addr <;> cases lastTo? (Arrives · addr) writes <;>
      simp [hkept, hline, ha]

/-! ## Bytes and words -/

/-- A call that stores a byte, or a word. -/
inductive Store where
  | byte (addr : Word) (value : Byte)
  | word (addr : Word) (value : Word)

/-- The bytes that a call writes: of a word the low byte, and then the high byte behind it. -/
def Store.bytes : Store → List (Word × Byte)
  | byte addr value => [(addr, value)]
  | word addr value => [(addr, Word.lo value), (addr + 1, Word.hi value)]

/-- The memory after a call. -/
def store (m : Memory) : Store → Memory
  | .byte addr value => m.write addr value
  | .word addr value => m.write16 addr value

/-- The memory after some calls. -/
def storeAll (m : Memory) (stores : List Store) : Memory := stores.foldl store m

theorem storeAll_eq (m : Memory) (stores : List Store) :
    m.storeAll stores = m.writeAll (stores.flatMap Store.bytes) := by
  have hstore : ∀ (m : Memory) (call : Store), m.store call = m.writeAll call.bytes := by
    intro m call
    cases call <;> rfl
  induction stores generalizing m with
  | nil => rfl
  | cons call stores ih =>
    show (m.store call).storeAll stores = _
    rw [ih, hstore, List.flatMap_cons]
    exact List.foldl_append.symm

theorem toNat_read16 (m : Memory) (addr : Word) :
    (m.read16 addr).toNat = (m.read addr).toNat + 256 * (m.read (addr + 1)).toNat := by
  rw [read16, Word.toNat_ofBytes, Nat.add_comm]

/-- **The last write.** After any calls that store bytes and words, an address of the cartridge
window or of the unusable block holds what it held before. A work-RAM address below the end of what
is echoed holds the last byte written to it or to its echo, and any other address the last byte
written to it, except that the line register is zero once it was written to. Where no such byte was
written, an address holds what it held before.

A word is read as the byte at its address and, in the upper half, the byte at the next one; and
reading and storing words is the same through the bus. -/
theorem read_storeAll (m : Memory) (stores : List Store) :
    (∀ addr : Word,
      let writes := stores.flatMap Store.bytes
      (m.storeAll stores).read addr =
        if addr < 0x8000 ∨ 0xFEA0 ≤ addr ∧ addr ≤ 0xFEFE then m.read addr
        else if 0xC000 ≤ addr ∧ addr ≤ 0xDDFF then
          (lastTo? (fun target => target == addr || target == addr + 0x2000) writes).getD
            (m.read addr)
        else if addr = 0xFF44 then
          if writes.any (·.1 == addr) then 0 else m.read addr
        else (lastTo? (· == addr) writes).getD (m.read addr)) ∧
    ∀ addr value : Word,
      (m.read16 addr).toNat = (m.read addr).toNat + 256 * (m.read (addr + 1)).toNat ∧
        Bus.read16 addr m = (m.read16 addr, m) ∧
        Bus.write16 addr value m = m.write16 addr value := by
  refine ⟨fun addr => ?_, fun addr value => ⟨m.toNat_read16 addr, rfl, rfl⟩⟩
  intro writes
  rw [storeAll_eq]
  by_cases hkept : ReadOnly addr
  · rw [if_pos (readOnly_iff.mp hkept), read_writeAll_of_readOnly hkept]
  rw [if_neg (mt readOnly_iff.mpr hkept)]
  by_cases hechoed : 0xC000 ≤ addr ∧ addr ≤ 0xDDFF
  · have hline : addr ≠ Hardware.line := by
      rintro rfl
      exact absurd hechoed.2 (by decide)
    have hhits : (fun target => decide (Arrives target addr)) =
        fun target => target == addr || target == addr + 0x2000 := by
      funext target
      rw [Bool.eq_iff_iff]
      simp [arrives_iff, hechoed]
    rw [if_pos hechoed, read_writeAll hkept hline, hhits]
  · have hhits : (fun target => decide (Arrives target addr)) = (· == addr) := by
      funext target
      rw [Bool.eq_iff_iff]
      simp [arrives_iff, hechoed]
    rw [if_neg hechoed]
    by_cases hline : addr = 0xFF44
    · rw [if_pos hline, hline]
      exact m.read_writeAll_line writes
    · rw [if_neg hline, read_writeAll hkept hline, hhits]

end Memory

end GameBoy
