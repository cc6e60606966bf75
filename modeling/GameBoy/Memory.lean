import GameBoy.AddressSpace
import GameBoy.Fault
import GameBoy.Hardware

/-!
# Memory

The address space as the processor sees it. Reads are plain everywhere; a write follows the rule of
the region it falls into (`Region`):

* the cartridge window `0x0000` to `0x7FFF` and the block `0xFEA0` to `0xFEFE` drop it;
* the echo `0xE000` to `0xFDFF` stores it, and stores it again `0x2000` below, in the memory it
  echoes;
* the line register becomes zero, whatever is written;
* everything else stores it.

The hardware updates its own registers with `Memory.poke`, which knows no regions, and a program
image enters the cartridge window through `Memory.load`.
-/

namespace GameBoy

/-! ## Regions -/

/-- How an address takes a write. -/
inductive Region where
  | cartridge
  | echo
  | unusable
  | line
  | plain
  deriving DecidableEq, Repr

/-- The region an address lies in. -/
def Region.of (addr : Word) : Region :=
  if addr < 0x8000 then cartridge
  else if 0xE000 ≤ addr && addr ≤ 0xFDFF then echo
  else if 0xFEA0 ≤ addr && addr ≤ 0xFEFE then unusable
  else if addr == Hardware.line then line
  else plain

/-- The address that an address of the echo repeats. -/
def echoed (addr : Word) : Word := addr - 0x2000

namespace Region

theorem of_eq (addr : Word) :
    Region.of addr =
      if addr.toNat < 0x8000 then cartridge
      else if 0xE000 ≤ addr.toNat ∧ addr.toNat ≤ 0xFDFF then echo
      else if 0xFEA0 ≤ addr.toNat ∧ addr.toNat ≤ 0xFEFE then unusable
      else if addr.toNat = 0xFF44 then line
      else plain := by
  simp only [Region.of, Hardware.line, UInt16.lt_iff_toNat_lt, UInt16.le_iff_toNat_le,
    Bool.and_eq_true, decide_eq_true_eq, beq_iff_eq, ← UInt16.toNat_inj, UInt16.reduceToNat]

theorem of_eq_echo_iff {addr : Word} :
    Region.of addr = .echo ↔ 0xE000 ≤ addr.toNat ∧ addr.toNat ≤ 0xFDFF := by
  rw [of_eq]
  grind

theorem of_eq_unusable_iff {addr : Word} :
    Region.of addr = .unusable ↔ 0xFEA0 ≤ addr.toNat ∧ addr.toNat ≤ 0xFEFE := by
  rw [of_eq]
  grind

end Region

theorem toNat_echoed {addr : Word} (h : Region.of addr = .echo) :
    (echoed addr).toNat = addr.toNat - 0x2000 := by
  have := Region.of_eq_echo_iff.mp h
  simp only [echoed, UInt16.toNat_sub, UInt16.reduceToNat]
  omega

/-- An echo repeats plain memory. -/
theorem Region.of_echoed {addr : Word} (h : Region.of addr = .echo) :
    Region.of (echoed addr) = .plain := by
  have := of_eq_echo_iff.mp h
  rw [of_eq, toNat_echoed h, if_neg (by omega), if_neg (by omega), if_neg (by omega),
    if_neg (by omega)]

/-! ## The memory -/

/-- An address space with the write rules of its regions. -/
structure Memory where
  space : AddressSpace

namespace Memory

def read (m : Memory) (addr : Word) : Byte := m.space.get addr

/-- Store a byte without regard to regions, as the hardware does. -/
def poke (m : Memory) (addr : Word) (value : Byte) : Memory := ⟨m.space.set addr value⟩

/-- Write a byte by the rule of its region. -/
def write (m : Memory) (addr : Word) (value : Byte) : Memory :=
  match Region.of addr with
  | .cartridge => m
  | .echo => (m.poke addr value).poke (echoed addr) value
  | .unusable => m
  | .line => m.poke addr 0
  | .plain => m.poke addr value

@[simp] theorem read_mk (space : AddressSpace) (addr : Word) :
    read ⟨space⟩ addr = space.get addr := rfl

theorem read_poke (m : Memory) (addr other : Word) (value : Byte) :
    (m.poke addr value).read other = if other = addr then value else m.read other :=
  AddressSpace.get_set m.space addr other value

@[simp] theorem read_poke_self (m : Memory) (addr : Word) (value : Byte) :
    (m.poke addr value).read addr = value := by
  simp [read_poke]

/-- What a write by the rules does to each address. -/
theorem read_write (m : Memory) (addr other : Word) (value : Byte) :
    (m.write addr value).read other =
      match Region.of addr with
      | .cartridge | .unusable => m.read other
      | .echo => if other = addr ∨ other = echoed addr then value else m.read other
      | .line => if other = addr then 0 else m.read other
      | .plain => if other = addr then value else m.read other := by
  unfold write
  cases Region.of addr with
  | cartridge => rfl
  | echo => simp only [read_poke]; grind
  | unusable => rfl
  | line => simp only [read_poke]
  | plain => simp only [read_poke]

theorem read_write_of_plain {addr : Word} (h : Region.of addr = .plain) (m : Memory)
    (other : Word) (value : Byte) :
    (m.write addr value).read other = if other = addr then value else m.read other := by
  rw [read_write, h]

/-- The word at an address, its low byte first. The address behind the last one is the first. -/
def read16 (m : Memory) (addr : Word) : Word := Word.ofBytes (m.read (addr + 1)) (m.read addr)

/-- Write a word, its low byte first, and each byte by the rule of its region. -/
def write16 (m : Memory) (addr : Word) (value : Word) : Memory :=
  (m.write addr (Word.lo value)).write (addr + 1) (Word.hi value)

@[ext] theorem ext {m n : Memory} (h : ∀ addr, m.read addr = n.read addr) : m = n := by
  obtain ⟨s⟩ := m
  obtain ⟨t⟩ := n
  exact congrArg Memory.mk (AddressSpace.ext h)

instance : Bus Memory where
  read8 addr m := (m.read addr, m)
  write8 addr value m := m.write addr value

/-! ## Power-on -/

/-- The hardware registers that are not zero at power-on. -/
def powerOnHardware : List (Word × Byte) :=
  [(Hardware.joypad, 0xCF), (0xFF02, 0x7E), (0xFF04, 0xAB), (0xFF07, 0xF8),
    (Hardware.interruptFlags, 0x01),
    (0xFF10, 0x80), (0xFF11, 0xBF), (0xFF12, 0xF3), (0xFF13, 0xFF), (0xFF14, 0xBF),
    (0xFF16, 0x3F), (0xFF18, 0xFF), (0xFF19, 0xBF), (0xFF1A, 0x7F), (0xFF1B, 0xFF),
    (0xFF1C, 0x9F), (0xFF1D, 0xFF), (0xFF1E, 0xBF), (0xFF20, 0xFF), (0xFF23, 0xBF),
    (0xFF24, 0x77), (0xFF25, 0xF3), (0xFF26, 0xF1),
    (Hardware.lcdControl, 0x91), (Hardware.lcdStatus, 0x85), (0xFF46, 0xFF),
    (Hardware.backgroundPalette, 0xFC)]

/-- The memory in which the boot program hands over control: zero but for the hardware
registers. -/
def powerOn : Memory :=
  powerOnHardware.foldl (fun m entry => m.poke entry.1 entry.2) ⟨AddressSpace.zero⟩

/-! ## Loading a program -/

def windowSize : Nat := 0x8000

/-- The number of bytes of an image that fit into a window, itself cut to the cartridge window. -/
def mappedLength (image : Array Byte) (window : Nat) : Nat :=
  min image.size (min window windowSize)

/-- Replace the first `count` bytes by those of an image. -/
def overlay (m : Memory) (image : Array Byte) (count : Nat) : Memory :=
  ⟨AddressSpace.ofFn fun addr =>
    if addr.toNat < count then image.getD addr.toNat 0 else m.read addr⟩

/-- Copy an image to the start of the cartridge window, and give the number of bytes copied. What
lies behind them stays. An empty image is refused. -/
def load (m : Memory) (image : Array Byte) (window : Nat) : Except Fault (Nat × Memory) :=
  if image.isEmpty then .error .emptyProgram
  else
    let count := mappedLength image window
    .ok (count, m.overlay image count)

theorem read_overlay (m : Memory) (image : Array Byte) (count : Nat) (addr : Word) :
    (m.overlay image count).read addr =
      if addr.toNat < count then image.getD addr.toNat 0 else m.read addr := by
  simp [overlay]

/-! ## Summary text -/

/-- A one-line summary of the display and interrupt registers. -/
def summary (m : Memory) : String :=
  "Memory \x7b LCDC: " ++ toString (m.read Hardware.lcdControl).toNat ++
    ", STAT: " ++ toString (m.read Hardware.lcdStatus).toNat ++
    ", LY: " ++ toString (m.read Hardware.line).toNat ++
    ", IF: " ++ toString (m.read Hardware.interruptFlags).toNat ++
    ", IE: " ++ toString (m.read Hardware.interruptEnable).toNat ++ ", .. \x7d"

end Memory

end GameBoy
