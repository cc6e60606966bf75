import GameBoy.Proofs.Core.Service
import GameBoy.Proofs.Memory.Arrival

/-!
# The stack

Words that are pushed in turn go to the addresses below the stack pointer, two for each, down and
around the end of the address space (`StackWindow`). Popping as many words gives them back, the last
one first, and leaves the processor as it was.

All that is asked of the bus is that a store to an address of this window is read back there and
disturbs no other address of it (`Bus.Apart`). The words do not overlap, so that a later push leaves
the earlier ones alone (`Core.peek_pushAll`), and the induction over the words goes through for any
bus (`Core.popAll_pushAll`).

Main theorem: `Core.lifo_pushAll`. In memory it is enough that the window keeps clear of what drops
stores or clears them, and that it does not contain both an address of the echo and the address that
this one repeats. A flat bus has room for 32768 words everywhere.
-/

namespace GameBoy

/-! ## The window -/

/-- An address among those that some words take below a stack pointer. -/
def StackWindow (sp : Word) (count : Nat) (addr : Word) : Prop := (sp - 1 - addr).toNat < 2 * count

variable {sp addr : Word} {count : Nat}

/-- The first word takes the two addresses right below, and the others go on from there. -/
theorem stackWindow_succ :
    StackWindow sp (count + 1) addr ↔
      addr = sp - 1 ∨ addr = sp - 2 ∨ StackWindow (sp - 2) count addr := by
  simp only [StackWindow, ← UInt16.toNat_inj, UInt16.toNat_sub, UInt16.reduceToNat]
  have := sp.toNat_lt
  have := addr.toNat_lt
  omega

/-- As long as the words fit into the address space, they do not come back to the first one. -/
theorem not_stackWindow_next (h : 2 * (count + 1) ≤ 0x10000)
    (haddr : addr = sp - 1 ∨ addr = sp - 2) : ¬ StackWindow (sp - 2) count addr := by
  simp only [StackWindow, ← UInt16.toNat_inj, UInt16.toNat_sub, UInt16.reduceToNat] at haddr ⊢
  have := sp.toNat_lt
  have := addr.toNat_lt
  omega

theorem stackWindow_of_le (h : 0x10000 ≤ 2 * count) (sp addr : Word) : StackWindow sp count addr :=
  Nat.lt_of_lt_of_le (UInt16.toNat_lt _) h

/-! ## Room on the bus -/

/-- A store to one of some addresses is read back there, and leaves the others of them alone. -/
def Bus.Apart (β : Type) [Bus β] (room : Word → Prop) : Prop :=
  ∀ target addr, room target → room addr → ∀ (value : Byte) (bus : β),
    peek addr (write8 target value bus) = if addr = target then value else peek addr bus

namespace Core

variable {β : Type} [Bus β] {s : Core β} {words : List Word}

/-- The core after some words are pushed in turn. -/
def pushAll (words : List Word) (s : Core β) : Core β := words.foldl (fun s word => s.push word) s

/-- Pop some words in turn. -/
def popAll (count : Nat) (s : Core β) : List Word × Core β :=
  match count with
  | 0 => ([], s)
  | count + 1 =>
    let (word, s) := s.pop
    let (words, s) := s.popAll count
    (word :: words, s)

/-- Pushing and popping some words gives them back, the last one first, and leaves the processor as
it was. On the bus nothing has changed but some addresses. -/
structure Lifo (s : Core β) (words : List Word) (changed : Word → Prop) : Prop where
  reversed : ((s.pushAll words).popAll words.length).1 = words.reverse
  cpu : ((s.pushAll words).popAll words.length).2.cpu = s.cpu
  bus (addr : Word) : ¬ changed addr →
    Bus.peek addr ((s.pushAll words).popAll words.length).2.bus = Bus.peek addr s.bus

/-- The word that was pushed first is popped last. -/
theorem popAll_succ (count : Nat) (s : Core β) :
    s.popAll (count + 1) =
      ((s.popAll count).1 ++ [(s.popAll count).2.pop.1], (s.popAll count).2.pop.2) := by
  induction count generalizing s with
  | zero => rfl
  | succ count ih =>
    show (s.pop.1 :: (s.pop.2.popAll (count + 1)).1, (s.pop.2.popAll (count + 1)).2) = _
    rw [ih]
    rfl

theorem peek_pushAll
    (h : ∀ target, StackWindow s.cpu.registers.sp words.length target → ∀ value (bus : β),
      Bus.peek addr (Bus.write8 target value bus) = Bus.peek addr bus) :
    Bus.peek addr (s.pushAll words).bus = Bus.peek addr s.bus := by
  induction words generalizing s with
  | nil => rfl
  | cons word words ih =>
    have hnext : ∀ target, StackWindow (s.cpu.registers.sp - 2) words.length target → _ :=
      fun target ht => h target (stackWindow_succ.mpr (.inr (.inr ht)))
    refine (ih (s := s.push word) hnext).trans ?_
    have hhigh := h _ (stackWindow_succ.mpr (.inl rfl))
    have hlow := h _ (stackWindow_succ.mpr (.inr (.inl rfl)))
    exact (hlow _ _).trans (hhigh _ _)

/-- The addresses of a word keep what was pushed there, whatever is pushed after it. -/
theorem peek_pushAll_first (word : Word) (hlength : 2 * (words.length + 1) ≤ 0x10000)
    (hroom : Bus.Apart β (StackWindow s.cpu.registers.sp (words.length + 1))) :
    Bus.peek (s.cpu.registers.sp - 1) ((s.push word).pushAll words).bus = Word.hi word ∧
      Bus.peek (s.cpu.registers.sp - 2) ((s.push word).pushAll words).bus = Word.lo word := by
  have hfirst : ∀ addr, addr = s.cpu.registers.sp - 1 ∨ addr = s.cpu.registers.sp - 2 →
      StackWindow s.cpu.registers.sp (words.length + 1) addr := by
    intro addr haddr
    rcases haddr with rfl | rfl <;> simp [stackWindow_succ]
  have hkept : ∀ addr, addr = s.cpu.registers.sp - 1 ∨ addr = s.cpu.registers.sp - 2 →
      Bus.peek addr ((s.push word).pushAll words).bus = Bus.peek addr (s.pushed word) := by
    intro addr haddr
    refine peek_pushAll (s := s.push word) fun target htarget value bus => ?_
    have hne : addr ≠ target := by
      rintro rfl
      exact not_stackWindow_next hlength haddr htarget
    rw [hroom _ _ (stackWindow_succ.mpr (.inr (.inr htarget))) (hfirst addr haddr), if_neg hne]
  have hhigh := hfirst _ (.inl rfl)
  have hlow := hfirst _ (.inr rfl)
  have hne : s.cpu.registers.sp - 1 ≠ s.cpu.registers.sp - 2 := by grind
  rw [hkept _ (.inl rfl), hkept _ (.inr rfl), pushed]
  simp [hroom _ _ hlow hhigh, hroom _ _ hhigh hhigh, hroom _ _ hlow hlow, hne]

variable [QuietBus β]

theorem pop_eq (s : Core β) :
    s.pop = (Word.ofBytes (Bus.peek (s.cpu.registers.sp + 1) s.bus)
        (Bus.peek s.cpu.registers.sp s.bus),
      ⟨{ s.cpu with registers := { s.cpu.registers with sp := s.cpu.registers.sp + 2 } },
        s.bus⟩) := by
  unfold pop Bus.read16
  dsimp only
  rw [QuietBus.read8_snd, QuietBus.read8_snd]
  rfl

theorem pop_of_pushed {word : Word} {bus : β}
    (hhigh : Bus.peek (s.cpu.registers.sp - 1) bus = Word.hi word)
    (hlow : Bus.peek (s.cpu.registers.sp - 2) bus = Word.lo word) :
    (⟨(s.push word).cpu, bus⟩ : Core β).pop = (word, ⟨s.cpu, bus⟩) := by
  have hsp : (s.push word).cpu.registers.sp = s.cpu.registers.sp - 2 := rfl
  have hnext : s.cpu.registers.sp - 2 + 1 = s.cpu.registers.sp - 1 := by grind
  have hback : s.cpu.registers.sp - 2 + 2 = s.cpu.registers.sp := by grind
  rw [pop_eq]
  dsimp only
  rw [hsp, hnext, hback, hhigh, hlow, Word.ofBytes_hi_lo]
  rfl

/-- The words come back in the opposite order, and the processor is as it was. The induction is on
the words: the first one lies above the window of the others, which leave it alone. -/
theorem popAll_pushAll (hlength : 2 * words.length ≤ 0x10000)
    (hroom : Bus.Apart β (StackWindow s.cpu.registers.sp words.length)) :
    (s.pushAll words).popAll words.length = (words.reverse, ⟨s.cpu, (s.pushAll words).bus⟩) := by
  induction words generalizing s with
  | nil => rfl
  | cons word words ih =>
    rw [List.length_cons] at hlength hroom
    have hothers : Bus.Apart β (StackWindow (s.push word).cpu.registers.sp words.length) :=
      fun target addr htarget haddr => hroom target addr
        (stackWindow_succ.mpr (.inr (.inr htarget))) (stackWindow_succ.mpr (.inr (.inr haddr)))
    obtain ⟨hhigh, hlow⟩ := peek_pushAll_first word hlength hroom
    have hpopped := ih (by omega) hothers
    have hlast := pop_of_pushed hhigh hlow
    show ((s.push word).pushAll words).popAll (words.length + 1) = _
    rw [popAll_succ, hpopped, hlast, List.reverse_cons]
    rfl

/-- A window with room for the words is last in, first out. -/
theorem lifo_of_apart {changed : Word → Prop} (hlength : 2 * words.length ≤ 0x10000)
    (hroom : Bus.Apart β (StackWindow s.cpu.registers.sp words.length))
    (hchanged : ∀ addr, ¬ changed addr →
      ∀ target, StackWindow s.cpu.registers.sp words.length target → ∀ (value : Byte) (bus : β),
        Bus.peek addr (Bus.write8 target value bus) = Bus.peek addr bus) :
    s.Lifo words changed := by
  have h := popAll_pushAll hlength hroom
  refine ⟨by rw [h], by rw [h], fun addr haddr => ?_⟩
  rw [h]
  exact peek_pushAll (hchanged addr haddr)

end Core

/-! ## Memory and the flat bus -/

theorem Memory.apart {room : Word → Prop} (htakes : ∀ addr, room addr → Takes addr)
    (hecho : ∀ addr, room addr → 0xE000 ≤ addr → addr ≤ 0xFDFF → ¬ room (addr - 0x2000)) :
    Bus.Apart Memory room := by
  intro target addr htarget haddr value m
  have harrives : Arrives target addr ↔ addr = target := by
    constructor
    · rintro (h | ⟨hr, rfl⟩)
      · exact h
      · obtain ⟨hge, hle⟩ := Region.of_eq_echo_iff.mp hr
        exact absurd haddr (hecho target htarget hge hle)
    · exact .inl
  show (m.write target value).read addr = _
  simp only [read_write_of_takes (htakes target htarget), harrives]
  rfl

theorem AddressSpace.apart (room : Word → Prop) : Bus.Apart AddressSpace room :=
  fun target addr _ _ value space => space.get_set target addr value

namespace Core

/-- **The stack.** Let words be pushed in memory, below a stack pointer where none of the addresses
that they take is in the cartridge window or in the unusable block or is the line register, and
where no two of them are an address of the echo and the address that it repeats. Popping as many
words gives them back, the last one first. The processor is then as it was, stack pointer included,
and nothing has changed in memory outside these addresses and what they repeat. On a flat bus the
same is true of up to 32768 words, wherever the stack pointer is. -/
theorem lifo_pushAll :
    (∀ (s : Core Memory) (words : List Word),
      let window := StackWindow s.cpu.registers.sp words.length
      (∀ addr, window addr →
        ¬ addr < 0x8000 ∧ ¬ (0xFEA0 ≤ addr ∧ addr ≤ 0xFEFE) ∧ addr ≠ 0xFF44) →
      (∀ addr, window addr → 0xE000 ≤ addr → addr ≤ 0xFDFF → ¬ window (addr - 0x2000)) →
      s.Lifo words fun addr => window addr ∨
        ∃ echo, window echo ∧ 0xE000 ≤ echo ∧ echo ≤ 0xFDFF ∧ addr = echo - 0x2000) ∧
    ∀ (s : Core AddressSpace) (words : List Word), words.length ≤ 32768 →
      s.Lifo words (StackWindow s.cpu.registers.sp words.length) := by
  constructor
  · intro s words window hclear hecho
    have htakes : ∀ addr, window addr → Memory.Takes addr := by
      intro addr haddr
      obtain ⟨hlow, husable, hline⟩ := hclear addr haddr
      exact Memory.takes_iff.mpr ⟨UInt16.not_lt.mp hlow, husable, hline⟩
    have hlength : 2 * words.length ≤ 0x10000 := by
      refine Nat.le_of_not_lt fun hlong => ?_
      exact (hclear 0 (stackWindow_of_le (Nat.le_of_lt hlong) _ _)).1 (by decide)
    refine lifo_of_apart hlength (Memory.apart htakes hecho) ?_
    intro addr haddr target htarget value m
    refine Memory.read_write_of_not_arrives ?_ m value
    rintro (rfl | ⟨hr, rfl⟩)
    · exact haddr (.inl htarget)
    · obtain ⟨hge, hle⟩ := Region.of_eq_echo_iff.mp hr
      exact haddr (.inr ⟨target, htarget, hge, hle, rfl⟩)
  · intro s words hlength
    refine lifo_of_apart (by omega) (AddressSpace.apart _) ?_
    intro addr haddr target htarget value space
    refine space.get_set_of_ne value ?_
    rintro rfl
    exact haddr htarget

/-- Two words across the start of the echo, and three around the end of the flat address space. -/
theorem lifo_pushAll_across_echo :
    (let window := StackWindow 0xE002 2;
      (∀ addr, window addr →
          ¬ addr < 0x8000 ∧ ¬ (0xFEA0 ≤ addr ∧ addr ≤ 0xFEFE) ∧ addr ≠ 0xFF44) ∧
        (∀ addr, window addr → 0xE000 ≤ addr → addr ≤ 0xFDFF → ¬ window (addr - 0x2000)) ∧
        ∃ s : Core Memory, s.cpu.registers.sp = 0xE002 ∧
          ((s.pushAll [0x1234, 0x5678]).popAll 2).1 = [0x5678, 0x1234]) ∧
    ∃ s : Core AddressSpace, s.cpu.registers.sp = 0x0001 ∧
      ((s.pushAll [0x1234, 0x5678, 0x9ABC]).popAll 3).1 = [0x9ABC, 0x5678, 0x1234] := by
  have hwindow : ∀ addr, StackWindow 0xE002 2 addr ↔
      addr = 0xE001 ∨ addr = 0xE000 ∨ addr = 0xDFFF ∨ addr = 0xDFFE := by
    intro addr
    show StackWindow 0xE002 (0 + 1 + 1) addr ↔ _
    simp only [stackWindow_succ]
    simp [StackWindow]
  have hclear : ∀ addr, StackWindow 0xE002 2 addr →
      ¬ addr < 0x8000 ∧ ¬ (0xFEA0 ≤ addr ∧ addr ≤ 0xFEFE) ∧ addr ≠ 0xFF44 := by
    intro addr haddr
    rcases (hwindow addr).mp haddr with rfl | rfl | rfl | rfl <;> decide
  have hecho : ∀ addr, StackWindow 0xE002 2 addr → 0xE000 ≤ addr → addr ≤ 0xFDFF →
      ¬ StackWindow 0xE002 2 (addr - 0x2000) := by
    intro addr haddr _ _
    rw [hwindow]
    rcases (hwindow addr).mp haddr with rfl | rfl | rfl | rfl <;> decide
  constructor
  · have hmemory := lifo_pushAll.1 ⟨{ registers := { sp := 0xE002 } }, .powerOn⟩ [0x1234, 0x5678]
      hclear hecho
    exact ⟨hclear, hecho, _, rfl, hmemory.reversed⟩
  · have hflat := lifo_pushAll.2 ⟨{ registers := { sp := 0x0001 } }, .zero⟩
      [0x1234, 0x5678, 0x9ABC] (by decide)
    exact ⟨_, rfl, hflat.reversed⟩

end Core

end GameBoy
