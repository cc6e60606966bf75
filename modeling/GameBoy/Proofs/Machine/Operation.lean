import GameBoy.Proofs.Lcd.Accounting
import GameBoy.Proofs.Machine.Loop

/-!
# The machines that can be reached

The holder of a machine can load programs, run it, reset it, write to its memory and replace its
processor (`Machine.Operation`), in any order and from power-on with any settings and renderer.
`Machine.Reachable` is every machine that comes out.

Besides the processor, the joypad and the display write to the memory, some of it through the rules
of its regions and some past them. What all of them keep (`Machine.Kept`) is kept by every operation
that maps no program. An operation that maps one changes the cartridge window only, but for the
power-on that comes first in a reset; so what holds at power-on as well and does not depend on the
program (`Machine.Standing`) holds of every machine. The unusable block, which is zero, is the first
case (`Reachable.unusableClear`).
-/

namespace GameBoy

/-! ## Bytes that no operation stores -/

namespace Memory

theorem read_foldl_poke (entries : List (Word × Byte)) (m : Memory) (addr : Word) :
    (entries.foldl (fun m entry => m.poke entry.1 entry.2) m).read addr =
      (entries.reverse.lookup addr).getD (m.read addr) := by
  induction entries generalizing m with
  | nil => rfl
  | cons entry entries ih =>
    obtain ⟨target, value⟩ := entry
    rw [List.foldl_cons, ih, List.reverse_cons, List.lookup_append, read_poke]
    cases entries.reverse.lookup addr with
    | some last => rfl
    | none =>
      by_cases h : addr = target
      · simp [h]
      · simp [List.lookup_cons, h, beq_eq_false_iff_ne.mpr h]

/-- At power-on an address holds what the table of the hardware registers says, and zero if it says
nothing. -/
theorem read_powerOn (addr : Word) :
    powerOn.read addr = (powerOnHardware.reverse.lookup addr).getD 0 := by
  rw [powerOn, read_foldl_poke, read_mk, AddressSpace.get_zero]

theorem read_powerOn_of_lt {addr : Word} (h : addr.toNat < 0xFF00) : powerOn.read addr = 0 := by
  have hhigh : powerOnHardware.all (fun entry => Nat.ble 0xFF00 entry.1.toNat) = true := by decide
  have hnone : powerOnHardware.reverse.lookup addr = none := by
    refine List.lookup_eq_none_iff.mpr fun entry hentry => bne_iff_ne.mpr ?_
    rintro rfl
    have hle := Nat.le_of_ble_eq_true
      (List.all_eq_true.mp hhigh entry (List.mem_reverse.mp hentry))
    omega
  rw [read_powerOn, hnone]
  rfl

theorem read_powerOn_of_unusable {addr : Word} (h : Region.of addr = .unusable) :
    powerOn.read addr = 0 := by
  have := Region.of_eq_unusable_iff.mp h
  exact read_powerOn_of_lt (by omega)

theorem mappedLength_le (image : Array Byte) (window : Nat) :
    mappedLength image window ≤ windowSize := by
  unfold mappedLength
  omega

/-- An image stays within the cartridge window. -/
theorem read_overlay_of_le {addr : Word} (h : windowSize ≤ addr.toNat) (m : Memory)
    (image : Array Byte) (window : Nat) :
    (m.overlay image (mappedLength image window)).read addr = m.read addr := by
  have hle := mappedLength_le image window
  rw [read_overlay, if_neg (by omega)]

theorem read_load_of_le {addr : Word} (h : windowSize ≤ addr.toNat) {m m' : Memory}
    {image : Array Byte} {window count : Nat} (hl : m.load image window = .ok (count, m')) :
    m'.read addr = m.read addr := by
  unfold load at hl
  split at hl
  · cases hl
  · obtain ⟨-, rfl⟩ := Prod.mk.inj (Except.ok.inj hl)
    exact read_overlay_of_le h m image window

theorem windowSize_le_of_unusable {addr : Word} (h : Region.of addr = .unusable) :
    windowSize ≤ addr.toNat := by
  have := (Region.of_eq_unusable_iff.mp h).1
  unfold windowSize
  omega

end Memory

namespace Machine

variable {ρ : Type} {m : Machine ρ} {input : JoypadInput}

/-! ## Loading -/

theorem config_load (image : Array Byte) (m : Machine ρ) :
    (m.load image).state.config = m.config := by
  unfold load
  split <;> rfl

theorem load_of_empty {image : Array Byte} (h : image.isEmpty = true) (m : Machine ρ) :
    m.load image = ⟨.error .emptyProgram, m, #[]⟩ := by
  unfold load Memory.load
  rw [h]
  rfl

theorem load_of_nonempty {image : Array Byte} (h : image.isEmpty = false) (m : Machine ρ) :
    m.load image =
      ⟨.ok (),
        { m with
          core := ⟨m.cpu, m.memory.overlay image (Memory.mappedLength image m.config.window)⟩
          program := image },
        loadEvents image (Memory.mappedLength image m.config.window) m.config.window⟩ := by
  unfold load Memory.load
  rw [h]
  rfl

/-! ## Operations -/

/-- What the holder of a machine can do to it. -/
inductive Operation where
  | load (image : Array Byte)
  | step (input : JoypadInput) (budget : UInt32)
  | stepFrame (input : JoypadInput)
  | reset
  | write (addr : Word) (value : Byte)
  | write16 (addr : Word) (value : Word)
  /-- Copy an image into the memory, without the machine remembering it. -/
  | map (image : Array Byte) (window : Nat)
  | setCpu (cpu : Cpu)

variable [LineRenderer ρ]

/-- The machine after an operation, whether it succeeds or not. -/
def perform (m : Machine ρ) : Operation → Machine ρ
  | .load image => (m.load image).state
  | .step input budget => (m.step input budget).state
  | .stepFrame input => (m.stepFrame input).state
  | .reset => m.reset
  | .write addr value => m.mapMemory (·.write addr value)
  | .write16 addr value => m.mapMemory (Bus.write16 addr value)
  | .map image window =>
    match m.memory.load image window with
    | .error _ => m
    | .ok (_, memory) => m.mapMemory fun _ => memory
  | .setCpu cpu => m.mapCpu fun _ => cpu

/-- The machine after some operations. -/
def performAll (m : Machine ρ) : List Operation → Machine ρ
  | [] => m
  | op :: ops => (m.perform op).performAll ops

/-- What an operation gives back, next to the machine: the cycles that a step retired, or the number
of bytes mapped. Loading reports on the program as well, and a step on what it did. -/
def operate (m : Machine ρ) : Operation → Outcome (Machine ρ) (Option Nat)
  | .load image => (m.load image).map fun _ => none
  | .step input budget => (m.step input budget).map some
  | .stepFrame input => (m.stepFrame input).map some
  | .reset => .ok none m.reset
  | .write addr value => .ok none (m.mapMemory (·.write addr value))
  | .write16 addr value => .ok none (m.mapMemory (Bus.write16 addr value))
  | .map image window =>
    match m.memory.load image window with
    | .error fault => ⟨.error fault, m, #[]⟩
    | .ok (count, memory) => .ok (some count) (m.mapMemory fun _ => memory)
  | .setCpu cpu => .ok none (m.mapCpu fun _ => cpu)

theorem state_operate (m : Machine ρ) (op : Operation) : (m.operate op).state = m.perform op := by
  cases op with
  | map image window => simp only [operate, perform]; split <;> rfl
  | _ => rfl

/-- The machines that operations lead to from power-on. -/
inductive Reachable : Machine ρ → Prop
  | create (config : Config) (renderer : ρ) : Reachable (create config renderer)
  | perform {m : Machine ρ} (op : Operation) : Reachable m → Reachable (m.perform op)

theorem Reachable.performAll (h : Reachable m) (ops : List Operation) :
    Reachable (m.performAll ops) := by
  induction ops generalizing m with
  | nil => exact h
  | cons op ops ih => exact ih (.perform op h)

/-! ## Operations that map a program -/

/-- The timer and the memory of a machine. -/
def display (m : Machine ρ) : Display := ⟨m.timer, m.memory⟩

/-- The operations that copy a program into the memory. -/
def Operation.MapsProgram : Operation → Prop
  | .load _ | .map _ _ | .reset => True
  | _ => False

/-- An operation that maps a program starts from the machine or from power-on, and changes nothing
behind the cartridge window. -/
theorem display_of_mapsProgram {op : Operation} (h : op.MapsProgram) (m : Machine ρ) :
    ∃ d : Display, (d = m.display ∨ d = ⟨{}, .powerOn⟩) ∧ (m.perform op).timer = d.timer ∧
      ∀ addr : Word, Memory.windowSize ≤ addr.toNat →
        (m.perform op).memory.read addr = d.memory.read addr := by
  cases op with
  | step | stepFrame | write | write16 | setCpu => exact h.elim
  | load image =>
    refine ⟨_, .inl rfl, ?_⟩
    simp only [perform, load]
    split
    · exact ⟨rfl, fun _ _ => rfl⟩
    · rename_i hl
      exact ⟨rfl, fun addr ha => Memory.read_load_of_le ha hl⟩
  | map image window =>
    refine ⟨_, .inl rfl, ?_⟩
    simp only [perform]
    split
    · exact ⟨rfl, fun _ _ => rfl⟩
    · rename_i hl
      exact ⟨rfl, fun addr ha => Memory.read_load_of_le ha hl⟩
  | reset =>
    refine ⟨_, .inr rfl, rfl, fun addr ha => ?_⟩
    show (if m.program.isEmpty then Memory.powerOn else _ : Memory).read addr = _
    split
    · rfl
    · exact Memory.read_overlay_of_le ha _ _ _

/-! ## What operations keep -/

/-- A property of the timer and the memory that latches, iterations and stores keep. -/
structure Kept (ρ : Type) [LineRenderer ρ] (I : Display → Prop) : Prop where
  latch (m : Machine ρ) (input : JoypadInput) : I m.display → I (m.latch input).display
  iterate (m : Machine ρ) (input : JoypadInput) :
    I m.display → I (m.iterate input).state.display
  write (d : Display) (addr : Word) (value : Byte) : I d → I (d.act (.write addr value))

/-- A property that, in addition, holds at power-on and does not depend on the program. -/
structure Standing (ρ : Type) [LineRenderer ρ] (I : Display → Prop) : Prop extends Kept ρ I where
  powerOn : I ⟨{}, .powerOn⟩
  congr {d d' : Display} (htimer : d'.timer = d.timer)
    (hread : ∀ addr : Word, Memory.windowSize ≤ addr.toNat →
      d'.memory.read addr = d.memory.read addr) : I d → I d'

theorem unusableClear_run (hm : m.UnusableClear) (input : JoypadInput) (budget : UInt32) :
    (m.run input budget).state.UnusableClear :=
  (loop_run hm input budget).unusableClear (unusableClear_latch hm input)

/-- A step leaves the display of its run, or of the machine if a fault stopped it before. -/
theorem display_step_cases (m : Machine ρ) (input : JoypadInput) (budget : UInt32) :
    (m.step input budget).state.display = m.display ∨
      (m.step input budget).state.display = (m.run input budget).state.display := by
  cases hf : m.fault with
  | some fault =>
    rw [step_of_fault hf]
    exact .inl rfl
  | none =>
    refine .inr ?_
    cases hr : (m.run input budget).result with
    | error fault => rw [step_of_error hf hr]; rfl
    | ok retired => rw [step_of_ok hf hr]

namespace Kept

variable {I : Display → Prop}

theorem run (hI : Kept ρ I) (hm : m.UnusableClear) (input : JoypadInput) (budget : UInt32)
    (h : I m.display) : I (m.run input budget).state.display :=
  (loop_run hm input budget).invariant (P := fun m => I m.display)
    (fun m hm => hI.iterate m input hm) (hI.latch m input h)

theorem step (hI : Kept ρ I) (hm : m.UnusableClear) (input : JoypadInput) (budget : UInt32)
    (h : I m.display) : I (m.step input budget).state.display := by
  rcases display_step_cases m input budget with hs | hs
  · rw [hs]
    exact h
  · rw [hs]
    exact hI.run hm input budget h

/-- What latches, iterations and stores keep is kept by every operation that maps no program. -/
theorem perform (hI : Kept ρ I) (hm : m.UnusableClear) {op : Operation} (hop : ¬ op.MapsProgram)
    (h : I m.display) : I (m.perform op).display := by
  cases op with
  | load | map | reset => exact absurd trivial hop
  | step input budget => exact hI.step hm input budget h
  | stepFrame input => exact hI.step hm input _ h
  | write addr value => exact hI.write _ addr value h
  | write16 addr value => exact hI.write _ _ _ (hI.write _ _ _ h)
  | setCpu cpu => exact h

end Kept

/-- A standing property is kept by every operation. -/
theorem Standing.perform {I : Display → Prop} (hI : Standing ρ I) (hm : m.UnusableClear)
    (h : I m.display) (op : Operation) : I (m.perform op).display := by
  by_cases hop : op.MapsProgram
  · obtain ⟨d, hd, htimer, hread⟩ := display_of_mapsProgram hop m
    refine hI.congr htimer hread ?_
    rcases hd with rfl | rfl
    · exact h
    · exact hI.powerOn
  · exact hI.toKept.perform hm hop h

/-! ## The read-only bytes -/

theorem kept_readOnly {addr : Word} (h : Memory.ReadOnly addr) (value : Byte) :
    Kept ρ fun d => d.memory.read addr = value where
  latch m _ hm := (m.joypad.read_latch_of_not_updated (not_isUpdated_of_readOnly h) _ _).trans hm
  iterate _ _ hm := (read_iterate h).trans hm
  write _ _ _ hd := (Memory.read_write_of_readOnly h _ _ _).trans hd

theorem standing_unusableClear :
    Standing ρ fun d => ∀ addr, Region.of addr = .unusable → d.memory.read addr = 0 where
  latch m input hm addr h := (kept_readOnly (.inr h) 0).latch m input (hm addr h)
  iterate m input hm addr h := (kept_readOnly (.inr h) 0).iterate m input (hm addr h)
  write d target value hd addr h :=
    (kept_readOnly (ρ := ρ) (.inr h) 0).write d target value (hd addr h)
  powerOn _ := Memory.read_powerOn_of_unusable
  congr _ hread hd addr h := (hread addr (Memory.windowSize_le_of_unusable h)).trans (hd addr h)

theorem unusableClear_perform (hm : m.UnusableClear) (op : Operation) :
    (m.perform op).UnusableClear := standing_unusableClear.perform hm hm op

theorem Reachable.unusableClear (h : Reachable m) : m.UnusableClear := by
  induction h with
  | create config renderer => exact fun _ => Memory.read_powerOn_of_unusable
  | perform op _ ih => exact unusableClear_perform ih op

/-- A standing property holds of every machine. -/
theorem Standing.reachable {I : Display → Prop} (hI : Standing ρ I) (h : m.Reachable) :
    I m.display := by
  induction h with
  | create config renderer => exact hI.powerOn
  | perform op hm ih => exact hI.perform hm.unusableClear ih op

end Machine

end GameBoy
