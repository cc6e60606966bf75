import GameBoy.Cartridge
import GameBoy.Cpu.Core
import GameBoy.Joypad
import GameBoy.Machine.Config
import GameBoy.Outcome
import GameBoy.Video.Background

/-!
# The machine

A `Machine` is a processor on its memory, the display timer, the joypad, the frame being drawn, and
the renderer that draws it. It also remembers the last program loaded, which `Machine.reset` loads
again, and the fault that stopped it, if one did.

A machine is built by `Machine.create`. `Machine.load` maps a program and reports what its header
says; a program without a byte is refused and changes nothing.
-/

namespace GameBoy

/-- The whole machine, with a renderer of type `ρ`. -/
structure Machine (ρ : Type) where
  /-- The processor on its memory. -/
  core : Core Memory
  timer : ScanlineTimer
  joypad : Joypad
  frame : FrameBuffer
  renderer : ρ
  config : Config
  /-- The program that a reset loads again; empty when none was loaded. -/
  program : Array Byte
  fault : Option Fault

namespace Machine

variable {ρ : Type}

def cpu (m : Machine ρ) : Cpu := m.core.cpu

def memory (m : Machine ρ) : Memory := m.core.bus

def mapCpu (f : Cpu → Cpu) (m : Machine ρ) : Machine ρ :=
  { m with core := ⟨f m.core.cpu, m.core.bus⟩ }

def mapMemory (f : Memory → Memory) (m : Machine ρ) : Machine ρ :=
  { m with core := ⟨m.core.cpu, f m.core.bus⟩ }

def create (config : Config) (renderer : ρ) : Machine ρ where
  core := ⟨{ Cpu.powerOn with policy := config.policy, tracing := config.tracing }, Memory.powerOn⟩
  timer := {}
  joypad := {}
  frame := .blank
  renderer := renderer
  config := config
  program := #[]
  fault := none

/-- A machine at power-on that draws the background in the configured colours. -/
def withBackground (config : Config) : Machine BackgroundRenderer := create config ⟨config.palette⟩

/-- Return to power-on with the last program loaded. The processor's two settings, the machine's
settings and the renderer stay. -/
def reset (m : Machine ρ) : Machine ρ :=
  { m with
    core := ⟨m.cpu.reset,
      if m.program.isEmpty then Memory.powerOn
      else Memory.powerOn.overlay m.program (Memory.mappedLength m.program m.config.window)⟩
    timer := {}
    joypad := {}
    frame := .blank
    fault := none }

def loadEvents (image : Array Byte) (copied window : Nat) : Array Event :=
  match CartridgeHeader.parse? image with
  | none => #[.loadedPlain copied]
  | some h =>
    #[.loaded h.title h.cartridgeType h.romSize copied image.size] ++
      (if h.checksumOk then #[] else #[.checksumMismatch h.checksum h.computed]) ++
      (if h.isBanked then #[.banked h.cartridgeType window] else #[])

/-- Map a program at the start of the address space. -/
def load (image : Array Byte) (m : Machine ρ) : Outcome (Machine ρ) Unit :=
  match m.memory.load image m.config.window with
  | .error fault => ⟨.error fault, m, #[]⟩
  | .ok (copied, memory) =>
    ⟨.ok (), { m with core := ⟨m.cpu, memory⟩, program := image },
      loadEvents image copied m.config.window⟩

end Machine

end GameBoy
