import GameBoy.Main
import GameBoy.Proofs.Alu.Decimal
import GameBoy.Proofs.Alu.MultiByte
import GameBoy.Proofs.CommandLine.Outcome
import GameBoy.Proofs.Core.Access
import GameBoy.Proofs.Core.Control
import GameBoy.Proofs.Core.Cost
import GameBoy.Proofs.Core.Enable
import GameBoy.Proofs.Core.Events
import GameBoy.Proofs.Core.HaltBug
import GameBoy.Proofs.Core.Masking
import GameBoy.Proofs.Core.Nesting
import GameBoy.Proofs.Core.ProgramCounter
import GameBoy.Proofs.Core.Service
import GameBoy.Proofs.Core.Simulation
import GameBoy.Proofs.Core.Tracing
import GameBoy.Proofs.Core.FlagNibble
import GameBoy.Proofs.Core.Footprint
import GameBoy.Proofs.Core.Traffic
import GameBoy.Proofs.Lcd.Accounting
import GameBoy.Proofs.Machine.Courses
import GameBoy.Proofs.Machine.Erasure
import GameBoy.Proofs.Machine.FrameTiming
import GameBoy.Proofs.Machine.Invariant
import GameBoy.Proofs.Machine.Iteration
import GameBoy.Proofs.Machine.Latching
import GameBoy.Proofs.Machine.Loop
import GameBoy.Proofs.Machine.Observers
import GameBoy.Proofs.Machine.Operation
import GameBoy.Proofs.Machine.Progress
import GameBoy.Proofs.Machine.Reset
import GameBoy.Proofs.Machine.Splitting
import GameBoy.Proofs.Machine.Turns
import GameBoy.Proofs.Core.FlatMemory
import GameBoy.Proofs.Lcd.Coincidence
import GameBoy.Proofs.Core.Transparency
import GameBoy.Proofs.Joypad.Register
import GameBoy.Proofs.Machine.Buttons
import GameBoy.Proofs.Machine.Stopped
import GameBoy.Proofs.Memory.Arrival
import GameBoy.Proofs.Memory.LastWrite
import GameBoy.Proofs.Core.Stack
import GameBoy.Proofs.Machine.Cartridge
import GameBoy.Proofs.Machine.Waking
import GameBoy.Proofs.Core.BitFields
import GameBoy.Proofs.Video.Background
import GameBoy.Proofs.Core.WordSums
import GameBoy.Proofs.Cartridge.Header
import GameBoy.Proofs.Video.Raster
import GameBoy.Proofs.Core.LowPower
