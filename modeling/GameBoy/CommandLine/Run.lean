import GameBoy.CommandLine.Files
import GameBoy.CommandLine.FrameCount
import GameBoy.Machine.Run

/-!
# The command line

The program is called with the file of a program, the file to write, and possibly a number of frames
and `--trace`. It loads the program into a machine at power-on, runs it with no button pressed, and
writes the last frame as three bytes per point.

`Request.parse` reads the arguments, `playFrames` runs the machine, and `run` joins them with the
two file accesses. What the user sees is a `Report`: the exit status and the two output texts. The
first thing that goes wrong ends the run, and nothing is written before the last frame is done.
`runOn` is the same on a file system held as a value.
-/

namespace GameBoy.CommandLine

/-- How the program is called. -/
def usage : String := "Usage: dotmatrix <program_path> <out_rgb24_path> [frames] [--trace]"

/-! ## Arguments -/

/-- What the arguments ask for. -/
structure Arguments where
  program : String
  out : String
  frames : Nat
  tracing : Bool

/-- What the arguments amount to. -/
inductive Request where
  | help
  /-- A program or an output file is missing. -/
  | incomplete
  /-- The third argument is not a frame count. -/
  | badFrames (text : String) (error : FrameCount.Error)
  | play (arguments : Arguments)

def defaultFrames : Nat := 120

/-- Read the arguments. A call for help anywhere wins; `--trace` may stand anywhere; and arguments
after the third are ignored. -/
def Request.parse (args : List String) : Request :=
  if args.any fun arg => arg == "-h" || arg == "--help" then .help
  else
    let tracing := args.contains "--trace"
    match args.filter (· != "--trace") with
    | program :: out :: rest =>
      match rest.head? with
      | none => .play ⟨program, out, defaultFrames, tracing⟩
      | some text =>
        match FrameCount.parse text with
        | .error error => .badFrames text error
        | .ok frames => .play ⟨program, out, frames, tracing⟩
    | _ => .incomplete

/-! ## Playing -/

/-- Run a number of frames with no button pressed, or give the first frame that raised a fault and
the fault. Frames are numbered from `first`. -/
def playFrames {ρ : Type} [LineRenderer ρ] (first : Nat) (m : Machine ρ) :
    Nat → Except (Nat × Fault) (Machine ρ)
  | 0 => .ok m
  | count + 1 =>
    match m.stepFrame {} with
    | ⟨.error fault, _, _⟩ => .error (first, fault)
    | ⟨.ok _, m, _⟩ => playFrames (first + 1) m count

/-! ## Reports -/

/-- What the user sees. -/
structure Report where
  status : UInt8
  stdout : String
  stderr : String
  deriving DecidableEq, Repr

def Report.success (line : String) : Report := ⟨0, line ++ "\n", ""⟩

def Report.failure (message : String) : Report := ⟨1, "", "Error: " ++ message ++ "\n"⟩

/-- A failure with a cause, which follows the message after an empty line, indented. -/
def Report.failureBy (message cause : String) : Report :=
  .failure (message ++ "\n\nCaused by:\n    " ++ cause)

/-- The line that reports the written frame. -/
def written (bytes frames : Nat) (out : String) : String :=
  "Wrote " ++ toString bytes ++ " bytes (" ++ toString Screen.width ++ "x" ++
    toString Screen.height ++ " rgb24) after " ++ toString frames ++ " frames to '" ++ out ++ "'"

/-! ## The program -/

/-- Run the machine on the bytes of a program. The result is the picture, or the report of what went
wrong. -/
def picture (arguments : Arguments) (program : Array Byte) : Except Report (Array Byte) :=
  let machine := Machine.withBackground { tracing := arguments.tracing }
  match machine.load program with
  | ⟨.error fault, _, _⟩ =>
    .error (.failureBy ("failed to load '" ++ arguments.program ++ "'") fault.message)
  | ⟨.ok (), machine, _⟩ =>
    match playFrames 0 machine arguments.frames with
    | .error (frame, fault) =>
      .error (.failureBy ("emulation stopped in frame " ++ toString frame) fault.message)
    | .ok machine => .ok machine.frame.toBytes

variable {m : Type → Type} [Monad m] [FileAccess m]

/-- Play a program file into an output file. -/
def play (arguments : Arguments) : m Report := do
  match ← FileAccess.readFile arguments.program with
  | .error e =>
    return .failureBy ("failed to read program '" ++ arguments.program ++ "'") e.message
  | .ok program =>
    match picture arguments program with
    | .error report => return report
    | .ok bytes =>
      match ← FileAccess.writeFile arguments.out bytes with
      | .error e => return .failureBy ("failed to write '" ++ arguments.out ++ "'") e.message
      | .ok () => return .success (written bytes.size arguments.frames arguments.out)

def run (args : List String) : m Report :=
  match Request.parse args with
  | .help => pure (.success usage)
  | .incomplete => pure (.failure usage)
  | .badFrames text error =>
    pure (.failureBy ("invalid frame count '" ++ text ++ "'") error.message)
  | .play arguments => play arguments

/-- Do what the arguments ask for on a file system held as a value. -/
def runOn (tree : FileTree) (args : List String) : Report × FileTree :=
  (run args : StateM FileTree Report).run tree

end GameBoy.CommandLine
