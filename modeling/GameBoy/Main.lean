import GameBoy.CommandLine.Run

/-!
# The executable

Runs the command line on the files of the computer, prints its report and exits with its status.
-/

namespace GameBoy

/-- The cause that the system numbers `code`. Some of its reports carry the number negated. -/
def FileError.ofCode? (code : UInt32) : Option FileError :=
  match if code < 0x80000000 then code else 0 - code with
  | 20 => some .notDirectory
  | 21 => some .isDirectory
  | 36 => some .nameTooLong
  | _ => none

/-- The cause of a failed file access. -/
def FileError.ofSystem : IO.Error → FileError
  | .noFileOrDirectory .. => .notFound
  | e@(.inappropriateType _ code _) | e@(.invalidArgument _ code _) =>
    (ofCode? code).getD (.other (toString e))
  | e => .other (toString e)

instance : FileAccess IO where
  readFile path := do
    try return .ok (← IO.FS.readBinFile path).data
    catch e => return .error (.ofSystem e)
  writeFile path bytes := do
    try
      IO.FS.writeBinFile path ⟨bytes⟩
      return .ok ()
    catch e => return .error (.ofSystem e)

end GameBoy

def main (args : List String) : IO UInt32 := do
  let report : GameBoy.CommandLine.Report ← GameBoy.CommandLine.run args
  (← IO.getStdout).putStr report.stdout
  (← IO.getStderr).putStr report.stderr
  return report.status.toUInt32
