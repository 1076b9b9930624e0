import Syntree.Command

/-!
The program: reads one source file and prints what is asked for.
-/

namespace Syntree.Command

/-- The bytes of a file, or the system's reason for not giving them. -/
def readBytes (path : String) : IO (Except String ByteArray) := do
  try
    return .ok (← IO.FS.readBinFile path)
  catch e =>
    match e with
    | .noFileOrDirectory .. => return .error "No such file or directory (os error 2)"
    | .inappropriateType _ 20 _ => return .error "Not a directory (os error 20)"
    | .inappropriateType .. => return .error "Is a directory (os error 21)"
    | e => return .error (toString e)

end Syntree.Command

def main (args : List String) : IO UInt32 := do
  let report ← Syntree.Command.run Syntree.Command.readBytes args
  IO.print report.stdout
  IO.eprint report.stderr
  return report.code
