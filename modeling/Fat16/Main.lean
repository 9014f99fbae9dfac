import Fat16.CommandLine

/-!
# The program

Reads the file that the arguments name and does what `CommandLine.run` says.
-/

namespace Fat16

/-- The contents of a file, or why it cannot be read. -/
def readImage (path : String) : IO (Except String Bytes) := do
  try
    return .ok (← IO.FS.readBinFile path).data
  catch
    | .noFileOrDirectory .. => return .error "No such file or directory (os error 2)"
    | .permissionDenied .. => return .error "Permission denied (os error 13)"
    | .inappropriateType .. => return .error "Is a directory (os error 21)"
    | other => return .error other.toString

end Fat16

open Fat16 in
def main (arguments : List String) : IO UInt32 := do
  let contents ← match CommandLine.parse arguments with
    | .ok task => readImage task.image
    | .error _ => pure (.ok #[])
  let outcome := CommandLine.run (fun _ ↦ contents) arguments
  IO.print outcome.stdout
  IO.eprint outcome.stderr
  return .ofNat outcome.code
