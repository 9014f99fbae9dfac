import Fat16.Directory.Listing

/-!
# Faults

The three ways in which reading a part of an image can fail, brought together. A fault names the
part in its first line and gives the cause in a second, indented one.
-/

namespace Fat16

/-- Why a part of an image cannot be read. -/
inductive Fault where
  /-- The boot sector. -/
  | boot (cause : BootFault)
  /-- An entry of the table. -/
  | lookup (cause : LookupFault)
  /-- A directory. -/
  | directory (cause : PartialRecord)
  deriving DecidableEq

namespace Fault

/-- The part that cannot be read. -/
def summary : Fault → String
  | .boot _ => "Invalid boot sector"
  | .lookup _ => "FAT lookup failed"
  | .directory _ => "Directory decoding failed"

/-- What is wrong with it. -/
def cause : Fault → String
  | .boot cause => cause.message
  | .lookup cause => cause.message
  | .directory cause => cause.message

/-- The lines that tell of a fault. -/
def lines (fault : Fault) : List String := [fault.summary, s!"  caused by: {fault.cause}"]

/-- The part and the cause. -/
def message (fault : Fault) : String := "\n".intercalate fault.lines

end Fault

end Fat16
