import Fat16.Fault
import Fat16.Summary
import Fat16.Tree.Walk

/-!
# Inspecting an image

Everything that an image tells: the geometry of the volume, the summary of its table, the tree of
its directories, and what was found wrong with the volume as a whole. Only a boot sector that
cannot be used is a fault. The table and the root directory may be cut by the end of the image, and
then what is there is inspected.
-/

namespace Fat16

/-- What an image tells. -/
structure Inspection where
  /-- The geometry. -/
  volume : Volume
  /-- The summary of the first copy of the table. -/
  summary : TableSummary
  /-- The directories. -/
  tree : Tree
  /-- What was found wrong with the volume as a whole. -/
  volumeFindings : List Finding
  deriving DecidableEq

namespace Inspection

/-- The depth to which directories are expanded where nothing else is asked for. -/
def defaultMaxDepth : Nat := 256

/-- What is wrong with a volume as a whole. -/
def findingsOf (v : Volume) (image : Bytes) : List Finding :=
  (if v.sectorsPerCluster = 0 then [.zeroClusterSize] else []) ++
    Finding.truncation .table v.fatSize (v.table image).bytes

/-- The inspection of an image whose geometry is known. -/
def ofVolume (v : Volume) (image : Bytes) (maxDepth : Nat) : Inspection where
  volume := v
  summary := (v.table image).summary
  tree := Walk.tree ⟨v, v.table image, image, maxDepth⟩
  volumeFindings := findingsOf v image

/-- The inspection of an image, or why its boot sector is of no use. -/
def read (image : Bytes) (maxDepth : Nat := defaultMaxDepth) : Except Fault Inspection :=
  match Volume.read image with
  | .error cause => .error (.boot cause)
  | .ok v => .ok (ofVolume v image maxDepth)

/-- What is not refused is the inspection of an image with a usable boot sector. -/
theorem read_eq_ok_iff {image : Bytes} {maxDepth : Nat} {i : Inspection} :
    read image maxDepth = .ok i ↔
      ∃ v, Volume.read image = .ok v ∧ ofVolume v image maxDepth = i := by
  rw [read]
  cases Volume.read image with
  | error cause => simp
  | ok v => simp

/-- All findings: those on the volume, then those on the directories as they are listed. -/
def findings (i : Inspection) : List Finding :=
  i.volumeFindings ++ i.tree.depthFirst.flatMap fun node ↦ node.findings.toList

/-- How many findings have the given severity. -/
def count (i : Inspection) (s : Severity) : Nat :=
  i.findings.countP fun finding ↦ finding.severity == s

/-- Whether there is a finding that is an error. -/
def hasError (i : Inspection) : Bool := 0 < i.count .error

end Inspection

end Fat16
