import Fat16.Chain
import Fat16.Directory.Listing

/-!
# Findings

Past the boot sector nothing stops the reading of an image. What is wrong is kept as a finding with
whatever it was found in. Every finding has a code, a severity that depends on its kind alone, and
a text.
-/

namespace Fat16

/-- How grave a finding is. -/
inductive Severity where
  /-- Something is odd. -/
  | warning
  /-- Something is lost or cannot be reached. -/
  | error
  deriving DecidableEq

/-- The mark of a severity, four characters wide. -/
def Severity.tag : Severity → String
  | .warning => "WARN"
  | .error => "ERR "

/-- A part of an image. -/
inductive Area where
  /-- The first copy of the table. -/
  | table
  /-- The root directory. -/
  | rootDirectory
  /-- The directory that starts at a cluster. -/
  | cluster (start : Cluster)
  deriving DecidableEq

/-- The name of a part. -/
def Area.text : Area → String
  | .table => "FAT"
  | .rootDirectory => "root directory"
  | .cluster start => s!"cluster {start}"

/-- What can be wrong with an image that has a usable boot sector. -/
inductive Finding where
  /-- A link leads to `target`, which is no cluster of the table. `source` is the cluster with the
  link; there is none where the link is in a directory entry. -/
  | dangling (source : Option Cluster) (target : Cluster)
  /-- A chain comes back to one of its clusters. -/
  | cycle (closesAt : Cluster)
  /-- A chain comes to a cluster whose entry belongs to no chain. -/
  | broken (cluster : Cluster) (entry : TableEntry)
  /-- A chain comes to a cluster that another chain holds. -/
  | crossLinked (cluster : Cluster)
  /-- The subdirectory of entry `entry` has been expanded elsewhere, or is the root. -/
  | repeated (entry : Nat) (cluster : Cluster)
  /-- The subdirectory of entry `entry` lies deeper than `limit`. -/
  | tooDeep (entry limit : Nat)
  /-- A part reaches past the end of the image. -/
  | truncated (area : Area) (expected available : Nat)
  /-- A cluster has no sectors. -/
  | zeroClusterSize
  /-- A directory ends inside a record. -/
  | cutRecord (cut : PartialRecord)
  deriving DecidableEq

namespace Finding

/-- The code of a finding. -/
def code : Finding → String
  | .dangling .. => "FAT.DANGLING"
  | .cycle .. => "FAT.CYCLE"
  | .broken .. => "FAT.BROKEN"
  | .crossLinked .. => "FAT.CROSSLINK"
  | .repeated .. => "WALK.REPEAT"
  | .tooDeep .. => "WALK.DEPTH"
  | .truncated .. => "IMG.TRUNCATED"
  | .zeroClusterSize => "IMG.GEOMETRY"
  | .cutRecord .. => "DIR.DECODE"

/-- The severity of a finding. -/
def severity : Finding → Severity
  | .dangling .. | .cycle .. | .truncated .. => .error
  | _ => .warning

/-- The number of an entry, four digits wide. -/
def slotNumber (index : Nat) : String := Numeral.decimal 4 index

/-- A finding in words. -/
def text : Finding → String
  | .dangling (some source) target => s!"FAT entry {source} points outside the table ({target})"
  | .dangling none target => s!"Directory entry points outside the table ({target})"
  | .cycle closesAt => s!"Cluster chain loops back to {closesAt}"
  | .broken cluster entry => s!"Cluster chain continues into {entry.text} entry {cluster}"
  | .crossLinked cluster => s!"Cluster chain runs into {cluster}, already in another chain"
  | .repeated entry cluster =>
    s!"Entry {slotNumber entry}: loop or duplicate ref to dir cluster {cluster}"
  | .tooDeep entry limit => s!"Entry {slotNumber entry}: directory depth limit reached ({limit})"
  | .truncated area expected available =>
    s!"{area.text} cut short by end of image ({available} of {expected} bytes)"
  | .zeroClusterSize => "Sectors per cluster is 0, data clusters hold no bytes"
  | .cutRecord cut => cut.message

/-- The finding that an area of `expected` bytes is cut short, if it is. -/
def truncation (area : Area) (expected : Nat) (region : Bytes) : List Finding :=
  if region.size < expected then [.truncated area expected region.size] else []

end Finding

/-- What is wrong with a chain that ended like this, if anything is. -/
def ChainEnd.finding? : ChainEnd → Option Finding
  | .complete => none
  | .cycle closesAt => some (.cycle closesAt)
  | .dangling source target => some (.dangling source target)
  | .broken cluster entry => some (.broken cluster entry)
  | .joins cluster => some (.crossLinked cluster)

end Fat16
