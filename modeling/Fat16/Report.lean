import Fat16.Inspection

/-!
# The report

An inspection as lines of plain text: the boot sector, the table with its chains and the findings
on the volume, and the directories as `Tree.depthFirst` lists them, each with its entries and its
findings. Text from the image is written by `FixedText.text`, which cannot end a line, so the lines
of a report are exactly those listed here.
-/

namespace Fat16

namespace Report

/-- The first sector of something, or a dash where it has no place. -/
def sector : Option Nat → String
  | some s => toString s
  | none => "-"

/-- The line of a finding. -/
def findingLine (indent : String) (f : Finding) : String :=
  s!"{indent}[{f.severity.tag}] {f.code} {f.text}"

/-- The line of a directory entry. Of a deleted entry only the number is shown. -/
def entryLine (indent : String) (e : DirectoryEntry) : String :=
  if e.isDeleted then s!"{indent}{Finding.slotNumber e.index}: [deleted entry]"
  else
    s!"{indent}{Finding.slotNumber e.index}: {e.name.text} {e.ext.text}, " ++
      s!"attributes: {Numeral.hex 2 e.attributes.bits.toNat}, " ++
      s!"cluster: {e.firstCluster} (sector: {sector e.startSector}), " ++
      s!"size: {e.size.toNat} bytes"

/-- The line of a chain. -/
def chainLine (chain : Chain) : String := s!"    {chain.start}: {chain.text}"

/-- The lines on the boot sector. -/
def bootLines (v : Volume) : List String := [
  "Boot sector information:",
  s!" OEM name: {v.oemName.text}",
  s!" Bytes per sector: {v.bytesPerSector.toNat}",
  s!" Sectors per cluster: {v.sectorsPerCluster.toNat}",
  s!" Reserved sectors: {v.reservedSectors.toNat}",
  s!" Number of FATs: {v.fatCount.toNat}",
  s!" Maximum number of root directory entries: {v.rootEntries.toNat}",
  s!" Total sectors: {v.totalSectors.toNat}",
  s!" Media descriptor: {v.media.toNat}",
  s!" Sectors per FAT: {v.sectorsPerFat.toNat}",
  s!" Sectors per track: {v.sectorsPerTrack.toNat}",
  s!" Number of heads: {v.heads.toNat}",
  s!" Hidden sectors: {v.hiddenSectors.toNat}",
  s!" Logical drive number: {v.driveNumber.toNat}",
  s!" Extended signature: {v.extendedSignature.toNat}",
  s!" Volume serial number: {v.serialNumber.toNat}",
  s!" Volume label: {v.label.text}",
  s!" File system type: {v.fileSystem.text}",
  " Boot signature: " ++ String.join (v.signature.toList.map fun b ↦ Numeral.hex 2 b.toNat),
  ""]

/-- The lines on the table. -/
def tableLines (i : Inspection) : List String :=
  [ "FAT information:",
    s!" FAT size: {i.summary.sizeBytes} bytes / {i.summary.entryCount} entries / " ++
      s!"{i.summary.sizeBytes / i.volume.bytesPerSector.toNat} sectors",
    s!" FAT ID: {Numeral.hex 4 i.summary.mediaId.toNat}",
    s!" End-of-chain marker: {Numeral.hex 4 i.summary.endMark.toNat}",
    " Chains: (as cluster numbers)" ] ++
  i.summary.chains.map chainLine ++
  i.volumeFindings.map (findingLine "    ") ++
  [""]

/-- The lines at the head of a directory. -/
def headLines (v : Volume) (node : Node) : List String :=
  match node.place with
  | .root => [
    "Root directory information:",
    s!" Root directory start sector: {sector node.startSector}",
    s!" Root directory max size: {node.sizeBytes} bytes / {v.rootEntries.toNat} entries",
    " Entries:"]
  | .below _ _ chain => [
    s!"Directory at cluster {chain.start}:",
    s!"    Start sector: {sector node.startSector}",
    s!"    Size: {node.sizeBytes} bytes",
    "    Entries:"]

/-- How far the lines of a directory are indented. -/
def indent (node : Node) : String := if node.isRoot then "    " else "        "

/-- The lines on a directory. -/
def directoryLines (v : Volume) (node : Node) : List String :=
  headLines v node ++ node.entries.map (entryLine (indent node)) ++
    node.findings.toList.map (findingLine (indent node))

/-- The lines on the directories, with an empty line before each but the first. -/
def treeLines (v : Volume) (t : Tree) : List String :=
  [""].intercalate (t.depthFirst.map (directoryLines v))

/-- The lines of a report. -/
def lines (i : Inspection) : List String :=
  bootLines i.volume ++ tableLines i ++ treeLines i.volume i.tree

end Report

/-- The report on an inspection; every line ends with a line break. -/
def Inspection.report (i : Inspection) : String :=
  String.join ((Report.lines i).map (· ++ "\n"))

instance : ToString Inspection := ⟨Inspection.report⟩

end Fat16
