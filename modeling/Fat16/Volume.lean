import Fat16.BootSector
import Fat16.Directory.Record
import Fat16.Table

/-!
# Geometry of a volume

A volume is what a boot sector says, once it is known that it says something usable: the three
numbers that all positions are computed from must not be zero. These are the proof fields of
`Volume`, and `Volume.ofBootSector` is where they are established.

The parts of a volume follow one another without gaps: the reserved sectors, the copies of the
table, the root directory, and the data area with its clusters. All positions below are byte
positions in the image, or sector numbers where the name says so. A sector number is the number of
the sector in which the part starts; the root directory need not end with a sector.
-/

namespace Fat16

/-- Why an image has no usable boot sector. -/
inductive BootFault where
  /-- The image is only `length` bytes long. -/
  | truncated (length : Nat)
  /-- A sector has no bytes. -/
  | zeroBytesPerSector
  /-- A copy of the table has no sectors. -/
  | zeroSectorsPerFat
  /-- There is no copy of the table. -/
  | zeroFats
  deriving DecidableEq

namespace BootFault

/-- What is wrong, without the numbers. -/
def summary : BootFault → String
  | .truncated _ => "Image shorter than a boot sector"
  | .zeroBytesPerSector => "Bytes per sector is zero"
  | .zeroSectorsPerFat => "Sectors per FAT is zero"
  | .zeroFats => "Number of FATs is zero"

/-- What is wrong. -/
def message (fault : BootFault) : String :=
  match fault with
  | .truncated length => s!"{fault.summary} ({length} bytes, need {BootSector.size})"
  | _ => fault.summary

end BootFault

/-- The description of a volume with a usable geometry. What the boot sector stores under the same
name is kept as it is. -/
structure Volume where
  oemName : FixedText 8
  bytesPerSector : UInt16
  sectorsPerCluster : UInt8
  reservedSectors : UInt16
  fatCount : UInt8
  rootEntries : UInt16
  /-- The size of the volume. -/
  totalSectors : UInt32
  media : UInt8
  sectorsPerFat : UInt16
  sectorsPerTrack : UInt16
  heads : UInt16
  hiddenSectors : UInt32
  driveNumber : UInt8
  extendedSignature : UInt8
  serialNumber : UInt32
  label : FixedText 11
  fileSystem : FixedText 8
  signature : Vector UInt8 2
  /-- A sector has bytes. -/
  bytesPerSector_ne_zero : bytesPerSector ≠ 0
  /-- A copy of the table has sectors. -/
  sectorsPerFat_ne_zero : sectorsPerFat ≠ 0
  /-- There is a copy of the table. -/
  fatCount_ne_zero : fatCount ≠ 0
  deriving DecidableEq

namespace Volume

/-- The volume that a boot sector describes, or the first thing that makes it unusable. -/
def ofBootSector (sector : BootSector) : Except BootFault Volume :=
  if hb : sector.bytesPerSector = 0 then .error .zeroBytesPerSector
  else if hs : sector.sectorsPerFat = 0 then .error .zeroSectorsPerFat
  else if hf : sector.fatCount = 0 then .error .zeroFats
  else .ok {
    oemName := sector.oemName
    bytesPerSector := sector.bytesPerSector
    sectorsPerCluster := sector.sectorsPerCluster
    reservedSectors := sector.reservedSectors
    fatCount := sector.fatCount
    rootEntries := sector.rootEntries
    totalSectors :=
      if sector.totalSectors16 = 0 then sector.totalSectors32 else sector.totalSectors16.toUInt32
    media := sector.media
    sectorsPerFat := sector.sectorsPerFat
    sectorsPerTrack := sector.sectorsPerTrack
    heads := sector.heads
    hiddenSectors := sector.hiddenSectors
    driveNumber := sector.driveNumber
    extendedSignature := sector.extendedSignature
    serialNumber := sector.serialNumber
    label := sector.label
    fileSystem := sector.fileSystem
    signature := sector.signature
    bytesPerSector_ne_zero := hb
    sectorsPerFat_ne_zero := hs
    fatCount_ne_zero := hf }

/-- The volume that an image holds. -/
def read (image : Bytes) : Except BootFault Volume :=
  if image.size < BootSector.size then .error (.truncated image.size)
  else ofBootSector (.decode image)

/-! ## Positions -/

variable (v : Volume)

/-- Where the first copy of the table starts. -/
def fatStart : Nat := v.reservedSectors.toNat * v.bytesPerSector.toNat

/-- The size of one copy of the table. -/
def fatSize : Nat := v.sectorsPerFat.toNat * v.bytesPerSector.toNat

/-- Where the root directory starts. -/
def rootStart : Nat := v.fatStart + v.fatCount.toNat * v.fatSize

/-- The size of the root directory. -/
def rootSize : Nat := v.rootEntries.toNat * Record.width

/-- Where the clusters start. -/
def dataStart : Nat := v.rootStart + v.rootSize

/-- The size of a cluster, which may be zero. -/
def clusterSize : Nat := v.bytesPerSector.toNat * v.sectorsPerCluster.toNat

/-- The sector in which the root directory starts. -/
def rootStartSector : Nat := v.rootStart / v.bytesPerSector.toNat

/-- The sector in which the clusters start. -/
def dataStartSector : Nat := v.dataStart / v.bytesPerSector.toNat

/-- Where a cluster starts. The reserved numbers before the first cluster have no place. -/
def clusterOffset (c : Cluster) : Option Nat :=
  if c < firstCluster then none else some (v.dataStart + (c - firstCluster) * v.clusterSize)

/-- The sector that a directory entry means by its cluster number. Zero means the root directory,
and the other reserved number means nothing. -/
def clusterStartSector (c : Cluster) : Option Nat :=
  if c = 0 then some v.rootStartSector
  else if c < firstCluster then none
  else some (v.dataStartSector + (c - firstCluster) * v.sectorsPerCluster.toNat)

/-- Whether the boot sector ends with the signature of one. -/
def hasBootSignature : Bool := v.signature == #v[0x55, 0xAA]

/-- Whether the serial number, the label and the file system name are there. -/
def hasExtendedFields : Bool := v.extendedSignature == 0x29

end Volume

end Fat16
