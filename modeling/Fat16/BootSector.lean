import Fat16.FixedText

/-!
# The boot sector

The first 512 bytes of a volume as they are stored. The numbers at their start say how the volume
is laid out; the rest is text for people, code for machines, and a signature at the end. Nothing
is judged here: every 512 bytes are some boot sector, and `BootSector.encode` writes the very
bytes that `BootSector.decode` reads.
-/

namespace Fat16

/-- A boot sector as stored. -/
structure BootSector where
  /-- A jump over the description to the boot code. -/
  jump : Vector UInt8 3
  /-- The system that made the volume. -/
  oemName : FixedText 8
  /-- The size of a sector. -/
  bytesPerSector : UInt16
  /-- The size of a cluster. -/
  sectorsPerCluster : UInt8
  /-- The sectors before the first copy of the table, this one among them. -/
  reservedSectors : UInt16
  /-- The number of copies of the table. -/
  fatCount : UInt8
  /-- The number of records that the root directory has room for. -/
  rootEntries : UInt16
  /-- The size of the volume, or zero where that needs more than 16 bits. -/
  totalSectors16 : UInt16
  /-- The kind of medium. -/
  media : UInt8
  /-- The size of one copy of the table. -/
  sectorsPerFat : UInt16
  /-- The sectors on one track of the disk. -/
  sectorsPerTrack : UInt16
  /-- The number of heads of the disk. -/
  heads : UInt16
  /-- The sectors of the disk before the volume. -/
  hiddenSectors : UInt32
  /-- The size of the volume where the 16-bit number is zero. -/
  totalSectors32 : UInt32
  /-- The number of the drive. -/
  driveNumber : UInt8
  /-- A byte with no meaning. -/
  unused : UInt8
  /-- Whether the serial number and the two texts after it are there. -/
  extendedSignature : UInt8
  /-- The serial number of the volume. -/
  serialNumber : UInt32
  /-- The label of the volume. -/
  label : FixedText 11
  /-- The name of the file system. -/
  fileSystem : FixedText 8
  /-- The boot code. -/
  bootCode : Vector UInt8 448
  /-- The signature at the end of the sector. -/
  signature : Vector UInt8 2
  deriving DecidableEq

namespace BootSector

/-- The size of a boot sector. -/
def size : Nat := 512

/-- Reads a boot sector from the start of an image. -/
def decode (image : Bytes) : BootSector where
  jump := image.field 3 0x00
  oemName := .read image 0x03
  bytesPerSector := image.word16 0x0B
  sectorsPerCluster := image.byte 0x0D
  reservedSectors := image.word16 0x0E
  fatCount := image.byte 0x10
  rootEntries := image.word16 0x11
  totalSectors16 := image.word16 0x13
  media := image.byte 0x15
  sectorsPerFat := image.word16 0x16
  sectorsPerTrack := image.word16 0x18
  heads := image.word16 0x1A
  hiddenSectors := image.word32 0x1C
  totalSectors32 := image.word32 0x20
  driveNumber := image.byte 0x24
  unused := image.byte 0x25
  extendedSignature := image.byte 0x26
  serialNumber := image.word32 0x27
  label := .read image 0x2B
  fileSystem := .read image 0x36
  bootCode := image.field 448 0x3E
  signature := image.field 2 0x1FE

/-- The stored bytes of a boot sector. -/
def encode (sector : BootSector) : Bytes :=
  .concat [
    sector.jump.toArray,
    sector.oemName.bytes.toArray,
    .ofWord16 sector.bytesPerSector,
    #[sector.sectorsPerCluster],
    .ofWord16 sector.reservedSectors,
    #[sector.fatCount],
    .ofWord16 sector.rootEntries,
    .ofWord16 sector.totalSectors16,
    #[sector.media],
    .ofWord16 sector.sectorsPerFat,
    .ofWord16 sector.sectorsPerTrack,
    .ofWord16 sector.heads,
    .ofWord32 sector.hiddenSectors,
    .ofWord32 sector.totalSectors32,
    #[sector.driveNumber],
    #[sector.unused],
    #[sector.extendedSignature],
    .ofWord32 sector.serialNumber,
    sector.label.bytes.toArray,
    sector.fileSystem.bytes.toArray,
    sector.bootCode.toArray,
    sector.signature.toArray]

end BootSector

end Fat16
