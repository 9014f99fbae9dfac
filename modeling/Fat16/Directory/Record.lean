import Fat16.FixedText

/-!
# Directory records

A directory is a run of records of 32 bytes. Its first byte says whether a record marks the end
of the directory or has been deleted; otherwise the attribute byte says what kind of thing it
names. Nothing is judged here: every 32 bytes are some record, and `Record.encode` writes the very
bytes that `Record.decode` reads.
-/

namespace Fat16

/-- The attributes with a meaning. -/
inductive Attribute where
  | readOnly
  | hidden
  | system
  | volumeId
  | directory
  | archive
  deriving DecidableEq

namespace Attribute

/-- All attributes in the order of their bits. -/
def all : List Attribute := [.readOnly, .hidden, .system, .volumeId, .directory, .archive]

/-- The bit of an attribute. -/
def bit : Attribute → UInt8
  | .readOnly => 0x01
  | .hidden => 0x02
  | .system => 0x04
  | .volumeId => 0x08
  | .directory => 0x10
  | .archive => 0x20

/-- The customary name of an attribute. -/
def name : Attribute → String
  | .readOnly => "READ_ONLY"
  | .hidden => "HIDDEN"
  | .system => "SYSTEM"
  | .volumeId => "VOLUME_ID"
  | .directory => "DIRECTORY"
  | .archive => "ARCHIVE"

end Attribute

/-- The attribute byte of a record, with the bits that have no meaning. -/
structure Attributes where
  /-- The stored byte. -/
  bits : UInt8
  deriving DecidableEq

namespace Attributes

/-- Whether an attribute is set. -/
def has (attributes : Attributes) (a : Attribute) : Bool := attributes.bits &&& a.bit != 0

/-- The attributes that are set. -/
def toList (attributes : Attributes) : List Attribute := Attribute.all.filter attributes.has

end Attributes

/-- What a record is. The mark at the end of a directory is none of these. -/
inductive EntryKind where
  /-- A record given up; only its first byte is known to be meant. -/
  | deleted
  /-- A directory below this one. -/
  | subdirectory
  /-- One of the two names for this directory itself and the one above. -/
  | selfOrParent
  /-- The label of the volume, or a part of a long name, which looks like one. -/
  | volumeLabel
  /-- A file. -/
  | file
  deriving DecidableEq

/-- A directory record as stored. -/
structure Record where
  /-- The name, padded with spaces. -/
  name : FixedText 8
  /-- The extension, padded with spaces. -/
  ext : FixedText 3
  /-- The attributes. -/
  attributes : Attributes
  /-- A byte kept for the system. -/
  reserved : UInt8 := 0
  /-- The fine part of the time of creation. -/
  creationTenths : UInt8 := 0
  /-- The time of creation. -/
  creationTime : UInt16 := 0
  /-- The date of creation. -/
  creationDate : UInt16 := 0
  /-- The date of the last access. -/
  accessDate : UInt16 := 0
  /-- The high half of the cluster number, which is zero in volumes of this kind. -/
  clusterHigh : UInt16 := 0
  /-- The time of the last change. -/
  writeTime : UInt16 := 0
  /-- The date of the last change. -/
  writeDate : UInt16 := 0
  /-- The first cluster. -/
  cluster : UInt16
  /-- The size in bytes. -/
  size : UInt32
  deriving DecidableEq

namespace Record

/-- How many bytes a record takes. -/
def width : Nat := 32

/-- Reads the record at position `i`. -/
def decode (region : Bytes) (i : Nat) : Record where
  name := .read region i
  ext := .read region (i + 8)
  attributes := ⟨region.byte (i + 11)⟩
  reserved := region.byte (i + 12)
  creationTenths := region.byte (i + 13)
  creationTime := region.word16 (i + 14)
  creationDate := region.word16 (i + 16)
  accessDate := region.word16 (i + 18)
  clusterHigh := region.word16 (i + 20)
  writeTime := region.word16 (i + 22)
  writeDate := region.word16 (i + 24)
  cluster := region.word16 (i + 26)
  size := region.word32 (i + 28)

/-- The stored bytes of a record. -/
def encode (r : Record) : Bytes :=
  .concat [
    r.name.bytes.toArray,
    r.ext.bytes.toArray,
    #[r.attributes.bits],
    #[r.reserved],
    #[r.creationTenths],
    .ofWord16 r.creationTime,
    .ofWord16 r.creationDate,
    .ofWord16 r.accessDate,
    .ofWord16 r.clusterHigh,
    .ofWord16 r.writeTime,
    .ofWord16 r.writeDate,
    .ofWord16 r.cluster,
    .ofWord32 r.size]

/-- The first byte of a record, which tells marks from entries. -/
def firstByte (r : Record) : UInt8 := r.name.bytes[0]

/-- Whether the record marks the end of the directory. -/
def isEndMark (r : Record) : Bool := r.firstByte == 0x00

/-- Whether the record has been deleted. -/
def isDeleted (r : Record) : Bool := r.firstByte == 0xE5

/-- Whether the name is a dot or two dots, padded with spaces and without extension. -/
def isDots (r : Record) : Bool :=
  (r.name.bytes == #v[0x2E, 0x20, 0x20, 0x20, 0x20, 0x20, 0x20, 0x20] ||
    r.name.bytes == #v[0x2E, 0x2E, 0x20, 0x20, 0x20, 0x20, 0x20, 0x20]) &&
  r.ext.bytes == #v[0x20, 0x20, 0x20]

/-- What a record is that does not mark the end of the directory. -/
def kind (r : Record) : EntryKind :=
  if r.isDeleted then .deleted
  else if r.attributes.has .directory then
    if r.isDots then .selfOrParent else .subdirectory
  else if r.attributes.has .volumeId then .volumeLabel
  else .file

end Record

end Fat16
