import Fat16.Proofs.Layout
import Fat16.Volume

/-!
# Boot sectors

Every field of a boot sector is read from where it is written (`BootSector.window_eq_encode_iff`),
so a boot sector and its 512 bytes determine one another. A volume takes over most of the fields
(`Volume.Describes`) and leaves the code and the bytes without meaning alone.

`Volume.read_refuses_or_describes` says all there is to say about which images hold a volume, and
which one: the four ways to refuse an image in their order, and what is read from an accepted one.
-/

namespace Fat16

namespace BootSector

variable {image : Bytes} {sector : BootSector}

theorem size_encode (sector : BootSector) : sector.encode.size = size := by
  simp [encode, Bytes.concat, size]

/-- The first bytes of an image are those of a boot sector if and only if it is read from them. -/
theorem window_eq_encode_iff (h : size ≤ image.size) :
    image.window 0 size = sector.encode ↔ decode image = sector := by
  rw [size] at h
  rw [← sector.size_encode, encode, Bytes.laysOut_iff]
  simp (disch := omega) only [Bytes.LaysOut, Vector.size_toArray, Bytes.size_ofWord16,
    Bytes.size_ofWord32, List.size_toArray, List.length_cons, List.length_nil, Nat.reduceAdd,
    Bytes.window_eq_toArray_iff, Bytes.window_eq_singleton_iff, Bytes.window_eq_ofWord16_iff,
    Bytes.window_eq_ofWord32_iff]
  cases sector
  simp only [decode, mk.injEq, FixedText.read_eq_iff, and_true]

/-- Reading undoes writing, whatever follows. -/
theorem decode_encode (sector : BootSector) (tail : Bytes) :
    decode (sector.encode ++ tail) = sector := by
  have hsize := sector.size_encode
  have hwindow : sector.encode.window 0 size = sector.encode := by
    rw [← hsize, Bytes.window_size]
  refine (window_eq_encode_iff ?_).1 ?_
  · rw [Array.size_append]
    omega
  · rw [Bytes.window_append _ (by rw [hwindow, hsize]), hwindow]

/-- A boot sector is read from the first bytes of an image. -/
theorem decode_congr {a b : Bytes} (ha : size ≤ a.size) (hb : size ≤ b.size)
    (h : b.window 0 size = a.window 0 size) : decode b = decode a :=
  (window_eq_encode_iff hb).1 (h.trans ((window_eq_encode_iff ha).2 rfl))

end BootSector

namespace Volume

/-- The volume is what the boot sector says, and its parts follow one another as they should. -/
structure Describes (v : Volume) (sector : BootSector) : Prop where
  oemName_eq : v.oemName = sector.oemName
  bytesPerSector_eq : v.bytesPerSector = sector.bytesPerSector
  sectorsPerCluster_eq : v.sectorsPerCluster = sector.sectorsPerCluster
  reservedSectors_eq : v.reservedSectors = sector.reservedSectors
  fatCount_eq : v.fatCount = sector.fatCount
  rootEntries_eq : v.rootEntries = sector.rootEntries
  /-- The 32-bit number of sectors counts only where the 16-bit one is zero. -/
  totalSectors_eq : v.totalSectors.toNat =
    if sector.totalSectors16 = 0 then sector.totalSectors32.toNat else sector.totalSectors16.toNat
  media_eq : v.media = sector.media
  sectorsPerFat_eq : v.sectorsPerFat = sector.sectorsPerFat
  sectorsPerTrack_eq : v.sectorsPerTrack = sector.sectorsPerTrack
  heads_eq : v.heads = sector.heads
  hiddenSectors_eq : v.hiddenSectors = sector.hiddenSectors
  driveNumber_eq : v.driveNumber = sector.driveNumber
  extendedSignature_eq : v.extendedSignature = sector.extendedSignature
  serialNumber_eq : v.serialNumber = sector.serialNumber
  label_eq : v.label = sector.label
  fileSystem_eq : v.fileSystem = sector.fileSystem
  signature_eq : v.signature = sector.signature
  fatStart_eq : v.fatStart = sector.reservedSectors.toNat * sector.bytesPerSector.toNat
  fatSize_eq : v.fatSize = sector.sectorsPerFat.toNat * sector.bytesPerSector.toNat
  rootStart_eq : v.rootStart = v.fatStart + sector.fatCount.toNat * v.fatSize
  rootSize_eq : v.rootSize = 32 * sector.rootEntries.toNat
  dataStart_eq : v.dataStart = v.rootStart + v.rootSize

variable {image : Bytes}

/-- What becomes of a boot sector, in the order in which it is judged. -/
theorem ofBootSector_cases (sector : BootSector) :
    (sector.bytesPerSector = 0 ∧ ofBootSector sector = .error .zeroBytesPerSector) ∨
    (sector.bytesPerSector ≠ 0 ∧ sector.sectorsPerFat = 0 ∧
      ofBootSector sector = .error .zeroSectorsPerFat) ∨
    (sector.bytesPerSector ≠ 0 ∧ sector.sectorsPerFat ≠ 0 ∧ sector.fatCount = 0 ∧
      ofBootSector sector = .error .zeroFats) ∨
    (sector.bytesPerSector ≠ 0 ∧ sector.sectorsPerFat ≠ 0 ∧ sector.fatCount ≠ 0 ∧
      ∃ v, ofBootSector sector = .ok v ∧ v.Describes sector) := by
  rw [ofBootSector]
  by_cases hb : sector.bytesPerSector = 0
  · exact .inl ⟨hb, dif_pos hb⟩
  rw [dif_neg hb]
  by_cases hs : sector.sectorsPerFat = 0
  · exact .inr (.inl ⟨hb, hs, dif_pos hs⟩)
  rw [dif_neg hs]
  by_cases hf : sector.fatCount = 0
  · exact .inr (.inr (.inl ⟨hb, hs, hf, dif_pos hf⟩))
  rw [dif_neg hf]
  refine .inr (.inr (.inr ⟨hb, hs, hf, _, rfl, ?_⟩))
  constructor
  case totalSectors_eq =>
    split
    · rfl
    · exact UInt16.toNat_toUInt32 _
  case rootSize_eq => exact Nat.mul_comm ..
  all_goals rfl

theorem read_of_size_lt (h : image.size < BootSector.size) :
    read image = .error (.truncated image.size) := by
  rw [read, if_pos h]

theorem read_of_size_le (h : BootSector.size ≤ image.size) :
    read image = ofBootSector (.decode image) := by
  rw [read, if_neg (Nat.not_lt.2 h)]

theorem size_le_of_read {v : Volume} (h : read image = .ok v) : BootSector.size ≤ image.size := by
  refine Nat.le_of_not_lt fun hlt ↦ ?_
  rw [read_of_size_lt hlt] at h
  cases h

/-- A volume is read from the first bytes of an image, which show whether there are enough. -/
theorem read_congr {a b : Bytes} (ha : BootSector.size ≤ a.size)
    (h : b.window 0 BootSector.size = a.window 0 BootSector.size) : read b = read a := by
  have hb : BootSector.size ≤ b.size := by
    have hwindow := congrArg Array.size h
    rw [Bytes.size_window, Bytes.size_window] at hwindow
    omega
  rw [read_of_size_le ha, read_of_size_le hb, BootSector.decode_congr ha hb h]

/-- What becomes of an image that is long enough, by the three numbers in it. -/
theorem read_cases (h : BootSector.size ≤ image.size) :
    (image.word16 0x0B = 0 ∧ read image = .error .zeroBytesPerSector) ∨
    (image.word16 0x0B ≠ 0 ∧ image.word16 0x16 = 0 ∧ read image = .error .zeroSectorsPerFat) ∨
    (image.word16 0x0B ≠ 0 ∧ image.word16 0x16 ≠ 0 ∧ image.byte 0x10 = 0 ∧
      read image = .error .zeroFats) ∨
    (image.word16 0x0B ≠ 0 ∧ image.word16 0x16 ≠ 0 ∧ image.byte 0x10 ≠ 0 ∧
      ∃ v, read image = .ok v ∧ v.Describes (.decode image)) := by
  rw [read_of_size_le h]
  exact ofBootSector_cases (.decode image)

theorem read_encode_append (sector : BootSector) (tail : Bytes) :
    read (sector.encode ++ tail) = ofBootSector sector := by
  have hsize := sector.size_encode
  rw [read_of_size_le, BootSector.decode_encode]
  rw [Array.size_append]
  omega

/-- An image that is long enough is refused, if it is, for one of the three numbers. -/
theorem ofBootSector_ne_truncated (sector : BootSector) (n : Nat) :
    ofBootSector sector ≠ .error (.truncated n) := by
  rcases ofBootSector_cases sector with ⟨-, h⟩ | ⟨-, -, h⟩ | ⟨-, -, -, h⟩ | ⟨-, -, -, v, h, -⟩
  all_goals simp [h]

/-- **What is read from a boot sector.** An image is refused as too short if and only if it is, and
any other for the first of three numbers that is zero. The stored form of a boot sector whose
numbers are usable, with anything after it, gives a volume with all its fields; neither what comes
after it nor the jump, the byte without meaning and the boot code have a part in this. -/
theorem read_refuses_or_describes (image : Bytes) (sector : BootSector) (tail : Bytes) :
    (∀ n, read image = .error (.truncated n) ↔ image.size < BootSector.size ∧ n = image.size) ∧
    (BootSector.size ≤ image.size →
      (read image = .error .zeroBytesPerSector ↔ image.word16 0x0B = 0) ∧
      (read image = .error .zeroSectorsPerFat ↔ image.word16 0x0B ≠ 0 ∧ image.word16 0x16 = 0) ∧
      (read image = .error .zeroFats ↔
        image.word16 0x0B ≠ 0 ∧ image.word16 0x16 ≠ 0 ∧ image.byte 0x10 = 0) ∧
      ((∃ v, read image = .ok v) ↔
        image.word16 0x0B ≠ 0 ∧ image.word16 0x16 ≠ 0 ∧ image.byte 0x10 ≠ 0)) ∧
    (sector.bytesPerSector ≠ 0 → sector.sectorsPerFat ≠ 0 → sector.fatCount ≠ 0 →
      sector.encode.size = BootSector.size ∧
        ∃ v, read (sector.encode ++ tail) = .ok v ∧ v.Describes sector) ∧
    (∀ jump unused bootCode,
      read ({ sector with jump, unused, bootCode }.encode ++ tail) = read sector.encode) := by
  refine ⟨fun n ↦ ?_, fun h ↦ ?_, fun hb hs hf ↦ ⟨sector.size_encode, ?_⟩, fun _ _ _ ↦ ?_⟩
  · rcases Nat.lt_or_ge image.size BootSector.size with h | h
    · rw [read_of_size_lt h]
      simp [h, eq_comm]
    · rw [read_of_size_le h]
      simp [ofBootSector_ne_truncated, Nat.not_lt.2 h]
  · rcases read_cases h with
      ⟨hb, ho⟩ | ⟨hb, hs, ho⟩ | ⟨hb, hs, hf, ho⟩ | ⟨hb, hs, hf, v, ho, -⟩
    all_goals simp [*]
  · rw [read_encode_append]
    rcases ofBootSector_cases sector with ⟨h, -⟩ | ⟨-, h, -⟩ | ⟨-, -, h, -⟩ | ⟨-, -, -, v, h⟩
    · exact absurd h hb
    · exact absurd h hs
    · exact absurd h hf
    · exact ⟨v, h⟩
  · have hbare := read_encode_append sector #[]
    rw [Array.append_empty] at hbare
    rw [read_encode_append, hbare]
    rfl

/-- A boot sector whose fields can be told apart, of a volume that needs the 32-bit number. -/
def sampleSector : BootSector where
  jump := #v[0xEB, 0x3C, 0x90]
  oemName := ⟨.ofFn fun i ↦ .ofNat (0x41 + i.val)⟩
  bytesPerSector := 0x0200
  sectorsPerCluster := 0x04
  reservedSectors := 0x0006
  fatCount := 0x02
  rootEntries := 0x0170
  totalSectors16 := 0
  media := 0xF8
  sectorsPerFat := 0x00F1
  sectorsPerTrack := 0x003F
  heads := 0x00FF
  hiddenSectors := 0x00010203
  totalSectors32 := 0x04050607
  driveNumber := 0x80
  unused := 0x01
  extendedSignature := 0x29
  serialNumber := 0x0A0B0C0D
  label := ⟨.ofFn fun i ↦ .ofNat (0x61 + i.val)⟩
  fileSystem := ⟨.ofFn fun i ↦ .ofNat (0x30 + i.val)⟩
  bootCode := .ofFn fun i ↦ .ofNat i.val
  signature := .ofFn fun i ↦ .ofNat (0x55 * (i.val + 1))

/-- The sample with four more bytes is read in full, and 512 zeros have sectors without bytes. -/
theorem sampleSector_read_refuses_or_describes :
    (sampleSector.encode.size = BootSector.size ∧
      ∃ v, read (sampleSector.encode ++ #[1, 2, 3, 4]) = .ok v ∧ v.Describes sampleSector) ∧
    read (.replicate 512 0) = .error .zeroBytesPerSector := by
  obtain ⟨-, hrefused, haccepted, -⟩ :=
    read_refuses_or_describes (.replicate 512 0) sampleSector #[1, 2, 3, 4]
  have hsize : BootSector.size ≤ (Array.replicate 512 (0 : UInt8)).size := by
    simp [BootSector.size]
  have hzero : Bytes.word16 (.replicate 512 0) 0x0B = 0 := by
    simp [Bytes.word16, Bytes.byte]
  exact ⟨haccepted (by decide) (by decide) (by decide), (hrefused hsize).1.2 hzero⟩

end Volume

end Fat16
