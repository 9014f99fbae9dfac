import Fat16.Directory.Listing
import Fat16.Proofs.Layout

/-!
# Directory records

Every field of a record is read from where it is written (`Record.window_eq_encode_iff`), so a
record and its 32 bytes determine one another.

`Record.kind` decides what a record is by tests in an order. `Record.IsOfKind` says for each kind
when a record is of it, without an order; the two agree (`Record.kind_eq_iff`).
-/

namespace Fat16

namespace Record

variable {region : Bytes} {r : Record} {i : Nat}

/-! ## Stored form -/

theorem size_encode (r : Record) : r.encode.size = width := by
  simp [encode, Bytes.concat, width]

/-- Bytes of a region are those of a record if and only if it is read from them. -/
theorem window_eq_encode_iff (h : i + width ≤ region.size) :
    region.window i width = r.encode ↔ decode region i = r := by
  rw [width] at h
  rw [← r.size_encode, encode, Bytes.laysOut_iff]
  simp (disch := omega) only [Bytes.LaysOut, Vector.size_toArray, Bytes.size_ofWord16,
    Bytes.size_ofWord32, List.size_toArray, List.length_cons, List.length_nil, Nat.add_assoc,
    Nat.reduceAdd, Bytes.window_eq_toArray_iff, Bytes.window_eq_singleton_iff,
    Bytes.window_eq_ofWord16_iff, Bytes.window_eq_ofWord32_iff]
  rcases r with ⟨name, ext, ⟨bits⟩⟩
  simp only [decode, mk.injEq, FixedText.read_eq_iff, Attributes.mk.injEq, and_true]

/-- Reading undoes writing. -/
theorem decode_encode (r : Record) : decode r.encode 0 = r := by
  rw [← window_eq_encode_iff]
  · rw [← r.size_encode, Bytes.window_size]
  · exact Nat.le_of_eq (by rw [Nat.zero_add, size_encode])

/-- Writing undoes reading. -/
theorem encode_decode (h : region.size = width) : (decode region 0).encode = region := by
  have hwindow : region.window 0 width = (decode region 0).encode :=
    (window_eq_encode_iff (by omega)).2 rfl
  rw [← hwindow, ← h, Bytes.window_size]

/-- A record is read from its own bytes. -/
theorem decode_window (h : i + width ≤ region.size) :
    decode (region.window i width) 0 = decode region i := by
  rw [(window_eq_encode_iff h).2 rfl, decode_encode]

theorem firstByte_decode (region : Bytes) (i : Nat) :
    (decode region i).firstByte = region.byte i := by
  simp [firstByte, decode, FixedText.read, Bytes.field]

/-! ## Kinds -/

/-- The name and the extension as one text. -/
def fullName (r : Record) : Vector UInt8 11 := r.name.bytes ++ r.ext.bytes

/-- The names of a directory itself and of the one above: a dot and two dots, padded with spaces. -/
def dotNames : List (Vector UInt8 11) :=
  [#v[0x2E, 0x20, 0x20, 0x20, 0x20, 0x20, 0x20, 0x20, 0x20, 0x20, 0x20],
    #v[0x2E, 0x2E, 0x20, 0x20, 0x20, 0x20, 0x20, 0x20, 0x20, 0x20, 0x20]]

theorem isDots_iff : r.isDots = true ↔ r.fullName ∈ dotNames := by
  have hfull : ∀ (name : Vector UInt8 8) (ext : Vector UInt8 3),
      r.fullName = name ++ ext ↔ r.name.bytes = name ∧ r.ext.bytes = ext := by
    intro name ext
    rw [fullName]
    constructor
    · exact Vector.append_inj
    · rintro ⟨hname, hext⟩
      rw [hname, hext]
  have hdot := hfull #v[0x2E, 0x20, 0x20, 0x20, 0x20, 0x20, 0x20, 0x20] #v[0x20, 0x20, 0x20]
  have hdots := hfull #v[0x2E, 0x2E, 0x20, 0x20, 0x20, 0x20, 0x20, 0x20] #v[0x20, 0x20, 0x20]
  rw [dotNames, List.mem_pair, isDots, Bool.and_eq_true, Bool.or_eq_true, beq_iff_eq, beq_iff_eq,
    beq_iff_eq, or_and_right]
  exact or_congr hdot.symm hdots.symm

/-- When a record is of a kind. -/
def IsOfKind (r : Record) : EntryKind → Prop
  | .deleted => r.firstByte = 0xE5
  | .selfOrParent =>
    r.firstByte ≠ 0xE5 ∧ r.attributes.bits &&& 0x10 ≠ 0 ∧ r.fullName ∈ dotNames
  | .subdirectory =>
    r.firstByte ≠ 0xE5 ∧ r.attributes.bits &&& 0x10 ≠ 0 ∧ r.fullName ∉ dotNames
  | .volumeLabel =>
    r.firstByte ≠ 0xE5 ∧ r.attributes.bits &&& 0x10 = 0 ∧ r.attributes.bits &&& 0x08 ≠ 0
  | .file =>
    r.firstByte ≠ 0xE5 ∧ r.attributes.bits &&& 0x10 = 0 ∧ r.attributes.bits &&& 0x08 = 0

theorem kind_eq_iff {k : EntryKind} : r.kind = k ↔ r.IsOfKind k := by
  have hdirectory : r.attributes.has .directory = true ↔ r.attributes.bits &&& 0x10 ≠ 0 :=
    bne_iff_ne
  have hvolumeId : r.attributes.has .volumeId = true ↔ r.attributes.bits &&& 0x08 ≠ 0 :=
    bne_iff_ne
  have hdeleted : r.isDeleted = true ↔ r.firstByte = 0xE5 := beq_iff_eq
  simp only [kind, hdirectory, hvolumeId, hdeleted, isDots_iff]
  by_cases hmark : r.firstByte = 0xE5
  · cases k <;> simp [IsOfKind, hmark]
  by_cases hbit : r.attributes.bits &&& 0x10 = 0
  · by_cases hlabel : r.attributes.bits &&& 0x08 = 0
    all_goals cases k <;> simp [IsOfKind, hmark, hbit, hlabel]
  · by_cases hname : r.fullName ∈ dotNames
    all_goals cases k <;> simp [IsOfKind, hmark, hbit, hname]

end Record

/-! ## Entries -/

namespace Volume

/-- Of the two reserved cluster numbers, only one has no sector. -/
theorem clusterStartSector_eq_none_iff {v : Volume} {c : Cluster} :
    v.clusterStartSector c = none ↔ c = 1 := by
  match (c : Nat) with
  | 0 => simp [clusterStartSector]
  | 1 => simp [clusterStartSector, firstCluster]
  | n + 2 => simp [clusterStartSector, firstCluster]

end Volume

namespace DirectoryEntry

/-- The entry, number `index` of its directory, shows what the record holds. -/
structure Shows (e : DirectoryEntry) (index : Nat) (r : Record) : Prop where
  index_eq : e.index = index
  name_eq : e.name = r.name
  ext_eq : e.ext = r.ext
  /-- Bits without a meaning are kept. -/
  bits_eq : e.attributes.bits = r.attributes.bits
  firstCluster_eq : e.firstCluster = r.cluster.toNat
  size_eq : e.size = r.size
  kind_eq_iff : ∀ k, e.kind = k ↔ r.IsOfKind k
  startSector_eq_none_iff : e.startSector = none ↔ r.firstByte = 0xE5 ∨ r.cluster = 1

/-- An entry starts where its cluster has its place, unless it has been deleted. -/
theorem startSector_ofRecord (v : Volume) (index : Nat) (r : Record) :
    (ofRecord v index r).startSector =
      if r.firstByte = 0xE5 then none else v.clusterStartSector r.cluster.toNat := by
  have hdeleted : r.kind = .deleted ↔ r.firstByte = 0xE5 := Record.kind_eq_iff
  simp only [ofRecord, hdeleted]

theorem shows_ofRecord (v : Volume) (index : Nat) (r : Record) :
    (ofRecord v index r).Shows index r where
  index_eq := rfl
  name_eq := rfl
  ext_eq := rfl
  bits_eq := rfl
  firstCluster_eq := rfl
  size_eq := rfl
  kind_eq_iff _ := Record.kind_eq_iff
  startSector_eq_none_iff := by
    have hcluster : v.clusterStartSector r.cluster.toNat = none ↔ r.cluster = 1 := by
      rw [Volume.clusterStartSector_eq_none_iff, ← UInt16.toNat_inj]
      rfl
    rw [startSector_ofRecord, ← hcluster]
    split_ifs with h
    · simp [h]
    · simp [h]

end DirectoryEntry

end Fat16
