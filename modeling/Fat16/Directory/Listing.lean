import Fat16.Volume

/-!
# Directory listings

A region of bytes lists the records before the first end mark, numbered from zero. Only whole
records count. Where there is no mark, the region has to end with a record; if it ends inside
one, the listing says so and keeps the entries before it.
-/

namespace Fat16

/-- A region ends inside a record. -/
structure PartialRecord where
  /-- Where that record starts. -/
  offset : Nat
  /-- How many bytes of it there are. -/
  available : Nat
  deriving DecidableEq

namespace PartialRecord

/-- What is wrong, without the numbers. -/
def summary : String := "Directory region truncated mid-entry"

/-- What is wrong. -/
def message (cut : PartialRecord) : String :=
  s!"{summary} (offset: {cut.offset}, {cut.available} of {Record.width} bytes)"

end PartialRecord

/-- An entry of a directory. -/
structure DirectoryEntry where
  /-- The number of its record in the directory. -/
  index : Nat
  /-- The name. -/
  name : FixedText 8
  /-- The extension. -/
  ext : FixedText 3
  /-- The attributes. -/
  attributes : Attributes
  /-- The first cluster. -/
  firstCluster : Cluster
  /-- The size in bytes. -/
  size : UInt32
  /-- What the entry is. -/
  kind : EntryKind
  /-- The sector where it starts; none for a deleted entry and where the cluster has no place. -/
  startSector : Option Nat
  deriving DecidableEq

namespace DirectoryEntry

/-- The entry that record number `index` holds. -/
def ofRecord (v : Volume) (index : Nat) (r : Record) : DirectoryEntry where
  index
  name := r.name
  ext := r.ext
  attributes := r.attributes
  firstCluster := r.cluster.toNat
  size := r.size
  kind := r.kind
  startSector := if r.kind = .deleted then none else v.clusterStartSector r.cluster.toNat

/-- Whether the entry has been deleted. -/
def isDeleted (e : DirectoryEntry) : Bool := e.kind == .deleted

/-- Whether the entry is a directory below this one. -/
def isSubdirectory (e : DirectoryEntry) : Bool := e.kind == .subdirectory

end DirectoryEntry

/-- What a region of bytes lists. -/
structure Listing where
  /-- The entries in order. -/
  entries : List DirectoryEntry
  /-- The record that the region ends in, if it does. -/
  cut : Option PartialRecord
  deriving DecidableEq

namespace Listing

/-- How many whole records a region has. -/
def recordCount (region : Bytes) : Nat := region.size / Record.width

/-- Record number `i` of a region. -/
def record (region : Bytes) (i : Nat) : Record := .decode region (Record.width * i)

/-- The numbers of the records before the first end mark. -/
def slots (region : Bytes) : List Nat :=
  (List.range (recordCount region)).takeWhile fun i ↦ !(record region i).isEndMark

/-- The record that a region ends in, if no end mark comes first. -/
def cutRecord (region : Bytes) : Option PartialRecord :=
  if (slots region).length < recordCount region then none
  else if region.size % Record.width = 0 then none
  else some ⟨Record.width * recordCount region, region.size % Record.width⟩

/-- The listing of a region. -/
def read (v : Volume) (region : Bytes) : Listing where
  entries := (slots region).map fun i ↦ .ofRecord v i (record region i)
  cut := cutRecord region

/-- The entries that are not deleted. -/
def active (listing : Listing) : List DirectoryEntry :=
  listing.entries.filter fun e ↦ !e.isDeleted

theorem length_slots_le (region : Bytes) : (slots region).length ≤ recordCount region := by
  have := (List.takeWhile_prefix (fun i ↦ !(record region i).isEndMark)
    (l := List.range (recordCount region))).length_le
  rwa [List.length_range] at this

/-- The records before the first end mark are numbered without gaps. -/
theorem slots_eq_range (region : Bytes) : slots region = List.range (slots region).length := by
  have hprefix : slots region <+: List.range (recordCount region) := List.takeWhile_prefix _
  have htake := List.prefix_iff_eq_take.1 hprefix
  rwa [List.take_range, Nat.min_eq_left (length_slots_le region)] at htake

/-- The entries of a listing are numbered without gaps. -/
theorem map_index_entries (v : Volume) (region : Bytes) :
    (read v region).entries.map DirectoryEntry.index
      = List.range (read v region).entries.length := by
  rw [read, List.map_map, List.length_map, ← slots_eq_range]
  exact List.map_id _

theorem pairwise_index_entries (v : Volume) (region : Bytes) :
    (read v region).entries.Pairwise fun e e' ↦ e.index < e'.index := by
  have hrange : (List.range (read v region).entries.length).Pairwise (· < ·) :=
    List.pairwise_lt_range
  rw [← map_index_entries] at hrange
  exact List.pairwise_map.1 hrange

/-- The number of an entry is its place in the listing. -/
theorem getElem?_index {v : Volume} {region : Bytes} {e : DirectoryEntry}
    (h : e ∈ (read v region).entries) : (read v region).entries[e.index]? = some e := by
  obtain ⟨i, hi⟩ := List.getElem?_of_mem h
  have hindex := congrArg (fun l ↦ l[i]?) (map_index_entries v region)
  obtain ⟨hlt, -⟩ := List.getElem?_eq_some_iff.1 hi
  simp only [List.getElem?_map, hi, List.getElem?_range hlt] at hindex
  rwa [Option.some.inj hindex]

/-- An entry that has not been deleted starts where its first cluster has its place. -/
theorem startSector_of_mem {v : Volume} {region : Bytes} {e : DirectoryEntry}
    (h : e ∈ (read v region).entries) (hkind : e.isDeleted = false) :
    e.startSector = v.clusterStartSector e.firstCluster := by
  obtain ⟨i, -, rfl⟩ := List.mem_map.1 h
  rw [DirectoryEntry.isDeleted, beq_eq_false_iff_ne] at hkind
  exact if_neg hkind

/-- A listing has no more entries than its region has room for. -/
theorem width_mul_length_entries_le (v : Volume) (region : Bytes) :
    Record.width * (read v region).entries.length ≤ region.size := by
  have h : (read v region).entries.length ≤ region.size / Record.width := by
    rw [read, List.length_map]
    exact length_slots_le region
  exact Nat.le_trans (Nat.mul_le_mul_left _ h) (Nat.mul_div_le _ _)

end Listing

end Fat16
