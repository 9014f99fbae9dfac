import Fat16.Bytes

/-!
# The allocation table

A table is one copy of the file allocation table: a run of 16-bit numbers, one for each cluster.
The number at a cluster says whether the cluster is free, which cluster follows it in its chain,
or that the chain ends there. The first two entries belong to no cluster; they hold the media
identifier and the end-of-chain mark.

Cluster numbers are 16 bits wide, so at most `65536` entries of a longer table count, and an odd
byte at the end is no entry. `Table.IsData` singles out the numbers that can be members of a chain.
-/

namespace Fat16

/-- The number of a cluster, which is also the index of its entry in the table. -/
abbrev Cluster := Nat

/-- Clusters are numbered from here; the entries before it are reserved. -/
def firstCluster : Cluster := 2

/-- No more entries than this have a number. -/
def maxEntries : Nat := 65536

/-- What an entry of the table says. -/
inductive TableEntry where
  /-- The cluster is in no chain. -/
  | free
  /-- One of the entries before the first cluster, with what is stored there. -/
  | reserved (raw : UInt16)
  /-- The chain goes on at `next`. -/
  | pointer (next : Cluster)
  /-- The chain ends here. Several numbers say so, and the stored one is kept. -/
  | endOfChain (raw : UInt16)
  deriving DecidableEq

namespace TableEntry

/-- What a number stored at a cluster says. -/
def ofRaw (raw : UInt16) : TableEntry :=
  if raw = 0 then .free
  else if 0xFFF8 ≤ raw then .endOfChain raw
  else .pointer raw.toNat

/-- The name of an entry in messages. -/
def text : TableEntry → String
  | .free => "free"
  | .reserved _ => "reserved"
  | .pointer next => s!"pointer({next})"
  | .endOfChain _ => "end-of-chain"

end TableEntry

/-- An entry was asked for that the table does not have. -/
structure LookupFault where
  /-- The index asked for. -/
  index : Nat
  /-- The number of entries that there are. -/
  entryCount : Nat
  deriving DecidableEq

namespace LookupFault

/-- What went wrong, without the numbers. -/
def summary : String := "Cluster index outside the FAT"

/-- What went wrong. -/
def message (fault : LookupFault) : String :=
  s!"{summary} (index: {fault.index}, entries: {fault.entryCount})"

end LookupFault

/-- One copy of the allocation table. -/
structure Table where
  /-- The stored table, of any length. -/
  bytes : Bytes
  deriving DecidableEq

namespace Table

/-- How many entries the table has. -/
def entryCount (t : Table) : Nat := min (t.bytes.size / 2) maxEntries

/-- The number stored at index `i`. -/
def rawAt (t : Table) (i : Nat) : Except LookupFault UInt16 :=
  if i < t.entryCount then .ok (t.bytes.word16 (2 * i)) else .error ⟨i, t.entryCount⟩

/-- What the entry at index `i` says. -/
def entryAt (t : Table) (i : Nat) : Except LookupFault TableEntry :=
  (t.rawAt i).map fun raw ↦ if i < firstCluster then .reserved raw else .ofRaw raw

/-- The media identifier, zero in an empty table. -/
def mediaId (t : Table) : UInt16 := (t.rawAt 0).toOption.getD 0

/-- The end-of-chain mark, zero where the table is too short to have one. -/
def endMark (t : Table) : UInt16 := (t.rawAt 1).toOption.getD 0

/-- Whether `c` is the number of a cluster of this table, so that it can be in a chain. -/
def IsData (t : Table) (c : Cluster) : Prop := firstCluster ≤ c ∧ c < t.entryCount

instance (t : Table) (c : Cluster) : Decidable (t.IsData c) :=
  inferInstanceAs (Decidable (_ ∧ _))

/-- Whether the entry of `c` says that `c` is free. -/
def isFree (t : Table) (c : Cluster) : Bool := (t.entryAt c).toOption == some .free

/-- A cluster's entry is what the number stored there says. -/
theorem entryAt_of_isData {t : Table} {c : Cluster} (h : t.IsData c) :
    t.entryAt c = .ok (.ofRaw (t.bytes.word16 (2 * c))) := by
  rw [entryAt, rawAt, if_pos h.2]
  simp only [Except.map, if_neg (Nat.not_lt.2 h.1)]

end Table

end Fat16
