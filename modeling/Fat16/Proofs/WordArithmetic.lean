import Mathlib.Algebra.Group.Nat.Defs
import Fat16.Inspection
import Fat16.Proofs.Geometry
import Fat16.Proofs.Partition

/-!
# Positions in words of 64 bits

Positions are natural numbers in this library. A machine computes them in words, where a sum or a
product that is too large wraps, and a division by zero is no number at all. The fields of a boot
sector are whatever an image says, so what a word has to hold is decided by the widths of the fields
alone.

To speak of every step of a computation, the computation is written out as a `Formula`, which has a
value over the natural numbers and one in words. `Formula.IsExact` says that the two are the same,
and `Formula.Computes` says it of every step. It is proved along the formula, with one rule for each
operation: a sum and a product ask for a bound on their result, and a quotient for a divisor that is
not zero. No position comes near the end of a word; the largest are below `2 ^ 41`.

One factor is not a field: the size of a directory is that of as many clusters as its chain has. No
cluster is in a chain twice, so a chain has no more clusters than the table.
-/

namespace Fat16

/-! ## Formulas -/

/-- A computation, written out. -/
inductive Formula where
  /-- A number that is given. -/
  | number (n : Nat)
  /-- A sum. -/
  | add (a b : Formula)
  /-- A product. -/
  | mul (a b : Formula)
  /-- A quotient, rounded down. -/
  | div (a b : Formula)

namespace Formula

variable {f a b : Formula} {k m n : Nat}

/-- The result over the natural numbers. -/
def value : Formula → Nat
  | number n => n
  | add a b => a.value + b.value
  | mul a b => a.value * b.value
  | div a b => a.value / b.value

/-- The result in words of 64 bits. -/
def word : Formula → UInt64
  | number n => .ofNat n
  | add a b => a.word + b.word
  | mul a b => a.word * b.word
  | div a b => a.word / b.word

/-- The formula and all that it is made of. -/
def parts : Formula → List Formula
  | number n => [number n]
  | add a b => add a b :: (a.parts ++ b.parts)
  | mul a b => mul a b :: (a.parts ++ b.parts)
  | div a b => div a b :: (a.parts ++ b.parts)

theorem mem_parts (f : Formula) : f ∈ f.parts := by
  cases f <;> exact List.mem_cons_self

/-- The last step of a computation in words is as good as one over the natural numbers. -/
structure IsExact (f : Formula) : Prop where
  /-- It does not wrap. -/
  toNat_word : f.word.toNat = f.value
  /-- It does not come near to it. -/
  value_lt : f.value < 2 ^ 42
  /-- It does not divide by zero. -/
  divisor_ne_zero : ∀ a b, f = div a b → b.word ≠ 0

/-- The formula gives `n`, and in words every step on the way is exact. -/
structure Computes (f : Formula) (n : Nat) : Prop where
  /-- The result is `n`. -/
  value_eq : f.value = n
  /-- Nothing is lost or undefined. -/
  exact : ∀ part ∈ f.parts, part.IsExact

namespace Computes

variable {bound : Nat}

theorem toNat_word (h : f.Computes n) : f.word.toNat = n := by
  rw [(h.exact f (mem_parts f)).toNat_word, h.value_eq]

theorem lt (h : f.Computes n) : n < 2 ^ 42 := by
  rw [← h.value_eq]
  exact (h.exact f (mem_parts f)).value_lt

theorem of_le (h : n ≤ bound) (hb : bound < 2 ^ 42) : (number n).Computes n where
  value_eq := rfl
  exact := by
    have hlt : n < 2 ^ 42 := Nat.lt_of_le_of_lt h hb
    rw [parts, List.forall_mem_singleton]
    exact ⟨UInt64.toNat_ofNat_of_lt' (Nat.lt_trans hlt (by decide)), hlt, nofun⟩

/-- An operation computes its result if its operands do, and it neither wraps nor divides by
zero. -/
theorem of_operands (ha : a.Computes m) (hb : b.Computes n)
    (hparts : f.parts = f :: (a.parts ++ b.parts)) (hvalue : f.value = k)
    (hword : f.word.toNat = k) (hk : k < 2 ^ 42) (hdiv : ∀ c d, f = div c d → d.word ≠ 0) :
    f.Computes k where
  value_eq := hvalue
  exact := by
    rw [hparts, List.forall_mem_cons, List.forall_mem_append]
    exact ⟨⟨hword.trans hvalue.symm, hvalue ▸ hk, hdiv⟩, ha.exact, hb.exact⟩

theorem add (ha : a.Computes m) (hb : b.Computes n) (h : m + n ≤ bound)
    (hlt : bound < 2 ^ 42) : (add a b).Computes (m + n) := by
  have hsum : m + n < 2 ^ 42 := Nat.lt_of_le_of_lt h hlt
  refine ha.of_operands hb rfl (by rw [value, ha.value_eq, hb.value_eq]) ?_ hsum nofun
  rw [word, UInt64.toNat_add, ha.toNat_word, hb.toNat_word,
    Nat.mod_eq_of_lt (Nat.lt_trans hsum (by decide))]

theorem mul (ha : a.Computes m) (hb : b.Computes n) (h : m * n ≤ bound)
    (hlt : bound < 2 ^ 42) : (mul a b).Computes (m * n) := by
  have hprod : m * n < 2 ^ 42 := Nat.lt_of_le_of_lt h hlt
  refine ha.of_operands hb rfl (by rw [value, ha.value_eq, hb.value_eq]) ?_ hprod nofun
  rw [word, UInt64.toNat_mul, ha.toNat_word, hb.toNat_word,
    Nat.mod_eq_of_lt (Nat.lt_trans hprod (by decide))]

theorem div (ha : a.Computes m) (hb : b.Computes n) (hn : n ≠ 0) :
    (div a b).Computes (m / n) := by
  refine ha.of_operands hb rfl (by rw [value, ha.value_eq, hb.value_eq]) ?_
    (Nat.lt_of_le_of_lt (Nat.div_le_self m n) ha.lt) fun c d hself hd ↦ hn ?_
  · rw [word, UInt64.toNat_div, ha.toNat_word, hb.toNat_word]
  · obtain ⟨-, rfl⟩ := Formula.div.inj hself
    rw [← hb.toNat_word, hd]
    rfl

/-- A field of a boot sector fits in a word. -/
theorem field16 (w : UInt16) : (Formula.number w.toNat).Computes w.toNat :=
  of_le (Nat.le_of_lt w.toNat_lt) (by decide)

theorem field8 (w : UInt8) : (Formula.number w.toNat).Computes w.toNat :=
  of_le (Nat.le_of_lt w.toNat_lt) (by decide)

end Computes

/-! ## The computations -/

variable (v : Volume)

/-- Where the first copy of the table starts. -/
def fatStart : Formula :=
  mul (number v.reservedSectors.toNat) (number v.bytesPerSector.toNat)

/-- The size of one copy of the table. -/
def fatSize : Formula := mul (number v.sectorsPerFat.toNat) (number v.bytesPerSector.toNat)

/-- Where the root directory starts. -/
def rootStart : Formula := add (fatStart v) (mul (number v.fatCount.toNat) (fatSize v))

/-- The size of the root directory. -/
def rootSize : Formula := mul (number v.rootEntries.toNat) (number Record.width)

/-- Where the clusters start. -/
def dataStart : Formula := add (rootStart v) (rootSize v)

/-- The size of a cluster. -/
def clusterSize : Formula :=
  mul (number v.bytesPerSector.toNat) (number v.sectorsPerCluster.toNat)

/-- The sector in which the root directory starts. -/
def rootStartSector : Formula := div (rootStart v) (number v.bytesPerSector.toNat)

/-- The sector in which the clusters start. -/
def dataStartSector : Formula := div (dataStart v) (number v.bytesPerSector.toNat)

/-- Where a cluster starts. -/
def clusterOffset (c : Cluster) : Formula :=
  add (dataStart v) (mul (number (c - firstCluster)) (clusterSize v))

/-- The sector that a directory entry means by its cluster number. -/
def clusterStartSector (c : Cluster) : Formula :=
  if c = 0 then rootStartSector v
  else
    add (dataStartSector v) (mul (number (c - firstCluster)) (number v.sectorsPerCluster.toNat))

/-- The size of a directory that is read from a chain. -/
def chainSize (chain : Chain) : Formula := mul (number chain.length) (clusterSize v)

/-- The sectors of a table, as the report gives them. -/
def tableSectors (summary : TableSummary) : Formula :=
  div (number summary.sizeBytes) (number v.bytesPerSector.toNat)

end Formula

/-! ## Bounds -/

namespace Volume

variable (v : Volume)

theorem le_of_field16 (w : UInt16) : w.toNat ≤ 65535 := Nat.le_of_lt_succ w.toNat_lt

theorem le_of_field8 (w : UInt8) : w.toNat ≤ 255 := Nat.le_of_lt_succ w.toNat_lt

theorem fatStart_le : v.fatStart ≤ 65535 * 65535 :=
  Nat.mul_le_mul (le_of_field16 _) (le_of_field16 _)

theorem fatSize_le : v.fatSize ≤ 65535 * 65535 :=
  Nat.mul_le_mul (le_of_field16 _) (le_of_field16 _)

/-- The size of all copies of the table. -/
theorem fatCount_mul_fatSize_le : v.fatCount.toNat * v.fatSize ≤ 255 * (65535 * 65535) :=
  Nat.mul_le_mul (le_of_field8 _) v.fatSize_le

theorem rootStart_le : v.rootStart ≤ 256 * (65535 * 65535) :=
  Nat.le_trans (Nat.add_le_add v.fatStart_le v.fatCount_mul_fatSize_le) (by decide)

theorem rootSize_le : v.rootSize ≤ 65535 * 32 := Nat.mul_le_mul_right _ (le_of_field16 _)

theorem dataStart_le : v.dataStart ≤ 256 * (65535 * 65535) + 65535 * 32 :=
  Nat.add_le_add v.rootStart_le v.rootSize_le

theorem clusterSize_le : v.clusterSize ≤ 65535 * 255 :=
  Nat.mul_le_mul (le_of_field16 _) (le_of_field8 _)

theorem dataStartSector_le : v.dataStartSector ≤ 256 * (65535 * 65535) + 65535 * 32 :=
  Nat.le_trans (Nat.div_le_self ..) v.dataStart_le

/-- No cluster lies further behind the first than this many cluster sizes. -/
theorem sub_firstCluster_le (c : UInt16) : c.toNat - firstCluster ≤ 65535 :=
  Nat.le_trans (Nat.sub_le ..) (le_of_field16 c)

theorem size_table_le (image : Bytes) : (v.table image).bytes.size ≤ v.fatSize := by
  rw [table, Bytes.size_window]
  exact Nat.min_le_left ..

end Volume

/-- A chain has no more clusters than a table can have. -/
theorem Table.Gives.length_le_maxEntries {t : Table} {chain : Chain} (h : t.Gives chain) :
    chain.length ≤ maxEntries :=
  Nat.le_trans h.length_le (Nat.le_trans (Nat.sub_le ..) (Nat.min_le_right ..))

/-! ## Every computation is exact -/

namespace Formula

open Computes Volume

variable (v : Volume)

theorem computes_fatStart : (fatStart v).Computes v.fatStart :=
  (field16 _).mul (field16 _) v.fatStart_le (by decide)

theorem computes_fatSize : (fatSize v).Computes v.fatSize :=
  (field16 _).mul (field16 _) v.fatSize_le (by decide)

theorem computes_rootStart : (rootStart v).Computes v.rootStart := by
  have hcopies :=
    (field8 v.fatCount).mul (computes_fatSize v) v.fatCount_mul_fatSize_le (by decide)
  exact (computes_fatStart v).add hcopies v.rootStart_le (by decide)

theorem computes_rootSize : (rootSize v).Computes v.rootSize :=
  (field16 _).mul (of_le (Nat.le_refl _) (by decide)) v.rootSize_le (by decide)

theorem computes_dataStart : (dataStart v).Computes v.dataStart :=
  (computes_rootStart v).add (computes_rootSize v) v.dataStart_le (by decide)

theorem computes_clusterSize : (clusterSize v).Computes v.clusterSize :=
  (field16 _).mul (field8 _) v.clusterSize_le (by decide)

theorem computes_rootStartSector : (rootStartSector v).Computes v.rootStartSector :=
  (computes_rootStart v).div (field16 _) v.bytesPerSector_pos.ne'

theorem computes_dataStartSector : (dataStartSector v).Computes v.dataStartSector :=
  (computes_dataStart v).div (field16 _) v.bytesPerSector_pos.ne'

/-- As many clusters as there can be have a size that fits. -/
theorem computes_clusters {n : Nat} (hn : n ≤ maxEntries) :
    (mul (number n) (clusterSize v)).Computes (n * v.clusterSize) :=
  (of_le hn (by decide)).mul (computes_clusterSize v) (Nat.mul_le_mul hn v.clusterSize_le)
    (by decide)

theorem computes_clusterOffset (c : UInt16) : (clusterOffset v c.toNat).Computes
    (v.dataStart + (c.toNat - firstCluster) * v.clusterSize) := by
  have hc := sub_firstCluster_le c
  have hclusters := computes_clusters v (Nat.le_succ_of_le hc)
  exact (computes_dataStart v).add hclusters
    (Nat.add_le_add v.dataStart_le (Nat.mul_le_mul hc v.clusterSize_le)) (by decide)

theorem computes_clusterStartSector (c : UInt16) (h : c.toNat ≠ 0) :
    (clusterStartSector v c.toNat).Computes
      (v.dataStartSector + (c.toNat - firstCluster) * v.sectorsPerCluster.toNat) := by
  have hc := sub_firstCluster_le c
  have hle := Nat.mul_le_mul hc (le_of_field8 v.sectorsPerCluster)
  have hsectors := (of_le hc (by decide)).mul (field8 v.sectorsPerCluster) hle (by decide)
  rw [clusterStartSector, if_neg h]
  exact (computes_dataStartSector v).add hsectors (Nat.add_le_add v.dataStartSector_le hle)
    (by decide)

theorem computes_tableSectors (image : Bytes) :
    (tableSectors v (v.table image).summary).Computes
      ((v.table image).summary.sizeBytes / v.bytesPerSector.toNat) := by
  have hsize : (v.table image).summary.sizeBytes ≤ 65535 * 65535 :=
    Nat.le_trans (v.size_table_le image) v.fatSize_le
  exact (of_le hsize (by decide)).div (field16 _) v.bytesPerSector_pos.ne'

/-- **No position wraps.** Whatever a boot sector says, in words of 64 bits every part of a volume
is where it is in the natural numbers, and has the size that it has there. So is every cluster with
a number of 16 bits that has a place at all, and so has every directory that is read from a chain of
a table. No step on the way comes to `2 ^ 42`, and none divides by zero. -/
theorem layout_computes (v : Volume) (image : Bytes) (t : Table) :
    (fatStart v).Computes v.fatStart ∧ (fatSize v).Computes v.fatSize ∧
    (rootStart v).Computes v.rootStart ∧ (rootSize v).Computes v.rootSize ∧
    (dataStart v).Computes v.dataStart ∧ (clusterSize v).Computes v.clusterSize ∧
    (rootStartSector v).Computes v.rootStartSector ∧
    (dataStartSector v).Computes v.dataStartSector ∧
    (tableSectors v (v.table image).summary).Computes
      ((v.table image).summary.sizeBytes / v.bytesPerSector.toNat) ∧
    (∀ c : UInt16, firstCluster ≤ c.toNat →
      ∃ offset, v.clusterOffset c.toNat = some offset ∧
        (clusterOffset v c.toNat).Computes offset) ∧
    (∀ c : UInt16, c.toNat ≠ 1 →
      ∃ sector, v.clusterStartSector c.toNat = some sector ∧
        (clusterStartSector v c.toNat).Computes sector) ∧
    ∀ chain, t.Gives chain →
      (chainSize v chain).Computes (chain.length * v.clusterSize) := by
  refine ⟨computes_fatStart v, computes_fatSize v, computes_rootStart v, computes_rootSize v,
    computes_dataStart v, computes_clusterSize v, computes_rootStartSector v,
    computes_dataStartSector v, computes_tableSectors v image, fun c hc ↦ ?_, fun c hc ↦ ?_,
    fun chain hchain ↦ computes_clusters v hchain.length_le_maxEntries⟩
  · exact ⟨_, clusterOffset_of_le hc, computes_clusterOffset v c⟩
  · by_cases hzero : c.toNat = 0
    · rw [hzero]
      exact ⟨_, rfl, computes_rootStartSector v⟩
    · have hle : firstCluster ≤ c.toNat := Nat.two_le_iff _ |>.2 ⟨hzero, hc⟩
      exact ⟨_, clusterStartSector_of_le hle, computes_clusterStartSector v c hzero⟩

/-- The volume on which all positions are as large as they can be. -/
def largestVolume : Volume :=
  (ofBootSector { sampleSector with
    bytesPerSector := 0xFFFF
    sectorsPerCluster := 0xFF
    reservedSectors := 0xFFFF
    fatCount := 0xFF
    rootEntries := 0xFFFF
    sectorsPerFat := 0xFFFF }).toOption.get rfl

theorem largestVolume_computes :
    firstCluster ≤ (0xFFFF : UInt16).toNat ∧
    largestVolume.clusterOffset 0xFFFF = some 2194629985245 ∧
    (clusterOffset largestVolume 0xFFFF).Computes 2194629985245 ∧
    (0xFFFF : UInt16).toNat ≠ 1 ∧
    largestVolume.clusterStartSector 0xFFFF = some 33487907 ∧
    (clusterStartSector largestVolume 0xFFFF).Computes 33487907 ∧
    Table.sample.Gives ⟨4, [4, 2, 5], .broken 5 .free⟩ ∧
    (chainSize largestVolume ⟨4, [4, 2, 5], .broken 5 .free⟩).Computes (3 * 16711425) := by
  have hchain : Table.sample.resolve 4 = ⟨4, [4, 2, 5], .broken 5 .free⟩ := by decide +kernel
  have hgives : Table.sample.Gives ⟨4, [4, 2, 5], .broken 5 .free⟩ := hchain ▸ .resolved 4
  obtain ⟨-, -, -, -, -, -, -, -, -, hoffset, hsector, hsize⟩ :=
    layout_computes largestVolume #[] Table.sample
  obtain ⟨offset, hoffset, hcomputes⟩ := hoffset 0xFFFF (by decide)
  obtain rfl : 2194629985245 = offset := Option.some.inj hoffset
  obtain ⟨sector, hsector, hcomputes'⟩ := hsector 0xFFFF (by decide)
  obtain rfl : 33487907 = sector := Option.some.inj hsector
  exact ⟨by decide, hoffset, hcomputes, by decide, hsector, hcomputes', hgives, hsize _ hgives⟩

end Formula

end Fat16
