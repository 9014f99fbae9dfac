import Fat16.Proofs.BootSector

/-!
# Sectors and bytes

A place on a volume is given as a byte position or as the number of a sector. Positions are sums;
sector numbers are quotients, and rounded down. The two agree because nothing is lost on the way:
all that lies before the root directory is made of whole sectors, and so is a cluster. Only the
root directory is not. It is a number of records, which can end inside a sector, and then all
clusters begin inside one, each as far behind the start of its sector as the first.

The parts of a volume follow one another in the order in which they are named in the module on
volumes, and none reaches into the next.
-/

namespace Fat16.Volume

variable {v : Volume} {c d : Cluster}

/-! ## Whole sectors -/

theorem bytesPerSector_pos (v : Volume) : 0 < v.bytesPerSector.toNat :=
  Nat.pos_of_ne_zero fun h ↦ v.bytesPerSector_ne_zero (UInt16.toNat_inj.1 h)

/-- The root directory starts with a sector. -/
theorem dvd_rootStart (v : Volume) : v.bytesPerSector.toNat ∣ v.rootStart :=
  Nat.dvd_add (Nat.dvd_mul_left ..) (Nat.dvd_mul_left_of_dvd (Nat.dvd_mul_left ..) _)

theorem dvd_clusterSize (v : Volume) : v.bytesPerSector.toNat ∣ v.clusterSize :=
  Nat.dvd_mul_right ..

/-! ## Clusters -/

theorem clusterOffset_of_le (h : firstCluster ≤ c) :
    v.clusterOffset c = some (v.dataStart + (c - firstCluster) * v.clusterSize) := by
  rw [clusterOffset, if_neg (Nat.not_lt.2 h)]

theorem clusterStartSector_of_le (h : firstCluster ≤ c) :
    v.clusterStartSector c =
      some (v.dataStartSector + (c - firstCluster) * v.sectorsPerCluster.toNat) := by
  have hne : c ≠ 0 := by
    rintro rfl
    exact absurd h (by decide)
  rw [clusterStartSector, if_neg hne, if_neg (Nat.not_lt.2 h)]

/-- It makes no difference whether clusters are added as bytes, and the sum is rounded, or as
sectors to what has been rounded. -/
theorem dataStartSector_add (v : Volume) (n : Nat) :
    v.dataStartSector + n * v.sectorsPerCluster.toNat =
      (v.dataStart + n * v.clusterSize) / v.bytesPerSector.toNat := by
  have hbytes : n * v.clusterSize =
      n * v.sectorsPerCluster.toNat * v.bytesPerSector.toNat := by
    rw [clusterSize, Nat.mul_comm v.bytesPerSector.toNat, Nat.mul_assoc]
  rw [hbytes, Nat.add_mul_div_right _ _ v.bytesPerSector_pos, dataStartSector]

/-- A cluster begins with a sector if and only if the root directory ends with one. -/
theorem dvd_clusterOffset_iff (v : Volume) (n : Nat) :
    v.bytesPerSector.toNat ∣ v.dataStart + n * v.clusterSize ↔
      v.bytesPerSector.toNat ∣ v.rootSize := by
  have hclusters : v.bytesPerSector.toNat ∣ n * v.clusterSize :=
    Nat.dvd_mul_left_of_dvd v.dvd_clusterSize n
  rw [← Nat.dvd_add_iff_left hclusters, dataStart, ← Nat.dvd_add_iff_right v.dvd_rootStart]

/-- A cluster ends where the next one begins, or before. -/
theorem clusterOffset_add_le (v : Volume) {m n : Nat} (h : m < n) :
    v.dataStart + m * v.clusterSize + v.clusterSize ≤ v.dataStart + n * v.clusterSize := by
  have hle := Nat.mul_le_mul_right v.clusterSize (Nat.succ_le_of_lt h)
  rw [Nat.succ_mul] at hle
  omega

/-! ## The two views -/

/-- **Sectors and bytes.** The sector in which a cluster starts is the one with the cluster's first
byte, and the cluster starts with it if and only if the records of the root directory fill whole
sectors. The root directory always starts with its sector. The copies of the table, the root
directory and the clusters follow one another, and none begins before the one before it has
ended. -/
theorem clusterStartSector_agrees (v : Volume) (c d : Cluster) (hc : firstCluster ≤ c)
    (hd : c < d) :
    (∃ sector offset next, v.clusterStartSector c = some sector ∧
      v.clusterOffset c = some offset ∧ v.clusterOffset d = some next ∧
      sector = offset / v.bytesPerSector.toNat ∧
      sector * v.bytesPerSector.toNat ≤ offset ∧
      offset < (sector + 1) * v.bytesPerSector.toNat ∧
      (sector * v.bytesPerSector.toNat = offset ↔
        v.bytesPerSector.toNat ∣ 32 * v.rootEntries.toNat) ∧
      offset + v.clusterSize ≤ next) ∧
    (∃ sector, v.clusterStartSector 0 = some sector ∧
      sector * v.bytesPerSector.toNat = v.rootStart) ∧
    v.fatStart + v.fatCount.toNat * v.fatSize = v.rootStart ∧
    ∃ first, v.clusterOffset firstCluster = some first ∧ v.rootStart + v.rootSize ≤ first := by
  have hfirst : firstCluster ≤ d := Nat.le_of_lt (Nat.lt_of_le_of_lt hc hd)
  refine ⟨⟨_, _, _, clusterStartSector_of_le hc, clusterOffset_of_le hc,
    clusterOffset_of_le hfirst, v.dataStartSector_add _, ?_, ?_, ?_, ?_⟩, ?_, rfl, ?_⟩
  · rw [dataStartSector_add]
    exact Nat.div_mul_le_self ..
  · rw [dataStartSector_add, Nat.succ_mul]
    exact Nat.lt_div_mul_add v.bytesPerSector_pos
  · rw [dataStartSector_add, ← Nat.dvd_iff_div_mul_eq, dvd_clusterOffset_iff, rootSize,
      Nat.mul_comm, Record.width]
  · exact v.clusterOffset_add_le (Nat.sub_lt_sub_right hc hd)
  · exact ⟨_, rfl, Nat.div_mul_cancel v.dvd_rootStart⟩
  · exact ⟨_, clusterOffset_of_le (Nat.le_refl _), Nat.le_add_right ..⟩

/-- The sample volume with a root directory of 17 records, which end inside a sector. -/
def unalignedVolume : Volume :=
  (ofBootSector { sampleSector with rootEntries := 17 }).toOption.get rfl

theorem unalignedVolume_agrees :
    firstCluster ≤ 5 ∧ 5 < 9 ∧ unalignedVolume.clusterStartSector 5 = some 501 ∧
    unalignedVolume.clusterOffset 5 = some 256544 ∧
    unalignedVolume.clusterOffset 9 = some 264736 ∧ 501 = 256544 / 512 ∧
    (501 * 512 = 256544 ↔ 512 ∣ 32 * 17) ∧ 256544 + 2048 ≤ 264736 := by
  obtain ⟨⟨sector, offset, next, hsector, hoffset, hnext, hdiv, -, -, hiff, hle⟩, -⟩ :=
    clusterStartSector_agrees unalignedVolume 5 9 (by decide) (by decide)
  obtain rfl : 501 = sector := Option.some.inj hsector
  obtain rfl : 256544 = offset := Option.some.inj hoffset
  obtain rfl : 264736 = next := Option.some.inj hnext
  exact ⟨by decide, by decide, hsector, hoffset, hnext, hdiv, hiff, hle⟩

end Fat16.Volume
