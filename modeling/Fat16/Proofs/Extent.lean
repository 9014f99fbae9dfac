import Mathlib.Data.List.Flatten
import Mathlib.Data.List.Nodup
import Mathlib.Data.List.TakeWhile
import Fat16.Proofs.Bytes
import Fat16.Region

/-!
# Where the bytes of a region come from

A region holds bytes of the image, and this module says which. The positions of a window are those
of its bytes (`Bytes.positions`), and the positions of a chain are those of the clusters that were
read, one cluster after another (`Volume.chainPositions`). A region is the image at its positions.

Clusters follow one another behind the root directory, so no position belongs to two clusters, or
to a cluster and the root directory. This needs nothing of the geometry. Where clusters have no
bytes they all lie at the same place, but then they have no positions either.
-/

namespace Fat16

namespace Bytes

variable {image : Bytes} {offset length i : Nat}

/-- The positions of the bytes of a window. -/
def positions (image : Bytes) (offset length : Nat) : List Nat :=
  List.range' offset (image.window offset length).size

theorem mem_positions :
    i ∈ image.positions offset length ↔
      offset ≤ i ∧ i < offset + length ∧ i < image.size := by
  rw [positions, List.mem_range'_1, size_window]
  omega

theorem toList_window (image : Bytes) (offset length : Nat) :
    (image.window offset length).toList = (image.positions offset length).map image.byte := by
  apply List.ext_getElem
  · simp [positions]
  · intro k h₁ h₂
    have hk : offset + k < image.size := by
      rw [Array.length_toList, size_window] at h₁
      omega
    simp [window, positions, byte, hk]

end Bytes

namespace Volume

variable {v : Volume} {image : Bytes} {c d : Cluster} {clusters : List Cluster} {i : Nat}

/-! ## Positions of clusters -/

/-- The positions of the bytes of a cluster. -/
def clusterPositions (v : Volume) (image : Bytes) (c : Cluster) : List Nat :=
  match v.clusterOffset c with
  | none => []
  | some offset => image.positions offset v.clusterSize

/-- The clusters of a chain that are read. -/
def readClusters (v : Volume) (image : Bytes) (clusters : List Cluster) : List Cluster :=
  let whole c := v.isWhole (v.clusterBytes image c)
  clusters.takeWhile whole ++ (clusters.dropWhile whole).take 1

/-- The positions of the bytes of a chain. -/
def chainPositions (v : Volume) (image : Bytes) (clusters : List Cluster) : List Nat :=
  (v.readClusters image clusters).flatMap (v.clusterPositions image)

theorem toList_clusterBytes (v : Volume) (image : Bytes) (c : Cluster) :
    (v.clusterBytes image c).toList = (v.clusterPositions image c).map image.byte := by
  rw [clusterBytes, clusterPositions]
  cases v.clusterOffset c with
  | none => rfl
  | some offset => exact image.toList_window offset v.clusterSize

/-- The region of a chain is the image at the positions of the chain. -/
theorem toList_chainRegion (v : Volume) (image : Bytes) (clusters : List Cluster) :
    (v.chainRegion image clusters).toList = (v.chainPositions image clusters).map image.byte := by
  have hparts : (clusters.map (v.clusterBytes image)).takeWhile v.isWhole ++
      ((clusters.map (v.clusterBytes image)).dropWhile v.isWhole).take 1 =
        (v.readClusters image clusters).map (v.clusterBytes image) := by
    rw [List.takeWhile_map, List.dropWhile_map, ← List.map_take, ← List.map_append]
    rfl
  rw [chainRegion, hparts, Bytes.toList_concat, List.flatMap_map, chainPositions, List.map_flatMap]
  simp only [toList_clusterBytes]

theorem mem_clusterPositions (h : i ∈ v.clusterPositions image c) :
    firstCluster ≤ c ∧ v.dataStart + (c - firstCluster) * v.clusterSize ≤ i ∧
      i < v.dataStart + (c - firstCluster) * v.clusterSize + v.clusterSize ∧ i < image.size := by
  rw [clusterPositions, clusterOffset] at h
  split at h
  · cases h
  · rename_i offset hoffset
    split at hoffset
    case isTrue => cases hoffset
    case isFalse hc =>
      cases hoffset
      exact ⟨Nat.le_of_not_lt hc, Bytes.mem_positions.1 h⟩

/-- No position belongs to two clusters. -/
theorem eq_of_mem_clusterPositions (hc : i ∈ v.clusterPositions image c)
    (hd : i ∈ v.clusterPositions image d) : c = d := by
  -- the number of a cluster can be read off each of its positions
  have hnumber : ∀ e, i ∈ v.clusterPositions image e →
      e = firstCluster + (i - v.dataStart) / v.clusterSize := by
    intro e he
    obtain ⟨hfirst, hle, hlt, -⟩ := mem_clusterPositions he
    have hdiv : (i - v.dataStart) / v.clusterSize = e - firstCluster := by
      refine Nat.div_eq_of_lt_le (Nat.le_sub_of_add_le' hle) ?_
      rw [Nat.add_mul, Nat.one_mul]
      omega
    rw [hdiv, Nat.add_sub_of_le hfirst]
  exact (hnumber c hc).trans (hnumber d hd).symm

theorem nodup_clusterPositions (v : Volume) (image : Bytes) (c : Cluster) :
    (v.clusterPositions image c).Nodup := by
  rw [clusterPositions]
  cases v.clusterOffset c with
  | none => exact List.nodup_nil
  | some offset => exact List.nodup_range'

theorem nodup_flatMap_clusterPositions (h : clusters.Nodup) :
    (clusters.flatMap (v.clusterPositions image)).Nodup := by
  refine List.nodup_flatMap.2 ⟨fun c _ ↦ v.nodup_clusterPositions image c, h.imp fun hne ↦ ?_⟩
  exact fun i hc hd ↦ hne (eq_of_mem_clusterPositions hc hd)

/-- The positions of a chain are among those of its clusters. -/
theorem chainPositions_sublist (v : Volume) (image : Bytes) (clusters : List Cluster) :
    (v.chainPositions image clusters).Sublist (clusters.flatMap (v.clusterPositions image)) := by
  have hread : (v.readClusters image clusters).Sublist clusters := by
    have h := (List.take_sublist 1 (clusters.dropWhile fun c ↦
      v.isWhole (v.clusterBytes image c))).append_left
        (clusters.takeWhile fun c ↦ v.isWhole (v.clusterBytes image c))
    rwa [List.takeWhile_append_dropWhile] at h
  exact hread.flatMap _

/-! ## Positions of the root directory -/

/-- The positions of the bytes of the root directory. -/
def rootPositions (v : Volume) (image : Bytes) : List Nat := image.positions v.rootStart v.rootSize

theorem nodup_rootPositions (v : Volume) (image : Bytes) : (v.rootPositions image).Nodup :=
  List.nodup_range'

/-- The root directory lies before all clusters. -/
theorem disjoint_rootPositions (v : Volume) (image : Bytes) (clusters : List Cluster) :
    (v.rootPositions image).Disjoint (clusters.flatMap (v.clusterPositions image)) := by
  intro i hroot hclusters
  obtain ⟨c, -, hc⟩ := List.mem_flatMap.1 hclusters
  obtain ⟨-, hlt, -⟩ := Bytes.mem_positions.1 hroot
  obtain ⟨-, hle, -⟩ := mem_clusterPositions hc
  exact Nat.not_lt.2 (Nat.le_of_add_right_le hle) hlt

end Volume

end Fat16
