import Fat16.Volume

/-!
# Regions of an image

The bytes that the parts of a volume are read from. The geometry says where a part lies and how
long it is, but the image may end before that; every region is what there is of it.

A chain is read cluster by cluster. Where the image cuts a cluster, the bytes after it would no
longer line up with those before, so the region of a chain ends there (`Volume.chainRegion`). It
is never longer than the clusters of the chain (`Volume.size_chainRegion_le`).
-/

namespace Fat16

namespace Volume

variable (v : Volume) (image : Bytes)

/-- The first copy of the table, as far as the image goes. -/
def table : Table := ⟨image.window v.fatStart v.fatSize⟩

/-- The bytes of the root directory, as far as the image goes. -/
def rootRegion : Bytes := image.window v.rootStart v.rootSize

/-- The bytes of a cluster as far as the image goes. -/
def clusterBytes (c : Cluster) : Bytes :=
  match v.clusterOffset c with
  | none => #[]
  | some offset => image.window offset v.clusterSize

/-- Whether a cluster lies wholly inside the image. -/
def isWhole (bytes : Bytes) : Bool := v.clusterSize ≤ bytes.size

/-- The bytes of a chain. The first cluster that the image cuts is the last one that lines up with
those before it, so nothing after it counts. -/
def chainRegion (clusters : List Cluster) : Bytes :=
  let parts := clusters.map (v.clusterBytes image)
  .concat (parts.takeWhile v.isWhole ++ (parts.dropWhile v.isWhole).take 1)

theorem size_clusterBytes_le (c : Cluster) : (v.clusterBytes image c).size ≤ v.clusterSize := by
  unfold clusterBytes
  split
  · exact Nat.zero_le _
  · rw [Bytes.size_window]
    exact Nat.min_le_left ..

/-- The bytes of a chain are no more than its clusters have room for. -/
theorem size_chainRegion_le (clusters : List Cluster) :
    (v.chainRegion image clusters).size ≤ clusters.length * v.clusterSize := by
  refine Nat.le_trans (Bytes.size_concat_le fun part hp ↦ ?_) (Nat.mul_le_mul_right _ ?_)
  · have hmem : part ∈ clusters.map (v.clusterBytes image) := by
      rcases List.mem_append.1 hp with hp | hp
      · exact (List.takeWhile_subset _) hp
      · exact (List.dropWhile_subset _) (List.mem_of_mem_take hp)
    obtain ⟨c, -, rfl⟩ := List.mem_map.1 hmem
    exact v.size_clusterBytes_le image c
  · have h := congrArg List.length (List.takeWhile_append_dropWhile (p := v.isWhole)
      (l := clusters.map (v.clusterBytes image)))
    rw [List.length_append, List.length_map] at h
    rw [List.length_append, List.length_take]
    omega

end Volume

end Fat16
