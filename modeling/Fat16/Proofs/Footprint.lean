import Fat16.Inspection
import Fat16.Proofs.BootSector
import Fat16.Proofs.Walk.Lockstep

/-!
# What an inspection depends on

An inspection reads the boot sector, the first copy of the table, the root directory, and the
clusters of the directories that it reaches. These parts are its footprint
(`Inspection.footprint`), which is known once it is done. Two images that agree on the footprint of
one of them have the same inspection (`Inspection.read_of_footprint`): what files hold, the further
copies of the table and the other reserved sectors do not matter, and neither does what comes after
an image from which nothing is cut.
-/

namespace Fat16

namespace Inspection

/-! ## The footprint -/

/-- The parts of an image that an inspection has read, each as an offset and a length. -/
def footprint (i : Inspection) : List (Nat × Nat) :=
  [(0, BootSector.size), (i.volume.fatStart, i.volume.fatSize),
    (i.volume.rootStart, i.volume.rootSize)] ++
  i.tree.clusters.filterMap fun c ↦
    (i.volume.clusterOffset c).map fun offset ↦ (offset, i.volume.clusterSize)

/-- Whether nothing that an inspection has read is cut by the end of the image. -/
def IsUncut (i : Inspection) : Prop :=
  ∀ area expected available, .truncated area expected available ∉ i.volumeFindings ∧
    ∀ node ∈ i.tree.nodes, .truncated area expected available ∉ node.findings

variable {v : Volume} {a b : Bytes} {maxDepth : Nat} {i : Inspection}

theorem clusterBytes_congr {c : Cluster}
    (h : ∀ offset, v.clusterOffset c = some offset →
      b.window offset v.clusterSize = a.window offset v.clusterSize) :
    v.clusterBytes b c = v.clusterBytes a c := by
  rw [Volume.clusterBytes, Volume.clusterBytes]
  cases hoffset : v.clusterOffset c with
  | none => rfl
  | some offset => exact h offset hoffset

theorem ofVolume_congr (hfat : b.window v.fatStart v.fatSize = a.window v.fatStart v.fatSize)
    (hroot : b.window v.rootStart v.rootSize = a.window v.rootStart v.rootSize)
    (h : ∀ c ∈ (ofVolume v a maxDepth).tree.clusters, v.clusterBytes b c = v.clusterBytes a c) :
    ofVolume v b maxDepth = ofVolume v a maxDepth := by
  have htable : v.table b = v.table a := congrArg Table.mk hfat
  have htree : Walk.tree ⟨v, v.table b, b, maxDepth⟩ = Walk.tree ⟨v, v.table a, a, maxDepth⟩ := by
    rw [htable]
    exact Walk.tree_withImage (w := ⟨v, v.table a, a, maxDepth⟩) hroot h
  rw [ofVolume, ofVolume, findingsOf, findingsOf, htree, htable]

theorem read_of_window_eq (h : read a maxDepth = .ok i)
    (hb : ∀ part ∈ i.footprint, b.window part.1 part.2 = a.window part.1 part.2) :
    read b maxDepth = .ok i := by
  obtain ⟨v, hv, rfl⟩ := read_eq_ok_iff.1 h
  rw [footprint, List.forall_mem_append, List.forall_mem_cons, List.forall_mem_cons,
    List.forall_mem_singleton] at hb
  obtain ⟨⟨hboot, hfat, hroot⟩, hclusters⟩ := hb
  rw [read_eq_ok_iff]
  refine ⟨v, ?_, ofVolume_congr hfat hroot fun c hc ↦ clusterBytes_congr fun offset hoffset ↦ ?_⟩
  · rw [Volume.read_congr (Volume.size_le_of_read hv) hboot, hv]
  · exact hclusters _ (List.mem_filterMap.2 ⟨c, hc, congrArg (Option.map _) hoffset⟩)

/-- Where no truncation is found, all parts of the footprint are whole. -/
theorem size_window_of_isUncut (h : read a maxDepth = .ok i) (hi : i.IsUncut) :
    ∀ part ∈ i.footprint, (a.window part.1 part.2).size = part.2 := by
  obtain ⟨v, hv, rfl⟩ := read_eq_ok_iff.1 h
  have hnodes : ∀ node ∈ (Walk.tree ⟨v, v.table a, a, maxDepth⟩).nodes,
      ∀ area expected available, .truncated area expected available ∉ node.findings :=
    fun node hnode area expected available ↦ (hi area expected available).2 node hnode
  have hroot := Walk.size_rootRegion_of_uncut hnodes
  have hfat : v.fatSize ≤ (a.window v.fatStart v.fatSize).size := by
    refine Nat.le_of_not_lt fun hlt ↦ ?_
    exact (hi _ _ _).1 (List.mem_append_right _ (Finding.mem_truncation .table hlt))
  have hwhole : ∀ {offset length : Nat}, length ≤ (a.window offset length).size →
      (a.window offset length).size = length := by
    intro offset length hle
    rw [Bytes.size_window] at hle ⊢
    omega
  rw [footprint, List.forall_mem_append, List.forall_mem_cons, List.forall_mem_cons,
    List.forall_mem_singleton]
  refine ⟨⟨hwhole ?_, hwhole hfat, hwhole hroot⟩, fun part hpart ↦ ?_⟩
  · have hsize := Volume.size_le_of_read hv
    exact Nat.le_of_eq (Bytes.size_window_of_le (by omega)).symm
  · obtain ⟨c, hc, hpart⟩ := List.mem_filterMap.1 hpart
    obtain ⟨offset, hoffset, rfl⟩ := Option.map_eq_some_iff.1 hpart
    have hbytes := Walk.size_clusterBytes_of_uncut hnodes hc
    have hoffset : v.clusterOffset c = some offset := hoffset
    rw [Volume.clusterBytes, hoffset] at hbytes
    exact hbytes

/-- **Locality of inspections.** The inspection of an image, and with it the report, is that of
every image that agrees with it on the footprint. So what lies outside the footprint can be
overwritten, and more can be put after the image if nothing is cut by its end. -/
theorem read_of_footprint (h : read a maxDepth = .ok i) :
    (∀ b : Bytes, (∀ part ∈ i.footprint, b.window part.1 part.2 = a.window part.1 part.2) →
      read b maxDepth = .ok i) ∧
    (∀ b : Bytes, (∀ part ∈ i.footprint, ∀ k, part.1 ≤ k → k < part.1 + part.2 → b[k]? = a[k]?) →
      read b maxDepth = .ok i) ∧
    (i.IsUncut → ∀ tail, read (a ++ tail) maxDepth = .ok i) := by
  refine ⟨fun b hb ↦ read_of_window_eq h hb, fun b hb ↦ ?_, fun hi tail ↦ ?_⟩
  · exact read_of_window_eq h fun part hpart ↦ Bytes.window_congr (hb part hpart)
  · exact read_of_window_eq h fun part hpart ↦
      Bytes.window_append tail (size_window_of_isUncut h hi part hpart)

/-- A small image. Its root directory names one directory, at cluster `2`. -/
def sampleImage : Bytes :=
  let boot : List UInt8 :=
    .replicate 11 0 ++ [32, 0, 1, 16, 0, 1, 2, 0, 0, 0, 0, 1, 0] ++ .replicate 488 0
  let table : List UInt8 := [0, 0, 0, 0, 0xFF, 0xFF] ++ .replicate 26 0
  (boot ++ table ++ Walk.sampleRecord 0x10 2 ++ .replicate 64 0).toArray

theorem sampleImage_read_of_footprint :
    ∃ i, read sampleImage 1 = .ok i ∧ i.tree.clusters = [2] ∧
      ∀ tail, read (sampleImage ++ tail) 1 = .ok i := by
  have hread : (read sampleImage 1).toOption.map
      (fun i ↦ (i.tree.clusters, i.volumeFindings, i.tree.nodes.toList.map Node.findings)) =
        some ([2], [], [#[], #[]]) := by
    decide +kernel
  obtain ⟨i, hi, hparts⟩ := Option.map_eq_some_iff.1 hread
  rw [Prod.mk.injEq, Prod.mk.injEq] at hparts
  obtain ⟨hclusters, hvolume, hnodes⟩ := hparts
  have hok : read sampleImage 1 = .ok i := by
    cases h : read sampleImage 1 with
    | error fault => rw [h] at hi; cases hi
    | ok j => rw [h] at hi; cases hi; rfl
  have huncut : i.IsUncut := by
    intro area expected available
    refine ⟨fun hmem ↦ ?_, fun node hnode hmem ↦ ?_⟩
    · rw [hvolume] at hmem
      cases hmem
    · have hfindings := List.mem_map_of_mem (f := Node.findings) (Array.mem_toList_iff.2 hnode)
      rw [hnodes] at hfindings
      simp only [List.mem_cons, List.not_mem_nil, or_false, or_self] at hfindings
      rw [hfindings] at hmem
      exact Array.not_mem_empty _ hmem
  exact ⟨i, hok, hclusters, (read_of_footprint hok).2.2 huncut⟩

end Inspection

end Fat16
