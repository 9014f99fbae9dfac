import Fat16.Proofs.Bytes
import Fat16.Proofs.Walk.Findings
import Fat16.Proofs.Walk.Ownership

/-!
# The same walk over two images

Which clusters a walk reads is decided by what it has read before, so one cannot say beforehand
where two images have to agree for their walks to agree. Afterwards one can: the clusters read are
those of the chains of the tree (`Tree.clusters`), and the tree of a walk has the chains of all its
states. So two walks go through the same states as long as the images agree on the clusters of the
tree that the first of them ends with (`Walk.tree_withImage`).

What the end of the image cuts off is not read, and then a directory says so. A directory without
such a finding was read from whole clusters (`Walk.size_clusterBytes_of_uncut`).
-/

namespace Fat16

/-! ## Bytes of a chain -/

namespace Volume

variable {v : Volume} {image other : Bytes} {clusters : List Cluster}

theorem chainRegion_congr (h : ∀ c ∈ clusters, v.clusterBytes other c = v.clusterBytes image c) :
    v.chainRegion other clusters = v.chainRegion image clusters := by
  rw [chainRegion, chainRegion, List.map_congr_left h]

/-- The first part that is cut is the last one that counts, so no bytes are missing if and only if
no part is cut. -/
theorem le_size_concat_iff {parts : List Bytes} (h : ∀ part ∈ parts, part.size ≤ v.clusterSize) :
    parts.length * v.clusterSize ≤
        (Bytes.concat (parts.takeWhile v.isWhole ++ (parts.dropWhile v.isWhole).take 1)).size ↔
      ∀ part ∈ parts, v.clusterSize ≤ part.size := by
  induction parts with
  | nil => simp
  | cons part parts ih =>
    have hpart := h part List.mem_cons_self
    have ih := ih fun q hq ↦ h q (List.mem_cons_of_mem _ hq)
    rw [List.length_cons, Nat.add_mul, Nat.one_mul, Nat.add_comm, List.forall_mem_cons]
    by_cases hwhole : v.isWhole part = true
    · have hsize : part.size = v.clusterSize := Nat.le_antisymm hpart (of_decide_eq_true hwhole)
      rw [List.takeWhile_cons_of_pos hwhole, List.dropWhile_cons_of_pos hwhole, List.cons_append,
        Bytes.size_concat_cons, hsize, Nat.add_le_add_iff_left, ih, and_iff_right le_rfl]
    · have hcut : part.size < v.clusterSize :=
        Nat.lt_of_not_le fun hle ↦ hwhole (decide_eq_true hle)
      rw [List.takeWhile_cons_of_neg hwhole, List.dropWhile_cons_of_neg hwhole, List.nil_append,
        List.take_succ_cons, List.take_zero, Bytes.size_concat_cons]
      apply iff_of_false
      · exact Nat.not_le.2 (Nat.lt_of_lt_of_le hcut (Nat.le_add_right _ _))
      · exact fun hall ↦ Nat.not_le.2 hcut hall.1

/-- No bytes of a chain are missing if and only if all its clusters are there. -/
theorem le_size_chainRegion_iff :
    clusters.length * v.clusterSize ≤ (v.chainRegion image clusters).size ↔
      ∀ c ∈ clusters, v.clusterSize ≤ (v.clusterBytes image c).size := by
  have hparts : ∀ part ∈ clusters.map (v.clusterBytes image), part.size ≤ v.clusterSize :=
    List.forall_mem_map.2 fun c _ ↦ v.size_clusterBytes_le image c
  rw [← List.length_map (v.clusterBytes image), chainRegion, le_size_concat_iff hparts,
    List.forall_mem_map]

end Volume

namespace Walk

/-- The same walk over another image. -/
def withImage (w : Walk) (image : Bytes) : Walk := { w with image }

variable {w : Walk} {image : Bytes} {nodes : Array Node} {claimed : ClusterSet} {p : Pending}
  {rest : List Pending}

/-! ## Two runs in lockstep -/

theorem root_withImage (h : w.volume.rootRegion image = w.volume.rootRegion w.image) :
    (w.withImage image).root = w.root := by
  rw [root, root, withImage]
  simp only [h]

theorem below_withImage (id : Nat) (p : Pending) (chain : Chain)
    (h : ∀ c ∈ chain.clusters, w.volume.clusterBytes image c = w.volume.clusterBytes w.image c) :
    (w.withImage image).below id p chain = w.below id p chain := by
  rw [below, below, withImage]
  simp only [Volume.chainRegion_congr h]

theorem start_withImage (h : w.volume.rootRegion image = w.volume.rootRegion w.image) :
    (w.withImage image).start = w.start := by
  rw [start, start, root_withImage h]
  rfl

/-- A step reads at most the chain that it adds. -/
theorem step_withImage (h : ∀ c ∈ Tree.clusters ⟨(w.step nodes claimed p rest).nodes⟩,
      w.volume.clusterBytes image c = w.volume.clusterBytes w.image c) :
    (w.withImage image).step nodes claimed p rest = w.step nodes claimed p rest := by
  cases hc : claimed.contains p.cluster with
  | true => rw [step_of_contains _ _ _ hc, step_of_contains _ _ _ hc]
  | false =>
    have hbelow := below_withImage nodes.size p (w.table.claim p.cluster claimed).1
      fun c hmem ↦ h c <| by
        rw [Tree.clusters, chains_step_of_not_contains w nodes rest hc, List.flatMap_append,
          List.mem_append]
        exact .inr (List.mem_flatMap.2 ⟨_, List.mem_singleton_self _, hmem⟩)
    have hexpansion : (w.withImage image).expansion nodes.size p claimed =
        w.expansion nodes.size p claimed := hbelow
    rw [step_of_not_contains _ _ _ hc, step_of_not_contains _ _ _ hc, hexpansion]
    rfl

theorem chains_prefix_step (w : Walk) (nodes : Array Node) (claimed : ClusterSet) (p : Pending)
    (rest : List Pending) :
    Tree.chains ⟨nodes⟩ <+: Tree.chains ⟨(w.step nodes claimed p rest).nodes⟩ := by
  cases hc : claimed.contains p.cluster with
  | true => simp [chains_step_of_contains w nodes rest hc]
  | false =>
    rw [chains_step_of_not_contains w nodes rest hc]
    exact List.prefix_append _ _

theorem chains_prefix_run (w : Walk) (s : State) :
    Tree.chains ⟨s.nodes⟩ <+: Tree.chains ⟨(w.run s).nodes⟩ := by
  fun_induction w.run s with
  | case1 => exact List.prefix_rfl
  | case2 nodes claimed p rest ih => exact (w.chains_prefix_step nodes claimed p rest).trans ih

theorem mem_clusters_run {s : State} {c : Cluster} (h : c ∈ Tree.clusters ⟨s.nodes⟩) :
    c ∈ Tree.clusters ⟨(w.run s).nodes⟩ := by
  obtain ⟨chain, hchain, hc⟩ := List.mem_flatMap.1 h
  exact List.mem_flatMap.2 ⟨chain, (w.chains_prefix_run s).subset hchain, hc⟩

theorem run_withImage {s : State} (h : ∀ c ∈ Tree.clusters ⟨(w.run s).nodes⟩,
      w.volume.clusterBytes image c = w.volume.clusterBytes w.image c) :
    (w.withImage image).run s = w.run s := by
  fun_induction w.run s with
  | case1 => exact run_of_pending_eq_nil ..
  | case2 nodes claimed p rest ih =>
    -- what this step reads is in the tree in the end, where the images agree
    rw [run_of_pending_eq_cons, step_withImage fun c hc ↦ h c (mem_clusters_run hc)]
    exact ih h

/-- Two images on whose root directory and on whose clusters of the tree for one of them they agree
have the same tree. -/
theorem tree_withImage (hroot : w.volume.rootRegion image = w.volume.rootRegion w.image)
    (h : ∀ c ∈ w.tree.clusters,
      w.volume.clusterBytes image c = w.volume.clusterBytes w.image c) :
    (w.withImage image).tree = w.tree := by
  rw [tree, start_withImage hroot, run_withImage h, tree]

/-! ## What the end of the image cuts -/

section Uncut

variable (h : ∀ node ∈ w.tree.nodes, ∀ area expected available,
  .truncated area expected available ∉ node.findings)
include h

theorem le_size_of_uncut {node : Node} (hnode : node ∈ w.tree.nodes) {area : Area}
    {expected : Nat} {region : Bytes}
    (hplace : w.truncations node.place = Finding.truncation area expected region) :
    expected ≤ region.size := by
  refine Nat.le_of_not_lt fun hlt ↦ ?_
  have hmem := Finding.mem_truncation area hlt
  rw [← hplace] at hmem
  exact h node hnode _ _ _ (mem_findings_of_mem_ownFindings hnode
    (List.mem_append_left _ (List.mem_append_right _ hmem)))

/-- Where no directory says that it is cut, the root directory is whole. -/
theorem size_rootRegion_of_uncut : w.volume.rootSize ≤ (w.volume.rootRegion w.image).size := by
  obtain ⟨claimed, howning⟩ := w.exists_owning
  obtain ⟨root, hroot, hplace⟩ := howning.exists_root
  exact le_size_of_uncut h (Array.mem_of_getElem? hroot) (congrArg w.truncations hplace)

/-- Where no directory says that it is cut, the clusters of the tree are whole. -/
theorem size_clusterBytes_of_uncut {c : Cluster} (hc : c ∈ w.tree.clusters) :
    (w.volume.clusterBytes w.image c).size = w.volume.clusterSize := by
  obtain ⟨chain, hchain, hmem⟩ := List.mem_flatMap.1 hc
  obtain ⟨node, hnode, hnc⟩ := List.mem_filterMap.1 hchain
  have hle := le_size_of_uncut h (Array.mem_toList_iff.1 hnode) (truncations_of_chain? hnc)
  exact Nat.le_antisymm (w.volume.size_clusterBytes_le w.image c)
    (Volume.le_size_chainRegion_iff.1 hle c hmem)

end Uncut

end Walk

end Fat16
