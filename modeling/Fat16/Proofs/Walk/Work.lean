import Mathlib.Algebra.BigOperators.Ring.List
import Mathlib.Algebra.Order.BigOperators.Group.List
import Mathlib.Algebra.Order.Ring.Nat
import Fat16.Proofs.Extent
import Fat16.Proofs.Walk.Findings
import Fat16.Proofs.Walk.Ownership

/-!
# The work of a walk

A walk ends because every step leaves less to do, and the number that shows it counts the clusters
that the table has. `Walk.ends_within` gives a bound that is about the image alone. Every entry that
is put to wait takes one step, and it is a record in some directory; no byte of the image is read
into two directories, or twice into one; so there are at most as many steps as the image has room
for records. References to one directory from many places cost no more than the records that they
are stored in.

The steps are counted by `Walk.Ends`, which follows the loop without regard to why it ends.
-/

namespace Fat16

namespace Walk

variable {w : Walk}

/-! ## Where the directories are read from -/

/-- Where in the image these bytes are. -/
def positions (w : Walk) : Place → List Nat
  | .root => w.volume.rootPositions w.image
  | .below _ _ chain => w.volume.chainPositions w.image chain.clusters

theorem toList_region (w : Walk) (place : Place) :
    (w.region place).toList = (w.positions place).map w.image.byte := by
  cases place with
  | root => exact w.image.toList_window _ _
  | below parent entry chain => exact w.volume.toList_chainRegion w.image chain.clusters

/-- The entries of a directory are what its bytes list. -/
theorem entries_of_mem {node : Node} (h : node ∈ w.tree.nodes) :
    node.entries = (Listing.read w.volume (w.region node.place)).entries :=
  forall_of_read
    (P := fun node ↦ node.entries = (Listing.read w.volume (w.region node.place)).entries)
    (fun _ _ hnode ↦ hnode) (fun _ _ _ hnode ↦ hnode) (fun _ _ _ _ ↦ rfl) rfl h

theorem lt_size_of_mem_positions {place : Place} {i : Nat} (h : i ∈ w.positions place) :
    i < w.image.size := by
  cases place with
  | root => exact (Bytes.mem_positions.1 h).2.2
  | below parent entry chain =>
    obtain ⟨c, -, hc⟩ := List.mem_flatMap.1 h
    exact (Volume.mem_clusterPositions hc).2.2.2

theorem positions_of_chain? {place : Place} {chain : Chain} (h : place.chain? = some chain) :
    w.positions place = w.volume.chainPositions w.image chain.clusters := by
  cases place with
  | root => cases h
  | below parent entry other =>
    cases h
    rfl

/-- Below the root all that is read are clusters of chains. -/
theorem flatMap_positions_sublist {below : List Place}
    (hbelow : ∀ place ∈ below, ∃ chain, place.chain? = some chain) :
    (below.flatMap w.positions).Sublist
      (((below.filterMap Place.chain?).flatMap Chain.clusters).flatMap
        (w.volume.clusterPositions w.image)) := by
  rw [List.filterMap_eq_flatMap_toList, List.flatMap_assoc, List.flatMap_assoc]
  refine List.Sublist.flatMap_right below fun place hplace ↦ ?_
  obtain ⟨chain, hchain⟩ := hbelow place hplace
  rw [positions_of_chain? hchain, hchain, Option.toList_some, List.flatMap_singleton]
  exact w.volume.chainPositions_sublist w.image chain.clusters

/-- No byte of the image is read twice. -/
theorem nodup_positions (w : Walk) : (w.tree.places.flatMap w.positions).Nodup := by
  obtain ⟨claimed, h⟩ := w.exists_owning
  obtain ⟨below, hplaces, hbelow⟩ : ∃ below, w.tree.places = .root :: below ∧ _ := h.places
  have hsub := flatMap_positions_sublist (w := w) fun place hplace ↦
    (hbelow place hplace).imp fun _ hchain ↦ hchain.1
  have hclusters : w.tree.clusters = (below.filterMap Place.chain?).flatMap Chain.clusters := by
    rw [Tree.clusters, Tree.chains_eq, hplaces]
    rfl
  rw [← hclusters] at hsub
  rw [hplaces, List.flatMap_cons, List.nodup_append']
  refine ⟨w.volume.nodup_rootPositions w.image, ?_, ?_⟩
  · exact (Volume.nodup_flatMap_clusterPositions h.ledger.inOrder.nodup).sublist hsub
  · exact List.disjoint_of_subset_right hsub.subset (w.volume.disjoint_rootPositions w.image _)

/-- Together the directories have no more records than the image has room for. -/
theorem width_mul_sum_entries_le (w : Walk) :
    Record.width * (w.tree.nodes.toList.map fun node ↦ node.entries.length).sum ≤ w.image.size := by
  have hread : ∀ node ∈ w.tree.nodes.toList,
      Record.width * node.entries.length ≤ (w.positions node.place).length := by
    intro node hnode
    have hle := Listing.width_mul_length_entries_le w.volume (w.region node.place)
    rw [← entries_of_mem (Array.mem_toList_iff.1 hnode), ← Array.length_toList, toList_region,
      List.length_map] at hle
    exact hle
  have hpositions : (w.tree.places.flatMap w.positions).length ≤ w.image.size := by
    have hsubset : w.tree.places.flatMap w.positions ⊆ List.range w.image.size := by
      intro i hi
      obtain ⟨place, -, hplace⟩ := List.mem_flatMap.1 hi
      exact List.mem_range.2 (lt_size_of_mem_positions hplace)
    have hlength := w.nodup_positions.length_le_of_subset hsubset
    rwa [List.length_range] at hlength
  calc Record.width * (w.tree.nodes.toList.map fun node ↦ node.entries.length).sum
      = (w.tree.nodes.toList.map fun node ↦ Record.width * node.entries.length).sum :=
        (List.sum_map_mul_left ..).symm
    _ ≤ (w.tree.nodes.toList.map fun node ↦ (w.positions node.place).length).sum :=
        List.sum_le_sum hread
    _ = (w.tree.places.flatMap w.positions).length := by
        rw [Tree.places, List.flatMap_map, List.length_flatMap]
    _ ≤ w.image.size := hpositions

/-! ## How many steps a walk takes -/

/-- From the state `s` the loop is over after `n` steps, in the state `final`. -/
inductive Ends (w : Walk) : (n : Nat) → (s final : State) → Prop where
  /-- Nothing waits. -/
  | now (nodes : Array Node) (claimed : ClusterSet) :
    Ends w 0 ⟨nodes, claimed, []⟩ ⟨nodes, claimed, []⟩
  /-- One step, and the steps after it. -/
  | later (nodes : Array Node) (claimed : ClusterSet) (p : Pending) (rest : List Pending)
    {n : Nat} {final : State} (h : Ends w n (w.step nodes claimed p rest) final) :
    Ends w (n + 1) ⟨nodes, claimed, p :: rest⟩ final

/-- How many entries the directories have put to wait. -/
def queued (w : Walk) (nodes : Array Node) : Nat :=
  (nodes.toList.map fun node ↦ (w.queue node).length).sum

theorem queue_addChild (w : Walk) (id : Nat) (node : Node) :
    w.queue (node.addChild id) = w.queue node := rfl

theorem queue_addFindings (w : Walk) (findings : List Finding) (node : Node) :
    w.queue (node.addFindings findings) = w.queue node := rfl

section Step

variable (nodes : Array Node) {claimed : ClusterSet} {p : Pending} (rest : List Pending)

theorem queued_modify {f : Node → Node} (h : ∀ node, w.queue (f node) = w.queue node) (id : Nat) :
    w.queued (nodes.modify id f) = w.queued nodes :=
  congrArg List.sum (Tree.map_modify (fun node ↦ congrArg List.length (h node)) nodes id)

theorem queued_push (node : Node) :
    w.queued (nodes.push node) = w.queued nodes + (w.queue node).length := by
  rw [queued, Array.toList_push, List.map_append, List.sum_append, List.map_singleton,
    List.sum_singleton, queued]

theorem queued_step_of_contains (h : claimed.contains p.cluster = true) :
    w.queued (w.step nodes claimed p rest).nodes = w.queued nodes := by
  rw [step_of_contains w nodes rest h]
  exact queued_modify nodes (w.queue_addFindings [.repeated p.entry p.cluster]) p.parent

theorem queued_step_of_not_contains (h : claimed.contains p.cluster = false) :
    w.queued (w.step nodes claimed p rest).nodes =
      w.queued nodes + (w.queue (w.expansion nodes.size p claimed)).length := by
  rw [step_of_not_contains w nodes rest h, queued_push,
    queued_modify nodes (w.queue_addChild nodes.size), settle, queue_addFindings]

/-- A step takes one entry from those that wait and adds those that the new directory puts there. -/
theorem length_pending_step (w : Walk) (nodes : Array Node) (claimed : ClusterSet) (p : Pending)
    (rest : List Pending) :
    (w.step nodes claimed p rest).pending.length + w.queued nodes =
      rest.length + w.queued (w.step nodes claimed p rest).nodes := by
  cases h : claimed.contains p.cluster with
  | true => rw [queued_step_of_contains nodes rest h, step_of_contains w nodes rest h]
  | false =>
    rw [queued_step_of_not_contains nodes rest h, step_of_not_contains w nodes rest h,
      List.length_append]
    omega

end Step

/-- The loop ends, and it has taken one step for every entry that was waiting or came to wait. -/
theorem exists_ends (w : Walk) (s : State) : ∃ n, w.Ends n s (w.run s) ∧
    n + w.queued s.nodes = s.pending.length + w.queued (w.run s).nodes := by
  fun_induction w.run s with
  | case1 nodes claimed => exact ⟨0, .now nodes claimed, rfl⟩
  | case2 nodes claimed p rest ih =>
    obtain ⟨n, hends, hn⟩ := ih
    refine ⟨n + 1, .later nodes claimed p rest hends, ?_⟩
    have hstep := w.length_pending_step nodes claimed p rest
    rw [List.length_cons]
    change n + 1 + w.queued nodes = _
    omega

theorem ends_start (w : Walk) : w.Ends (w.queued w.tree.nodes) w.start (w.run w.start) := by
  obtain ⟨n, hends, hn⟩ := w.exists_ends w.start
  have hstart : w.queued w.start.nodes = w.start.pending.length := by
    rw [queued]
    exact List.sum_singleton
  rw [hstart, Nat.add_comm, Nat.add_left_cancel_iff] at hn
  rwa [hn] at hends

/-- **A walk does no more than the image has room for.** The loop ends after one step for each entry
that was ever put to wait. The directories are read from different bytes of the image, so all their
entries together, and with them the steps, are no more than the records that fit into it. -/
theorem ends_within (w : Walk) :
    (∃ final, final.nodes = w.tree.nodes ∧ w.Ends (w.queued w.tree.nodes) w.start final) ∧
    w.queued w.tree.nodes ≤ w.image.size / Record.width ∧
    (∀ node ∈ w.tree.nodes,
      node.entries = (Listing.read w.volume
        ((w.positions node.place).map w.image.byte).toArray).entries ∧
      ∀ i ∈ w.positions node.place, i < w.image.size) ∧
    (w.tree.nodes.toList.flatMap fun node ↦ w.positions node.place).Nodup ∧
    Record.width * (w.tree.nodes.toList.map fun node ↦ node.entries.length).sum ≤ w.image.size := by
  have hqueued : w.queued w.tree.nodes ≤
      (w.tree.nodes.toList.map fun node ↦ node.entries.length).sum :=
    List.sum_le_sum fun node _ ↦ w.length_queue_le node
  have hentries := w.width_mul_sum_entries_le
  refine ⟨⟨w.run w.start, rfl, w.ends_start⟩, ?_, fun node hnode ↦ ⟨?_, ?_⟩, ?_, hentries⟩
  · rw [Nat.le_div_iff_mul_le (by decide), Nat.mul_comm]
    exact (Nat.mul_le_mul_left _ hqueued).trans hentries
  · rw [← toList_region, Array.toArray_toList]
    exact entries_of_mem hnode
  · exact fun i hi ↦ lt_size_of_mem_positions hi
  · have hnodup := w.nodup_positions
    rwa [Tree.places, List.flatMap_map] at hnodup

theorem sample_ends_within : (∃ final, sample.Ends 3 sample.start final) ∧
    ∃ node ∈ sample.tree.nodes, node.chain? = some ⟨2, [2, 3], .complete⟩ ∧
      sample.positions node.place = List.range' 192 64 ∧ node.entries.length = 2 ∧
        node.entries = (Listing.read sample.volume
          ((List.range' 192 64).map sample.image.byte).toArray).entries := by
  have hnode : (sample.tree.nodes[1]?).map (fun node ↦
      (node.chain?, sample.positions node.place, node.entries.length)) =
        some (some ⟨2, [2, 3], .complete⟩, List.range' 192 64, 2) := by
    decide +kernel
  have hqueued : sample.queued sample.tree.nodes = 3 := by decide +kernel
  obtain ⟨node, hget, hparts⟩ := Option.map_eq_some_iff.1 hnode
  rw [Prod.mk.injEq, Prod.mk.injEq] at hparts
  obtain ⟨hchain, hpositions, hlength⟩ := hparts
  obtain ⟨⟨final, -, hends⟩, -, hentries, -⟩ := ends_within sample
  rw [hqueued] at hends
  have hmem := Array.mem_of_getElem? hget
  exact ⟨⟨final, hends⟩, node, hmem, hchain, hpositions, hlength,
    hpositions ▸ (hentries node hmem).1⟩

end Walk

end Fat16
