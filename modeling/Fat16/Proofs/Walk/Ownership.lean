import Mathlib.Algebra.BigOperators.Group.List.Basic
import Mathlib.Data.List.TakeDrop
import Fat16.Proofs.Walk.Arena

/-!
# Ownership of clusters

The walk tests its set of claimed clusters when a directory comes up to be expanded, and the set
changes while the chain of the directory is claimed. In between other directories are expanded, so
what a directory finds claimed is decided by all directories before it, in the order in which they
were reached.

`Walk.chain_eq_cut` says what that comes to. Every directory below the root holds what its first
cluster resolves to, cut at the first cluster of a directory with a smaller id. So no cluster
belongs to two directories, and there are no more directories than clusters to start them.

The invariant is that the claimed clusters are those of the chains of the directories read so far
(`Table.Ledger`). A directory waits only with a cluster of the table, and is expanded only if this
is not claimed; so the set admits it, and the chain claimed from it begins with it.
-/

namespace Fat16

namespace Walk

variable {w : Walk} {nodes : Array Node} {claimed : ClusterSet} {p : Pending} {rest : List Pending}

/-- The directories read so far own the clusters claimed so far. -/
structure Owning (w : Walk) (s : State) : Prop where
  /-- The claimed clusters are those of the directories, whose chains are claimed in order. -/
  ledger : w.table.Ledger (Tree.chains ⟨s.nodes⟩) s.claimed
  /-- The root comes first, and every other directory has a chain that begins where it starts. -/
  places : ∃ below, Tree.places ⟨s.nodes⟩ = .root :: below ∧ ∀ place ∈ below,
    ∃ chain, place.chain? = some chain ∧ chain.clusters.head? = some chain.start
  /-- What waits to be expanded starts at a cluster of the table. -/
  waiting : ∀ q ∈ s.pending, w.table.IsData q.cluster

namespace Owning

theorem start (w : Walk) : w.Owning w.start where
  ledger := .empty w.table
  places := ⟨[], rfl, by simp⟩
  waiting := fun _ hq ↦ isData_of_mem_queue hq

theorem step (h : w.Owning ⟨nodes, claimed, p :: rest⟩) :
    w.Owning (w.step nodes claimed p rest) := by
  cases hc : claimed.contains p.cluster with
  | true =>
    refine ⟨?_, ?_, isData_of_mem_pending_step w nodes rest h.waiting⟩
    · rw [chains_step_of_contains w nodes rest hc, step_of_contains w nodes rest hc]
      exact h.ledger
    · rw [places_step_of_contains w nodes rest hc]
      exact h.places
  | false =>
    -- the start waited as a cluster of the table and is not claimed, so the set admits it
    have hd : w.table.IsData p.cluster := h.waiting p List.mem_cons_self
    have hadmits : claimed.admits p.cluster = true := by
      rw [ClusterSet.admits_iff, h.ledger.capacity_eq]
      exact ⟨hd.2, hc⟩
    refine ⟨?_, ?_, isData_of_mem_pending_step w nodes rest h.waiting⟩
    · rw [chains_step_of_not_contains w nodes rest hc, step_of_not_contains w nodes rest hc]
      exact h.ledger.claim p.cluster
    · obtain ⟨below, hplaces, hbelow⟩ := h.places
      refine ⟨below ++ [.below p.parent p.entry (w.table.claim p.cluster claimed).1], ?_, ?_⟩
      · rw [places_step_of_not_contains w nodes rest hc, hplaces, List.cons_append]
      · intro place hplace
        rcases List.mem_append.1 hplace with hplace | hplace
        · exact hbelow place hplace
        · rw [List.mem_singleton.1 hplace]
          refine ⟨_, rfl, ?_⟩
          rw [Table.start_claim]
          exact Table.head?_claim hd hadmits

theorem exists_root {s : State} (h : w.Owning s) :
    ∃ root, s.nodes[0]? = some root ∧ root.place = .root := by
  obtain ⟨below, hplaces, -⟩ := h.places
  have hzero : (Tree.places ⟨s.nodes⟩)[0]? = some .root := by rw [hplaces, List.getElem?_cons_zero]
  rw [Tree.places, List.getElem?_map, Array.getElem?_toList] at hzero
  exact Option.map_eq_some_iff.1 hzero

end Owning

theorem exists_owning (w : Walk) : ∃ claimed, w.Owning ⟨w.tree.nodes, claimed, []⟩ :=
  w.run_invariant (Owning.start w) fun _ _ _ _ h ↦ h.step

/-- The directories below the root all have a chain, and none of these is empty. -/
theorem length_places_le {s : State} (h : w.Owning s) :
    (Tree.places ⟨s.nodes⟩).length ≤ (Tree.clusters ⟨s.nodes⟩).length + 1 := by
  obtain ⟨below, hplaces, hbelow⟩ := h.places
  have hchains : Tree.chains ⟨s.nodes⟩ = below.filterMap Place.chain? := by
    rw [Tree.chains_eq, hplaces]
    rfl
  have hsome : (below.filterMap Place.chain?).length = below.length := by
    rw [List.filterMap_length_eq_length]
    intro place hplace
    obtain ⟨chain, hchain, -⟩ := hbelow place hplace
    rw [hchain, Option.isSome_some]
  -- a chain has at least the cluster that it begins with
  have hlen : (Tree.chains ⟨s.nodes⟩).length ≤ (Tree.clusters ⟨s.nodes⟩).length := by
    rw [Tree.clusters, List.length_flatMap]
    refine le_of_eq_of_le (List.length_map _).symm (List.length_le_sum_of_one_le _ ?_)
    intro n hn
    obtain ⟨chain, hchain, rfl⟩ := List.mem_map.1 hn
    rw [hchains] at hchain
    obtain ⟨place, hplace, hpc⟩ := List.mem_filterMap.1 hchain
    obtain ⟨chain', hchain', hhead⟩ := hbelow place hplace
    obtain rfl : chain = chain' := Option.some.inj (hpc.symm.trans hchain')
    exact List.length_pos_of_mem (List.mem_of_head? hhead)
  rw [hplaces, List.length_cons, ← hsome, ← hchains]
  exact Nat.succ_le_succ hlen

/-- **Ownership.** The root has no chain. The chain of every other directory begins where the
directory starts, and is what this resolves to, cut at the first cluster of a directory with a
smaller id. No cluster is in two chains or twice in one, all are clusters of the table, and there
are no more directories than that allows. -/
theorem chain_eq_cut (w : Walk) :
    (∃ root, w.tree.get? 0 = some root ∧ root.chain? = none) ∧
    (∀ id node, w.tree.get? id = some node → 1 ≤ id → ∃ chain, node.chain? = some chain ∧
      chain.clusters.head? = some chain.start ∧
      chain = (w.table.resolve chain.start).cut fun c ↦ decide (c ∈ w.tree.clustersBefore id)) ∧
    w.tree.clusters.Nodup ∧
    (∀ c ∈ w.tree.clusters, w.table.IsData c) ∧
    w.tree.size ≤ max 1 (w.table.entryCount - 1) := by
  obtain ⟨claimed, h⟩ := w.exists_owning
  have hget : ∀ id, (w.tree.get? id).map Node.place = w.tree.places[id]? := fun id ↦ by
    rw [Tree.places, List.getElem?_map, Array.getElem?_toList]
    rfl
  obtain ⟨below, hplaces, hbelow⟩ := h.places
  refine ⟨?_, fun id node hid hpos ↦ ?_, h.ledger.inOrder.nodup,
    fun c hc ↦ h.ledger.inOrder.isData hc, ?_⟩
  · obtain ⟨root, hroot, hplace⟩ := h.exists_root
    exact ⟨root, hroot, by rw [Node.chain?_eq, hplace]; rfl⟩
  · obtain ⟨i, rfl⟩ : ∃ i, id = i + 1 := ⟨id - 1, by omega⟩
    have hi := hget (i + 1)
    rw [hid, hplaces, List.getElem?_cons_succ] at hi
    obtain ⟨chain, hchain, hhead⟩ := hbelow _ (List.mem_of_getElem? hi.symm)
    rw [← Node.chain?_eq] at hchain
    refine ⟨chain, hchain, hhead, ?_⟩
    -- the chains before this one are those of the directories before this one
    obtain ⟨hlt, hnode⟩ := List.getElem?_eq_some_iff.1 ((Array.getElem?_toList ..).trans hid)
    refine h.ledger.inOrder ((w.tree.nodes.toList.take (i + 1)).filterMap Node.chain?) chain
      ((w.tree.nodes.toList.drop (i + 1 + 1)).filterMap Node.chain?) ?_
    rw [Tree.chains, ← List.filterMap_cons_some hchain, ← List.filterMap_append, ← hnode,
      List.cons_getElem_drop_succ, List.take_append_drop]
  · have hsize : w.tree.size = w.tree.places.length := by
      rw [Tree.places, List.length_map, Array.length_toList, Tree.size]
    have hle := length_places_le h
    have hclusters := h.ledger.inOrder.length_clusters_le
    rw [hsize]
    change w.tree.places.length ≤ w.tree.clusters.length + 1 at hle
    change w.tree.clusters.length ≤ w.table.entryCount - 2 at hclusters
    omega

/-- The bytes of a directory record of which only the attributes and the first cluster matter. -/
def sampleRecord (attributes cluster : UInt8) : List UInt8 :=
  .replicate 11 0x41 ++ attributes :: .replicate 14 0 ++ [cluster, 0, 0, 0, 0, 0]

/-- A small walk. The root directory names clusters `2` and `4`, whose chains both go on at `3`,
then `2` again, the root directory itself, and a cluster that the table does not have. -/
def sample : Walk where
  volume := {
    oemName := ⟨.replicate 8 0⟩
    bytesPerSector := 32
    sectorsPerCluster := 1
    reservedSectors := 0
    fatCount := 1
    rootEntries := 5
    totalSectors := 9
    media := 0
    sectorsPerFat := 1
    sectorsPerTrack := 0
    heads := 0
    hiddenSectors := 0
    driveNumber := 0
    extendedSignature := 0
    serialNumber := 0
    label := ⟨.replicate 11 0⟩
    fileSystem := ⟨.replicate 8 0⟩
    signature := .replicate 2 0
    bytesPerSector_ne_zero := by decide
    sectorsPerFat_ne_zero := by decide
    fatCount_ne_zero := by decide }
  table := ⟨#[0, 0, 0, 0, 3, 0, 0xFF, 0xFF, 3, 0]⟩
  image := (List.replicate 32 0 ++
    sampleRecord 0x10 2 ++ sampleRecord 0x10 4 ++ sampleRecord 0x10 2 ++ sampleRecord 0x10 0 ++
    sampleRecord 0x10 9 ++
    sampleRecord 0x20 0 ++ sampleRecord 0x20 0 ++ sampleRecord 0x10 2).toArray
  maxDepth := 1

theorem sample_chain_eq_cut :
    (sample.tree.get? 2).bind Node.chain? = some ⟨4, [4], .joins 3⟩ ∧
      ⟨4, [4], .joins 3⟩ =
        (sample.table.resolve 4).cut fun c ↦ decide (c ∈ sample.tree.clustersBefore 2) := by
  have hsome : (sample.tree.get? 2).bind Node.chain? = some ⟨4, [4], .joins 3⟩ := by
    decide +kernel
  obtain ⟨node, hnode, hchain⟩ := Option.bind_eq_some_iff.1 hsome
  obtain ⟨chain, hchain', -, hcut⟩ := (chain_eq_cut sample).2.1 2 node hnode (by decide)
  obtain rfl := Option.some.inj (hchain'.symm.trans hchain)
  exact ⟨hsome, hcut⟩

end Walk

end Fat16
