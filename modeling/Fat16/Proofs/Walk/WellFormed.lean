import Mathlib.Data.List.Count
import Mathlib.Data.List.Pairwise
import Fat16.Proofs.Walk.Log

/-!
# How directories hang together

The tie between a directory and the one above it is kept at both ends, and the two ends are written
at different moments: the id, the parent and the entry when the directory is read, the child when
it is added to a directory read long before. `Walk.wellFormed_tree` says that the ends agree. Every
directory but the root hangs below one with a smaller id, by an entry of this that names it, and is
among the children there and nowhere else; children stand in the order of their entries.

A directory and its child stem from one event of the log, and this stems from the queue of the
directory with the entry. So what the two ends have in common is what the entry says, and the order
of children is the order in which the queue of their directory has come up.
-/

namespace Fat16

/-- A directory that was expanded from the entry `e` of the directory `parent`. -/
structure Node.ExpandedFrom (node parent : Node) (e : DirectoryEntry) : Prop where
  parent?_eq : node.parent? = some parent.id
  entry?_eq : node.entry? = some e.index
  /-- The entry has its number as its place. -/
  getElem?_entries : parent.entries[e.index]? = some e
  isSubdirectory : e.isSubdirectory = true
  /-- The directory was read from the chain that the entry tells. -/
  start_eq : node.chain?.map Chain.start = some e.firstCluster
  startSector_eq : node.startSector = e.startSector
  depth_eq : node.depth = parent.depth + 1

/-- A tree whose directories hang together. -/
structure Tree.WellFormed (t : Tree) (maxDepth : Nat) : Prop where
  /-- Ids are places in the array. -/
  id_eq : ∀ k node, t.get? k = some node → node.id = k
  /-- There is a first directory. -/
  exists_first : ∃ root, t.get? 0 = some root
  /-- It is the root directory, and no other is like it. -/
  root_iff : ∀ k node, t.get? k = some node →
    (node.isRoot = true ↔ k = 0) ∧ (node.parent? = none ↔ k = 0) ∧ (node.entry? = none ↔ k = 0) ∧
      (node.chain? = none ↔ k = 0) ∧ (node.depth = 0 ↔ k = 0)
  /-- Every other directory hangs below one with a smaller id, where it is one child, and is no
  child anywhere else. -/
  hangs : ∀ k node, t.get? k = some node → k ≠ 0 → ∃ p parent e, p < k ∧ t.get? p = some parent ∧
    node.ExpandedFrom parent e ∧ node.depth ≤ maxDepth ∧ parent.children.toList.count k = 1 ∧
      ∀ q other, t.get? q = some other → k ∈ other.children → q = p
  /-- Children are directories of the tree. -/
  child : ∀ p parent, t.get? p = some parent → ∀ k ∈ parent.children, ∃ node, t.get? k = some node
  /-- The ids of children increase. -/
  children_sorted : ∀ p parent, t.get? p = some parent → parent.children.toList.Pairwise (· < ·)
  /-- The numbers of the entries that children were expanded from increase. -/
  entries_sorted : ∀ p parent, t.get? p = some parent → ∃ numbers : List Nat,
    parent.children.toList.map (fun k ↦ (t.get? k).bind Node.entry?) = numbers.map some ∧
      numbers.Pairwise (· < ·)

namespace Walk

variable {w : Walk} {claimed : ClusterSet} {log : List Event} {node : Node} {k : Nat}

theorem depth_root_of_mem (hnode : node ∈ w.tree.nodes) (hplace : node.place = .root) :
    node.depth = 0 :=
  forall_of_read (P := fun node ↦ node.place = .root → node.depth = 0) (fun _ _ h ↦ h)
    (fun _ _ _ h ↦ h) (fun _ _ _ _ h ↦ nomatch h) (fun _ ↦ rfl) hnode hplace

/-! ## The order of a queue -/

namespace Account

/-- What a directory puts to wait stands in the order of its entries. -/
theorem pairwise_queue (h : w.Account [] log k node) :
    (w.queue node).Pairwise fun q q' ↦ q.entry < q'.entry := by
  obtain ⟨region, hregion⟩ := h.entries_eq
  have hentries := Listing.pairwise_index_entries w.volume region
  rw [← hregion] at hentries
  rw [queue, List.pairwise_filterMap]
  refine (hentries.filter DirectoryEntry.isSubdirectory).imp fun hlt q hq q' hq' ↦ ?_
  rwa [(outcome_eq_ok (toOption_eq_some_iff.1 hq)).2,
    (outcome_eq_ok (toOption_eq_some_iff.1 hq')).2]

/-- The children of a directory have increasing ids. -/
theorem pairwise_children (h : w.Account [] log k node) (hn : Numbered w.tree.nodes log) :
    node.children.toList.Pairwise (· < ·) := by
  rw [h.children_eq]
  exact hn.sorted.sublist (List.filter_sublist.filterMap _)

/-- What came up for a directory was put to wait by one of its subdirectories. -/
theorem exists_subdirectory (h : w.Account [] log k node) {event : Event} (hevent : event ∈ log)
    (hk : event.pending.parent = k) :
    ∃ e ∈ node.subdirectories, w.outcome node e = .ok event.pending := by
  apply outcome_of_mem_queue
  rw [← h.map_pending_eventsOf]
  exact List.mem_map_of_mem (List.mem_filter.2 ⟨hevent, beq_iff_eq.2 hk⟩)

end Account

/-! ## Both ends of a tie -/

namespace Logged

variable {p : Nat} {parent : Node} {event : Event}

/-- An event with an id ties the directory with this id to the one with the entry. -/
theorem expandedFrom (h : w.Logged ⟨w.tree.nodes, claimed, []⟩ log) (hevent : event ∈ log)
    (hexp : w.IsExpansion event.pending node)
    (hparent : w.tree.get? event.pending.parent = some parent) :
    ∃ e, node.ExpandedFrom parent e ∧ node.depth ≤ w.maxDepth := by
  have haccount := h.account _ parent hparent
  obtain ⟨e, he, ho⟩ := haccount.exists_subdirectory hevent rfl
  obtain ⟨hentry, hsub⟩ := List.mem_filter.1 he
  obtain ⟨chain, hplace, hstart⟩ := hexp.place
  have hpending := (outcome_eq_ok ho).2
  obtain ⟨region, hregion⟩ := haccount.entries_eq
  rw [hregion] at hentry
  have hkind : e.isDeleted = false := by
    rw [DirectoryEntry.isSubdirectory, beq_iff_eq] at hsub
    rw [DirectoryEntry.isDeleted, hsub]
    rfl
  refine ⟨e, ⟨?_, ?_, ?_, hsub, ?_, ?_, ?_⟩, ?_⟩
  · rw [Node.parent?, hplace, haccount.id_eq]
  · rw [Node.entry?, hplace, hpending]
  · rw [hregion]
    exact Listing.getElem?_index hentry
  · rw [Node.chain?, hplace, Option.map_some, hstart, hpending]
  · rw [hexp.startSector_eq, Listing.startSector_of_mem hentry hkind, hpending]
  · rw [hexp.depth_eq, hpending]
  · rw [hexp.depth_eq]
    exact depth_le_of_outcome ho

/-- A child was expanded at an event of the directory that it is a child of. -/
theorem exists_event_of_mem_children (h : w.Logged ⟨w.tree.nodes, claimed, []⟩ log)
    (hparent : w.tree.get? p = some parent) (hk : k ∈ parent.children) :
    ∃ (event : Event) (node : Node), event.pending.parent = p ∧ w.tree.get? k = some node ∧
      w.IsExpansion event.pending node := by
  rw [← Array.mem_toList_iff, (h.account p parent hparent).children_eq, List.mem_filterMap] at hk
  obtain ⟨event, hevent, hid⟩ := hk
  rw [eventsOf, List.mem_filter, beq_iff_eq] at hevent
  obtain ⟨node, hnode, hexp⟩ := h.expanded event hevent.1 k hid
  exact ⟨event, node, hevent.2, hnode, hexp⟩

theorem hangs (h : w.Logged ⟨w.tree.nodes, claimed, []⟩ log) (hn : Numbered w.tree.nodes log)
    (hnode : w.tree.get? k = some node) (hk : k ≠ 0) :
    ∃ p parent e, p < k ∧ w.tree.get? p = some parent ∧ node.ExpandedFrom parent e ∧
      node.depth ≤ w.maxDepth ∧ parent.children.toList.count k = 1 ∧
        ∀ q other, w.tree.get? q = some other → k ∈ other.children → q = p := by
  obtain ⟨event, hevent, hid, hexp⟩ := h.origin k node hnode (Nat.one_le_iff_ne_zero.2 hk)
  have hlt : event.pending.parent < w.tree.nodes.size :=
    h.parent_lt event.pending (List.mem_append_left _ (List.mem_map_of_mem hevent))
  obtain ⟨parent, hparent⟩ : ∃ parent, w.tree.get? event.pending.parent = some parent :=
    ⟨_, Array.getElem?_eq_getElem hlt⟩
  have haccount := h.account _ parent hparent
  obtain ⟨e, he, hdepth⟩ := h.expandedFrom hevent hexp hparent
  refine ⟨_, parent, e, hn.parent_lt event hevent k hid, hparent, he, hdepth, ?_, ?_⟩
  · have hnodup : parent.children.toList.Nodup := (haccount.pairwise_children hn).imp Nat.ne_of_lt
    refine List.count_eq_one_of_mem hnodup ?_
    rw [haccount.children_eq, List.mem_filterMap]
    exact ⟨event, List.mem_filter.2 ⟨hevent, beq_self_eq_true _⟩, hid⟩
  · -- another directory with this child would have its place
    intro q other hother hmem
    obtain ⟨event', node', hq, hnode', hexp'⟩ := h.exists_event_of_mem_children hother hmem
    obtain rfl : node = node' := Option.some.inj (hnode.symm.trans hnode')
    obtain ⟨chain, hplace, -⟩ := hexp.place
    obtain ⟨chain', hplace', -⟩ := hexp'.place
    rw [hplace, Place.below.injEq] at hplace'
    rw [← hq, hplace'.1]

theorem entries_sorted (h : w.Logged ⟨w.tree.nodes, claimed, []⟩ log)
    (hparent : w.tree.get? p = some parent) : ∃ numbers : List Nat,
      parent.children.toList.map (fun k ↦ (w.tree.get? k).bind Node.entry?) = numbers.map some ∧
        numbers.Pairwise (· < ·) := by
  have haccount := h.account p parent hparent
  refine ⟨(eventsOf log p).filterMap fun event ↦ event.id?.map fun _ ↦ event.pending.entry, ?_, ?_⟩
  · rw [haccount.children_eq, List.map_filterMap, List.map_filterMap]
    refine List.filterMap_congr fun event hevent ↦ ?_
    cases hid : event.id? with
    | none => rfl
    | some k =>
      obtain ⟨node, hnode, hexp⟩ := h.expanded event (List.mem_of_mem_filter hevent) k hid
      obtain ⟨chain, hplace, -⟩ := hexp.place
      have hget : w.tree.get? k = some node := hnode
      simp [hget, Node.entry?, hplace]
  · have hqueue := haccount.pairwise_queue
    rw [← haccount.map_pending_eventsOf, List.pairwise_map] at hqueue
    refine List.pairwise_filterMap.2 (hqueue.imp fun hlt i hi j hj ↦ ?_)
    obtain ⟨-, -, rfl⟩ := Option.map_eq_some_iff.1 hi
    obtain ⟨-, -, rfl⟩ := Option.map_eq_some_iff.1 hj
    exact hlt

end Logged

/-- **Directories hang together.** Ids are places, the root comes first, and every other directory
is tied at both ends to the directory with its entry, which was read before it. -/
theorem wellFormed_tree (w : Walk) : w.tree.WellFormed w.maxDepth := by
  obtain ⟨claimed, log, howning, hlogged, hnumbered⟩ := w.exists_numbered
  obtain ⟨root, hroot, hplace⟩ := howning.exists_root
  have hhangs := fun k node (hnode : w.tree.get? k = some node) (hk : k ≠ 0) ↦
    hlogged.hangs hnumbered hnode hk
  refine ⟨?_, ⟨root, hroot⟩, ?_, hhangs, ?_, ?_, ?_⟩
  · intro k node hnode
    exact (hlogged.account k node hnode).id_eq
  · intro k node hnode
    by_cases hk : k = 0
    · subst hk
      obtain rfl : root = node := Option.some.inj (hroot.symm.trans hnode)
      have hdepth := depth_root_of_mem (Array.mem_of_getElem? hroot) hplace
      simp [Node.isRoot, Node.parent?, Node.entry?, Node.chain?, hplace, hdepth]
    · obtain ⟨p, parent, e, -, -, he, -⟩ := hhangs k node hnode hk
      have hbelow : node.isRoot = false := by
        rw [Node.isRoot, beq_eq_false_iff_ne]
        intro hroot
        have hparent := he.parent?_eq
        rw [Node.parent?, hroot] at hparent
        cases hparent
      have hchain : node.chain? ≠ none := fun hnone ↦ by simpa [hnone] using he.start_eq
      simp [hk, hbelow, hchain, he.parent?_eq, he.entry?_eq, he.depth_eq]
  · intro p parent hparent k hk
    obtain ⟨-, node, -, hnode, -⟩ := hlogged.exists_event_of_mem_children hparent hk
    exact ⟨node, hnode⟩
  · intro p parent hparent
    exact (hlogged.account p parent hparent).pairwise_children hnumbered
  · intro p parent hparent
    exact hlogged.entries_sorted hparent

end Walk

end Fat16
