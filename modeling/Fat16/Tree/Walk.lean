import Fat16.Chain.Resolve
import Fat16.Region
import Fat16.Tree

/-!
# Walking the directories of an image

The walk starts from the root directory and expands subdirectories, keeping those that wait on a
stack with the first entry of a directory on top. One set of clusters serves the whole walk: a
directory claims its chain in it, so no cluster is read into two directories, and an entry whose
first cluster is claimed already is noted as a repetition instead of being expanded.

A directory has no more entries than its chain has bytes. So a claimed cluster pays for the
directories that it brings to wait, and counting every cluster not yet claimed as one more than its
size gives a number that falls with every step (`Walk.remaining_step_lt`), whatever the image holds.
-/

namespace Fat16

/-- What a walk works on. -/
structure Walk where
  /-- The geometry. -/
  volume : Volume
  /-- The table whose chains are followed. -/
  table : Table
  /-- The image that the directories are read from. -/
  image : Bytes
  /-- Directories deeper than this are not expanded. -/
  maxDepth : Nat

/-- A directory to be expanded. -/
structure Walk.Pending where
  /-- The directory with its entry. -/
  parent : Nat
  /-- The number of the entry. -/
  entry : Nat
  /-- The first cluster. -/
  cluster : Cluster
  /-- How deep it lies. -/
  depth : Nat
  deriving DecidableEq

/-- How far a walk has come. -/
structure Walk.State where
  /-- The directories read so far. -/
  nodes : Array Node
  /-- The clusters claimed by them. -/
  claimed : ClusterSet
  /-- The directories waiting to be expanded, the next one first. -/
  pending : List Walk.Pending

namespace Walk

variable (w : Walk)

/-! ## Reading one directory -/

/-- The root directory. -/
def root : Node :=
  let region := w.volume.rootRegion w.image
  let listing := Listing.read w.volume region
  { id := 0
    place := .root
    depth := 0
    startSector := some w.volume.rootStartSector
    sizeBytes := w.volume.rootSize
    entries := listing.entries
    children := #[]
    findings := (Finding.truncation .rootDirectory w.volume.rootSize region ++
      listing.cut.toList.map Finding.cutRecord).toArray }

/-- The directory that `p` stands for, read from `chain`. -/
def below (id : Nat) (p : Pending) (chain : Chain) : Node :=
  let expected := chain.length * w.volume.clusterSize
  let region := w.volume.chainRegion w.image chain.clusters
  let listing := Listing.read w.volume region
  { id
    place := .below p.parent p.entry chain
    depth := p.depth
    startSector := w.volume.clusterStartSector p.cluster
    sizeBytes := expected
    entries := listing.entries
    children := #[]
    findings := (chain.ending.finding?.toList ++ Finding.truncation (.cluster p.cluster) expected region ++
      listing.cut.toList.map Finding.cutRecord).toArray }

/-! ## Scheduling -/

/-- What becomes of a subdirectory entry: it waits to be expanded, or there is something wrong. -/
def outcome (node : Node) (e : DirectoryEntry) : Except Finding Pending :=
  if e.firstCluster = 0 then .error (.repeated e.index 0)
  else if ¬ w.table.IsData e.firstCluster then .error (.dangling none e.firstCluster)
  else if w.maxDepth < node.depth + 1 then .error (.tooDeep e.index w.maxDepth)
  else .ok ⟨node.id, e.index, e.firstCluster, node.depth + 1⟩

/-- The subdirectories of a directory that are to be expanded, in entry order. -/
def queue (node : Node) : List Pending :=
  node.subdirectories.filterMap fun e ↦ (w.outcome node e).toOption

/-- What is wrong with the other subdirectories, in entry order. -/
def refusals (node : Node) : List Finding :=
  node.subdirectories.filterMap fun e ↦
    match w.outcome node e with
    | .ok _ => none
    | .error finding => some finding

/-- A directory with what is wrong with its subdirectories. -/
def settle (node : Node) : Node := node.addFindings (w.refusals node)

/-! ## The walk -/

/-- The state with only the root directory read. -/
def start : State where
  nodes := #[w.settle w.root]
  claimed := .empty w.table.entryCount
  pending := w.queue w.root

/-- Expands `p`, the directory waiting before those in `rest`. -/
def step (nodes : Array Node) (claimed : ClusterSet) (p : Pending) (rest : List Pending) :
    State :=
  if claimed.contains p.cluster then
    { nodes := nodes.modify p.parent (·.addFindings [.repeated p.entry p.cluster])
      claimed
      pending := rest }
  else
    let (chain, claimed) := w.table.claim p.cluster claimed
    let node := w.below nodes.size p chain
    { nodes := (nodes.modify p.parent (·.addChild node.id)).push (w.settle node)
      claimed
      pending := w.queue node ++ rest }

/-- A bound on the steps that a walk still takes. -/
def remaining (s : State) : Nat :=
  s.claimed.vacant * (w.volume.clusterSize + 1) + s.pending.length

theorem length_queue_le (node : Node) : (w.queue node).length ≤ node.entries.length :=
  Nat.le_trans (List.length_filterMap_le _ _) (List.length_filter_le _ _)

/-- A directory brings no more directories to wait than its chain has bytes. -/
theorem length_queue_below_le (id : Nat) (p : Pending) (chain : Chain) :
    (w.queue (w.below id p chain)).length ≤ chain.length * w.volume.clusterSize := by
  have h₁ := w.length_queue_le (w.below id p chain)
  have h₂ := Listing.width_mul_length_entries_le w.volume
    (w.volume.chainRegion w.image chain.clusters)
  have h₃ := w.volume.size_chainRegion_le w.image chain.clusters
  simp only [Record.width, below, Chain.length] at h₁ h₂ h₃ ⊢
  omega

/-- Every step leaves less to do. -/
theorem remaining_step_lt (nodes : Array Node) (claimed : ClusterSet) (p : Pending)
    (rest : List Pending) :
    w.remaining (w.step nodes claimed p rest) < w.remaining ⟨nodes, claimed, p :: rest⟩ := by
  unfold step
  split
  · simp [remaining]
  · have h₁ := w.table.length_claim_add_vacant_le p.cluster claimed
    have h₂ := w.length_queue_below_le nodes.size p (w.table.claim p.cluster claimed).1
    have h₃ := Nat.mul_le_mul_right (w.volume.clusterSize + 1) h₁
    rw [Nat.add_mul, Nat.mul_succ (w.table.claim p.cluster claimed).1.length] at h₃
    simp only [remaining, List.length_append, List.length_cons]
    omega

/-- Expands what is waiting until nothing is. -/
def run : State → State
  | ⟨nodes, claimed, []⟩ => ⟨nodes, claimed, []⟩
  | ⟨nodes, claimed, p :: rest⟩ => run (w.step nodes claimed p rest)
  termination_by s => w.remaining s
  decreasing_by exact w.remaining_step_lt nodes claimed p rest

theorem run_of_pending_eq_nil (nodes : Array Node) (claimed : ClusterSet) :
    w.run ⟨nodes, claimed, []⟩ = ⟨nodes, claimed, []⟩ := by
  rw [run]

theorem run_of_pending_eq_cons (nodes : Array Node) (claimed : ClusterSet) (p : Pending)
    (rest : List Pending) :
    w.run ⟨nodes, claimed, p :: rest⟩ = w.run (w.step nodes claimed p rest) := by
  rw [run]

/-- Nothing is left waiting at the end of a walk. -/
theorem pending_run (s : State) : (w.run s).pending = [] := by
  fun_induction w.run s with
  | case1 => rfl
  | case2 _ _ _ _ ih => exact ih

/-- The tree of all directories reached. -/
def tree : Tree := ⟨(w.run w.start).nodes⟩

end Walk

end Fat16
