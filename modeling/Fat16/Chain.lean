import Fat16.Table

/-!
# Chains of clusters

A chain is the list of clusters that a start leads to by the links of the table, together with how
it ended. A table read from an image promises nothing, so there are five ways to end: only
`ChainEnd.complete` is the one that a sound table gives, and the other four say what is wrong and
where.

`Table.link` is one step: the cluster that follows, or how the chain ends.
-/

namespace Fat16

/-- How a chain ended. -/
inductive ChainEnd where
  /-- At an entry that marks the end of a chain. -/
  | complete
  /-- At a link back to `closesAt`, a cluster of this chain. -/
  | cycle (closesAt : Cluster)
  /-- At `target`, which is no cluster of the table. `source` is the cluster whose link leads
  there; there is none where the start of the chain is `target` itself. -/
  | dangling (source : Option Cluster) (target : Cluster)
  /-- At `cluster`, whose entry belongs to no chain. -/
  | broken (cluster : Cluster) (entry : TableEntry)
  /-- Before `cluster`, which is taken already. -/
  | joins (cluster : Cluster)
  deriving DecidableEq

namespace ChainEnd

/-- Whether the chain ended as it should. -/
def isClean : ChainEnd → Bool
  | .complete => true
  | _ => false

/-- The end of a chain in words. -/
def text : ChainEnd → String
  | .complete => "EOF"
  | .cycle closesAt => s!"Cycle detected (closes at {closesAt})"
  | .dangling _ target => s!"Dangling reference ({target})"
  | .broken cluster entry => s!"Broken ({entry.text} entry at {cluster})"
  | .joins cluster => s!"(joins {cluster})"

end ChainEnd

/-- A chain of clusters in link order. -/
structure Chain where
  /-- Where the chain was asked to start. -/
  start : Cluster
  /-- The clusters of the chain. There are none where the start is not available. -/
  clusters : List Cluster
  /-- How the chain ended. -/
  ending : ChainEnd
  deriving DecidableEq

namespace Chain

/-- The number of clusters. -/
def length (chain : Chain) : Nat := chain.clusters.length

/-- Whether the chain has no cluster. -/
def isEmpty (chain : Chain) : Bool := chain.clusters.isEmpty

/-- The chain in words: every cluster with an arrow behind it, then the end. -/
def text (chain : Chain) : String :=
  String.join (chain.clusters.map fun c ↦ s!"{c} -> ") ++ chain.ending.text

end Chain

/-- The cluster that follows `c`, or how a chain ends at `c`. -/
def Table.link (t : Table) (c : Cluster) : Except ChainEnd Cluster :=
  match t.entryAt c with
  | .ok (.endOfChain _) => .error .complete
  | .ok (.pointer next) => if t.IsData next then .ok next else .error (.dangling (some c) next)
  | .ok entry => .error (.broken c entry)
  | .error _ => .error (.dangling none c)

/-- A link leads to a cluster of the table. -/
theorem Table.isData_of_link_eq_ok {t : Table} {c next : Cluster} (h : t.link c = .ok next) :
    t.IsData next := by
  unfold Table.link at h
  split at h
  · cases h
  · split at h
    case isTrue hd => cases h; exact hd
    case isFalse => cases h
  · cases h
  · cases h

end Fat16
