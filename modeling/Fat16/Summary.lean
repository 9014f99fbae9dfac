import Fat16.Chain.Resolve

/-!
# Summary of a table

The summary lists the chains of a table so that every cluster in use is listed once. It goes
through the clusters in order with one set of those listed so far, passes over the listed and the
free ones, and claims a chain from every other. A chain that runs into a cluster listed earlier
ends there.
-/

namespace Fat16

/-- A table as a whole. -/
structure TableSummary where
  /-- How many entries the table has. -/
  entryCount : Nat
  /-- How many bytes the table has, with those that make up no entry. -/
  sizeBytes : Nat
  /-- The media identifier in the first entry. -/
  mediaId : UInt16
  /-- The end-of-chain mark in the second entry. -/
  endMark : UInt16
  /-- The chains, in order of their starts. -/
  chains : List Chain
  deriving DecidableEq

namespace Table

/-- The clusters of a table in order. -/
def clusters (t : Table) : List Cluster :=
  List.range' firstCluster (t.entryCount - firstCluster)

/-- Adds the chain at `start` to those listed, if `start` is in use and not listed yet. -/
def listChain (t : Table) (listed : Array Chain × ClusterSet) (start : Cluster) :
    Array Chain × ClusterSet :=
  let (chains, covered) := listed
  if covered.contains start || t.isFree start then (chains, covered)
  else
    let (chain, covered) := t.claim start covered
    (chains.push chain, covered)

/-- The chains of a table, every cluster in one chain at most. -/
def chains (t : Table) : List Chain :=
  (t.clusters.foldl t.listChain (#[], .empty t.entryCount)).1.toList

/-- The summary of a table. -/
def summary (t : Table) : TableSummary where
  entryCount := t.entryCount
  sizeBytes := t.bytes.size
  mediaId := t.mediaId
  endMark := t.endMark
  chains := t.chains

end Table

end Fat16
