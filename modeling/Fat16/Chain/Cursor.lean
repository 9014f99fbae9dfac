import Fat16.Chain
import Fat16.ClusterSet

/-!
# Reading a chain one cluster at a time

A cursor hands out the clusters of a chain on demand. It looks one link ahead: the cluster that it
will hand out next is already recorded, and how the chain ends is known from the moment the last
cluster has been handed out, not before (`Cursor.ending`).
-/

namespace Fat16

/-- A place in a chain that is being read. -/
structure Cursor where
  /-- The table that the chain is in. -/
  table : Table
  /-- The cluster to hand out next. -/
  pending : Option Cluster
  /-- The clusters handed out so far and the pending one. -/
  seen : ClusterSet
  /-- How the chain ended, once that is known. -/
  found : Option ChainEnd

/-- A cursor before the first cluster of the chain at `start`. -/
def Table.cursor (t : Table) (start : Cluster) : Cursor :=
  if t.IsData start then
    { table := t
      pending := some start
      seen := (ClusterSet.empty t.entryCount).insert start
      found := none }
  else
    { table := t
      pending := none
      seen := .empty t.entryCount
      found := some (.dangling none start) }

namespace Cursor

/-- How the chain ended, unless there is still a cluster to hand out. -/
def ending (cursor : Cursor) : Option ChainEnd :=
  if cursor.pending.isSome then none else cursor.found

/-- The cursor after `current` has been handed out. -/
def advance (cursor : Cursor) (current : Cluster) : Cursor :=
  match cursor.table.link current with
  | .error how => { cursor with pending := none, found := some how }
  | .ok next =>
    if cursor.seen.admits next then
      { cursor with pending := some next, seen := cursor.seen.insert next }
    else { cursor with pending := none, found := some (.cycle next) }

/-- Hands out the next cluster, if there is one left. -/
def next (cursor : Cursor) : Option Cluster × Cursor :=
  match cursor.pending with
  | none => (none, cursor)
  | some current => (some current, cursor.advance current)

/-- A bound on the clusters still to come, which every step lowers. -/
def remaining (cursor : Cursor) : Nat :=
  cursor.seen.vacant + if cursor.pending.isSome then 1 else 0

theorem remaining_advance_lt {cursor : Cursor} {current : Cluster}
    (h : cursor.pending = some current) : (cursor.advance current).remaining < cursor.remaining := by
  unfold advance
  split
  · simp [remaining, h]
  · split
    case isTrue ha => simpa [remaining, h] using ClusterSet.vacant_insert_lt ha
    case isFalse => simp [remaining, h]

/-- Hands out all clusters that are left, after those in `acc`. -/
def drain (cursor : Cursor) (acc : Array Cluster) : Array Cluster × Cursor :=
  match _ : cursor.pending with
  | none => (acc, cursor)
  | some current => (cursor.advance current).drain (acc.push current)
  termination_by cursor.remaining
  decreasing_by exact remaining_advance_lt ‹_›

end Cursor

end Fat16
