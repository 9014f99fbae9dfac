import Fat16.Chain
import Fat16.ClusterSet

/-!
# Resolving and claiming chains

Both ways to read a chain follow the same trail: from a cluster that is already recorded, go on
to the next one as long as the set admits it, and record it. A set admits a number only once, so
the trail ends after at most as many steps as the set has vacant numbers, whatever the table
holds.

* `Table.resolve` follows the trail with a set of its own, so the only cluster that can stop it
  is one of the same chain: a cycle.
* `Table.claim` follows it with a set that it shares with other chains. What stops it there is a
  cycle if it is a cluster of this chain, and otherwise a cluster that is taken.
-/

namespace Fat16

/-- Why a trail went no further. -/
inductive Trail.Stop where
  /-- The table ends the chain. -/
  | ended (how : ChainEnd)
  /-- The next cluster is not admitted. -/
  | blocked (cluster : Cluster)
  deriving DecidableEq

/-- What following links has come to. -/
structure Trail where
  /-- The clusters reached, in link order. -/
  clusters : Array Cluster
  /-- The set with these clusters recorded. -/
  seen : ClusterSet
  /-- Why it went no further. -/
  stop : Trail.Stop

namespace Table

/-- Follows links from `current`, which is recorded in `seen` and the last of `path`. -/
def trail (t : Table) (current : Cluster) (seen : ClusterSet) (path : Array Cluster) : Trail :=
  match t.link current with
  | .error how => ⟨path, seen, .ended how⟩
  | .ok next =>
    if _ : seen.admits next then t.trail next (seen.insert next) (path.push next)
    else ⟨path, seen, .blocked next⟩
  termination_by seen.vacant
  decreasing_by exact ClusterSet.vacant_insert_lt ‹_›

theorem trail_of_link_eq_error {t : Table} {current : Cluster} {how : ChainEnd}
    (h : t.link current = .error how) (seen : ClusterSet) (path : Array Cluster) :
    t.trail current seen path = ⟨path, seen, .ended how⟩ := by
  rw [trail, h]

theorem trail_of_admits {t : Table} {current next : Cluster} {seen : ClusterSet}
    (h : t.link current = .ok next) (hn : seen.admits next = true) (path : Array Cluster) :
    t.trail current seen path = t.trail next (seen.insert next) (path.push next) := by
  rw [trail, h]
  simp [hn]

theorem trail_of_not_admits {t : Table} {current next : Cluster} {seen : ClusterSet}
    (h : t.link current = .ok next) (hn : seen.admits next = false) (path : Array Cluster) :
    t.trail current seen path = ⟨path, seen, .blocked next⟩ := by
  rw [trail, h]
  simp [hn]

/-- The chain at `start`, with no regard to other chains. -/
def resolve (t : Table) (start : Cluster) : Chain :=
  if t.IsData start then
    let trail := t.trail start ((ClusterSet.empty t.entryCount).insert start) #[start]
    { start
      clusters := trail.clusters.toList
      ending := match trail.stop with
        | .ended how => how
        | .blocked c => .cycle c }
  else ⟨start, [], .dangling none start⟩

/-- The chain at `start` as far as its clusters are not taken, and the set with these taken too. -/
def claim (t : Table) (start : Cluster) (taken : ClusterSet) : Chain × ClusterSet :=
  if ¬ t.IsData start then (⟨start, [], .dangling none start⟩, taken)
  else if taken.admits start then
    let trail := t.trail start (taken.insert start) #[start]
    ({ start
       clusters := trail.clusters.toList
       ending := match trail.stop with
        | .ended how => how
        | .blocked c => if trail.clusters.contains c then .cycle c else .joins c },
      trail.seen)
  else (⟨start, [], .joins start⟩, taken)

theorem size_trail_add_vacant_le (t : Table) (current : Cluster) (seen : ClusterSet)
    (path : Array Cluster) :
    (t.trail current seen path).clusters.size + (t.trail current seen path).seen.vacant ≤
      path.size + seen.vacant := by
  fun_induction t.trail current seen path with
  | case1 => exact Nat.le_refl _
  | case2 _ _ _ _ _ h ih =>
    have := ClusterSet.vacant_insert_lt h
    rw [Array.size_push] at ih
    omega
  | case3 => exact Nat.le_refl _

/-- Every cluster of a claimed chain was vacant before and is not any more. -/
theorem length_claim_add_vacant_le (t : Table) (start : Cluster) (taken : ClusterSet) :
    (t.claim start taken).1.length + (t.claim start taken).2.vacant ≤ taken.vacant := by
  unfold claim
  split
  · simp [Chain.length]
  · split
    case isTrue h =>
      have h₁ := t.size_trail_add_vacant_le start (taken.insert start) #[start]
      have h₂ := ClusterSet.vacant_insert_lt h
      simp only [Chain.length, Array.length_toList, List.size_toArray, List.length_singleton]
        at h₁ ⊢
      omega
    case isFalse => simp [Chain.length]

end Table

end Fat16
