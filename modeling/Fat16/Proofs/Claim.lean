import Mathlib.Data.List.Find
import Mathlib.Data.List.Induction
import Mathlib.Data.List.Nodup
import Mathlib.Data.List.TakeWhile
import Fat16.Proofs.Trail

/-!
# Claimed chains

`Table.resolve` and `Table.claim` tell a cycle from a junction in different ways: the first has a
set of its own, in which only a cluster of the same chain can be in the way; the second shares its
set with other chains and looks the cluster up in its chain. `Table.claim_fst` says that the second
is still the first, cut at the first cluster that is not available (`Chain.cut`), and
`Table.claim_snd` that the set gains exactly the clusters of the chain.

Claiming chains one after another from an empty set is what both the summary of a table and the
walk through the directories do. `Table.Ledger` is the invariant of this: the set holds the
clusters of the chains so far, and every chain is the resolved one, cut at the first cluster of a
chain before it.
-/

namespace Fat16

/-- The chain as far as none of its clusters is taken. If one is taken, the chain joins it. -/
def Chain.cut (chain : Chain) (taken : Cluster → Bool) : Chain :=
  { chain with
    clusters := chain.clusters.takeWhile fun c ↦ !taken c
    ending := match chain.clusters.find? taken with
      | none => chain.ending
      | some c => .joins c }

theorem Chain.cut_congr {chain : Chain} {taken taken' : Cluster → Bool}
    (h : ∀ c ∈ chain.clusters, taken c = taken' c) : chain.cut taken = chain.cut taken' := by
  have htake : chain.clusters.takeWhile (fun c ↦ !taken c)
      = chain.clusters.takeWhile fun c ↦ !taken' c := by
    generalize chain.clusters = l at h
    induction l with
    | nil => rfl
    | cons c l ih =>
      rw [List.takeWhile_cons, List.takeWhile_cons, h c List.mem_cons_self,
        ih fun d hd ↦ h d (List.mem_cons_of_mem _ hd)]
  rw [cut, cut, htake, List.find?_congr h]

/-- A chain with no cluster that is taken is not cut. -/
theorem Chain.cut_eq_self {chain : Chain} {taken : Cluster → Bool}
    (h : ∀ c ∈ chain.clusters, taken c = false) : chain.cut taken = chain := by
  have htake : chain.clusters.takeWhile (fun c ↦ !taken c) = chain.clusters :=
    List.takeWhile_eq_self_iff.2 fun c hc ↦ by rw [h c hc, Bool.not_false]
  have hfind : chain.clusters.find? taken = none :=
    List.find?_eq_none.2 fun c hc ↦ by rw [h c hc]; exact Bool.false_ne_true
  rw [cut, htake, hfind]

/-- A chain that is cut ends by joining something only where it did before or was cut. -/
theorem Chain.ending_cut_eq_joins_iff {chain : Chain} (taken : Cluster → Bool)
    (h : ∀ c, chain.ending ≠ .joins c) (c : Cluster) :
    (chain.cut taken).ending = .joins c ↔ chain.clusters.find? taken = some c := by
  rw [cut]
  cases chain.clusters.find? taken with
  | none => simp [h c]
  | some d => simp

/-- The entry of a cluster is none of the reserved ones. -/
theorem TableEntry.ofRaw_ne_reserved (raw raw' : UInt16) : ofRaw raw ≠ .reserved raw' := by
  rw [ofRaw]
  split
  · exact nofun
  · split <;> exact nofun

namespace Table

variable {t : Table} {start c d : Cluster} {taken : ClusterSet}

/-! ## Resolved chains -/

/-- The set that resolving a chain starts with. Nothing is in it but the start. -/
def startSet (t : Table) (start : Cluster) : ClusterSet :=
  (ClusterSet.empty t.entryCount).insert start

theorem admits_startSet (h : t.IsData c) :
    (t.startSet start).admits c = !decide (start = c) := by
  rw [startSet, ClusterSet.admits_insert, ClusterSet.admits_empty, decide_eq_true h.2,
    Bool.true_and]

@[simp] theorem start_resolve (t : Table) (start : Cluster) : (t.resolve start).start = start := by
  rw [resolve]
  split <;> rfl

theorem resolve_of_not_isData (h : ¬ t.IsData start) :
    t.resolve start = ⟨start, [], .dangling none start⟩ := by
  rw [resolve, if_neg h]

theorem resolve_of_isData (h : t.IsData start) :
    t.resolve start =
      { start
        clusters := start :: t.onward start (t.startSet start)
        ending := match t.halt start (t.startSet start) with
          | .ended how => how
          | .blocked c => .cycle c } := by
  rw [resolve, if_pos h, trail_eq, ← startSet]
  cases t.halt start (t.startSet start) <;> simp

/-- Only a cluster of the chain itself can block a resolved chain. -/
theorem mem_of_halt_startSet (h : t.halt start (t.startSet start) = .blocked c) :
    c ∈ start :: t.onward start (t.startSet start) := by
  obtain ⟨hd, hc⟩ := isData_of_halt_eq_blocked h
  rw [List.mem_cons]
  rcases hc with hc | hc
  · rw [admits_startSet hd, Bool.not_eq_false', decide_eq_true_iff] at hc
    exact .inl hc.symm
  · exact .inr hc

theorem isData_of_mem_resolve (h : c ∈ (t.resolve start).clusters) : t.IsData c := by
  by_cases hs : t.IsData start
  · rw [resolve_of_isData hs] at h
    rcases List.mem_cons.1 h with rfl | h
    · exact hs
    · exact (admits_of_mem_onward h).1
  · rw [resolve_of_not_isData hs] at h
    cases h

theorem nodup_resolve (t : Table) (start : Cluster) : (t.resolve start).clusters.Nodup := by
  by_cases hs : t.IsData start
  · rw [resolve_of_isData hs, List.nodup_cons]
    refine ⟨fun h ↦ ?_, nodup_onward ..⟩
    have := (admits_of_mem_onward h).2
    simp [admits_startSet hs] at this
  · simp [resolve_of_not_isData hs]

/-- The three ways in which a chain ends at a cluster, each with the entry that says so. -/
theorem link_eq_error_cases {how : ChainEnd} (hc : t.IsData c) (h : t.link c = .error how) :
    (how = .complete ∧ ∃ raw, t.entryAt c = .ok (.endOfChain raw)) ∨
    (∃ target, how = .dangling (some c) target ∧ t.entryAt c = .ok (.pointer target) ∧
      ¬ t.IsData target) ∨
    (how = .broken c .free ∧ t.entryAt c = .ok .free) := by
  have hentry := entryAt_of_isData hc
  rw [link, hentry] at h
  rw [hentry]
  rcases hraw : TableEntry.ofRaw (t.bytes.word16 (2 * c)) with _ | raw | target | raw
  · rw [hraw] at h
    exact .inr (.inr ⟨(Except.error.inj h).symm, rfl⟩)
  · exact absurd hraw (TableEntry.ofRaw_ne_reserved _ raw)
  · rw [hraw] at h
    refine .inr (.inl ⟨target, ?_⟩)
    by_cases htarget : t.IsData target
    · simp [htarget] at h
    · simp only [if_neg htarget] at h
      exact ⟨(Except.error.inj h).symm, rfl, htarget⟩
  · rw [hraw] at h
    exact .inl ⟨(Except.error.inj h).symm, raw, rfl⟩

/-- An entry does not say that a chain runs in a circle or joins another one, and if it dangles, it
is the entry of a cluster. -/
theorem ne_of_link_eq_error {how : ChainEnd} (hc : t.IsData c) (h : t.link c = .error how) :
    (∀ e, how ≠ .cycle e) ∧ (∀ e, how ≠ .joins e) ∧ ∀ e, how ≠ .dangling none e := by
  rcases link_eq_error_cases hc h with ⟨rfl, -⟩ | ⟨target, rfl, -⟩ | ⟨rfl, -⟩
  · exact ⟨nofun, nofun, nofun⟩
  · exact ⟨nofun, nofun, nofun⟩
  · exact ⟨nofun, nofun, nofun⟩

/-- The last cluster of a resolved chain leads nowhere, or it leads back into the chain. -/
theorem exists_getLast?_resolve (h : t.IsData start) :
    ∃ last, (t.resolve start).clusters.getLast? = some last ∧
      (t.link last = .error (t.resolve start).ending ∨
        ∃ c ∈ (t.resolve start).clusters, t.link last = .ok c ∧
          (t.resolve start).ending = .cycle c) := by
  rw [resolve_of_isData h]
  rcases hh : t.halt start (t.startSet start) with how | c
  · obtain ⟨last, hlast, hl⟩ := exists_getLast?_of_halt_eq_ended hh
    exact ⟨last, hlast, .inl hl⟩
  · obtain ⟨last, hlast, hl⟩ := exists_getLast?_of_halt_eq_blocked hh
    exact ⟨last, hlast, .inr ⟨c, mem_of_halt_startSet hh, hl, rfl⟩⟩

/-- What ends a resolved chain is no junction, and it names the cluster that dangles. -/
theorem ending_resolve (h : t.IsData start) :
    (∀ c, (t.resolve start).ending ≠ .joins c) ∧
      ∀ c, (t.resolve start).ending ≠ .dangling none c := by
  obtain ⟨last, hlast, hl | ⟨c, -, -, hc⟩⟩ := exists_getLast?_resolve h
  · exact (ne_of_link_eq_error (isData_of_mem_resolve (List.mem_of_getLast? hlast)) hl).2
  · rw [hc]
    exact ⟨nofun, nofun⟩

/-- There are no more clusters in a list without repetitions than the table has. -/
theorem length_le_of_nodup {l : List Cluster} (hnodup : l.Nodup) (h : ∀ c ∈ l, t.IsData c) :
    l.length ≤ t.entryCount - firstCluster := by
  have hsub : l ⊆ List.range' firstCluster (t.entryCount - firstCluster) := by
    intro c hc
    have hd := h c hc
    rw [List.mem_range'_1, Nat.add_sub_of_le (Nat.le_of_lt (Nat.lt_of_le_of_lt hd.1 hd.2))]
    exact hd
  have hlen := hnodup.length_le_of_subset hsub
  rwa [List.length_range'] at hlen

/-! ## Claiming is resolving, cut -/

theorem claim_of_not_isData (h : ¬ t.IsData start) (taken : ClusterSet) :
    t.claim start taken = (⟨start, [], .dangling none start⟩, taken) := by
  rw [claim, if_pos h]

theorem claim_of_not_admits (h : t.IsData start) (ha : taken.admits start = false) :
    t.claim start taken = (⟨start, [], .joins start⟩, taken) := by
  rw [claim, if_neg (not_not_intro h), ha, if_neg Bool.false_ne_true]

theorem claim_of_admits (h : t.IsData start) (ha : taken.admits start = true) :
    t.claim start taken =
      ({ start
         clusters := start :: t.onward start (taken.insert start)
         ending := match t.halt start (taken.insert start) with
          | .ended how => how
          | .blocked c =>
            if c ∈ start :: t.onward start (taken.insert start) then .cycle c else .joins c },
        (start :: t.onward start (taken.insert start)).foldl .insert taken) := by
  rw [claim, if_neg (not_not_intro h), if_pos ha, trail_eq]
  cases t.halt start (taken.insert start) <;> simp

/-- Beside the start, the sets that claiming and resolving start with differ by the clusters that
are taken. -/
theorem admits_insert_eq (taken : ClusterSet) (start : Cluster) (h : t.IsData c) :
    (taken.insert start).admits c = ((t.startSet start).admits c && taken.admits c) := by
  rw [admits_startSet h, ClusterSet.admits_insert, Bool.and_comm]

/-- **Claiming agrees with resolving.** A claimed chain is the resolved one, cut at the first
cluster that the set does not admit. -/
theorem claim_fst (t : Table) (start : Cluster) (taken : ClusterSet) :
    (t.claim start taken).1 = (t.resolve start).cut fun c ↦ !taken.admits c := by
  by_cases h : t.IsData start
  · rw [resolve_of_isData h]
    cases ha : taken.admits start with
    | false => simp [claim_of_not_admits h ha, Chain.cut, ha]
    | true =>
      have hagree := fun c (hc : t.IsData c) ↦ admits_insert_eq taken start hc
      rw [claim_of_admits h ha, Chain.cut]
      simp only [List.takeWhile_cons, List.find?_cons, ha, Bool.not_true,
        Bool.not_not, if_true, onward_eq_takeWhile hagree, halt_eq_blocked_or hagree]
      congr 1
      cases hf : (t.onward start (t.startSet start)).find? fun c ↦ !taken.admits c with
      | none =>
        -- nothing is cut, so what blocks the chain is what blocks the resolved one
        have hall : (t.onward start (t.startSet start)).takeWhile taken.admits =
            t.onward start (t.startSet start) := by
          rw [List.takeWhile_eq_self_iff]
          simpa using hf
        rw [hall]
        cases hh : t.halt start (t.startSet start) with
        | ended how => rfl
        | blocked c => simp only [if_pos (mem_of_halt_startSet hh)]
      | some c =>
        -- the chain is cut at `c`, which is not admitted, unlike all clusters before it
        have hc : taken.admits c = false := by simpa using List.find?_some hf
        have hmem : c ∉ start :: (t.onward start (t.startSet start)).takeWhile taken.admits := by
          rw [List.mem_cons]
          rintro (rfl | hmem)
          · exact Bool.false_ne_true (hc.symm.trans ha)
          · exact Bool.false_ne_true (hc.symm.trans (List.mem_takeWhile_imp hmem))
        simp only [if_neg hmem]
  · simp [claim_of_not_isData h, resolve_of_not_isData h, Chain.cut]

/-- With a set that has room for all clusters and holds none, claiming is resolving. -/
theorem claim_empty {capacity : Nat} (h : t.entryCount ≤ capacity) (start : Cluster) :
    (t.claim start (.empty capacity)).1 = t.resolve start := by
  rw [claim_fst]
  refine Chain.cut_eq_self fun c hc ↦ ?_
  have hlt : c < capacity := Nat.lt_of_lt_of_le (isData_of_mem_resolve hc).2 h
  rw [ClusterSet.admits_empty, decide_eq_true hlt, Bool.not_true]

/-- A claim records the clusters of its chain. -/
theorem claim_snd (t : Table) (start : Cluster) (taken : ClusterSet) :
    (t.claim start taken).2 = (t.claim start taken).1.clusters.foldl .insert taken := by
  by_cases h : t.IsData start
  · cases ha : taken.admits start with
    | false => rw [claim_of_not_admits h ha]; rfl
    | true => rw [claim_of_admits h ha]
  · rw [claim_of_not_isData h]; rfl

/-! ## The clusters and the end of a claimed chain -/

@[simp] theorem start_claim (t : Table) (start : Cluster) (taken : ClusterSet) :
    (t.claim start taken).1.start = start := by
  rw [claim_fst, Chain.cut, start_resolve]

theorem isData_of_mem_claim (h : c ∈ (t.claim start taken).1.clusters) : t.IsData c := by
  rw [claim_fst] at h
  exact isData_of_mem_resolve ((List.takeWhile_subset _) h)

theorem head?_claim (h : t.IsData start) (ha : taken.admits start = true) :
    (t.claim start taken).1.clusters.head? = some start := by
  rw [claim_of_admits h ha, List.head?_cons]

/-- A claimed chain does not dangle at its start. -/
theorem ending_claim_ne (h : t.IsData start) (c : Cluster) :
    (t.claim start taken).1.ending ≠ .dangling none c := by
  rw [claim_fst, Chain.cut]
  cases (t.resolve start).clusters.find? fun d ↦ !taken.admits d with
  | none => exact (ending_resolve h).2 c
  | some d => exact nofun

/-- A chain is claimed only from a cluster of the table that is not taken. -/
theorem admits_start_of_mem_claim (h : c ∈ (t.claim start taken).1.clusters) :
    t.IsData start ∧ taken.admits start = true := by
  by_cases hs : t.IsData start
  · cases ha : taken.admits start with
    | false => simp [claim_of_not_admits hs ha] at h
    | true => exact ⟨hs, rfl⟩
  · simp [claim_of_not_isData hs] at h

/-- A claimed chain that is not empty goes on from its start. -/
theorem clusters_claim_of_mem (h : c ∈ (t.claim start taken).1.clusters) :
    (t.claim start taken).1.clusters = start :: t.onward start (taken.insert start) := by
  obtain ⟨hs, ha⟩ := admits_start_of_mem_claim h
  rw [claim_of_admits hs ha]

/-- A cluster of a claimed chain is its start or follows a cluster of the chain. -/
theorem exists_link_of_mem_claim (h : c ∈ (t.claim start taken).1.clusters) :
    c = start ∨ ∃ d ∈ (t.claim start taken).1.clusters, t.link d = .ok c := by
  have hclusters := clusters_claim_of_mem h
  rw [hclusters] at h ⊢
  rcases List.mem_cons.1 h with rfl | h
  · exact .inl rfl
  · exact .inr (exists_link_of_mem_onward h)

/-- What stops the trail decides how a claimed chain with a cluster ends. -/
theorem ending_claim_cases (h : c ∈ (t.claim start taken).1.clusters) :
    (∃ how, t.halt start (taken.insert start) = .ended how ∧
      (t.claim start taken).1.ending = how) ∨
    (∃ e ∈ (t.claim start taken).1.clusters, t.halt start (taken.insert start) = .blocked e ∧
      (t.claim start taken).1.ending = .cycle e) ∨
    ∃ e, e ∉ (t.claim start taken).1.clusters ∧ t.halt start (taken.insert start) = .blocked e ∧
      (t.claim start taken).1.ending = .joins e := by
  obtain ⟨hs, ha⟩ := admits_start_of_mem_claim h
  rw [claim_of_admits hs ha]
  rcases hhalt : t.halt start (taken.insert start) with how | e
  · exact .inl ⟨how, rfl, rfl⟩
  · right
    by_cases he : e ∈ start :: t.onward start (taken.insert start)
    · exact .inl ⟨e, he, rfl, if_pos he⟩
    · exact .inr ⟨e, he, rfl, if_neg he⟩

/-- The links of a chain that runs in a circle stay in the chain. -/
theorem exists_link_of_ending_claim_eq_cycle {closesAt : Cluster}
    (h : (t.claim start taken).1.ending = .cycle closesAt)
    (hd : d ∈ (t.claim start taken).1.clusters) :
    ∃ e ∈ (t.claim start taken).1.clusters, t.link d = .ok e := by
  have hclusters := clusters_claim_of_mem hd
  rcases ending_claim_cases hd with ⟨how, hh, hend⟩ | ⟨e, he, hh, -⟩ | ⟨e, -, -, hend⟩
  · obtain ⟨last, hlast, hl⟩ := exists_getLast?_of_halt_eq_ended hh
    have hdata : t.IsData last := isData_of_mem_claim (hclusters ▸ List.mem_of_getLast? hlast)
    exact absurd (hend.symm.trans h) ((ne_of_link_eq_error hdata hl).1 _)
  · rw [hclusters] at hd he ⊢
    obtain ⟨next, hnext, hl⟩ := exists_link_of_halt_eq_blocked hh hd
    refine ⟨next, ?_, hl⟩
    rcases List.mem_cons.1 hnext with rfl | hnext
    · exact he
    · exact List.mem_cons_of_mem _ hnext
  · cases hend.symm.trans h

/-- A claim takes only clusters that the set admits. -/
theorem admits_of_mem_clusters_claim (h : c ∈ (t.claim start taken).1.clusters) :
    taken.admits c = true := by
  rw [claim_fst] at h
  simpa using List.mem_takeWhile_imp h

theorem nodup_claim (t : Table) (start : Cluster) (taken : ClusterSet) :
    (t.claim start taken).1.clusters.Nodup := by
  rw [claim_fst]
  exact (t.nodup_resolve start).sublist (List.takeWhile_sublist _)

@[simp] theorem capacity_claim (t : Table) (start : Cluster) (taken : ClusterSet) :
    (t.claim start taken).2.capacity = taken.capacity := by
  rw [claim_snd, ClusterSet.capacity_foldl_insert]

/-- A claim adds the clusters of its chain to the set, and no others. -/
theorem contains_claim_iff : (t.claim start taken).2.contains c = true ↔
    taken.contains c = true ∨ c ∈ (t.claim start taken).1.clusters := by
  rw [claim_snd]
  exact ClusterSet.contains_foldl_insert_iff fun _ ↦ admits_of_mem_clusters_claim

theorem contains_claim_of_contains (h : taken.contains c = true) :
    (t.claim start taken).2.contains c = true := contains_claim_iff.2 (.inl h)

/-- What follows a cluster of a claimed chain is in the set after the claim. -/
theorem contains_claim_of_link (hcap : t.entryCount ≤ taken.capacity)
    (hd : d ∈ (t.claim start taken).1.clusters) (h : t.link d = .ok c) :
    (t.claim start taken).2.contains c = true := by
  have hlt : c < taken.capacity := Nat.lt_of_lt_of_le (isData_of_link_eq_ok h).2 hcap
  rw [contains_claim_iff]
  have hclusters := clusters_claim_of_mem hd
  rw [hclusters] at hd ⊢
  rcases mem_onward_of_link hd h with hc | hc
  · exact .inr (List.mem_cons_of_mem _ hc)
  · rw [ClusterSet.admits_insert, ClusterSet.admits, decide_eq_true hlt] at hc
    by_cases hsc : start = c
    · exact .inr (hsc ▸ List.mem_cons_self)
    · exact .inl (by simpa [hsc] using hc)

/-! ## Chains claimed one after another -/

/-- A chain of a list with one more at its end is that one, or is in the list. -/
theorem append_singleton_eq_append_cons {chains before after : List Chain} {last chain : Chain}
    (h : chains ++ [last] = before ++ chain :: after) :
    chains = before ∧ last = chain ∨ ∃ after', chains = before ++ chain :: after' := by
  rcases List.eq_nil_or_concat after with rfl | ⟨after, last', rfl⟩
  · exact .inl (List.append_singleton_inj.1 h)
  · rw [List.concat_eq_append, ← List.cons_append, ← List.append_assoc] at h
    exact .inr ⟨after, (List.append_singleton_inj.1 h).1⟩

/-- Every chain of the list is what its start resolves to, cut at the first cluster of an earlier
chain. -/
def ClaimedInOrder (t : Table) (chains : List Chain) : Prop :=
  ∀ before chain after, chains = before ++ chain :: after →
    chain = (t.resolve chain.start).cut fun c ↦ decide (c ∈ before.flatMap Chain.clusters)

namespace ClaimedInOrder

variable {chains before after : List Chain} {chain : Chain}

theorem nil (t : Table) : t.ClaimedInOrder [] := by
  intro before chain after h
  simp at h

theorem of_append (h : t.ClaimedInOrder (before ++ after)) : t.ClaimedInOrder before := by
  intro before' chain after' hb
  exact h before' chain (after' ++ after) (by rw [hb, List.append_assoc, List.cons_append])

theorem append_singleton (h : t.ClaimedInOrder chains)
    (hc : chain = (t.resolve chain.start).cut fun c ↦ decide (c ∈ chains.flatMap Chain.clusters)) :
    t.ClaimedInOrder (chains ++ [chain]) := by
  intro before chain' after hb
  rcases append_singleton_eq_append_cons hb with ⟨rfl, rfl⟩ | ⟨after', hb'⟩
  · exact hc
  · exact h before chain' after' hb'

theorem isData (h : t.ClaimedInOrder chains) (hc : c ∈ chains.flatMap Chain.clusters) :
    t.IsData c := by
  obtain ⟨chain, hchain, hc⟩ := List.mem_flatMap.1 hc
  -- cut or not, a chain has only clusters that its start resolves to
  obtain ⟨before, after, hb⟩ := List.append_of_mem hchain
  rw [h before chain after hb] at hc
  exact isData_of_mem_resolve ((List.takeWhile_subset _) hc)

/-- No cluster is claimed twice. -/
theorem nodup (h : t.ClaimedInOrder chains) : (chains.flatMap Chain.clusters).Nodup := by
  -- from the end, since a chain is cut by those before it
  induction chains using List.reverseRecOn with
  | nil => simp
  | append_singleton chains chain ih =>
    have hc := congrArg Chain.clusters (h chains chain [] rfl)
    rw [List.flatMap_append, List.flatMap_singleton, List.nodup_append]
    refine ⟨ih h.of_append, ?_, fun c hmem d hd hcd ↦ ?_⟩
    · rw [hc]
      exact (nodup_resolve ..).sublist (List.takeWhile_sublist _)
    · rw [hc] at hd
      have := List.mem_takeWhile_imp hd
      simp [← hcd, hmem] at this

/-- The chains share the clusters of the table. -/
theorem length_clusters_le (h : t.ClaimedInOrder chains) :
    (chains.flatMap Chain.clusters).length ≤ t.entryCount - firstCluster :=
  length_le_of_nodup h.nodup fun _ ↦ h.isData

end ClaimedInOrder

/-- The set holds the clusters of the chains, which have been claimed one after another. -/
structure Ledger (t : Table) (chains : List Chain) (claimed : ClusterSet) : Prop where
  /-- The set has room for every cluster of the table. -/
  capacity_eq : claimed.capacity = t.entryCount
  /-- The set holds the clusters of the chains. -/
  contains_iff : ∀ c, claimed.contains c = true ↔ c ∈ chains.flatMap Chain.clusters
  /-- No chain has a cluster of an earlier one. -/
  inOrder : t.ClaimedInOrder chains

namespace Ledger

variable {chains : List Chain} {claimed : ClusterSet}

theorem empty (t : Table) : t.Ledger [] (.empty t.entryCount) where
  capacity_eq := rfl
  contains_iff := by simp
  inOrder := .nil t

theorem admits_eq (h : t.Ledger chains claimed) (hc : t.IsData c) :
    claimed.admits c = !decide (c ∈ chains.flatMap Chain.clusters) := by
  rw [ClusterSet.admits, h.capacity_eq, decide_eq_true hc.2, Bool.true_and, Bool.eq_iff_iff]
  simp [← h.contains_iff]

/-- A claimed chain is the resolved one, cut at the first cluster of the chains before it. -/
theorem claim_fst (h : t.Ledger chains claimed) (start : Cluster) :
    (t.claim start claimed).1 =
      (t.resolve start).cut fun c ↦ decide (c ∈ chains.flatMap Chain.clusters) := by
  rw [Table.claim_fst]
  refine Chain.cut_congr fun c hc ↦ ?_
  rw [h.admits_eq (isData_of_mem_resolve hc), Bool.not_not]

/-- Claiming one more chain keeps the ledger. -/
theorem claim (h : t.Ledger chains claimed) (start : Cluster) :
    t.Ledger (chains ++ [(t.claim start claimed).1]) (t.claim start claimed).2 where
  capacity_eq := by rw [capacity_claim, h.capacity_eq]
  contains_iff := by
    intro c
    rw [contains_claim_iff, h.contains_iff, List.flatMap_append, List.flatMap_singleton,
      List.mem_append]
  inOrder := by
    refine h.inOrder.append_singleton ?_
    rw [start_claim]
    exact h.claim_fst start

end Ledger

namespace ClaimedInOrder

variable {chains before after : List Chain} {chain : Chain}

theorem exists_ledger (h : t.ClaimedInOrder chains) : ∃ taken, t.Ledger chains taken := by
  induction chains using List.reverseRecOn with
  | nil => exact ⟨_, .empty t⟩
  | append_singleton chains chain ih =>
    obtain ⟨taken, hledger⟩ := ih h.of_append
    have hchain := (hledger.claim_fst chain.start).trans (h chains chain [] rfl).symm
    exact ⟨_, hchain ▸ hledger.claim chain.start⟩

/-- Every chain of the list is what a claim gives when the chains before it have been claimed. -/
theorem exists_claim (h : t.ClaimedInOrder (before ++ chain :: after)) :
    ∃ taken, t.Ledger before taken ∧ (t.claim chain.start taken).1 = chain := by
  obtain ⟨taken, hledger⟩ := h.of_append.exists_ledger
  exact ⟨taken, hledger, (hledger.claim_fst chain.start).trans (h before chain after rfl).symm⟩

end ClaimedInOrder

end Table

end Fat16
