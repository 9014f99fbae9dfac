import Mathlib.Order.Bounds.Defs
import Fat16.Proofs.Claim
import Fat16.Summary

/-!
# The summary as a partition

The summary of a table claims a chain from every cluster in use that no chain before has reached.
Nothing guarantees that chains start where they are first met: a chain may join one that is listed
already, and a link may lead to a free cluster, which is then listed too. What the list of chains
does guarantee is `Table.chains_partition`: every cluster in use and every cluster that a link
leads to is in exactly one chain, and nothing else is in any.

The invariant is `Table.Listing`. It looks back from the next cluster to be met: all clusters in
use before it are covered, and what is covered is closed under links, since a chain stops only at a
cluster that is covered already.

Chains can be had from a table in other ways too (`Table.Gives`), and all of them by claiming.
-/

namespace Fat16

namespace Table

variable {t : Table} {c d next : Cluster} {chains : List Chain} {covered : ClusterSet}

theorem isFree_eq_false_iff : t.isFree c = false ↔ t.entryAt c ≠ .ok .free := by
  rw [isFree]
  cases t.entryAt c with
  | ok entry => simp [Except.toOption]
  | error fault => simp [Except.toOption]

theorem link_eq_ok_iff : t.link d = .ok c ↔ t.entryAt d = .ok (.pointer c) ∧ t.IsData c := by
  rw [link]
  cases t.entryAt d with
  | error fault => simp
  | ok entry =>
    cases entry with
    | pointer next =>
      by_cases h : t.IsData next
      · simp only [if_pos h, Except.ok.injEq, TableEntry.pointer.injEq]
        exact ⟨fun hn ↦ ⟨hn, hn ▸ h⟩, And.left⟩
      · simp only [if_neg h, reduceCtorEq, Except.ok.injEq, TableEntry.pointer.injEq, false_iff]
        exact fun hn ↦ h (hn.1 ▸ hn.2)
    | _ => simp

/-- A cluster with a link is in use. -/
theorem isFree_eq_false_of_link (h : t.link d = .ok c) : t.isFree d = false := by
  rw [isFree_eq_false_iff, (link_eq_ok_iff.1 h).1]
  simp

/-! ## The invariant -/

/-- The chains listed when the clusters before `next` have been gone through. -/
structure Listing (t : Table) (next : Cluster) (chains : List Chain) (covered : ClusterSet) :
    Prop where
  /-- The chains have been claimed one after another. -/
  ledger : t.Ledger chains covered
  /-- Every cluster in use is covered once it has been met. -/
  covers : ∀ c, t.IsData c → c < next → t.isFree c = false → covered.contains c = true
  /-- What is covered is closed under links. -/
  closed : ∀ d c, covered.contains d = true → t.link d = .ok c → covered.contains c = true
  /-- What is covered is in use or has a link leading to it. -/
  used : ∀ c, covered.contains c = true → t.isFree c = false ∨ ∃ d, t.IsData d ∧ t.link d = .ok c
  /-- The chains start at clusters that have been met. -/
  start_lt : ∀ chain ∈ chains, chain.start < next
  /-- The starts increase. -/
  sorted : chains.Pairwise fun chain chain' ↦ chain.start < chain'.start
  /-- Every chain starts at the first cluster in use that no chain before it has. -/
  least : ∀ before chain after, chains = before ++ chain :: after →
    IsLeast {c | t.IsData c ∧ t.isFree c = false ∧ c ∉ before.flatMap Chain.clusters} chain.start

namespace Listing

theorem empty (t : Table) : t.Listing firstCluster [] (.empty t.entryCount) where
  ledger := .empty t
  covers := fun c hc hlt ↦ absurd hlt (Nat.not_lt.2 hc.1)
  closed := by simp
  used := by simp
  start_lt := by simp
  sorted := .nil
  least := by simp

/-- A cluster that is covered or free is passed over. -/
theorem skip (h : t.Listing next chains covered)
    (hn : (covered.contains next || t.isFree next) = true) :
    t.Listing (next + 1) chains covered where
  ledger := h.ledger
  covers := by
    intro c hc hlt hf
    rcases Nat.lt_succ_iff_lt_or_eq.1 hlt with hlt | rfl
    · exact h.covers c hc hlt hf
    · simpa [hf] using hn
  closed := h.closed
  used := h.used
  start_lt := fun chain hchain ↦ Nat.lt_succ_of_lt (h.start_lt chain hchain)
  sorted := h.sorted
  least := h.least

/-- A cluster in use that is not covered starts a chain. -/
theorem claim (h : t.Listing next chains covered) (hd : t.IsData next)
    (hn : (covered.contains next || t.isFree next) = false) :
    t.Listing (next + 1) (chains ++ [(t.claim next covered).1]) (t.claim next covered).2 := by
  obtain ⟨hc, hf⟩ := Bool.or_eq_false_iff.1 hn
  have hadmits : covered.admits next = true := by
    rw [ClusterSet.admits_iff, h.ledger.capacity_eq]
    exact ⟨hd.2, hc⟩
  have hledger := h.ledger.claim next
  -- the set gains the clusters of the new chain
  have hmem : ∀ c, (t.claim next covered).2.contains c = true ↔
      covered.contains c = true ∨ c ∈ (t.claim next covered).1.clusters := by
    intro c
    rw [hledger.contains_iff, h.ledger.contains_iff, List.flatMap_append, List.flatMap_singleton,
      List.mem_append]
  have hstart : next ∈ (t.claim next covered).1.clusters :=
    List.mem_of_head? (head?_claim hd hadmits)
  exact {
    ledger := hledger
    covers := by
      intro c hcd hlt hcf
      rcases Nat.lt_succ_iff_lt_or_eq.1 hlt with hlt | rfl
      · exact (hmem c).2 (.inl (h.covers c hcd hlt hcf))
      · exact (hmem c).2 (.inr hstart)
    closed := by
      intro d c hdc hl
      -- a link from the new chain leads on in it or to what stopped it, which is covered
      rcases (hmem d).1 hdc with hdc | hdc
      · exact (hmem c).2 (.inl (h.closed d c hdc hl))
      · exact contains_claim_of_link h.ledger.capacity_eq.ge hdc hl
    used := by
      intro c hcc
      rcases (hmem c).1 hcc with hcc | hcc
      · exact h.used c hcc
      · rcases exists_link_of_mem_claim hcc with rfl | ⟨d, hdc, hl⟩
        · exact .inl hf
        · exact .inr ⟨d, isData_of_mem_claim hdc, hl⟩
    start_lt := by
      intro chain hchain
      rcases List.mem_append.1 hchain with hchain | hchain
      · exact Nat.lt_succ_of_lt (h.start_lt chain hchain)
      · rw [List.mem_singleton.1 hchain, start_claim]
        exact Nat.lt_succ_self next
    sorted := by
      refine List.pairwise_append.2 ⟨h.sorted, List.pairwise_singleton _ _, ?_⟩
      intro chain hchain chain' hchain'
      rw [List.mem_singleton.1 hchain', start_claim]
      exact h.start_lt chain hchain
    least := by
      intro before chain after hb
      rcases append_singleton_eq_append_cons hb with ⟨rfl, rfl⟩ | ⟨after', hb'⟩
      · rw [start_claim]
        refine ⟨⟨hd, hf, fun hcc ↦ ?_⟩, fun c hcc ↦ ?_⟩
        · rw [(h.ledger.contains_iff next).2 hcc] at hc
          cases hc
        · obtain ⟨hcd, hcf, hcb⟩ := hcc
          -- a smaller one would have been met before
          by_contra hlt
          exact hcb ((h.ledger.contains_iff c).1 (h.covers c hcd (Nat.lt_of_not_le hlt) hcf))
      · exact h.least before chain after' hb' }

/-- Going through one more cluster keeps the invariant. -/
theorem listChain {listed : Array Chain × ClusterSet}
    (h : t.Listing next listed.1.toList listed.2) (hd : t.IsData next) :
    t.Listing (next + 1) (t.listChain listed next).1.toList (t.listChain listed next).2 := by
  obtain ⟨chains, covered⟩ := listed
  rw [Table.listChain]
  cases hn : covered.contains next || t.isFree next with
  | true => exact h.skip hn
  | false =>
    rw [if_neg Bool.false_ne_true, Array.toList_push]
    exact h.claim hd hn

/-- Going through the clusters from `next` on keeps the invariant. -/
theorem foldl {n : Nat} (listed : Array Chain × ClusterSet)
    (h : t.Listing next listed.1.toList listed.2) (hfirst : firstCluster ≤ next)
    (hn : next + n ≤ t.entryCount) :
    t.Listing (next + n) ((List.range' next n).foldl t.listChain listed).1.toList
      ((List.range' next n).foldl t.listChain listed).2 := by
  -- on how many clusters are left; the invariant goes from one to the next
  induction n generalizing next listed with
  | zero => exact h
  | succ n ih =>
    rw [List.range'_succ, List.foldl_cons, Nat.add_comm n 1, ← Nat.add_assoc]
    have hlt : next < t.entryCount := Nat.lt_of_lt_of_le (Nat.lt_add_of_pos_right n.succ_pos) hn
    refine ih _ (h.listChain ⟨hfirst, hlt⟩) (Nat.le_succ_of_le hfirst) ?_
    rwa [Nat.add_assoc, Nat.add_comm 1 n]

end Listing

/-- When all clusters have been gone through, the summary is what the invariant speaks of. -/
theorem exists_listing (t : Table) :
    ∃ next covered, t.entryCount ≤ next ∧ t.Listing next t.chains covered := by
  by_cases h : t.entryCount ≤ firstCluster
  · refine ⟨firstCluster, .empty t.entryCount, h, ?_⟩
    rw [chains, clusters, Nat.sub_eq_zero_of_le h]
    exact .empty t
  · have hn : firstCluster + (t.entryCount - firstCluster) = t.entryCount :=
      Nat.add_sub_of_le (Nat.le_of_not_le h)
    exact ⟨_, _, hn.ge,
      Listing.foldl (#[], .empty t.entryCount) (.empty t) (Nat.le_refl _) hn.le⟩

/-! ## The chains of a table -/

/-- The chains that can be had from a table. -/
inductive Gives (t : Table) : Chain → Prop where
  /-- A chain by itself, which is also what a cursor reads. -/
  | resolved (start : Cluster) : Gives t (t.resolve start)
  /-- A chain as far as its clusters are not taken. -/
  | claimed (start : Cluster) (taken : ClusterSet) : Gives t (t.claim start taken).1
  /-- A chain of the summary. -/
  | listed (chain : Chain) (h : chain ∈ t.summary.chains) : Gives t chain

/-- All of them can be had by claiming. -/
theorem Gives.exists_claim {chain : Chain} (h : t.Gives chain) :
    ∃ start taken, (t.claim start taken).1 = chain := by
  rcases h with start | ⟨start, taken⟩ | ⟨_, h⟩
  · exact ⟨start, .empty t.entryCount, claim_empty (Nat.le_refl _) start⟩
  · exact ⟨start, taken, rfl⟩
  · obtain ⟨_, _, -, hlisting⟩ := t.exists_listing
    obtain ⟨before, after, hb⟩ := List.append_of_mem (show chain ∈ t.chains from h)
    have hordered := hlisting.ledger.inOrder
    rw [hb] at hordered
    obtain ⟨taken, -, hchain⟩ := hordered.exists_claim
    exact ⟨chain.start, taken, hchain⟩

/-- No chain has more clusters than the table. -/
theorem Gives.length_le {chain : Chain} (h : t.Gives chain) :
    chain.length ≤ t.entryCount - firstCluster := by
  obtain ⟨start, taken, rfl⟩ := h.exists_claim
  exact length_le_of_nodup (t.nodup_claim start taken) fun _ hc ↦ isData_of_mem_claim hc

/-! ## The partition -/

/-- **The summary is a partition.** The clusters in the chains are those in use and those that
links lead to, each of them once. Chains start at increasing clusters, each at the first one in use
that is in no chain before, and each is what its start resolves to, cut at the first cluster of a
chain before. -/
theorem chains_partition (t : Table) :
    (∀ c, c ∈ t.summary.chains.flatMap Chain.clusters ↔ t.IsData c ∧
      (t.entryAt c ≠ .ok .free ∨ ∃ d, t.IsData d ∧ t.entryAt d = .ok (.pointer c))) ∧
    (t.summary.chains.flatMap Chain.clusters).Nodup ∧
    (t.summary.chains.map Chain.start).Pairwise (· < ·) ∧
    ∀ before chain after, t.summary.chains = before ++ chain :: after →
      IsLeast {c | t.IsData c ∧ t.entryAt c ≠ .ok .free ∧ c ∉ before.flatMap Chain.clusters}
        chain.start ∧
      chain = (t.resolve chain.start).cut (fun c ↦ decide (c ∈ before.flatMap Chain.clusters)) ∧
      ∀ c, chain.ending = .joins c ↔
        (t.resolve chain.start).clusters.find? (fun c ↦ decide (c ∈ before.flatMap Chain.clusters))
          = some c := by
  obtain ⟨next, covered, hnext, h⟩ := exists_listing t
  refine ⟨fun c ↦ ⟨fun hc ↦ ?_, fun ⟨hd, hc⟩ ↦ ?_⟩, h.ledger.inOrder.nodup,
    List.pairwise_map.2 h.sorted, fun before chain after hb ↦ ?_⟩
  · refine ⟨h.ledger.inOrder.isData hc, ?_⟩
    rw [← isFree_eq_false_iff]
    refine (h.used c ((h.ledger.contains_iff c).2 hc)).imp_right ?_
    rintro ⟨d, hd, hl⟩
    exact ⟨d, hd, (link_eq_ok_iff.1 hl).1⟩
  · refine (h.ledger.contains_iff c).1 ?_
    rcases hc with hc | ⟨d, hdd, hdc⟩
    · exact h.covers c hd (Nat.lt_of_lt_of_le hd.2 hnext) (isFree_eq_false_iff.2 hc)
    · have hl : t.link d = .ok c := link_eq_ok_iff.2 ⟨hdc, hd⟩
      exact h.closed d c (h.covers d hdd (Nat.lt_of_lt_of_le hdd.2 hnext)
        (isFree_eq_false_of_link hl)) hl
  · have hleast := h.least before chain after hb
    simp only [isFree_eq_false_iff] at hleast
    have hcut := h.ledger.inOrder before chain after hb
    refine ⟨hleast, hcut, fun c ↦ ?_⟩
    have hjoins := Chain.ending_cut_eq_joins_iff
      (fun c ↦ decide (c ∈ before.flatMap Chain.clusters)) (ending_resolve hleast.1.1).1 c
    rwa [← hcut] at hjoins

/-- A small table. The chain of `2` goes on at `5`, which is free, that of `3` comes back to `3`,
that of `4` joins the first, and that of `6` leads out of the table. -/
def sample : Table where
  bytes := #[0, 0, 0, 0, 5, 0, 3, 0, 2, 0, 0, 0, 9, 0]

theorem sample_chains_partition :
    ∃ before after, sample.summary.chains = before ++ ⟨4, [4], .joins 2⟩ :: after ∧
      IsLeast {c | sample.IsData c ∧ sample.entryAt c ≠ .ok .free ∧
        c ∉ before.flatMap Chain.clusters} 4 ∧
      ⟨4, [4], .joins 2⟩ =
        (sample.resolve 4).cut (fun c ↦ decide (c ∈ before.flatMap Chain.clusters)) := by
  have hchains : sample.summary.chains =
      [⟨2, [2, 5], .broken 5 .free⟩, ⟨3, [3], .cycle 3⟩] ++ ⟨4, [4], .joins 2⟩ ::
        [⟨6, [6], .dangling (some 6) 9⟩] := by
    decide +kernel
  obtain ⟨hleast, hcut, -⟩ := (chains_partition sample).2.2.2 _ _ _ hchains
  exact ⟨_, _, hchains, hleast, hcut⟩

end Table

end Fat16
