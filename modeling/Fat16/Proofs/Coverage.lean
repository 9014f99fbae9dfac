import Fat16.Proofs.ClusterSet
import Fat16.Proofs.Partition

/-!
# What claims cover

A claim goes no further than the set that it shares with other claims lets it, whatever the set is:
of any capacity, with any members. `Table.claim_eq_cut` says what a single claim does with it.

How far a single claim goes depends on what has been claimed before, so the chains that come out of
a list of starts depend on the order of the list: whichever comes first takes what the others join.
What they cover together does not (`Table.claimAll_covers`). A chain stops short only at a cluster
that is covered, and what is covered is closed under links (`Table.IsClosed`), so everything behind
the place where a chain is cut is covered as well.
-/

namespace Fat16

/-- Whether `c` cannot be claimed: it is taken, or the set has no room for it. -/
def ClusterSet.blocks (s : ClusterSet) (c : Cluster) : Bool :=
  s.contains c || decide (s.capacity ≤ c)

theorem ClusterSet.blocks_eq (s : ClusterSet) (c : Cluster) : s.blocks c = !s.admits c := by
  rw [blocks, admits, Bool.not_and, Bool.not_not, Bool.or_comm, ← decide_not]
  simp only [Nat.not_lt]

namespace Table

variable {t : Table} {start c d : Cluster} {starts starts' : List Cluster} {taken : ClusterSet}
  {capacity : Nat}

/-! ## One claim -/

theorem size_claim (t : Table) (start : Cluster) (taken : ClusterSet) :
    (t.claim start taken).2.size = taken.size + (t.claim start taken).1.length := by
  rw [claim_snd]
  exact ClusterSet.size_foldl_insert (t.nodup_claim start taken)
    fun _ ↦ admits_of_mem_clusters_claim

/-- **One claim.** A claimed chain is the resolved one, cut at the first cluster that the set
blocks. The set gains the clusters of the chain, and so grows by as many as these are. -/
theorem claim_eq_cut (t : Table) (start : Cluster) (taken : ClusterSet) :
    (t.claim start taken).1 = (t.resolve start).cut taken.blocks ∧
    (t.claim start taken).2.capacity = taken.capacity ∧
    (∀ c, (t.claim start taken).2.contains c = true ↔
      taken.contains c = true ∨ c ∈ (t.claim start taken).1.clusters) ∧
    (t.claim start taken).2.size = taken.size + (t.claim start taken).1.length ∧
    ∀ capacity, t.entryCount ≤ capacity →
      (t.claim start (.empty capacity)).1 = t.resolve start := by
  refine ⟨?_, t.capacity_claim start taken, fun c ↦ contains_claim_iff, t.size_claim start taken,
    fun capacity h ↦ claim_empty h start⟩
  rw [claim_fst]
  exact Chain.cut_congr fun c _ ↦ (taken.blocks_eq c).symm

/-- The chain at `4` goes on at `2` and then at `5`, for which a set of capacity `5` has no room. -/
theorem sample_claim_eq_cut :
    (sample.claim 4 (.empty 5)).1 = ⟨4, [4, 2], .joins 5⟩ ∧
    ⟨4, [4, 2], .joins 5⟩ = (sample.resolve 4).cut (ClusterSet.empty 5).blocks ∧
    sample.entryCount ≤ 7 ∧ (sample.claim 4 (.empty 7)).1 = sample.resolve 4 := by
  have hclaim : (sample.claim 4 (.empty 5)).1 = ⟨4, [4, 2], .joins 5⟩ := by decide +kernel
  obtain ⟨hcut, -, -, -, hempty⟩ := claim_eq_cut sample 4 (.empty 5)
  exact ⟨hclaim, hclaim.symm.trans hcut, by decide, hempty 7 (by decide)⟩

/-! ## Many claims -/

/-- Claims the chains at `starts` one after another in one set. -/
def claimAll (t : Table) : (starts : List Cluster) → (taken : ClusterSet) → List Chain × ClusterSet
  | [], taken => ([], taken)
  | start :: starts, taken =>
    let (chain, taken) := t.claim start taken
    let (chains, taken) := t.claimAll starts taken
    (chain :: chains, taken)

theorem claimAll_cons (t : Table) (start : Cluster) (starts : List Cluster) (taken : ClusterSet) :
    t.claimAll (start :: starts) taken =
      ((t.claim start taken).1 :: (t.claimAll starts (t.claim start taken).2).1,
        (t.claimAll starts (t.claim start taken).2).2) := rfl

/-- The clusters that are taken by the claims. -/
def gained (t : Table) (starts : List Cluster) (taken : ClusterSet) : List Cluster :=
  (t.claimAll starts taken).1.flatMap Chain.clusters

theorem gained_cons (t : Table) (start : Cluster) (starts : List Cluster) (taken : ClusterSet) :
    t.gained (start :: starts) taken =
      (t.claim start taken).1.clusters ++ t.gained starts (t.claim start taken).2 := rfl

theorem length_gained (t : Table) (starts : List Cluster) (taken : ClusterSet) :
    (t.gained starts taken).length = ((t.claimAll starts taken).1.map Chain.length).sum :=
  List.length_flatMap

theorem claimAll_snd (t : Table) (starts : List Cluster) (taken : ClusterSet) :
    (t.claimAll starts taken).2 = (t.gained starts taken).foldl .insert taken := by
  induction starts generalizing taken with
  | nil => rfl
  | cons start starts ih => rw [claimAll_cons, gained_cons, List.foldl_append, ← claim_snd, ih]

theorem admits_of_mem_gained (h : c ∈ t.gained starts taken) : taken.admits c = true := by
  induction starts generalizing taken with
  | nil => cases h
  | cons start starts ih =>
    rw [gained_cons, List.mem_append] at h
    rcases h with h | h
    · exact admits_of_mem_clusters_claim h
    · -- what the set admits after a claim, it has admitted before
      obtain ⟨hlt, hnot⟩ := ClusterSet.admits_iff.1 (ih h)
      rw [capacity_claim] at hlt
      rw [← Bool.not_eq_true, contains_claim_iff, not_or, Bool.not_eq_true] at hnot
      exact ClusterSet.admits_iff.2 ⟨hlt, hnot.1⟩

theorem mem_resolve_of_mem_gained (h : c ∈ t.gained starts taken) :
    ∃ start ∈ starts, c ∈ (t.resolve start).clusters := by
  induction starts generalizing taken with
  | nil => cases h
  | cons start starts ih =>
    rw [gained_cons, List.mem_append] at h
    rcases h with h | h
    · rw [claim_fst] at h
      exact ⟨start, List.mem_cons_self, (List.takeWhile_subset _) h⟩
    · obtain ⟨other, hother, hc⟩ := ih h
      exact ⟨other, List.mem_cons_of_mem _ hother, hc⟩

theorem nodup_gained (t : Table) (starts : List Cluster) (taken : ClusterSet) :
    (t.gained starts taken).Nodup := by
  induction starts generalizing taken with
  | nil => exact List.nodup_nil
  | cons start starts ih =>
    rw [gained_cons, List.nodup_append]
    refine ⟨t.nodup_claim start taken, ih _, ?_⟩
    rintro c hc _ hrest rfl
    -- a later claim finds the cluster in the set
    have hadmits := (ClusterSet.admits_iff.1 (admits_of_mem_gained hrest)).2
    rw [contains_claim_iff.2 (.inr hc)] at hadmits
    cases hadmits

theorem contains_claimAll_iff : (t.claimAll starts taken).2.contains c = true ↔
    taken.contains c = true ∨ c ∈ t.gained starts taken := by
  rw [claimAll_snd]
  exact ClusterSet.contains_foldl_insert_iff fun _ ↦ admits_of_mem_gained

/-! ## Closed sets -/

/-- No link leads out of the set. -/
def IsClosed (t : Table) (s : ClusterSet) : Prop :=
  ∀ d c, s.contains d = true → t.link d = .ok c → s.contains c = true

theorem isClosed_empty (t : Table) (capacity : Nat) : t.IsClosed (.empty capacity) := by
  intro d c hd
  simp at hd

/-- A closed set that holds a start holds all that the start resolves to. -/
theorem IsClosed.contains_of_mem_resolve (h : t.IsClosed taken)
    (hstart : taken.contains start = true) (hc : c ∈ (t.resolve start).clusters) :
    taken.contains c = true := by
  by_cases hs : t.IsData start
  · rw [resolve_of_isData hs] at hc
    rcases List.mem_cons.1 hc with rfl | hc
    · exact hstart
    · exact forall_mem_onward_of_closed (S := (taken.contains · = true)) h hstart c hc
  · rw [resolve_of_not_isData hs] at hc
    cases hc

section Room

variable (hroom : t.entryCount ≤ taken.capacity)
include hroom

theorem IsClosed.claim (h : t.IsClosed taken) (start : Cluster) :
    t.IsClosed (t.claim start taken).2 := by
  intro d c hd hl
  rcases contains_claim_iff.1 hd with hd | hd
  · exact contains_claim_of_contains (h d c hd hl)
  · exact contains_claim_of_link hroom hd hl

theorem IsClosed.claimAll (h : t.IsClosed taken) (starts : List Cluster) :
    t.IsClosed (t.claimAll starts taken).2 := by
  induction starts generalizing taken with
  | nil => exact h
  | cons start starts ih =>
    rw [claimAll_cons]
    exact ih (by rwa [capacity_claim]) (h.claim hroom start)

theorem contains_claim_start (h : t.IsData start) :
    (t.claim start taken).2.contains start = true := by
  rw [contains_claim_iff]
  by_cases hc : taken.contains start = true
  · exact .inl hc
  · have hadmits : taken.admits start = true :=
      ClusterSet.admits_iff.2 ⟨Nat.lt_of_lt_of_le h.2 hroom, Bool.not_eq_true _ ▸ hc⟩
    exact .inr (List.mem_of_head? (head?_claim h hadmits))

theorem contains_claimAll_of_mem (h : t.IsData start) (hmem : start ∈ starts) :
    (t.claimAll starts taken).2.contains start = true := by
  induction starts generalizing taken with
  | nil => cases hmem
  | cons other starts ih =>
    rw [claimAll_cons]
    rcases List.mem_cons.1 hmem with rfl | hmem
    · exact contains_claimAll_iff.2 (.inl (contains_claim_start hroom h))
    · exact ih (by rwa [capacity_claim]) hmem

end Room

/-- What is claimed from an empty set with room for all clusters is what the starts resolve to. -/
theorem mem_gained_iff (hcap : t.entryCount ≤ capacity) :
    c ∈ t.gained starts (.empty capacity) ↔ ∃ start ∈ starts, c ∈ (t.resolve start).clusters := by
  constructor
  · exact mem_resolve_of_mem_gained
  · rintro ⟨start, hstart, hc⟩
    have hdata : t.IsData start := by
      by_contra hout
      rw [resolve_of_not_isData hout] at hc
      cases hc
    have hclosed := (t.isClosed_empty capacity).claimAll hcap starts
    have hcontains := hclosed.contains_of_mem_resolve
      (contains_claimAll_of_mem hcap hdata hstart) hc
    simpa using contains_claimAll_iff.1 hcontains

/-- **Coverage.** Chains claimed from an empty set with room for all clusters cover what their
starts resolve to, one by one or together: neither the order of the starts nor how often they are
repeated makes a difference to the set. It has one member for each cluster of the chains, and no
more than the table has clusters. -/
theorem claimAll_covers (t : Table) (capacity : Nat) (hcap : t.entryCount ≤ capacity)
    (starts : List Cluster) :
    (∀ c, (t.claimAll starts (.empty capacity)).2.contains c = true ↔
      ∃ start ∈ starts, c ∈ (t.resolve start).clusters) ∧
    (∀ starts' : List Cluster, (∀ start, start ∈ starts ↔ start ∈ starts') →
      (t.claimAll starts (.empty capacity)).2 = (t.claimAll starts' (.empty capacity)).2) ∧
    ((t.claimAll starts (.empty capacity)).1.map Chain.length).sum =
      (t.claimAll starts (.empty capacity)).2.size ∧
    (t.claimAll starts (.empty capacity)).2.size ≤ t.entryCount - firstCluster := by
  have hsize : (t.claimAll starts (.empty capacity)).2.size =
      (t.gained starts (.empty capacity)).length := by
    rw [claimAll_snd, ClusterSet.size_foldl_insert (t.nodup_gained starts _)
      fun _ ↦ admits_of_mem_gained, ClusterSet.size_empty, Nat.zero_add]
  refine ⟨fun c ↦ ?_, fun starts' hsame ↦ ?_, ?_, ?_⟩
  · rw [contains_claimAll_iff, ← mem_gained_iff hcap]
    simp
  · rw [claimAll_snd, claimAll_snd]
    refine ClusterSet.foldl_insert_congr (t.nodup_gained starts _) (t.nodup_gained starts' _)
      (fun c ↦ ?_) _
    rw [mem_gained_iff hcap, mem_gained_iff hcap]
    simp only [hsame]
  · rw [hsize, length_gained]
  · rw [hsize]
    refine length_le_of_nodup (t.nodup_gained starts _) fun c hc ↦ ?_
    obtain ⟨start, -, hresolve⟩ := mem_resolve_of_mem_gained hc
    exact isData_of_mem_resolve hresolve

/-- The chain at `4` takes all clusters of the chain at `2`, or leaves them to it. The set is the
same. -/
theorem sample_claimAll_covers :
    (sample.claimAll [2, 4] (.empty 9)).1 = [⟨2, [2, 5], .broken 5 .free⟩, ⟨4, [4], .joins 2⟩] ∧
    (sample.claimAll [4, 2, 4] (.empty 9)).1 =
      [⟨4, [4, 2, 5], .broken 5 .free⟩, ⟨2, [], .joins 2⟩, ⟨4, [], .joins 4⟩] ∧
    sample.entryCount ≤ 9 ∧ (∀ start, start ∈ [2, 4] ↔ start ∈ [4, 2, 4]) ∧
    (sample.claimAll [2, 4] (.empty 9)).2 = (sample.claimAll [4, 2, 4] (.empty 9)).2 := by
  have hcap : sample.entryCount ≤ 9 := by decide
  have hsame : ∀ start, start ∈ [2, 4] ↔ start ∈ [4, 2, 4] := by
    intro start
    simp only [List.mem_cons, List.not_mem_nil, or_false]
    omega
  exact ⟨by decide +kernel, by decide +kernel, hcap, hsame,
    (claimAll_covers sample 9 hcap [2, 4]).2.1 [4, 2, 4] hsame⟩

end Table

end Fat16
