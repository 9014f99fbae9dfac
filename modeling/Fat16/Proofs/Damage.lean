import Fat16.CommandLine
import Fat16.Proofs.Partition
import Fat16.Proofs.Text
import Fat16.Proofs.Walk.Order

/-!
# Damaged chains

The chains of a table are followed twice. The summary claims a chain from every cluster in use, and
the walk claims one for each directory. Everything behind the boot sector should end up as a
finding, but only what the walk meets does: the ends of the chains in the summary are shown in a
report, and nothing else is made of them. So a chain that runs in a circle is missed where no
directory is read from it (`Inspection.imageWithTable_cycle_not_found`).

Where a directory does hold a cluster of a damaged chain, the damage is found. Chains that have been
claimed one after another hold all clusters that their links lead to, whichever chain a cluster has
ended up in. So if two such lists have a cluster in common, they have everything in common that
follows it, and one of the chains in either list ends like the chain in the other
(`Table.ClaimedInOrder.exists_ending_eq`, `Table.ClaimedInOrder.exists_cycle`). A cycle may be
closed at a different cluster, since it depends on where the first chain enters it.
-/

namespace Fat16

namespace Table

variable {t : Table} {start c d : Cluster} {taken : ClusterSet} {how : ChainEnd}

/-! ## One claimed chain -/

/-- A claimed chain ends where the table says that it does. -/
theorem ending_claim_of_link_eq_error (hd : d ∈ (t.claim start taken).1.clusters)
    (h : t.link d = .error how) : (t.claim start taken).1.ending = how := by
  have hhalt : t.halt start (taken.insert start) = .ended how :=
    halt_of_mem_of_link_eq_error (clusters_claim_of_mem hd ▸ hd) h
  rcases ending_claim_cases hd with ⟨how', hh, hend⟩ | ⟨e, -, hh, -⟩ | ⟨e, -, hh, -⟩
  · rw [hend, Trail.Stop.ended.inj (hh.symm.trans hhalt)]
  · cases hh.symm.trans hhalt
  · cases hh.symm.trans hhalt

/-- Where a chain ends by what the table says, this is said by a cluster that can be reached from
every one of the chain. -/
theorem exists_link_eq_error_of_ending_claim {S : Cluster → Prop}
    (hS : ∀ d c, S d → t.link d = .ok c → S c) (hd : d ∈ (t.claim start taken).1.clusters)
    (h : S d) (hcycle : ∀ e, (t.claim start taken).1.ending ≠ .cycle e)
    (hjoins : ∀ e, (t.claim start taken).1.ending ≠ .joins e) :
    ∃ e, S e ∧ t.link e = .error (t.claim start taken).1.ending := by
  rcases ending_claim_cases hd with ⟨how, hh, hend⟩ | ⟨e, -, -, hend⟩ | ⟨e, -, -, hend⟩
  · have hmem := clusters_claim_of_mem hd ▸ hd
    rcases halt_of_closed hS hmem h with ⟨how', e, hh', he, hl⟩ | ⟨c, hh', -⟩
    · rw [hend, Trail.Stop.ended.inj (hh.symm.trans hh')]
      exact ⟨e, he, hl⟩
    · cases hh.symm.trans hh'
  · exact absurd hend (hcycle e)
  · exact absurd hend (hjoins e)

/-- The first chain to have a cluster of a class in which all links stay runs in a circle in it. -/
theorem Ledger.ending_claim_of_circle {chains : List Chain} {S : Cluster → Prop}
    (hledger : t.Ledger chains taken) (hfirst : ∀ d ∈ chains.flatMap Chain.clusters, ¬ S d)
    (hS : ∀ d, S d → ∃ c, t.link d = .ok c ∧ S c) (hd : d ∈ (t.claim start taken).1.clusters)
    (h : S d) : ∃ c, (t.claim start taken).1.ending = .cycle c ∧ S c := by
  have hclosed : ∀ d c, S d → t.link d = .ok c → S c := by
    intro d c hd hl
    obtain ⟨c', hl', hc'⟩ := hS d hd
    rwa [Except.ok.inj (hl.symm.trans hl')]
  have hclusters := clusters_claim_of_mem hd
  rcases halt_of_closed hclosed (hclusters ▸ hd) h with ⟨how, e, -, he, hl⟩ | ⟨c, hh, hc⟩
  · obtain ⟨c, hl', -⟩ := hS e he
    cases hl.symm.trans hl'
  · -- what blocks the chain is not taken, so it is in the chain
    have hmem : c ∈ (t.claim start taken).1.clusters := by
      rw [hclusters]
      obtain ⟨hdata, ha | hmem⟩ := isData_of_halt_eq_blocked hh
      · have hadmits : taken.admits c = true := by
          rw [hledger.admits_eq hdata, decide_eq_false fun hmem ↦ hfirst c hmem hc, Bool.not_false]
        rw [ClusterSet.admits_insert, hadmits, Bool.true_and, Bool.not_eq_false',
          decide_eq_true_iff] at ha
        exact ha ▸ List.mem_cons_self
      · exact List.mem_cons_of_mem _ hmem
    rcases ending_claim_cases hd with ⟨how, hh', -⟩ | ⟨e, -, hh', hend⟩ | ⟨e, he, hh', -⟩
    · cases hh.symm.trans hh'
    · obtain rfl := Trail.Stop.blocked.inj (hh.symm.trans hh')
      exact ⟨c, hend, hc⟩
    · obtain rfl := Trail.Stop.blocked.inj (hh.symm.trans hh')
      exact absurd hmem he

/-! ## Chains claimed one after another -/

namespace ClaimedInOrder

variable {chains before after : List Chain} {chain : Chain}

/-- Whatever chain a cluster is in, the chains have what its link leads to. -/
theorem mem_of_link (h : t.ClaimedInOrder chains) (hd : d ∈ chains.flatMap Chain.clusters)
    (hl : t.link d = .ok c) : c ∈ chains.flatMap Chain.clusters := by
  obtain ⟨chain, hchain, hmem⟩ := List.mem_flatMap.1 hd
  obtain ⟨before, after, rfl⟩ := List.append_of_mem hchain
  obtain ⟨taken, hledger, hclaim⟩ := h.exists_claim
  rw [← hclaim] at hmem
  have hc := contains_claim_of_link hledger.capacity_eq.ge hmem hl
  rw [(hledger.claim chain.start).contains_iff, hclaim] at hc
  rw [← List.singleton_append, ← List.append_assoc, List.flatMap_append]
  exact List.mem_append_left _ hc

/-- What the table says at a cluster is how some chain ends. -/
theorem exists_ending_of_link_eq_error (h : t.ClaimedInOrder chains)
    (hd : d ∈ chains.flatMap Chain.clusters) (hl : t.link d = .error how) :
    ∃ chain ∈ chains, chain.ending = how := by
  obtain ⟨chain, hchain, hmem⟩ := List.mem_flatMap.1 hd
  obtain ⟨before, after, rfl⟩ := List.append_of_mem hchain
  obtain ⟨taken, -, hclaim⟩ := h.exists_claim
  refine ⟨chain, hchain, ?_⟩
  rw [← hclaim] at hmem ⊢
  exact ending_claim_of_link_eq_error hmem hl

/-- Some chain that reaches a circle is found to run in it. -/
theorem exists_cycle_of_circle (h : t.ClaimedInOrder chains) {S : Cluster → Prop}
    (hS : ∀ d, S d → ∃ c, t.link d = .ok c ∧ S c) (hd : d ∈ chains.flatMap Chain.clusters)
    (hSd : S d) : ∃ chain ∈ chains, ∃ c, chain.ending = .cycle c ∧ S c := by
  induction chains using List.reverseRecOn generalizing d with
  | nil => cases hd
  | append_singleton chains chain ih =>
    by_cases hearlier : ∃ e ∈ chains.flatMap Chain.clusters, S e
    · obtain ⟨e, he, hSe⟩ := hearlier
      obtain ⟨chain', hchain', hcycle⟩ := ih h.of_append he hSe
      exact ⟨chain', List.mem_append_left _ hchain', hcycle⟩
    · -- this chain is the first that reaches the circle
      have hfirst : ∀ e ∈ chains.flatMap Chain.clusters, ¬ S e := fun e he hSe ↦
        hearlier ⟨e, he, hSe⟩
      rw [List.flatMap_append, List.flatMap_singleton, List.mem_append] at hd
      have hmem : d ∈ chain.clusters := hd.resolve_left fun hd ↦ hfirst d hd hSd
      obtain ⟨taken, hledger, hclaim⟩ := h.exists_claim
      refine ⟨chain, List.mem_append_right _ List.mem_cons_self, ?_⟩
      rw [← hclaim] at hmem ⊢
      exact hledger.ending_claim_of_circle hfirst hS hmem hSd

/-- **Ends are shared.** If a chain ends by what the table says, and other chains have one of its
clusters, then one of these ends in the same way. -/
theorem exists_ending_eq {chains' : List Chain} (h : t.ClaimedInOrder chains)
    (h' : t.ClaimedInOrder chains') (hchain : chain ∈ chains) (hd : d ∈ chain.clusters)
    (hd' : d ∈ chains'.flatMap Chain.clusters) (hcycle : ∀ c, chain.ending ≠ .cycle c)
    (hjoins : ∀ c, chain.ending ≠ .joins c) :
    ∃ chain' ∈ chains', chain'.ending = chain.ending := by
  obtain ⟨before, after, rfl⟩ := List.append_of_mem hchain
  obtain ⟨taken, -, hclaim⟩ := h.exists_claim
  rw [← hclaim] at hd hcycle hjoins ⊢
  obtain ⟨e, he, hl⟩ :=
    exists_link_eq_error_of_ending_claim (fun _ _ ↦ h'.mem_of_link) hd hd' hcycle hjoins
  exact h'.exists_ending_of_link_eq_error he hl

/-- **Cycles are shared.** If a chain runs in a circle, and other chains have one of its clusters,
then one of these runs in this circle. -/
theorem exists_cycle {chains' : List Chain} (h : t.ClaimedInOrder chains)
    (h' : t.ClaimedInOrder chains') (hchain : chain ∈ chains) (hd : d ∈ chain.clusters)
    (hd' : d ∈ chains'.flatMap Chain.clusters) (hcycle : chain.ending = .cycle c) :
    ∃ chain' ∈ chains', ∃ e ∈ chain.clusters, chain'.ending = .cycle e := by
  obtain ⟨before, after, rfl⟩ := List.append_of_mem hchain
  obtain ⟨taken, -, hclaim⟩ := h.exists_claim
  rw [← hclaim] at hd hcycle ⊢
  obtain ⟨chain', hchain', e, hend, he⟩ := h'.exists_cycle_of_circle
    (S := fun d ↦ d ∈ (t.claim chain.start taken).1.clusters) (fun d hd ↦ by
      obtain ⟨e, he, hl⟩ := exists_link_of_ending_claim_eq_cycle hcycle hd
      exact ⟨e, hl, he⟩) hd' hd
  exact ⟨chain', hchain', e, he, hend⟩

end ClaimedInOrder

end Table

/-! ## From ends to findings -/

/-- Whether a chain is damaged: it runs in a circle, dangles or breaks. -/
def ChainEnd.isDamage : ChainEnd → Bool
  | .cycle _ | .dangling .. | .broken .. => true
  | .complete | .joins _ => false

/-- What is wrong with the chain of a directory is noted on the directory. -/
theorem Walk.mem_findings_of_chain? {w : Walk} {node : Node} {chain : Chain} {f : Finding}
    (hnode : node ∈ w.tree.nodes) (hchain : node.chain? = some chain)
    (hf : chain.ending.finding? = some f) : f ∈ node.findings := by
  refine mem_findings_of_mem_ownFindings hnode ?_
  rw [ownFindings, ← Node.chain?_eq, hchain]
  exact List.mem_append_left _ (List.mem_append_left _ (Option.mem_toList.2 hf))

namespace Inspection

variable {image : Bytes} {maxDepth : Nat} {i : Inspection}

theorem mem_findings_of_mem {node : Node} {f : Finding} (h : read image maxDepth = .ok i)
    (hnode : node ∈ i.tree.nodes) (hf : f ∈ node.findings) : f ∈ i.findings := by
  rw [findings, depthFirst_of_read h]
  exact List.mem_append_right _ (List.mem_flatMap.2
    ⟨node, Array.mem_toList_iff.2 hnode, Array.mem_toList_iff.2 hf⟩)

theorem hasError_of_mem {f : Finding} (hf : f ∈ i.findings) (hs : f.severity = .error) :
    i.hasError = true := by
  rw [hasError, decide_eq_true_iff, count, List.countP_pos_iff]
  exact ⟨f, hf, beq_iff_eq.2 hs⟩

/-- The program says that it has found nothing exactly where there are no findings. -/
theorem closing_eq_iff (i : Inspection) :
    CommandLine.closing i = "No anomalies found" ↔ i.findings = [] := by
  have hcount : i.count .error + i.count .warning = i.findings.length := by
    rw [Nat.add_comm, count_add_count]
  rw [CommandLine.closing]
  simp only [hcount, List.length_pos_iff]
  by_cases hf : i.findings = []
  · simp [hf]
  · -- the other note begins with another letter
    rw [if_pos hf, ← String.toList_inj]
    simp [hf, toString_text]

/-- If a chain of the summary is damaged and has a cluster of some directory, then the chain of a
directory is damaged in the same way. -/
theorem exists_damaged_directory (h : read image maxDepth = .ok i) {chain : Chain} {c : Cluster}
    (hchain : chain ∈ i.summary.chains) (hdamage : chain.ending.isDamage = true)
    (hc : c ∈ chain.clusters) (hc' : c ∈ i.tree.clusters) :
    ∃ f ∈ i.findings, chain.ending.finding?.map Finding.code = some f.code ∧
      chain.ending.finding?.map Finding.severity = some f.severity := by
  have hfound : ∀ chain' ∈ i.tree.chains, ∀ f, chain'.ending.finding? = some f →
      f ∈ i.findings := by
    intro chain' hchain' f hf
    obtain ⟨node, hnode, hnodeChain⟩ := List.mem_filterMap.1 hchain'
    rw [Array.mem_toList_iff] at hnode
    refine mem_findings_of_mem h hnode ?_
    obtain ⟨v, -, rfl⟩ := read_eq_ok_iff.1 h
    exact Walk.mem_findings_of_chain? hnode hnodeChain hf
  have hordered : ∃ t : Table,
      t.ClaimedInOrder i.summary.chains ∧ t.ClaimedInOrder i.tree.chains := by
    obtain ⟨v, -, rfl⟩ := read_eq_ok_iff.1 h
    obtain ⟨_, _, -, hlisting⟩ := (v.table image).exists_listing
    obtain ⟨_, howning⟩ := Walk.exists_owning ⟨v, v.table image, image, maxDepth⟩
    exact ⟨v.table image, hlisting.ledger.inOrder, howning.ledger.inOrder⟩
  obtain ⟨t, hsummary, htree⟩ := hordered
  by_cases hcycle : ∃ closesAt, chain.ending = .cycle closesAt
  · obtain ⟨closesAt, hend⟩ := hcycle
    obtain ⟨chain', hchain', e, -, hend'⟩ := hsummary.exists_cycle htree hchain hc hc' hend
    refine ⟨.cycle e, hfound chain' hchain' _ (by rw [hend']; rfl), ?_⟩
    rw [hend]
    exact ⟨rfl, rfl⟩
  · have hjoins : ∀ e, chain.ending ≠ .joins e := by
      intro e hend
      simp [hend, ChainEnd.isDamage] at hdamage
    obtain ⟨chain', hchain', hend'⟩ := hsummary.exists_ending_eq htree hchain hc hc'
      (fun e hend ↦ hcycle ⟨e, hend⟩) hjoins
    obtain ⟨f, hf⟩ : ∃ f, chain.ending.finding? = some f := by
      rcases hend : chain.ending with _ | _ | _ | _ | _ <;>
        simp [hend, ChainEnd.isDamage] at hdamage
      all_goals exact ⟨_, rfl⟩
    refine ⟨f, hfound chain' hchain' f (by rw [hend', hf]), ?_⟩
    rw [hf]
    exact ⟨rfl, rfl⟩

/-- **Damage under directories is found.** If a chain of the summary runs in a circle, dangles or
breaks, and one of its clusters belongs to a directory, then there is a finding of this kind, so the
program does not say that it has found nothing; and if the chain runs in a circle or dangles, there
is an error among the findings. -/
theorem findings_of_damage (h : read image maxDepth = .ok i) {chain : Chain} {c : Cluster}
    (hchain : chain ∈ i.summary.chains) (hdamage : chain.ending.isDamage = true)
    (hc : c ∈ chain.clusters) (hc' : c ∈ i.tree.clusters) :
    (∃ f ∈ i.findings, chain.ending.finding?.map Finding.code = some f.code) ∧
    i.findings ≠ [] ∧
    CommandLine.closing i ≠ "No anomalies found" ∧
    ((∃ closesAt, chain.ending = .cycle closesAt) ∨
        (∃ source target, chain.ending = .dangling source target) →
      i.hasError = true) := by
  obtain ⟨f, hf, hcode, hseverity⟩ := exists_damaged_directory h hchain hdamage hc hc'
  have hne := List.ne_nil_of_mem hf
  refine ⟨⟨f, hf, hcode⟩, hne, fun hclosing ↦ hne ((closing_eq_iff i).1 hclosing), fun hend ↦ ?_⟩
  apply hasError_of_mem hf
  rcases hend with ⟨closesAt, hend⟩ | ⟨source, target, hend⟩
  · rw [hend] at hseverity
    exact (Option.some.inj hseverity).symm
  · rw [hend] at hseverity
    exact (Option.some.inj hseverity).symm

/-- A small image whose table is `table`. Its root directory names one directory, at cluster `2`. -/
def imageWithTable (table : List UInt8) : Bytes :=
  let boot : List UInt8 :=
    .replicate 11 0 ++ [32, 0, 1, 16, 0, 1, 2, 0, 0, 0, 0, 1, 0] ++ .replicate 488 0
  (boot ++ table.rightpad 32 0 ++ Walk.sampleRecord 0x10 2 ++ .replicate 64 0).toArray

/-- The directory is at cluster `2`, whose link leads to cluster `3` and back. -/
theorem imageWithTable_cycle_found : ∃ i,
    read (imageWithTable [0, 0, 0, 0, 3, 0, 2, 0]) = .ok i ∧
    ⟨2, [2, 3], .cycle 2⟩ ∈ i.summary.chains ∧ i.findings ≠ [] ∧ i.hasError = true := by
  have hread : (read (imageWithTable [0, 0, 0, 0, 3, 0, 2, 0])).toOption.map (fun i ↦
      (i.summary.chains, i.tree.clusters)) = some ([⟨2, [2, 3], .cycle 2⟩], [2, 3]) := by
    decide +kernel
  obtain ⟨i, hi, hparts⟩ := Option.map_eq_some_iff.1 hread
  rw [Prod.mk.injEq] at hparts
  obtain ⟨hchains, hclusters⟩ := hparts
  have hok := toOption_eq_some_iff.1 hi
  have hmem : ⟨2, [2, 3], .cycle 2⟩ ∈ i.summary.chains := hchains ▸ List.mem_cons_self
  obtain ⟨-, hne, -, herror⟩ := findings_of_damage hok hmem rfl (c := 2) List.mem_cons_self
    (hclusters ▸ List.mem_cons_self)
  exact ⟨i, hok, hmem, hne, herror (.inl ⟨2, rfl⟩)⟩

/-- A cycle is missed where no directory is read from it: cluster `3` leads back to itself. The
summary has it, and yet there is neither a finding nor an error. -/
theorem imageWithTable_cycle_not_found : ∃ i,
    read (imageWithTable [0, 0, 0, 0, 0xFF, 0xFF, 3, 0]) = .ok i ∧
    ⟨3, [3], .cycle 3⟩ ∈ i.summary.chains ∧ i.findings = [] ∧
      CommandLine.closing i = "No anomalies found" ∧ i.hasError = false := by
  have hread : (read (imageWithTable [0, 0, 0, 0, 0xFF, 0xFF, 3, 0])).toOption.map (fun i ↦
      (i.summary.chains, i.findings)) =
      some ([⟨2, [2], .complete⟩, ⟨3, [3], .cycle 3⟩], []) := by
    decide +kernel
  obtain ⟨i, hi, hparts⟩ := Option.map_eq_some_iff.1 hread
  rw [Prod.mk.injEq] at hparts
  obtain ⟨hchains, hfindings⟩ := hparts
  refine ⟨i, toOption_eq_some_iff.1 hi, ?_, hfindings, (closing_eq_iff i).2 hfindings, ?_⟩
  · rw [hchains]
    exact List.mem_cons_of_mem _ List.mem_cons_self
  · rw [hasError, count, hfindings]
    rfl

end Inspection

end Fat16
