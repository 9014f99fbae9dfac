import Fat16.Proofs.Walk.WellFormed

/-!
# The depth limit

The limit is asked for at one moment, when the entries of a directory that has just been read are
put to wait, and where it refuses an entry it leaves a finding. Findings stay. So a tree without
such a finding comes from a walk that the limit has never held back, and a walk with a larger limit
puts the same entries to wait at every step: both go through the same states, with the same clusters
claimed, and end in the same tree (`Walk.tree_of_isUnlimited`). One directory more on the way would
be enough to cut chains that are claimed later.

How deep directories can lie is bounded by what they own. The directories on the way down to one
have smaller ids (`Walk.Logged.depth_le`), and there are no more directories than clusters to start
them, so a limit beyond that is never asked for.
-/

namespace Fat16

/-- Whether a finding says that the depth limit keeps an entry from being expanded. -/
def Finding.isTooDeep : Finding → Bool
  | .tooDeep .. => true
  | _ => false

/-- No directory says that the depth limit keeps one of its entries from being expanded. -/
def Tree.IsUnlimited (t : Tree) : Prop :=
  ∀ node ∈ t.nodes, ∀ f ∈ node.findings, f.isTooDeep = false

instance (t : Tree) : Decidable t.IsUnlimited :=
  inferInstanceAs (Decidable (∀ node ∈ t.nodes, ∀ f ∈ node.findings, f.isTooDeep = false))

theorem Node.mem_addFindings {node : Node} {findings : List Finding} {f : Finding} :
    f ∈ (node.addFindings findings).findings ↔ f ∈ node.findings ∨ f ∈ findings := by
  rw [← Array.mem_toList_iff, toList_findings_addFindings, List.mem_append, Array.mem_toList_iff]

namespace Walk

/-- The same walk with another depth limit. -/
def withMaxDepth (w : Walk) (maxDepth : Nat) : Walk := { w with maxDepth }

variable {w : Walk} {nodes : Array Node} {claimed : ClusterSet} {p : Pending} {rest : List Pending}
  {node : Node} {e : DirectoryEntry} {f : Finding} {limit k : Nat}

/-! ## Findings stay -/

theorem mem_findings_step (hk : nodes[k]? = some node) (hf : f ∈ node.findings) :
    ∃ after, (w.step nodes claimed p rest).nodes[k]? = some after ∧ f ∈ after.findings := by
  have hlt : k < nodes.size := (Array.getElem?_eq_some_iff.1 hk).1
  cases hc : claimed.contains p.cluster with
  | true =>
    rw [getElem?_step_of_contains w nodes rest hc, hk]
    refine ⟨_, rfl, ?_⟩
    split
    · exact Node.mem_addFindings.2 (.inl hf)
    · exact hf
  | false =>
    rw [getElem?_step_of_not_contains w nodes rest hc, if_neg (Nat.ne_of_lt hlt), hk]
    refine ⟨_, rfl, ?_⟩
    split
    · exact hf
    · exact hf

theorem mem_findings_run {s : State} (hk : s.nodes[k]? = some node) (hf : f ∈ node.findings) :
    ∃ after, (w.run s).nodes[k]? = some after ∧ f ∈ after.findings := by
  fun_induction w.run s generalizing node with
  | case1 => exact ⟨node, hk, hf⟩
  | case2 nodes claimed p rest ih =>
    obtain ⟨after, hafter, hmem⟩ := mem_findings_step hk hf
    exact ih hafter hmem

/-- The limit has held back nothing at any moment of a walk if it has held back nothing in the end.
-/
theorem isUnlimited_of_run {s : State} (h : Tree.IsUnlimited ⟨(w.run s).nodes⟩) :
    Tree.IsUnlimited ⟨s.nodes⟩ := by
  intro node hnode f hf
  obtain ⟨k, hk⟩ := Array.getElem?_of_mem hnode
  obtain ⟨after, hafter, hmem⟩ := mem_findings_run hk hf
  exact h after (Array.mem_of_getElem? hafter) f hmem

/-! ## Two limits in lockstep -/

section Lockstep

variable (hle : w.maxDepth ≤ limit)
include hle

/-- A larger limit changes nothing for an entry that the smaller one does not refuse. -/
theorem outcome_withMaxDepth (h : w.outcome node e ≠ .error (.tooDeep e.index w.maxDepth)) :
    (w.withMaxDepth limit).outcome node e = w.outcome node e := by
  rcases w.outcome_cases node e with ⟨h₀, ho⟩ | ⟨h₀, hd, ho⟩ | ⟨-, -, ho⟩ | ⟨hd, hdepth, ho⟩
  · rw [ho]
    exact outcome_of_eq_zero h₀
  · rw [ho]
    exact outcome_of_not_isData h₀ hd
  · exact absurd ho h
  · rw [ho]
    exact outcome_of_depth_le hd (Nat.le_trans hdepth hle)

variable (h : ∀ f ∈ w.refusals node, f.isTooDeep = false)
include h

theorem outcome_withMaxDepth_of_mem (he : e ∈ node.subdirectories) :
    (w.withMaxDepth limit).outcome node e = w.outcome node e := by
  refine outcome_withMaxDepth hle fun ho ↦ ?_
  have hmem : .tooDeep e.index w.maxDepth ∈ w.refusals node := by
    rw [refusals_eq]
    exact List.mem_filterMap.2 ⟨e, he, refusal?_eq_some_iff.2 ho⟩
  cases h _ hmem

theorem queue_withMaxDepth : (w.withMaxDepth limit).queue node = w.queue node :=
  List.filterMap_congr fun e he ↦ by rw [outcome_withMaxDepth_of_mem hle h he]

theorem settle_withMaxDepth : (w.withMaxDepth limit).settle node = w.settle node := by
  have hrefusals : (w.withMaxDepth limit).refusals node = w.refusals node :=
    List.filterMap_congr fun e he ↦ by rw [outcome_withMaxDepth_of_mem hle h he]
  rw [settle, settle, hrefusals]

end Lockstep

/-- A directory of an unlimited tree was settled without a refusal because of the limit. -/
theorem isTooDeep_of_mem_refusals {t : Tree} (h : t.IsUnlimited) (hmem : w.settle node ∈ t.nodes) :
    ∀ f ∈ w.refusals node, f.isTooDeep = false :=
  fun f hf ↦ h _ hmem f (Node.mem_addFindings.2 (.inr hf))

theorem start_withMaxDepth (hle : w.maxDepth ≤ limit) (h : Tree.IsUnlimited ⟨w.start.nodes⟩) :
    (w.withMaxDepth limit).start = w.start := by
  have hroot : w.settle w.root ∈ w.start.nodes := Array.mem_toList_iff.1 List.mem_cons_self
  have hrefusals := isTooDeep_of_mem_refusals h hroot
  have hsame : (w.withMaxDepth limit).root = w.root := rfl
  rw [start, start, hsame, queue_withMaxDepth hle hrefusals, settle_withMaxDepth hle hrefusals]
  rfl

theorem step_withMaxDepth (hle : w.maxDepth ≤ limit)
    (h : Tree.IsUnlimited ⟨(w.step nodes claimed p rest).nodes⟩) :
    (w.withMaxDepth limit).step nodes claimed p rest = w.step nodes claimed p rest := by
  cases hc : claimed.contains p.cluster with
  | true => rw [step_of_contains _ _ _ hc, step_of_contains _ _ _ hc]
  | false =>
    have hmem : w.settle (w.expansion nodes.size p claimed) ∈
        (w.step nodes claimed p rest).nodes := by
      rw [step_of_not_contains w nodes rest hc]
      exact Array.mem_push_self
    have hrefusals := isTooDeep_of_mem_refusals h hmem
    have hsame : (w.withMaxDepth limit).expansion nodes.size p claimed =
        w.expansion nodes.size p claimed := rfl
    rw [step_of_not_contains _ _ _ hc, step_of_not_contains _ _ _ hc, hsame,
      queue_withMaxDepth hle hrefusals, settle_withMaxDepth hle hrefusals]
    rfl

theorem run_withMaxDepth (hle : w.maxDepth ≤ limit) {s : State}
    (h : Tree.IsUnlimited ⟨(w.run s).nodes⟩) : (w.withMaxDepth limit).run s = w.run s := by
  fun_induction w.run s with
  | case1 => exact run_of_pending_eq_nil ..
  | case2 nodes claimed p rest ih =>
    -- a refusal at this step would be found in the tree in the end
    rw [run_of_pending_eq_cons, step_withMaxDepth hle (isUnlimited_of_run h)]
    exact ih h

/-! ## How deep directories lie -/

/-- The directories on the way down to a directory have smaller ids. -/
theorem Logged.depth_le {log : List Event} (h : w.Logged ⟨w.tree.nodes, claimed, []⟩ log)
    (hn : Numbered w.tree.nodes log) (howning : w.Owning ⟨w.tree.nodes, claimed, []⟩)
    (hk : w.tree.get? k = some node) : node.depth ≤ k := by
  induction k using Nat.strongRecOn generalizing node with
  | ind k ih =>
    by_cases hzero : k = 0
    · subst hzero
      obtain ⟨root, hroot, hplace⟩ := howning.exists_root
      obtain rfl : root = node := Option.some.inj (hroot.symm.trans hk)
      exact Nat.le_of_eq (depth_root_of_mem (Array.mem_of_getElem? hroot) hplace)
    · obtain ⟨p, parent, e, hlt, hparent, hexpanded, -⟩ := h.hangs hn hk hzero
      have hdepth := ih p hlt hparent
      rw [hexpanded.depth_eq]
      omega

/-- There are no more directories than clusters to start them, apart from the root. -/
theorem Owning.size_le (h : w.Owning ⟨w.tree.nodes, claimed, []⟩) :
    w.tree.size ≤ w.table.entryCount - 2 + 1 := by
  have hsize : w.tree.size = w.tree.places.length := by
    rw [Tree.places, List.length_map, Array.length_toList, Tree.size]
  have hplaces : w.tree.places.length ≤ w.tree.clusters.length + 1 :=
    length_places_le (s := ⟨w.tree.nodes, claimed, []⟩) h
  have hclusters : w.tree.clusters.length ≤ w.table.entryCount - 2 :=
    h.ledger.inOrder.length_clusters_le
  omega

/-- What the limit refuses names a cluster of the table, in a directory that is as deep as the limit
allows. -/
theorem exists_lt_depth_of_mem_refusals (hf : f ∈ w.refusals node) (hdeep : ¬ f.isTooDeep = false) :
    ∃ e : DirectoryEntry, w.table.IsData e.firstCluster ∧ w.maxDepth < node.depth + 1 := by
  rw [refusals_eq, List.mem_filterMap] at hf
  obtain ⟨e, -, he⟩ := hf
  rw [refusal?_eq_some_iff] at he
  rcases w.outcome_cases node e with ⟨-, ho⟩ | ⟨-, -, ho⟩ | ⟨hd, hlt, -⟩ | ⟨-, -, ho⟩
  · rw [← Except.error.inj (ho.symm.trans he)] at hdeep
    exact absurd rfl hdeep
  · rw [← Except.error.inj (ho.symm.trans he)] at hdeep
    exact absurd rfl hdeep
  · exact ⟨e, hd, hlt⟩
  · rw [ho] at he
    cases he

/-- A limit that leaves room for all clusters one below the other is never reached. -/
theorem isUnlimited_of_entryCount_le (h : w.table.entryCount ≤ w.maxDepth + 1) :
    w.tree.IsUnlimited := by
  obtain ⟨claimed, log, howning, hlogged, hnumbered⟩ := w.exists_numbered
  intro node hnode f hf
  obtain ⟨k, hk⟩ := Array.getElem?_of_mem hnode
  by_contra hdeep
  have hentry : f ∈ node.findings.toList.filter Finding.isOnEntry := by
    refine List.mem_filter.2 ⟨Array.mem_toList_iff.2 hf, ?_⟩
    match f, hdeep with
    | .tooDeep .., _ => rfl
  rw [(hlogged.account k node hk).findings_eq, List.mem_append] at hentry
  rcases hentry with hentry | hentry
  · obtain ⟨e, hd, hlt⟩ := exists_lt_depth_of_mem_refusals hentry hdeep
    have hsome : 2 < w.table.entryCount := Nat.lt_of_le_of_lt hd.1 hd.2
    have hdepth : node.depth ≤ k := hlogged.depth_le hnumbered howning hk
    have hk : k < w.tree.size := (Array.getElem?_eq_some_iff.1 hk).1
    have hsize := howning.size_le
    omega
  · obtain ⟨event, -, hevent⟩ := List.mem_filterMap.1 hentry
    rw [event.finding?_eq_some hevent] at hdeep
    exact hdeep rfl

/-- **The depth limit acts where it says so.** If no directory of the tree says that an entry lies
too deep, every larger limit gives the same tree. And with a limit of at least the number of entries
of the table, no directory ever says so. -/
theorem tree_of_isUnlimited (w : Walk) :
    (w.tree.IsUnlimited → ∀ limit, w.maxDepth ≤ limit → (w.withMaxDepth limit).tree = w.tree) ∧
    (w.table.entryCount ≤ w.maxDepth → w.tree.IsUnlimited) := by
  constructor
  · intro h limit hle
    rw [tree, start_withMaxDepth hle (isUnlimited_of_run h), run_withMaxDepth hle h, tree]
  · intro h
    exact isUnlimited_of_entryCount_le (Nat.le_succ_of_le h)

/-- The small walk stops above the directory in cluster `4`, whose entry names cluster `2`. One
level more is enough to see that this is a repetition. The table has five entries. -/
theorem sample_tree_of_isUnlimited :
    (¬ sample.tree.IsUnlimited ∧ (sample.withMaxDepth 2).tree ≠ sample.tree) ∧
    (sample.withMaxDepth 2).tree.IsUnlimited ∧
    (∀ limit, 2 ≤ limit → (sample.withMaxDepth limit).tree = (sample.withMaxDepth 2).tree) ∧
    (sample.withMaxDepth 5).tree.IsUnlimited := by
  have hlimited : ¬ sample.tree.IsUnlimited := by decide +kernel
  have hunlimited : (sample.withMaxDepth 2).tree.IsUnlimited := by decide +kernel
  refine ⟨⟨hlimited, fun h ↦ hlimited (h ▸ hunlimited)⟩, hunlimited, ?_, ?_⟩
  · exact (tree_of_isUnlimited (sample.withMaxDepth 2)).1 hunlimited
  · exact (tree_of_isUnlimited (sample.withMaxDepth 5)).2 (by decide)

end Walk

end Fat16
