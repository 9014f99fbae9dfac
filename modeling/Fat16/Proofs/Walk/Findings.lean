import Fat16.Proofs.Walk.Arena

/-!
# What is found on a directory

A directory carries two kinds of findings. Those on its entries come from the walk: some are there
from the start, and a repetition is noted whenever an entry comes up whose directory has been read.
The others are found when the directory is read, on its chain and its bytes, and the walk neither
adds to them nor takes any away. So at the end they are what the place of the directory says
(`Walk.filter_findings_of_mem`): how its chain ended, whether the end of the image cuts it, and
whether it ends inside a record, in this order.
-/

namespace Fat16

theorem Finding.mem_truncation (area : Area) {expected : Nat} {region : Bytes}
    (h : region.size < expected) :
    .truncated area expected region.size ∈ truncation area expected region := by
  rw [truncation, if_pos h]
  exact List.mem_singleton_self _

namespace Walk

variable {w : Walk} {p : Pending} {claimed : ClusterSet} {place : Place} {f : Finding}

/-! ## Findings by place -/

/-- The bytes that the directory at a place is read from. -/
def region (w : Walk) : Place → Bytes
  | .root => w.volume.rootRegion w.image
  | .below _ _ chain => w.volume.chainRegion w.image chain.clusters

/-- What is to be found on a directory where the end of the image cuts it. -/
def truncations (w : Walk) : Place → List Finding
  | .root =>
    Finding.truncation .rootDirectory w.volume.rootSize (w.volume.rootRegion w.image)
  | .below _ _ chain =>
    Finding.truncation (.cluster chain.start) (chain.length * w.volume.clusterSize)
      (w.volume.chainRegion w.image chain.clusters)

theorem truncations_of_chain? {node : Node} {chain : Chain} (h : node.chain? = some chain) :
    w.truncations node.place =
      Finding.truncation (.cluster chain.start) (chain.length * w.volume.clusterSize)
        (w.volume.chainRegion w.image chain.clusters) := by
  rw [Node.chain?_eq] at h
  cases hplace : node.place with
  | root => rw [hplace] at h; cases h
  | below parent entry other =>
    rw [hplace] at h
    cases h
    rfl

/-- What is to be found on the chain and the bytes of the directory at a place. -/
def ownFindings (w : Walk) (place : Place) : List Finding :=
  (place.chain?.bind fun chain ↦ chain.ending.finding?).toList ++ w.truncations place ++
    (Listing.cutRecord (w.region place)).toList.map .cutRecord

theorem toList_findings_root (w : Walk) : w.root.findings.toList = w.ownFindings .root := rfl

theorem toList_findings_expansion (w : Walk) (id : Nat) (p : Pending) (claimed : ClusterSet) :
    (w.expansion id p claimed).findings.toList =
      w.ownFindings (w.expansion id p claimed).place := by
  have hplace : (w.expansion id p claimed).place =
      .below p.parent p.entry (w.table.claim p.cluster claimed).1 := rfl
  rw [hplace, ownFindings, truncations, Table.start_claim]
  rfl

/-- A finding on the chain of a directory is not taken for one on its entries, unless the chain
dangles at its start. -/
theorem isOnEntry_of_finding? {how : ChainEnd} (hn : ∀ c, how ≠ .dangling none c)
    (h : how.finding? = some f) : f.isOnEntry = false := by
  match how, h with
  | .dangling none target, _ => exact absurd rfl (hn target)
  | .dangling (some _) _, rfl => rfl
  | .cycle _, rfl => rfl
  | .broken _ _, rfl => rfl
  | .joins _, rfl => rfl

/-- Where the end of the image cuts a directory, that is all that is found there. -/
theorem exists_eq_truncated_of_mem (h : f ∈ w.truncations place) :
    ∃ area expected available, f = .truncated area expected available := by
  have htruncation : ∀ {area : Area} {expected : Nat} {region : Bytes},
      f ∈ Finding.truncation area expected region → f = .truncated area expected region.size := by
    intro area expected region h
    rw [Finding.truncation] at h
    split at h
    · exact List.mem_singleton.1 h
    · cases h
  cases place with
  | root => exact ⟨_, _, _, htruncation h⟩
  | below parent entry chain => exact ⟨_, _, _, htruncation h⟩

theorem isOnEntry_of_mem_truncations (h : f ∈ w.truncations place) : f.isOnEntry = false := by
  obtain ⟨area, expected, available, rfl⟩ := exists_eq_truncated_of_mem h
  rfl

theorem isOnEntry_of_mem_ownFindings
    (hn : ∀ chain, place.chain? = some chain → ∀ c, chain.ending ≠ .dangling none c)
    (h : f ∈ w.ownFindings place) : f.isOnEntry = false := by
  rw [ownFindings, List.mem_append, List.mem_append] at h
  rcases h with (h | h) | h
  · obtain ⟨chain, hchain, hf⟩ := Option.bind_eq_some_iff.1 (Option.mem_toList.1 h)
    exact isOnEntry_of_finding? (hn chain hchain) hf
  · exact isOnEntry_of_mem_truncations h
  · obtain ⟨cut, -, rfl⟩ := List.mem_map.1 h
    rfl

theorem isOnEntry_of_mem_findings_root (h : f ∈ w.root.findings.toList) : f.isOnEntry = false :=
  isOnEntry_of_mem_ownFindings (fun _ hchain ↦ by cases hchain) (w.toList_findings_root ▸ h)

/-- A claimed chain does not dangle at its start. -/
theorem isOnEntry_of_mem_findings_expansion {id : Nat} (hd : w.table.IsData p.cluster)
    (h : f ∈ (w.expansion id p claimed).findings.toList) : f.isOnEntry = false := by
  rw [toList_findings_expansion] at h
  refine isOnEntry_of_mem_ownFindings (fun chain hchain ↦ ?_) h
  obtain rfl := Option.some.inj hchain
  exact Table.ending_claim_ne hd

/-! ## Findings of the tree -/

/-- What is found on a directory, apart from its entries, is what its place says. -/
theorem filter_findings_of_mem {node : Node} (hnode : node ∈ w.tree.nodes) :
    node.findings.toList.filter (fun f ↦ !f.isOnEntry) = w.ownFindings node.place := by
  refine forall_of_read
    (P := fun node ↦ node.findings.toList.filter (fun f ↦ !f.isOnEntry) = w.ownFindings node.place)
    (fun _ _ h ↦ h) ?_ ?_ ?_ hnode
  · intro node findings hfindings h
    have hnil : findings.filter (fun f ↦ !f.isOnEntry) = [] :=
      List.filter_eq_nil_iff.2 fun f hf ↦ by simp [hfindings f hf]
    rw [Node.toList_findings_addFindings, List.filter_append, h, hnil, List.append_nil]
    rfl
  · intro id p claimed hd
    rw [← toList_findings_expansion, List.filter_eq_self]
    intro f hf
    rw [isOnEntry_of_mem_findings_expansion hd hf, Bool.not_false]
  · refine List.filter_eq_self.2 fun f hf ↦ ?_
    rw [isOnEntry_of_mem_findings_root hf, Bool.not_false]

theorem mem_findings_of_mem_ownFindings {node : Node} (hnode : node ∈ w.tree.nodes)
    (hf : f ∈ w.ownFindings node.place) : f ∈ node.findings := by
  rw [← filter_findings_of_mem hnode] at hf
  exact Array.mem_toList_iff.1 (List.mem_of_mem_filter hf)

end Walk

end Fat16
