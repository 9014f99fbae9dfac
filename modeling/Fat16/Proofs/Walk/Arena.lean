import Mathlib.Data.List.Basic
import Fat16.Proofs.Claim
import Fat16.Tree.Walk

/-!
# Steps of a walk

A step of the walk changes the directories read so far in one of two ways: it notes a repetition
on one of them, or it adds a directory and makes it a child of one of them. Everything that is
proved of a walk is a statement about states that `Walk.run_invariant` lifts from steps to the
whole walk, and a step is seen only through the two equations for it and those for what is at an
index after it.

Neither way changes the place of a directory. So the places (`Tree.places`), and with them the
chains (`Tree.chains`), only ever grow at their end. What can be said of a directory apart from its
children and findings is true in the end if it is true when the directory is read
(`Walk.forall_of_read`).
-/

namespace Fat16

theorem toOption_eq_some_iff {ε α : Type} {result : Except ε α} {a : α} :
    result.toOption = some a ↔ result = .ok a := by
  cases result <;> simp [Except.toOption]

/-- The chain of the directory at a place. -/
def Place.chain? : Place → Option Chain
  | .root => none
  | .below _ _ chain => some chain

theorem Node.chain?_eq (node : Node) : node.chain? = node.place.chain? := by
  rw [chain?]
  cases node.place <;> rfl

/-- Whether a finding is on a subdirectory entry, and not on the bytes or the chain of a directory.
-/
def Finding.isOnEntry : Finding → Bool
  | .repeated .. | .tooDeep .. | .dangling none _ => true
  | _ => false

theorem Node.toList_findings_addFindings (node : Node) (findings : List Finding) :
    (node.addFindings findings).findings.toList = node.findings.toList ++ findings := by
  simp [addFindings]

@[simp] theorem Node.place_addChild (node : Node) (id : Nat) :
    (node.addChild id).place = node.place := rfl

@[simp] theorem Node.place_addFindings (node : Node) (findings : List Finding) :
    (node.addFindings findings).place = node.place := rfl

namespace Tree

/-- The chains of the directories, by id. The root has none. -/
def chains (t : Tree) : List Chain := t.nodes.toList.filterMap Node.chain?

/-- The clusters of all directories. -/
def clusters (t : Tree) : List Cluster := t.chains.flatMap Chain.clusters

/-- The clusters of the directories with smaller ids. -/
def clustersBefore (t : Tree) (id : Nat) : List Cluster :=
  ((t.nodes.toList.take id).filterMap Node.chain?).flatMap Chain.clusters

/-- Where the directories belong, by id. -/
def places (t : Tree) : List Place := t.nodes.toList.map Node.place

theorem chains_eq (t : Tree) : t.chains = t.places.filterMap Place.chain? := by
  rw [chains, places, List.filterMap_map]
  exact congrArg (t.nodes.toList.filterMap ·) (funext Node.chain?_eq)

theorem places_push (nodes : Array Node) (node : Node) :
    places ⟨nodes.push node⟩ = places ⟨nodes⟩ ++ [node.place] := by
  rw [places, Array.toList_push, List.map_append]
  rfl

/-- What happens to a directory in its place does not change what it has nothing to do with. -/
theorem map_modify {α : Type} {g : Node → α} {f : Node → Node} (h : ∀ node, g (f node) = g node)
    (nodes : Array Node) (id : Nat) : (nodes.modify id f).toList.map g = nodes.toList.map g := by
  apply List.ext_getElem?
  intro k
  rw [Array.toList_modify, List.getElem?_map, List.getElem?_map, List.getElem?_modify]
  cases nodes.toList[k]? with
  | none => rfl
  | some node =>
    by_cases hk : id = k
    · simp [hk, h]
    · simp [hk]

/-- What happens to a directory in its place does not change the places. -/
theorem places_modify {f : Node → Node} (h : ∀ node, (f node).place = node.place)
    (nodes : Array Node) (id : Nat) : places ⟨nodes.modify id f⟩ = places ⟨nodes⟩ :=
  map_modify h nodes id

end Tree

namespace Walk

variable (w : Walk) (nodes : Array Node) {claimed : ClusterSet} {p : Pending} (rest : List Pending)

/-! ## What is decided when a directory is read -/

section Outcome

variable {w} {node : Node} {e : DirectoryEntry}

theorem outcome_of_eq_zero (h : e.firstCluster = 0) :
    w.outcome node e = .error (.repeated e.index 0) := by
  rw [outcome, if_pos h]

theorem outcome_of_not_isData (h₀ : e.firstCluster ≠ 0) (h : ¬ w.table.IsData e.firstCluster) :
    w.outcome node e = .error (.dangling none e.firstCluster) := by
  rw [outcome, if_neg h₀, if_pos h]

theorem ne_zero_of_isData {c : Cluster} (h : w.table.IsData c) : c ≠ 0 :=
  Nat.ne_of_gt (Nat.lt_of_lt_of_le Nat.zero_lt_two h.1)

theorem outcome_of_lt_depth (h : w.table.IsData e.firstCluster) (hd : w.maxDepth < node.depth + 1) :
    w.outcome node e = .error (.tooDeep e.index w.maxDepth) := by
  rw [outcome, if_neg (ne_zero_of_isData h), if_neg (not_not.2 h), if_pos hd]

theorem outcome_of_depth_le (h : w.table.IsData e.firstCluster) (hd : node.depth + 1 ≤ w.maxDepth) :
    w.outcome node e = .ok ⟨node.id, e.index, e.firstCluster, node.depth + 1⟩ := by
  rw [outcome, if_neg (ne_zero_of_isData h), if_neg (not_not.2 h), if_neg (Nat.not_lt.2 hd)]

/-- The four outcomes, each with when it is the one. -/
theorem outcome_cases (w : Walk) (node : Node) (e : DirectoryEntry) :
    (e.firstCluster = 0 ∧ w.outcome node e = .error (.repeated e.index 0)) ∨
    (e.firstCluster ≠ 0 ∧ ¬ w.table.IsData e.firstCluster ∧
      w.outcome node e = .error (.dangling none e.firstCluster)) ∨
    (w.table.IsData e.firstCluster ∧ w.maxDepth < node.depth + 1 ∧
      w.outcome node e = .error (.tooDeep e.index w.maxDepth)) ∨
    (w.table.IsData e.firstCluster ∧ node.depth + 1 ≤ w.maxDepth ∧
      w.outcome node e = .ok ⟨node.id, e.index, e.firstCluster, node.depth + 1⟩) := by
  by_cases h₀ : e.firstCluster = 0
  · exact .inl ⟨h₀, outcome_of_eq_zero h₀⟩
  · right
    by_cases h : w.table.IsData e.firstCluster
    · right
      rcases Nat.lt_or_ge w.maxDepth (node.depth + 1) with hd | hd
      · exact .inl ⟨h, hd, outcome_of_lt_depth h hd⟩
      · exact .inr ⟨h, hd, outcome_of_depth_le h hd⟩
    · exact .inl ⟨h₀, h, outcome_of_not_isData h₀ h⟩

/-- What waits is a subdirectory that starts at a cluster of the table. -/
theorem outcome_eq_ok {p : Pending} (h : w.outcome node e = .ok p) :
    w.table.IsData e.firstCluster ∧ p = ⟨node.id, e.index, e.firstCluster, node.depth + 1⟩ := by
  rcases w.outcome_cases node e with ⟨-, ho⟩ | ⟨-, -, ho⟩ | ⟨-, -, ho⟩ | ⟨hd, -, ho⟩
  · simp [ho] at h
  · simp [ho] at h
  · simp [ho] at h
  · rw [ho] at h
    exact ⟨hd, (Except.ok.inj h).symm⟩

/-- What waits is not too deep. -/
theorem depth_le_of_outcome {p : Pending} (h : w.outcome node e = .ok p) :
    p.depth ≤ w.maxDepth := by
  rcases w.outcome_cases node e with ⟨-, ho⟩ | ⟨-, -, ho⟩ | ⟨-, -, ho⟩ | ⟨-, hle, ho⟩
  · simp [ho] at h
  · simp [ho] at h
  · simp [ho] at h
  · rw [ho] at h
    rwa [← Except.ok.inj h]

theorem outcome_of_mem_queue {p : Pending} (h : p ∈ w.queue node) :
    ∃ e ∈ node.subdirectories, w.outcome node e = .ok p := by
  obtain ⟨e, he, ho⟩ := List.mem_filterMap.1 h
  exact ⟨e, he, toOption_eq_some_iff.1 ho⟩

theorem isData_of_mem_queue {p : Pending} (h : p ∈ w.queue node) : w.table.IsData p.cluster := by
  obtain ⟨e, -, ho⟩ := outcome_of_mem_queue h
  obtain ⟨hd, rfl⟩ := outcome_eq_ok ho
  exact hd

theorem parent_of_mem_queue {p : Pending} (h : p ∈ w.queue node) : p.parent = node.id := by
  obtain ⟨e, -, ho⟩ := outcome_of_mem_queue h
  obtain ⟨-, rfl⟩ := outcome_eq_ok ho
  rfl

/-- What is wrong with a subdirectory, if anything is. -/
def refusal? (w : Walk) (node : Node) (e : DirectoryEntry) : Option Finding :=
  match w.outcome node e with
  | .ok _ => none
  | .error finding => some finding

theorem refusals_eq (w : Walk) (node : Node) :
    w.refusals node = node.subdirectories.filterMap (w.refusal? node) := rfl

theorem refusal?_eq_some_iff {f : Finding} :
    w.refusal? node e = some f ↔ w.outcome node e = .error f := by
  rw [refusal?]
  rcases w.outcome node e with g | p <;> simp

theorem isOnEntry_of_mem_refusals {f : Finding} (h : f ∈ w.refusals node) :
    f.isOnEntry = true := by
  rw [refusals_eq, List.mem_filterMap] at h
  obtain ⟨e, -, he⟩ := h
  rw [refusal?_eq_some_iff] at he
  rcases w.outcome_cases node e with ⟨-, ho⟩ | ⟨-, -, ho⟩ | ⟨-, -, ho⟩ | ⟨-, -, ho⟩
  · rw [← Except.error.inj (ho.symm.trans he)]
    rfl
  · rw [← Except.error.inj (ho.symm.trans he)]
    rfl
  · rw [← Except.error.inj (ho.symm.trans he)]
    rfl
  · simp [ho] at he

end Outcome

/-! ## Two kinds of step -/

/-- The directory that is added when `p` is expanded. -/
def expansion (id : Nat) (p : Pending) (claimed : ClusterSet) : Node :=
  w.below id p (w.table.claim p.cluster claimed).1

theorem step_of_contains (h : claimed.contains p.cluster = true) :
    w.step nodes claimed p rest =
      ⟨nodes.modify p.parent (·.addFindings [.repeated p.entry p.cluster]), claimed, rest⟩ := by
  rw [step, if_pos h]

theorem step_of_not_contains (h : claimed.contains p.cluster = false) :
    w.step nodes claimed p rest =
      ⟨(nodes.modify p.parent (·.addChild nodes.size)).push
          (w.settle (w.expansion nodes.size p claimed)),
        (w.table.claim p.cluster claimed).2,
        w.queue (w.expansion nodes.size p claimed) ++ rest⟩ := by
  rw [step, h, if_neg Bool.false_ne_true]
  rfl

theorem getElem?_step_of_contains (h : claimed.contains p.cluster = true) (k : Nat) :
    (w.step nodes claimed p rest).nodes[k]? = nodes[k]?.map fun node ↦
      if p.parent = k then node.addFindings [.repeated p.entry p.cluster] else node := by
  rw [step_of_contains w nodes rest h, Array.getElem?_modify]
  by_cases hk : p.parent = k
  · simp [hk]
  · simp [hk]

theorem getElem?_step_of_not_contains (h : claimed.contains p.cluster = false) (k : Nat) :
    (w.step nodes claimed p rest).nodes[k]? =
      if k = nodes.size then some (w.settle (w.expansion nodes.size p claimed))
      else nodes[k]?.map fun node ↦ if p.parent = k then node.addChild nodes.size else node := by
  rw [step_of_not_contains w nodes rest h, Array.getElem?_push, Array.size_modify,
    Array.getElem?_modify]
  by_cases hk : p.parent = k
  · simp [hk]
  · simp [hk]

/-! ## What a walk keeps -/

/-- What holds at the start of a walk and is kept by every step holds at its end, when nothing is
waiting any more. -/
theorem run_invariant {P : State → Prop} (hstart : P w.start)
    (hstep : ∀ nodes claimed p rest, P ⟨nodes, claimed, p :: rest⟩ →
      P (w.step nodes claimed p rest)) :
    ∃ claimed, P ⟨w.tree.nodes, claimed, []⟩ := by
  have hrun : ∀ s, P s → P (w.run s) := by
    intro s
    fun_induction w.run s with
    | case1 => exact id
    | case2 nodes claimed p rest ih => exact fun h ↦ ih (hstep nodes claimed p rest h)
  refine ⟨(w.run w.start).claimed, ?_⟩
  rw [tree, ← w.pending_run w.start]
  exact hrun w.start hstart

/-- What waits after a step starts at a cluster of the table, as what waited before it did. -/
theorem isData_of_mem_pending_step
    (h : ∀ q ∈ p :: rest, w.table.IsData q.cluster) :
    ∀ q ∈ (w.step nodes claimed p rest).pending, w.table.IsData q.cluster := by
  intro q hq
  cases hc : claimed.contains p.cluster with
  | true =>
    rw [step_of_contains w nodes rest hc] at hq
    exact h q (List.mem_cons_of_mem _ hq)
  | false =>
    rw [step_of_not_contains w nodes rest hc] at hq
    rcases List.mem_append.1 hq with hq | hq
    · exact isData_of_mem_queue hq
    · exact h q (List.mem_cons_of_mem _ hq)

section Read

variable {w} {P : Node → Prop} (hchild : ∀ node id, P node → P (node.addChild id))
  (hfindings : ∀ node findings, (∀ f ∈ findings, f.isOnEntry = true) → P node →
    P (node.addFindings findings))
  (hexpansion : ∀ id p claimed, w.table.IsData p.cluster → P (w.expansion id p claimed))
include hchild hfindings hexpansion

theorem forall_step (hp : w.table.IsData p.cluster)
    (h : ∀ (k : Nat) (node : Node), nodes[k]? = some node → P node)
    (k : Nat) (node : Node) (hk : (w.step nodes claimed p rest).nodes[k]? = some node) :
    P node := by
  cases hc : claimed.contains p.cluster with
  | true =>
    rw [getElem?_step_of_contains w nodes rest hc] at hk
    obtain ⟨before, hbefore, rfl⟩ := Option.map_eq_some_iff.1 hk
    split
    · refine hfindings before _ (fun f hf ↦ ?_) (h k before hbefore)
      rw [List.mem_singleton.1 hf]
      rfl
    · exact h k before hbefore
  | false =>
    rw [getElem?_step_of_not_contains w nodes rest hc] at hk
    split at hk
    · cases hk
      exact hfindings _ _ (fun _ ↦ isOnEntry_of_mem_refusals) (hexpansion nodes.size p claimed hp)
    · obtain ⟨before, hbefore, rfl⟩ := Option.map_eq_some_iff.1 hk
      split
      · exact hchild before _ (h k before hbefore)
      · exact h k before hbefore

/-- What is true of every directory when it is read, and has nothing to do with its children and
with what is found on its entries, is true of the directories of the tree. -/
theorem forall_of_read (hroot : P w.root) {node : Node} (hnode : node ∈ w.tree.nodes) : P node := by
  obtain ⟨_, hrun, -⟩ := w.run_invariant
    (P := fun s ↦ (∀ (k : Nat) (node : Node), s.nodes[k]? = some node → P node) ∧
      ∀ q ∈ s.pending, w.table.IsData q.cluster)
    (by
      refine ⟨fun k node hk ↦ ?_, fun _ ↦ isData_of_mem_queue⟩
      rw [List.mem_singleton.1 (Array.mem_toList_iff.2 (Array.mem_of_getElem? hk))]
      exact hfindings _ _ (fun _ ↦ isOnEntry_of_mem_refusals) hroot)
    fun nodes claimed p rest ⟨h, hwaiting⟩ ↦
      ⟨forall_step nodes rest hchild hfindings hexpansion (hwaiting p List.mem_cons_self) h,
        isData_of_mem_pending_step w nodes rest hwaiting⟩
  obtain ⟨k, hk⟩ := Array.getElem?_of_mem hnode
  exact hrun k node hk

end Read

theorem places_step_of_contains (h : claimed.contains p.cluster = true) :
    Tree.places ⟨(w.step nodes claimed p rest).nodes⟩ = Tree.places ⟨nodes⟩ := by
  rw [step_of_contains w nodes rest h]
  exact Tree.places_modify (fun node ↦ node.place_addFindings _) nodes p.parent

theorem places_step_of_not_contains (h : claimed.contains p.cluster = false) :
    Tree.places ⟨(w.step nodes claimed p rest).nodes⟩ = Tree.places ⟨nodes⟩ ++
      [.below p.parent p.entry (w.table.claim p.cluster claimed).1] := by
  rw [step_of_not_contains w nodes rest h, Tree.places_push,
    Tree.places_modify fun node ↦ node.place_addChild _]
  rfl

theorem chains_step_of_contains (h : claimed.contains p.cluster = true) :
    Tree.chains ⟨(w.step nodes claimed p rest).nodes⟩ = Tree.chains ⟨nodes⟩ := by
  rw [Tree.chains_eq, Tree.chains_eq, places_step_of_contains w nodes rest h]

theorem chains_step_of_not_contains (h : claimed.contains p.cluster = false) :
    Tree.chains ⟨(w.step nodes claimed p rest).nodes⟩
      = Tree.chains ⟨nodes⟩ ++ [(w.table.claim p.cluster claimed).1] := by
  rw [Tree.chains_eq, Tree.chains_eq, places_step_of_not_contains w nodes rest h,
    List.filterMap_append]
  rfl

end Walk

end Fat16
