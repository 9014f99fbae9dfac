import Fat16.Proofs.Walk.Findings
import Fat16.Proofs.Walk.Ownership

/-!
# The log of a walk

What becomes of a subdirectory entry is decided at two moments: when its directory is read, and,
if it is put to wait then, when it comes up to be expanded. By then other directories have been
read, and the directory that holds the entry is changed where it stands, among those read before.

The proofs keep a log of what came up and what became of it (`Walk.Event`). At any moment the log
and what still waits make up what was ever put to wait, so for every directory they tell where
its queue has gone; its children are the ids in its part of the log, and its findings on entries
are its refusals, followed by the repetitions in its part of the log. This is the account of a
directory (`Walk.Account`), which a step extends for one directory and leaves alone for all others.

Ids are given out in the order of the log, so they tell when a directory was read
(`Walk.Numbered`).
-/

namespace Fat16

namespace Walk

/-- What became of a directory that waited. -/
structure Event where
  /-- The directory that waited. -/
  pending : Pending
  /-- The id it got when it was expanded. It got none if its first cluster was claimed already. -/
  id? : Option Nat

/-- The finding that an event leaves on the directory above. -/
def Event.finding? (event : Event) : Option Finding :=
  match event.id? with
  | none => some (.repeated event.pending.entry event.pending.cluster)
  | some _ => none

theorem Event.finding?_of_some {event : Event} {id : Nat} (h : event.id? = some id) :
    event.finding? = none := by
  rw [finding?, h]

theorem Event.finding?_of_none {event : Event} (h : event.id? = none) :
    event.finding? = some (.repeated event.pending.entry event.pending.cluster) := by
  rw [finding?, h]

theorem Event.finding?_eq_some {event : Event} {f : Finding} (h : event.finding? = some f) :
    f = .repeated event.pending.entry event.pending.cluster := by
  rcases hid : event.id? with _ | id
  · rw [finding?_of_none hid] at h
    exact (Option.some.inj h).symm
  · simp [finding?_of_some hid] at h

/-- The part of a log that is about the entries of directory `k`. -/
def eventsOf (log : List Event) (k : Nat) : List Event :=
  log.filter fun event ↦ event.pending.parent == k

/-- A directory that was expanded from `p`. -/
structure IsExpansion (w : Walk) (p : Pending) (node : Node) : Prop where
  place : ∃ chain, node.place = .below p.parent p.entry chain ∧ chain.start = p.cluster
  depth_eq : node.depth = p.depth
  startSector_eq : node.startSector = w.volume.clusterStartSector p.cluster

/-- What directory `k` has of its entries, when those in `pending` are waiting. -/
structure Account (w : Walk) (pending : List Pending) (log : List Event) (k : Nat) (node : Node) :
    Prop where
  id_eq : node.id = k
  entries_eq : ∃ region, node.entries = (Listing.read w.volume region).entries
  /-- All that was put to wait has come up or is waiting, in order. -/
  queue_eq : w.queue node = (log.map Event.pending ++ pending).filter fun q ↦ q.parent == k
  children_eq : node.children.toList = (eventsOf log k).filterMap Event.id?
  findings_eq : node.findings.toList.filter Finding.isOnEntry =
    w.refusals node ++ (eventsOf log k).filterMap Event.finding?

/-- The log tells how the state has come about. -/
structure Logged (w : Walk) (s : State) (log : List Event) : Prop where
  account : ∀ (k : Nat) (node : Node), s.nodes[k]? = some node → w.Account s.pending log k node
  parent_lt : ∀ q ∈ log.map Event.pending ++ s.pending, q.parent < s.nodes.size
  /-- An id in the log is that of the directory that was expanded. -/
  expanded : ∀ event ∈ log, ∀ id, event.id? = some id →
    ∃ node, s.nodes[id]? = some node ∧ w.IsExpansion event.pending node
  /-- Every directory but the root is in the log. -/
  origin : ∀ (k : Nat) (node : Node), s.nodes[k]? = some node → 1 ≤ k →
    ∃ event ∈ log, event.id? = some k ∧ w.IsExpansion event.pending node
  /-- What was not expanded starts in a cluster that is claimed. -/
  repeated : ∀ event ∈ log, event.id? = none → s.claimed.contains event.pending.cluster = true

/-- Directories got their ids in the order in which they were expanded, after the root. -/
structure Numbered (nodes : Array Node) (log : List Event) : Prop where
  ids_eq : 0 :: log.filterMap Event.id? = List.range nodes.size
  /-- A directory was read before those in it. -/
  parent_lt : ∀ event ∈ log, ∀ id, event.id? = some id → event.pending.parent < id

variable {w : Walk} {nodes : Array Node} {claimed : ClusterSet} {p : Pending} {rest : List Pending}
  {log : List Event} {node : Node} {k id : Nat}

theorem refusals_addFindings (w : Walk) (node : Node) (findings : List Finding) :
    w.refusals (node.addFindings findings) = w.refusals node := rfl

theorem eventsOf_append (l₁ l₂ : List Event) (k : Nat) :
    eventsOf (l₁ ++ l₂) k = eventsOf l₁ k ++ eventsOf l₂ k := List.filter_append ..

theorem eventsOf_singleton (event : Event) (k : Nat) :
    eventsOf [event] k = if event.pending.parent = k then [event] else [] := by
  rw [eventsOf, List.filter_singleton]
  by_cases h : event.pending.parent = k
  · rw [if_pos h, beq_iff_eq.2 h, cond_true]
  · rw [if_neg h, beq_eq_false_iff_ne.2 h, cond_false]

theorem eventsOf_append_singleton (log : List Event) (event : Event) (k : Nat) :
    eventsOf (log ++ [event]) k =
      eventsOf log k ++ if event.pending.parent = k then [event] else [] := by
  rw [eventsOf_append, eventsOf_singleton]

theorem eventsOf_cons (event : Event) (log : List Event) (k : Nat) :
    eventsOf (event :: log) k =
      (if event.pending.parent = k then [event] else []) ++ eventsOf log k := by
  rw [← List.singleton_append, eventsOf_append, eventsOf_singleton]

theorem eventsOf_eq_nil (h : ∀ q ∈ log.map Event.pending, q.parent ≠ k) : eventsOf log k = [] := by
  rw [eventsOf, List.filter_eq_nil_iff]
  intro event hevent
  rw [beq_iff_eq]
  exact h _ (List.mem_map_of_mem hevent)

theorem eventsOf_eq_self (h : ∀ q ∈ log.map Event.pending, q.parent = k) :
    eventsOf log k = log := by
  rw [eventsOf, List.filter_eq_self]
  intro event hevent
  rw [beq_iff_eq]
  exact h _ (List.mem_map_of_mem hevent)

theorem IsExpansion.addFindings {q : Pending} (h : w.IsExpansion q node) (findings : List Finding) :
    w.IsExpansion q (node.addFindings findings) :=
  ⟨h.place, h.depth_eq, h.startSector_eq⟩

theorem IsExpansion.addChild {q : Pending} (h : w.IsExpansion q node) (id : Nat) :
    w.IsExpansion q (node.addChild id) :=
  ⟨h.place, h.depth_eq, h.startSector_eq⟩

/-! ## Accounts

One lemma for each way in which a step touches an account. -/

namespace Account

/-- An event on another directory is no concern of this one. -/
theorem event_ne (event : Event) (h : w.Account (event.pending :: rest) log k node)
    (hk : event.pending.parent ≠ k) : w.Account rest (log ++ [event]) k node where
  id_eq := h.id_eq
  entries_eq := h.entries_eq
  queue_eq := by
    rw [List.map_append, List.append_assoc]
    exact h.queue_eq
  children_eq := by rw [eventsOf_append_singleton, if_neg hk, List.append_nil, h.children_eq]
  findings_eq := by rw [eventsOf_append_singleton, if_neg hk, List.append_nil, h.findings_eq]

/-- A repetition is noted on the directory with the entry. -/
theorem note (h : w.Account (p :: rest) log p.parent node) :
    w.Account rest (log ++ [⟨p, none⟩]) p.parent
      (node.addFindings [.repeated p.entry p.cluster]) where
  id_eq := h.id_eq
  entries_eq := h.entries_eq
  queue_eq := by
    rw [List.map_append, List.append_assoc]
    exact h.queue_eq
  children_eq := by
    rw [eventsOf_append_singleton, if_pos rfl, List.filterMap_append, ← h.children_eq]
    exact (List.append_nil _).symm
  findings_eq := by
    rw [eventsOf_append_singleton, if_pos rfl, List.filterMap_append, ← List.append_assoc,
      Node.toList_findings_addFindings, List.filter_append, h.findings_eq]
    rfl

/-- An expanded directory becomes a child of the directory with the entry. -/
theorem addChild (h : w.Account (p :: rest) log p.parent node) (id : Nat) :
    w.Account rest (log ++ [⟨p, some id⟩]) p.parent (node.addChild id) where
  id_eq := h.id_eq
  entries_eq := h.entries_eq
  queue_eq := by
    rw [List.map_append, List.append_assoc]
    exact h.queue_eq
  children_eq := by
    rw [eventsOf_append_singleton, if_pos rfl, List.filterMap_append, Node.addChild,
      Array.toList_push, h.children_eq]
    rfl
  findings_eq := by
    rw [eventsOf_append_singleton, if_pos rfl, List.filterMap_append, ← List.append_assoc]
    exact h.findings_eq.trans (List.append_nil _).symm

/-- What another directory puts to wait is no concern of this one. -/
theorem queue_ne {other : Node} (h : w.Account rest log k node) (hk : other.id ≠ k) :
    w.Account (w.queue other ++ rest) log k node where
  id_eq := h.id_eq
  entries_eq := h.entries_eq
  queue_eq := by
    have hother : (w.queue other).filter (fun q ↦ q.parent == k) = [] := by
      rw [List.filter_eq_nil_iff]
      intro q hq
      rw [parent_of_mem_queue hq, beq_iff_eq]
      exact hk
    rw [List.filter_append, List.filter_append, hother, List.nil_append, ← List.filter_append]
    exact h.queue_eq
  children_eq := h.children_eq
  findings_eq := h.findings_eq

/-- A directory that has just been read has everything still to come. -/
theorem settle (hid : node.id = k)
    (hentries : ∃ region, node.entries = (Listing.read w.volume region).entries)
    (hchildren : node.children = #[])
    (hfindings : node.findings.toList.filter Finding.isOnEntry = [])
    (hlog : ∀ q ∈ log.map Event.pending ++ rest, q.parent ≠ k) :
    w.Account (w.queue node ++ rest) log k (w.settle node) where
  id_eq := hid
  entries_eq := hentries
  queue_eq := by
    have hqueue : (w.queue node).filter (fun q ↦ q.parent == k) = w.queue node := by
      rw [List.filter_eq_self]
      intro q hq
      rw [parent_of_mem_queue hq, hid, beq_self_eq_true]
    have hnil : ∀ l : List Pending, (∀ q ∈ l, q ∈ log.map Event.pending ++ rest) →
        l.filter (fun q ↦ q.parent == k) = [] := by
      intro l hl
      rw [List.filter_eq_nil_iff]
      intro q hq
      rw [beq_iff_eq]
      exact hlog q (hl q hq)
    rw [List.filter_append, List.filter_append, hqueue,
      hnil _ fun q hq ↦ List.mem_append_left _ hq, hnil _ fun q hq ↦ List.mem_append_right _ hq,
      List.nil_append, List.append_nil]
    rfl
  children_eq := by
    rw [eventsOf_eq_nil fun q hq ↦ hlog q (List.mem_append_left _ hq)]
    exact congrArg Array.toList hchildren
  findings_eq := by
    rw [Walk.settle, Node.toList_findings_addFindings, List.filter_append, hfindings,
      List.nil_append, eventsOf_eq_nil fun q hq ↦ hlog q (List.mem_append_left _ hq),
      List.filterMap_nil, List.append_nil, refusals_addFindings]
    exact List.filter_eq_self.2 fun f hf ↦ isOnEntry_of_mem_refusals hf

/-- When nothing waits any more, there is an event for everything that was put to wait. -/
theorem map_pending_eventsOf (h : w.Account [] log k node) :
    (eventsOf log k).map Event.pending = w.queue node := by
  rw [h.queue_eq, List.append_nil, List.filter_map]
  rfl

end Account

/-! ## Directories that have just been read -/

theorem account_root (w : Walk) :
    w.Account (w.queue w.root ++ []) [] 0 (w.settle w.root) := by
  refine .settle rfl ⟨_, rfl⟩ rfl ?_ (by simp)
  rw [List.filter_eq_nil_iff]
  intro f hf
  rw [isOnEntry_of_mem_findings_root hf]
  exact Bool.false_ne_true

/-- What is wrong with the chain of a directory is never taken for what is wrong with one of its
entries. -/
theorem account_expansion (hd : w.table.IsData p.cluster)
    (hlog : ∀ q ∈ log.map Event.pending ++ rest, q.parent ≠ id) :
    w.Account (w.queue (w.expansion id p claimed) ++ rest) log id
      (w.settle (w.expansion id p claimed)) := by
  refine .settle rfl ⟨_, rfl⟩ rfl ?_ hlog
  rw [List.filter_eq_nil_iff]
  intro f hf
  rw [isOnEntry_of_mem_findings_expansion hd hf]
  exact Bool.false_ne_true

/-! ## The log of a run -/

namespace Logged

theorem start (w : Walk) : w.Logged w.start [] where
  account := by
    intro k node hk
    obtain ⟨hlt, rfl⟩ := Array.getElem?_eq_some_iff.1 hk
    obtain rfl : k = 0 := Nat.lt_one_iff.1 hlt
    have h := w.account_root
    rwa [List.append_nil] at h
  parent_lt := by
    intro q hq
    have hroot : q ∈ w.queue w.root := hq
    rw [parent_of_mem_queue hroot]
    exact Nat.one_pos
  expanded := by simp
  origin := by
    intro k node hk hpos
    obtain ⟨hlt, -⟩ := Array.getElem?_eq_some_iff.1 hk
    exact absurd hlt (Nat.not_lt.2 hpos)
  repeated := by simp

/-- A repetition is logged without an id. -/
theorem note (h : w.Logged ⟨nodes, claimed, p :: rest⟩ log)
    (hc : claimed.contains p.cluster = true) :
    w.Logged (w.step nodes claimed p rest) (log ++ [⟨p, none⟩]) := by
  have hget := getElem?_step_of_contains w nodes rest hc
  rw [step_of_contains w nodes rest hc] at hget ⊢
  refine ⟨fun k node' hk ↦ ?_, fun q hq ↦ ?_, fun event hevent id hid ↦ ?_,
    fun k node' hk hpos ↦ ?_, fun event hevent hnone ↦ ?_⟩
  · rw [hget] at hk
    obtain ⟨node, hnode, rfl⟩ := Option.map_eq_some_iff.1 hk
    have haccount := h.account k node hnode
    by_cases hpk : p.parent = k
    · subst hpk
      rw [if_pos rfl]
      exact haccount.note
    · rw [if_neg hpk]
      exact haccount.event_ne ⟨p, none⟩ hpk
  · rw [Array.size_modify]
    rw [List.map_append, List.append_assoc] at hq
    exact h.parent_lt q hq
  · rcases List.mem_append.1 hevent with hevent | hevent
    · obtain ⟨node, hnode, hexp⟩ := h.expanded event hevent id hid
      refine ⟨_, by rw [hget, hnode, Option.map_some], ?_⟩
      split
      · exact hexp.addFindings _
      · exact hexp
    · rw [List.mem_singleton.1 hevent] at hid
      cases hid
  · rw [hget] at hk
    obtain ⟨node, hnode, rfl⟩ := Option.map_eq_some_iff.1 hk
    obtain ⟨event, hevent, hid, hexp⟩ := h.origin k node hnode hpos
    refine ⟨event, List.mem_append_left _ hevent, hid, ?_⟩
    split
    · exact hexp.addFindings _
    · exact hexp
  · rcases List.mem_append.1 hevent with hevent | hevent
    · exact h.repeated event hevent hnone
    · rw [List.mem_singleton.1 hevent]
      exact hc

/-- An expansion is logged with the id of the directory that is added. -/
theorem expand (h : w.Logged ⟨nodes, claimed, p :: rest⟩ log) (hd : w.table.IsData p.cluster)
    (hc : claimed.contains p.cluster = false) :
    w.Logged (w.step nodes claimed p rest) (log ++ [⟨p, some nodes.size⟩]) := by
  have hget := getElem?_step_of_not_contains w nodes rest hc
  rw [step_of_not_contains w nodes rest hc] at hget ⊢
  -- whatever is in the log or was waiting is on a directory read before
  have hlt : ∀ q ∈ (log ++ [(⟨p, some nodes.size⟩ : Event)]).map Event.pending ++ rest,
      q.parent < nodes.size := by
    intro q hq
    rw [List.map_append, List.append_assoc] at hq
    exact h.parent_lt q hq
  refine ⟨fun k node' hk ↦ ?_, fun q hq ↦ ?_, fun event hevent id hid ↦ ?_,
    fun k node' hk hpos ↦ ?_, fun event hevent hnone ↦ ?_⟩
  · rw [hget] at hk
    by_cases hsize : k = nodes.size
    · rw [if_pos hsize] at hk
      cases hk
      subst hsize
      exact account_expansion hd fun q hq ↦ Nat.ne_of_lt (hlt q hq)
    · rw [if_neg hsize] at hk
      obtain ⟨node, hnode, rfl⟩ := Option.map_eq_some_iff.1 hk
      have haccount := h.account k node hnode
      -- first the event, then what the new directory puts to wait
      refine Account.queue_ne ?_ (Ne.symm hsize)
      by_cases hpk : p.parent = k
      · subst hpk
        rw [if_pos rfl]
        exact haccount.addChild nodes.size
      · rw [if_neg hpk]
        exact haccount.event_ne ⟨p, some nodes.size⟩ hpk
  · rw [Array.size_push, Array.size_modify]
    rcases List.mem_append.1 hq with hq | hq
    · exact Nat.lt_succ_of_lt (hlt q (List.mem_append_left _ hq))
    · rcases List.mem_append.1 hq with hq | hq
      · rw [parent_of_mem_queue hq]
        exact Nat.lt_succ_self _
      · exact Nat.lt_succ_of_lt (hlt q (List.mem_append_right _ hq))
  · rcases List.mem_append.1 hevent with hevent | hevent
    · obtain ⟨node, hnode, hexp⟩ := h.expanded event hevent id hid
      have hne : id ≠ nodes.size := Nat.ne_of_lt (Array.getElem?_eq_some_iff.1 hnode).1
      refine ⟨_, by rw [hget, if_neg hne, hnode, Option.map_some], ?_⟩
      split
      · exact hexp.addChild _
      · exact hexp
    · rw [List.mem_singleton.1 hevent] at hid ⊢
      cases hid
      exact ⟨_, by rw [hget, if_pos rfl], ⟨_, rfl, Table.start_claim ..⟩, rfl, rfl⟩
  · rw [hget] at hk
    by_cases hsize : k = nodes.size
    · rw [if_pos hsize] at hk
      cases hk
      exact ⟨⟨p, some nodes.size⟩, List.mem_append_right _ List.mem_cons_self,
        congrArg some hsize.symm, ⟨_, rfl, Table.start_claim ..⟩, rfl, rfl⟩
    · rw [if_neg hsize] at hk
      obtain ⟨node, hnode, rfl⟩ := Option.map_eq_some_iff.1 hk
      obtain ⟨event, hevent, hid, hexp⟩ := h.origin k node hnode hpos
      refine ⟨event, List.mem_append_left _ hevent, hid, ?_⟩
      split
      · exact hexp.addChild _
      · exact hexp
  · rcases List.mem_append.1 hevent with hevent | hevent
    · exact Table.contains_claim_of_contains (h.repeated event hevent hnone)
    · rw [List.mem_singleton.1 hevent] at hnone
      cases hnone

end Logged

/-! ## Numbers -/

namespace Numbered

theorem start (w : Walk) : Numbered w.start.nodes [] := ⟨rfl, by simp⟩

theorem note (h : Numbered nodes log) (hc : claimed.contains p.cluster = true) :
    Numbered (w.step nodes claimed p rest).nodes (log ++ [⟨p, none⟩]) where
  ids_eq := by
    rw [step_of_contains w nodes rest hc, Array.size_modify, List.filterMap_append]
    exact (congrArg (0 :: ·) (List.append_nil _)).trans h.ids_eq
  parent_lt := by
    intro event hevent id hid
    rcases List.mem_append.1 hevent with hevent | hevent
    · exact h.parent_lt event hevent id hid
    · rw [List.mem_singleton.1 hevent] at hid
      cases hid

theorem expand (h : Numbered nodes log) (hc : claimed.contains p.cluster = false)
    (hp : p.parent < nodes.size) :
    Numbered (w.step nodes claimed p rest).nodes (log ++ [⟨p, some nodes.size⟩]) where
  ids_eq := by
    rw [step_of_not_contains w nodes rest hc, Array.size_push, Array.size_modify,
      List.range_succ, ← h.ids_eq, List.filterMap_append]
    rfl
  parent_lt := by
    intro event hevent id hid
    rcases List.mem_append.1 hevent with hevent | hevent
    · exact h.parent_lt event hevent id hid
    · rw [List.mem_singleton.1 hevent] at hid ⊢
      cases hid
      exact hp

/-- The ids in the log increase. -/
theorem sorted (h : Numbered nodes log) : (log.filterMap Event.id?).Pairwise (· < ·) := by
  have hrange : (List.range nodes.size).Pairwise (· < ·) := List.pairwise_lt_range
  rw [← h.ids_eq] at hrange
  exact hrange.of_cons

end Numbered

/-- A walk ends with a log of all that ever waited, which the ids agree with. -/
theorem exists_numbered (w : Walk) :
    ∃ claimed log, w.Owning ⟨w.tree.nodes, claimed, []⟩ ∧
      w.Logged ⟨w.tree.nodes, claimed, []⟩ log ∧ Numbered w.tree.nodes log := by
  obtain ⟨claimed, howning, log, hlogged⟩ :=
    w.run_invariant (P := fun s ↦ w.Owning s ∧ ∃ log, w.Logged s log ∧ Numbered s.nodes log)
      ⟨Owning.start w, [], Logged.start w, Numbered.start w⟩
      fun nodes claimed p rest ⟨howning, log, hlogged, hnumbered⟩ ↦ by
        refine ⟨howning.step, ?_⟩
        cases hc : claimed.contains p.cluster with
        | true => exact ⟨_, hlogged.note hc, hnumbered.note hc⟩
        | false =>
          have hp : p.parent < nodes.size := hlogged.parent_lt p (by simp)
          exact ⟨_, hlogged.expand (howning.waiting p List.mem_cons_self) hc,
            hnumbered.expand hc hp⟩
  exact ⟨claimed, log, howning, hlogged⟩

/-- A walk ends with a log of all that ever waited. -/
theorem exists_logged (w : Walk) :
    ∃ claimed log, w.Owning ⟨w.tree.nodes, claimed, []⟩ ∧
      w.Logged ⟨w.tree.nodes, claimed, []⟩ log := by
  obtain ⟨claimed, log, howning, hlogged, -⟩ := w.exists_numbered
  exact ⟨claimed, log, howning, hlogged⟩

end Walk

end Fat16
