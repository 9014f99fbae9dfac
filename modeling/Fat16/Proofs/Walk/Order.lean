import Mathlib.Algebra.Ring.Nat
import Fat16.Inspection
import Fat16.Proofs.Walk.Log

/-!
# The order of a walk

A walk has a stack of entries to be expanded, and the listing of its tree has a stack of ids. The
stacks are not alike: what waits for a walk may turn out to be a repetition, and then it never gets
an id. But the directories come up in the same order, so to list a tree is to go through its array
(`Walk.depthFirst_eq_nodes`), and this takes no more than one step for each directory.

To compare the stacks one has to know what will become of each entry that waits. So the induction
goes back from the end of the walk, and its invariant is about the future (`Walk.Outlook`): from
the ids that the waiting entries will get, the final tree lists the directories not yet read. When
an entry is expanded, its id is listed next, and the ids that follow are those of the children that
the directory will have, ahead of those of the other entries.
-/

namespace Fat16

/-! ## Listing a tree -/

namespace Tree

variable {t : Tree} {id : Nat} {node : Node}

theorem visit_zero (t : Tree) (waiting : List Nat) (acc : Array Node) :
    t.visit 0 waiting acc = acc := by
  rw [visit]

theorem visit_nil (t : Tree) (steps : Nat) (acc : Array Node) : t.visit steps [] acc = acc := by
  cases steps <;> rw [visit]

theorem visit_of_get? (h : t.get? id = some node) (steps : Nat) (waiting : List Nat)
    (acc : Array Node) : t.visit (steps + 1) (id :: waiting) acc =
      t.visit steps (node.children.toList ++ waiting) (acc.push node) := by
  rw [visit, h]

theorem drop_of_get? (h : t.get? id = some node) :
    t.nodes.toList.drop id = node :: t.nodes.toList.drop (id + 1) := by
  obtain ⟨hlt, rfl⟩ := List.getElem?_eq_some_iff.1 ((Array.getElem?_toList ..).trans h)
  exact List.drop_eq_getElem_cons hlt

/-- If what follows a directory on the stack lists the directories with larger ids, then the
directory itself with it lists those from its own id on. -/
theorem toList_visit_of_get? (h : t.get? id = some node) {waiting : List Nat}
    (hvisit : ∀ steps acc, (t.visit steps (node.children.toList ++ waiting) acc).toList =
      acc.toList ++ (t.nodes.toList.drop (id + 1)).take steps) (steps : Nat) (acc : Array Node) :
    (t.visit steps (id :: waiting) acc).toList =
      acc.toList ++ (t.nodes.toList.drop id).take steps := by
  cases steps with
  | zero => rw [visit_zero, List.take_zero, List.append_nil]
  | succ steps =>
    rw [visit_of_get? h, hvisit, drop_of_get? h, List.take_succ_cons, Array.toList_push,
      List.append_assoc, List.singleton_append]

end Tree

namespace Walk

/-! ## What is still to come -/

/-- What will become of what waits in a state, if `t` is the tree in the end. -/
structure Outlook (t : Tree) (s : State) (future : List Event) : Prop where
  pending_eq : future.map Event.pending = s.pending
  /-- A directory has the children that it has now and those still to come. -/
  children_eq : ∀ (k : Nat) (node : Node), s.nodes[k]? = some node → ∃ final, t.get? k = some final ∧
    final.children.toList = node.children.toList ++ (eventsOf future k).filterMap Event.id?
  /-- The ids still to come list the directories still to be read. -/
  visit_eq : ∀ steps acc, (t.visit steps (future.filterMap Event.id?) acc).toList =
    acc.toList ++ (t.nodes.toList.drop s.nodes.size).take steps

variable {w : Walk} {nodes : Array Node} {claimed : ClusterSet} {p : Pending} {rest : List Pending}
  {t : Tree} {future : List Event}

namespace Outlook

theorem empty (nodes : Array Node) (claimed : ClusterSet) :
    Outlook ⟨nodes⟩ ⟨nodes, claimed, []⟩ [] where
  pending_eq := rfl
  children_eq := fun _ node hnode ↦ ⟨node, hnode, (List.append_nil _).symm⟩
  visit_eq := by
    intro steps acc
    rw [List.filterMap_nil, Tree.visit_nil, ← Array.length_toList, List.drop_length, List.take_nil,
      List.append_nil]

/-- A repetition has no future. -/
theorem note (h : Outlook t (w.step nodes claimed p rest) future)
    (hc : claimed.contains p.cluster = true) :
    Outlook t ⟨nodes, claimed, p :: rest⟩ (⟨p, none⟩ :: future) where
  pending_eq := by
    have hpending := h.pending_eq
    rw [step_of_contains w nodes rest hc] at hpending
    rw [List.map_cons, hpending]
  children_eq := by
    intro k node hnode
    have hids : (eventsOf (⟨p, none⟩ :: future) k).filterMap Event.id? =
        (eventsOf future k).filterMap Event.id? := by
      rw [eventsOf_cons, List.filterMap_append]
      by_cases hk : p.parent = k
      · rw [if_pos hk]
        rfl
      · rw [if_neg hk]
        rfl
    have hget := getElem?_step_of_contains w nodes rest hc k
    rw [hnode, Option.map_some] at hget
    obtain ⟨final, hfinal, hchildren⟩ := h.children_eq k _ hget
    refine ⟨final, hfinal, ?_⟩
    rw [hids, hchildren]
    split <;> rfl
  visit_eq := by
    have hvisit := h.visit_eq
    rw [step_of_contains w nodes rest hc, Array.size_modify] at hvisit
    exact hvisit

/-- A directory that is expanded is listed next, and then its children. -/
theorem expand (h : Outlook t (w.step nodes claimed p rest) future)
    (hrest : ∀ q ∈ rest, q.parent < nodes.size) (hc : claimed.contains p.cluster = false) :
    ∃ future, Outlook t ⟨nodes, claimed, p :: rest⟩ future := by
  have hget := getElem?_step_of_not_contains w nodes rest hc
  have hpending := h.pending_eq
  have hchildren := h.children_eq
  have hvisit := h.visit_eq
  rw [step_of_not_contains w nodes rest hc] at hpending hvisit
  -- what will become of the children, and what will become of the rest
  obtain ⟨below, others, rfl, hbelow, hothers⟩ := List.map_eq_append_iff.1 hpending
  have hparent : ∀ q ∈ below.map Event.pending, q.parent = nodes.size := by
    rw [hbelow]
    exact fun q hq ↦ parent_of_mem_queue hq
  have hnil : ∀ k, k ≠ nodes.size → eventsOf below k = [] := fun k hk ↦
    eventsOf_eq_nil fun q hq ↦ (hparent q hq).trans_ne hk.symm
  have hself : eventsOf (below ++ others) nodes.size = below := by
    have hne : ∀ q ∈ others.map Event.pending, q.parent ≠ nodes.size := by
      rw [hothers]
      exact fun q hq ↦ Nat.ne_of_lt (hrest q hq)
    rw [eventsOf_append, eventsOf_eq_self hparent, eventsOf_eq_nil hne, List.append_nil]
  refine ⟨⟨p, some nodes.size⟩ :: others, ?_, ?_, ?_⟩
  · rw [List.map_cons, hothers]
  · intro k node hnode
    have hk : k ≠ nodes.size := Nat.ne_of_lt (Array.getElem?_eq_some_iff.1 hnode).1
    have hstep := hget k
    rw [if_neg hk, hnode, Option.map_some] at hstep
    obtain ⟨final, hfinal, heq⟩ := hchildren k _ hstep
    refine ⟨final, hfinal, ?_⟩
    rw [heq, eventsOf_append, hnil k hk, List.nil_append, eventsOf_cons]
    by_cases hpk : p.parent = k
    · rw [if_pos hpk, if_pos hpk, Node.addChild, Array.toList_push, List.append_assoc]
      rfl
    · rw [if_neg hpk, if_neg hpk, List.nil_append]
  · have hstep := hget nodes.size
    rw [if_pos rfl] at hstep
    obtain ⟨final, hfinal, heq⟩ := hchildren _ _ hstep
    rw [hself] at heq
    have hids : final.children.toList = below.filterMap Event.id? := heq
    rw [Array.size_push, Array.size_modify, List.filterMap_append, ← hids] at hvisit
    exact Tree.toList_visit_of_get? hfinal hvisit

end Outlook

/-- In every state there is something that will become of what waits. -/
theorem exists_outlook (s : State) (h : ∀ q ∈ s.pending, q.parent < s.nodes.size) :
    ∃ future, Outlook ⟨(w.run s).nodes⟩ s future := by
  -- along the run; what is known of the state after a step tells of the state before it
  fun_induction w.run s with
  | case1 nodes claimed => exact ⟨[], .empty nodes claimed⟩
  | case2 nodes claimed p rest ih =>
    have hrest : ∀ q ∈ rest, q.parent < nodes.size := fun q hq ↦ h q (List.mem_cons_of_mem _ hq)
    cases hc : claimed.contains p.cluster with
    | true =>
      obtain ⟨future, hfuture⟩ := ih (by
        rw [step_of_contains w nodes rest hc, Array.size_modify]
        exact hrest)
      exact ⟨_, hfuture.note hc⟩
    | false =>
      obtain ⟨future, hfuture⟩ := ih (by
        rw [step_of_not_contains w nodes rest hc, Array.size_push, Array.size_modify]
        intro q hq
        rcases List.mem_append.1 hq with hq | hq
        · rw [parent_of_mem_queue hq]
          exact Nat.lt_succ_self _
        · exact Nat.lt_succ_of_lt (hrest q hq))
      exact hfuture.expand hrest hc

/-! ## The whole walk -/

/-- So far as it goes, the listing of a tree goes through its array. -/
theorem toList_visit_tree (w : Walk) (steps : Nat) :
    (w.tree.visit steps [0] #[]).toList = w.tree.nodes.toList.take steps := by
  have hparent : ∀ q ∈ w.queue w.root, q.parent = 0 := fun q hq ↦ parent_of_mem_queue hq
  obtain ⟨future, hfuture⟩ := w.exists_outlook w.start fun q hq ↦ by
    rw [hparent q hq]
    exact Nat.one_pos
  obtain ⟨final, hfinal, hchildren⟩ := hfuture.children_eq 0 (w.settle w.root) rfl
  -- the root is read first, and all that waits then is in it
  have hself : eventsOf future 0 = future := eventsOf_eq_self (by
    rw [hfuture.pending_eq]
    exact hparent)
  have hids : final.children.toList = future.filterMap Event.id? := hself ▸ hchildren
  have hvisit := hfuture.visit_eq
  rw [← hids, ← List.append_nil final.children.toList] at hvisit
  exact Tree.toList_visit_of_get? hfinal hvisit steps #[]

theorem depthFirst_tree (w : Walk) : w.tree.depthFirst = w.tree.nodes.toList := by
  rw [Tree.depthFirst, toList_visit_tree, Tree.size, ← Array.length_toList, List.take_length]

theorem map_id_nodes (w : Walk) : w.tree.nodes.toList.map Node.id = List.range w.tree.size := by
  obtain ⟨claimed, log, -, hlogged⟩ := w.exists_logged
  apply List.ext_getElem?
  intro k
  rw [List.getElem?_map, Array.getElem?_toList]
  by_cases hk : k < w.tree.size
  · have hget := Array.getElem?_eq_getElem hk
    have hid := (hlogged.account k _ hget).id_eq
    rw [hget, Option.map_some, hid, List.getElem?_range hk]
  · have hge := Nat.le_of_not_lt hk
    rw [Array.getElem?_eq_none hge, List.getElem?_eq_none (by rwa [List.length_range])]
    rfl

end Walk

/-! ## The findings of an inspection -/

namespace Inspection

/-- A finding has one of two severities. -/
theorem count_add_count (i : Inspection) :
    i.count .warning + i.count .error = i.findings.length := by
  rw [count, count, List.length_eq_countP_add_countP fun f ↦ f.severity == .warning]
  refine congrArg _ (List.countP_congr fun f _ ↦ ?_)
  cases f.severity <;> simp

theorem findings_eq_append {i : Inspection} (h : i.tree.depthFirst = i.tree.nodes.toList) :
    i.findings = i.volumeFindings ++ i.tree.findings.map Prod.snd := by
  rw [findings, h, Tree.findings, List.map_flatMap]
  simp [Function.comp_def]

theorem depthFirst_of_read {image : Bytes} {maxDepth : Nat} {i : Inspection}
    (h : read image maxDepth = .ok i) : i.tree.depthFirst = i.tree.nodes.toList := by
  obtain ⟨v, -, rfl⟩ := read_eq_ok_iff.1 h
  exact Walk.depthFirst_tree _

theorem length_findings {i : Inspection} (h : i.tree.depthFirst = i.tree.nodes.toList) :
    i.findings.length = i.volumeFindings.length +
      (i.tree.nodes.toList.map fun node ↦ node.findings.size).sum := by
  rw [findings, h, List.length_append, List.length_flatMap]
  rfl

end Inspection

/-- **The order of a walk.** Listing a tree one directory at a time gives the directories by id,
each of them once, and then no more. So the findings of an inspection are those on the volume and
those on the directories by id, and the two severities count all of them. -/
theorem Walk.depthFirst_eq_nodes (w : Walk) :
    (∀ steps, (w.tree.visit steps [0] #[]).toList = w.tree.nodes.toList.take steps) ∧
    w.tree.depthFirst = w.tree.nodes.toList ∧
    w.tree.depthFirst.map Node.id = List.range w.tree.size ∧
    ∀ image maxDepth i, Inspection.read image maxDepth = .ok i →
      i.findings = i.volumeFindings ++ i.tree.findings.map Prod.snd ∧
      i.count .warning + i.count .error = i.volumeFindings.length +
        (i.tree.nodes.toList.map fun node ↦ node.findings.size).sum := by
  refine ⟨w.toList_visit_tree, w.depthFirst_tree, ?_, fun image maxDepth i h ↦ ⟨?_, ?_⟩⟩
  · rw [depthFirst_tree, map_id_nodes]
  · exact Inspection.findings_eq_append (Inspection.depthFirst_of_read h)
  · rw [i.count_add_count, Inspection.length_findings (Inspection.depthFirst_of_read h)]

/-- An image with a directory inside a directory. The root directory names clusters `2` and `3`,
then `2` again and the root directory itself, and the directory at `2` names `4`. -/
def Inspection.nestedImage : Bytes :=
  let boot : List UInt8 :=
    .replicate 11 0 ++ [32, 0, 1, 16, 0, 1, 4, 0, 0, 0, 0, 1, 0] ++ .replicate 488 0
  let table : List UInt8 := [0, 0, 0, 0, 0xFF, 0xFF, 0xFF, 0xFF, 0xFF, 0xFF] ++ .replicate 22 0
  (boot ++ table ++ Walk.sampleRecord 0x10 2 ++ Walk.sampleRecord 0x10 3 ++
    Walk.sampleRecord 0x10 2 ++ Walk.sampleRecord 0x10 0 ++ Walk.sampleRecord 0x10 4 ++
    .replicate 64 0).toArray

theorem Inspection.nestedImage_findings : ∃ i, Inspection.read nestedImage 2 = .ok i ∧
    i.tree.nodes.toList.map Node.children = [#[1, 3], #[2], #[], #[]] ∧
      i.findings = i.volumeFindings ++ i.tree.findings.map Prod.snd ∧
        i.count .warning + i.count .error = 2 := by
  have hread : (Inspection.read nestedImage 2).toOption.map (fun i ↦
      (i.tree.nodes.toList.map Node.children, i.volumeFindings,
        i.tree.nodes.toList.map fun node ↦ node.findings.size)) =
      some ([#[1, 3], #[2], #[], #[]], [], [2, 0, 0, 0]) := by
    decide +kernel
  obtain ⟨i, hi, hparts⟩ := Option.map_eq_some_iff.1 hread
  rw [Prod.mk.injEq, Prod.mk.injEq] at hparts
  obtain ⟨hchildren, hvolume, hsizes⟩ := hparts
  have hok := toOption_eq_some_iff.1 hi
  obtain ⟨hfindings, hcount⟩ := (Walk.depthFirst_eq_nodes Walk.sample).2.2.2 nestedImage 2 i hok
  rw [hsizes, hvolume] at hcount
  exact ⟨i, hok, hchildren, hfindings, hcount⟩

end Fat16
