import Fat16.Chain.Cursor
import Fat16.Proofs.Claim

/-!
# One cluster at a time

A cursor knows one cluster more than it has handed out, and nothing beyond that. What it will still
hand out is therefore not stored in it, but it is determined: from the pending cluster on, the links
lead where the trail leads that starts there with the same set (`Cursor.Ahead`). One request hands
out the first cluster of what is ahead and leaves the others (`Cursor.Ahead.step`); the end of the
chain stays the same all the while, but shows only when nothing is ahead any more.

At the start the resolved chain is ahead. So however many requests are made, and whether a cursor is
asked or drained, it reads the chain that `Table.resolve` gives.
-/

namespace Fat16

/-- How a chain ends where its trail stops, if only a cluster of the chain itself can block it. -/
def Trail.Stop.ending : Trail.Stop → ChainEnd
  | .ended how => how
  | .blocked c => .cycle c

namespace Cursor

variable {cursor : Cursor} {current next : Cluster} {t : Table} {rest : List Cluster}
  {how : ChainEnd}

/-! ## One request -/

theorem advance_of_link_eq_error (h : cursor.table.link current = .error how) :
    cursor.advance current = { cursor with pending := none, found := some how } := by
  rw [advance, h]

theorem advance_of_admits (h : cursor.table.link current = .ok next)
    (hn : cursor.seen.admits next = true) :
    cursor.advance current =
      { cursor with pending := some next, seen := cursor.seen.insert next } := by
  rw [advance, h]
  exact if_pos hn

theorem advance_of_not_admits (h : cursor.table.link current = .ok next)
    (hn : cursor.seen.admits next = false) :
    cursor.advance current = { cursor with pending := none, found := some (.cycle next) } := by
  rw [advance, h]
  exact if_neg (by rw [hn]; exact Bool.false_ne_true)

theorem next_of_pending_eq_none (h : cursor.pending = none) : cursor.next = (none, cursor) := by
  rw [Cursor.next, h]

theorem next_of_pending_eq_some (h : cursor.pending = some current) :
    cursor.next = (some current, cursor.advance current) := by
  rw [Cursor.next, h]

theorem drain_of_pending_eq_none (h : cursor.pending = none) (acc : Array Cluster) :
    cursor.drain acc = (acc, cursor) := by
  rw [drain]
  split
  · rfl
  · simp_all

theorem drain_of_pending_eq_some (h : cursor.pending = some current) (acc : Array Cluster) :
    cursor.drain acc = (cursor.advance current).drain (acc.push current) := by
  rw [drain]
  split
  · simp_all
  · simp_all

/-! ## What is ahead -/

/-- The clusters that a cursor in the table `t` still has to hand out, and how the chain ends
behind them. -/
inductive Ahead (t : Table) : Cursor → List Cluster → ChainEnd → Prop where
  /-- There are none, and the end is known. -/
  | done (seen : ClusterSet) (how : ChainEnd) : Ahead t ⟨t, none, seen, some how⟩ [] how
  /-- They are the trail from the pending cluster. -/
  | pending (current : Cluster) (seen : ClusterSet) (found : Option ChainEnd) :
    Ahead t ⟨t, some current, seen, found⟩ (current :: t.onward current seen)
      (t.halt current seen).ending

namespace Ahead

theorem table_eq (h : Ahead t cursor rest how) : cursor.table = t := by
  cases h <;> rfl

theorem pending_eq (h : Ahead t cursor rest how) : cursor.pending = rest.head? := by
  cases h <;> rfl

/-- The end of the chain shows when nothing is ahead any more. -/
theorem ending_eq (h : Ahead t cursor rest how) :
    cursor.ending = if rest = [] then some how else none := by
  cases h <;> rfl

/-- A request is answered with the first cluster that is ahead, and the others stay ahead. -/
theorem step (h : Ahead t cursor rest how) :
    cursor.next.1 = rest.head? ∧ Ahead t cursor.next.2 rest.tail how := by
  cases h with
  | done seen how =>
    rw [next_of_pending_eq_none rfl]
    exact ⟨rfl, .done seen how⟩
  | pending current seen found =>
    rw [next_of_pending_eq_some rfl]
    refine ⟨rfl, ?_⟩
    rw [List.tail_cons]
    -- the request follows one link, as the trail does
    cases hl : t.link current with
    | error how =>
      rw [advance_of_link_eq_error hl, Table.onward_of_link_eq_error hl,
        Table.halt_of_link_eq_error hl]
      exact .done seen how
    | ok next =>
      cases hn : seen.admits next with
      | true =>
        rw [advance_of_admits hl hn, Table.onward_of_admits hl hn, Table.halt_of_admits hl hn]
        exact .pending next (seen.insert next) found
      | false =>
        rw [advance_of_not_admits hl hn, Table.onward_of_not_admits hl hn,
          Table.halt_of_not_admits hl hn]
        exact .done seen (.cycle next)

/-- A cursor that is drained hands out all that is ahead. -/
theorem exists_drain (h : Ahead t cursor rest how) (acc : Array Cluster) :
    ∃ done : Cursor, cursor.drain acc = (acc ++ rest.toArray, done) ∧ done.ending = some how := by
  induction rest generalizing cursor acc with
  | nil =>
    rw [drain_of_pending_eq_none h.pending_eq]
    exact ⟨cursor, by rw [Array.append_empty], h.ending_eq⟩
  | cons c rest ih =>
    obtain ⟨-, hrest⟩ := h.step
    rw [next_of_pending_eq_some h.pending_eq, List.tail_cons] at hrest
    obtain ⟨done, hdrain, hending⟩ := ih hrest (acc.push c)
    refine ⟨done, ?_, hending⟩
    rw [drain_of_pending_eq_some h.pending_eq, hdrain]
    simp

end Ahead

/-! ## Many requests -/

/-- The cursor after `n` clusters have been asked for. -/
def after (cursor : Cursor) : Nat → Cursor
  | 0 => cursor
  | n + 1 => (cursor.after n).next.2

/-- The answers to the first `n` requests, in order. -/
def answers (cursor : Cursor) : Nat → List (Option Cluster)
  | 0 => []
  | n + 1 => cursor.answers n ++ [(cursor.after n).next.1]

namespace Ahead

/-- After `n` requests the first `n` clusters are not ahead any more. -/
theorem after (h : Ahead t cursor rest how) (n : Nat) :
    Ahead t (cursor.after n) (rest.drop n) how := by
  induction n with
  | zero => exact h
  | succ n ih =>
    rw [Cursor.after, ← List.tail_drop]
    exact ih.step.2

/-- Request number `n` is answered with the cluster that is `n` places ahead. -/
theorem answer_eq (h : Ahead t cursor rest how) (n : Nat) :
    (cursor.after n).next.1 = rest[n]? := by
  rw [(h.after n).step.1, List.head?_drop]

/-- The clusters that are ahead are handed out in order, and nothing after them. -/
theorem answers_eq (h : Ahead t cursor rest how) (n : Nat) :
    cursor.answers n = (rest.take n).map some ++ List.replicate (n - rest.length) none := by
  induction n with
  | zero => simp [answers]
  | succ n ih =>
    rw [answers, ih, h.answer_eq]
    rcases Nat.lt_or_ge n rest.length with hlt | hle
    · rw [List.getElem?_eq_getElem hlt, List.take_succ_eq_append_getElem hlt,
        Nat.sub_eq_zero_of_le hlt, Nat.sub_eq_zero_of_le hlt.le, List.replicate_zero,
        List.append_nil, List.append_nil, List.map_append, List.map_singleton]
    · rw [List.getElem?_eq_none hle, List.take_of_length_le hle,
        List.take_of_length_le (Nat.le_succ_of_le hle), Nat.succ_sub hle, List.replicate_succ',
        List.append_assoc]

end Ahead

end Cursor

namespace Table

/-- Before the first request the resolved chain is ahead. -/
theorem ahead_cursor (t : Table) (start : Cluster) :
    Cursor.Ahead t (t.cursor start) (t.resolve start).clusters (t.resolve start).ending := by
  by_cases h : t.IsData start
  · have hending : (t.resolve start).ending = (t.halt start (t.startSet start)).ending := by
      rw [resolve_of_isData h]
      cases t.halt start (t.startSet start) <;> rfl
    rw [hending, cursor, if_pos h, ← startSet, resolve_of_isData h]
    exact .pending start (t.startSet start) none
  · rw [cursor, if_neg h, resolve_of_not_isData h]
    exact .done _ _

/-- A cursor that is drained hands out the resolved chain, and then knows how it ended. -/
theorem exists_drain_cursor (t : Table) (start : Cluster) :
    ∃ done, (t.cursor start).drain #[] = ((t.resolve start).clusters.toArray, done) ∧
      done.ending = some (t.resolve start).ending := by
  have h := (t.ahead_cursor start).exists_drain #[]
  rwa [Array.empty_append] at h

end Table

namespace Cursor

/-- A cursor keeps to the clusters of its table. -/
structure Within (cursor : Cursor) (t : Table) : Prop where
  /-- The table does not change. -/
  table_eq : cursor.table = t
  /-- What is handed out next is a cluster of the table. -/
  isData : ∀ c, cursor.pending = some c → t.IsData c

theorem within_after (t : Table) (start : Cluster) (n : Nat) :
    ((t.cursor start).after n).Within t := by
  have h := (t.ahead_cursor start).after n
  refine ⟨h.table_eq, fun c hc ↦ ?_⟩
  rw [h.pending_eq] at hc
  have hmem : c ∈ (t.resolve start).clusters := List.mem_of_mem_drop (List.mem_of_head? hc)
  exact Table.isData_of_mem_resolve hmem

end Cursor

/-- **A cursor reads the resolved chain.** The answers to any number of requests are the clusters
of the chain, one after another, and then nothing. How the chain ended is unknown as long as a
cluster is left, and known from then on. -/
theorem Table.answers_cursor (t : Table) (start : Cluster) (n : Nat) :
    (t.cursor start).answers n = ((t.resolve start).clusters.take n).map some ++
        List.replicate (n - (t.resolve start).length) none ∧
    ((t.cursor start).after n).ending =
      if n < (t.resolve start).length then none else some (t.resolve start).ending := by
  have h := t.ahead_cursor start
  refine ⟨h.answers_eq n, ?_⟩
  rw [(h.after n).ending_eq]
  rcases Nat.lt_or_ge n (t.resolve start).length with hlt | hle
  · rw [if_pos hlt, if_neg fun hnil ↦ Nat.not_le.2 hlt (List.drop_eq_nil_iff.1 hnil)]
  · rw [if_neg (Nat.not_lt.2 hle), if_pos (List.drop_eq_nil_iff.2 hle)]

end Fat16
