import Fat16.Proofs.Partition

/-!
# Reading a table back from its summary

A summary keeps no entries, only chains. But a cluster of a chain points to the one behind it, and
how the chain ended tells what the entry of its last cluster is: a cycle, a junction and a dangling
link are links like any other, and only the place where they lead sets them apart. What is in no
chain is free. So the entries can be read back (`TableSummary.entryOf`), except that a table has
several end-of-chain marks and its summary does not tell which of them ends a chain.

A cluster has its entry from the chain that lists it, whether this was met first or last and
whether it was cut by an earlier one: what `Chain.entries` says of a resolved chain is true
(`Table.confirms_resolve`), and cutting the chain before a cluster that is taken leaves a link
to this cluster (`Table.Confirms.cut`).
-/

namespace Fat16

/-! ## What chains say of entries -/

/-- The entry with one and the same mark wherever a chain ends. -/
def TableEntry.unmarked : TableEntry → TableEntry
  | .endOfChain _ => .endOfChain 0xFFFF
  | entry => entry

/-- Entries that differ in an end-of-chain mark at most. -/
theorem TableEntry.eq_or_of_unmarked_eq {a b : TableEntry} (h : a.unmarked = b.unmarked) :
    a = b ∨ ∃ raw raw', a = .endOfChain raw ∧ b = .endOfChain raw' := by
  cases a with
  | endOfChain raw =>
    cases b with
    | endOfChain raw' => exact .inr ⟨raw, raw', rfl, rfl⟩
    | _ => simp [unmarked] at h
  | _ =>
    left
    cases b <;> simp_all [unmarked]

/-- The entry of the last cluster of a chain with this end. -/
def ChainEnd.lastEntry : ChainEnd → TableEntry
  | .complete => .endOfChain 0xFFFF
  | .cycle closesAt => .pointer closesAt
  | .dangling _ target => .pointer target
  | .broken _ entry => entry
  | .joins cluster => .pointer cluster

/-- Clusters with their entries, each pointing to the next one; `last` is the entry of the last. -/
def entriesAlong (last : TableEntry) : List Cluster → List (Cluster × TableEntry)
  | [] => []
  | [c] => [(c, last)]
  | c :: d :: rest => (c, .pointer d) :: entriesAlong last (d :: rest)

/-- The clusters of a chain with their entries. -/
def Chain.entries (chain : Chain) : List (Cluster × TableEntry) :=
  entriesAlong chain.ending.lastEntry chain.clusters

/-- The entry of a cluster, as far as the chains tell. -/
def TableSummary.entryOf (s : TableSummary) (c : Cluster) : TableEntry :=
  ((s.chains.flatMap Chain.entries).lookup c).getD .free

theorem map_fst_entriesAlong (last : TableEntry) (l : List Cluster) :
    (entriesAlong last l).map Prod.fst = l := by
  fun_induction entriesAlong last l with
  | case1 => rfl
  | case2 c => rfl
  | case3 c d rest ih => rw [List.map_cons, ih]

theorem map_fst_flatMap_entries (chains : List Chain) :
    (chains.flatMap Chain.entries).map Prod.fst = chains.flatMap Chain.clusters := by
  rw [List.map_flatMap]
  exact congrArg chains.flatMap (funext fun chain ↦ map_fst_entriesAlong _ chain.clusters)

namespace Table

variable {t : Table} {c current : Cluster} {chain : Chain}

/-- Whether the entry of `c` is `entry`, whatever the mark at the end of a chain. -/
def Says (t : Table) (c : Cluster) (entry : TableEntry) : Prop :=
  (t.entryAt c).map TableEntry.unmarked = .ok entry

/-- What a chain says of its clusters is what the table says. -/
def Confirms (t : Table) (chain : Chain) : Prop :=
  ∀ pair ∈ chain.entries, t.Says pair.1 pair.2

theorem says_of_link_eq_ok {next : Cluster} (h : t.link c = .ok next) :
    t.Says c (.pointer next) := by
  rw [Says, (link_eq_ok_iff.1 h).1]
  rfl

/-- How a chain ends at a cluster of the table tells the entry of this cluster. -/
theorem says_of_link_eq_error {how : ChainEnd} (hd : t.IsData c) (h : t.link c = .error how) :
    t.Says c how.lastEntry := by
  rw [Says]
  rw [link, entryAt_of_isData hd] at h
  rw [entryAt_of_isData hd]
  cases hentry : TableEntry.ofRaw (t.bytes.word16 (2 * c)) with
  | pointer next =>
    simp only [hentry] at h
    split at h <;> cases h
    rfl
  | _ =>
    simp only [hentry] at h
    cases h
    rfl

/-! ## Chains tell the truth -/

/-- The entry of the cluster at which a trail stops. -/
def stopEntry : Trail.Stop → TableEntry
  | .ended how => how.lastEntry
  | .blocked cluster => .pointer cluster

theorem says_along_trail (hd : t.IsData current) (seen : ClusterSet) :
    ∀ pair ∈ entriesAlong (stopEntry (t.halt current seen)) (current :: t.onward current seen),
      t.Says pair.1 pair.2 := by
  induction current, seen using t.trail_induction with
  | ended current seen how hl =>
    rw [onward_of_link_eq_error hl, halt_of_link_eq_error hl, entriesAlong,
      List.forall_mem_singleton]
    exact says_of_link_eq_error hd hl
  | admitted current seen next hl hn ih =>
    rw [onward_of_admits hl hn, halt_of_admits hl hn, entriesAlong, List.forall_mem_cons]
    exact ⟨says_of_link_eq_ok hl, ih (isData_of_link_eq_ok hl)⟩
  | blocked current seen next hl hn =>
    rw [onward_of_not_admits hl hn, halt_of_not_admits hl hn, entriesAlong,
      List.forall_mem_singleton]
    exact says_of_link_eq_ok hl

theorem confirms_resolve (t : Table) (start : Cluster) : t.Confirms (t.resolve start) := by
  by_cases h : t.IsData start
  · have hsays := says_along_trail h (t.startSet start)
    rw [Confirms, Chain.entries, resolve_of_isData h]
    cases hh : t.halt start (t.startSet start) with
    | ended how =>
      rw [hh] at hsays
      exact hsays
    | blocked c =>
      rw [hh] at hsays
      exact hsays
  · rw [resolve_of_not_isData h]
    exact fun pair hpair ↦ nomatch hpair

/-- A chain that is cut ends with a link to the cluster before which it is cut. -/
theorem says_along_takeWhile (taken : Cluster → Bool) {last : TableEntry} {l : List Cluster}
    (h : ∀ pair ∈ entriesAlong last l, t.Says pair.1 pair.2) :
    ∀ pair ∈ entriesAlong ((l.find? taken).elim last .pointer) (l.takeWhile fun c ↦ !taken c),
      t.Says pair.1 pair.2 := by
  -- what is left ends before the first cluster that is taken, and the cluster before that one, if
  -- there is any, points to it
  fun_induction entriesAlong last l with
  | case1 => simp [entriesAlong]
  | case2 c =>
    cases hc : taken c with
    | true => simp [hc, entriesAlong]
    | false => simpa [hc, entriesAlong] using h
  | case3 c d rest ih =>
    rw [List.forall_mem_cons] at h
    have htail := ih h.2
    cases hc : taken c with
    | true => simp [hc, entriesAlong]
    | false =>
      cases hd : taken d with
      | true => simpa [hc, hd, entriesAlong] using h.1
      | false =>
        simp only [List.find?_cons, List.takeWhile_cons, hc, hd, Bool.not_false, if_true] at htail ⊢
        rw [entriesAlong, List.forall_mem_cons]
        exact ⟨h.1, htail⟩

theorem Confirms.cut (h : t.Confirms chain) (taken : Cluster → Bool) :
    t.Confirms (chain.cut taken) := by
  have hlast : (chain.cut taken).ending.lastEntry =
      (chain.clusters.find? taken).elim chain.ending.lastEntry .pointer := by
    rw [Chain.cut]
    cases chain.clusters.find? taken <;> rfl
  rw [Confirms, Chain.entries, hlast]
  exact says_along_takeWhile taken h

theorem ClaimedInOrder.confirms {chains : List Chain} (h : t.ClaimedInOrder chains)
    (hchain : chain ∈ chains) : t.Confirms chain := by
  obtain ⟨before, after, hb⟩ := List.append_of_mem hchain
  rw [h before chain after hb]
  exact (t.confirms_resolve chain.start).cut _

/-! ## The table read back -/

/-- The entry of every cluster can be read back from the chains. -/
theorem says_entryOf (hd : t.IsData c) : t.Says c (t.summary.entryOf c) := by
  obtain ⟨next, covered, hnext, h⟩ := exists_listing t
  rw [TableSummary.entryOf]
  cases hlookup : (t.summary.chains.flatMap Chain.entries).lookup c with
  | some entry =>
    obtain ⟨l₁, l₂, hl, -⟩ := List.lookup_eq_some_iff.1 hlookup
    have hmem : (c, entry) ∈ t.summary.chains.flatMap Chain.entries := by simp [hl]
    obtain ⟨chain, hchain, hpair⟩ := List.mem_flatMap.1 hmem
    exact h.ledger.inOrder.confirms hchain (c, entry) hpair
  | none =>
    have hfree : t.entryAt c = .ok .free := by
      by_contra hused
      -- a cluster in use is in a chain
      have hcovered := h.covers c hd (Nat.lt_of_lt_of_le hd.2 hnext) (isFree_eq_false_iff.2 hused)
      rw [h.ledger.contains_iff, ← map_fst_flatMap_entries] at hcovered
      obtain ⟨pair, hpair, rfl⟩ := List.mem_map.1 hcovered
      have hne := List.lookup_eq_none_iff.1 hlookup pair hpair
      simp at hne
    rw [Says, hfree]
    rfl

/-- **No link is lost.** The entry of a cluster can be read back from the summary but for the mark
at the end of a chain. So tables of as many entries with the same chains have the same entries,
except that they may end their chains with different marks. -/
theorem entryAt_of_summary :
    (∀ (t : Table) (c : Cluster), t.IsData c →
      (t.entryAt c).map TableEntry.unmarked = .ok (t.summary.entryOf c)) ∧
    ∀ t u : Table, t.summary.entryCount = u.summary.entryCount →
      t.summary.chains = u.summary.chains → ∀ c, t.IsData c →
        t.entryAt c = u.entryAt c ∨
          ∃ raw raw', t.entryAt c = .ok (.endOfChain raw) ∧ u.entryAt c = .ok (.endOfChain raw') := by
  refine ⟨fun t c hd ↦ says_entryOf hd, fun t u hcount hchains c hd ↦ ?_⟩
  have hdu : u.IsData c := ⟨hd.1, hd.2.trans_eq hcount⟩
  have ht : t.Says c (t.summary.entryOf c) := says_entryOf hd
  have hu : u.Says c (u.summary.entryOf c) := says_entryOf hdu
  have hof : t.summary.entryOf c = u.summary.entryOf c := by
    rw [TableSummary.entryOf, TableSummary.entryOf, hchains]
  rw [Says, entryAt_of_isData hd, hof] at ht
  rw [Says, entryAt_of_isData hdu] at hu
  rw [entryAt_of_isData hd, entryAt_of_isData hdu]
  have hunmarked := Except.ok.inj (ht.trans hu.symm)
  rcases TableEntry.eq_or_of_unmarked_eq hunmarked with heq | ⟨raw, raw', hraw, hraw'⟩
  · exact .inl (congrArg Except.ok heq)
  · exact .inr ⟨raw, raw', congrArg Except.ok hraw, congrArg Except.ok hraw'⟩

/-- The table of `sample` with the chain of `3` ended by one of the marks. -/
def sampleMarked (mark : UInt8) : Table where
  bytes := #[0, 0, 0, 0, 5, 0, mark, 0xFF, 2, 0, 0, 0, 9, 0]

theorem sampleMarked_entryAt :
    (sampleMarked 0xF8).summary.chains = (sampleMarked 0xFF).summary.chains ∧
      (sampleMarked 0xF8).summary.entryOf 4 = .pointer 2 ∧
      (sampleMarked 0xF8).entryAt 3 ≠ (sampleMarked 0xFF).entryAt 3 ∧
      ∃ raw raw', (sampleMarked 0xF8).entryAt 3 = .ok (.endOfChain raw) ∧
        (sampleMarked 0xFF).entryAt 3 = .ok (.endOfChain raw') := by
  have hcount : (sampleMarked 0xF8).summary.entryCount = (sampleMarked 0xFF).summary.entryCount := by
    decide
  have hchains : (sampleMarked 0xF8).summary.chains = (sampleMarked 0xFF).summary.chains := by
    decide +kernel
  have hne : (sampleMarked 0xF8).entryAt 3 ≠ (sampleMarked 0xFF).entryAt 3 := by decide +kernel
  have hentry : (sampleMarked 0xF8).entryAt 4 = .ok (.pointer 2) := by decide +kernel
  have hread := entryAt_of_summary.1 (sampleMarked 0xF8) 4 (by decide)
  rw [hentry] at hread
  have hmarks := entryAt_of_summary.2 _ _ hcount hchains 3 (by decide)
  exact ⟨hchains, (Except.ok.inj hread).symm, hne, hmarks.resolve_left hne⟩

end Table

end Fat16
