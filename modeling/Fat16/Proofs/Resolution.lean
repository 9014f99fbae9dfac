import Mathlib.Data.List.Chain
import Mathlib.Logic.Function.Iterate
import Fat16.Proofs.Cursor
import Fat16.Proofs.Partition

/-!
# What a chain resolves to

A start that is a cluster of the table resolves to a list of clusters and an end, and both are
determined by the table alone: the list begins with the start, every cluster in it points to the
next one, none occurs twice, and the entry of the last one is what the end says
(`Table.IsResolution`). Nothing else has these properties (`Table.resolve_eq_iff`), so whatever set
is used to tell which clusters have been reached, and in whatever order it is filled, a chain can
come out in one way only.

That there is only one resolution rests on a comparison of two of them. Both follow the same links
from the same start, so one is the beginning of the other; and the end of the shorter one says that
its last cluster leads nowhere, or back into it, which leaves nothing for the longer one to go on
to.

A chain read one cluster at a time by a cursor is the same chain. A cursor always knows how the
chain ended once it has nothing more to hand out, and asks only for links of clusters of the table.
-/

namespace Fat16

/-! ## Resolutions -/

namespace Table

variable {t : Table} {start current last c d : Cluster} {clusters clusters' : List Cluster}
  {ending ending' : ChainEnd} {seen : ClusterSet}

/-- How a chain of these clusters ends, as the entry of the last one says. -/
inductive EndsAt (t : Table) (clusters : List Cluster) (last : Cluster) : ChainEnd → Prop where
  /-- The entry marks the end of a chain. -/
  | complete (raw : UInt16) (h : t.entryAt last = .ok (.endOfChain raw)) :
    EndsAt t clusters last .complete
  /-- The cluster is free. -/
  | broken (h : t.entryAt last = .ok .free) : EndsAt t clusters last (.broken last .free)
  /-- The entry points out of the table. -/
  | dangling (target : Cluster) (h : t.entryAt last = .ok (.pointer target))
    (hout : ¬ t.IsData target) : EndsAt t clusters last (.dangling (some last) target)
  /-- The entry points back into the chain. -/
  | cycle (closesAt : Cluster) (h : t.entryAt last = .ok (.pointer closesAt))
    (hback : closesAt ∈ clusters) : EndsAt t clusters last (.cycle closesAt)

/-- The clusters that the links lead to from `start`, and how they end. -/
structure IsResolution (t : Table) (start : Cluster) (clusters : List Cluster)
    (ending : ChainEnd) : Prop where
  /-- The start is the first cluster. -/
  head?_eq : clusters.head? = some start
  /-- No cluster is reached twice. -/
  nodup : clusters.Nodup
  /-- All are clusters of the table. -/
  isData : ∀ c ∈ clusters, t.IsData c
  /-- Every cluster points to the next one. -/
  linked : clusters.IsChain fun c d ↦ t.entryAt c = .ok (.pointer d)
  /-- The last cluster says how the chain ends. -/
  endsAt : ∃ last, clusters.getLast? = some last ∧ t.EndsAt clusters last ending

/-- The links from `start` on never come to an end. -/
def Endless (t : Table) (start : Cluster) : Prop :=
  ∃ f : Nat → Cluster, f 0 = start ∧ ∀ n, t.entryAt (f n) = .ok (.pointer (f (n + 1)))

/-- In terms of links, a chain ends where there is no link, or where it leads back. -/
theorem endsAt_iff (hlast : t.IsData last) (hdata : ∀ c ∈ clusters, t.IsData c) :
    t.EndsAt clusters last ending ↔ t.link last = .error ending ∨
      ∃ c ∈ clusters, t.link last = .ok c ∧ ending = .cycle c := by
  constructor
  · rintro (⟨raw, h⟩ | h | ⟨target, h, hout⟩ | ⟨closesAt, h, hback⟩)
    · exact .inl (by rw [link, h])
    · exact .inl (by rw [link, h])
    · exact .inl (by simp only [link, h, if_neg hout])
    · exact .inr ⟨closesAt, hback, link_eq_ok_iff.2 ⟨h, hdata closesAt hback⟩, rfl⟩
  · rintro (h | ⟨c, hc, h, rfl⟩)
    · rcases link_eq_error_cases hlast h with ⟨rfl, raw, hraw⟩ | ⟨target, rfl, htarget, hout⟩ |
        ⟨rfl, hfree⟩
      · exact .complete raw hraw
      · exact .dangling target htarget hout
      · exact .broken hfree
    · exact .cycle c (link_eq_ok_iff.1 h).1 hc

/-! ## There is a resolution -/

/-- Every cluster of a trail points to the next one. -/
theorem isChain_onward (t : Table) (current : Cluster) (seen : ClusterSet) :
    (current :: t.onward current seen).IsChain fun c d ↦ t.link c = .ok d := by
  induction current, seen using t.trail_induction with
  | ended current seen how h =>
    rw [onward_of_link_eq_error h]
    exact .singleton current
  | admitted current seen next h hn ih =>
    rw [onward_of_admits h hn]
    exact .cons_cons h ih
  | blocked current seen next h hn =>
    rw [onward_of_not_admits h hn]
    exact .singleton current

theorem isResolution_resolve (h : t.IsData start) :
    t.IsResolution start (t.resolve start).clusters (t.resolve start).ending where
  head?_eq := by rw [resolve_of_isData h, List.head?_cons]
  nodup := t.nodup_resolve start
  isData := fun _ hc ↦ isData_of_mem_resolve hc
  linked := by
    rw [resolve_of_isData h]
    exact (t.isChain_onward start _).imp fun _ _ hl ↦ (link_eq_ok_iff.1 hl).1
  endsAt := by
    have hdata : ∀ c ∈ (t.resolve start).clusters, t.IsData c := fun _ hc ↦ isData_of_mem_resolve hc
    obtain ⟨last, hlast, hends⟩ := exists_getLast?_resolve h
    exact ⟨last, hlast, (endsAt_iff (hdata last (List.mem_of_getLast? hlast)) hdata).2 hends⟩

/-! ## There is no other -/

/-- Of two lists that follow the same links from the same start, one is the beginning of the
other. -/
theorem prefix_or_prefix_of_isChain
    (h : clusters.IsChain fun c d ↦ t.entryAt c = .ok (.pointer d))
    (h' : clusters'.IsChain fun c d ↦ t.entryAt c = .ok (.pointer d))
    (hhead : clusters.head? = clusters'.head?) :
    clusters <+: clusters' ∨ clusters' <+: clusters := by
  induction clusters generalizing clusters' with
  | nil => exact .inl List.nil_prefix
  | cons c rest ih =>
    cases clusters' with
    | nil => exact .inr List.nil_prefix
    | cons c' rest' =>
      obtain rfl : c = c' := Option.some.inj hhead
      rw [List.isChain_cons] at h h'
      rw [List.prefix_cons_inj, List.prefix_cons_inj]
      cases rest with
      | nil => exact .inl List.nil_prefix
      | cons d rest =>
        cases rest' with
        | nil => exact .inr List.nil_prefix
        | cons d' rest' =>
          -- the entry of `c` says where both go on
          have hd := h.1 d rfl
          have hd' := h'.1 d' rfl
          obtain rfl : d = d' := TableEntry.pointer.inj (Except.ok.inj (hd.symm.trans hd'))
          exact ih h.2 h'.2 rfl

namespace IsResolution

/-- A resolution cannot be continued: its last cluster leads nowhere or back. -/
theorem eq_of_prefix (h : t.IsResolution start clusters ending)
    (h' : t.IsResolution start clusters' ending') (hle : clusters <+: clusters') :
    clusters = clusters' := by
  obtain ⟨rest, rfl⟩ := hle
  cases rest with
  | nil => rw [List.append_nil]
  | cons d rest =>
    exfalso
    obtain ⟨last, hlast, hends⟩ := h.endsAt
    have hd : t.IsData d := h'.isData d (List.mem_append_right _ List.mem_cons_self)
    have hnext : t.link last = .ok d :=
      link_eq_ok_iff.2 ⟨(List.isChain_append.1 h'.linked).2.2 last hlast d rfl, hd⟩
    have hmem : d ∈ clusters := by
      rcases (endsAt_iff (h.isData last (List.mem_of_getLast? hlast)) h.isData).1 hends with
        herror | ⟨c, hc, hback, -⟩
      · rw [hnext] at herror
        cases herror
      · rwa [Except.ok.inj (hnext.symm.trans hback)]
    exact (List.nodup_append.1 h'.nodup).2.2 d hmem d List.mem_cons_self rfl

/-- There is one resolution only. -/
theorem unique (h : t.IsResolution start clusters ending)
    (h' : t.IsResolution start clusters' ending') : clusters = clusters' ∧ ending = ending' := by
  have heq : clusters = clusters' := by
    rcases prefix_or_prefix_of_isChain h.linked h'.linked (h.head?_eq.trans h'.head?_eq.symm) with
      hle | hle
    · exact h.eq_of_prefix h' hle
    · exact (h'.eq_of_prefix h hle).symm
  subst heq
  refine ⟨rfl, ?_⟩
  obtain ⟨last, hlast, hends⟩ := h.endsAt
  obtain ⟨last', hlast', hends'⟩ := h'.endsAt
  obtain rfl : last = last' := Option.some.inj (hlast.symm.trans hlast')
  have hdata := h.isData last (List.mem_of_getLast? hlast)
  rw [endsAt_iff hdata h.isData] at hends hends'
  rcases hends with hl | ⟨c, -, hl, rfl⟩
  · rcases hends' with hl' | ⟨c, -, hl', rfl⟩
    · exact Except.error.inj (hl.symm.trans hl')
    · cases hl.symm.trans hl'
  · rcases hends' with hl' | ⟨c', -, hl', rfl⟩
    · cases hl.symm.trans hl'
    · rw [Except.ok.inj (hl.symm.trans hl')]

/-- A resolution is what its start resolves to. -/
theorem resolve_eq (h : t.IsResolution start clusters ending) :
    t.resolve start = ⟨start, clusters, ending⟩ := by
  have hstart : t.IsData start := h.isData start (List.mem_of_head? h.head?_eq)
  obtain ⟨hclusters, hending⟩ := (isResolution_resolve hstart).unique h
  rw [← hclusters, ← hending]
  exact congrArg (Chain.mk · _ _) (t.start_resolve start)

end IsResolution

/-! ## Links that never end -/

/-- Only clusters of the table point anywhere. -/
theorem isData_of_entryAt_eq_pointer (h : t.entryAt c = .ok (.pointer d)) : t.IsData c := by
  rw [entryAt, rawAt] at h
  by_cases hlt : c < t.entryCount
  · rw [if_pos hlt] at h
    refine ⟨Nat.le_of_not_lt fun hreserved ↦ ?_, hlt⟩
    simp [Except.map, hreserved] at h
  · rw [if_neg hlt] at h
    cases h

/-- The cluster that `c` points to, or `c` itself where it points to none. -/
def follow (t : Table) (c : Cluster) : Cluster := (t.link c).toOption.getD c

theorem follow_of_link (h : t.link c = .ok d) : t.follow c = d := by
  rw [follow, h]
  rfl

/-- Where every link of a class stays in the class, the links from there never end. -/
theorem endless_of_closed {S : Cluster → Prop} (hS : ∀ d, S d → ∃ c, t.link d = .ok c ∧ S c)
    (h : S start) : t.Endless start := by
  have hmem : ∀ n, S (t.follow^[n] start) := by
    intro n
    induction n with
    | zero => exact h
    | succ n ih =>
      obtain ⟨c, hl, hc⟩ := hS _ ih
      rwa [Function.iterate_succ_apply', follow_of_link hl]
  refine ⟨fun n ↦ t.follow^[n] start, rfl, fun n ↦ ?_⟩
  obtain ⟨c, hl, -⟩ := hS _ (hmem n)
  simp only [Function.iterate_succ_apply', follow_of_link hl]
  exact (link_eq_ok_iff.1 hl).1

/-- A chain runs in a circle if and only if its links never end. -/
theorem exists_ending_eq_cycle_iff :
    (∃ c, (t.resolve start).ending = .cycle c) ↔ t.Endless start := by
  constructor
  · rintro ⟨closesAt, hend⟩
    have hstart : t.IsData start := by
      by_contra hout
      rw [resolve_of_not_isData hout] at hend
      cases hend
    -- with an empty set a claim resolves the chain, and in a claimed circle all links stay
    have hclaim := claim_empty (t := t) le_rfl start
    rw [← hclaim] at hend
    refine endless_of_closed (S := (· ∈ (t.claim start (.empty t.entryCount)).1.clusters))
      (fun d hd ↦ ?_) ?_
    · obtain ⟨e, he, hl⟩ := exists_link_of_ending_claim_eq_cycle hend hd
      exact ⟨e, hl, he⟩
    · rw [hclaim, resolve_of_isData hstart]
      exact List.mem_cons_self
  · rintro ⟨f, rfl, hf⟩
    have hlink : ∀ n, t.link (f n) = .ok (f (n + 1)) := fun n ↦
      link_eq_ok_iff.2 ⟨hf n, isData_of_entryAt_eq_pointer (hf (n + 1))⟩
    have hclosed : ∀ d c, (∃ n, f n = d) → t.link d = .ok c → ∃ n, f n = c := by
      rintro _ c ⟨n, rfl⟩ hl
      exact ⟨n + 1, Except.ok.inj ((hlink n).symm.trans hl)⟩
    rw [resolve_of_isData (isData_of_entryAt_eq_pointer (hf 0))]
    have hfirst : f 0 ∈ f 0 :: t.onward (f 0) (t.startSet (f 0)) := List.mem_cons_self
    rcases halt_of_closed hclosed hfirst ⟨0, rfl⟩ with ⟨how, _, -, ⟨n, rfl⟩, hl⟩ | ⟨c, hh, -⟩
    · cases (hlink n).symm.trans hl
    · exact ⟨c, by rw [hh]⟩

/-! ## The resolution -/

/-- **What a chain resolves to.** A start outside the table resolves to nothing but itself, as a
dangling reference. Any other has one resolution, and this is what it resolves to. The chain runs in
a circle if and only if its links never end, and it has no more clusters than the table. A cursor
reads the same chain: it asks only for entries that the table has, and is never without an end. -/
theorem resolve_eq_iff (t : Table) (start : Cluster) :
    (¬ t.IsData start → t.resolve start = ⟨start, [], .dangling none start⟩) ∧
    (t.IsData start → ∀ clusters ending,
      t.resolve start = ⟨start, clusters, ending⟩ ↔ t.IsResolution start clusters ending) ∧
    ((∃ c, (t.resolve start).ending = .cycle c) ↔ t.Endless start) ∧
    (t.resolve start).length ≤ t.entryCount - firstCluster ∧
    (∀ n c, ((t.cursor start).after n).pending = some c →
      ∃ entry, ((t.cursor start).after n).table.entryAt c = .ok entry) ∧
    ∃ done, (t.cursor start).drain #[] = ((t.resolve start).clusters.toArray, done) ∧
      done.ending = some (t.resolve start).ending := by
  refine ⟨resolve_of_not_isData, fun h clusters ending ↦ ?_, exists_ending_eq_cycle_iff,
    length_le_of_nodup (t.nodup_resolve start) fun c hc ↦ isData_of_mem_resolve hc, fun n c hc ↦ ?_,
    t.exists_drain_cursor start⟩
  · constructor
    · intro hresolve
      have hresolution := isResolution_resolve h
      rwa [hresolve] at hresolution
    · intro hresolution
      obtain ⟨hclusters, hending⟩ := (isResolution_resolve h).unique hresolution
      rw [← hclusters, ← hending]
      exact congrArg (Chain.mk · _ _) (t.start_resolve start)
  · have hwithin := Cursor.within_after t start n
    rw [hwithin.table_eq]
    exact ⟨_, entryAt_of_isData (hwithin.isData c hc)⟩

theorem sample_isResolution :
    (¬ sample.IsData 7 ∧ sample.resolve 7 = ⟨7, [], .dangling none 7⟩) ∧
    (sample.IsData 4 ∧ sample.IsResolution 4 [4, 2, 5] (.broken 5 .free)) ∧
    sample.Endless 3 ∧
    ((sample.cursor 4).after 2).pending = some 5 ∧
      ∃ entry, ((sample.cursor 4).after 2).table.entryAt 5 = .ok entry := by
  have hchain : sample.resolve 4 = ⟨4, [4, 2, 5], .broken 5 .free⟩ := by decide +kernel
  have hcircle : (sample.resolve 3).ending = .cycle 3 := by decide +kernel
  have hpending : ((sample.cursor 4).after 2).pending = some 5 := by decide +kernel
  obtain ⟨houtside, -⟩ := resolve_eq_iff sample 7
  obtain ⟨-, -, hendless, -⟩ := resolve_eq_iff sample 3
  obtain ⟨-, hinside, -, -, hentry, -⟩ := resolve_eq_iff sample 4
  exact ⟨⟨by decide, houtside (by decide)⟩,
    ⟨by decide, (hinside (by decide) [4, 2, 5] (.broken 5 .free)).1 hchain⟩,
    hendless.1 ⟨3, hcircle⟩, hpending, hentry 2 5 hpending⟩

end Table

end Fat16
