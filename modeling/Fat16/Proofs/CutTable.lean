import Fat16.Proofs.Bytes
import Fat16.Proofs.Resolution

/-!
# A table that ends early

Where an image ends inside its table, the clusters behind the end are no clusters of the table any
more, and a link to one of them leads nowhere. Nothing else changes: the entries that are left say
what they said (`Table.entryAt_extend`), and a number that is out of the longer table is out of the
shorter one.

So the chain at a start comes out the same up to the first cluster behind the end. For the proof the
chain need not be followed again. What it resolves to in the longer table is cut at that cluster, and
what is left is a resolution in the shorter table, of which there is only one.
-/

namespace Fat16

namespace Table

variable {t : Table} {tail : Bytes} {start last c : Cluster} {clusters before : List Cluster}
  {ending ending' : ChainEnd}

/-- The table that goes on with `tail` behind the last byte of `t`. -/
def extend (t : Table) (tail : Bytes) : Table := ⟨t.bytes ++ tail⟩

/-! ## Entries -/

theorem entryCount_le_extend (t : Table) (tail : Bytes) :
    t.entryCount ≤ (t.extend tail).entryCount := by
  rw [entryCount, entryCount, extend, Array.size_append]
  omega

/-- The entries that a table has stay the same when it goes on. -/
theorem entryAt_extend {i : Nat} (h : i < t.entryCount) (tail : Bytes) :
    (t.extend tail).entryAt i = t.entryAt i := by
  have hsize : 2 * i + 1 < t.bytes.size := by
    rw [entryCount] at h
    omega
  have hword : (t.extend tail).bytes.word16 (2 * i) = t.bytes.word16 (2 * i) :=
    Bytes.word16_append_left hsize tail
  rw [entryAt, entryAt, rawAt, rawAt, if_pos h,
    if_pos (Nat.lt_of_lt_of_le h (t.entryCount_le_extend tail)), hword]

theorem isData_iff_extend (tail : Bytes) :
    t.IsData c ↔ (t.extend tail).IsData c ∧ c < t.entryCount := by
  constructor
  · rintro ⟨hfirst, hlt⟩
    exact ⟨⟨hfirst, Nat.lt_of_lt_of_le hlt (t.entryCount_le_extend tail)⟩, hlt⟩
  · rintro ⟨⟨hfirst, -⟩, hlt⟩
    exact ⟨hfirst, hlt⟩

/-! ## Resolutions -/

/-- An end that the entry of a cluster of the shorter table says is an end there too. -/
theorem EndsAt.of_extend (h : (t.extend tail).EndsAt clusters last ending)
    (hlast : last < t.entryCount) : t.EndsAt clusters last ending := by
  have hentry := entryAt_extend hlast tail
  cases h with
  | complete raw h => exact .complete raw (hentry.symm.trans h)
  | broken h => exact .broken (hentry.symm.trans h)
  | dangling target h hout =>
    exact .dangling target (hentry.symm.trans h) fun hd ↦ hout ((isData_iff_extend tail).1 hd).1
  | cycle closesAt h hback => exact .cycle closesAt (hentry.symm.trans h) hback

namespace IsResolution

/-- The beginning of a resolution is a resolution in the shorter table, if its clusters are there
and its last one ends it. -/
theorem of_extend (h : (t.extend tail).IsResolution start clusters ending)
    (hle : before <+: clusters) (hlt : ∀ c ∈ before, c < t.entryCount)
    (hends : ∃ last, before.getLast? = some last ∧ t.EndsAt before last ending') :
    t.IsResolution start before ending' where
  head?_eq := by
    obtain ⟨last, hlast, -⟩ := hends
    obtain ⟨rest, rfl⟩ := hle
    have hne : before ≠ [] := by
      rintro rfl
      cases hlast
    rw [← List.head?_append_of_ne_nil before hne, h.head?_eq]
  nodup := h.nodup.sublist hle.sublist
  isData := fun c hc ↦ (isData_iff_extend tail).2 ⟨h.isData c (hle.subset hc), hlt c hc⟩
  linked := by
    obtain ⟨rest, rfl⟩ := hle
    exact h.linked.left_of_append.imp_of_mem_imp fun c d hc _ hcd ↦
      (entryAt_extend (hlt c hc) tail).symm.trans hcd
  endsAt := hends

/-- A resolution stays one where all its clusters are in the shorter table. -/
theorem of_extend_of_forall_lt (h : (t.extend tail).IsResolution start clusters ending)
    (hlt : ∀ c ∈ clusters, c < t.entryCount) : t.IsResolution start clusters ending := by
  obtain ⟨last, hlast, hends⟩ := h.endsAt
  exact h.of_extend (List.prefix_refl _) hlt
    ⟨last, hlast, hends.of_extend (hlt last (List.mem_of_getLast? hlast))⟩

/-- A resolution that comes to a cluster behind the end of the shorter table is one up to there, and
it ends with the link to that cluster. -/
theorem exists_of_extend_of_le {after : List Cluster}
    (h : (t.extend tail).IsResolution start (before ++ c :: after) ending)
    (hstart : t.IsData start) (hlt : ∀ b ∈ before, b < t.entryCount) (hc : t.entryCount ≤ c) :
    ∃ last, before.getLast? = some last ∧ t.IsResolution start before (.dangling (some last) c) := by
  have hne : before ≠ [] := by
    rintro rfl
    obtain rfl : c = start := Option.some.inj h.head?_eq
    exact Nat.not_lt.2 hc hstart.2
  have hlast := List.getLast?_eq_some_getLast hne
  refine ⟨before.getLast hne, hlast, h.of_extend (List.prefix_append _ _) hlt ⟨_, hlast, ?_⟩⟩
  -- the link to the first cluster that is left out
  have hlink := (List.isChain_append.1 h.linked).2.2 _ hlast c rfl
  rw [entryAt_extend (hlt _ (List.getLast_mem hne))] at hlink
  exact .dangling c hlink fun hd ↦ Nat.not_lt.2 hc hd.2

end IsResolution

/-! ## Chains -/

/-- **A table that ends early invents no links.** The chain at a start that is left in it has the
clusters that it has in the longer table, up to the first one behind the end. If there is none, the
chains are the same. Otherwise the chain ends with its last cluster, as a dangling reference to the
first one that is left out. -/
theorem resolve_extend (t : Table) (tail : Bytes) (start : Cluster) (h : t.IsData start) :
    (t.resolve start).clusters =
      ((t.extend tail).resolve start).clusters.takeWhile (fun c ↦ decide (c < t.entryCount)) ∧
    ((∀ c ∈ ((t.extend tail).resolve start).clusters, c < t.entryCount) →
      t.resolve start = (t.extend tail).resolve start) ∧
    ∀ c, ((t.extend tail).resolve start).clusters.find?
        (fun c ↦ decide (t.entryCount ≤ c)) = some c →
      ∃ last, (t.resolve start).clusters.getLast? = some last ∧
        (t.resolve start).ending = .dangling (some last) c := by
  have hlong := isResolution_resolve ((isData_iff_extend tail).1 h).1
  cases hfind : ((t.extend tail).resolve start).clusters.find?
      (fun c ↦ decide (t.entryCount ≤ c)) with
  | none =>
    have hlt : ∀ c ∈ ((t.extend tail).resolve start).clusters, c < t.entryCount := by
      simpa using hfind
    have hsame : t.resolve start = (t.extend tail).resolve start :=
      (hlong.of_extend_of_forall_lt hlt).resolve_eq.trans hlong.resolve_eq.symm
    refine ⟨?_, fun _ ↦ hsame, nofun⟩
    rw [hsame, eq_comm, List.takeWhile_eq_self_iff]
    exact fun c hc ↦ decide_eq_true (hlt c hc)
  | some c =>
    obtain ⟨hc, before, after, hclusters, hbefore⟩ := List.find?_eq_some_iff_append.1 hfind
    have hle : t.entryCount ≤ c := of_decide_eq_true hc
    have hlt : ∀ b ∈ before, b < t.entryCount := by simpa using hbefore
    rw [hclusters] at hlong
    obtain ⟨last, hlast, hcut⟩ := hlong.exists_of_extend_of_le h hlt hle
    rw [hcut.resolve_eq, hclusters]
    refine ⟨?_, fun hall ↦ ?_, fun d hd ↦ ?_⟩
    · rw [List.takeWhile_append_of_pos fun b hb ↦ decide_eq_true (hlt b hb),
        List.takeWhile_cons_of_neg (by simpa using hle), List.append_nil]
    · have hmem : c ∈ before ++ c :: after := List.mem_append_right _ List.mem_cons_self
      exact absurd (hall c hmem) (Nat.not_lt.2 hle)
    · obtain rfl : c = d := Option.some.inj hd
      exact ⟨last, hlast, rfl⟩

/-- The sample without its last three bytes, which is cut inside the entry of cluster `5`. -/
def shortSample : Table where
  bytes := #[0, 0, 0, 0, 5, 0, 3, 0, 2, 0, 0]

/-- The chain at `4` loses cluster `5`, and the one at `3` loses nothing. -/
theorem shortSample_resolve :
    shortSample.extend #[0, 9, 0] = sample ∧
    (shortSample.IsData 4 ∧
      (sample.resolve 4).clusters.find? (fun c ↦ decide (shortSample.entryCount ≤ c)) = some 5 ∧
      ∃ last, (shortSample.resolve 4).clusters.getLast? = some last ∧
        (shortSample.resolve 4).ending = .dangling (some last) 5) ∧
    shortSample.IsData 3 ∧ (∀ c ∈ (sample.resolve 3).clusters, c < shortSample.entryCount) ∧
      shortSample.resolve 3 = sample.resolve 3 := by
  have hlong : sample.resolve 4 = ⟨4, [4, 2, 5], .broken 5 .free⟩ := by decide +kernel
  have hcircle : sample.resolve 3 = ⟨3, [3], .cycle 3⟩ := by decide +kernel
  have hfind : (sample.resolve 4).clusters.find?
      (fun c ↦ decide (shortSample.entryCount ≤ c)) = some 5 := by
    rw [hlong]
    decide
  have hlt : ∀ c ∈ (sample.resolve 3).clusters, c < shortSample.entryCount := by
    rw [hcircle]
    decide
  obtain ⟨-, -, hcut⟩ := resolve_extend shortSample #[0, 9, 0] 4 (by decide)
  obtain ⟨-, hsame, -⟩ := resolve_extend shortSample #[0, 9, 0] 3 (by decide)
  exact ⟨rfl, ⟨by decide, hfind, hcut 5 hfind⟩, by decide, hlt, hsame hlt⟩

end Table

end Fat16
