import Fat16.Proofs.Partition
import Fat16.Proofs.Text

/-!
# Reading a chain back from its words

The words for a chain name its clusters and where it ended, but not all that is known of its end: a
dangling link is written without the cluster that has it, and a broken chain with no more than a
name for the entry at which it breaks. For chains in general this is lost. For chains that come from
a table it is not (`Chain.IsLegible`), since the link that dangles is that of the last cluster and
what breaks a chain is a free entry.

Nor is the start of such a chain lost, which is its first cluster or else where the chain ended
(`Table.Gives.origin_eq`). So two chains from tables, whether resolved or claimed, are the same if
they have the same words (`Table.Gives.chain_eq_of_text_eq`).
-/

namespace Fat16

/-- What the words for a chain leave out can be told from what they say. -/
structure Chain.IsLegible (chain : Chain) : Prop where
  /-- The link that dangles is that of the last cluster. -/
  source_eq : ∀ source target, chain.ending = .dangling source target →
    source = chain.clusters.getLast?
  /-- What breaks a chain is a free entry. -/
  entry_eq : ∀ c entry, chain.ending = .broken c entry → entry = .free

/-- The start of a chain, as its clusters and its end tell it: the first cluster, or where the chain
ended without having any. -/
def Chain.origin (chain : Chain) : Option Cluster :=
  match chain.clusters, chain.ending with
  | c :: _, _ => some c
  | [], .dangling _ target => some target
  | [], .joins c => some c
  | [], _ => none

/-! ## Chains from tables -/

/-- A chain that is cut somewhere ends by joining what is there, and otherwise it is left as it
is. -/
theorem Chain.cut_eq_self_or_joins (chain : Chain) (taken : Cluster → Bool) :
    chain.cut taken = chain ∨ ∃ c, (chain.cut taken).ending = .joins c := by
  rcases hf : chain.clusters.find? taken with _ | c
  · left
    apply cut_eq_self
    simpa using hf
  · right
    exact ⟨c, by rw [cut, hf]⟩

theorem Chain.IsLegible.cut {chain : Chain} (h : chain.IsLegible) (taken : Cluster → Bool) :
    (chain.cut taken).IsLegible := by
  rcases chain.cut_eq_self_or_joins taken with heq | ⟨c, hc⟩
  · rwa [heq]
  · constructor
    · intro source target hend
      simp [hc] at hend
    · intro d entry hend
      simp [hc] at hend

namespace Table

variable {t t' : Table} {chain chain' : Chain}

theorem isLegible_resolve (t : Table) (start : Cluster) : (t.resolve start).IsLegible := by
  by_cases h : t.IsData start
  · obtain ⟨last, hlast, hl | ⟨c, -, -, hc⟩⟩ := exists_getLast?_resolve h
    · have hdata := isData_of_mem_resolve (List.mem_of_getLast? hlast)
      -- what ends the chain is the entry of its last cluster
      rcases link_eq_error_cases hdata hl with ⟨hend, -⟩ | ⟨target, hend, -⟩ | ⟨hend, -⟩
      · exact ⟨by simp [hend], by simp [hend]⟩
      · exact ⟨by simp [hend, hlast], by simp [hend]⟩
      · exact ⟨by simp [hend], by simp [hend]⟩
    · exact ⟨by simp [hc], by simp [hc]⟩
  · rw [resolve_of_not_isData h]
    exact ⟨by simp, by simp⟩

/-- Chains that a table gives are resolved chains, cut or not. -/
theorem Gives.isLegible (h : t.Gives chain) : chain.IsLegible := by
  obtain ⟨start, taken, rfl⟩ := h.exists_claim
  rw [claim_fst]
  exact (t.isLegible_resolve start).cut _

/-- A chain that a table gives starts with its first cluster. If it has none, its end is at the
start. -/
theorem Gives.origin_eq (h : t.Gives chain) : chain.origin = some chain.start := by
  obtain ⟨start, taken, rfl⟩ := h.exists_claim
  by_cases hdata : t.IsData start
  · cases hadmits : taken.admits start with
    | false =>
      rw [claim_of_not_admits hdata hadmits]
      rfl
    | true =>
      rw [claim_of_admits hdata hadmits]
      rfl
  · rw [claim_of_not_isData hdata]
    rfl

end Table

/-! ## The words for an end -/

namespace ChainEnd

variable {how how' : ChainEnd}

@[simp] theorem text_complete : complete.text = "EOF" := rfl

@[simp] theorem text_cycle (c : Cluster) :
    (cycle c).text = "Cycle detected (closes at " ++ c.repr ++ ")" := rfl

@[simp] theorem text_dangling (source : Option Cluster) (target : Cluster) :
    (dangling source target).text = "Dangling reference (" ++ target.repr ++ ")" := rfl

@[simp] theorem text_broken (c : Cluster) (entry : TableEntry) :
    (broken c entry).text = "Broken (" ++ entry.text ++ " entry at " ++ c.repr ++ ")" := rfl

@[simp] theorem text_joins (c : Cluster) : (joins c).text = "(joins " ++ c.repr ++ ")" := rfl

/-- The first character of the words for an end, which tells how the chain ended. -/
def initial : ChainEnd → Char
  | .complete => 'E'
  | .cycle _ => 'C'
  | .dangling .. => 'D'
  | .broken .. => 'B'
  | .joins _ => '('

theorem head?_toList_text (how : ChainEnd) : how.text.toList.head? = some how.initial := by
  cases how <;> simp [initial]

/-- No end begins with a digit, so the words for it cannot be taken for one more cluster. -/
theorem isDigit_initial (how : ChainEnd) : how.initial.isDigit = false := by
  cases how <;> rfl

/-- The end with `source` for the cluster whose link dangles, if there is one. -/
def withSource (source : Option Cluster) : ChainEnd → ChainEnd
  | .dangling _ target => .dangling source target
  | how => how

/-- A numeral between two fixed texts can be read. -/
theorem eq_of_framed {front : String} {m n : Nat}
    (h : front ++ m.repr ++ ")" = front ++ n.repr ++ ")") : m = n := by
  rw [← String.toList_inj] at h
  simp only [String.toList_append, List.append_assoc, List.append_cancel_left_eq] at h
  exact (Numeral.repr_append_inj (by simp) (by simp) h).1

/-- The words for an end tell all of it but the cluster whose link dangles. -/
theorem withSource_eq_of_text_eq (hfree : ∀ c entry, how = .broken c entry → entry = .free)
    (hfree' : ∀ c entry, how' = .broken c entry → entry = .free) (h : how.text = how'.text)
    (source : Option Cluster) : how.withSource source = how'.withSource source := by
  have hinitial : how.initial = how'.initial := by
    rw [← Option.some_inj, ← head?_toList_text, ← head?_toList_text, h]
  -- ends of different kinds begin with different characters
  rcases how with _ | c | ⟨_, c⟩ | ⟨c, entry⟩ | c <;>
    rcases how' with _ | d | ⟨_, d⟩ | ⟨d, entry'⟩ | d <;>
    simp [initial] at hinitial
  · rfl
  · rw [eq_of_framed h]
  · rw [withSource, withSource, eq_of_framed h]
  · obtain rfl := hfree c entry rfl
    obtain rfl := hfree' d entry' rfl
    rw [eq_of_framed h]
  · rw [eq_of_framed h]

end ChainEnd

/-! ## The words for a chain -/

namespace Chain

variable {chain chain' : Chain}

/-- A cluster of a chain in words. -/
def word (c : Cluster) : List Char := c.repr.toList ++ " -> ".toList

theorem toList_text (chain : Chain) :
    chain.text.toList = chain.clusters.flatMap word ++ chain.ending.text.toList := by
  rw [text, String.toList_append, String.toList_join, List.flatMap_map]
  congr 2
  funext c
  simp [word]

theorem isDigit_head?_word (c : Cluster) (r : List Char) :
    ∃ d ∈ (word c ++ r).head?, d.isDigit = true := by
  obtain ⟨d, digits, hdigits, hd⟩ := Numeral.exists_decimal_eq_cons 0 c
  refine ⟨d, ?_, hd⟩
  rw [word, Numeral.repr_eq_decimal, hdigits]
  rfl

/-- The clusters of a chain can be read one after another, and what comes then is its end. -/
theorem flatMap_word_append_inj {l l' : List Cluster} {r r' : List Char}
    (hr : ∀ c ∈ r.head?, c.isDigit = false) (hr' : ∀ c ∈ r'.head?, c.isDigit = false)
    (h : l.flatMap word ++ r = l'.flatMap word ++ r') : l = l' ∧ r = r' := by
  induction l generalizing l' with
  | nil =>
    rcases l' with _ | ⟨d, l'⟩
    · exact ⟨rfl, h⟩
    · -- the second text goes on with a cluster, and the first has come to its end
      rw [List.flatMap_nil, List.nil_append, List.flatMap_cons, List.append_assoc] at h
      obtain ⟨digit, hdigit, htrue⟩ := isDigit_head?_word d (l'.flatMap word ++ r')
      rw [hr digit (h ▸ hdigit)] at htrue
      cases htrue
  | cons c l ih =>
    rcases l' with _ | ⟨d, l'⟩
    · rw [List.flatMap_nil, List.nil_append, List.flatMap_cons, List.append_assoc] at h
      obtain ⟨digit, hdigit, htrue⟩ := isDigit_head?_word c (l.flatMap word ++ r)
      rw [hr' digit (h ▸ hdigit)] at htrue
      cases htrue
    · simp only [List.flatMap_cons, word, List.append_assoc] at h
      obtain ⟨rfl, htail⟩ := Numeral.repr_append_inj (by simp) (by simp) h
      obtain ⟨rfl, hrest⟩ := ih (List.append_cancel_left htail)
      exact ⟨rfl, hrest⟩

/-- The cluster whose link dangles can be put back. -/
theorem IsLegible.withSource_getLast? (h : chain.IsLegible) :
    chain.ending.withSource chain.clusters.getLast? = chain.ending := by
  rcases hend : chain.ending with _ | c | ⟨source, target⟩ | ⟨c, entry⟩ | c
  case dangling => rw [h.source_eq source target hend, ChainEnd.withSource]
  all_goals rfl

/-- The words tell the clusters of a chain and how it ended. -/
theorem IsLegible.parts_eq_of_text_eq (h : chain.IsLegible) (h' : chain'.IsLegible)
    (htext : chain.text = chain'.text) :
    chain.clusters = chain'.clusters ∧ chain.ending = chain'.ending := by
  have hinitial : ∀ how : ChainEnd, ∀ c ∈ how.text.toList.head?, c.isDigit = false := by
    intro how c hc
    rw [ChainEnd.head?_toList_text] at hc
    rw [← Option.some.inj hc]
    exact how.isDigit_initial
  rw [← String.toList_inj, toList_text, toList_text] at htext
  obtain ⟨hclusters, hend⟩ := flatMap_word_append_inj (hinitial _) (hinitial _) htext
  refine ⟨hclusters, ?_⟩
  calc chain.ending = chain.ending.withSource chain.clusters.getLast? :=
        h.withSource_getLast?.symm
    _ = chain'.ending.withSource chain.clusters.getLast? :=
        ChainEnd.withSource_eq_of_text_eq h.entry_eq h'.entry_eq (String.toList_inj.1 hend) _
    _ = chain'.ending := by rw [hclusters, h'.withSource_getLast?]

/-- Legible chains are the same if they have the same start and the same words. -/
theorem IsLegible.eq_of_text_eq (h : chain.IsLegible) (h' : chain'.IsLegible)
    (hstart : chain.start = chain'.start) (htext : chain.text = chain'.text) : chain = chain' := by
  obtain ⟨hclusters, hending⟩ := h.parts_eq_of_text_eq h' htext
  obtain ⟨start, clusters, ending⟩ := chain
  obtain ⟨start', clusters', ending'⟩ := chain'
  rw [Chain.mk.injEq]
  exact ⟨hstart, hclusters, hending⟩

end Chain

namespace Table

variable {t t' : Table} {chain chain' : Chain}

/-- **Chains can be read.** Chains from tables are the same if they have the same words, whichever
tables they are from and whether they have been resolved or claimed. -/
theorem Gives.chain_eq_of_text_eq (h : t.Gives chain) (h' : t'.Gives chain')
    (htext : chain.text = chain'.text) : chain = chain' := by
  obtain ⟨hclusters, hending⟩ := h.isLegible.parts_eq_of_text_eq h'.isLegible htext
  have horigin : chain.origin = chain'.origin := by
    rw [Chain.origin, Chain.origin, hclusters, hending]
  have hstart : chain.start = chain'.start := by
    rw [← Option.some_inj, ← h.origin_eq, ← h'.origin_eq, horigin]
  exact h.isLegible.eq_of_text_eq h'.isLegible hstart htext

/-- A table where the link of `6` leads out of it, as in `sample`. -/
def longSample : Table where
  bytes := #[0, 0, 0, 0, 0, 0, 0, 0, 0, 0, 0, 0, 9, 0, 6, 0, 0]

theorem sample_chain_eq_of_text_eq :
    (sample.resolve 6).text = "6 -> Dangling reference (9)" ∧
    (longSample.claim 6 (.empty 8)).1.text = "6 -> Dangling reference (9)" ∧
    sample.resolve 6 = (longSample.claim 6 (.empty 8)).1 := by
  have h : (sample.resolve 6).text = "6 -> Dangling reference (9)" := by decide +kernel
  have h' : (longSample.claim 6 (.empty 8)).1.text = "6 -> Dangling reference (9)" := by
    decide +kernel
  exact ⟨h, h', Gives.chain_eq_of_text_eq (.resolved 6) (.claimed 6 (.empty 8)) (h.trans h'.symm)⟩

/-- Chains that are from no table can have the same words. -/
example : (⟨2, [2], .dangling (some 2) 9⟩ : Chain).text = (⟨2, [2], .dangling none 9⟩ : Chain).text :=
  rfl

end Table

end Fat16
