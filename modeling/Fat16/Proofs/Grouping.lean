import Fat16.Proofs.ByteSize

/-!
# Counts that are read

A count is written with spaces between its digits. The digits are gone through from the first to the
last, but where the spaces go is decided from the last: in front of as many digits as a number of
whole groups has. What comes out is seen best where it is split at the spaces again. The groups have
three digits each, only the first may have less, and its length is what the number of all digits
leaves over (`Quantity.exists_splitOn_groupDigits`).

No group is empty, so no space is at either end or beside another (`Quantity.count_grouped`).
-/

namespace Fat16.Quantity

variable {digits before after : List Char} {c : Char}

/-! ## Splitting at spaces -/

theorem splitOn_cons_of_ne (h : c ≠ ' ') (l : List Char) :
    (c :: l).splitOn ' ' = (l.splitOn ' ').modifyHead (c :: ·) := by
  rw [List.splitOn_cons_eq_if_modifyHead, beq_eq_false_iff_ne.2 h, if_neg Bool.false_ne_true]

/-- Where no part is empty, every space has something else on both sides. -/
theorem exists_beside_space (h : [] ∉ (before ++ ' ' :: after).splitOn ' ') :
    (∃ c ∈ before.getLast?, c ≠ ' ') ∧ ∃ c ∈ after.head?, c ≠ ' ' := by
  rw [List.splitOn_append_cons_self, List.mem_append, not_or] at h
  obtain ⟨hbefore, hafter⟩ := h
  constructor
  · rcases List.eq_nil_or_concat before with rfl | ⟨before, c, rfl⟩
    · simp at hbefore
    · refine ⟨c, by simp, ?_⟩
      rintro rfl
      rw [List.concat_eq_append, List.splitOn_append_cons_self] at hbefore
      simp at hbefore
  · rcases after with _ | ⟨c, after⟩
    · simp at hafter
    · refine ⟨c, rfl, ?_⟩
      rintro rfl
      rw [← List.nil_append (' ' :: after), List.splitOn_append_cons_self] at hafter
      simp at hafter

/-! ## Groups -/

/-- The groups have three digits each. Only the first may have less, and its length is what the
number of digits leaves over. -/
theorem exists_splitOn_groupDigits (hne : digits ≠ []) (hdigits : ' ' ∉ digits) :
    ∃ first rest, (groupDigits digits).splitOn ' ' = first :: rest ∧
      (first :: rest).flatten = digits ∧ 1 ≤ first.length ∧ first.length ≤ 3 ∧
      first.length % 3 = digits.length % 3 ∧ ∀ group ∈ rest, group.length = 3 := by
  induction digits with
  | nil => exact absurd rfl hne
  | cons digit digits ih =>
    rw [List.mem_cons, not_or] at hdigits
    have hdigit : digit ≠ ' ' := Ne.symm hdigits.1
    rw [groupDigits]
    by_cases hlast : digits = []
    · subst hlast
      refine ⟨[digit], [], ?_, by simp⟩
      simp [groupDigits, splitOn_cons_of_ne hdigit]
    · obtain ⟨first, rest, hsplit, hflatten, hpos, hle, hmod, hrest⟩ := ih hlast hdigits.2
      split
      · next h =>
        -- whole groups follow, so the first of them is whole too
        refine ⟨[digit], first :: rest, ?_, ?_, by simp, by simp, ?_, ?_⟩
        · have hspace := List.splitOn_append_cons_self (a := ' ') [digit] (groupDigits digits)
          simpa [splitOn_cons_of_ne hdigit, hsplit] using hspace
        · rw [List.flatten_cons, hflatten, List.singleton_append]
        · rw [List.length_cons, List.length_cons, List.length_nil]
          omega
        · rw [List.forall_mem_cons]
          exact ⟨by omega, hrest⟩
      · next h =>
        -- the first group is not whole yet
        have hpartial : digits.length % 3 ≠ 0 := fun hzero ↦ h ⟨hlast, hzero⟩
        refine ⟨digit :: first, rest, ?_, ?_, by simp, ?_, ?_, hrest⟩
        · rw [splitOn_cons_of_ne hdigit, hsplit, List.modifyHead_cons]
        · rw [← hflatten, List.flatten_cons, List.flatten_cons, List.cons_append]
        · rw [List.length_cons]
          omega
        · rw [List.length_cons, List.length_cons]
          omega

/-! ## Counts -/

theorem filter_count (n : ℕ) : (count n).toList.filter (· != ' ') = Nat.toDigits 10 n := by
  rw [count, String.toList_ofList, filter_groupDigits,
    filter_of_isDigit (isDigit_of_mem_toDigits n)]

/-- A count has nothing but digits and spaces. -/
theorem isDigit_of_mem_count (n : ℕ) (h : c ∈ (count n).toList) (hc : c ≠ ' ') :
    c.isDigit = true := by
  have hmem : c ∈ (count n).toList.filter (· != ' ') := List.mem_filter.2 ⟨h, bne_iff_ne.2 hc⟩
  rw [filter_count] at hmem
  exact isDigit_of_mem_toDigits n c hmem

theorem exists_splitOn_count (n : ℕ) :
    ∃ first rest, (count n).toList.splitOn ' ' = first :: rest ∧
      (first :: rest).flatten = Nat.toDigits 10 n ∧ 1 ≤ first.length ∧ first.length ≤ 3 ∧
      ∀ group ∈ rest, group.length = 3 := by
  have hspace : ' ' ∉ Nat.toDigits 10 n := fun hmem ↦
    absurd (isDigit_of_mem_toDigits n ' ' hmem) (by decide)
  obtain ⟨first, rest, hsplit, hflatten, hpos, hle, -, hrest⟩ :=
    exists_splitOn_groupDigits Nat.toDigits_ne_nil hspace
  exact ⟨first, rest, by rwa [count, String.toList_ofList], hflatten, hpos, hle, hrest⟩

/-- No group of a count is empty. -/
theorem nil_notMem_splitOn_count (n : ℕ) : [] ∉ (count n).toList.splitOn ' ' := by
  obtain ⟨first, rest, hsplit, -, hpos, -, hrest⟩ := exists_splitOn_count n
  rw [hsplit, List.mem_cons, not_or]
  constructor
  · rintro rfl
    simp at hpos
  · exact fun hmem ↦ absurd (hrest [] hmem) (by decide)

/-- **Counts are grouped.** Without its spaces a count is the decimal numeral of the number. The
spaces part it into groups of three digits, and a first one of one to three. Each space has a digit
on both sides, so none is at an end of the text or beside another. -/
theorem count_grouped (n : ℕ) :
    String.ofList ((count n).toList.filter (· != ' ')) = toString n ∧
    (∃ first rest, (count n).toList.splitOn ' ' = first :: rest ∧
      1 ≤ first.length ∧ first.length ≤ 3 ∧ (∀ group ∈ rest, group.length = 3) ∧
      ∀ group ∈ first :: rest, ∀ c ∈ group, c.isDigit = true) ∧
    ∀ before after, (count n).toList = before ++ ' ' :: after →
      (∃ c ∈ before.getLast?, c.isDigit = true) ∧ ∃ c ∈ after.head?, c.isDigit = true := by
  refine ⟨?_, ?_, fun before after htext ↦ ?_⟩
  · rw [filter_count]
    rfl
  · obtain ⟨first, rest, hsplit, hflatten, hpos, hle, hrest⟩ := exists_splitOn_count n
    refine ⟨first, rest, hsplit, hpos, hle, hrest, fun group hgroup c hc ↦ ?_⟩
    exact isDigit_of_mem_toDigits n c (hflatten ▸ List.mem_flatten_of_mem hgroup hc)
  · have hparts := htext ▸ nil_notMem_splitOn_count n
    obtain ⟨⟨c, hc, hne⟩, d, hd, hne'⟩ := exists_beside_space hparts
    refine ⟨⟨c, hc, isDigit_of_mem_count n ?_ hne⟩, d, hd, isDigit_of_mem_count n ?_ hne'⟩
    · rw [htext]
      exact List.mem_append_left _ (List.mem_of_getLast? hc)
    · rw [htext]
      exact List.mem_append_right _ (List.mem_cons_of_mem _ (List.mem_of_head? hd))

/-- Two digits in the first group, and two spaces. -/
theorem count_12345678_grouped :
    (count 12345678).toList = "12 345".toList ++ ' ' :: "678".toList ∧
    (∃ c ∈ "12 345".toList.getLast?, c.isDigit = true) ∧
    ∃ c ∈ "678".toList.head?, c.isDigit = true := by
  have htext : (count 12345678).toList = "12 345".toList ++ ' ' :: "678".toList := rfl
  exact ⟨htext, (count_grouped 12345678).2.2 _ _ htext⟩

end Fat16.Quantity
