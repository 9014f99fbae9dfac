import Mathlib.Data.Finset.Card
import Mathlib.Data.Finset.Dedup
import Mathlib.Data.Nat.Bitwise
import Fat16.Proofs.ClusterSet

/-!
# Sets after many calls

A set is filled by calls, each of which records a number. What it is after them does not depend on
its bitmap: it represents a finite set of numbers (`ClusterSet.Represents`), which one call changes
by at most one member. So after any calls the members are the numbers recorded, without those beyond
the capacity, and the size is how many of these there are.

The operations on bitmaps are total here, while a machine can look at a byte only where there is
one. `ClusterSet.contains?` and `ClusterSet.insert?` are the operations as a machine has them, with
a byte and a mask to find a number by, an answer to every call, and no result at all where a byte is
missing. None ever is: they have the results of the total ones (`ClusterSet.insert?_eq`).
-/

namespace Fat16.ClusterSet

variable {s : ClusterSet} {c d capacity : ℕ} {members : Finset ℕ} {calls : List ℕ}

/-! ## Bytes and masks -/

/-- The bit of a number in its byte. -/
def mask (c : ℕ) : UInt8 := 1 <<< UInt8.ofNat (c % 8)

theorem toNat_mask (c : ℕ) : (mask c).toNat = 2 ^ (c % 8) := by
  have hlt : c % 8 < 8 := Nat.mod_lt c (by decide)
  have hpow : 2 ^ (c % 8) < 2 ^ 8 := Nat.pow_lt_pow_right (by decide) hlt
  have hshift : (UInt8.ofNat (c % 8)).toNat = c % 8 :=
    UInt8.toNat_ofNat_of_lt' (hlt.trans (by decide))
  rw [mask, UInt8.toNat_shiftLeft, hshift, Nat.mod_eq_of_lt hlt, UInt8.toNat_one,
    Nat.one_shiftLeft, Nat.mod_eq_of_lt hpow]

/-- A byte and a mask have nothing in common where the bit is not set. -/
theorem and_mask_eq_zero_iff (b : UInt8) (c : ℕ) :
    b &&& mask c = 0 ↔ b.toNat.testBit (c % 8) = false := by
  rw [← UInt8.toNat_inj, UInt8.toNat_and, toNat_mask, Nat.and_two_pow, UInt8.toNat_zero]
  simp

/-- A bit that is set can be set again. -/
theorem or_mask_of_testBit {b : UInt8} (h : b.toNat.testBit (c % 8) = true) :
    b ||| mask c = b := by
  rw [← UInt8.toNat_inj, UInt8.toNat_or, toNat_mask]
  refine Nat.eq_of_testBit_eq fun i ↦ ?_
  rw [Nat.testBit_or, Nat.testBit_two_pow]
  by_cases hi : c % 8 = i
  · rw [← hi, h, Bool.true_or]
  · rw [decide_eq_false hi, Bool.or_false]

/-! ## Operations that look at bytes -/

/-- Whether `c` is in the set, if the bitmap has the byte that tells. -/
def contains? (s : ClusterSet) (c : ℕ) : Option Bool :=
  if c < s.capacity then s.bitmap[c / 8]?.map fun b ↦ b &&& mask c != 0 else some false

/-- The set with its byte number `i` replaced. -/
def setByte (s : ClusterSet) (i : ℕ) (b : UInt8) : ClusterSet where
  capacity := s.capacity
  bitmap := s.bitmap.setIfInBounds i b
  size_bitmap := by rw [Array.size_setIfInBounds, s.size_bitmap]

/-- Records `c` and answers whether it was not recorded before, if the bitmap has the byte to record
it in. -/
def insert? (s : ClusterSet) (c : ℕ) : Option (Bool × ClusterSet) :=
  if c < s.capacity then
    s.bitmap[c / 8]?.map fun b ↦
      if b &&& mask c = 0 then (true, s.setByte (c / 8) (b ||| mask c)) else (false, s)
  else some (false, s)

/-- The bitmap has a byte for every number in range, and it tells whether the number is a member. -/
theorem exists_byte (h : c < s.capacity) :
    ∃ b, s.bitmap[c / 8]? = some b ∧ s.contains c = b.toNat.testBit (c % 8) := by
  have hlt : c / 8 < s.bitmap.size := by
    rw [s.size_bitmap]
    omega
  refine ⟨s.bitmap[c / 8], Array.getElem?_eq_getElem hlt, ?_⟩
  rw [contains, decide_eq_true h, Bool.true_and, Array.getD_eq_getD_getElem?,
    Array.getElem?_eq_getElem hlt, Option.getD_some]

/-- Recording a number replaces one byte. -/
theorem insert_eq_setByte {b : UInt8} (h : c < s.capacity) (hb : s.bitmap[c / 8]? = some b) :
    s.insert c = s.setByte (c / 8) (b ||| mask c) := by
  simp only [insert, if_pos h, setByte, mk.injEq, true_and]
  refine Array.ext_getElem? fun i ↦ ?_
  rw [Array.getElem?_modify, Array.getElem?_setIfInBounds]
  by_cases hi : c / 8 = i
  · have hlt : c / 8 < s.bitmap.size := (Array.getElem?_eq_some_iff.1 hb).1
    rw [if_pos hi, if_pos hi, if_pos hlt, ← hi, hb, Option.map_some, mask]
  · rw [if_neg hi, if_neg hi]

theorem setByte_self {i : ℕ} {b : UInt8} (h : s.bitmap[i]? = some b) : s.setByte i b = s := by
  obtain ⟨hlt, rfl⟩ := Array.getElem?_eq_some_iff.1 h
  simp only [setByte, Array.setIfInBounds_def, dif_pos hlt, Array.set_getElem_self]

/-- A member is not recorded again. -/
theorem insert_of_contains (h : s.contains c = true) : s.insert c = s := by
  have hlt : c < s.capacity := by
    rw [contains, Bool.and_eq_true, decide_eq_true_iff] at h
    exact h.1
  obtain ⟨b, hb, hcontains⟩ := exists_byte hlt
  rw [insert_eq_setByte hlt hb, or_mask_of_testBit (hcontains ▸ h), setByte_self hb]

theorem contains?_eq (s : ClusterSet) (c : ℕ) : s.contains? c = some (s.contains c) := by
  rw [contains?]
  split
  · next h =>
    obtain ⟨b, hb, hcontains⟩ := exists_byte h
    rw [hb, hcontains, Option.map_some, Option.some_inj, Bool.eq_iff_iff, bne_iff_ne, ne_eq,
      and_mask_eq_zero_iff, Bool.not_eq_false]
  · next h =>
    rw [contains, decide_eq_false h, Bool.false_and]

/-- Recording a number is answered by whether the set has admitted it. -/
theorem insert?_eq (s : ClusterSet) (c : ℕ) : s.insert? c = some (s.admits c, s.insert c) := by
  rw [insert?]
  split
  · next h =>
    obtain ⟨b, hb, hcontains⟩ := exists_byte h
    rw [hb, Option.map_some, Option.some_inj, admits, decide_eq_true h, Bool.true_and]
    split
    · next hbit =>
      rw [insert_eq_setByte h hb, hcontains, (and_mask_eq_zero_iff b c).1 hbit, Bool.not_false]
    · next hbit =>
      rw [and_mask_eq_zero_iff, Bool.not_eq_false, ← hcontains] at hbit
      rw [insert_of_contains hbit, hbit, Bool.not_true]
  · next h =>
    rw [admits, decide_eq_false h, Bool.false_and, insert, if_neg h]

/-! ## What a set represents -/

/-- The set has the members of a finite set, and as many as that. -/
structure Represents (s : ClusterSet) (members : Finset ℕ) : Prop where
  /-- The members are the same. -/
  contains_iff : ∀ c, s.contains c = true ↔ c ∈ members
  /-- The bits that are set are as many as the members. -/
  size_eq : s.size = members.card

theorem represents_empty (capacity : ℕ) : (empty capacity).Represents ∅ where
  contains_iff := by simp
  size_eq := by rw [size_empty, Finset.card_empty]

/-- Recording a number in range adds it to what the set represents. -/
theorem Represents.insert (h : s.Represents members) (hc : c < s.capacity) :
    (s.insert c).Represents (Insert.insert c members) := by
  by_cases hmem : c ∈ members
  · rwa [insert_of_contains ((h.contains_iff c).2 hmem), Finset.insert_eq_of_mem hmem]
  · have hadmits : s.admits c = true := by
      rw [admits_iff, ← Bool.not_eq_true, h.contains_iff]
      exact ⟨hc, hmem⟩
    constructor
    · intro d
      have hrange : d < s.capacity ∧ c = d ↔ d = c := by
        constructor
        · exact fun hd ↦ hd.2.symm
        · rintro rfl
          exact ⟨hc, rfl⟩
      rw [contains_insert, Bool.or_eq_true, Bool.and_eq_true, decide_eq_true_iff,
        decide_eq_true_iff, hrange, h.contains_iff, Finset.mem_insert, or_comm]
    · rw [size_insert_of_admits hadmits, h.size_eq, Finset.card_insert_of_notMem hmem]

/-! ## Calls -/

/-- The set that calls to record numbers leave behind. -/
def ofCalls (capacity : ℕ) (calls : List ℕ) : ClusterSet := calls.foldl insert (empty capacity)

/-- The numbers among those of the calls that are in range. -/
def recorded (capacity : ℕ) (calls : List ℕ) : Finset ℕ := calls.toFinset.filter (· < capacity)

theorem mem_recorded_iff : c ∈ recorded capacity calls ↔ c ∈ calls ∧ c < capacity := by
  rw [recorded, Finset.mem_filter, List.mem_toFinset]

theorem card_recorded_le (capacity : ℕ) (calls : List ℕ) :
    (recorded capacity calls).card ≤ capacity := by
  refine (Finset.card_le_card fun c hc ↦ ?_).trans_eq (Finset.card_range capacity)
  exact Finset.mem_range.2 (mem_recorded_iff.1 hc).2

theorem ofCalls_append_singleton (capacity : ℕ) (calls : List ℕ) (c : ℕ) :
    ofCalls capacity (calls ++ [c]) = (ofCalls capacity calls).insert c := by
  rw [ofCalls, ofCalls, List.foldl_append, List.foldl_cons, List.foldl_nil]

theorem capacity_ofCalls (capacity : ℕ) (calls : List ℕ) :
    (ofCalls capacity calls).capacity = capacity := capacity_foldl_insert calls (empty capacity)

/-- One more call records its number if it is in range. -/
theorem recorded_append_singleton (capacity : ℕ) (calls : List ℕ) (c : ℕ) :
    recorded capacity (calls ++ [c]) =
      if c < capacity then Insert.insert c (recorded capacity calls)
      else recorded capacity calls := by
  rw [recorded, List.toFinset_append, Finset.union_comm, List.toFinset_cons, List.toFinset_nil,
    insert_empty_eq, Finset.singleton_union, Finset.filter_insert]
  rfl

/-- The set represents the numbers of the calls that are in range. -/
theorem represents_ofCalls (capacity : ℕ) (calls : List ℕ) :
    (ofCalls capacity calls).Represents (recorded capacity calls) := by
  -- from the end, since the last call finds the set that those before it have left
  induction calls using List.reverseRecOn with
  | nil => exact represents_empty capacity
  | append_singleton calls c ih =>
    have hcapacity := capacity_ofCalls capacity calls
    rw [ofCalls_append_singleton, recorded_append_singleton]
    split
    · next hc => exact ih.insert (by rwa [hcapacity])
    · next hc => rwa [ClusterSet.insert, if_neg (by rwa [hcapacity])]

/-- **Bounded sets.** After any calls the members are the numbers of the calls that are in range,
and the size is how many of these there are, so no more than the capacity. The next call is answered
by whether its number is in range and new, and changes the set in no other number. A machine never
looks at a byte that is not there, and has the same results. -/
theorem ofCalls_bounded (capacity : ℕ) (calls : List ℕ) :
    (∀ c, (ofCalls capacity calls).contains c = true ↔ c ∈ calls ∧ c < capacity) ∧
    (∀ c, (ofCalls capacity calls).admits c = true ↔ c ∉ calls ∧ c < capacity) ∧
    (∀ c d, d ≠ c → ((ofCalls capacity calls).insert c).contains d =
      (ofCalls capacity calls).contains d) ∧
    (ofCalls capacity calls).size = (calls.toFinset.filter (· < capacity)).card ∧
    (ofCalls capacity calls).size ≤ capacity ∧
    ((ofCalls capacity calls).isEmpty = true ↔ (ofCalls capacity calls).size = 0) ∧
    (∀ c, (ofCalls capacity calls).contains? c = some ((ofCalls capacity calls).contains c)) ∧
    ∀ c, (ofCalls capacity calls).insert? c =
      some ((ofCalls capacity calls).admits c, (ofCalls capacity calls).insert c) := by
  have h := represents_ofCalls capacity calls
  refine ⟨fun c ↦ (h.contains_iff c).trans mem_recorded_iff, fun c ↦ ?_, fun c d hd ↦ ?_, h.size_eq,
    h.size_eq.trans_le (card_recorded_le capacity calls), beq_iff_eq, contains?_eq _, insert?_eq _⟩
  · rw [admits_iff, capacity_ofCalls, ← Bool.not_eq_true, h.contains_iff, mem_recorded_iff]
    constructor
    · rintro ⟨hc, hnew⟩
      exact ⟨fun hmem ↦ hnew ⟨hmem, hc⟩, hc⟩
    · rintro ⟨hnew, hc⟩
      exact ⟨hc, fun hmem ↦ hnew hmem.1⟩
  · rw [contains_insert, decide_eq_false hd.symm, Bool.and_false, Bool.or_false]

/-- Ten numbers take two bytes, and six bits of the second belong to none of them. -/
theorem ofCalls_ten_bounded :
    9 ≠ 3 ∧ ((ofCalls 10 [2, 9, 2, 10]).insert 3).contains 9 = true ∧
    (ofCalls 10 [2, 9, 2, 10]).size = 2 ∧
    (ofCalls 10 [2, 9, 2, 10]).insert? 10 = some (false, ofCalls 10 [2, 9, 2, 10]) := by
  obtain ⟨hcontains, -, hother, hsize, -, -, -, hcall⟩ := ofCalls_bounded 10 [2, 9, 2, 10]
  refine ⟨by decide, ?_, ?_, ?_⟩
  · rw [hother 3 9 (by decide), hcontains]
    decide
  · rw [hsize]
    rfl
  · rw [hcall 10]
    rfl

end Fat16.ClusterSet
