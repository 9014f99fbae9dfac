import Fat16.Proofs.Layout
import Fat16.Table

/-!
# Stored tables

A table is written as its numbers one after another, and a byte that is left over may follow them.
Every run of bytes is such a table (`Table.exists_eq_encode`), so what is said of written tables is
said of all of them.

What is written is read back (`Table.lookups_encode`). The number at an index is the one in this
place of the list, as long as clusters can be numbered that far; an index past the last entry is
refused with the number of entries, whether the table ends there or only the numbering. The byte
left over is never read.
-/

namespace Fat16

/-! ## What a number says -/

namespace TableEntry

variable {w : UInt16}

theorem ofRaw_of_le (h : 0xFFF8 ≤ w) : ofRaw w = .endOfChain w := by
  have hne : w ≠ 0 := by
    rintro rfl
    exact absurd h (by decide)
  rw [ofRaw, if_neg hne, if_pos h]

theorem ofRaw_of_lt (hne : w ≠ 0) (h : w < 0xFFF8) : ofRaw w = .pointer w.toNat := by
  rw [ofRaw, if_neg hne, if_neg (UInt16.not_le.2 h)]

end TableEntry

namespace Table

variable {t : Table} {words : List UInt16} {tail : Option UInt8} {w : UInt16} {i : Nat}

/-- The stored form of a list of numbers, with a byte left over or without one. -/
def encode (words : List UInt16) (tail : Option UInt8) : Table where
  bytes := .concat (words.map Bytes.ofWord16) ++ tail.toArray

/-! ## Writing -/

theorem size_of_mem_map_ofWord16 : ∀ part ∈ words.map Bytes.ofWord16, part.size = 2 := by
  intro part hpart
  obtain ⟨w, -, rfl⟩ := List.mem_map.1 hpart
  exact Bytes.size_ofWord16 w

theorem size_concat_ofWord16 (words : List UInt16) :
    (Bytes.concat (words.map Bytes.ofWord16)).size = 2 * words.length := by
  rw [Bytes.size_concat_of_size_eq size_of_mem_map_ofWord16, List.length_map]

theorem entryCount_encode (words : List UInt16) (tail : Option UInt8) :
    (encode words tail).entryCount = min words.length maxEntries := by
  have htail : tail.toArray.size ≤ 1 := by
    cases tail with
    | none => exact Nat.zero_le 1
    | some b => exact Nat.le_refl 1
  rw [entryCount, encode, Array.size_append, size_concat_ofWord16]
  omega

theorem word16_encode (tail : Option UInt8) (h : words[i]? = some w) :
    (encode words tail).bytes.word16 (2 * i) = w := by
  obtain ⟨hi, -⟩ := List.getElem?_eq_some_iff.1 h
  have hwindow : (Bytes.concat (words.map Bytes.ofWord16)).window (2 * i) 2 = .ofWord16 w := by
    apply Bytes.window_concat_of_size_eq size_of_mem_map_ofWord16
    rw [List.getElem?_map, h, Option.map_some]
  -- the window is not cut, so the byte left over does not change it
  rw [← Bytes.window_eq_ofWord16_iff, encode, Bytes.window_append, hwindow]
  · rw [hwindow, Bytes.size_ofWord16]
  · rw [encode, Array.size_append, size_concat_ofWord16]
    omega

theorem bytes_encode_cons (w : UInt16) (words : List UInt16) (tail : Option UInt8) :
    (encode (w :: words) tail).bytes = .ofWord16 w ++ (encode words tail).bytes := by
  rw [encode, encode, List.map_cons, Bytes.concat_cons, Array.append_assoc]

/-- Every table is the stored form of a list of numbers. -/
theorem exists_eq_encode (t : Table) : ∃ words tail, t = encode words tail := by
  obtain ⟨bytes⟩ := t
  suffices h : ∀ n (bytes : Bytes), bytes.size = n →
      ∃ words tail, bytes = (encode words tail).bytes by
    obtain ⟨words, tail, rfl⟩ := h bytes.size bytes rfl
    exact ⟨words, tail, rfl⟩
  intro n
  induction n using Nat.strongRecOn with
  | ind n ih =>
    rintro bytes rfl
    rcases Nat.lt_or_ge bytes.size 2 with hlt | hle
    · rcases Nat.le_one_iff_eq_zero_or_eq_one.1 (Nat.le_of_lt_succ hlt) with hsize | hsize
      · exact ⟨[], none, Array.eq_empty_of_size_eq_zero hsize⟩
      · obtain ⟨b, rfl⟩ := Array.size_eq_one_iff.1 hsize
        exact ⟨[], some b, rfl⟩
    · -- the first number, and what is written after it
      have hfirst : bytes.window 0 2 = .ofWord16 (bytes.word16 0) :=
        (Bytes.window_eq_ofWord16_iff hle).2 rfl
      have hsize : (bytes.window 2 (bytes.size - 2)).size < bytes.size := by
        rw [Bytes.size_window]
        omega
      obtain ⟨words, tail, hrest⟩ := ih _ hsize _ rfl
      refine ⟨bytes.word16 0 :: words, tail, ?_⟩
      calc bytes = bytes.window 0 (2 + (bytes.size - 2)) := by
            rw [Nat.add_sub_cancel' hle, Bytes.window_size]
        _ = .ofWord16 (bytes.word16 0) ++ (encode words tail).bytes := by
            rw [Bytes.window_add, hfirst, Nat.zero_add, hrest]
        _ = (encode (bytes.word16 0 :: words) tail).bytes := (bytes_encode_cons ..).symm

/-! ## Reading -/

theorem rawAt_of_le (h : t.entryCount ≤ i) : t.rawAt i = .error ⟨i, t.entryCount⟩ := by
  rw [rawAt, if_neg (Nat.not_lt.2 h)]

theorem entryAt_of_le (h : t.entryCount ≤ i) : t.entryAt i = .error ⟨i, t.entryCount⟩ := by
  rw [entryAt, rawAt_of_le h]
  rfl

theorem entryAt_of_lt_firstCluster (h : t.rawAt i = .ok w) (hi : i < firstCluster) :
    t.entryAt i = .ok (.reserved w) := by
  rw [entryAt, h, Except.map, if_pos hi]

theorem entryAt_of_firstCluster_le (h : t.rawAt i = .ok w) (hi : firstCluster ≤ i) :
    t.entryAt i = .ok (.ofRaw w) := by
  rw [entryAt, h, Except.map, if_neg (Nat.not_lt.2 hi)]

theorem rawAt_encode (tail : Option UInt8) (h : words[i]? = some w) (hi : i < maxEntries) :
    (encode words tail).rawAt i = .ok w := by
  obtain ⟨hlt, -⟩ := List.getElem?_eq_some_iff.1 h
  rw [rawAt, entryCount_encode, if_pos (Nat.lt_min.2 ⟨hlt, hi⟩), word16_encode tail h]

/-- An entry with a number is there exactly where the list has a number for it. -/
theorem toOption_rawAt_encode (words : List UInt16) (tail : Option UInt8) (hi : i < maxEntries) :
    ((encode words tail).rawAt i).toOption = words[i]? := by
  cases h : words[i]? with
  | some w => rw [rawAt_encode tail h hi, Except.toOption]
  | none =>
    have hle : (encode words tail).entryCount ≤ i := by
      rw [entryCount_encode]
      exact Nat.le_trans (Nat.min_le_left ..) (List.getElem?_eq_none_iff.1 h)
    rw [rawAt_of_le hle, Except.toOption]

/-- **Stored tables are read back.** A written table has as many entries as there are numbers, up to
65536 of them. At each of these the number in this place of the list is found, and it says what it
says at a cluster, or is kept as it is before the first one. Every other index is refused with the
number of entries. The media identifier and the end-of-chain mark are the first two numbers, or zero
where there are none. And every table can be written so. -/
theorem lookups_encode (words : List UInt16) (tail : Option UInt8) :
    (encode words tail).entryCount = min words.length 65536 ∧
    (∀ i w, words[i]? = some w → i < 65536 →
      (encode words tail).rawAt i = .ok w ∧
      (i < 2 → (encode words tail).entryAt i = .ok (.reserved w)) ∧
      (2 ≤ i → w = 0 → (encode words tail).entryAt i = .ok .free) ∧
      (2 ≤ i → 0xFFF8 ≤ w → (encode words tail).entryAt i = .ok (.endOfChain w)) ∧
      (2 ≤ i → w ≠ 0 → w < 0xFFF8 → (encode words tail).entryAt i = .ok (.pointer w.toNat))) ∧
    (∀ i, min words.length 65536 ≤ i →
      (encode words tail).rawAt i = .error ⟨i, min words.length 65536⟩ ∧
      (encode words tail).entryAt i = .error ⟨i, min words.length 65536⟩) ∧
    (encode words tail).mediaId = words[0]?.getD 0 ∧
    (encode words tail).endMark = words[1]?.getD 0 ∧
    ∀ t : Table, ∃ words tail, t = encode words tail := by
  have hcount := entryCount_encode words tail
  refine ⟨hcount, fun i w hw hi ↦ ?_, fun i hi ↦ ?_, ?_, ?_, exists_eq_encode⟩
  · have hraw := rawAt_encode tail hw hi
    have hcluster : 2 ≤ i → (encode words tail).entryAt i = .ok (.ofRaw w) :=
      entryAt_of_firstCluster_le hraw
    refine ⟨hraw, entryAt_of_lt_firstCluster hraw, ?_, ?_, ?_⟩
    · rintro hle rfl
      exact hcluster hle
    · intro hle hend
      rw [hcluster hle, TableEntry.ofRaw_of_le hend]
    · intro hle hne hlt
      rw [hcluster hle, TableEntry.ofRaw_of_lt hne hlt]
  · have hle : (encode words tail).entryCount ≤ i := hcount ▸ hi
    rw [rawAt_of_le hle, entryAt_of_le hle, hcount]
    exact ⟨rfl, rfl⟩
  · rw [mediaId, toOption_rawAt_encode words tail (by decide)]
  · rw [endMark, toOption_rawAt_encode words tail (by decide)]

/-- Two entries before the first cluster, a free cluster, a linked one and an end of a chain. -/
def sampleWords : List UInt16 := [0xFFF8, 0xFFFF, 0, 3, 0xFFF8]

/-- The sample with a byte left over, and a table with one number more than can be numbered. -/
theorem sampleWords_lookups_encode :
    (encode sampleWords (some 7)).entryAt 1 = .ok (.reserved 0xFFFF) ∧
    (encode sampleWords (some 7)).entryAt 2 = .ok .free ∧
    (encode sampleWords (some 7)).entryAt 3 = .ok (.pointer 3) ∧
    (encode sampleWords (some 7)).entryAt 4 = .ok (.endOfChain 0xFFF8) ∧
    (encode sampleWords (some 7)).entryAt 5 = .error ⟨5, 5⟩ ∧
    (encode (.replicate 65537 9) none).rawAt 65535 = .ok 9 ∧
    (encode (.replicate 65537 9) none).rawAt 65536 = .error ⟨65536, 65536⟩ := by
  obtain ⟨-, hread, hrefused, -⟩ := lookups_encode sampleWords (some 7)
  obtain ⟨-, hlong, hnone, -⟩ := lookups_encode (.replicate 65537 9) none
  obtain ⟨-, hreserved, -⟩ := hread 1 0xFFFF rfl (by decide)
  obtain ⟨-, -, hfree, -⟩ := hread 2 0 rfl (by decide)
  obtain ⟨-, -, -, -, hpointer⟩ := hread 3 3 rfl (by decide)
  obtain ⟨-, -, -, hend, -⟩ := hread 4 0xFFF8 rfl (by decide)
  have hlast : (List.replicate 65537 (9 : UInt16))[65535]? = some 9 :=
    List.getElem?_replicate_of_lt (by decide)
  have hmin : min (List.replicate 65537 (9 : UInt16)).length 65536 = 65536 := by
    rw [List.length_replicate]
    decide
  rw [hmin] at hnone
  exact ⟨hreserved (by decide), hfree (by decide) rfl, hpointer (by decide) (by decide) (by decide),
    hend (by decide) (by decide), (hrefused 5 (by decide)).2, (hlong 65535 9 hlast (by decide)).1,
    (hnone 65536 (by decide)).1⟩

end Table

end Fat16
