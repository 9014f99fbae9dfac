/-!
# Bounded sets of cluster numbers

A set of numbers below a fixed capacity, kept as a bitmap with eight members to a byte, the least
significant bit first. Every traversal of links stored in an image records the clusters it has
reached in such a set and goes on only to a cluster that the set still `admits`. This is what
bounds it: `ClusterSet.vacant` counts the numbers not yet recorded, and recording an admitted one
leaves fewer (`vacant_insert_lt`).

`contains_insert` is the view through which everything else sees the bitmap.
-/

namespace Fat16

/-- A set of numbers below `capacity`. -/
structure ClusterSet where
  /-- Only numbers below the capacity can be members. -/
  capacity : Nat
  /-- Bit `c % 8` of byte `c / 8` tells whether `c` is a member. -/
  bitmap : Array UInt8
  /-- The bitmap has a bit for every number below the capacity. -/
  size_bitmap : bitmap.size = (capacity + 7) / 8

namespace ClusterSet

/-- The empty set of the given capacity. -/
def empty (capacity : Nat) : ClusterSet where
  capacity := capacity
  bitmap := .replicate ((capacity + 7) / 8) 0
  size_bitmap := Array.size_replicate

/-- Whether `c` is in the set. -/
def contains (s : ClusterSet) (c : Nat) : Bool :=
  decide (c < s.capacity) && (s.bitmap.getD (c / 8) 0).toNat.testBit (c % 8)

/-- Whether `c` can still be recorded: in range and not in the set. -/
def admits (s : ClusterSet) (c : Nat) : Bool := decide (c < s.capacity) && !s.contains c

/-- The set with `c` recorded; a number out of range is never recorded. -/
def insert (s : ClusterSet) (c : Nat) : ClusterSet :=
  if c < s.capacity then
    { s with
      bitmap := s.bitmap.modify (c / 8) (· ||| (1 : UInt8) <<< UInt8.ofNat (c % 8))
      size_bitmap := by rw [Array.size_modify, s.size_bitmap] }
  else s

/-- How many bits of a byte are set. -/
def bitCount (b : UInt8) : Nat := (List.range 8).countP b.toNat.testBit

/-- How many numbers are in the set. -/
def size (s : ClusterSet) : Nat := s.bitmap.foldl (fun n b ↦ n + bitCount b) 0

/-- Whether the set has no member. -/
def isEmpty (s : ClusterSet) : Bool := s.size == 0

/-- How many numbers below the capacity are not in the set. -/
def vacant (s : ClusterSet) : Nat := (List.range s.capacity).countP fun c ↦ !s.contains c

@[simp] theorem contains_empty (capacity c : Nat) : (empty capacity).contains c = false := by
  have h : (Array.replicate ((capacity + 7) / 8) (0 : UInt8)).getD (c / 8) 0 = 0 := by
    rw [Array.getD_eq_getD_getElem?, Array.getElem?_replicate]
    split <;> rfl
  simp [contains, empty, h]

@[simp] theorem capacity_insert (s : ClusterSet) (c : Nat) :
    (s.insert c).capacity = s.capacity := by
  unfold insert
  split <;> rfl

theorem admits_iff {s : ClusterSet} {c : Nat} :
    s.admits c = true ↔ c < s.capacity ∧ s.contains c = false := by
  simp [admits]

/-- Setting one bit of a byte changes that bit and no other. -/
theorem testBit_setBit (b : UInt8) {i j : Nat} (hi : i < 8) (hj : j < 8) :
    (b ||| 1 <<< UInt8.ofNat i).toNat.testBit j = (b.toNat.testBit j || decide (i = j)) := by
  have hi' : (UInt8.ofNat i).toNat = i := by rw [UInt8.toNat_ofNat']; omega
  rw [UInt8.toNat_or, Nat.testBit_or, UInt8.toNat_shiftLeft, hi', Nat.mod_eq_of_lt hi,
    Nat.testBit_mod_two_pow, Nat.testBit_shiftLeft]
  congr 1
  by_cases h : i = j
  · subst h; simp [hj]
  · by_cases h' : i ≤ j
    · have : (1 : Nat).testBit (j - i) = false := by
        obtain ⟨k, hk⟩ : ∃ k, j - i = k + 1 := ⟨j - i - 1, by omega⟩
        rw [hk, Nat.testBit_add_one]
        simp
      simp [h, this]
    · simp [h, h']

/-- Recording a number adds it, if it is in range, and nothing else. -/
theorem contains_insert (s : ClusterSet) (c d : Nat) :
    (s.insert c).contains d = (s.contains d || (decide (d < s.capacity) && decide (c = d))) := by
  unfold insert
  split
  case isFalse h =>
    by_cases hcd : c = d
    · subst hcd; simp [h]
    · simp [hcd]
  case isTrue h =>
    simp only [contains]
    by_cases hd : d < s.capacity
    · simp only [hd, decide_true, Bool.true_and]
      have hd8 : d / 8 < s.bitmap.size := by rw [s.size_bitmap]; omega
      rw [Array.getD_eq_getD_getElem?, Array.getD_eq_getD_getElem?, Array.getElem?_modify]
      by_cases hq : c / 8 = d / 8
      · rw [if_pos hq, Array.getElem?_eq_getElem hd8]
        simp only [Option.map_some, Option.getD_some]
        rw [testBit_setBit _ (Nat.mod_lt _ (by decide)) (Nat.mod_lt _ (by decide))]
        have : c % 8 = d % 8 ↔ c = d := by omega
        simp only [this]
      · have hcd : c ≠ d := fun h ↦ hq (by rw [h])
        simp [hq, hcd]
    · simp [hd]

theorem contains_insert_self {s : ClusterSet} {c : Nat} (h : c < s.capacity) :
    (s.insert c).contains c = true := by
  simp [contains_insert, h]

/-- Recording an admitted number leaves fewer to record. -/
theorem vacant_insert_lt {s : ClusterSet} {c : Nat} (h : s.admits c = true) :
    (s.insert c).vacant < s.vacant := by
  obtain ⟨hc, hs⟩ := admits_iff.1 h
  have hsplit : List.range s.capacity =
      List.range c ++ c :: (List.range (s.capacity - c - 1)).map (c + 1 + ·) := by
    have h1 : s.capacity = c + (1 + (s.capacity - c - 1)) := by omega
    conv => lhs; rw [h1, List.range_add, List.range_add]
    simp [List.map_map, Function.comp_def, Nat.add_assoc]
  rw [vacant, vacant, capacity_insert, hsplit, List.countP_append, List.countP_append,
    List.countP_cons, List.countP_cons, contains_insert_self hc, hs]
  have mono : ∀ l : List Nat, l.countP (fun d ↦ !(s.insert c).contains d) ≤
      l.countP (fun d ↦ !s.contains d) := fun l ↦ by
    refine List.countP_mono_left fun d _ hd ↦ ?_
    simp only [contains_insert, Bool.not_or, Bool.and_eq_true] at hd
    exact hd.1
  have h1 := mono (List.range c)
  have h2 := mono ((List.range (s.capacity - c - 1)).map (c + 1 + ·))
  simp only [Bool.not_true, Bool.not_false, Bool.false_eq_true, if_false, if_true]
  omega

end ClusterSet

end Fat16
