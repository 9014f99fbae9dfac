import Mathlib.Algebra.Order.Ring.Nat
import Mathlib.Data.List.Nodup
import Mathlib.Data.List.Perm.Basic
import Fat16.Proofs.Trail

/-!
# The size of a set

The size of a set is the number of bits that are set in its bitmap. Recording a number sets one bit
of one byte, and it is one more than before exactly where the set admits the number
(`ClusterSet.size_insert_of_admits`). This holds of any bitmap whatever, also of one with bits
beyond the capacity, since those are never set or unset.

Numbers can be recorded in any order (`ClusterSet.foldl_insert_congr`): not only the members of the
set that comes out are the same, but also its bitmap.
-/

namespace Fat16

/-- A predicate that comes to hold of one more element of a list counts one more. -/
theorem countP_or_eq_of_mem {l : List Nat} {i : Nat} {p : Nat → Bool} (hnodup : l.Nodup)
    (hi : i ∈ l) (hp : p i = false) :
    l.countP (fun j ↦ p j || decide (i = j)) = l.countP p + 1 := by
  obtain ⟨l₁, l₂, rfl⟩ := List.append_of_mem hi
  have hnot : i ∉ l₁ ++ l₂ := (List.nodup_cons.1 (List.nodup_middle.1 hnodup)).1
  have hsame : ∀ l' ⊆ l₁ ++ l₂, l'.countP (fun j ↦ p j || decide (i = j)) = l'.countP p := by
    intro l' hl'
    refine List.countP_congr fun j hj ↦ ?_
    have hne : i ≠ j := fun heq ↦ hnot (heq ▸ hl' hj)
    simp [hne]
  rw [List.countP_append, List.countP_append, hsame l₁ (List.subset_append_left l₁ l₂),
    List.countP_cons_of_pos (by simp), List.countP_cons_of_neg (by simp [hp]),
    hsame l₂ (List.subset_append_right l₁ l₂), Nat.add_assoc]

namespace ClusterSet

variable {s : ClusterSet} {c d : Nat}

/-! ## Size -/

/-- Setting a bit that is not set gives one more. -/
theorem bitCount_setBit {b : UInt8} {i : Nat} (hi : i < 8) (h : b.toNat.testBit i = false) :
    bitCount (b ||| 1 <<< UInt8.ofNat i) = bitCount b + 1 := by
  rw [bitCount, bitCount, ← countP_or_eq_of_mem List.nodup_range (List.mem_range.2 hi) h]
  exact List.countP_congr fun j hj ↦ by rw [testBit_setBit b hi (List.mem_range.1 hj)]

theorem size_eq_sum (s : ClusterSet) : s.size = (s.bitmap.toList.map bitCount).sum := by
  rw [size, ← Array.foldl_toList, List.sum_eq_foldl, List.foldl_map]

@[simp] theorem size_empty (capacity : Nat) : (empty capacity).size = 0 := by
  have hzero : bitCount 0 = 0 := by decide
  simp [size_eq_sum, empty, hzero]

/-- Recording an admitted number makes the set larger by one. -/
theorem size_insert_of_admits (h : s.admits c = true) : (s.insert c).size = s.size + 1 := by
  obtain ⟨hc, hcontains⟩ := admits_iff.1 h
  have hlt : c / 8 < s.bitmap.toList.length := by
    rw [Array.length_toList, s.size_bitmap]
    omega
  obtain ⟨before, b, after, hl, hlength, hmodify⟩ := List.exists_of_modify
    (· ||| (1 : UInt8) <<< UInt8.ofNat (c % 8)) hlt
  have hb : b.toNat.testBit (c % 8) = false := by
    have hget : s.bitmap[c / 8]? = some b := by
      rw [← Array.getElem?_toList, hl, ← hlength, List.getElem?_append_right (Nat.le_refl _),
        Nat.sub_self, List.getElem?_cons_zero]
    rwa [contains, decide_eq_true hc, Bool.true_and, Array.getD_eq_getD_getElem?, hget,
      Option.getD_some] at hcontains
  have hbitmap : (s.insert c).bitmap.toList =
      before ++ (b ||| 1 <<< UInt8.ofNat (c % 8)) :: after := by
    rw [insert, if_pos hc, ← hmodify, Array.toList_modify]
  rw [size_eq_sum, size_eq_sum, hbitmap, hl, List.map_append, List.map_append, List.map_cons,
    List.map_cons, bitCount_setBit (Nat.mod_lt _ (by decide)) hb]
  simp only [List.sum_append, List.sum_cons]
  omega

/-- Recording admitted numbers makes the set larger by as many as there are. -/
theorem size_foldl_insert {l : List Nat} (hnodup : l.Nodup)
    (h : ∀ c ∈ l, s.admits c = true) : (l.foldl insert s).size = s.size + l.length := by
  induction l generalizing s with
  | nil => rfl
  | cons c l ih =>
    rw [List.nodup_cons] at hnodup
    rw [List.forall_mem_cons] at h
    have hrest : ∀ d ∈ l, (s.insert c).admits d = true := by
      intro d hd
      have hne : c ≠ d := fun heq ↦ hnodup.1 (heq ▸ hd)
      simp [admits_insert, h.2 d hd, hne]
    rw [List.foldl_cons, ih hnodup.2 hrest, size_insert_of_admits h.1, List.length_cons]
    omega

/-! ## Order -/

theorem insert_comm (s : ClusterSet) (c d : Nat) :
    (s.insert c).insert d = (s.insert d).insert c := by
  by_cases hc : c < s.capacity
  · by_cases hd : d < s.capacity
    · simp only [insert, if_pos hc, if_pos hd, mk.injEq, true_and]
      apply Array.toList_inj.1
      simp only [Array.toList_modify]
      by_cases hbyte : c / 8 = d / 8
      · rw [hbyte, List.modify_modify_eq, List.modify_modify_eq]
        congr 1
        funext b
        simp only [Function.comp_apply, UInt8.or_assoc, UInt8.or_comm (1 <<< UInt8.ofNat (c % 8))]
      · rw [List.modify_modify_ne _ _ _ hbyte]
    · simp [insert, hc, hd]
  · by_cases hd : d < s.capacity
    · simp [insert, hc, hd]
    · simp [insert, hc, hd]

/-- Recording the same numbers gives the same set, bit by bit, in whatever order they come. -/
theorem foldl_insert_congr {l l' : List Nat} (h : l.Nodup) (h' : l'.Nodup)
    (hmem : ∀ c, c ∈ l ↔ c ∈ l') (s : ClusterSet) : l.foldl insert s = l'.foldl insert s := by
  have : RightCommutative insert := ⟨insert_comm⟩
  exact ((List.perm_ext_iff_of_nodup h h').2 hmem).foldl_eq s

end ClusterSet

end Fat16
