import Mathlib.Data.List.Basic
import Fat16.Bytes

/-!
# Windows and joined parts

What an image holds is read from windows of it, and what is stored is written as parts that are
joined. The two meet here. A window of two images that are joined is a window of one of them as long
as it does not reach across, windows next to one another join, and so do parts.

A window shows where the image ends, so to agree on a window is to agree on its bytes and on where
it is cut. Images of one size agree on a window if they have the same bytes there; and a window
that is not cut stays the same when the image goes on.
-/

namespace Fat16.Bytes

variable {a b : Bytes} {offset length i k n : Nat}

/-! ## Single bytes -/

theorem byte_eq_getElem (h : k < a.size) : a.byte k = a[k] := by
  rw [byte, Array.getD_eq_getD_getElem?, Array.getElem?_eq_getElem h, Option.getD_some]

theorem byte_append_left (h : k < a.size) (b : Bytes) : (a ++ b).byte k = a.byte k := by
  rw [byte, byte, Array.getD_eq_getD_getElem?, Array.getD_eq_getD_getElem?,
    Array.getElem?_append_left h]

theorem word16_append_left (h : k + 1 < a.size) (b : Bytes) :
    (a ++ b).word16 k = a.word16 k := by
  rw [word16, word16, byte_append_left (Nat.lt_of_succ_lt h), byte_append_left h]

theorem byte_append_right (a b : Bytes) (k : Nat) : (a ++ b).byte (a.size + k) = b.byte k := by
  rw [byte, byte, Array.getD_eq_getD_getElem?, Array.getD_eq_getD_getElem?,
    Array.getElem?_append_right (Nat.le_add_right ..), Nat.add_sub_cancel_left]

/-! ## Windows -/

theorem size_window_of_le (h : i + n ≤ a.size) : (a.window i n).size = n := by
  rw [size_window]
  omega

theorem getElem_window (h : k < (a.window i n).size) : (a.window i n)[k] = a.byte (i + k) := by
  have hk : i + k < a.size := by
    rw [size_window] at h
    omega
  simp [window, byte, hk]

theorem getElem?_window (h : i < length) : (a.window offset length)[i]? = a[offset + i]? := by
  rw [window, Array.getElem?_extract]
  split
  · rfl
  · rw [eq_comm, Array.getElem?_eq_none_iff]
    omega

theorem getElem?_window_of_le (h : length ≤ k) : (a.window offset length)[k]? = none := by
  rw [Array.getElem?_eq_none_iff, size_window]
  omega

theorem window_congr (h : ∀ k, offset ≤ k → k < offset + length → b[k]? = a[k]?) :
    b.window offset length = a.window offset length := by
  apply Array.ext_getElem?
  intro i
  rcases Nat.lt_or_ge i length with hi | hi
  · rw [getElem?_window hi, getElem?_window hi]
    exact h _ (Nat.le_add_right ..) (Nat.add_lt_add_left hi _)
  · rw [getElem?_window_of_le hi, getElem?_window_of_le hi]

theorem window_zero (a : Bytes) (i : Nat) : a.window i 0 = #[] := by
  rw [window, Nat.add_zero, Array.extract_eq_empty_of_le]
  exact Nat.min_le_left ..

/-- The image itself is a window of it. -/
theorem window_size (a : Bytes) : a.window 0 a.size = a := by
  rw [window, Nat.zero_add, Array.extract_size]

/-- Windows next to one another join. -/
theorem window_add (a : Bytes) (i m n : Nat) :
    a.window i (m + n) = a.window i m ++ a.window (i + m) n := by
  rw [window, window, window, Array.extract_append_extract, Nat.min_eq_left (Nat.le_add_right ..),
    Nat.max_eq_right (Nat.le_add_right ..), Nat.add_assoc]

/-- A window with all its bytes is the same in a longer image. -/
theorem window_append (tail : Bytes) (h : (a.window offset length).size = length) :
    (a ++ tail).window offset length = a.window offset length := by
  rw [size_window] at h
  apply Array.ext
  · rw [size_window, size_window, Array.size_append]
    omega
  · intro k h₁ h₂
    rw [size_window] at h₂
    simp only [window, Array.getElem_extract]
    exact Array.getElem_append_left (by omega)

/-- Behind another image, a window is found that much later. -/
theorem window_append_right (a b : Bytes) (i n : Nat) :
    (a ++ b).window (a.size + i) n = b.window i n := by
  apply Array.ext_getElem?
  intro k
  rcases Nat.lt_or_ge k n with hk | hk
  · rw [getElem?_window hk, getElem?_window hk, Nat.add_assoc,
      Array.getElem?_append_right (Nat.le_add_right ..), Nat.add_sub_cancel_left]
  · rw [getElem?_window_of_le hk, getElem?_window_of_le hk]

/-- A window that is not cut is known by its bytes. -/
theorem window_eq_iff (hn : b.size = n) (h : i + n ≤ a.size) :
    a.window i n = b ↔ ∀ k < n, a.byte (i + k) = b.byte k := by
  have hsize := size_window_of_le h
  constructor
  · rintro rfl k hk
    rw [← hsize] at hk
    rw [byte_eq_getElem hk, getElem_window]
  · intro hall
    apply Array.ext (hsize.trans hn.symm)
    intro k hk hk'
    rw [getElem_window, hall k (hn ▸ hk'), byte_eq_getElem hk']

/-! ## Joined parts -/

theorem foldl_append (start : Bytes) (parts : List Bytes) :
    parts.foldl (· ++ ·) start = start ++ concat parts := by
  induction parts generalizing start with
  | nil => exact Array.append_empty.symm
  | cons part parts ih =>
    rw [concat, List.foldl_cons, List.foldl_cons, Array.empty_append, ih, ih part,
      Array.append_assoc]

theorem concat_cons (part : Bytes) (parts : List Bytes) :
    concat (part :: parts) = part ++ concat parts := by
  rw [concat, List.foldl_cons, foldl_append, Array.empty_append]

theorem size_concat_cons (part : Bytes) (parts : List Bytes) :
    (concat (part :: parts)).size = part.size + (concat parts).size := by
  rw [concat_cons, Array.size_append]

theorem toList_concat (parts : List Bytes) :
    (concat parts).toList = parts.flatMap Array.toList := by
  induction parts with
  | nil => rfl
  | cons part parts ih => rw [concat_cons, Array.toList_append, ih, List.flatMap_cons]

end Fat16.Bytes
