import Fat16.FixedText
import Fat16.Proofs.Bytes

/-!
# Stored layouts

Boot sectors and directory records are written as fields one after another and read field by field,
each from an offset of its own. Nothing in the two definitions ties an offset to the lengths of the
fields before it. `Bytes.LaysOut` does: it goes through the parts of a stored form and says of each
that it stands in the window where those before it end, and `Bytes.laysOut_iff` says that this comes
to the whole form standing in one window.

A window is not cut as long as the image is long enough, and then it holds the stored form of a
value if and only if this value is read there. There is one such lemma for each kind of field. They
hold in both directions, so a layout made of them gives both that reading undoes writing and that
writing undoes reading.
-/

namespace Fat16

namespace Bytes

variable {bytes : Bytes} {i n : Nat}

/-! ## Fields -/

@[simp] theorem size_ofWord16 (w : UInt16) : (ofWord16 w).size = 2 := rfl

@[simp] theorem size_ofWord32 (w : UInt32) : (ofWord32 w).size = 4 := rfl

theorem window_eq_singleton_iff {b : UInt8} (h : i + 1 ≤ bytes.size) :
    bytes.window i 1 = #[b] ↔ bytes.byte i = b := by
  rw [window_eq_iff Array.size_singleton h, Nat.forall_lt_succ_right]
  simp [byte]

theorem window_eq_ofWord16_iff {w : UInt16} (h : i + 2 ≤ bytes.size) :
    bytes.window i 2 = ofWord16 w ↔ bytes.word16 i = w := by
  have hw := w.toNat_lt
  have hlow := (bytes.byte i).toNat_lt
  have hhigh := (bytes.byte (i + 1)).toNat_lt
  calc bytes.window i 2 = ofWord16 w
    _ ↔ bytes.byte i = .ofNat w.toNat ∧ bytes.byte (i + 1) = .ofNat (w.toNat / 256) := by
      rw [window_eq_iff (size_ofWord16 w) h, Nat.forall_lt_succ_right, Nat.forall_lt_succ_right]
      simp [byte, ofWord16]
    _ ↔ bytes.word16 i = w := by
      rw [word16, ← UInt8.toNat_inj, ← UInt8.toNat_inj, ← UInt16.toNat_inj, UInt8.toNat_ofNat',
        UInt8.toNat_ofNat', UInt16.toNat_ofNat']
      omega

theorem window_eq_ofWord32_iff {w : UInt32} (h : i + 4 ≤ bytes.size) :
    bytes.window i 4 = ofWord32 w ↔ bytes.word32 i = w := by
  have hw := w.toNat_lt
  have hlow := (bytes.word16 i).toNat_lt
  have hhigh := (bytes.word16 (i + 2)).toNat_lt
  have hsize : (bytes.window i 2).size = 2 := size_window_of_le (by omega)
  calc bytes.window i 4 = ofWord32 w
    _ ↔ bytes.window i 2 = ofWord16 (.ofNat w.toNat) ∧
        bytes.window (i + 2) 2 = ofWord16 (.ofNat (w.toNat / 65536)) := by
      rw [bytes.window_add i 2 2, ofWord32]
      constructor
      · exact fun heq ↦ Array.append_inj heq hsize
      · rintro ⟨h₁, h₂⟩
        rw [h₁, h₂]
    _ ↔ bytes.word32 i = w := by
      rw [window_eq_ofWord16_iff (by omega), window_eq_ofWord16_iff (by omega), word32,
        ← UInt16.toNat_inj, ← UInt16.toNat_inj, ← UInt32.toNat_inj, UInt16.toNat_ofNat',
        UInt16.toNat_ofNat', UInt32.toNat_ofNat']
      omega

theorem window_eq_toArray_iff {v : Vector UInt8 n} (h : i + n ≤ bytes.size) :
    bytes.window i n = v.toArray ↔ bytes.field n i = v := by
  have hbyte : ∀ k (hk : k < n), byte v.toArray k = v[k] := fun k hk ↦ by
    rw [byte_eq_getElem (by rwa [Vector.size_toArray]), Vector.getElem_toArray]
  rw [window_eq_iff v.size_toArray h]
  constructor
  · intro hall
    ext k hk
    rw [field, Vector.getElem_ofFn, hall k hk, hbyte k hk]
  · rintro rfl k hk
    rw [hbyte k hk, field, Vector.getElem_ofFn]

/-! ## Parts one after another -/

/-- The parts stand one after another, from position `i` on. -/
def LaysOut (bytes : Bytes) : (i : Nat) → (parts : List Bytes) → Prop
  | _, [] => True
  | i, part :: parts => bytes.window i part.size = part ∧ bytes.LaysOut (i + part.size) parts

/-- The joined parts stand in one window if and only if each stands where those before it end. -/
theorem laysOut_iff {parts : List Bytes} :
    bytes.window i (concat parts).size = concat parts ↔ bytes.LaysOut i parts := by
  induction parts generalizing i with
  | nil => exact ⟨fun _ ↦ trivial, fun _ ↦ bytes.window_zero i⟩
  | cons part parts ih =>
    rw [LaysOut, ← ih, concat_cons, Array.size_append, window_add]
    constructor
    · intro h
      -- the whole window is not cut, so its first part is not
      have hsize := congrArg Array.size h
      rw [Array.size_append, Array.size_append, size_window, size_window] at hsize
      refine Array.append_inj h ?_
      rw [size_window]
      omega
    · rintro ⟨hpart, hparts⟩
      rw [hpart, hparts]

theorem size_concat_of_size_eq {parts : List Bytes} (h : ∀ part ∈ parts, part.size = n) :
    (concat parts).size = n * parts.length := by
  induction parts with
  | nil => rfl
  | cons part parts ih =>
    rw [size_concat_cons, h part List.mem_cons_self,
      ih fun other hother ↦ h other (List.mem_cons_of_mem _ hother), List.length_cons,
      Nat.mul_succ, Nat.add_comm]

/-- Of parts of one size, each stands at a multiple of it. -/
theorem LaysOut.window_eq {parts : List Bytes} (h : bytes.LaysOut i parts)
    (hsize : ∀ part ∈ parts, part.size = n) {k : Nat} {part : Bytes} (hk : parts[k]? = some part) :
    bytes.window (i + n * k) n = part := by
  induction parts generalizing i k with
  | nil => cases hk
  | cons first parts ih =>
    obtain ⟨hfirst, hrest⟩ := h
    rw [hsize first List.mem_cons_self] at hfirst hrest
    cases k with
    | zero =>
      rw [List.getElem?_cons_zero, Option.some.injEq] at hk
      rw [Nat.mul_zero, Nat.add_zero, hfirst, hk]
    | succ k =>
      rw [Nat.mul_succ, Nat.add_comm (n * k), ← Nat.add_assoc]
      exact ih hrest (fun part hpart ↦ hsize part (List.mem_cons_of_mem _ hpart)) hk

/-- Joined parts of one size are found again at the multiples of it. -/
theorem window_concat_of_size_eq {parts : List Bytes} (hsize : ∀ part ∈ parts, part.size = n)
    {k : Nat} {part : Bytes} (hk : parts[k]? = some part) :
    (concat parts).window (n * k) n = part := by
  rw [← (laysOut_iff.1 (window_size (concat parts))).window_eq hsize hk, Nat.zero_add]

end Bytes

theorem FixedText.read_eq_iff {bytes : Bytes} {i n : Nat} {t : FixedText n} :
    .read bytes i = t ↔ bytes.field n i = t.bytes := by
  rw [FixedText.read]
  exact ⟨fun h ↦ h ▸ rfl, fun h ↦ h ▸ rfl⟩

end Fat16
