import Mathlib.Algebra.Group.Nat.Defs
import Mathlib.Data.List.Basic
import Fat16.FixedText

/-!
# Texts with numerals in them

Reports are read by people and by programs, and a reader has to rely on two things. A numeral
stands for one number (`Numeral.value_padded`), and where it is followed by anything but a digit
one can tell where it ends (`Numeral.repr_append_inj`). And what is written is printable, whatever
bytes an image has where it should have text (`FixedText.isPlain_text`); in particular no text from
an image ends a line.
-/

namespace Fat16

/-- A text is shown as it is. -/
@[simp] theorem toString_text (s : String) : toString s = s := rfl

/-- Two lists that begin with members of a class begin with the same ones, if what comes after them
does not begin with a member of it. -/
theorem append_inj_of_all {α : Type} {p : α → Bool} {l l' r r' : List α}
    (hl : ∀ a ∈ l, p a = true) (hl' : ∀ a ∈ l', p a = true) (hr : ∀ a ∈ r.head?, p a = false)
    (hr' : ∀ a ∈ r'.head?, p a = false) (h : l ++ r = l' ++ r') : l = l' ∧ r = r' := by
  have htake : ∀ {l r : List α}, (∀ a ∈ l, p a = true) → (∀ a ∈ r.head?, p a = false) →
      (l ++ r).takeWhile p = l := by
    intro l r hl hr
    rw [List.takeWhile_append_of_pos hl]
    rcases r with _ | ⟨a, r⟩
    · simp
    · simp [hr a rfl]
  have hll' : l = l' := by rw [← htake hl hr, h, htake hl' hr']
  subst hll'
  exact ⟨rfl, List.append_cancel_left h⟩

/-! ## Reading a numeral -/

namespace Numeral

variable {base m n : Nat} {c : Char}

/-- The number that a digit stands for. -/
def digitValue (c : Char) : Nat :=
  if c.isDigit then c.toNat - '0'.toNat else c.toNat - 'a'.toNat + 10

/-- The number that a numeral stands for. -/
def value (base : Nat) (digits : List Char) : Nat :=
  digits.foldl (fun n c ↦ base * n + digitValue c) 0

theorem digitValue_digitChar : ∀ d < 16, digitValue d.digitChar = d := by
  decide

/-- The characters of a numeral are the digits of its base. -/
theorem exists_digitChar_of_mem (hb : 1 < base) (h : c ∈ base.toDigits n) :
    ∃ d < base, c = d.digitChar := by
  induction n using Nat.strongRecOn with
  | ind n ih =>
    rw [Nat.toDigits_eq_if hb] at h
    split at h
    · exact ⟨n, ‹_›, List.mem_singleton.1 h⟩
    · rcases List.mem_append.1 h with h | h
      · exact ih (n / base) (Nat.div_lt_self (by omega) hb) h
      · exact ⟨n % base, Nat.mod_lt _ (by omega), List.mem_singleton.1 h⟩

theorem value_append_singleton (base : Nat) (digits : List Char) (c : Char) :
    value base (digits ++ [c]) = base * value base digits + digitValue c := by
  rw [value, List.foldl_append]
  rfl

theorem value_toDigits (hb : 1 < base) (hb' : base ≤ 16) (n : Nat) :
    value base (base.toDigits n) = n := by
  induction n using Nat.strongRecOn with
  | ind n ih =>
    rw [Nat.toDigits_eq_if hb]
    split
    · simp [value, digitValue_digitChar n (by omega)]
    · have hmod : n % base < base := Nat.mod_lt _ (by omega)
      rw [value_append_singleton, ih _ (Nat.div_lt_self (by omega) hb),
        digitValue_digitChar _ (by omega), Nat.div_add_mod]

/-- Zeros in front of a numeral do not change the number. -/
theorem value_leftpad (base width : Nat) (digits : List Char) :
    value base (digits.leftpad width '0') = value base digits := by
  rw [List.leftpad]
  induction width - digits.length with
  | zero => rfl
  | succ k ih =>
    rw [List.replicate_succ, List.cons_append, ← ih]
    rfl

theorem value_padded (hb : 1 < base) (hb' : base ≤ 16) (width n : Nat) :
    value base (padded base width n) = n := by
  rw [padded, value_leftpad, value_toDigits hb hb']

/-- Different numbers have different numerals. -/
theorem hex_injective (width : Nat) : Function.Injective (hex width) := by
  intro m n h
  have hvalue := congrArg (value 16) (String.ofList_inj.1 h)
  rwa [value_padded (by decide) (by decide), value_padded (by decide) (by decide)] at hvalue

/-! ## Where a numeral begins and ends -/

/-- A numeral has as many digits as are asked for, if these are enough. -/
theorem length_padded {width : Nat} (hb : 1 < base) (hw : 0 < width) (h : n < base ^ width) :
    (padded base width n).length = width := by
  rw [padded, List.length_leftpad]
  exact Nat.max_eq_left ((Nat.length_toDigits_le_iff hb hw).2 h)

theorem repr_eq_decimal (n : Nat) : n.repr = decimal 0 n := by
  rw [← String.toList_inj, Nat.toList_repr, decimal, String.toList_ofList, padded, List.leftpad,
    Nat.zero_sub, List.replicate_zero, List.nil_append]

/-- A decimal numeral begins with a digit. -/
theorem exists_decimal_eq_cons (width n : Nat) :
    ∃ d digits, (decimal width n).toList = d :: digits ∧ d.isDigit = true := by
  have hdigits : ∀ c ∈ padded 10 width n, c.isDigit = true := by
    intro c hc
    rw [padded, List.leftpad] at hc
    rcases List.mem_append.1 hc with hc | hc
    · rw [List.eq_of_mem_replicate hc]
      rfl
    · exact Nat.isDigit_of_mem_toDigits (by decide) (by decide) hc
  have hne : padded 10 width n ≠ [] := List.append_ne_nil_of_right_ne_nil _ Nat.toDigits_ne_nil
  obtain ⟨d, digits, h⟩ := List.exists_cons_of_ne_nil hne
  refine ⟨d, digits, ?_, hdigits d ?_⟩
  · rw [decimal, String.toList_ofList, h]
  · rw [h]
    exact List.mem_cons_self

/-- What follows a numeral tells where it ends, unless it begins with a digit. -/
theorem repr_append_inj {r r' : List Char} (hr : ∀ c ∈ r.head?, c.isDigit = false)
    (hr' : ∀ c ∈ r'.head?, c.isDigit = false)
    (h : m.repr.toList ++ r = n.repr.toList ++ r') : m = n ∧ r = r' := by
  rw [Nat.toList_repr, Nat.toList_repr] at h
  have hdigits : ∀ {n : Nat}, ∀ c ∈ Nat.toDigits 10 n, c.isDigit = true := fun c hc ↦
    Nat.isDigit_of_mem_toDigits (by decide) (by decide) hc
  obtain ⟨hmn, rfl⟩ := append_inj_of_all hdigits hdigits hr hr' h
  have hvalue := congrArg (value 10) hmn
  rw [value_toDigits (by decide) (by decide), value_toDigits (by decide) (by decide)] at hvalue
  exact ⟨hvalue, rfl⟩

end Numeral

/-! ## Printable text -/

/-- Whether all characters of a text are printable: the space and the visible ASCII characters. -/
def IsPlain (s : String) : Prop := ∀ c ∈ s.toList, 0x20 ≤ c.toNat ∧ c.toNat ≤ 0x7E

instance (s : String) : Decidable (IsPlain s) := List.decidableBAll _ _

namespace IsPlain

variable {s t : String}

@[simp] theorem append_iff : IsPlain (s ++ t) ↔ IsPlain s ∧ IsPlain t := by
  rw [IsPlain, String.toList_append, List.forall_mem_append]
  rfl

/-- A text that is printable does not end a line. -/
theorem newline_notMem (h : IsPlain s) : '\n' ∉ s.toList := by
  intro hmem
  exact absurd (h _ hmem).1 (by decide)

theorem join {l : List String} (h : ∀ s ∈ l, IsPlain s) : IsPlain (String.join l) := by
  intro c hc
  rw [String.toList_join] at hc
  obtain ⟨s, hs, hcs⟩ := List.mem_flatMap.1 hc
  exact h s hs c hcs

theorem digitChar : ∀ d < 16, 0x20 ≤ d.digitChar.toNat ∧ d.digitChar.toNat ≤ 0x7E := by
  decide

end IsPlain

namespace Numeral

/-- A numeral is printable, with zeros in front of it or without. -/
theorem isPlain_padded {base : Nat} (hb : 1 < base) (hb' : base ≤ 16) (width n : Nat) :
    IsPlain (.ofList (padded base width n)) := by
  intro c hc
  rw [String.toList_ofList, padded, List.leftpad] at hc
  rcases List.mem_append.1 hc with hc | hc
  · rw [List.eq_of_mem_replicate hc]
    decide
  · obtain ⟨d, hd, rfl⟩ := exists_digitChar_of_mem hb hc
    exact IsPlain.digitChar d (by omega)

@[simp] theorem isPlain_hex (width n : Nat) : IsPlain (hex width n) :=
  isPlain_padded (by decide) (by decide) width n

@[simp] theorem isPlain_decimal (width n : Nat) : IsPlain (decimal width n) :=
  isPlain_padded (by decide) (by decide) width n

@[simp] theorem isPlain_repr (n : Nat) : IsPlain n.repr := by
  rw [repr_eq_decimal]
  exact isPlain_decimal 0 n

end Numeral

namespace FixedText

variable {n : Nat} {b : UInt8}

theorem isPrintable_iff : isPrintable b = true ↔ 0x20 ≤ b.toNat ∧ b.toNat < 0x7F := by
  rw [isPrintable, Bool.and_eq_true, decide_eq_true_iff, decide_eq_true_iff,
    UInt8.le_iff_toNat_le, UInt8.lt_iff_toNat_lt]
  rfl

/-- Every byte is the number of a character. -/
theorem toNat_ofNat_toNat (b : UInt8) : (Char.ofNat b.toNat).toNat = b.toNat := by
  have hvalid : b.toNat.isValidChar := .inl (Nat.lt_trans b.toNat_lt (by decide))
  rw [Char.ofNat, dif_pos hvalid]
  rfl

/-- The written form of a text field is printable, whatever bytes are stored in it. -/
@[simp] theorem isPlain_text (t : FixedText n) : IsPlain t.text := by
  intro c hc
  rw [text, String.toList_ofList, List.mem_flatMap] at hc
  obtain ⟨b, -, hc⟩ := hc
  rw [escape] at hc
  split at hc
  case isTrue hb =>
    -- a byte that stands for itself
    obtain ⟨hle, hlt⟩ := isPrintable_iff.1 hb
    rw [List.mem_singleton.1 hc, toNat_ofNat_toNat]
    exact ⟨hle, Nat.le_of_lt_succ hlt⟩
  case isFalse =>
    rcases List.mem_cons.1 hc with rfl | hc
    · decide
    rcases List.mem_cons.1 hc with rfl | hc
    · decide
    exact Numeral.isPlain_hex 2 b.toNat c (by rwa [Numeral.hex, String.toList_ofList])

end FixedText

end Fat16
