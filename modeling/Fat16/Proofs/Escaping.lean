import Fat16.Proofs.Text

/-!
# Text fields that are read

The written form of a text field is for people, but it can be read back: `FixedText.unescape` takes
every escape for the byte that it stands for, and every other character for itself. This undoes what
`FixedText.escape` does to a byte (`FixedText.unescape_escape_append`), with one exception. The
backslash is not escaped, so where one is stored, what follows it can look like an escape.

So fields without a backslash are told apart by their written forms (`FixedText.text_faithful`),
which are longer than the fields by three characters for every byte that does not stand for itself.
-/

namespace Fat16

namespace FixedText

variable {n : Nat} {b : UInt8} {bytes : List UInt8}

/-! ## One byte -/

/-- Reads the bytes that characters have been written for. -/
def unescape : List Char → List UInt8
  | '\\' :: 'x' :: high :: low :: rest => .ofNat (Numeral.value 16 [high, low]) :: unescape rest
  | c :: rest => .ofNat c.toNat :: unescape rest
  | [] => []

theorem isPrintable_eq_false_iff : isPrintable b = false ↔ b < 0x20 ∨ 0x7E < b := by
  rw [← Bool.not_eq_true, isPrintable_iff, UInt8.lt_iff_toNat_lt, UInt8.lt_iff_toNat_lt,
    not_and_or, Nat.not_le, Nat.not_lt]
  rfl

theorem escape_of_isPrintable (h : isPrintable b = true) : escape b = [Char.ofNat b.toNat] :=
  if_pos h

/-- An escape has two digits. -/
theorem exists_escape_eq (h : isPrintable b = false) :
    ∃ high low, escape b = ['\\', 'x', high, low] ∧ Numeral.value 16 [high, low] = b.toNat := by
  have hlength : (Numeral.padded 16 2 b.toNat).length = 2 :=
    Numeral.length_padded (by decide) (by decide) b.toNat_lt
  obtain ⟨high, low, hdigits⟩ := List.length_eq_two.1 hlength
  refine ⟨high, low, ?_, ?_⟩
  · rw [escape, h, if_neg Bool.false_ne_true, hdigits]
  · rw [← hdigits, Numeral.value_padded (by decide) (by decide)]

theorem length_escape (b : UInt8) : (escape b).length = if isPrintable b then 1 else 4 := by
  split
  · next h => rw [escape_of_isPrintable h, List.length_singleton]
  · next h =>
    obtain ⟨high, low, hescape, -⟩ := exists_escape_eq (Bool.eq_false_iff.2 h)
    rw [hescape]
    rfl

theorem unescape_cons {c : Char} (h : c ≠ '\\') (rest : List Char) :
    unescape (c :: rest) = .ofNat c.toNat :: unescape rest := by
  rw [unescape]
  rintro high low rest rfl
  exact absurd rfl h

/-- What a byte is written as is read as that byte, unless it is a backslash. -/
theorem unescape_escape_append (h : b ≠ 0x5C) (rest : List Char) :
    unescape (escape b ++ rest) = b :: unescape rest := by
  cases hb : isPrintable b with
  | true =>
    have hne : Char.ofNat b.toNat ≠ '\\' := by
      intro heq
      have hnat := congrArg Char.toNat heq
      rw [toNat_ofNat_toNat] at hnat
      exact h (UInt8.toNat_inj.1 hnat)
    rw [escape_of_isPrintable hb, List.singleton_append, unescape_cons hne, toNat_ofNat_toNat,
      UInt8.ofNat_toNat]
  | false =>
    obtain ⟨high, low, hescape, hvalue⟩ := exists_escape_eq hb
    rw [hescape]
    simp only [List.cons_append, List.nil_append]
    rw [unescape, hvalue, UInt8.ofNat_toNat]

/-! ## All bytes of a field -/

/-- Bytes without a backslash are read back. -/
theorem unescape_flatMap_escape (h : 0x5C ∉ bytes) : unescape (bytes.flatMap escape) = bytes := by
  induction bytes with
  | nil => rfl
  | cons b bytes ih =>
    rw [List.mem_cons, not_or] at h
    rw [List.flatMap_cons, unescape_escape_append (Ne.symm h.1), ih h.2]

/-- Every byte takes one character, and three more if it is escaped. -/
theorem length_flatMap_escape (bytes : List UInt8) : (bytes.flatMap escape).length =
    bytes.length + 3 * bytes.countP fun b ↦ decide (b < 0x20 ∨ 0x7E < b) := by
  induction bytes with
  | nil => rfl
  | cons b bytes ih =>
    rw [List.flatMap_cons, List.length_append, length_escape, ih, List.countP_cons,
      List.length_cons]
    simp only [decide_eq_true_iff, ← isPrintable_eq_false_iff]
    cases isPrintable b with
    | true =>
      rw [if_pos rfl, if_neg (Ne.symm Bool.false_ne_true)]
      omega
    | false =>
      rw [if_neg Bool.false_ne_true, if_pos rfl]
      omega

/-- **Written fields can be read.** The written form of a field is printable, and longer than the
field by three characters for every byte that is not. Fields without a backslash are the same if
they are written the same way. -/
theorem text_faithful (t : FixedText n) :
    IsPlain t.text ∧
    t.text.length = n + 3 * t.bytes.toList.countP (fun b ↦ decide (b < 0x20 ∨ 0x7E < b)) ∧
    ∀ t' : FixedText n, 0x5C ∉ t.bytes → 0x5C ∉ t'.bytes → t.text = t'.text → t = t' := by
  refine ⟨t.isPlain_text, ?_, fun t' h h' htext ↦ ?_⟩
  · rw [text, String.length_ofList, length_flatMap_escape, Vector.length_toList]
  · have hbytes : t.bytes.toList = t'.bytes.toList := by
      rw [← Vector.mem_toList_iff] at h h'
      rw [← unescape_flatMap_escape h, ← unescape_flatMap_escape h', String.ofList_inj.1 htext]
    obtain ⟨bytes⟩ := t
    obtain ⟨bytes'⟩ := t'
    rw [FixedText.mk.injEq]
    exact Vector.toList_inj.1 hbytes

/-- A field with two bytes in it that are no text. -/
def paddedField : FixedText 4 := ⟨#v[0x44, 0xFF, 0x00, 0x41]⟩

/-- Bytes with the same field behind a backslash. -/
def paddedBytes : Bytes := #[0x5C, 0x44, 0xFF, 0x00, 0x41]

theorem paddedField_faithful :
    0x5C ∉ paddedField.bytes ∧ 0x5C ∉ (read paddedBytes 1 : FixedText 4).bytes ∧
    paddedField.text = (read paddedBytes 1 : FixedText 4).text ∧
    paddedField.text.length = 10 ∧ paddedField = read paddedBytes 1 := by
  obtain ⟨-, hlength, hfaithful⟩ := text_faithful paddedField
  have h : 0x5C ∉ paddedField.bytes := by decide +kernel
  have h' : 0x5C ∉ (read paddedBytes 1 : FixedText 4).bytes := by decide +kernel
  have htext : paddedField.text = (read paddedBytes 1 : FixedText 4).text := rfl
  exact ⟨h, h', htext, hlength, hfaithful _ h h' htext⟩

/-- Where a backslash is stored, what follows it is taken for the rest of an escape. -/
example : (⟨#v[0x5C, 0x78, 0x30, 0x30, 0x00]⟩ : FixedText 5).text =
    (⟨#v[0x00, 0x5C, 0x78, 0x30, 0x30]⟩ : FixedText 5).text := rfl

end FixedText

end Fat16
