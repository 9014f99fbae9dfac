import Mathlib.Data.List.TakeWhile
import Fat16.Proofs.Rounding
import Fat16.Proofs.Text

/-!
# Sizes that are read

A size is written for people, with a number that has been rounded twice: to 53 bits before its unit
is chosen, and to tenths of the unit afterwards. `Quantity.readSize` reads such a text and knows
nothing of this, so what it reads can be compared with the number of bytes.

Both roundings are off by a known amount, and neither passes a power of 1024. So sizes are accurate
and grow with the number of bytes, also from one unit to the next (`Quantity.byteSize_accurate`).
But the second rounding can reach the power that the first has not: the unit does not fit sizes that
are short of the next one by half a tenth or less (`Quantity.byteSize_lt_iff`).
-/

namespace Fat16.Quantity

variable {m n : ℕ}

/-! ## Reading -/

/-- Whether a character belongs to a numeral that may have a decimal point. -/
def isNumeral (c : Char) : Bool := c.isDigit || c == '.'

/-- The number that a numeral with a decimal point or without one stands for. -/
def decimalValue (numeral : List Char) : ℚ :=
  let whole := numeral.takeWhile (· != '.')
  let places := (numeral.dropWhile (· != '.')).tail
  Numeral.value 10 (whole ++ places) / 10 ^ places.length

/-- The number that a size is written with and the place of its unit, if it ends with one. Spaces
have no meaning. -/
def readSize (text : String) : Option (ℚ × Fin 7) :=
  let characters := text.toList.filter (· != ' ')
  let name := characters.dropWhile isNumeral
  ((List.finRange 7).find? fun unit ↦ units[unit].toList == name).map fun unit ↦
    (decimalValue (characters.takeWhile isNumeral), unit)

section Reading

variable {digits : List Char}

theorem bne_of_isDigit {x : Char} (hx : x.isDigit = false) (h : ∀ c ∈ digits, c.isDigit = true) :
    ∀ c ∈ digits, (c != x) = true := by
  intro c hc
  rw [bne_iff_ne]
  rintro rfl
  rw [h _ hc] at hx
  exact absurd hx (by decide)

theorem isNumeral_of_isDigit (h : ∀ c ∈ digits, c.isDigit = true) :
    ∀ c ∈ digits, isNumeral c = true := by
  intro c hc
  rw [isNumeral, h c hc, Bool.true_or]

theorem decimalValue_of_isDigit (h : ∀ c ∈ digits, c.isDigit = true) :
    decimalValue digits = Numeral.value 10 digits := by
  have hpoint : ∀ c ∈ digits, (c != '.') = true := bne_of_isDigit (by decide) h
  rw [decimalValue, List.takeWhile_eq_self_iff.2 hpoint, List.dropWhile_eq_nil_iff.2 hpoint,
    List.tail_nil, List.append_nil, List.length_nil, pow_zero, div_one]

theorem decimalValue_append (h : ∀ c ∈ digits, c.isDigit = true) (places : List Char) :
    decimalValue (digits ++ '.' :: places) =
      Numeral.value 10 (digits ++ places) / 10 ^ places.length := by
  have hpoint : ∀ c ∈ digits, (c != '.') = true := bne_of_isDigit (by decide) h
  rw [decimalValue, List.takeWhile_append_of_pos hpoint, List.dropWhile_append_of_pos hpoint,
    List.takeWhile_cons_of_neg (by decide), List.dropWhile_cons_of_neg (by decide),
    List.append_nil, List.tail_cons]

/-- No unit is taken for a part of a numeral, and each is found by its name. -/
theorem find?_units : ∀ unit : Fin 7, units[unit].toList.takeWhile isNumeral = [] ∧
    (List.finRange 7).find? (fun other ↦
      units[other].toList == units[unit].toList.dropWhile isNumeral) = some unit := by
  decide

theorem readSize_eq {text : String} {numeral : List Char} (unit : Fin 7)
    (htext : text.toList.filter (· != ' ') = numeral ++ units[unit].toList)
    (hnumeral : ∀ c ∈ numeral, isNumeral c = true) :
    readSize text = some (decimalValue numeral, unit) := by
  obtain ⟨hname, hfind⟩ := find?_units unit
  rw [readSize, htext, List.takeWhile_append_of_pos hnumeral, hname, List.append_nil,
    List.dropWhile_append_of_pos hnumeral, hfind, Option.map_some]

/-- Groups of digits are the digits with spaces between them. -/
theorem filter_groupDigits (digits : List Char) :
    (groupDigits digits).filter (· != ' ') = digits.filter (· != ' ') := by
  induction digits with
  | nil => rfl
  | cons digit rest ih =>
    rw [groupDigits]
    split <;> simp [List.filter_cons, ih]

theorem filter_of_isDigit (h : ∀ c ∈ digits, c.isDigit = true) :
    digits.filter (· != ' ') = digits := by
  rw [List.filter_eq_self]
  exact bne_of_isDigit (by decide) h

theorem isDigit_of_mem_toDigits (n : ℕ) : ∀ c ∈ Nat.toDigits 10 n, c.isDigit = true := fun _ hc ↦
  Nat.isDigit_of_mem_toDigits (by decide) (by decide) hc

theorem filter_units : ∀ unit : Fin 7,
    units[unit].toList.filter (· != ' ') = units[unit].toList := by
  decide

theorem filter_space : " ".toList.filter (· != ' ') = [] := rfl

theorem filter_point : ".".toList.filter (· != ' ') = ['.'] := rfl

theorem readSize_count (n : ℕ) (unit : Fin 7) :
    readSize s!"{count n} {units[unit]}" = some ((n : ℚ), unit) := by
  have hdigits := isDigit_of_mem_toDigits n
  have htext : (s!"{count n} {units[unit]}").toList.filter (· != ' ') =
      Nat.toDigits 10 n ++ units[unit].toList := by
    simp only [toString_text, String.toList_append, count, String.toList_ofList,
      List.filter_append, filter_groupDigits, filter_of_isDigit hdigits, filter_units, filter_space,
      List.append_nil]
  rw [readSize_eq unit htext (isNumeral_of_isDigit hdigits), decimalValue_of_isDigit hdigits,
    Numeral.value_toDigits (by decide) (by decide)]

theorem readSize_tenths (t : ℕ) (unit : Fin 7) :
    readSize s!"{t / 10}.{t % 10} {units[unit]}" = some ((t : ℚ) / 10, unit) := by
  have hmod : t % 10 < 10 := Nat.mod_lt t (by decide)
  have hwhole := isDigit_of_mem_toDigits (t / 10)
  have hplace := isDigit_of_mem_toDigits (t % 10)
  have htext : (s!"{t / 10}.{t % 10} {units[unit]}").toList.filter (· != ' ') =
      Nat.toDigits 10 (t / 10) ++ '.' :: Nat.toDigits 10 (t % 10) ++ units[unit].toList := by
    simp only [toString_text, Nat.toString_eq_repr, String.toList_append, Nat.toList_repr,
      List.filter_append, filter_of_isDigit hwhole, filter_of_isDigit hplace, filter_units,
      filter_space, filter_point, List.append_assoc, List.nil_append, List.cons_append]
  have hvalue : Numeral.value 10 (Nat.toDigits 10 (t / 10) ++ [(t % 10).digitChar]) = t := by
    rw [Numeral.value_append_singleton, Numeral.value_toDigits (by decide) (by decide),
      Numeral.digitValue_digitChar _ (by omega), Nat.div_add_mod]
  rw [readSize_eq unit htext, decimalValue_append hwhole, Nat.toDigits_of_lt_base hmod, hvalue,
    List.length_singleton, pow_one]
  intro c hc
  rcases List.mem_append.1 hc with hc | hc
  · exact isNumeral_of_isDigit hwhole c hc
  · rcases List.mem_cons.1 hc with rfl | hc
    · rfl
    · exact isNumeral_of_isDigit hplace c hc

end Reading

/-! ## Units -/

theorem val_unitOf (n : ℕ) : (unitOf n : ℕ) = min 6 (n.log2 / 10) := rfl

theorem pow_unitOf_le (h : n ≠ 0) : 1024 ^ (unitOf n : ℕ) ≤ n := by
  have hunit : 10 * (unitOf n : ℕ) ≤ n.log2 := by
    rw [val_unitOf]
    omega
  calc 1024 ^ (unitOf n : ℕ) = 2 ^ (10 * (unitOf n : ℕ)) := (Nat.pow_mul 2 10 _).symm
    _ ≤ 2 ^ n.log2 := Nat.pow_le_pow_right (by decide) hunit
    _ ≤ n := Nat.log2_self_le h

theorem lt_pow_unitOf (h : n < 1024 ^ 7) : n < 1024 ^ ((unitOf n : ℕ) + 1) := by
  rcases Nat.eq_zero_or_pos n with rfl | hpos
  · exact Nat.pow_pos (by decide)
  · have hlog : n.log2 < 70 := (Nat.log2_lt hpos.ne').2 h
    have hunit : n.log2 + 1 ≤ 10 * ((unitOf n : ℕ) + 1) := by
      rw [val_unitOf]
      omega
    calc n < 2 ^ (n.log2 + 1) := Nat.lt_log2_self
      _ ≤ 2 ^ (10 * ((unitOf n : ℕ) + 1)) := Nat.pow_le_pow_right (by decide) hunit
      _ = 1024 ^ ((unitOf n : ℕ) + 1) := Nat.pow_mul 2 10 _

theorem unitOf_mono (h : m ≤ n) (hn : n < 1024 ^ 7) : unitOf m ≤ unitOf n := by
  rcases Nat.eq_zero_or_pos m with rfl | hpos
  · exact Fin.zero_le _
  · have hlt : 1024 ^ (unitOf m : ℕ) < 1024 ^ ((unitOf n : ℕ) + 1) :=
      (pow_unitOf_le hpos.ne').trans_lt (h.trans_lt (lt_pow_unitOf hn))
    exact Nat.le_of_lt_succ ((Nat.pow_lt_pow_iff_right (by decide)).1 hlt)

theorem isNearest_tenths (n : ℕ) (unit : Fin 7) :
    IsNearest (10 * n / 1024 ^ (unit : ℕ)) (tenths n unit) := by
  have hnear := isNearest_divNearest (10 * n) (Nat.pow_pos (by decide) : 0 < 1024 ^ (unit : ℕ))
  push_cast at hnear
  exact hnear

/-! ## What is shown -/

/-- The unit that `n` bytes are shown in. -/
def shownUnit (n : ℕ) : Fin 7 := unitOf (significant 53 n)

/-- The number that is shown for `n` bytes. -/
def shownNumber (n : ℕ) : ℚ :=
  if (shownUnit n : ℕ) = 0 then n else tenths (significant 53 n) (shownUnit n) / 10

/-- The bytes that are shown for `n` bytes. -/
def shownBytes (n : ℕ) : ℚ := shownNumber n * 1024 ^ (shownUnit n : ℕ)

theorem shownNumber_of_eq_zero (h : shownUnit n = 0) : shownNumber n = n :=
  if_pos (Fin.val_eq_zero_iff.2 h)

theorem shownNumber_of_ne_zero (h : shownUnit n ≠ 0) :
    shownNumber n = tenths (significant 53 n) (shownUnit n) / 10 :=
  if_neg (Fin.val_ne_zero_iff.2 h)

theorem readSize_byteSize (n : ℕ) :
    readSize (byteSize n) = some (shownNumber n, shownUnit n) := by
  rw [byteSize]
  split
  · next h =>
    rw [shownNumber_of_eq_zero h]
    exact readSize_count n _
  · next h =>
    rw [shownNumber_of_ne_zero h]
    exact readSize_tenths _ _

theorem shownBytes_of_eq_zero (h : shownUnit n = 0) : shownBytes n = n := by
  rw [shownBytes, shownNumber_of_eq_zero h, h, Fin.val_zero, pow_zero, mul_one]

theorem significant_lt_pow (hn : n < 2 ^ 64) :
    significant 53 n < 1024 ^ ((shownUnit n : ℕ) + 1) := by
  have hle : significant 53 n ≤ 2 ^ 64 := significant_le_two_pow (by decide) hn.le
  exact lt_pow_unitOf (hle.trans_lt (by decide))

theorem pow_le_significant (h : shownUnit n ≠ 0) :
    1024 ^ (shownUnit n : ℕ) ≤ significant 53 n := by
  apply pow_unitOf_le
  intro hzero
  rw [shownUnit, hzero] at h
  exact h rfl

theorem lt_of_shownUnit_eq_zero (hn : n < 2 ^ 64) (h : shownUnit n = 0) : n < 1024 := by
  by_contra! hle
  have hlt := significant_lt_pow hn
  rw [h, Fin.val_zero, zero_add, pow_one] at hlt
  have hge : 2 ^ 10 ≤ significant 53 n := two_pow_le_significant (by decide) hle
  omega

theorem shownUnit_mono (hn : n < 2 ^ 64) (h : m ≤ n) : shownUnit m ≤ shownUnit n := by
  have hle : significant 53 n ≤ 2 ^ 64 := significant_le_two_pow (by decide) hn.le
  exact unitOf_mono (significant_mono (by decide) h) (hle.trans_lt (by decide))

theorem tenths_mono (h : m ≤ n) (unit : Fin 7) : tenths m unit ≤ tenths n unit :=
  divNearest_mono (Nat.pow_pos (by decide)) (Nat.mul_le_mul_left 10 h)

/-- A number with a unit is at least one. -/
theorem one_le_shownNumber (h : shownUnit n ≠ 0) : 1 ≤ shownNumber n := by
  have hten : 10 ≤ tenths (significant 53 n) (shownUnit n) :=
    le_divNearest (Nat.pow_pos (by decide)) (Nat.mul_le_mul_left 10 (pow_le_significant h))
  have hten' : (10 : ℚ) ≤ tenths (significant 53 n) (shownUnit n) := by exact_mod_cast hten
  rw [shownNumber_of_ne_zero h]
  linarith

/-- The number of tenths is rounded up to the next unit at most. -/
theorem tenths_le (hn : n < 2 ^ 64) : tenths (significant 53 n) (shownUnit n) ≤ 10240 := by
  refine divNearest_le (Nat.pow_pos (by decide)) ?_
  have hlt := significant_lt_pow hn
  rw [Nat.pow_succ] at hlt
  change 10 * significant 53 n ≤ 10240 * 1024 ^ (shownUnit n : ℕ)
  omega

theorem shownNumber_le (hn : n < 2 ^ 64) : shownNumber n ≤ 1024 := by
  by_cases h : shownUnit n = 0
  · have hlt : (n : ℚ) < 1024 := by exact_mod_cast lt_of_shownUnit_eq_zero hn h
    rw [shownNumber_of_eq_zero h]
    exact hlt.le
  · have hle : (tenths (significant 53 n) (shownUnit n) : ℚ) ≤ 10240 := by
      exact_mod_cast tenths_le hn
    rw [shownNumber_of_ne_zero h]
    linarith

/-! ## How sizes grow -/

/-- More bytes are not shown as fewer. -/
theorem shownBytes_mono (hn : n < 2 ^ 64) (h : m ≤ n) : shownBytes m ≤ shownBytes n := by
  rcases (shownUnit_mono hn h).eq_or_lt with hunit | hunit
  · by_cases hzero : shownUnit n = 0
    · rw [shownBytes_of_eq_zero (hunit.trans hzero), shownBytes_of_eq_zero hzero]
      exact_mod_cast h
    · have htenths : (tenths (significant 53 m) (shownUnit n) : ℚ) ≤
          tenths (significant 53 n) (shownUnit n) := by
        exact_mod_cast tenths_mono (significant_mono (by decide) h) _
      rw [shownBytes, shownBytes, shownNumber_of_ne_zero (hunit ▸ hzero),
        shownNumber_of_ne_zero hzero, hunit]
      gcongr
  · -- the larger unit is between them
    have hne : shownUnit n ≠ 0 := (Fin.zero_le _).trans_lt hunit |>.ne'
    calc shownBytes m ≤ 1024 * 1024 ^ (shownUnit m : ℕ) := by
          rw [shownBytes]
          gcongr
          exact shownNumber_le (h.trans_lt hn)
      _ = 1024 ^ ((shownUnit m : ℕ) + 1) := (pow_succ' 1024 _).symm
      _ ≤ 1024 ^ (shownUnit n : ℕ) := pow_le_pow_right₀ (by norm_num) hunit
      _ = 1 * 1024 ^ (shownUnit n : ℕ) := (one_mul _).symm
      _ ≤ shownBytes n := by
          rw [shownBytes]
          gcongr
          exact one_le_shownNumber hne

/-! ## How far sizes are off -/

theorem abs_tenths_mul_sub_le (n : ℕ) (unit : Fin 7) :
    |(tenths n unit * 1024 ^ (unit : ℕ) : ℚ) - 10 * n| ≤ 1024 ^ (unit : ℕ) / 2 := by
  have hnear := abs_divNearest_mul_sub_le (10 * n)
    (Nat.pow_pos (by decide) : 0 < 1024 ^ (unit : ℕ))
  push_cast at hnear
  exact hnear

/-- What both roundings lose adds up. -/
theorem abs_shownBytes_sub_le (hn : n < 2 ^ 64) (h : shownUnit n ≠ 0) :
    |shownBytes n - n| ≤ 1024 ^ (shownUnit n : ℕ) / 20 + 1024 := by
  have hbits : |(significant 53 n : ℚ) - n| ≤ 2 ^ 11 / 2 := abs_significant_sub_le hn
  have htenths := abs_tenths_mul_sub_le (significant 53 n) (shownUnit n)
  rw [shownBytes, shownNumber_of_ne_zero h]
  generalize (tenths (significant 53 n) (shownUnit n) : ℚ) = t at *
  generalize (1024 : ℚ) ^ (shownUnit n : ℕ) = unit at *
  generalize (significant 53 n : ℚ) = size at *
  calc |t / 10 * unit - n| = |(t * unit - 10 * size) / 10 + (size - n)| := by ring_nf
    _ ≤ |(t * unit - 10 * size) / 10| + |size - n| := abs_add_le ..
    _ = |t * unit - 10 * size| / 10 + |size - n| := by rw [abs_div, Nat.abs_ofNat]
    _ ≤ unit / 20 + 1024 := by linarith

/-- **Sizes are read back accurately.** What is read is a number and a unit. Bytes are exact. In
larger units the number of bytes is at most half of a tenth of the unit off, and 1024 more; where 53
bits are enough, the tenths are the nearest ones, and the even ones of two that are equally near.
And what is read for more bytes is not less. -/
theorem byteSize_accurate (n : ℕ) (hn : n < 2 ^ 64) :
    ∃ number unit, readSize (byteSize n) = some (number, unit) ∧
      (unit = 0 → number * 1024 ^ (unit : ℕ) = n) ∧
      (unit ≠ 0 → |number * 1024 ^ (unit : ℕ) - n| ≤ 1024 ^ (unit : ℕ) / 20 + 1024) ∧
      (unit ≠ 0 → n < 2 ^ 53 →
        ∃ t : ℕ, number = t / 10 ∧ IsNearest (10 * n / 1024 ^ (unit : ℕ)) t) ∧
      ∀ m, n ≤ m → m < 2 ^ 64 → ∃ number' unit', readSize (byteSize m) = some (number', unit') ∧
        number * 1024 ^ (unit : ℕ) ≤ number' * 1024 ^ (unit' : ℕ) := by
  refine ⟨shownNumber n, shownUnit n, readSize_byteSize n, shownBytes_of_eq_zero,
    abs_shownBytes_sub_le hn, fun hunit hbits ↦ ?_, fun m hle hm ↦ ?_⟩
  · refine ⟨tenths (significant 53 n) (shownUnit n), shownNumber_of_ne_zero hunit, ?_⟩
    rw [significant_of_lt hbits]
    exact isNearest_tenths n _
  · exact ⟨_, _, readSize_byteSize m, shownBytes_mono hm hle⟩

/-- Twelve and a half tenths, which are rounded to twelve, and the largest size of all. -/
theorem byteSize_1280_accurate :
    ∃ number unit, readSize (byteSize 1280) = some (number, unit) ∧ unit ≠ 0 ∧
      |number * 1024 ^ (unit : ℕ) - (1280 : ℕ)| ≤ 1024 ^ (unit : ℕ) / 20 + 1024 ∧
      (∃ t : ℕ, number = t / 10 ∧ IsNearest (10 * (1280 : ℕ) / 1024 ^ (unit : ℕ)) t) ∧
      ∃ number' unit', readSize (byteSize (2 ^ 64 - 1)) = some (number', unit') ∧
        number * 1024 ^ (unit : ℕ) ≤ number' * 1024 ^ (unit' : ℕ) := by
  obtain ⟨number, unit, hread, -, hoff, htenths, hgrows⟩ := byteSize_accurate 1280 (by decide)
  have hunit : unit ≠ 0 := by
    have hpair := Option.some.inj ((readSize_byteSize 1280).symm.trans hread)
    rw [← (Prod.mk.inj hpair).2]
    decide
  exact ⟨number, unit, hread, hunit, hoff hunit, htenths hunit (by decide),
    hgrows (2 ^ 64 - 1) (by decide) (by decide)⟩

/-! ## Which numbers fit -/

/-- Whether a size is short of the next unit by half a tenth of its own unit or less. -/
def IsShort (size : ℕ) : Prop :=
  ∃ unit : Fin 7, (unit : ℕ) ≠ 0 ∧ size < 1024 ^ ((unit : ℕ) + 1) ∧
    20 * 1024 ^ ((unit : ℕ) + 1) ≤ 20 * size + 1024 ^ (unit : ℕ)

instance (size : ℕ) : Decidable (IsShort size) := inferInstanceAs (Decidable (∃ _, _))

/-- There is one unit only that a size can be written in. -/
theorem eq_shownUnit (hn : n < 2 ^ 64) {unit : Fin 7} (hne : (unit : ℕ) ≠ 0)
    (hle : 1024 ^ (unit : ℕ) ≤ significant 53 n)
    (hlt : significant 53 n < 1024 ^ ((unit : ℕ) + 1)) : unit = shownUnit n := by
  have hbelow : (unit : ℕ) < (shownUnit n : ℕ) + 1 :=
    (Nat.pow_lt_pow_iff_right (by decide)).1 (hle.trans_lt (significant_lt_pow hn))
  have hshown : shownUnit n ≠ 0 := by
    intro hzero
    rw [hzero, Fin.val_zero] at hbelow
    exact hne (Nat.lt_one_iff.1 hbelow)
  have habove : (shownUnit n : ℕ) < (unit : ℕ) + 1 :=
    (Nat.pow_lt_pow_iff_right (by decide)).1 ((pow_le_significant hshown).trans_lt hlt)
  exact Fin.ext (Nat.le_antisymm (Nat.le_of_lt_succ hbelow) (Nat.le_of_lt_succ habove))

theorem isShort_significant_iff (hn : n < 2 ^ 64) :
    IsShort (significant 53 n) ↔ shownUnit n ≠ 0 ∧
      20 * 1024 ^ ((shownUnit n : ℕ) + 1) ≤
        20 * significant 53 n + 1024 ^ (shownUnit n : ℕ) := by
  constructor
  · rintro ⟨unit, hne, hlt, hshort⟩
    have hle : 1024 ^ (unit : ℕ) ≤ significant 53 n := by
      rw [Nat.pow_succ] at hshort
      omega
    rw [← eq_shownUnit hn hne hle hlt]
    exact ⟨Fin.val_ne_zero_iff.1 hne, hshort⟩
  · rintro ⟨hne, hshort⟩
    exact ⟨shownUnit n, Fin.val_ne_zero_iff.2 hne, significant_lt_pow hn, hshort⟩

/-- The tenths reach the next unit from half a tenth below it, as its number of tenths is even. -/
theorem le_tenths_iff (size : ℕ) (unit : Fin 7) : 10240 ≤ tenths size unit ↔
    20 * 1024 ^ ((unit : ℕ) + 1) ≤ 20 * size + 1024 ^ (unit : ℕ) := by
  have hunit : (0 : ℚ) < 1024 ^ (unit : ℕ) := by positivity
  rw [(isNearest_tenths size unit).le_iff_of_even (by decide), le_div_iff₀ hunit, pow_succ,
    ← Nat.cast_le (α := ℚ)]
  push_cast
  constructor
  · intro h
    linarith
  · intro h
    linarith

theorem shownNumber_lt_iff_tenths (h : shownUnit n ≠ 0) :
    shownNumber n < 1024 ↔ tenths (significant 53 n) (shownUnit n) < 10240 := by
  rw [shownNumber_of_ne_zero h, div_lt_iff₀ (by norm_num)]
  norm_num

/-- Only sizes that are short of the next unit are shown with a number that does not fit. -/
theorem shownNumber_lt_iff (hn : n < 2 ^ 64) :
    shownNumber n < 1024 ↔ ¬ IsShort (significant 53 n) := by
  rw [isShort_significant_iff hn]
  by_cases h : shownUnit n = 0
  · rw [shownNumber_of_eq_zero h]
    exact iff_of_true (by exact_mod_cast lt_of_shownUnit_eq_zero hn h) fun hshort ↦ hshort.1 h
  · rw [shownNumber_lt_iff_tenths h, ← Nat.not_le, le_tenths_iff, and_iff_right h]

/-- Below the next unit there is a tenth at least between. -/
theorem shownNumber_le_of_lt (h : shownUnit n ≠ 0) (hlt : shownNumber n < 1024) :
    shownNumber n ≤ 10239 / 10 := by
  have htenths : (tenths (significant 53 n) (shownUnit n) : ℚ) ≤ 10239 := by
    exact_mod_cast Nat.le_of_lt_succ ((shownNumber_lt_iff_tenths h).1 hlt)
  rw [shownNumber_of_ne_zero h]
  linarith

/-- **Which numbers fit their unit.** The unit is the largest one that the size reaches when it is
brought to 53 bits. The number that is read is less than 1024, and then at most 1023.9 in units of
more than a byte, except for the sizes that are short of the next unit by half a tenth or less. They
are shown as 1024 of the unit before. -/
theorem byteSize_lt_iff (n : ℕ) (hn : n < 2 ^ 64) :
    ∃ number unit, readSize (byteSize n) = some (number, unit) ∧
      significant 53 n < 1024 ^ ((unit : ℕ) + 1) ∧
      (unit ≠ 0 → 1024 ^ (unit : ℕ) ≤ significant 53 n) ∧
      (number < 1024 ↔ ¬ IsShort (significant 53 n)) ∧
      (unit ≠ 0 → number < 1024 → number ≤ 10239 / 10) ∧
      (IsShort (significant 53 n) → number = 1024) := by
  refine ⟨shownNumber n, shownUnit n, readSize_byteSize n, significant_lt_pow hn,
    pow_le_significant, shownNumber_lt_iff hn, shownNumber_le_of_lt, fun hshort ↦ ?_⟩
  refine le_antisymm (shownNumber_le hn) (not_lt.1 fun hlt ↦ ?_)
  exact (shownNumber_lt_iff hn).1 hlt hshort

/-- The largest size that is not short of a mebibyte. -/
theorem byteSize_1048524_lt :
    ∃ number unit, readSize (byteSize 1048524) = some (number, unit) ∧ unit ≠ 0 ∧
      ¬ IsShort (significant 53 1048524) ∧ number ≤ 10239 / 10 := by
  obtain ⟨number, unit, hread, hlt, -, hfits, hle, -⟩ := byteSize_lt_iff 1048524 (by decide)
  have hshort : ¬ IsShort (significant 53 1048524) := by decide
  have hunit : unit ≠ 0 := by
    rintro rfl
    exact absurd hlt (by decide)
  exact ⟨number, unit, hread, hunit, hshort, hle hunit (hfits.2 hshort)⟩

/-- A byte less than a mebibyte is not shown as a mebibyte. -/
theorem byteSize_1048575_not_lt : byteSize 1048575 = "1024.0 KiB" ∧
    ∃ number unit, readSize (byteSize 1048575) = some (number, unit) ∧ ¬ number < 1024 := by
  refine ⟨rfl, shownNumber 1048575, shownUnit 1048575, readSize_byteSize 1048575, ?_⟩
  rw [shownNumber_lt_iff (by decide), not_not]
  decide

end Fat16.Quantity
