import Mathlib.Algebra.Order.Field.Rat
import Mathlib.Data.Rat.Cast.Order
import Mathlib.Tactic.FieldSimp
import Mathlib.Tactic.Linarith
import Mathlib.Tactic.Positivity
import Mathlib.Tactic.Ring
import Fat16.Quantity

/-!
# Rounding

A number is the nearest one to a rational if no other is nearer, and of two that are equally near
the even one is taken (`Quantity.IsNearest`). There is only one such number, and it grows with the
rational (`Quantity.IsNearest.mono`). All that is said of rounding here comes from these two facts:
which quotient it is that is rounded matters only in `Quantity.isNearest_divNearest`.

Bringing a number to a few significant bits rounds it at a step that depends on its size. Powers of
two stay what they are at every step, so they separate numbers that are rounded at different ones.
That is why this rounding grows with the number too (`Quantity.significant_mono`).
-/

namespace Fat16.Quantity

/-! ## The nearest number -/

/-- Whether `m` is the number nearest to `q`, and the even one if there are two. -/
def IsNearest (q : ℚ) (m : ℕ) : Prop := |q - m| ≤ 1 / 2 ∧ (|q - m| = 1 / 2 → Even m)

namespace IsNearest

variable {q q' : ℚ} {m m' : ℕ}

theorem self (m : ℕ) : IsNearest m m := by
  rw [IsNearest, sub_self, abs_zero]
  norm_num

/-- A larger rational has no smaller nearest number. -/
theorem mono (h : IsNearest q m) (h' : IsNearest q' m') (hle : q ≤ q') : m ≤ m' := by
  by_contra! hlt
  have hsucc : (m' : ℚ) + 1 ≤ m := by exact_mod_cast hlt
  obtain ⟨hnear, heven⟩ := h
  obtain ⟨hnear', heven'⟩ := h'
  have hlow := (abs_le.1 hnear).1
  have hhigh := (abs_le.1 hnear').2
  -- both rationals are the one in the middle between the two numbers
  have hq : q - m = -(1 / 2) := by linarith
  have hq' : q' - m' = 1 / 2 := by linarith
  have hm : m = m' + 1 := by
    have hcast : (m : ℚ) = (m' + 1 : ℕ) := by
      push_cast
      linarith
    exact_mod_cast hcast
  have hodd : ¬ Even (m' + 1) := by
    rw [Nat.even_add_one, not_not]
    exact heven' (by rw [hq']; norm_num)
  exact hodd (hm ▸ heven (by rw [hq]; norm_num))

theorem eq (h : IsNearest q m) (h' : IsNearest q m') : m = m' :=
  Nat.le_antisymm (h.mono h' le_rfl) (h'.mono h le_rfl)

theorem sub_half (hm : Even m) : IsNearest (m - 1 / 2) m := by
  rw [IsNearest, sub_sub_cancel_left, abs_neg]
  exact ⟨by norm_num, fun _ ↦ hm⟩

/-- An even number is reached from the middle below it. -/
theorem le_iff_of_even (h : IsNearest q m) (hm' : Even m') : m' ≤ m ↔ (m' : ℚ) - 1 / 2 ≤ q := by
  refine ⟨fun hle ↦ ?_, (sub_half hm').mono h⟩
  have hle' : (m' : ℚ) ≤ m := by exact_mod_cast hle
  have hlow := (abs_le.1 h.1).1
  linarith

end IsNearest

variable {bits d e k m n : ℕ}

theorem isNearest_divNearest (n : ℕ) (hd : 0 < d) : IsNearest (n / d) (divNearest n d) := by
  have hd' : (0 : ℚ) < d := by exact_mod_cast hd
  have hdiv : (n : ℚ) / d = (n / d : ℕ) + ((n % d : ℕ) : ℚ) / d := by
    field_simp
    exact_mod_cast (Nat.div_add_mod n d).symm
  have hnonneg : 0 ≤ ((n % d : ℕ) : ℚ) / d := by positivity
  have hlt : ((n % d : ℕ) : ℚ) / d < 1 := by
    rw [div_lt_one hd']
    exact_mod_cast Nat.mod_lt n hd
  rw [divNearest, hdiv]
  split_ifs with hbelow habove
  · have hhalf : ((n % d : ℕ) : ℚ) / d < 1 / 2 := by
      rw [div_lt_div_iff₀ hd' two_pos]
      exact_mod_cast (by omega : n % d * 2 < 1 * d)
    rw [IsNearest, add_sub_cancel_left, abs_of_nonneg hnonneg]
    exact ⟨hhalf.le, fun heq ↦ absurd heq hhalf.ne⟩
  · have hhalf : 1 / 2 < ((n % d : ℕ) : ℚ) / d := by
      rw [div_lt_div_iff₀ two_pos hd']
      exact_mod_cast (by omega : 1 * d < n % d * 2)
    rw [IsNearest, Nat.cast_add_one, add_sub_add_left_eq_sub, abs_of_neg (by linarith)]
    exact ⟨by linarith, fun heq ↦ absurd heq (by linarith)⟩
  · -- the middle between two numbers
    have hhalf : ((n % d : ℕ) : ℚ) / d = 1 / 2 := by
      rw [div_eq_div_iff hd'.ne' two_ne_zero]
      exact_mod_cast (by omega : n % d * 2 = 1 * d)
    rw [IsNearest, hhalf, Nat.cast_add, add_sub_add_left_eq_sub]
    refine ⟨?_, fun _ ↦ ?_⟩
    · rcases Nat.mod_two_eq_zero_or_one (n / d) with hmod | hmod
      · rw [hmod]
        norm_num
      · rw [hmod]
        norm_num
    · rw [Nat.even_iff]
      omega

theorem divNearest_mono (hd : 0 < d) (h : m ≤ n) : divNearest m d ≤ divNearest n d := by
  refine (isNearest_divNearest m hd).mono (isNearest_divNearest n hd) ?_
  gcongr

theorem divNearest_mul (k : ℕ) (hd : 0 < d) : divNearest (k * d) d = k := by
  refine (isNearest_divNearest (k * d) hd).eq ?_
  rw [Nat.cast_mul, mul_div_cancel_right₀ _ (Nat.cast_ne_zero.2 hd.ne')]
  exact .self k

theorem le_divNearest (hd : 0 < d) (h : k * d ≤ n) : k ≤ divNearest n d :=
  divNearest_mul k hd ▸ divNearest_mono hd h

theorem divNearest_le (hd : 0 < d) (h : n ≤ k * d) : divNearest n d ≤ k :=
  divNearest_mul k hd ▸ divNearest_mono hd h

/-- What is rounded away is at most half of what is counted. -/
theorem abs_divNearest_mul_sub_le (n : ℕ) (hd : 0 < d) :
    |(divNearest n d * d : ℚ) - n| ≤ d / 2 := by
  have hd' : (0 : ℚ) < d := by exact_mod_cast hd
  have hnear := mul_le_mul_of_nonneg_right (isNearest_divNearest n hd).1 hd'.le
  rw [← abs_of_pos hd', ← abs_mul, sub_mul, abs_of_pos hd', div_mul_cancel₀ _ hd'.ne'] at hnear
  rw [abs_sub_comm]
  linarith

/-! ## Significant bits -/

/-- The step between numbers with `bits` significant bits that are as large as `n`. -/
def step (bits n : ℕ) : ℕ := 2 ^ (n.log2 + 1 - bits)

theorem step_pos (bits n : ℕ) : 0 < step bits n := Nat.two_pow_pos _

theorem significant_of_lt (h : n < 2 ^ bits) : significant bits n = n := if_pos h

theorem significant_of_le (h : 2 ^ bits ≤ n) :
    significant bits n = divNearest n (step bits n) * step bits n := if_neg (Nat.not_lt.2 h)

/-- From the size of a number on, powers of two are reached by whole steps. -/
theorem two_pow_eq_mul_step (hbits : 0 < bits) (h : n.log2 ≤ e) :
    2 ^ e = 2 ^ (e - (n.log2 + 1 - bits)) * step bits n := by
  rw [step, ← Nat.pow_add]
  congr 1
  omega

/-- Rounding does not pass a power of two from below. -/
theorem significant_le_two_pow (hbits : 0 < bits) (h : n ≤ 2 ^ e) : significant bits n ≤ 2 ^ e := by
  rcases Nat.lt_or_ge n (2 ^ bits) with hlt | hle
  · rwa [significant_of_lt hlt]
  · have hne : n ≠ 0 := (Nat.lt_of_lt_of_le (Nat.two_pow_pos bits) hle).ne'
    have hlog : n.log2 ≤ e :=
      (Nat.pow_le_pow_iff_right (by decide)).1 ((Nat.log2_self_le hne).trans h)
    rw [two_pow_eq_mul_step hbits hlog] at h
    rw [significant_of_le hle, two_pow_eq_mul_step hbits hlog]
    exact Nat.mul_le_mul_right _ (divNearest_le (step_pos bits n) h)

/-- Rounding does not pass a power of two from above. -/
theorem two_pow_le_significant (hbits : 0 < bits) (h : 2 ^ e ≤ n) : 2 ^ e ≤ significant bits n := by
  rcases Nat.lt_or_ge n (2 ^ bits) with hlt | hle
  · rwa [significant_of_lt hlt]
  · have hne : n ≠ 0 := (Nat.lt_of_lt_of_le (Nat.two_pow_pos bits) hle).ne'
    have hself := Nat.log2_self_le hne
    calc 2 ^ e ≤ 2 ^ n.log2 := Nat.pow_le_pow_right (by decide) ((Nat.le_log2 hne).2 h)
      _ ≤ significant bits n := by
        rw [two_pow_eq_mul_step hbits le_rfl] at hself
        rw [significant_of_le hle, two_pow_eq_mul_step hbits le_rfl]
        exact Nat.mul_le_mul_right _ (le_divNearest (step_pos bits n) hself)

/-- A larger number has no smaller one with few bits nearest to it. -/
theorem significant_mono (hbits : 0 < bits) (h : m ≤ n) :
    significant bits m ≤ significant bits n := by
  by_cases hbetween : ∃ e, m ≤ 2 ^ e ∧ 2 ^ e ≤ n
  · obtain ⟨e, hm, hn⟩ := hbetween
    exact (significant_le_two_pow hbits hm).trans (two_pow_le_significant hbits hn)
  · -- without a power of two between them, both are rounded in the same way
    have hfar : ∀ e, 2 ^ e ≤ n → 2 ^ e < m := fun e hn ↦
      Nat.lt_of_not_le fun hm ↦ hbetween ⟨e, hm, hn⟩
    rcases Nat.lt_or_ge n (2 ^ bits) with hlt | hle
    · rwa [significant_of_lt (h.trans_lt hlt), significant_of_lt hlt]
    · have hm := hfar bits hle
      have hne : m ≠ 0 := ((Nat.two_pow_pos bits).trans hm).ne'
      have hlog : m.log2 = n.log2 := by
        refine le_antisymm ?_ ?_
        · exact (Nat.le_log2 (by omega)).2 ((Nat.log2_self_le hne).trans h)
        · exact (Nat.le_log2 hne).2 (hfar _ (Nat.log2_self_le (by omega))).le
      rw [significant_of_le hm.le, significant_of_le hle, step, hlog, ← step]
      exact Nat.mul_le_mul_right _ (divNearest_mono (step_pos bits n) h)

/-- What a number loses is at most half a step, and steps are small as long as the number has not
many bits more. -/
theorem abs_significant_sub_le (h : n < 2 ^ (bits + e)) :
    |(significant bits n : ℚ) - n| ≤ 2 ^ e / 2 := by
  rcases Nat.lt_or_ge n (2 ^ bits) with hlt | hle
  · rw [significant_of_lt hlt, sub_self, abs_zero]
    positivity
  · have hne : n ≠ 0 := (Nat.lt_of_lt_of_le (Nat.two_pow_pos bits) hle).ne'
    have hlog : n.log2 < bits + e := (Nat.log2_lt hne).2 h
    have hstep : (step bits n : ℚ) ≤ 2 ^ e := by
      exact_mod_cast Nat.pow_le_pow_right (by decide) (by omega : n.log2 + 1 - bits ≤ e)
    rw [significant_of_le hle, Nat.cast_mul]
    calc |(divNearest n (step bits n) * step bits n : ℚ) - n| ≤ step bits n / 2 :=
          abs_divNearest_mul_sub_le n (step_pos bits n)
      _ ≤ 2 ^ e / 2 := by linarith

end Fat16.Quantity
