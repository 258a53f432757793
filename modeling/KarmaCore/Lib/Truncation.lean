import Mathlib

/-!
# Truncation of rationals toward zero

The conversion a machine makes when it stores a real in an integer: the
fractional part is dropped.  Over non-negative rationals it is the floor, and
an integer part passes through it unchanged.
-/

namespace Truncation

/-- Drop the fractional part. -/
def truncate (q : ℚ) : ℤ := if 0 ≤ q then ⌊q⌋ else ⌈q⌉

theorem truncate_of_nonneg {q : ℚ} (h : 0 ≤ q) : truncate q = ⌊q⌋ := if_pos h

@[simp] theorem truncate_intCast (n : ℤ) : truncate (n : ℚ) = n := by
  by_cases h : (0 : ℚ) ≤ n <;> simp [truncate, h]

@[simp] theorem truncate_zero : truncate 0 = 0 := by
  simpa using truncate_intCast 0

theorem truncate_nonneg {q : ℚ} (h : 0 ≤ q) : 0 ≤ truncate q := by
  rw [truncate_of_nonneg h]
  exact Int.floor_nonneg.mpr h

/-- A fraction below zero is dropped as well. -/
theorem truncate_nonneg_iff {q : ℚ} : 0 ≤ truncate q ↔ -1 < q := by
  rcases le_or_gt 0 q with hq | hq
  · exact iff_of_true (truncate_nonneg hq) (by linarith)
  · have htrunc : truncate q = ⌈q⌉ := if_neg (not_le.mpr hq)
    have hceil : 0 ≤ ⌈q⌉ ↔ ((-1 : ℤ) : ℚ) < q := by
      rw [← Int.lt_ceil]
      omega
    rw [htrunc, hceil]
    norm_num

/-- What truncation takes off a value above minus one is its positive part's fraction. -/
theorem truncate_eq_max_sub_fract {q : ℚ} (h : -1 < q) :
    (truncate q : ℚ) = max q 0 - Int.fract (max q 0) := by
  rcases le_or_gt 0 q with hq | hq
  · rw [truncate_of_nonneg hq, max_eq_left hq, Int.self_sub_fract]
  · have hzero : truncate q = 0 := by
      have hceil : ⌈q⌉ = 0 := Int.ceil_eq_zero_iff.mpr ⟨h, hq.le⟩
      rw [truncate, if_neg (not_le.mpr hq), hceil]
    simp [hzero, max_eq_right hq.le]

theorem truncate_le {q : ℚ} (h : 0 ≤ q) : (truncate q : ℚ) ≤ q := by
  rw [truncate_of_nonneg h]
  exact Int.floor_le q

theorem truncate_mono {p q : ℚ} (hp : 0 ≤ p) (hpq : p ≤ q) : truncate p ≤ truncate q := by
  rw [truncate_of_nonneg hp, truncate_of_nonneg (hp.trans hpq)]
  exact Int.floor_le_floor hpq

/-- A value below an integer truncates to at most that integer. -/
theorem truncate_le_of_le_intCast {q : ℚ} {n : ℤ} (hq : 0 ≤ q) (h : q ≤ n) : truncate q ≤ n := by
  simpa using truncate_mono hq h

/-- A value whose truncation exceeds a non-negative integer exceeds it. -/
theorem intCast_lt_of_lt_truncate {q : ℚ} {n : ℤ} (hn : 0 ≤ n) (h : n < truncate q) :
    (n : ℚ) < q := by
  by_contra hle
  push Not at hle
  rcases le_or_gt 0 q with hq | hq
  · exact absurd (truncate_le_of_le_intCast hq hle) (by omega)
  · have hceil : ⌈q⌉ ≤ 0 := Int.ceil_le.mpr (by simpa using hq.le)
    have htrunc : truncate q = ⌈q⌉ := if_neg (not_le.mpr hq)
    omega

/-- An integer summand passes through truncation when the total and the rest
are both non-negative. -/
theorem truncate_add_intCast {q : ℚ} {n : ℤ} (hq : 0 ≤ q) (hn : 0 ≤ n) :
    truncate (q + n) = truncate q + n := by
  have hsum : 0 ≤ q + n := add_nonneg hq (by exact_mod_cast hn)
  rw [truncate_of_nonneg hsum, truncate_of_nonneg hq, Int.floor_add_intCast]

/-- Taking away an integer that a value covers. -/
theorem truncate_sub_intCast {q : ℚ} {n : ℤ} (hn : 0 ≤ n) (h : (n : ℚ) ≤ q) :
    truncate (q - n) = truncate q - n := by
  have hrest : 0 ≤ q - n := sub_nonneg.mpr h
  have hsum := truncate_add_intCast hrest hn
  rw [sub_add_cancel] at hsum
  omega

end Truncation
