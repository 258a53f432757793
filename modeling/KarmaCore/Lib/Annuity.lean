import Mathlib

/-!
# Annuities

A loan grows by a rate each month and is paid down by the same amount after
each.  The payment that ends it after `n` months is the loan by the sum of the
powers of the growth.
-/

open Finset

namespace Annuity

variable {K : Type*} [Field K]

/-- What is owed after some months of growth and payment. -/
def debt (loan p payment : K) : ℕ → K
  | 0 => loan
  | n + 1 => debt loan p payment n * (1 + p) - payment

/-- The growth of one unit over `n` months. -/
def growth (p : K) (n : ℕ) : K := ∑ i ∈ range n, (1 + p) ^ i

theorem growth_succ (p : K) (n : ℕ) : growth p (n + 1) = growth p n + (1 + p) ^ n :=
  sum_range_succ _ n

theorem growth_mul (p : K) (n : ℕ) : growth p n * p = (1 + p) ^ n - 1 := by
  have h := geom_sum_mul (1 + p) n
  rwa [add_sub_cancel_left] at h

theorem debt_eq (loan p payment : K) (n : ℕ) :
    debt loan p payment n = loan * (1 + p) ^ n - payment * growth p n := by
  induction n with
  | zero => simp [debt, growth]
  | succ n ih =>
      have hmul := growth_mul p n
      rw [debt, ih, growth_succ, pow_succ]
      linear_combination -payment * hmul

variable [LinearOrder K] [IsStrictOrderedRing K] {loan p p' : K} {n : ℕ}

/-- The payment that ends a loan after `n` months. -/
def payment (loan p : K) (n : ℕ) : K := loan * (p + p / ((1 + p) ^ n - 1))

theorem growth_pos (hp : 0 < p) (hn : 0 < n) : 0 < growth p n :=
  sum_pos (fun _ _ ↦ by positivity) (nonempty_range_iff.mpr hn.ne')

/-- One unit is paid off by the share its growth has of the growth of the payments. -/
theorem payment_eq (hp : 0 < p) (hn : 0 < n) :
    payment loan p n = loan * ((1 + p) ^ n / growth p n) := by
  have hgrowth : growth p n ≠ 0 := (growth_pos hp hn).ne'
  have hmul := growth_mul p n
  rw [payment, ← hmul]
  congr 1
  field_simp
  linear_combination hmul

theorem debt_payment (hp : 0 < p) (hn : 0 < n) : debt loan p (payment loan p n) n = 0 := by
  rw [debt_eq, payment_eq hp hn, mul_assoc, div_mul_cancel₀ _ (growth_pos hp hn).ne', sub_self]

theorem payment_pos (hloan : 0 < loan) (hp : 0 < p) (hn : 0 < n) : 0 < payment loan p n := by
  rw [payment_eq hp hn]
  have hgrowth := growth_pos hp hn
  positivity

theorem growth_le (hp : 0 < p) : (1 + p) * growth p n ≤ n * (1 + p) ^ n := by
  rw [growth, mul_sum]
  have hterm : ∀ i ∈ range n, (1 + p) * (1 + p) ^ i ≤ (1 + p) ^ n := by
    intro i hi
    rw [← pow_succ']
    exact pow_le_pow_right₀ (by linarith) (mem_range.mp hi)
  simpa using sum_le_card_nsmul _ _ _ hterm

/-- All payments together are at least the loan and its interest of one month. -/
theorem loan_add_interest_le (hloan : 0 ≤ loan) (hp : 0 < p) (hn : 0 < n) :
    loan + p * loan ≤ n * payment loan p n := by
  have hgrowth := growth_pos hp hn
  have hunit : 1 + p ≤ n * ((1 + p) ^ n / growth p n) := by
    rw [← mul_div_assoc, le_div_iff₀ hgrowth]
    exact growth_le hp
  calc loan + p * loan = loan * (1 + p) := by ring
    _ ≤ loan * (n * ((1 + p) ^ n / growth p n)) := mul_le_mul_of_nonneg_left hunit hloan
    _ = n * payment loan p n := by rw [payment_eq hp hn]; ring

theorem div_le_payment (hloan : 0 ≤ loan) (hp : 0 < p) (hn : 0 < n) :
    loan / n ≤ payment loan p n := by
  have hmonths : (0 : K) < n := Nat.cast_pos.mpr hn
  have hinterest : 0 ≤ p * loan := mul_nonneg hp.le hloan
  rw [div_le_iff₀ hmonths, mul_comm]
  linarith [loan_add_interest_le hloan hp hn]

/-- A higher rate makes the earlier payments grow more than the loan. -/
theorem growth_lt (hp : 0 < p) (hlt : p < p') (hn : 0 < n) :
    (1 + p) ^ n * growth p' n < (1 + p') ^ n * growth p n := by
  rw [growth, growth, mul_sum, mul_sum]
  have hterm : ∀ i ∈ range n,
      (1 + p) ^ n * (1 + p') ^ i < (1 + p') ^ n * (1 + p) ^ i := by
    intro i hi
    have hi : i < n := mem_range.mp hi
    have hbase : (1 + p) ^ (n - i) < (1 + p') ^ (n - i) :=
      pow_lt_pow_left₀ (by linarith) (by linarith) (by omega)
    have hsplit : ∀ x : K, x ^ n = x ^ (n - i) * x ^ i := fun x ↦ by
      rw [← pow_add, Nat.sub_add_cancel hi.le]
    rw [hsplit (1 + p), hsplit (1 + p')]
    have hpow : 0 < (1 + p) ^ i * (1 + p') ^ i := by
      have hp' : 0 < p' := hp.trans hlt
      positivity
    nlinarith [mul_lt_mul_of_pos_right hbase hpow]
  exact sum_lt_sum_of_nonempty (nonempty_range_iff.mpr hn.ne') hterm

theorem payment_lt_payment (hloan : 0 < loan) (hp : 0 < p) (hlt : p < p') (hn : 0 < n) :
    payment loan p n < payment loan p' n := by
  rw [payment_eq hp hn, payment_eq (hp.trans hlt) hn]
  apply mul_lt_mul_of_pos_left _ hloan
  rw [div_lt_div_iff₀ (growth_pos hp hn) (growth_pos (hp.trans hlt) hn)]
  exact growth_lt hp hlt hn

end Annuity
