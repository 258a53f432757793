import Mathlib

/-!
# Halving a ratio until it fits

Both parts of a ratio in lowest terms are halved, rounded up or past the middle,
as long as one of them is above a limit.  Every turn moves the ratio by a factor
that the parts it halves tell, and by two at most.
-/

namespace RatioReduction

/-- How a part is halved: twice the half is above the part by at most `excess`. -/
structure Halving (half : ℤ → ℤ) (excess : ℕ) : Prop where
  excess_le : excess ≤ 2
  le_twice : ∀ n, 0 < n → n ≤ 2 * half n
  twice_le : ∀ n, 0 < n → 2 * half n ≤ n + excess
  le_self : ∀ n, 0 < n → half n ≤ n

variable (half : ℤ → ℤ) (limit : ℤ)

def next (cp : ℚ) : ℚ := Rat.divInt (half cp.num) (half cp.den)

def reduce : ℕ → ℚ → ℚ
  | 0, cp => cp
  | fuel + 1, cp =>
      if limit < cp.num ∨ limit < cp.den then reduce fuel (next half cp) else cp

/-- The ratios that are halved on the way. -/
def halved : ℕ → ℚ → List ℚ
  | 0, _ => []
  | fuel + 1, cp =>
      if limit < cp.num ∨ limit < cp.den then cp :: halved fuel (next half cp) else []

variable {half limit} {excess fuel : ℕ} {cp : ℚ} {bound : ℤ}

/-- Both parts are above zero and at most `bound`. -/
structure Parts (bound : ℤ) (cp : ℚ) : Prop where
  pos : 0 < cp.num
  num_le : cp.num ≤ bound
  den_le : (cp.den : ℤ) ≤ bound

theorem den_pos (cp : ℚ) : (0 : ℤ) < cp.den := by exact_mod_cast cp.den_pos

theorem Parts.mono {bound' : ℤ} (h : Parts bound cp) (hle : bound ≤ bound') : Parts bound' cp :=
  ⟨h.pos, h.num_le.trans hle, h.den_le.trans hle⟩

/-- Lowest terms are no larger than the terms they come from. -/
theorem parts_divInt {n d : ℤ} (hn : 0 < n) (hd : 0 < d) (hn' : n ≤ bound) (hd' : d ≤ bound) :
    Parts bound (Rat.divInt n d) where
  pos := by
    rw [Rat.num_pos, Rat.divInt_eq_div]
    positivity
  num_le := (Int.le_of_dvd hn (Rat.num_dvd n hd.ne')).trans hn'
  den_le := (Int.le_of_dvd hd (Rat.den_dvd n d)).trans hd'

/-- A ratio of halves, when the upper half is not too large and the lower one not too small. -/
theorem div_le_of_halves {a b d m : ℚ} (hb : 0 < b) (hd : 0 < d) (ha : 2 * a ≤ m)
    (hlow : d ≤ 2 * b) (ha' : 0 ≤ a) : a / b ≤ m / d := by
  rw [div_le_div_iff₀ hb hd]
  calc a * d ≤ a * (2 * b) := mul_le_mul_of_nonneg_left hlow ha'
    _ = 2 * a * b := by ring
    _ ≤ m * b := mul_le_mul_of_nonneg_right ha hb.le

theorem next_eq_div (cp : ℚ) : next half cp = (half cp.num : ℚ) / half cp.den :=
  Rat.divInt_eq_div _ _

namespace Halving

variable (h : Halving half excess)
include h

theorem pos {n : ℤ} (hn : 0 < n) : 0 < half n := by
  have := h.le_twice n hn
  omega

/-- No part grows. -/
theorem parts_next (hcp : Parts bound cp) : Parts bound (next half cp) :=
  parts_divInt (h.pos hcp.pos) (h.pos (den_pos cp)) ((h.le_self _ hcp.pos).trans hcp.num_le)
    ((h.le_self _ (den_pos cp)).trans hcp.den_le)

/-- Both parts shrink to about a half. -/
theorem parts_next_of_twice (hcp : Parts (2 * bound + 2) cp) : Parts (bound + 2) (next half cp) := by
  have hexcess := h.excess_le
  have hnum := h.twice_le _ hcp.pos
  have hden := h.twice_le _ (den_pos cp)
  have hnum_le := hcp.num_le
  have hden_le := hcp.den_le
  exact parts_divInt (h.pos hcp.pos) (h.pos (den_pos cp)) (by omega) (by omega)

/-- The loop ends with parts within the limit. -/
theorem parts_reduce (hlimit : 3 ≤ limit) (hcp : Parts (2 ^ fuel + 2) cp) :
    Parts limit (reduce half limit fuel cp) := by
  induction fuel generalizing cp with
  | zero => exact hcp.mono (by rw [pow_zero]; omega)
  | succ fuel ih =>
      rw [reduce]
      split_ifs with hlarge
      · exact ih (h.parts_next_of_twice (by rwa [pow_succ'] at hcp))
      · push Not at hlarge
        exact ⟨hcp.pos, hlarge.1, hlarge.2⟩

/-- No ratio on the way has larger parts than the first one. -/
theorem parts_halved (hcp : Parts bound cp) : ∀ x ∈ halved half limit fuel cp, Parts bound x := by
  induction fuel generalizing cp with
  | zero => exact fun x hx ↦ absurd hx List.not_mem_nil
  | succ fuel ih =>
      rw [halved]
      split_ifs with hlarge
      · intro x hx
        rcases List.mem_cons.mp hx with rfl | hx
        · exact hcp
        · exact ih (h.parts_next hcp) x hx
      · exact fun x hx ↦ absurd hx List.not_mem_nil

/-! ## How far the ratio moves -/

/-- What one turn does to a ratio that rises. -/
theorem next_le (hcp : 0 < cp.num) :
    next half cp ≤ cp * (1 + excess / cp.num) ∧ next half cp ≤ cp * 2 := by
  have hn : (0 : ℚ) < cp.num := by exact_mod_cast hcp
  have hd : (0 : ℚ) < cp.den := by exact_mod_cast cp.den_pos
  have hn' : (0 : ℚ) < half cp.num := by exact_mod_cast h.pos hcp
  have hd' : (0 : ℚ) < half cp.den := by exact_mod_cast h.pos (den_pos cp)
  have hlow : (cp.den : ℚ) ≤ 2 * half cp.den := by exact_mod_cast h.le_twice _ (den_pos cp)
  have hhigh : 2 * (half cp.num : ℚ) ≤ cp.num + excess := by exact_mod_cast h.twice_le _ hcp
  have hself : (half cp.num : ℚ) ≤ cp.num := by exact_mod_cast h.le_self _ hcp
  have hcpeq : cp = (cp.num : ℚ) / cp.den := cp.num_div_den.symm
  have hexcess : cp * (1 + excess / cp.num) = (cp.num + excess) / cp.den := by
    nth_rewrite 1 [hcpeq]
    field_simp
  have htwice : cp * 2 = 2 * cp.num / cp.den := by
    nth_rewrite 1 [hcpeq]
    ring
  rw [hexcess, htwice, next_eq_div]
  exact ⟨div_le_of_halves hd' hd hhigh hlow hn'.le,
    div_le_of_halves hd' hd (by linarith) hlow hn'.le⟩

/-- What one turn does to a ratio that falls. -/
theorem le_next (hcp : 0 < cp.num) :
    cp ≤ next half cp * (1 + excess / cp.den) ∧ cp ≤ next half cp * 2 := by
  have hn : (0 : ℚ) < cp.num := by exact_mod_cast hcp
  have hd : (0 : ℚ) < cp.den := by exact_mod_cast cp.den_pos
  have hd' : (0 : ℚ) < half cp.den := by exact_mod_cast h.pos (den_pos cp)
  have hlow : (cp.num : ℚ) ≤ 2 * half cp.num := by exact_mod_cast h.le_twice _ hcp
  have hhigh : 2 * (half cp.den : ℚ) ≤ cp.den + excess := by
    exact_mod_cast h.twice_le _ (den_pos cp)
  have hself : (half cp.den : ℚ) ≤ cp.den := by exact_mod_cast h.le_self _ (den_pos cp)
  have hcpeq : cp = (cp.num : ℚ) / cp.den := cp.num_div_den.symm
  have hfall (m : ℚ) (hm : 2 * (half cp.den : ℚ) ≤ m) :
      cp ≤ next half cp * (m / cp.den) := by
    rw [next_eq_div, div_mul_div_comm]
    nth_rewrite 1 [hcpeq]
    rw [div_le_div_iff₀ hd (mul_pos hd' hd)]
    calc (cp.num : ℚ) * (half cp.den * cp.den) ≤ 2 * half cp.num * (half cp.den * cp.den) :=
        mul_le_mul_of_nonneg_right hlow (mul_pos hd' hd).le
      _ = half cp.num * (2 * half cp.den) * cp.den := by ring
      _ ≤ half cp.num * m * cp.den :=
        mul_le_mul_of_nonneg_right (mul_le_mul_of_nonneg_left hm (by linarith)) hd.le
  have hexcess : (cp.den + excess : ℚ) / cp.den = 1 + excess / cp.den := by
    field_simp
  have htwice : 2 * (cp.den : ℚ) / cp.den = 2 := by
    field_simp
  exact ⟨hexcess ▸ hfall _ hhigh, htwice ▸ hfall _ (by linarith)⟩

/-- Every ratio on the way is above zero, and so is a product of factors over them. -/
theorem prod_nonneg (factor : ℚ → ℚ) (hfactor : ∀ x : ℚ, 0 < x.num → 0 ≤ factor x)
    (hcp : 0 < cp.num) : 0 ≤ ((halved half limit fuel cp).map factor).prod := by
  apply List.prod_nonneg
  intro r hr
  obtain ⟨x, hx, rfl⟩ := List.mem_map.mp hr
  exact hfactor x (h.parts_halved ⟨hcp, le_max_left _ _, le_max_right _ _⟩ x hx).pos

/-- A bound on how one turn raises the ratio bounds the loop by the product over its turns. -/
theorem reduce_le_prod (factor : ℚ → ℚ) (hfactor : ∀ x : ℚ, 0 < x.num → 0 ≤ factor x)
    (hstep : ∀ x : ℚ, 0 < x.num → next half x ≤ x * factor x) (hcp : 0 < cp.num) :
    reduce half limit fuel cp ≤ cp * ((halved half limit fuel cp).map factor).prod := by
  induction fuel generalizing cp with
  | zero => exact (mul_one cp).ge
  | succ fuel ih =>
      rw [reduce, halved]
      by_cases hlarge : limit < cp.num ∨ limit < cp.den
      · rw [if_pos hlarge, if_pos hlarge, List.map_cons, List.prod_cons, ← mul_assoc]
        have hnext : 0 < (next half cp).num :=
          (h.parts_next ⟨hcp, le_max_left _ _, le_max_right _ _⟩).pos
        exact (ih hnext).trans
          (mul_le_mul_of_nonneg_right (hstep cp hcp) (h.prod_nonneg factor hfactor hnext))
      · rw [if_neg hlarge, if_neg hlarge]
        exact (mul_one cp).ge

/-- The same for how one turn lowers the ratio. -/
theorem le_reduce_prod (factor : ℚ → ℚ) (hfactor : ∀ x : ℚ, 0 < x.num → 0 ≤ factor x)
    (hstep : ∀ x : ℚ, 0 < x.num → x ≤ next half x * factor x) (hcp : 0 < cp.num) :
    cp ≤ reduce half limit fuel cp * ((halved half limit fuel cp).map factor).prod := by
  induction fuel generalizing cp with
  | zero => exact (mul_one cp).ge
  | succ fuel ih =>
      rw [reduce, halved]
      by_cases hlarge : limit < cp.num ∨ limit < cp.den
      · rw [if_pos hlarge, if_pos hlarge, List.map_cons, List.prod_cons, mul_left_comm, mul_comm]
        have hnext : 0 < (next half cp).num :=
          (h.parts_next ⟨hcp, le_max_left _ _, le_max_right _ _⟩).pos
        exact (hstep cp hcp).trans (mul_le_mul_of_nonneg_right (ih hnext) (hfactor cp hcp))
      · rw [if_neg hlarge, if_neg hlarge]
        exact (mul_one cp).ge

/-- The loop moves the ratio by the factors its turns tell, and by two in each at most. -/
theorem reduce_within (hcp : 0 < cp.num) :
    reduce half limit fuel cp ≤
        cp * ((halved half limit fuel cp).map fun x ↦ 1 + (excess : ℚ) / x.num).prod ∧
      cp ≤ reduce half limit fuel cp *
        ((halved half limit fuel cp).map fun x ↦ 1 + (excess : ℚ) / x.den).prod ∧
      reduce half limit fuel cp ≤ cp * 2 ^ (halved half limit fuel cp).length ∧
      cp ≤ reduce half limit fuel cp * 2 ^ (halved half limit fuel cp).length := by
  have hnum (x : ℚ) (hx : 0 < x.num) : (0 : ℚ) ≤ 1 + excess / x.num := by
    have : (0 : ℚ) < x.num := by exact_mod_cast hx
    positivity
  have hden (x : ℚ) (_ : 0 < x.num) : (0 : ℚ) ≤ 1 + excess / x.den := by positivity
  have htwo (x : ℚ) (_ : 0 < x.num) : (0 : ℚ) ≤ 2 := zero_le_two
  have hpow : ((halved half limit fuel cp).map fun _ ↦ (2 : ℚ)).prod =
      2 ^ (halved half limit fuel cp).length := by
    rw [List.map_const', List.prod_replicate]
  refine ⟨h.reduce_le_prod _ hnum (fun x hx ↦ (h.next_le hx).1) hcp,
    h.le_reduce_prod _ hden (fun x hx ↦ (h.le_next hx).1) hcp, ?_, ?_⟩
  · rw [← hpow]
    exact h.reduce_le_prod _ htwo (fun x hx ↦ (h.next_le hx).2) hcp
  · rw [← hpow]
    exact h.le_reduce_prod _ htwo (fun x hx ↦ (h.le_next hx).2) hcp

end Halving

end RatioReduction
