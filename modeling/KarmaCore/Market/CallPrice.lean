import Mathlib
import KarmaCore.Market.PriceReduction
import KarmaCore.Market.Soundness

/-!
# The price at which a position is called

The loop of `call_price` halves a ratio until both of its parts fit in the
largest supply, and never makes one of them zero.
-/

namespace KarmaCore.Market

open RatioReduction

theorem callPrice_bounded {debt collateral : Asset} {ratio : ℕ} {p : Price} (hdebt : 0 < debt.amount)
    (hdebt' : debt.amount < shareEnd) (hcollateral : 0 < collateral.amount)
    (hcollateral' : collateral.amount < shareEnd) (hratio : 0 < ratio) (hratio' : ratio < 2 ^ 16)
    (h : Price.callPrice debt collateral ratio = .ok p) :
    p.Bounded ∧ p.base.assetId = collateral.assetId ∧ p.quote.assetId = debt.assetId := by
  simp only [Price.callPrice, Checked.bind_eq_ok, demand_eq_ok, per_eq_ok, Checked.pure_eq_ok] at h
  obtain ⟨-, -, _, ⟨-, rfl⟩, rfl⟩ := h
  have hr : (0 : ℤ) < ratio := by exact_mod_cast hratio
  have hr' : (ratio : ℤ) < 2 ^ 16 := by exact_mod_cast hratio'
  have hparts : Parts (2 ^ 128 + 2) (Rat.divInt debt.amount collateral.amount *
      Rat.divInt ratio collateralRatioDenom) := by
    rw [Rat.divInt_mul_divInt]
    have hnum : debt.amount * ratio < shareEnd * 2 ^ 16 := mul_lt_mul'' hdebt' hr' hdebt.le hr.le
    have hden : collateral.amount * collateralRatioDenom < shareEnd * 2 ^ 16 :=
      mul_lt_mul'' hcollateral' (by decide) hcollateral.le (by decide)
    have hlarge : shareEnd * 2 ^ 16 ≤ 2 ^ 128 + 2 := by decide
    exact parts_divInt (mul_pos hdebt hr) (mul_pos hcollateral (by decide)) (hnum.le.trans hlarge)
      (hden.le.trans hlarge)
  have hlimit : 3 ≤ maxShareSupply := by decide
  have hreduced := halving_halfPast.parts_reduce hlimit hparts
  rw [Price.reduceCall_eq_reduce]
  exact ⟨⟨den_pos _, hreduced.den_le, hreduced.pos, hreduced.num_le⟩, rfl, rfl⟩

end KarmaCore.Market
