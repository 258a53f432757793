import Mathlib
import KarmaCore.Lib.RatioReduction
import KarmaCore.Market.Price

/-!
# Call and squeeze prices

The loops of `call_price` and `max_short_squeeze_price` are two ways of halving a
ratio.  A feed without a settlement price runs the second one on zero amounts.
-/

namespace KarmaCore.Market

open RatioReduction

/-! ## The two loops -/

/-- `(n >> 1) + 1`. -/
def halfPast (n : ℤ) : ℤ := n / 2 + 1

/-- `(n >> 1) + (n & 1)`. -/
def halfUp (n : ℤ) : ℤ := n / 2 + n % 2

theorem halving_halfPast : Halving halfPast 2 where
  excess_le := le_refl 2
  le_twice n hn := by
    rw [halfPast]
    omega
  twice_le n hn := by
    rw [halfPast]
    omega
  le_self n hn := by
    rw [halfPast]
    omega

theorem halving_halfUp : Halving halfUp 1 where
  excess_le := one_le_two
  le_twice n hn := by
    rw [halfUp]
    omega
  twice_le n hn := by
    rw [halfUp]
    omega
  le_self n hn := by
    rw [halfUp]
    omega

theorem Price.reduceCall_eq_reduce (fuel : ℕ) (cp : ℚ) :
    Price.reduceCall fuel cp = reduce halfPast maxShareSupply fuel cp := by
  induction fuel generalizing cp with
  | zero => rfl
  | succ fuel ih => rw [Price.reduceCall, reduce, ih, next, halfPast, halfPast]

theorem PriceFeed.reduceSqueeze_eq_reduce (fuel : ℕ) (cp : ℚ) :
    PriceFeed.reduceSqueeze fuel cp = reduce halfUp maxShareSupply fuel cp := by
  induction fuel generalizing cp with
  | zero => rfl
  | succ fuel ih => rw [PriceFeed.reduceSqueeze, reduce, ih, next, halfUp, halfUp]

/-- What a loop of 128 turns at most makes of the ratio `n / d`: both parts end up in the
range of a supply, nothing on the way is above `2 ^ 127`, and the turns bound the error. -/
structure Reduces (half : ℤ → ℤ) (excess : ℕ) (n d : ℤ) (result : ℚ) : Prop where
  wide : n < 2 ^ 127 ∧ d < 2 ^ 127
  parts : Parts maxShareSupply result
  parts_halved : ∀ x ∈ halved half maxShareSupply 128 (Rat.divInt n d), Parts (2 ^ 127 - 1) x
  half_le : ∀ x ∈ halved half maxShareSupply 128 (Rat.divInt n d),
    half x.num < 2 ^ 127 ∧ half x.den < 2 ^ 127
  le_prod : result ≤ Rat.divInt n d *
    ((halved half maxShareSupply 128 (Rat.divInt n d)).map fun x ↦ 1 + (excess : ℚ) / x.num).prod
  prod_le : Rat.divInt n d ≤ result *
    ((halved half maxShareSupply 128 (Rat.divInt n d)).map fun x ↦ 1 + (excess : ℚ) / x.den).prod
  le_two_pow : result ≤ Rat.divInt n d *
    2 ^ (halved half maxShareSupply 128 (Rat.divInt n d)).length
  two_pow_le : Rat.divInt n d ≤ result *
    2 ^ (halved half maxShareSupply 128 (Rat.divInt n d)).length

theorem Reduces.of_halving {half : ℤ → ℤ} {excess : ℕ} (h : Halving half excess) {n d : ℤ}
    (hn : 0 < n) (hd : 0 < d) (hn' : n < 2 ^ 127) (hd' : d < 2 ^ 127) :
    Reduces half excess n d (reduce half maxShareSupply 128 (Rat.divInt n d)) := by
  have hwidth : Parts (2 ^ 127 - 1) (Rat.divInt n d) :=
    parts_divInt hn hd (Int.le_sub_one_of_lt hn') (Int.le_sub_one_of_lt hd')
  have hfuel : Parts (2 ^ 128 + 2) (Rat.divInt n d) := hwidth.mono (by decide)
  have hway : ∀ x ∈ halved half maxShareSupply 128 (Rat.divInt n d), Parts (2 ^ 127 - 1) x :=
    h.parts_halved hwidth
  obtain ⟨hup, hdown, hup', hdown'⟩ := h.reduce_within hwidth.pos
  refine ⟨⟨hn', hd'⟩, h.parts_reduce (by decide) hfuel, hway, ?_, hup, hdown, hup', hdown'⟩
  intro x hx
  have hparts := hway x hx
  have hnum := (h.le_self _ hparts.pos).trans hparts.num_le
  have hden := (h.le_self _ (den_pos x)).trans hparts.den_le
  exact ⟨Int.lt_of_le_sub_one hnum, Int.lt_of_le_sub_one hden⟩

/-! ## The prices of a position and of a feed -/

/-- A positive amount up to the largest supply. -/
def Supplied (a : Asset) : Prop := 0 < a.amount ∧ a.amount ≤ maxShareSupply

/-- The range in which `validate` wants the ratios of a feed. -/
def PriceFeed.RatiosInRange (f : PriceFeed) : Prop :=
  (minCollateralRatio ≤ f.maximumShortSqueezeRatio ∧
    f.maximumShortSqueezeRatio ≤ maxCollateralRatio) ∧
    minCollateralRatio ≤ f.maintenanceCollateralRatio ∧
      f.maintenanceCollateralRatio ≤ maxCollateralRatio

instance (f : PriceFeed) : Decidable f.RatiosInRange := inferInstanceAs (Decidable (_ ∧ _))

variable {debt collateral : Asset} {ratio : ℕ} {f : PriceFeed}

/-- The exact price is `debt * ratio` over `collateral * GRAPHENE_COLLATERAL_RATIO_DENOM`. -/
def CallPriceRight (debt collateral : Asset) (ratio : ℕ) : Prop :=
  ∃ cp : ℚ, Reduces halfPast 2 (debt.amount * ratio) (collateral.amount * collateralRatioDenom) cp ∧
    Price.callPrice debt collateral ratio =
      .ok ⟨⟨cp.den, collateral.assetId⟩, ⟨cp.num, debt.assetId⟩⟩

/-- The exact price is the settlement price over `maximum_short_squeeze_ratio`. -/
def SqueezePriceRight (f : PriceFeed) : Prop :=
  ∃ cp : ℚ, Reduces halfUp 1 (f.settlementPrice.base.amount * collateralRatioDenom)
      (f.settlementPrice.quote.amount * f.maximumShortSqueezeRatio) cp ∧
    f.maxShortSqueezePrice =
      .ok ⟨⟨cp.num, f.settlementPrice.base.assetId⟩, ⟨cp.den, f.settlementPrice.quote.assetId⟩⟩

/-- An amount times a ratio is far below the end of the 128 bits. -/
theorem mul_ratio_lt {a : Asset} (ha : Supplied a) (hratio : ratio ≤ PriceFeed.maxCollateralRatio) :
    a.amount * ratio < 2 ^ 127 := by
  have hmax : (ratio : ℤ) ≤ PriceFeed.maxCollateralRatio := by exact_mod_cast hratio
  calc a.amount * ratio ≤ maxShareSupply * PriceFeed.maxCollateralRatio :=
      mul_le_mul ha.2 hmax (Int.natCast_nonneg ratio) (ha.1.le.trans ha.2)
    _ < 2 ^ 127 := by decide

theorem callPriceRight (hdebt : Supplied debt) (hcollateral : Supplied collateral)
    (hids : debt.assetId ≠ collateral.assetId) (hratio : 0 < ratio)
    (hratio' : ratio ≤ PriceFeed.maxCollateralRatio) : CallPriceRight debt collateral ratio := by
  have hnum : 0 < debt.amount * ratio := mul_pos hdebt.1 (by exact_mod_cast hratio)
  have hden : 0 < collateral.amount * collateralRatioDenom := mul_pos hcollateral.1 (by decide)
  have hreduces := Reduces.of_halving halving_halfPast hnum hden (mul_ratio_lt hdebt hratio')
    (mul_ratio_lt hcollateral (by decide))
  refine ⟨_, hreduces, ?_⟩
  simp only [Price.callPrice, Checked.bind_eq_ok, demand_eq_ok, per_eq_ok, Checked.pure_eq_ok]
  refine ⟨(), hcollateral.1.ne', _, ⟨hids, rfl⟩, ?_⟩
  rw [Rat.divInt_mul_divInt, Price.reduceCall_eq_reduce, Price.inverse]

theorem squeezePriceRight (hbase : Supplied f.settlementPrice.base)
    (hquote : Supplied f.settlementPrice.quote)
    (hids : f.settlementPrice.base.assetId ≠ f.settlementPrice.quote.assetId)
    (hratio : 0 < f.maximumShortSqueezeRatio)
    (hratio' : f.maximumShortSqueezeRatio ≤ PriceFeed.maxCollateralRatio) :
    SqueezePriceRight f := by
  have hnum : 0 < f.settlementPrice.base.amount * collateralRatioDenom :=
    mul_pos hbase.1 (by decide)
  have hden : 0 < f.settlementPrice.quote.amount * f.maximumShortSqueezeRatio :=
    mul_pos hquote.1 (by exact_mod_cast hratio)
  have hreduces := Reduces.of_halving halving_halfUp hnum hden
    (mul_ratio_lt hbase (by decide)) (mul_ratio_lt hquote hratio')
  refine ⟨_, hreduces, ?_⟩
  simp only [PriceFeed.maxShortSqueezePrice, Checked.bind_eq_ok, demand_eq_ok, per_eq_ok]
  refine ⟨(), hquote.1.ne', (), hratio.ne', hids, ?_⟩
  rw [Rat.divInt_mul_divInt, PriceFeed.reduceSqueeze_eq_reduce]

/-! ## Feeds without a settlement price -/

theorem Price.IsNull.ids {p : Price} (h : p.IsNull) : p.base.assetId = p.quote.assetId :=
  h.1.trans h.2.1.symm

/-- `validate` skips the check of a null price, and its last line divides by the price. -/
theorem PriceFeed.validate_null (hnull : f.settlementPrice.IsNull) : f.validate ≠ .ok () := by
  intro h
  simp only [PriceFeed.validate, PriceFeed.maxShortSqueezePrice, Checked.bind_eq_ok, demand_eq_ok,
    require_eq_ok, per_eq_ok] at h
  obtain ⟨-, -, -, -, -, -, -, -, -, -, -, ⟨-, -, -, -, hids, -⟩, -⟩ := h
  exact hids hnull.ids

/-- The default feed divides by zero. -/
theorem PriceFeed.validate_default :
    ({} : PriceFeed).RatiosInRange ∧ ({} : PriceFeed).settlementPrice.IsNull ∧
      ({} : PriceFeed).validate = .error .badRational := by
  decide

/-- The prices of a position and of its feed: both loops are right, and a feed without a
settlement price is valid. -/
def PricesRight (debt collateral : Asset) (f : PriceFeed) : Prop :=
  (Supplied debt → Supplied collateral → debt.assetId ≠ collateral.assetId → f.RatiosInRange →
    CallPriceRight debt collateral f.maintenanceCollateralRatio ∧
      SqueezePriceRight { f with settlementPrice := ⟨debt, collateral⟩ }) ∧
    (f.settlementPrice.IsNull → f.RatiosInRange → f.validate = .ok ())

/-- The loops are right for every position and every feed, and `validate` accepts no feed
without a settlement price. -/
theorem pricesRight_iff (debt collateral : Asset) (f : PriceFeed) :
    PricesRight debt collateral f ↔ (f.RatiosInRange → ¬f.settlementPrice.IsNull) := by
  constructor
  · intro hright hrange hnull
    exact PriceFeed.validate_null hnull (hright.2 hnull hrange)
  · intro hfeed
    refine ⟨?_, fun hnull hrange ↦ absurd hnull (hfeed hrange)⟩
    intro hdebt hcollateral hids hrange
    obtain ⟨⟨hsqueeze, hsqueeze'⟩, hcall, hcall'⟩ := hrange
    have hmin : 0 < PriceFeed.minCollateralRatio := by decide
    exact ⟨callPriceRight hdebt hcollateral hids (hmin.trans_le hcall) hcall',
      squeezePriceRight hdebt hcollateral hids (hmin.trans_le hsqueeze) hsqueeze'⟩

/-- Publishing the pair of null prices, which `is_for` calls valid for any feed. -/
theorem not_pricesRight_default :
    (∀ id, ({} : PriceFeed).IsFor id) ∧ ¬PricesRight ⟨1, 1⟩ ⟨1, 0⟩ {} := by
  refine ⟨fun id ↦ ⟨fun hset ↦ absurd (by decide) hset, fun _ hset ↦ absurd (by decide) hset⟩, ?_⟩
  intro hright
  obtain ⟨hrange, hnull, hvalidate⟩ := PriceFeed.validate_default
  rw [hright.2 hnull hrange] at hvalidate
  exact nomatch hvalidate

end KarmaCore.Market
