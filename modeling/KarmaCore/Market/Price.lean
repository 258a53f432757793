import Mathlib
import KarmaCore.Protocol.Asset

/-!
# Prices

A price is a ratio of two amounts that is kept as it was written.  Products of
amounts are taken in `uint128_t`, which wraps around, and every product with a
price asserts that the result is at most `GRAPHENE_MAX_SHARE_SUPPLY`.
-/

namespace KarmaCore.Market

structure Price where
  base : Asset := ⟨0, 0⟩
  quote : Asset := ⟨0, 0⟩
  deriving DecidableEq, Repr

/-- The product of two shares in `uint128_t`. -/
def mul128 (x y : ℤ) : ℤ := x * y % 2 ^ 128

/-- `GRAPHENE_COLLATERAL_RATIO_DENOM`. -/
def collateralRatioDenom : ℕ := 1000

/-- `base / quote`. -/
def per (base quote : Asset) : Checked Price := do
  require (base.assetId ≠ quote.assetId) "base.asset_id != quote.asset_id"
  return { base, quote }

/-- `a * p`. -/
def times (a : Asset) (p : Price) : Checked Asset :=
  if a.assetId = p.base.assetId then do
    require (0 < p.base.amount) "b.base.amount.value > 0"
    let result := mul128 a.amount p.quote.amount / p.base.amount
    require (result ≤ maxShareSupply) "result <= GRAPHENE_MAX_SHARE_SUPPLY"
    return ⟨result, p.quote.assetId⟩
  else if a.assetId = p.quote.assetId then do
    require (0 < p.quote.amount) "b.quote.amount.value > 0"
    let result := mul128 a.amount p.base.amount / p.quote.amount
    require (result ≤ maxShareSupply) "result <= GRAPHENE_MAX_SHARE_SUPPLY"
    return ⟨result, p.base.assetId⟩
  else .error (.assertion "invalid asset * price")

namespace Price

/-- `a == b`. -/
def Same (a b : Price) : Prop :=
  a.base.assetId = b.base.assetId ∧ a.quote.assetId = b.quote.assetId ∧
    mul128 b.quote.amount a.base.amount = mul128 a.quote.amount b.base.amount

/-- `a < b`. -/
def Lt (a b : Price) : Prop :=
  a.base.assetId < b.base.assetId ∨ a.base.assetId = b.base.assetId ∧
    (a.quote.assetId < b.quote.assetId ∨ a.quote.assetId = b.quote.assetId ∧
      mul128 b.quote.amount a.base.amount < mul128 a.quote.amount b.base.amount)

instance (a b : Price) : Decidable (a.Same b) := inferInstanceAs (Decidable (_ ∧ _))
instance (a b : Price) : Decidable (a.Lt b) := inferInstanceAs (Decidable (_ ∨ _))

/-- `a <= b`. -/
def Le (a b : Price) : Prop := a.Same b ∨ a.Lt b

/-- `a > b`. -/
def Gt (a b : Price) : Prop := ¬a.Le b

/-- `a >= b`. -/
def Ge (a b : Price) : Prop := ¬a.Lt b

instance (a b : Price) : Decidable (a.Le b) := inferInstanceAs (Decidable (_ ∨ _))
instance (a b : Price) : Decidable (a.Gt b) := inferInstanceAs (Decidable (¬_))
instance (a b : Price) : Decidable (a.Ge b) := inferInstanceAs (Decidable (¬_))

/-- `~p`. -/
def inverse (p : Price) : Price := ⟨p.quote, p.base⟩

def IsNull (p : Price) : Prop := p.Same {}

instance (p : Price) : Decidable p.IsNull := inferInstanceAs (Decidable (p.Same _))

/-- `price::max`. -/
def highest (base quote : AssetId) : Checked Price := per ⟨maxShareSupply, base⟩ ⟨1, quote⟩

/-- `price::min`. -/
def lowest (base quote : AssetId) : Checked Price := per ⟨1, base⟩ ⟨maxShareSupply, quote⟩

def validate (p : Price) : Checked Unit := do
  require (0 < p.base.amount) "base.amount > share_type(0)"
  require (0 < p.quote.amount) "quote.amount > share_type(0)"
  require (p.base.assetId ≠ p.quote.assetId) "base.asset_id != quote.asset_id"

/-- The loop of `call_price`; `fuel` is the width of its integers. -/
def reduceCall : ℕ → ℚ → ℚ
  | 0, cp => cp
  | fuel + 1, cp =>
      if maxShareSupply < cp.num ∨ maxShareSupply < cp.den then
        reduceCall fuel (Rat.divInt (cp.num / 2 + 1) (cp.den / 2 + 1))
      else cp

def callPrice (debt collateral : Asset) (collateralRatio : ℕ) : Checked Price := do
  demand (collateral.amount ≠ 0) .badRational
  let swan := Rat.divInt debt.amount collateral.amount
  let ratio := Rat.divInt collateralRatio collateralRatioDenom
  let cp := reduceCall 128 (swan * ratio)
  return (← per ⟨cp.num, debt.assetId⟩ ⟨cp.den, collateral.assetId⟩).inverse

end Price

structure PriceFeed where
  settlementPrice : Price := {}
  coreExchangeRate : Price := {}
  maintenanceCollateralRatio : ℕ := 1750
  maximumShortSqueezeRatio : ℕ := 1500
  deriving DecidableEq, Repr

namespace PriceFeed

/-- The loop of `max_short_squeeze_price`. -/
def reduceSqueeze : ℕ → ℚ → ℚ
  | 0, cp => cp
  | fuel + 1, cp =>
      if maxShareSupply < cp.num ∨ maxShareSupply < cp.den then
        reduceSqueeze fuel (Rat.divInt (cp.num / 2 + cp.num % 2) (cp.den / 2 + cp.den % 2))
      else cp

def maxShortSqueezePrice (f : PriceFeed) : Checked Price := do
  demand (f.settlementPrice.quote.amount ≠ 0) .badRational
  demand (f.maximumShortSqueezeRatio ≠ 0) .badRational
  let sp := Rat.divInt f.settlementPrice.base.amount f.settlementPrice.quote.amount
  let ratio := Rat.divInt collateralRatioDenom f.maximumShortSqueezeRatio
  let cp := reduceSqueeze 128 (sp * ratio)
  per ⟨cp.num, f.settlementPrice.base.assetId⟩ ⟨cp.den, f.settlementPrice.quote.assetId⟩

/-- `a == b`, which leaves the core exchange rate out. -/
def Same (a b : PriceFeed) : Prop :=
  a.settlementPrice.Same b.settlementPrice ∧
    a.maintenanceCollateralRatio = b.maintenanceCollateralRatio ∧
    a.maximumShortSqueezeRatio = b.maximumShortSqueezeRatio

instance (a b : PriceFeed) : Decidable (a.Same b) := inferInstanceAs (Decidable (_ ∧ _))

def minCollateralRatio : ℕ := 1001
def maxCollateralRatio : ℕ := 32000

def validate (f : PriceFeed) : Checked Unit := do
  whenever (¬f.settlementPrice.IsNull) (fun _ ↦ f.settlementPrice.validate) ()
  require (minCollateralRatio ≤ f.maximumShortSqueezeRatio)
    "maximum_short_squeeze_ratio >= GRAPHENE_MIN_COLLATERAL_RATIO"
  require (f.maximumShortSqueezeRatio ≤ maxCollateralRatio)
    "maximum_short_squeeze_ratio <= GRAPHENE_MAX_COLLATERAL_RATIO"
  require (minCollateralRatio ≤ f.maintenanceCollateralRatio)
    "maintenance_collateral_ratio >= GRAPHENE_MIN_COLLATERAL_RATIO"
  require (f.maintenanceCollateralRatio ≤ maxCollateralRatio)
    "maintenance_collateral_ratio <= GRAPHENE_MAX_COLLATERAL_RATIO"
  let _ ← f.maxShortSqueezePrice

/-- The pair of empty prices is a feed for every asset. -/
def IsFor (f : PriceFeed) (id : AssetId) : Prop :=
  (¬f.settlementPrice.IsNull → f.settlementPrice.base.assetId = id) ∧
    (f.settlementPrice.IsNull → ¬f.coreExchangeRate.IsNull → f.coreExchangeRate.base.assetId = id)

instance (f : PriceFeed) (id : AssetId) : Decidable (f.IsFor id) :=
  inferInstanceAs (Decidable (_ ∧ _))

end PriceFeed

/-! ## Prices of one pair -/

theorem Price.Le.base_le {p q : Price} (h : p.Le q) : p.base.assetId ≤ q.base.assetId := by
  rcases h with ⟨h, -, -⟩ | h | ⟨h, -⟩
  · exact h.le
  · exact h.le
  · exact h.le

theorem Price.Le.quote_le {p q : Price} (h : p.Le q) (hbase : p.base.assetId = q.base.assetId) :
    p.quote.assetId ≤ q.quote.assetId := by
  rcases h with ⟨-, h, -⟩ | h | ⟨-, h | ⟨h, -⟩⟩
  · exact h.le
  · exact absurd hbase h.ne
  · exact h.le
  · exact h.le

/-! ## Products below the width -/

theorem mul128_eq {x y : ℤ} (hx : 0 ≤ x) (hx' : x < shareEnd) (hy : 0 ≤ y) (hy' : y < shareEnd) :
    mul128 x y = x * y := by
  have hlt : x * y < shareEnd * shareEnd := mul_lt_mul'' hx' hy' hx hy
  have hend : shareEnd * shareEnd < 2 ^ 128 := by decide
  exact Int.emod_eq_of_lt (mul_nonneg hx hy) (hlt.trans hend)

/-- Wrapping around makes a product no larger. -/
theorem mul128_le {x y : ℤ} (h : 0 ≤ x * y) : mul128 x y ≤ x * y := by
  have hdiv : 0 ≤ x * y / 2 ^ 128 := Int.ediv_nonneg h (by decide)
  have hsplit := Int.mul_ediv_add_emod (x * y) (2 ^ 128)
  unfold mul128
  omega

theorem mul128_nonneg (x y : ℤ) : 0 ≤ mul128 x y := Int.emod_nonneg _ (by decide)

theorem per_eq_ok {base quote : Asset} {p : Price} :
    per base quote = .ok p ↔ base.assetId ≠ quote.assetId ∧ ⟨base, quote⟩ = p := by
  simp only [per, Checked.bind_eq_ok, require_eq_ok, Checked.pure_eq_ok]
  grind

/-- A product with a price counts the other side's asset and is never negative. -/
theorem times_eq_ok {a b : Asset} {p : Price} : times a p = .ok b ↔
    (a.assetId = p.base.assetId ∧ 0 < p.base.amount ∧
      mul128 a.amount p.quote.amount / p.base.amount ≤ maxShareSupply ∧
      ⟨mul128 a.amount p.quote.amount / p.base.amount, p.quote.assetId⟩ = b) ∨
    (a.assetId ≠ p.base.assetId ∧ a.assetId = p.quote.assetId ∧ 0 < p.quote.amount ∧
      mul128 a.amount p.base.amount / p.quote.amount ≤ maxShareSupply ∧
      ⟨mul128 a.amount p.base.amount / p.quote.amount, p.base.assetId⟩ = b) := by
  unfold times
  split_ifs with hbase hquote
  · simp only [Checked.bind_eq_ok, require_eq_ok, Checked.pure_eq_ok]
    grind
  · simp only [Checked.bind_eq_ok, require_eq_ok, Checked.pure_eq_ok]
    grind
  · simp [hbase, hquote]

theorem times_nonneg {a b : Asset} {p : Price} (h : times a p = .ok b) : 0 ≤ b.amount := by
  rcases times_eq_ok.mp h with ⟨-, hpos, -, rfl⟩ | ⟨-, -, hpos, -, rfl⟩
  · exact Int.ediv_nonneg (mul128_nonneg _ _) hpos.le
  · exact Int.ediv_nonneg (mul128_nonneg _ _) hpos.le

end KarmaCore.Market
