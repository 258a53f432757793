import Mathlib
import KarmaCore.Market.MarketRun

/-!
# The books of the market

Every holder of an asset and every supply is an entry in one book by asset, and
every order and statistic of the core in orders an entry in another by account.
The books are additive, so that what a step does to them is the sum of what it
does to single entries.
-/

namespace KarmaCore.Market

open Transfer (get)

/-- What is held of each asset beyond its supply, and what each account's statistics count
beyond the core in its orders. -/
abbrev Books := (AssetId → ℤ) × (AccountId → ℤ)

namespace Books

/-- An amount of an asset that is held. -/
def held (id : AssetId) : ℤ →+ Books :=
  (AddMonoidHom.inl _ _).comp (AddMonoidHom.single (fun _ ↦ ℤ) id)

/-- An amount of core that an account's statistics count. -/
def counted (acct : AccountId) : ℤ →+ Books :=
  (AddMonoidHom.inr _ _).comp (AddMonoidHom.single (fun _ ↦ ℤ) acct)

/-- An amount of an asset in an account's orders, which counts when it is of the core asset. -/
def inOrders (acct : AccountId) (id : AssetId) : ℤ →+ Books :=
  if id = coreAsset then counted acct else 0

theorem held_fst (id : AssetId) (x : ℤ) (a : AssetId) :
    (held id x).1 a = (Asset.mk x id).part a := by
  simp only [held, AddMonoidHom.comp_apply, AddMonoidHom.inl_apply, AddMonoidHom.single_apply,
    Asset.part, Pi.single_apply]
  grind

@[simp] theorem held_snd (id : AssetId) (x : ℤ) (acct : AccountId) : (held id x).2 acct = 0 := by
  simp [held]

@[simp] theorem counted_fst (acct : AccountId) (x : ℤ) (a : AssetId) : (counted acct x).1 a = 0 := by
  simp [counted]

theorem counted_snd (acct : AccountId) (x : ℤ) (b : AccountId) :
    (counted acct x).2 b = if b = acct then x else 0 := by
  simp [counted, Pi.single_apply]

@[simp] theorem inOrders_core (acct : AccountId) : inOrders acct coreAsset = counted acct := if_pos rfl

theorem inOrders_of_ne {acct : AccountId} {id : AssetId} (h : id ≠ coreAsset) :
    inOrders acct id = 0 := if_neg h

end Books

open Books

/-! ## Entries -/

/-- The core a covered position frees without its being in the borrower's orders. -/
def FillOrderOperation.stray (f : FillOrderOperation) : Books :=
  match f.order with
  | .call c =>
      if c.collateralType ≠ coreAsset ∧ c.debt = f.receives.amount ∧ f.pays.amount < c.collateral then
        counted c.borrower (c.collateral - f.pays.amount)
      else 0
  | _ => 0

def LimitOrderObject.books (o : LimitOrderObject) : Books :=
  held o.sellPrice.base.assetId o.forSale + held coreAsset o.deferredFee -
    inOrders o.seller o.sellPrice.base.assetId o.forSale

def CallOrderObject.books (c : CallOrderObject) : Books :=
  held c.collateralType c.collateral - inOrders c.borrower c.collateralType c.collateral

/-- What a settlement fund holds of the backing asset. -/
def AssetObject.fund (a : AssetObject) : Books :=
  match a.bitassetData with
  | some b => held b.options.shortBackingAsset b.settlementFund
  | none => 0

def AssetDynamicData.books (id : AssetId) (d : AssetDynamicData) : Books :=
  held id (d.accumulatedFees + d.confidentialSupply - d.currentSupply) + held coreAsset d.feePool

def AssetObject.books (id : AssetId) (a : AssetObject) : Books := a.dynamicData.books id + a.fund

def AccountStatistics.books (acct : AccountId) (b : AccountStatistics) : Books :=
  held coreAsset (b.pendingFees + b.pendingVestedFees) + counted acct b.totalCoreInOrders

def balanceBooks (bs : List AccountBalance) : Books := (fun a ↦ totalOf a bs, 0)

namespace MarketState

def books (s : MarketState) : Books :=
  balanceBooks s.balances + s.accounts.total (fun id a ↦ a.statistics.books id) +
    s.assets.total AssetObject.books + s.limitOrders.total (fun _ o ↦ o.books) +
    s.callOrders.total (fun _ c ↦ c.books) +
    s.forceSettlements.total (fun _ o ↦ held o.balance.assetId o.balance.amount) +
    s.collateralBids.total (fun _ b ↦ held b.invSwanPrice.base.assetId b.invSwanPrice.base.amount) +
    s.vestingBalances.total (fun _ v ↦ held v.balance.assetId v.balance.amount) +
    s.fbaAccumulators.total (fun _ f ↦ held coreAsset f.accumulatedFbaFees) +
    held coreAsset s.witnessBudget + (s.fills.map FillOrderOperation.stray).sum

end MarketState

end KarmaCore.Market
