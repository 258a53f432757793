import Mathlib
import KarmaCore.Market.MarketObject

/-!
# Filling, cancelling and matching orders

The functions of `db_market.cpp` on one or two orders, and the global settlement
of an asset, which fills all of its call orders.
-/

namespace KarmaCore.Market

open Transfer (get)

/-- `account_statistics_object::pay_fee`. -/
def AccountStatistics.payFee (coreFee cashbackVestingThreshold : ℤ) (b : AccountStatistics) :
    Checked AccountStatistics :=
  if cashbackVestingThreshold < coreFee then do
    return { b with pendingFees := ← checkedShare (b.pendingFees + coreFee) }
  else do
    return { b with pendingVestedFees := ← checkedShare (b.pendingVestedFees + coreFee) }

/-- Takes an amount out of `total_core_in_orders` when it is of the core asset. -/
def AccountStatistics.leaveOrders (amount : Asset) (b : AccountStatistics) :
    Checked AccountStatistics :=
  whenever (amount.assetId = coreAsset) (fun b ↦ do
    return { b with totalCoreInOrders := ← checkedShare (b.totalCoreInOrders - amount.amount) }) b

/-- Adds an amount to `total_core_in_orders` when it is of the core asset. -/
def AccountStatistics.enterOrders (amount : Asset) (b : AccountStatistics) :
    Checked AccountStatistics :=
  whenever (amount.assetId = coreAsset) (fun b ↦ do
    return { b with totalCoreInOrders := ← checkedShare (b.totalCoreInOrders + amount.amount) }) b

/-- The collateral that a covered position frees leaves `total_core_in_orders` whatever
asset it is of. -/
def AccountStatistics.freeCollateral : Option Asset → AccountStatistics → Checked AccountStatistics
  | some freed, b => whenever (0 < freed.amount) (fun b ↦ do
      return { b with totalCoreInOrders := ← checkedShare (b.totalCoreInOrders - freed.amount) }) b
  | none, b => .ok b

def AssetDynamicData.addSupply (amount : ℤ) (d : AssetDynamicData) : Checked AssetDynamicData := do
  return { d with currentSupply := ← checkedShare (d.currentSupply + amount) }

def AssetDynamicData.subSupply (amount : ℤ) (d : AssetDynamicData) : Checked AssetDynamicData := do
  return { d with currentSupply := ← checkedShare (d.currentSupply - amount) }

namespace MarketState

/-! ## Fees and payments -/

def payMarketFees (recvAsset : AssetId) (receives : Asset) (s : MarketState) :
    Checked (Asset × MarketState) := do
  let asset ← get (s.assets.find recvAsset)
  let issuerFees := asset.calculateMarketFee recvAsset receives
  let s ← whenever (0 < issuerFees.amount) (modifyDynamicData recvAsset fun d ↦ do
    return { d with accumulatedFees := ← checkedShare (d.accumulatedFees + issuerFees.amount) }) s
  return (issuerFees, s)

def payOrder (receiver : AccountId) (receives pays : Asset) (s : MarketState) :
    Checked MarketState := do
  let s ← s.modifyStatistics receiver (·.leaveOrders pays)
  s.adjustBalance receiver receives

/-! ## Cancelling -/

def cancelLimitOrder (id : ℕ) (s : MarketState) : Checked MarketState := do
  let order ← deref (s.limitOrders.find id)
  let refunded := order.amountForSale
  let s ← s.modifyStatistics order.seller (·.leaveOrders refunded)
  let s ← s.adjustBalance order.seller refunded
  let s ← s.adjustBalance order.seller ⟨order.deferredFee, coreAsset⟩
  return { s with limitOrders := s.limitOrders.remove id }

def cancelSettlement (id : ℕ) (s : MarketState) : Checked MarketState := do
  let order ← deref (s.forceSettlements.find id)
  let s ← s.adjustBalance order.owner order.balance
  return { s with forceSettlements := s.forceSettlements.remove id }

def cancelBid (id : ℕ) (s : MarketState) : Checked MarketState := do
  let bid ← deref (s.collateralBids.find id)
  let s ← s.adjustBalance bid.bidder bid.invSwanPrice.base
  return { s with collateralBids := s.collateralBids.remove id }

def maybeCullSmallOrder (id : ℕ) (s : MarketState) : Checked (Bool × MarketState) := do
  let order ← deref (s.limitOrders.find id)
  let toReceive ← order.amountToReceive
  if toReceive.amount = 0 then do
    let s ← s.cancelLimitOrder id
    return (true, s)
  else return (false, s)

/-! ## Filling -/

/-- What is left to do with a limit order once both sides of its fill are paid. -/
def reduceLimitOrder (id : ℕ) (order : LimitOrderObject) (pays : Asset) (cullIfSmall : Bool)
    (s : MarketState) : Checked (Bool × MarketState) :=
  if pays = order.amountForSale then
    return (true, { s with limitOrders := s.limitOrders.remove id })
  else do
    let forSale ← checkedShare (order.forSale - pays.amount)
    let order := { order with forSale, deferredFee := 0 }
    let s := { s with limitOrders := s.limitOrders.set id order }
    if cullIfSmall then s.maybeCullSmallOrder id else return (false, s)

def fillLimitOrder (id : ℕ) (pays receives : Asset) (cullIfSmall : Bool) (fillPrice : Price)
    (isMaker : Bool) (s : MarketState) : Checked (Bool × MarketState) := do
  let order ← deref (s.limitOrders.find id)
  let cullIfSmall := cullIfSmall || s.headBlockTime < hardfork555Time
  require (order.amountForSale.assetId = pays.assetId)
    "order.amount_for_sale().asset_id == pays.asset_id"
  require (pays.assetId ≠ receives.assetId) "pays.asset_id != receives.asset_id"
  let _ ← get (s.accounts.find order.seller)
  let (issuerFees, s) ← s.payMarketFees receives.assetId receives
  let s ← s.payOrder order.seller (← receives.sub issuerFees) pays
  let s := s.pushAppliedOperation
    ⟨id, .limit order, pays, receives, issuerFees, fillPrice, isMaker⟩
  let s ← whenever (0 < order.deferredFee) (modifyStatistics order.seller
    (·.payFee order.deferredFee s.parameters.cashbackVestingThreshold)) s
  s.reduceLimitOrder id order pays cullIfSmall

def payBorrower (borrower : AccountId) (collateralFreed : Option Asset) (s : MarketState) :
    Checked MarketState :=
  match collateralFreed with
  | some freed => s.adjustBalance borrower freed
  | none => .ok s

def fillCallOrder (id : ℕ) (pays receives : Asset) (fillPrice : Price) (isMaker : Bool)
    (s : MarketState) : Checked (Bool × MarketState) := do
  let order ← deref (s.callOrders.find id)
  require (order.getDebt.assetId = receives.assetId) "order.get_debt().asset_id == receives.asset_id"
  require (order.getCollateral.assetId = pays.assetId)
    "order.get_collateral().asset_id == pays.asset_id"
  require (pays.amount ≤ order.getCollateral.amount) "order.get_collateral() >= pays"
  let debt ← checkedShare (order.debt - receives.amount)
  let collateral ← checkedShare (order.collateral - pays.amount)
  let collateralFreed := if debt = 0 then some ⟨collateral, order.collateralType⟩ else none
  let reduced := { order with debt, collateral := if debt = 0 then 0 else collateral }
  let s := { s with callOrders := s.callOrders.set id reduced }
  let s ← s.modifyDynamicData receives.assetId (·.subSupply receives.amount)
  let _ ← get (s.accounts.find order.borrower)
  let s ← whenever (collateralFreed.isSome ∨ pays.assetId = coreAsset) (fun s ↦ do
    let s ← s.payBorrower order.borrower collateralFreed
    s.modifyStatistics order.borrower fun b ↦ do
      let b ← b.freeCollateral collateralFreed
      b.leaveOrders pays) s
  let s := s.pushAppliedOperation
    ⟨id, .call order, pays, receives, ⟨0, pays.assetId⟩, fillPrice, isMaker⟩
  if debt = 0 then return (true, { s with callOrders := s.callOrders.remove id })
  else return (false, s)

def fillSettlement (id : ℕ) (pays receives : Asset) (fillPrice : Price) (isMaker : Bool)
    (s : MarketState) : Checked (Bool × MarketState) := do
  let settle ← deref (s.forceSettlements.find id)
  let (issuerFees, s) ← s.payMarketFees receives.assetId receives
  let isPart ← pays.lt settle.balance
  let s ← whenever (isPart = true) (fun s ↦ do
    let balance ← settle.balance.sub pays
    return { s with forceSettlements := s.forceSettlements.set id { settle with balance } }) s
  let s ← s.adjustBalance settle.owner (← receives.sub issuerFees)
  let s := s.pushAppliedOperation
    ⟨id, .settlement settle, pays, receives, issuerFees, fillPrice, isMaker⟩
  if isPart then return (false, s)
  else return (true, { s with forceSettlements := s.forceSettlements.remove id })

/-! ## Matching -/

/-- What the taker of a match receives and what it pays. -/
def matchedAmounts (usdForSale coreForSale : Asset) (matchPrice : Price) :
    Checked (Asset × Asset) := do
  let coreValue ← times coreForSale matchPrice
  let takerFills ← usdForSale.le coreValue
  if takerFills then do
    let usdReceives ← times usdForSale matchPrice
    return (usdReceives, usdForSale)
  else do
    let coreReceives ← times coreForSale matchPrice
    return (coreForSale, coreReceives)

/-- Matches a new order with an old one: 1 when the new one was filled, 2 when the old one
was, 3 when both were. -/
def matchLimitOrders (usd core : ℕ) (matchPrice : Price) (s : MarketState) :
    Checked (ℕ × MarketState) := do
  let usdOrder ← deref (s.limitOrders.find usd)
  let coreOrder ← deref (s.limitOrders.find core)
  let (usdReceives, coreReceives) ←
    matchedAmounts usdOrder.amountForSale coreOrder.amountForSale matchPrice
  let (usdFilled, s) ← s.fillLimitOrder usd coreReceives usdReceives false matchPrice false
  let (coreFilled, s) ← s.fillLimitOrder core usdReceives coreReceives true matchPrice true
  return (usdFilled.toNat + 2 * coreFilled.toNat, s)

/-- Matches a call order with a force settlement and tells how much was settled. -/
def matchSettlement (call settle : ℕ) (matchPrice : Price) (maxSettlement : Asset)
    (s : MarketState) : Checked (Asset × MarketState) := do
  let callOrder ← deref (s.callOrders.find call)
  let settlement ← deref (s.forceSettlements.find settle)
  require (callOrder.getDebt.assetId = settlement.balance.assetId)
    "call.get_debt().asset_id == settle.balance.asset_id"
  require (0 < callOrder.debt ∧ 0 < callOrder.collateral ∧ 0 < settlement.balance.amount)
    "call.debt > 0 && call.collateral > 0 && settle.balance.amount > 0"
  let capped ← maxSettlement.lt settlement.balance
  let settleForSale := if capped then maxSettlement else settlement.balance
  let covered ← callOrder.getDebt.lt settleForSale
  let callReceives := if covered then callOrder.getDebt else settleForSale
  let callPays ← times callReceives matchPrice
  let backed ← callPays.lt callOrder.getCollateral
  demand (backed = true) .blackSwan
  let (_, s) ← s.fillCallOrder call callPays callReceives matchPrice true
  let (_, s) ← s.fillSettlement settle callReceives callPays matchPrice false
  return (callReceives, s)

/-! ## Global settlement -/

/-- What a call order pays into the settlement fund. -/
def seizedCollateral (order : CallOrderObject) (settlementPrice : Price) : Checked Asset := do
  let pays ← times order.getDebt settlementPrice
  let backed ← pays.le order.getCollateral
  return if backed then pays else order.getCollateral

def closeCallOrders (settlementPrice : Price) : List ℕ → Asset → MarketState →
    Checked (Asset × MarketState)
  | [], gathered, s => .ok (gathered, s)
  | id :: ids, gathered, s => do
      let order ← deref (s.callOrders.find id)
      let pays ← seizedCollateral order settlementPrice
      let gathered ← gathered.add pays
      let (filled, s) ← s.fillCallOrder id pays order.getDebt settlementPrice true
      require (filled = true) "fill_order( order, pays, order.get_debt(), settlement_price, true )"
      closeCallOrders settlementPrice ids gathered s

def globallySettleAsset (mia : AssetId) (settlementPrice : Price) (s : MarketState) :
    Checked MarketState := do
  let asset ← get (s.assets.find mia)
  let bitasset ← asset.getBitassetData
  require (¬bitasset.HasSettlement) "black swan already occurred, it should not happen again"
  let backing := bitasset.options.shortBackingAsset
  let _ ← get (s.assets.find backing)
  let originalMiaSupply := asset.dynamicData.currentSupply
  let lowest ← Price.lowest backing mia
  let highest ← Price.highest backing mia
  let calls := (s.callsBetween lowest highest).map Prod.fst
  let (gathered, s) ← closeCallOrders settlementPrice calls ⟨0, backing⟩ s
  let recorded ← per ⟨originalMiaSupply, mia⟩ gathered
  let s ← s.modifyBitassetData mia fun b ↦
    .ok { b with settlementPrice := recorded, settlementFund := gathered.amount }
  s.modifyDynamicData mia fun d ↦ .ok { d with currentSupply := originalMiaSupply }

end MarketState

end KarmaCore.Market
