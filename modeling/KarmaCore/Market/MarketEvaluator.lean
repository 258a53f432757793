import Mathlib
import KarmaCore.Market.CollateralBid
import KarmaCore.Market.MarginCall

/-!
# The evaluators of market operations

Creating and cancelling limit orders, changing a margin position and bidding
collateral for the debt of a settled asset.
-/

namespace KarmaCore.Market

open Transfer (get)

structure LimitOrderCreateOperation where
  fee : Asset := ⟨0, coreAsset⟩
  seller : AccountId
  amountToSell : Asset
  minToReceive : Asset
  expiration : ℕ
  fillOrKill : Bool := false

structure LimitOrderCancelOperation where
  fee : Asset := ⟨0, coreAsset⟩
  order : ℕ
  feePayingAccount : AccountId

structure CallOrderUpdateOperation where
  fee : Asset := ⟨0, coreAsset⟩
  fundingAccount : AccountId
  deltaCollateral : Asset
  deltaDebt : Asset

structure BidCollateralOperation where
  fee : Asset := ⟨0, coreAsset⟩
  bidder : AccountId
  additionalCollateral : Asset
  debtCovered : Asset

namespace LimitOrderCreateOperation

def validate (op : LimitOrderCreateOperation) : Checked Unit := do
  require (op.amountToSell.assetId ≠ op.minToReceive.assetId)
    "amount_to_sell.asset_id != min_to_receive.asset_id"
  require (0 ≤ op.fee.amount) "fee.amount >= 0"
  require (0 < op.amountToSell.amount) "amount_to_sell.amount > 0"
  require (0 < op.minToReceive.amount) "min_to_receive.amount > 0"

def getPrice (op : LimitOrderCreateOperation) : Checked Price := per op.amountToSell op.minToReceive

def doEvaluate (op : LimitOrderCreateOperation) (s : MarketState) : Checked Unit := do
  require (s.headBlockTime ≤ op.expiration) "op.expiration >= d.head_block_time()"
  let sellAsset ← get (s.assets.find op.amountToSell.assetId)
  let _ ← get (s.assets.find op.minToReceive.assetId)
  require (sellAsset.options.whitelistMarkets ≠ ∅ →
      op.minToReceive.assetId ∈ sellAsset.options.whitelistMarkets)
    "_sell_asset->options.whitelist_markets.find(_receive_asset->id)"
  require (op.minToReceive.assetId ∉ sellAsset.options.blacklistMarkets)
    "_sell_asset->options.blacklist_markets.find(_receive_asset->id)"
  let sellAuthorized ← s.isAuthorizedAsset op.seller op.amountToSell.assetId
  require (sellAuthorized = true) "is_authorized_asset( d, *_seller, *_sell_asset )"
  let receiveAuthorized ← s.isAuthorizedAsset op.seller op.minToReceive.assetId
  require (receiveAuthorized = true) "is_authorized_asset( d, *_seller, *_receive_asset )"
  require (op.amountToSell.amount ≤ (s.getBalance op.seller op.amountToSell.assetId).amount)
    "insufficient balance"

/-- `deferredFee` is what the evaluator's own `pay_fee` put aside. -/
def doApply (op : LimitOrderCreateOperation) (deferredFee : ℤ) (s : MarketState) :
    Checked MarketState := do
  let s ← s.modifyStatistics op.seller (·.enterOrders op.amountToSell)
  let s ← s.adjustBalance op.seller (← op.amountToSell.neg)
  let sellPrice ← op.getPrice
  let order : LimitOrderObject :=
    { op with forSale := op.amountToSell.amount, sellPrice, deferredFee }
  let orderId := s.limitOrders.nextId
  let s := { s with limitOrders := s.limitOrders.create order }
  let (filled, s) ← s.applyOrder orderId true
  require (op.fillOrKill → filled = true) "!op.fill_or_kill || filled"
  return s

end LimitOrderCreateOperation

namespace LimitOrderCancelOperation

def validate (op : LimitOrderCancelOperation) : Checked Unit :=
  require (0 ≤ op.fee.amount) "fee.amount >= 0"

def doEvaluate (op : LimitOrderCancelOperation) (s : MarketState) : Checked Unit := do
  let order ← get (s.limitOrders.find op.order)
  require (order.seller = op.feePayingAccount) "_order->seller == o.fee_paying_account"

def doApply (op : LimitOrderCancelOperation) (s : MarketState) : Checked MarketState := do
  let order ← deref (s.limitOrders.find op.order)
  let s ← s.cancelLimitOrder op.order
  let (_, s) ← s.checkCallOrders order.sellPrice.base.assetId true false
  let (_, s) ← s.checkCallOrders order.sellPrice.quote.assetId true false
  return s

end LimitOrderCancelOperation

namespace CallOrderUpdateOperation

def validate (op : CallOrderUpdateOperation) : Checked Unit := do
  require (0 ≤ op.fee.amount) "fee.amount >= 0"
  require (op.deltaCollateral.assetId ≠ op.deltaDebt.assetId)
    "delta_collateral.asset_id != delta_debt.asset_id"
  require (op.deltaCollateral.amount ≠ 0 ∨ op.deltaDebt.amount ≠ 0)
    "delta_collateral.amount != 0 || delta_debt.amount != 0"

def doEvaluate (op : CallOrderUpdateOperation) (s : MarketState) : Checked Unit := do
  let _ ← get (s.accounts.find op.fundingAccount)
  let debtAsset ← get (s.assets.find op.deltaDebt.assetId)
  require debtAsset.isMarketIssued
    "Unable to cover ${sym} as it is not a collateralized asset."
  let bitasset ← debtAsset.getBitassetData
  require (¬bitasset.HasSettlement) "!_bitasset_data->has_settlement()"
  require (op.deltaCollateral.assetId = bitasset.options.shortBackingAsset)
    "o.delta_collateral.asset_id == _bitasset_data->options.short_backing_asset"
  require (bitasset.isPredictionMarket → op.deltaCollateral.amount = op.deltaDebt.amount)
    "o.delta_collateral.amount == o.delta_debt.amount"
  demand (bitasset.isPredictionMarket ∨ ¬bitasset.currentFeed.settlementPrice.IsNull)
    .insufficientFeeds
  require (op.deltaDebt.amount < 0 →
      op.deltaDebt.amount ≤ (s.getBalance op.fundingAccount op.deltaDebt.assetId).amount)
    "Cannot cover by ${c} when payer only has ${b}"
  require (0 < op.deltaCollateral.amount →
      op.deltaCollateral.amount ≤ (s.getBalance op.fundingAccount op.deltaCollateral.assetId).amount)
    "Cannot increase collateral by ${c} when payer only has ${b}"

def applyDebt (op : CallOrderUpdateOperation) (s : MarketState) : Checked MarketState := do
  let s ← s.adjustBalance op.fundingAccount op.deltaDebt
  s.modifyDynamicData op.deltaDebt.assetId (·.addSupply op.deltaDebt.amount)

def applyCollateral (op : CallOrderUpdateOperation) (s : MarketState) : Checked MarketState := do
  let s ← s.adjustBalance op.fundingAccount (← op.deltaCollateral.neg)
  s.modifyStatistics op.fundingAccount (·.enterOrders op.deltaCollateral)

/-- The call order a funding account has in the debt asset. -/
def findCallOrder (op : CallOrderUpdateOperation) (s : MarketState) :
    Option (ℕ × CallOrderObject) :=
  s.callOrders.objects.find? fun o ↦
    o.2.borrower = op.fundingAccount ∧ o.2.debtType = op.deltaDebt.assetId

def openCallOrder (op : CallOrderUpdateOperation) (feed : PriceFeed) (s : MarketState) :
    Checked (ℕ × MarketState) := do
  require (0 < op.deltaCollateral.amount) "o.delta_collateral.amount > 0"
  require (0 < op.deltaDebt.amount) "o.delta_debt.amount > 0"
  let callPrice ← Price.callPrice op.deltaDebt op.deltaCollateral feed.maintenanceCollateralRatio
  let id := s.callOrders.nextId
  let s ← s.createCallOrder
    ⟨op.fundingAccount, op.deltaCollateral.amount, op.deltaDebt.amount, callPrice⟩
  return (id, s)

/-- The call price of a position with new amounts; one without debt keeps its price. -/
def newCallPrice (feed : PriceFeed) (call : CallOrderObject) : Checked Price :=
  if 0 < call.debt then
    Price.callPrice call.getDebt call.getCollateral feed.maintenanceCollateralRatio
  else .ok call.callPrice

def changeCallOrder (op : CallOrderUpdateOperation) (feed : PriceFeed) (id : ℕ)
    (call : CallOrderObject) (s : MarketState) : Checked (ℕ × MarketState) := do
  let collateral ← checkedShare (call.collateral + op.deltaCollateral.amount)
  let debt ← checkedShare (call.debt + op.deltaDebt.amount)
  let callPrice ← newCallPrice feed { call with collateral, debt }
  return (id, { s with callOrders := s.callOrders.set id { call with collateral, debt, callPrice } })

def updateCallOrder (op : CallOrderUpdateOperation) (feed : PriceFeed) (s : MarketState) :
    Checked (ℕ × MarketState) :=
  match op.findCallOrder s with
  | none => op.openCallOrder feed s
  | some (id, call) => op.changeCallOrder feed id call s

/-- Whether the position may stay as it is now, or was called in full. -/
def checkMarginCall (op : CallOrderUpdateOperation) (feed : PriceFeed) (id : ℕ) (s : MarketState) :
    Checked MarketState := do
  let (called, s) ← s.checkCallOrders op.deltaDebt.assetId false false
  if called then do
    demand (s.callOrders.find id = none) .unfilledMarginCall
    return s
  else
    match s.callOrders.find id with
    | none => .error (.assertion "no margin call was executed and yet the call object was deleted")
    | some call => do
        demand (call.callPrice.inverse.Lt feed.settlementPrice) .unfilledMarginCall
        return s

def settleCallOrder (op : CallOrderUpdateOperation) (bitasset : AssetBitassetData) (id : ℕ)
    (s : MarketState) : Checked MarketState := do
  let call ← deref (s.callOrders.find id)
  if call.debt = 0 then do
    require (call.collateral = 0) "call_obj->collateral == 0"
    return { s with callOrders := s.callOrders.remove id }
  else do
    require (0 < call.collateral ∧ 0 < call.debt) "call_obj->collateral > 0 && call_obj->debt > 0"
    if bitasset.isPredictionMarket then return s
    else op.checkMarginCall bitasset.currentFeed id s

def doApply (op : CallOrderUpdateOperation) (s : MarketState) : Checked MarketState := do
  let bitasset ← s.getBitassetData op.deltaDebt.assetId
  let s ← whenever (op.deltaDebt.amount ≠ 0) op.applyDebt s
  let s ← whenever (op.deltaCollateral.amount ≠ 0) op.applyCollateral s
  let (id, s) ← op.updateCallOrder bitasset.currentFeed s
  op.settleCallOrder bitasset id s

end CallOrderUpdateOperation

namespace BidCollateralOperation

def validate (op : BidCollateralOperation) : Checked Unit := do
  require (0 ≤ op.fee.amount) "fee.amount >= 0"
  require (op.debtCovered.amount = 0 ∨
      0 < op.debtCovered.amount ∧ 0 < op.additionalCollateral.amount)
    "debt_covered.amount == 0 || (debt_covered.amount > 0 && additional_collateral.amount > 0)"

/-- The bid the bidder has for the debt asset. -/
def findBid (op : BidCollateralOperation) (s : MarketState) : Option ℕ :=
  (s.collateralBids.objects.find? fun b ↦
    b.2.debtType = op.debtCovered.assetId ∧ b.2.bidder = op.bidder).map Prod.fst

def doEvaluate (op : BidCollateralOperation) (s : MarketState) : Checked Unit := do
  require (hardforkCore216Time < s.headBlockTime) "Not yet!"
  let _ ← get (s.accounts.find op.bidder)
  let debtAsset ← get (s.assets.find op.debtCovered.assetId)
  require debtAsset.isMarketIssued
    "Unable to cover ${sym} as it is not a collateralized asset."
  let bitasset ← debtAsset.getBitassetData
  require bitasset.HasSettlement "_bitasset_data->has_settlement()"
  require (op.additionalCollateral.assetId = bitasset.options.shortBackingAsset)
    "o.additional_collateral.asset_id == _bitasset_data->options.short_backing_asset"
  require (¬bitasset.isPredictionMarket) "Cannot bid on a prediction market!"
  require (0 < op.additionalCollateral.amount → op.additionalCollateral.amount ≤
      (s.getBalance op.bidder op.additionalCollateral.assetId).amount)
    "Cannot bid ${c} collateral when payer only has ${b}"
  require (op.findBid s = none → 0 < op.debtCovered.amount) "Can't find bid to cancel?!"

def placeBid (op : BidCollateralOperation) (s : MarketState) : Checked MarketState := do
  let s ← s.adjustBalance op.bidder (← op.additionalCollateral.neg)
  let invSwanPrice ← per op.additionalCollateral op.debtCovered
  let (_, s) ← s.createCollateralBid ⟨op.bidder, invSwanPrice⟩
  return s

def cancelOldBid (op : BidCollateralOperation) (s : MarketState) : Checked MarketState :=
  match op.findBid s with
  | some id => s.cancelBid id
  | none => .ok s

def doApply (op : BidCollateralOperation) (s : MarketState) : Checked MarketState := do
  let s ← op.cancelOldBid s
  if op.debtCovered.amount = 0 then return s else op.placeBid s

end BidCollateralOperation

end KarmaCore.Market
