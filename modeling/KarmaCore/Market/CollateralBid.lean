import Mathlib
import KarmaCore.Market.FillOrder

/-!
# Collateral bids and the revival of a settled asset

Bids offer collateral for the debt of a globally settled asset.  The asset is
revived by a price feed under which the settlement fund is collateral enough, or
at maintenance by the best bids that together cover its supply.
-/

namespace KarmaCore.Market

open Transfer (get)

namespace MarketState

def executeBid (id : ℕ) (debtCovered collateralFromFund : ℤ) (currentFeed : PriceFeed)
    (s : MarketState) : Checked MarketState := do
  let bid ← deref (s.collateralBids.find id)
  let collateral ← checkedShare (bid.invSwanPrice.base.amount + collateralFromFund)
  let collateralAsset : Asset := ⟨collateral, bid.invSwanPrice.base.assetId⟩
  let callPrice ← Price.callPrice ⟨debtCovered, bid.debtType⟩ collateralAsset
    currentFeed.maintenanceCollateralRatio
  let s ← s.createCallOrder ⟨bid.bidder, collateral, debtCovered, callPrice⟩
  let s ← whenever (bid.invSwanPrice.base.assetId = coreAsset)
    (modifyStatistics bid.bidder (·.enterOrders collateralAsset)) s
  return { s with collateralBids := s.collateralBids.remove id }

def cancelBids : List ℕ → MarketState → Checked MarketState
  | [], s => .ok s
  | id :: ids, s => do
      let s ← s.cancelBid id
      cancelBids ids s

/-- `_cancel_bids_and_revive_mpa`. -/
def cancelBidsAndReviveMpa (mia : AssetId) (s : MarketState) : Checked MarketState := do
  let asset ← get (s.assets.find mia)
  require asset.isMarketIssued "bitasset.is_market_issued()"
  let bad ← asset.getBitassetData
  require bad.HasSettlement "bad.has_settlement()"
  require (¬bad.isPredictionMarket) "!bad.is_prediction_market"
  let highest ← Price.highest bad.options.shortBackingAsset mia
  let s ← cancelBids ((s.bidsFrom mia highest).map Prod.fst) s
  s.modifyBitassetData mia fun b ↦ .ok { b with settlementPrice := {}, settlementFund := 0 }

/-- Executes a bid of the issuer with no additional collateral. -/
def executePseudoBid (mia : AssetId) (asset : AssetObject) (bad : AssetBitassetData)
    (s : MarketState) : Checked MarketState := do
  let invSwanPrice ← per ⟨0, bad.options.shortBackingAsset⟩ ⟨asset.dynamicData.currentSupply, mia⟩
  let (pseudoBid, s) ← s.createCollateralBid ⟨asset.issuer, invSwanPrice⟩
  s.executeBid pseudoBid asset.dynamicData.currentSupply bad.settlementFund bad.currentFeed

def reviveBitasset (mia : AssetId) (s : MarketState) : Checked MarketState := do
  let asset ← get (s.assets.find mia)
  require asset.isMarketIssued "bitasset.is_market_issued()"
  let bad ← asset.getBitassetData
  require bad.HasSettlement "bad.has_settlement()"
  require (¬bad.isPredictionMarket) "!bad.is_prediction_market"
  require (¬bad.currentFeed.settlementPrice.IsNull) "!bad.current_feed.settlement_price.is_null()"
  require (asset.dynamicData.currentSupply ≤ 0 → bad.settlementFund = 0) "bad.settlement_fund == 0"
  let s ← whenever (0 < asset.dynamicData.currentSupply) (executePseudoBid mia asset bad) s
  s.cancelBidsAndReviveMpa mia

/-! ## Bids at maintenance -/

/-- Whether a bid is collateralized above maintenance together with its share of the fund. -/
def bidIsCollateralized (bad : AssetBitassetData) (bid : CollateralBidObject) : Checked Bool := do
  let fundShare ← times bid.invSwanPrice.quote bad.settlementPrice
  let totalCollateral ← fundShare.add bid.invSwanPrice.base
  let callPrice ← Price.callPrice bid.invSwanPrice.quote totalCollateral
    bad.currentFeed.maintenanceCollateralRatio
  return ¬callPrice.inverse.Ge bad.currentFeed.settlementPrice

/-- The bids the first loop of `process_bids` walks over, with the debt they cover. -/
def coverSupply (bad : AssetBitassetData) (supply : ℤ) :
    List (ℕ × CollateralBidObject) → ℤ → Checked (List ℕ × ℤ)
  | [], covered => .ok ([], covered)
  | (id, bid) :: bids, covered =>
      if covered < supply then do
        let collateralized ← bidIsCollateralized bad bid
        if collateralized then do
          let covered ← checkedShare (covered + bid.invSwanPrice.quote.amount)
          let (ids, covered) ← coverSupply bad supply bids covered
          return (id :: ids, covered)
        else return ([], covered)
      else .ok ([], covered)

/-- What a bid takes over: its own part, or all that is left. -/
def bidShare (bad : AssetBitassetData) (bid : CollateralBidObject) (toCover remainingFund : ℤ) :
    Checked (ℤ × ℤ) := do
  let fundShare ← times bid.invSwanPrice.quote bad.settlementPrice
  return if toCover ≤ bid.invSwanPrice.quote.amount then (toCover, remainingFund)
    else (bid.invSwanPrice.quote.amount, fundShare.amount)

/-- The second loop of `process_bids`. -/
def executeBids (bad : AssetBitassetData) : List ℕ → ℤ → ℤ → MarketState →
    Checked (ℤ × ℤ × MarketState)
  | [], toCover, remainingFund, s => .ok (toCover, remainingFund, s)
  | id :: ids, toCover, remainingFund, s => do
      let bid ← deref (s.collateralBids.find id)
      let (debt, collateral) ← bidShare bad bid toCover remainingFund
      let toCover ← checkedShare (toCover - debt)
      let remainingFund ← checkedShare (remainingFund - collateral)
      let s ← s.executeBid id debt collateral bad.currentFeed
      executeBids bad ids toCover remainingFund s

/-- The part of `process_bids` once its guards have passed. -/
def coverWithBids (bad : AssetBitassetData) (s : MarketState) : Checked MarketState := do
  let unit ← times ⟨0, bad.options.shortBackingAsset⟩ bad.settlementPrice
  let toReviveId := unit.assetId
  let toRevive ← get (s.assets.find toReviveId)
  let supply := toRevive.dynamicData.currentSupply
  let highest ← Price.highest bad.options.shortBackingAsset toReviveId
  let (ids, covered) ← coverSupply bad supply (s.bidsFrom toReviveId highest) 0
  if covered < supply then return s
  else do
    let (toCover, remainingFund, s) ← executeBids bad ids supply bad.settlementFund s
    require (remainingFund = 0) "remaining_fund == 0"
    require (toCover = 0) "to_cover == 0"
    s.cancelBidsAndReviveMpa toReviveId

def processBids (bad : AssetBitassetData) (s : MarketState) : Checked MarketState :=
  if bad.isPredictionMarket ∨ bad.currentFeed.settlementPrice.IsNull ∨
      s.headBlockTime ≤ hardforkCore216Time then .ok s
  else s.coverWithBids bad

end MarketState

end KarmaCore.Market
