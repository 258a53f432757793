import Mathlib
import KarmaCore.Market.FillOrder

/-!
# Margin calls and the matching of a new order

`check_for_blackswan` globally settles an asset whose least collateralized call
order is under water, `check_call_orders` fills call orders with the best limit
orders, and `apply_order` matches a new limit order with the other side of its
book between two rounds of margin calls.
-/

namespace KarmaCore.Market

open Transfer (get)

namespace MarketState

/-- The larger of the best bid and the settlement price. -/
def highestBid (settlePrice : Price) : List (ℕ × LimitOrderObject) → Price
  | [] => settlePrice
  | o :: _ => if o.2.sellPrice.Lt settlePrice then settlePrice else o.2.sellPrice

/-- The part of `check_for_blackswan` that looks at the books. -/
def checkLeastCollateral (mia : AssetId) (bitasset : AssetBitassetData) (enableBlackSwan : Bool)
    (s : MarketState) : Checked (Bool × MarketState) := do
  let backing := bitasset.options.shortBackingAsset
  let settlePrice := bitasset.currentFeed.settlementPrice
  let highestPossibleBid ← Price.highest mia backing
  let lowestPossibleBid ← Price.lowest mia backing
  let limits := s.limitsBetween highestPossibleBid lowestPossibleBid
  let callMin ← Price.lowest backing mia
  let callMax ← Price.highest backing mia
  match s.callsBetween callMin callMax with
  | [] => return (false, s)
  | call :: _ => do
      let leastCollateral ← call.2.collateralization
      if leastCollateral.inverse.Ge (highestBid settlePrice limits) then do
        require (enableBlackSwan = true) ("Black swan was detected during a margin update which " ++
          "is not allowed to trigger a blackswan")
        let s ← s.globallySettleAsset mia leastCollateral.inverse
        return (true, s)
      else return (false, s)

def checkForBlackswan (mia : AssetId) (enableBlackSwan : Bool) (s : MarketState) :
    Checked (Bool × MarketState) := do
  let asset ← get (s.assets.find mia)
  if ¬asset.isMarketIssued then return (false, s)
  else do
    let bitasset ← asset.getBitassetData
    if bitasset.HasSettlement then return (true, s)
    else if bitasset.currentFeed.settlementPrice.IsNull then return (false, s)
    else s.checkLeastCollateral mia bitasset enableBlackSwan

/-! ## Margin calls -/

/-- The amounts of one margin call and which of the two orders it fills. -/
structure MarginMatch where
  callReceives : Asset
  callPays : Asset
  filledCall : Bool
  filledLimit : Bool

def marginAmounts (usdToBuy usdForSale : Asset) (matchPrice : Price) : Checked MarginMatch := do
  let less ← usdToBuy.lt usdForSale
  if less then do
    let callPays ← times usdToBuy matchPrice
    return ⟨usdToBuy, callPays, true, false⟩
  else do
    let callPays ← times usdForSale matchPrice
    return ⟨usdForSale, callPays, usdToBuy = usdForSale, true⟩

/-- How one turn of the loop of `check_call_orders` ends. -/
inductive MarginTurn
  | stop (marginCalled : Bool) (s : MarketState)
  | filled (m : MarginMatch) (s : MarketState)

/-- The loop after one turn: `next` when the call order was filled, `again` when it was not.
`filled_limit` is declared outside of the loop: once a turn has set it, it stays set. -/
def MarginTurn.andThen (next : Bool → List ℕ → MarketState → Checked (Bool × MarketState))
    (again : Bool → MarketState → Checked (Bool × MarketState)) (filledLimit : Bool) (limit : ℕ)
    (limits : List ℕ) : MarginTurn → Checked (Bool × MarketState)
  | .stop marginCalled s => .ok (marginCalled, s)
  | .filled m s =>
      let filledLimit := filledLimit || m.filledLimit
      if m.filledCall then next filledLimit (if filledLimit then limits else limit :: limits) s
      else again filledLimit s

/-- One turn of the loop, for the call order and the limit order the iterators point at. -/
def marginCall (mia : AssetId) (feedPrice : Price) (enableBlackSwan forNewLimitOrder : Bool)
    (marginCalled : Bool) (call limit : ℕ) (s : MarketState) : Checked MarginTurn := do
  let limitOrder ← deref (s.limitOrders.find limit)
  let matchPrice := limitOrder.sellPrice
  matchPrice.validate
  let callOrder ← deref (s.callOrders.find call)
  -- would be margin called, but there is no matching order
  if feedPrice.Gt callOrder.callPrice.inverse ∧ hardfork436Time < s.headBlockTime then
    return .stop marginCalled s
  else if matchPrice.Gt callOrder.callPrice.inverse then return .stop marginCalled s
  else do
    let value ← times callOrder.getDebt matchPrice
    let backed ← value.le callOrder.getCollateral
    if backed then do
      let m ← marginAmounts callOrder.getDebt limitOrder.amountForSale matchPrice
      let (_, s) ← s.fillCallOrder call m.callPays m.callReceives matchPrice forNewLimitOrder
      let (_, s) ← s.fillLimitOrder limit m.callReceives m.callPays true matchPrice
        (!forNewLimitOrder)
      return .filled m s
    else do
      require (enableBlackSwan = true) "enable_black_swan"
      let s ← s.globallySettleAsset mia feedPrice
      return .stop true s

/-- The turns in which the call iterator stays at one order. `next` is the rest of the loop
once that order is filled. -/
def marginCallOrder (mia : AssetId) (feedPrice : Price) (enableBlackSwan forNewLimitOrder : Bool)
    (call : ℕ) (next : Bool → List ℕ → MarketState → Checked (Bool × MarketState)) :
    List ℕ → Bool → Bool → MarketState → Checked (Bool × MarketState)
  | [], marginCalled, _, s => do
      let (_, s) ← s.checkForBlackswan mia enableBlackSwan
      return (marginCalled, s)
  | limit :: limits, marginCalled, filledLimit, s => do
      let (swan, s) ← s.checkForBlackswan mia enableBlackSwan
      if swan then return (marginCalled, s)
      else do
        let turn ← s.marginCall mia feedPrice enableBlackSwan forNewLimitOrder marginCalled call
          limit
        turn.andThen next (marginCallOrder mia feedPrice enableBlackSwan forNewLimitOrder call
          next limits true) filledLimit limit limits

/-- The loop of `check_call_orders` over the ids from the two iterators to the ends of their
ranges, which no turn adds to or reorders. -/
def marginCallLoop (mia : AssetId) (feedPrice : Price) (enableBlackSwan forNewLimitOrder : Bool) :
    List ℕ → List ℕ → Bool → Bool → MarketState → Checked (Bool × MarketState)
  | [], _, marginCalled, _, s => do
      let (_, s) ← s.checkForBlackswan mia enableBlackSwan
      return (marginCalled, s)
  | call :: calls, limits, marginCalled, filledLimit, s =>
      marginCallOrder mia feedPrice enableBlackSwan forNewLimitOrder call
        (fun filledLimit limits s ↦ marginCallLoop mia feedPrice enableBlackSwan forNewLimitOrder
          calls limits true filledLimit s) limits marginCalled filledLimit s

/-- The part of `check_call_orders` once no black swan was found. -/
def callMargins (mia : AssetId) (enableBlackSwan forNewLimitOrder : Bool) (s : MarketState) :
    Checked (Bool × MarketState) := do
  let bitasset ← s.getBitassetData mia
  if bitasset.isPredictionMarket then return (false, s)
  else if bitasset.currentFeed.settlementPrice.IsNull then return (false, s)
  else do
    let backing := bitasset.options.shortBackingAsset
    let maxPrice ← Price.highest mia backing
    let minPrice ← bitasset.currentFeed.maxShortSqueezePrice
    let limits := (s.limitsBetween maxPrice minPrice).map Prod.fst
    if limits = [] then return (false, s)
    else do
      let callMin ← Price.lowest backing mia
      let callMax ← Price.highest backing mia
      let calls := (s.callsBetween callMin callMax).map Prod.fst
      marginCallLoop mia bitasset.currentFeed.settlementPrice enableBlackSwan forNewLimitOrder
        calls limits false false s

def checkCallOrders (mia : AssetId) (enableBlackSwan forNewLimitOrder : Bool) (s : MarketState) :
    Checked (Bool × MarketState) := do
  let asset ← get (s.assets.find mia)
  if ¬asset.isMarketIssued then return (false, s)
  else do
    let (swan, s) ← s.checkForBlackswan mia enableBlackSwan
    if swan then return (false, s) else s.callMargins mia enableBlackSwan forNewLimitOrder

/-! ## A new limit order -/

/-- The loop of `apply_order` over the old orders in the range it walks through. -/
def matchOldOrders (new : ℕ) : List ℕ → MarketState → Checked MarketState
  | [], s => .ok s
  | old :: olds, s => do
      let oldOrder ← deref (s.limitOrders.find old)
      let (result, s) ← s.matchLimitOrders new old oldOrder.sellPrice
      if result = 2 then matchOldOrders new olds s else return s

/-- The part of `apply_order` once the first round of margin calls has left the order. -/
def matchNewOrder (id : ℕ) (sellPrice : Price) (allowBlackSwan : Bool) (s : MarketState) :
    Checked (Bool × MarketState) := do
  let maxPrice := sellPrice.inverse
  let highest ← Price.highest maxPrice.base.assetId maxPrice.quote.assetId
  let s ← matchOldOrders id ((s.limitsBetween highest maxPrice).map Prod.fst) s
  let (_, s) ← s.checkCallOrders sellPrice.base.assetId allowBlackSwan false
  let (_, s) ← s.checkCallOrders sellPrice.quote.assetId allowBlackSwan false
  if s.limitOrders.find id = none then return (true, s)
  else if s.headBlockTime ≤ hardfork555Time then return (false, s)
  else s.maybeCullSmallOrder id

def applyOrder (id : ℕ) (allowBlackSwan : Bool) (s : MarketState) :
    Checked (Bool × MarketState) := do
  let order ← deref (s.limitOrders.find id)
  let toReceive ← order.amountToReceive
  let _ ← get (s.assets.find order.sellPrice.base.assetId)
  let _ ← get (s.assets.find toReceive.assetId)
  let (calledSome, s) ← s.checkCallOrders order.sellPrice.base.assetId allowBlackSwan true
  let (calledOther, s) ← s.checkCallOrders toReceive.assetId allowBlackSwan true
  if (calledSome || calledOther) ∧ s.limitOrders.find id = none then return (true, s)
  else s.matchNewOrder id order.sellPrice allowBlackSwan

end MarketState

end KarmaCore.Market
