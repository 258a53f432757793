import Mathlib
import KarmaCore.Lib.ForwardCall
import KarmaCore.Market.Operation

/-!
# The market without an undo session

Where an exception is swallowed and no undo session is open, what was written
before it stays.  The calls that place and cancel a limit order, write by write;
one that returns does what the evaluators do.
-/

namespace KarmaCore.Market

open Transfer (get)
open ForwardCall (read check write)
open MarketState (MarginMatch MarginTurn highestBid marginAmounts matchedAmounts seizedCollateral)

/-- The id of the next limit order, which no call takes back. -/
def MarketState.nextOrderId (s : MarketState) : ℕ := s.limitOrders.nextId

abbrev MarketCall := ForwardCall ChainError MarketState.nextOrderId

namespace MarketCall

variable {s s' : MarketState} {id : ℕ}

/-! ## Single writes -/

/-- One write. -/
def update (f : MarketState → Checked MarketState)
    (hf : ∀ s s', f s = .ok s' → s.nextOrderId ≤ s'.nextOrderId) : MarketCall Unit :=
  write (fun s ↦ do return ((), ← f s)) fun s a s' h ↦ by
    simp only [Checked.bind_eq_ok, Checked.pure_eq_ok, Prod.mk.injEq] at h
    obtain ⟨_, hs, -, rfl⟩ := h
    exact hf s _ hs

@[simp] theorem result_update {f : MarketState → Checked MarketState}
    {hf : ∀ s s', f s = .ok s' → s.nextOrderId ≤ s'.nextOrderId} :
    (update f hf).result s = do return ((), ← f s) :=
  ForwardCall.result_write

def modifyStatistics (id : AccountId) (f : AccountStatistics → Checked AccountStatistics) :
    MarketCall Unit :=
  update (·.modifyStatistics id f) fun s s' h ↦ by
    simp only [MarketState.modifyStatistics, MarketState.modifyAccount, Checked.bind_eq_ok,
      Checked.pure_eq_ok] at h
    obtain ⟨_, -, _, -, rfl⟩ := h
    exact le_rfl

def modifyDynamicData (id : AssetId) (f : AssetDynamicData → Checked AssetDynamicData) :
    MarketCall Unit :=
  update (·.modifyDynamicData id f) fun s s' h ↦ by
    simp only [MarketState.modifyDynamicData, MarketState.modifyAsset, Checked.bind_eq_ok,
      Checked.pure_eq_ok] at h
    obtain ⟨_, -, _, -, rfl⟩ := h
    exact le_rfl

def modifyBitassetData (id : AssetId) (f : AssetBitassetData → Checked AssetBitassetData) :
    MarketCall Unit :=
  update (·.modifyBitassetData id f) fun s s' h ↦ by
    simp only [MarketState.modifyBitassetData, MarketState.modifyAsset, Checked.bind_eq_ok,
      Checked.pure_eq_ok] at h
    obtain ⟨_, -, _, -, rfl⟩ := h
    exact le_rfl

def adjustBalance (account : AccountId) (delta : Asset) : MarketCall Unit :=
  update (·.adjustBalance account delta) fun s s' h ↦ by
    simp only [MarketState.adjustBalance, Checked.bind_eq_ok, Checked.pure_eq_ok] at h
    obtain ⟨_, -, rfl⟩ := h
    exact le_rfl

def createLimitOrder (order : LimitOrderObject) : MarketCall Unit :=
  update (fun s ↦ .ok { s with limitOrders := s.limitOrders.create order }) fun s s' h ↦ by
    obtain rfl := Except.ok.inj h
    exact Nat.le_succ _

def setLimitOrder (id : ℕ) (order : LimitOrderObject) : MarketCall Unit :=
  update (fun s ↦ .ok { s with limitOrders := s.limitOrders.set id order }) fun s s' h ↦ by
    obtain rfl := Except.ok.inj h
    exact le_rfl

def removeLimitOrder (id : ℕ) : MarketCall Unit :=
  update (fun s ↦ .ok { s with limitOrders := s.limitOrders.remove id }) fun s s' h ↦ by
    obtain rfl := Except.ok.inj h
    exact le_rfl

def setCallOrder (id : ℕ) (order : CallOrderObject) : MarketCall Unit :=
  update (fun s ↦ .ok { s with callOrders := s.callOrders.set id order }) fun s s' h ↦ by
    obtain rfl := Except.ok.inj h
    exact le_rfl

def removeCallOrder (id : ℕ) : MarketCall Unit :=
  update (fun s ↦ .ok { s with callOrders := s.callOrders.remove id }) fun s s' h ↦ by
    obtain rfl := Except.ok.inj h
    exact le_rfl

def pushAppliedOperation (op : FillOrderOperation) : MarketCall Unit :=
  update (fun s ↦ .ok (s.pushAppliedOperation op)) fun s s' h ↦ by
    obtain rfl := Except.ok.inj h
    exact le_rfl

def payMarketFees (recvAsset : AssetId) (receives : Asset) : MarketCall Asset :=
  write (·.payMarketFees recvAsset receives) fun s fees s' h ↦ by
    simp only [MarketState.payMarketFees, Checked.bind_eq_ok, Checked.pure_eq_ok, Prod.mk.injEq] at h
    obtain ⟨asset, -, t, ht, -, rfl⟩ := h
    rcases whenever_eq_ok.mp ht with ⟨-, ht⟩ | ⟨-, rfl⟩
    · simp only [MarketState.modifyDynamicData, MarketState.modifyAsset, Checked.bind_eq_ok,
        Checked.pure_eq_ok] at ht
      obtain ⟨_, -, _, -, rfl⟩ := ht
      exact le_rfl
    · exact le_rfl

/-- A call under an `if` that has no `else`. -/
def whenever (condition : Prop) [Decidable condition] (x : MarketCall Unit) : MarketCall Unit :=
  if condition then x else pure ()

/-! ## Filling and cancelling -/

def payOrder (receiver : AccountId) (receives pays : Asset) : MarketCall Unit := do
  modifyStatistics receiver (·.leaveOrders pays)
  adjustBalance receiver receives

def cancelLimitOrder (id : ℕ) : MarketCall Unit := do
  let order ← check (deref ((← read).limitOrders.find id))
  let refunded := order.amountForSale
  modifyStatistics order.seller (·.leaveOrders refunded)
  adjustBalance order.seller refunded
  adjustBalance order.seller ⟨order.deferredFee, coreAsset⟩
  removeLimitOrder id

def maybeCullSmallOrder (id : ℕ) : MarketCall Bool := do
  let order ← check (deref ((← read).limitOrders.find id))
  let toReceive ← check order.amountToReceive
  if toReceive.amount = 0 then do
    cancelLimitOrder id
    return true
  else return false

def reduceLimitOrder (id : ℕ) (order : LimitOrderObject) (pays : Asset) (cullIfSmall : Bool) :
    MarketCall Bool :=
  if pays = order.amountForSale then do
    removeLimitOrder id
    return true
  else do
    let forSale ← check (checkedShare (order.forSale - pays.amount))
    setLimitOrder id { order with forSale, deferredFee := 0 }
    if cullIfSmall then maybeCullSmallOrder id else return false

def fillLimitOrder (id : ℕ) (pays receives : Asset) (cullIfSmall : Bool) (fillPrice : Price)
    (isMaker : Bool) : MarketCall Bool := do
  let s ← read
  let order ← check (deref (s.limitOrders.find id))
  let cullIfSmall := cullIfSmall || s.headBlockTime < hardfork555Time
  check (require (order.amountForSale.assetId = pays.assetId)
    "order.amount_for_sale().asset_id == pays.asset_id")
  check (require (pays.assetId ≠ receives.assetId) "pays.asset_id != receives.asset_id")
  let _ ← check (get (s.accounts.find order.seller))
  let issuerFees ← payMarketFees receives.assetId receives
  payOrder order.seller (← check (receives.sub issuerFees)) pays
  pushAppliedOperation ⟨id, .limit order, pays, receives, issuerFees, fillPrice, isMaker⟩
  whenever (0 < order.deferredFee) (do
    let s ← read
    modifyStatistics order.seller
      (·.payFee order.deferredFee s.parameters.cashbackVestingThreshold))
  reduceLimitOrder id order pays cullIfSmall

def payBorrower (borrower : AccountId) : Option Asset → MarketCall Unit
  | some freed => adjustBalance borrower freed
  | none => pure ()

def fillCallOrder (id : ℕ) (pays receives : Asset) (fillPrice : Price) (isMaker : Bool) :
    MarketCall Bool := do
  let s ← read
  let order ← check (deref (s.callOrders.find id))
  check (require (order.getDebt.assetId = receives.assetId)
    "order.get_debt().asset_id == receives.asset_id")
  check (require (order.getCollateral.assetId = pays.assetId)
    "order.get_collateral().asset_id == pays.asset_id")
  check (require (pays.amount ≤ order.getCollateral.amount) "order.get_collateral() >= pays")
  let debt ← check (checkedShare (order.debt - receives.amount))
  let collateral ← check (checkedShare (order.collateral - pays.amount))
  let collateralFreed := if debt = 0 then some ⟨collateral, order.collateralType⟩ else none
  setCallOrder id { order with debt, collateral := if debt = 0 then 0 else collateral }
  modifyDynamicData receives.assetId (·.subSupply receives.amount)
  let _ ← check (get ((← read).accounts.find order.borrower))
  whenever (collateralFreed.isSome ∨ pays.assetId = coreAsset) (do
    payBorrower order.borrower collateralFreed
    modifyStatistics order.borrower fun b ↦ do
      let b ← b.freeCollateral collateralFreed
      b.leaveOrders pays)
  pushAppliedOperation ⟨id, .call order, pays, receives, ⟨0, pays.assetId⟩, fillPrice, isMaker⟩
  if debt = 0 then do
    removeCallOrder id
    return true
  else return false

def matchLimitOrders (usd core : ℕ) (matchPrice : Price) : MarketCall ℕ := do
  let s ← read
  let usdOrder ← check (deref (s.limitOrders.find usd))
  let coreOrder ← check (deref (s.limitOrders.find core))
  let (usdReceives, coreReceives) ←
    check (matchedAmounts usdOrder.amountForSale coreOrder.amountForSale matchPrice)
  let usdFilled ← fillLimitOrder usd coreReceives usdReceives false matchPrice false
  let coreFilled ← fillLimitOrder core usdReceives coreReceives true matchPrice true
  return usdFilled.toNat + 2 * coreFilled.toNat

/-! ## Margin calls -/

def closeCallOrders (settlementPrice : Price) : List ℕ → Asset → MarketCall Asset
  | [], gathered => return gathered
  | id :: ids, gathered => do
      let order ← check (deref ((← read).callOrders.find id))
      let pays ← check (seizedCollateral order settlementPrice)
      let gathered ← check (gathered.add pays)
      let filled ← fillCallOrder id pays order.getDebt settlementPrice true
      check (require (filled = true) "fill_order( order, pays, order.get_debt(), settlement_price, true )")
      closeCallOrders settlementPrice ids gathered

def globallySettleAsset (mia : AssetId) (settlementPrice : Price) : MarketCall Unit := do
  let s ← read
  let asset ← check (get (s.assets.find mia))
  let bitasset ← check asset.getBitassetData
  check (require (¬bitasset.HasSettlement) "black swan already occurred, it should not happen again")
  let backing := bitasset.options.shortBackingAsset
  let _ ← check (get (s.assets.find backing))
  let originalMiaSupply := asset.dynamicData.currentSupply
  let lowest ← check (Price.lowest backing mia)
  let highest ← check (Price.highest backing mia)
  let calls := (s.callsBetween lowest highest).map Prod.fst
  let gathered ← closeCallOrders settlementPrice calls ⟨0, backing⟩
  let recorded ← check (per ⟨originalMiaSupply, mia⟩ gathered)
  modifyBitassetData mia fun b ↦
    .ok { b with settlementPrice := recorded, settlementFund := gathered.amount }
  modifyDynamicData mia fun d ↦ .ok { d with currentSupply := originalMiaSupply }

def checkLeastCollateral (mia : AssetId) (bitasset : AssetBitassetData) (enableBlackSwan : Bool) :
    MarketCall Bool := do
  let s ← read
  let backing := bitasset.options.shortBackingAsset
  let settlePrice := bitasset.currentFeed.settlementPrice
  let highestPossibleBid ← check (Price.highest mia backing)
  let lowestPossibleBid ← check (Price.lowest mia backing)
  let limits := s.limitsBetween highestPossibleBid lowestPossibleBid
  let callMin ← check (Price.lowest backing mia)
  let callMax ← check (Price.highest backing mia)
  match s.callsBetween callMin callMax with
  | [] => return false
  | call :: _ => do
      let leastCollateral ← check call.2.collateralization
      if leastCollateral.inverse.Ge (highestBid settlePrice limits) then do
        check (require (enableBlackSwan = true) ("Black swan was detected during a margin update which " ++
          "is not allowed to trigger a blackswan"))
        globallySettleAsset mia leastCollateral.inverse
        return true
      else return false

def checkForBlackswan (mia : AssetId) (enableBlackSwan : Bool) : MarketCall Bool := do
  let asset ← check (get ((← read).assets.find mia))
  if ¬asset.isMarketIssued then return false
  else do
    let bitasset ← check asset.getBitassetData
    if bitasset.HasSettlement then return true
    else if bitasset.currentFeed.settlementPrice.IsNull then return false
    else checkLeastCollateral mia bitasset enableBlackSwan

/-- How one turn of the loop of `check_call_orders` ends. -/
inductive Turn
  | stop (marginCalled : Bool)
  | filled (m : MarginMatch)

def Turn.andThen (next : Bool → List ℕ → MarketCall Bool) (again : Bool → MarketCall Bool)
    (filledLimit : Bool) (limit : ℕ) (limits : List ℕ) : Turn → MarketCall Bool
  | .stop marginCalled => return marginCalled
  | .filled m =>
      let filledLimit := filledLimit || m.filledLimit
      if m.filledCall then next filledLimit (if filledLimit then limits else limit :: limits)
      else again filledLimit

def marginCall (mia : AssetId) (feedPrice : Price) (enableBlackSwan forNewLimitOrder : Bool)
    (marginCalled : Bool) (call limit : ℕ) : MarketCall Turn := do
  let s ← read
  let limitOrder ← check (deref (s.limitOrders.find limit))
  let matchPrice := limitOrder.sellPrice
  check matchPrice.validate
  let callOrder ← check (deref (s.callOrders.find call))
  if feedPrice.Gt callOrder.callPrice.inverse ∧ hardfork436Time < s.headBlockTime then
    return .stop marginCalled
  else if matchPrice.Gt callOrder.callPrice.inverse then return .stop marginCalled
  else do
    let value ← check (times callOrder.getDebt matchPrice)
    let backed ← check (value.le callOrder.getCollateral)
    if backed then do
      let m ← check (marginAmounts callOrder.getDebt limitOrder.amountForSale matchPrice)
      let _ ← fillCallOrder call m.callPays m.callReceives matchPrice forNewLimitOrder
      let _ ← fillLimitOrder limit m.callReceives m.callPays true matchPrice (!forNewLimitOrder)
      return .filled m
    else do
      check (require (enableBlackSwan = true) "enable_black_swan")
      globallySettleAsset mia feedPrice
      return .stop true

def marginCallOrder (mia : AssetId) (feedPrice : Price) (enableBlackSwan forNewLimitOrder : Bool)
    (call : ℕ) (next : Bool → List ℕ → MarketCall Bool) :
    List ℕ → Bool → Bool → MarketCall Bool
  | [], marginCalled, _ => do
      let _ ← checkForBlackswan mia enableBlackSwan
      return marginCalled
  | limit :: limits, marginCalled, filledLimit => do
      let swan ← checkForBlackswan mia enableBlackSwan
      if swan then return marginCalled
      else do
        let turn ← marginCall mia feedPrice enableBlackSwan forNewLimitOrder marginCalled call limit
        turn.andThen next (marginCallOrder mia feedPrice enableBlackSwan forNewLimitOrder call next
          limits true) filledLimit limit limits

def marginCallLoop (mia : AssetId) (feedPrice : Price) (enableBlackSwan forNewLimitOrder : Bool) :
    List ℕ → List ℕ → Bool → Bool → MarketCall Bool
  | [], _, marginCalled, _ => do
      let _ ← checkForBlackswan mia enableBlackSwan
      return marginCalled
  | call :: calls, limits, marginCalled, filledLimit =>
      marginCallOrder mia feedPrice enableBlackSwan forNewLimitOrder call
        (fun filledLimit limits ↦ marginCallLoop mia feedPrice enableBlackSwan forNewLimitOrder calls
          limits true filledLimit) limits marginCalled filledLimit

def callMargins (mia : AssetId) (enableBlackSwan forNewLimitOrder : Bool) : MarketCall Bool := do
  let s ← read
  let bitasset ← check (s.getBitassetData mia)
  if bitasset.isPredictionMarket then return false
  else if bitasset.currentFeed.settlementPrice.IsNull then return false
  else do
    let backing := bitasset.options.shortBackingAsset
    let maxPrice ← check (Price.highest mia backing)
    let minPrice ← check bitasset.currentFeed.maxShortSqueezePrice
    let limits := (s.limitsBetween maxPrice minPrice).map Prod.fst
    if limits = [] then return false
    else do
      let callMin ← check (Price.lowest backing mia)
      let callMax ← check (Price.highest backing mia)
      let calls := (s.callsBetween callMin callMax).map Prod.fst
      marginCallLoop mia bitasset.currentFeed.settlementPrice enableBlackSwan forNewLimitOrder calls
        limits false false

def checkCallOrders (mia : AssetId) (enableBlackSwan forNewLimitOrder : Bool) : MarketCall Bool := do
  let asset ← check (get ((← read).assets.find mia))
  if ¬asset.isMarketIssued then return false
  else do
    let swan ← checkForBlackswan mia enableBlackSwan
    if swan then return false else callMargins mia enableBlackSwan forNewLimitOrder

/-! ## A new limit order -/

def matchOldOrders (new : ℕ) : List ℕ → MarketCall Unit
  | [] => return ()
  | old :: olds => do
      let oldOrder ← check (deref ((← read).limitOrders.find old))
      let result ← matchLimitOrders new old oldOrder.sellPrice
      if result = 2 then matchOldOrders new olds else return ()

def matchNewOrder (id : ℕ) (sellPrice : Price) (allowBlackSwan : Bool) : MarketCall Bool := do
  let maxPrice := sellPrice.inverse
  let highest ← check (Price.highest maxPrice.base.assetId maxPrice.quote.assetId)
  matchOldOrders id (((← read).limitsBetween highest maxPrice).map Prod.fst)
  let _ ← checkCallOrders sellPrice.base.assetId allowBlackSwan false
  let _ ← checkCallOrders sellPrice.quote.assetId allowBlackSwan false
  let s ← read
  if s.limitOrders.find id = none then return true
  else if s.headBlockTime ≤ hardfork555Time then return false
  else maybeCullSmallOrder id

def applyOrder (id : ℕ) (allowBlackSwan : Bool) : MarketCall Bool := do
  let s ← read
  let order ← check (deref (s.limitOrders.find id))
  let toReceive ← check order.amountToReceive
  let _ ← check (get (s.assets.find order.sellPrice.base.assetId))
  let _ ← check (get (s.assets.find toReceive.assetId))
  let calledSome ← checkCallOrders order.sellPrice.base.assetId allowBlackSwan true
  let calledOther ← checkCallOrders toReceive.assetId allowBlackSwan true
  if (calledSome || calledOther) ∧ (← read).limitOrders.find id = none then return true
  else matchNewOrder id order.sellPrice allowBlackSwan

end MarketCall

end KarmaCore.Market
