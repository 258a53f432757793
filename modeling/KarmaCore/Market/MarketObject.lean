import Mathlib
import KarmaCore.Credit.Ledger
import KarmaCore.Lib.ObjectIndex
import KarmaCore.Market.Price
import KarmaCore.Transfer.TransferEvaluator

/-!
# The objects of the market

Limit orders, call orders, force settlements, collateral bids, the assets they
are about, and the other holders of an asset that the equation of
`verify_asset_supplies` counts.
-/

namespace KarmaCore.Market

open Transfer (get)

/-- `asset_id_type()`. -/
def coreAsset : AssetId := 0

/-- `GRAPHENE_100_PERCENT`. -/
def percent100 : ℕ := 10000

/-! Special accounts. -/

def committeeAccount : AccountId := 0
def witnessAccount : AccountId := 1
def relaxedCommitteeAccount : AccountId := 2
def nullAccount : AccountId := 3
def tempAccount : AccountId := 4

/-! `asset_issuer_permission_flags`. -/

def chargeMarketFee : ℕ := 0x01
def disableForceSettle : ℕ := 0x10
def globalSettle : ℕ := 0x20
def witnessFedAsset : ℕ := 0x80
def committeeFedAsset : ℕ := 0x100
def assetIssuerPermissionMask : ℕ := 0x1ff

/-! Hard forks. -/

def hardfork436Time : ℕ := 1450288800
def hardfork445Time : ℕ := 1450288800
def hardfork480Time : ℕ := 1450378800
def hardfork572Time : ℕ := 1456250400
def hardfork413Time : ℕ := 1446652800
def hardfork555Time : ℕ := 1456250400
def hardfork615Time : ℕ := 1458752400
def hardforkCore216Time : ℕ := 1512747600
def hardforkCore429Time : ℕ := 1512747600

/-! ## Orders -/

structure LimitOrderObject where
  expiration : ℕ
  seller : AccountId
  forSale : ℤ
  sellPrice : Price
  deferredFee : ℤ
  deriving DecidableEq, Repr

namespace LimitOrderObject

def amountForSale (o : LimitOrderObject) : Asset := ⟨o.forSale, o.sellPrice.base.assetId⟩

def amountToReceive (o : LimitOrderObject) : Checked Asset := times o.amountForSale o.sellPrice

end LimitOrderObject

structure CallOrderObject where
  borrower : AccountId
  collateral : ℤ
  debt : ℤ
  callPrice : Price
  deriving DecidableEq, Repr

namespace CallOrderObject

def debtType (o : CallOrderObject) : AssetId := o.callPrice.quote.assetId
def collateralType (o : CallOrderObject) : AssetId := o.callPrice.base.assetId
def getCollateral (o : CallOrderObject) : Asset := ⟨o.collateral, o.collateralType⟩
def getDebt (o : CallOrderObject) : Asset := ⟨o.debt, o.debtType⟩
def collateralization (o : CallOrderObject) : Checked Price := per o.getCollateral o.getDebt

end CallOrderObject

structure ForceSettlementObject where
  owner : AccountId
  balance : Asset
  settlementDate : ℕ
  deriving DecidableEq, Repr

structure CollateralBidObject where
  bidder : AccountId
  invSwanPrice : Price
  deriving DecidableEq, Repr

def CollateralBidObject.debtType (b : CollateralBidObject) : AssetId :=
  b.invSwanPrice.quote.assetId

/-! ## Assets -/

structure AssetOptions where
  maxSupply : ℤ := maxShareSupply
  marketFeePercent : ℕ := 0
  maxMarketFee : ℤ := maxShareSupply
  issuerPermissions : ℕ := 0
  flags : ℕ := 0
  coreExchangeRate : Price := {}
  whitelistAuthorities : Finset AccountId := ∅
  blacklistAuthorities : Finset AccountId := ∅
  whitelistMarkets : Finset AssetId := ∅
  blacklistMarkets : Finset AssetId := ∅

structure AssetDynamicData where
  currentSupply : ℤ := 0
  confidentialSupply : ℤ := 0
  accumulatedFees : ℤ := 0
  feePool : ℤ := 0
  deriving DecidableEq, Repr

structure BitassetOptions where
  feedLifetimeSec : ℕ := 86400
  minimumFeeds : ℕ := 1
  forceSettlementDelaySec : ℕ := 86400
  forceSettlementOffsetPercent : ℕ := 0
  maximumForceSettlementVolume : ℕ := 2000
  shortBackingAsset : AssetId := coreAsset
  deriving DecidableEq, Repr

structure AssetBitassetData where
  options : BitassetOptions := {}
  feeds : List (AccountId × ℕ × PriceFeed) := []
  currentFeed : PriceFeed := {}
  currentFeedPublicationTime : ℕ := 0
  isPredictionMarket : Bool := false
  forceSettledVolume : ℤ := 0
  settlementPrice : Price := {}
  settlementFund : ℤ := 0
  deriving DecidableEq, Repr

/-- `has_settlement`. -/
def AssetBitassetData.HasSettlement (b : AssetBitassetData) : Prop := ¬b.settlementPrice.IsNull

instance (b : AssetBitassetData) : Decidable b.HasSettlement := inferInstanceAs (Decidable (¬_))

structure AssetObject where
  issuer : AccountId := nullAccount
  options : AssetOptions := {}
  dynamicData : AssetDynamicData := {}
  bitassetData : Option AssetBitassetData := none
  buybackAccount : Option AccountId := none

namespace AssetObject

def isMarketIssued (a : AssetObject) : Prop := a.bitassetData.isSome
def canForceSettle (a : AssetObject) : Prop := a.options.flags &&& disableForceSettle = 0
def canGlobalSettle (a : AssetObject) : Prop := a.options.issuerPermissions &&& globalSettle ≠ 0
def chargesMarketFees (a : AssetObject) : Prop := a.options.flags &&& chargeMarketFee ≠ 0

instance (a : AssetObject) : Decidable a.isMarketIssued := inferInstanceAs (Decidable (_ = _))
instance (a : AssetObject) : Decidable a.canForceSettle := inferInstanceAs (Decidable (_ = _))
instance (a : AssetObject) : Decidable a.canGlobalSettle := inferInstanceAs (Decidable (_ ≠ _))
instance (a : AssetObject) : Decidable a.chargesMarketFees := inferInstanceAs (Decidable (_ ≠ _))

/-- The fields `is_authorized_asset` reads. -/
def lists (id : AssetId) (a : AssetObject) : Transfer.AssetObject where
  id := id
  issuer := a.issuer
  flags := a.options.flags
  whitelistAuthorities := a.options.whitelistAuthorities
  blacklistAuthorities := a.options.blacklistAuthorities

/-- `mia.bitasset_data(db)`; the id it dereferences is there for a market-issued asset only. -/
def getBitassetData (a : AssetObject) : Checked AssetBitassetData :=
  match a.bitassetData with
  | some b => .ok b
  | none => .error .danglingReference

def calculateMarketFee (id : AssetId) (a : AssetObject) (tradeAmount : Asset) : Asset :=
  if ¬a.chargesMarketFees then ⟨0, id⟩
  else if a.options.marketFeePercent = 0 then ⟨0, id⟩
  else
    let percentFee := mul128 tradeAmount.amount a.options.marketFeePercent / percent100
    ⟨if a.options.maxMarketFee < percentFee then a.options.maxMarketFee else percentFee, id⟩

end AssetObject

/-! ## Accounts and the other holders -/

structure AccountStatistics where
  totalCoreInOrders : ℤ := 0
  lifetimeFeesPaid : ℤ := 0
  pendingFees : ℤ := 0
  pendingVestedFees : ℤ := 0
  deriving DecidableEq, Repr

/-- `owner_special_authority` and `active_special_authority` by the asset whose top holders
they name. -/
structure AccountObject where
  statistics : AccountStatistics := {}
  membershipExpirationDate : ℕ := 0
  registrar : AccountId := committeeAccount
  referrer : AccountId := committeeAccount
  lifetimeReferrer : AccountId := committeeAccount
  networkFeePercentage : ℕ := 2000
  lifetimeReferrerFeePercentage : ℕ := 3000
  referrerRewardsPercentage : ℕ := 0
  cashbackVb : Option ℕ := none
  allowedAssets : Option (Finset AssetId) := none
  whitelistingAccounts : List AccountId := []
  blacklistingAccounts : List AccountId := []
  activeAccountAuths : List AccountId := []
  ownerSpecialAuthority : Option AssetId := none
  activeSpecialAuthority : Option AssetId := none
  topNControlFlags : ℕ := 0

namespace AccountObject

def lists (id : AccountId) (a : AccountObject) : Transfer.AccountObject where
  id := id
  allowedAssets := a.allowedAssets
  whitelistingAccounts := a.whitelistingAccounts
  blacklistingAccounts := a.blacklistingAccounts

def isBasicAccount (now : ℕ) (a : AccountObject) : Prop := a.membershipExpirationDate < now

instance (now : ℕ) (a : AccountObject) : Decidable (a.isBasicAccount now) :=
  inferInstanceAs (Decidable (_ < _))

end AccountObject

/-- A vesting balance; `cddVestingSeconds` is set when its policy is by coin days. -/
structure VestingBalanceObject where
  owner : AccountId
  balance : Asset
  cddVestingSeconds : Option ℕ
  deriving DecidableEq, Repr

structure FbaAccumulatorObject where
  accumulatedFbaFees : ℤ := 0
  designatedAsset : Option AssetId := none
  deriving DecidableEq, Repr

inductive WorkerType
  | refund (totalBurned : ℤ)
  | vestingBalance (balance : ℕ)
  | burn (totalBurned : ℤ)
  deriving DecidableEq, Repr

structure WorkerObject where
  dailyPay : ℤ
  workBeginDate : ℕ
  workEndDate : ℕ
  worker : WorkerType
  totalVotesFor : ℤ := 0
  totalVotesAgainst : ℤ := 0
  deriving DecidableEq, Repr

structure WitnessObject where
  witnessAccount : AccountId
  payVb : Option ℕ := none
  deriving DecidableEq, Repr

structure ChainParameters where
  blockInterval : ℕ := 5
  maintenanceInterval : ℕ := 86400
  cashbackVestingThreshold : ℤ := 10000000
  cashbackVestingPeriodSeconds : ℕ := 31536000
  witnessPayPerBlock : ℤ := 1000000
  witnessPayVestingSeconds : ℕ := 86400
  workerBudgetPerDay : ℤ := 50000000000
  maximumAssetWhitelistAuthorities : ℕ := 10
  maximumAssetFeedPublishers : ℕ := 10
  deriving DecidableEq, Repr

/-- The order a fill is about, as it was before the fill. -/
inductive FilledOrder
  | limit (order : LimitOrderObject)
  | call (order : CallOrderObject)
  | settlement (order : ForceSettlementObject)
  deriving DecidableEq, Repr

/-- `fill_order_operation`, with the order in the place of its account. -/
structure FillOrderOperation where
  orderId : ℕ
  order : FilledOrder
  pays : Asset
  receives : Asset
  fee : Asset
  fillPrice : Price
  isMaker : Bool
  deriving DecidableEq, Repr

/-- `fills` is the history of the fills that `push_applied_operation` was told of: no
function of the model reads it. -/
structure MarketState where
  balances : List AccountBalance := []
  accounts : ObjectIndex AccountObject := .empty
  assets : ObjectIndex AssetObject := .empty
  limitOrders : ObjectIndex LimitOrderObject := .empty
  callOrders : ObjectIndex CallOrderObject := .empty
  forceSettlements : ObjectIndex ForceSettlementObject := .empty
  collateralBids : ObjectIndex CollateralBidObject := .empty
  vestingBalances : ObjectIndex VestingBalanceObject := .empty
  fbaAccumulators : ObjectIndex FbaAccumulatorObject := .empty
  workers : ObjectIndex WorkerObject := .empty
  witnesses : ObjectIndex WitnessObject := .empty
  parameters : ChainParameters := {}
  headBlockTime : ℕ := 0
  nextMaintenanceTime : ℕ := 0
  lastBudgetTime : ℕ := 0
  witnessBudget : ℤ := 0
  fills : List FillOrderOperation := []

/-! The accounts of the markets below. -/

theorem sorted_twoAccounts :
    (([(10, {}), (11, {})] : List (ℕ × AccountObject)).map Prod.fst).Pairwise (· < ·) := by
  decide

theorem fresh_twoAccounts : ∀ o ∈ ([(10, {}), (11, {})] : List (ℕ × AccountObject)), o.1 < 12 := by
  decide

theorem sorted_threeAccounts :
    (([(10, {}), (11, {}), (12, {})] : List (ℕ × AccountObject)).map Prod.fst).Pairwise
      (· < ·) := by
  decide

theorem fresh_threeAccounts :
    ∀ o ∈ ([(10, {}), (11, {}), (12, {})] : List (ℕ × AccountObject)), o.1 < 13 := by
  decide

/-- The use of an object through a reference or an iterator. -/
def deref {α : Type} : Option α → Checked α
  | some o => .ok o
  | none => .error .danglingReference

theorem deref_eq_ok {α : Type} {x : Option α} {o : α} : deref x = .ok o ↔ x = some o := by
  cases x <;> simp [deref]

namespace MarketState

def isAuthorizedAsset (account : AccountId) (asset : AssetId) (s : MarketState) : Checked Bool := do
  let acct ← get (s.accounts.find account)
  let assetObj ← get (s.assets.find asset)
  return Transfer.isAuthorizedAsset s.headBlockTime (acct.lists account) (assetObj.lists asset)

def getBalance (owner : AccountId) (assetId : AssetId) (s : MarketState) : Asset :=
  ⟨balanceOf owner assetId s.balances, assetId⟩

def adjustBalance (account : AccountId) (delta : Asset) (s : MarketState) : Checked MarketState := do
  return { s with balances := ← KarmaCore.adjustBalance account delta s.balances }

def modifyAccount (id : AccountId) (f : AccountObject → Checked AccountObject) (s : MarketState) :
    Checked MarketState := do
  let account ← get (s.accounts.find id)
  return { s with accounts := s.accounts.set id (← f account) }

def modifyStatistics (id : AccountId) (f : AccountStatistics → Checked AccountStatistics)
    (s : MarketState) : Checked MarketState :=
  s.modifyAccount id fun a ↦ do return { a with statistics := ← f a.statistics }

def modifyAsset (id : AssetId) (f : AssetObject → Checked AssetObject) (s : MarketState) :
    Checked MarketState := do
  let asset ← get (s.assets.find id)
  return { s with assets := s.assets.set id (← f asset) }

def modifyDynamicData (id : AssetId) (f : AssetDynamicData → Checked AssetDynamicData)
    (s : MarketState) : Checked MarketState :=
  s.modifyAsset id fun a ↦ do return { a with dynamicData := ← f a.dynamicData }

def modifyBitassetData (id : AssetId) (f : AssetBitassetData → Checked AssetBitassetData)
    (s : MarketState) : Checked MarketState :=
  s.modifyAsset id fun a ↦ do
    let bitasset ← a.getBitassetData
    return { a with bitassetData := some (← f bitasset) }

/-- The bitasset data of an asset that is looked up by its id. -/
def getBitassetData (id : AssetId) (s : MarketState) : Checked AssetBitassetData := do
  (← get (s.assets.find id)).getBitassetData

def pushAppliedOperation (fill : FillOrderOperation) (s : MarketState) : MarketState :=
  { s with fills := s.fills ++ [fill] }

/-! ## The order of the books -/

/-- The limit orders from `lower_bound(highest)` to `upper_bound(lowest)`, greater prices
first. -/
def limitsBetween (highest lowest : Price) (s : MarketState) : List (ℕ × LimitOrderObject) :=
  s.limitOrders.select (fun _ o ↦ ¬o.sellPrice.Gt highest ∧ ¬lowest.Gt o.sellPrice)
    fun o o' ↦ o'.sellPrice.Gt o.sellPrice

/-- The call orders from `lower_bound(lowest)` to `upper_bound(highest)`, smaller prices
first. -/
def callsBetween (lowest highest : Price) (s : MarketState) : List (ℕ × CallOrderObject) :=
  s.callOrders.select (fun _ o ↦ ¬o.callPrice.Lt lowest ∧ ¬highest.Lt o.callPrice)
    fun o o' ↦ o'.callPrice.Lt o.callPrice

/-- The bids for an asset from `lower_bound(highest)` on, greater prices first. -/
def bidsFrom (mia : AssetId) (highest : Price) (s : MarketState) :
    List (ℕ × CollateralBidObject) :=
  s.collateralBids.select (fun _ b ↦ b.debtType = mia ∧ ¬b.invSwanPrice.Gt highest)
    fun b b' ↦ b'.invSwanPrice.Gt b.invSwanPrice

/-- The call orders in the index by collateral from `lower_bound(lowest)` on, the least
collateralized first. -/
def callsByCollateral (lowest : Price) (s : MarketState) : List (ℕ × CallOrderObject) :=
  s.callOrders.select (fun _ o ↦ ¬Price.Lt ⟨o.getCollateral, o.getDebt⟩ lowest)
    fun o o' ↦ Price.Lt ⟨o'.getCollateral, o'.getDebt⟩ ⟨o.getCollateral, o.getDebt⟩

/-- The force settlements in an asset, the earliest first. -/
def settlementsOf (mia : AssetId) (s : MarketState) : List (ℕ × ForceSettlementObject) :=
  s.forceSettlements.select (fun _ o ↦ o.balance.assetId = mia)
    fun o o' ↦ o'.settlementDate < o.settlementDate

/-- The index of call orders by borrower and debt is unique. -/
def createCallOrder (o : CallOrderObject) (s : MarketState) : Checked MarketState := do
  require (∀ p ∈ s.callOrders.objects, ¬(p.2.borrower = o.borrower ∧ p.2.debtType = o.debtType))
    "Could not create object! Most likely a uniqueness constraint is violated."
  return { s with callOrders := s.callOrders.create o }

/-- The index of bids by debt and bidder is unique. -/
def createCollateralBid (b : CollateralBidObject) (s : MarketState) :
    Checked (ℕ × MarketState) := do
  require (∀ p ∈ s.collateralBids.objects, ¬(p.2.debtType = b.debtType ∧ p.2.bidder = b.bidder))
    "Could not create object! Most likely a uniqueness constraint is violated."
  return (s.collateralBids.nextId, { s with collateralBids := s.collateralBids.create b })

end MarketState

end KarmaCore.Market
