import Mathlib
import KarmaCore.Lib.Run
import KarmaCore.Market.Maintenance

/-!
# Runs of the market

Operations in any order, the passes of blocks and maintenance between them, and
what other operations do to the objects the market reads.  An event that throws
leaves the state as it was.
-/

namespace KarmaCore.Market

open Transfer (get)

/-! ## The shares of an operation -/

def Price.shares (p : Price) : List ℤ := [p.base.amount, p.quote.amount]

def PriceFeed.shares (f : PriceFeed) : List ℤ := f.settlementPrice.shares ++ f.coreExchangeRate.shares

def AssetOptions.shares (o : AssetOptions) : List ℤ :=
  [o.maxSupply, o.maxMarketFee] ++ o.coreExchangeRate.shares

namespace MarketOperation

/-- The shares an operation carries beside its fee. -/
def bodyShares : MarketOperation → List ℤ
  | transfer _ op => [op.amount.amount]
  | limitOrderCreate op => [op.amountToSell.amount, op.minToReceive.amount]
  | limitOrderCancel _ => []
  | callOrderUpdate op => [op.deltaCollateral.amount, op.deltaDebt.amount]
  | bidCollateral op => [op.additionalCollateral.amount, op.debtCovered.amount]
  | assetCreate op => op.commonOptions.shares
  | assetUpdate op => op.newOptions.shares
  | assetUpdateBitasset _ => []
  | assetUpdateFeedProducers _ => []
  | assetPublishFeed op => op.feed.shares
  | assetGlobalSettle op => op.settlePrice.shares
  | assetSettle op => [op.amount.amount]
  | assetIssue op => [op.assetToIssue.amount]
  | assetReserve op => [op.amountToReserve.amount]
  | assetFundFeePool op => [op.amount]
  | assetClaimFees op => [op.amountToClaim.amount]
  | feeOnly _ => []

/-- Every amount is a `share_type`. -/
def WellTyped (op : MarketOperation) : Prop := ∀ x ∈ op.fee.amount :: op.bodyShares, InShareRange x

instance (op : MarketOperation) : Decidable op.WellTyped := inferInstanceAs (Decidable (∀ x ∈ _, _))

end MarketOperation

/-! ## Events -/

/-- What happens to the market. Registrations, changes of accounts and parameters and vesting
balances stand for the operations that make them. -/
inductive MarketEvent
  | operation (op : MarketOperation) (typed : op.WellTyped)
  | nextBlock (seconds : ℕ)
  | clearExpiredOrders (cancelFee : ℕ)
  | updateExpiredFeeds
  | updateSigningWitness (witness : ℕ)
  | maintenance (accounts : List AccountId) (votes : ℕ → ℤ × ℤ)
  | registerAccount (account : AccountObject) (assetToBuy : Option AssetId)
  | updateAccount (id : AccountId) (account : AccountObject)
  | registerWorker (worker : WorkerObject)
  | registerWitness (account : AccountId)
  | createVesting (creator owner : AccountId) (amount : Asset) (cddVestingSeconds : Option ℕ)
  | withdrawVesting (id amount : ℕ)
  | updateParameters (parameters : ChainParameters)

namespace MarketState

/-- A new account has empty statistics; one with buyback options becomes the buyback account
of the asset it buys. -/
def registerAccount (account : AccountObject) (assetToBuy : Option AssetId) (s : MarketState) :
    Checked MarketState := do
  let id := s.accounts.nextId
  let s := { s with accounts := s.accounts.create { account with statistics := {} } }
  match assetToBuy with
  | some asset => s.modifyAsset asset fun a ↦ .ok { a with buybackAccount := some id }
  | none => return s

def createVesting (creator owner : AccountId) (amount : Asset) (cddVestingSeconds : Option ℕ)
    (s : MarketState) : Checked MarketState := do
  require (0 < amount.amount) "amount.amount > 0"
  let s ← s.adjustBalance creator (← amount.neg)
  let vbo : VestingBalanceObject := ⟨owner, amount, cddVestingSeconds⟩
  return { s with vestingBalances := s.vestingBalances.create vbo }

def withdrawVesting (id amount : ℕ) (s : MarketState) : Checked MarketState := do
  let vbo ← get (s.vestingBalances.find id)
  require (amount ≤ vbo.balance.amount) "vbo.is_withdraw_allowed( now, op.amount )"
  let balance ← vbo.balance.sub ⟨amount, vbo.balance.assetId⟩
  let s := { s with vestingBalances := s.vestingBalances.set id { vbo with balance } }
  s.adjustBalance vbo.owner ⟨amount, vbo.balance.assetId⟩

def applyEvent (calculateFee : MarketOperation → ℤ) (s : MarketState) :
    MarketEvent → Checked MarketState
  | .operation op _ => s.applyOperation calculateFee op
  | .nextBlock seconds => .ok { s with headBlockTime := s.headBlockTime + seconds }
  | .clearExpiredOrders cancelFee => s.clearExpiredOrders cancelFee
  | .updateExpiredFeeds => s.updateExpiredFeeds
  | .updateSigningWitness witness => s.updateSigningWitness witness
  | .maintenance accounts votes => s.performChainMaintenance accounts votes
  | .registerAccount account assetToBuy => s.registerAccount account assetToBuy
  | .updateAccount id account =>
      s.modifyAccount id fun a ↦ .ok { account with statistics := a.statistics }
  | .registerWorker worker => .ok { s with workers := s.workers.create worker }
  | .registerWitness account => .ok { s with witnesses := s.witnesses.create ⟨account, none⟩ }
  | .createVesting creator owner amount cddVestingSeconds =>
      s.createVesting creator owner amount cddVestingSeconds
  | .withdrawVesting id amount => s.withdrawVesting id amount
  | .updateParameters parameters => .ok { s with parameters }

def step (calculateFee : MarketOperation → ℤ) (s : MarketState) (event : MarketEvent) :
    MarketState :=
  match s.applyEvent calculateFee event with
  | .ok s' => s'
  | .error _ => s

end MarketState

end KarmaCore.Market
