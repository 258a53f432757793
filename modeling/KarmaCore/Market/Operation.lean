import Mathlib
import KarmaCore.Market.AssetEvaluator
import KarmaCore.Market.Fee
import KarmaCore.Market.MarketEvaluator

/-!
# Applying an operation

Every evaluator prepares the fee, evaluates the operation, converts and puts
aside the fee, applies the operation and then charges the payer.
-/

namespace KarmaCore.Market

open Transfer (get)

/-- An operation that touches this model through its fee only. -/
structure FeeOnlyOperation where
  fee : Asset
  feePayer : AccountId
  fbaId : Option ℕ := none

inductive MarketOperation
  | transfer (fee : Asset) (op : Transfer.TransferOperation)
  | limitOrderCreate (op : LimitOrderCreateOperation)
  | limitOrderCancel (op : LimitOrderCancelOperation)
  | callOrderUpdate (op : CallOrderUpdateOperation)
  | bidCollateral (op : BidCollateralOperation)
  | assetCreate (op : AssetCreateOperation)
  | assetUpdate (op : AssetUpdateOperation)
  | assetUpdateBitasset (op : AssetUpdateBitassetOperation)
  | assetUpdateFeedProducers (op : AssetUpdateFeedProducersOperation)
  | assetPublishFeed (op : AssetPublishFeedOperation)
  | assetGlobalSettle (op : AssetGlobalSettleOperation)
  | assetSettle (op : AssetSettleOperation)
  | assetIssue (op : AssetIssueOperation)
  | assetReserve (op : AssetReserveOperation)
  | assetFundFeePool (op : AssetFundFeePoolOperation)
  | assetClaimFees (op : AssetClaimFeesOperation)
  | feeOnly (op : FeeOnlyOperation)

namespace MarketOperation

def fee : MarketOperation → Asset
  | transfer fee _ => fee
  | limitOrderCreate op => op.fee
  | limitOrderCancel op => op.fee
  | callOrderUpdate op => op.fee
  | bidCollateral op => op.fee
  | assetCreate op => op.fee
  | assetUpdate op => op.fee
  | assetUpdateBitasset op => op.fee
  | assetUpdateFeedProducers op => op.fee
  | assetPublishFeed op => op.fee
  | assetGlobalSettle op => op.fee
  | assetSettle op => op.fee
  | assetIssue op => op.fee
  | assetReserve op => op.fee
  | assetFundFeePool op => op.fee
  | assetClaimFees op => op.fee
  | feeOnly op => op.fee

def feePayer : MarketOperation → AccountId
  | transfer _ op => op.source
  | limitOrderCreate op => op.seller
  | limitOrderCancel op => op.feePayingAccount
  | callOrderUpdate op => op.fundingAccount
  | bidCollateral op => op.bidder
  | assetCreate op => op.issuer
  | assetUpdate op => op.issuer
  | assetUpdateBitasset op => op.issuer
  | assetUpdateFeedProducers op => op.issuer
  | assetPublishFeed op => op.publisher
  | assetGlobalSettle op => op.issuer
  | assetSettle op => op.account
  | assetIssue op => op.issuer
  | assetReserve op => op.payer
  | assetFundFeePool op => op.fromAccount
  | assetClaimFees op => op.issuer
  | feeOnly op => op.feePayer

def validate : MarketOperation → Checked Unit
  | transfer fee op => do
      require (0 ≤ fee.amount) "fee.amount >= 0"
      op.validate
  | limitOrderCreate op => op.validate
  | limitOrderCancel op => op.validate
  | callOrderUpdate op => op.validate
  | bidCollateral op => op.validate
  | assetCreate op => op.validate
  | assetUpdate op => op.validate
  | assetUpdateBitasset op => op.validate
  | assetUpdateFeedProducers op => op.validate
  | assetPublishFeed op => op.validate
  | assetGlobalSettle op => op.validate
  | assetSettle op => op.validate
  | assetIssue op => op.validate
  | assetReserve op => op.validate
  | assetFundFeePool op => op.validate
  | assetClaimFees op => op.validate
  | feeOnly op => require (0 ≤ op.fee.amount) "fee.amount >= 0"

/-- What the transfer evaluator sees of the market. -/
def transferView (s : MarketState) : Transfer.TransferDatabase where
  accounts id := (s.accounts.find id).map (·.lists id)
  assets id := (s.assets.find id).map (·.lists id)
  permits _ := none
  ledger := ⟨s.balances, fun id ↦ ((s.assets.find id).map (·.dynamicData.currentSupply)).getD 0, []⟩
  headBlockTime := s.headBlockTime

def doEvaluate (s : MarketState) : MarketOperation → Checked Unit
  | transfer _ op => op.doEvaluate (transferView s)
  | limitOrderCreate op => op.doEvaluate s
  | limitOrderCancel op => op.doEvaluate s
  | callOrderUpdate op => op.doEvaluate s
  | bidCollateral op => op.doEvaluate s
  | assetCreate op => op.doEvaluate s
  | assetUpdate op => op.doEvaluate s
  | assetUpdateBitasset op => op.doEvaluate s
  | assetUpdateFeedProducers op => op.doEvaluate s
  | assetPublishFeed op => op.doEvaluate s
  | assetGlobalSettle op => op.doEvaluate s
  | assetSettle op => op.doEvaluate s
  | assetIssue op => op.doEvaluate s
  | assetReserve op => op.doEvaluate s
  | assetFundFeePool op => op.doEvaluate s
  | assetClaimFees op => op.doEvaluate s
  | feeOnly _ => .ok ()

/-- The evaluator's `pay_fee`: most put the whole fee aside in the payer's statistics. -/
def payFee (coreFeePaid : ℤ) (s : MarketState) : MarketOperation → Checked MarketState
  | limitOrderCreate op =>
      if s.headBlockTime ≤ hardfork445Time then s.payFee op.seller coreFeePaid else .ok s
  | assetCreate op => s.payFee op.issuer (AssetCreateOperation.poolFee coreFeePaid)
  | feeOnly op =>
      match op.fbaId with
      | some id => s.payFbaFee id op.feePayer coreFeePaid
      | none => s.payFee op.feePayer coreFeePaid
  | op => s.payFee op.feePayer coreFeePaid

/-- The fee a new limit order keeps until it is filled or cancelled. -/
def deferredFee (coreFeePaid : ℤ) (s : MarketState) : ℤ :=
  if s.headBlockTime ≤ hardfork445Time then 0 else coreFeePaid

def doApply (coreFeePaid : ℤ) (s : MarketState) : MarketOperation → Checked MarketState
  | transfer _ op => do
      let d ← op.doApply (transferView s)
      return { s with balances := d.ledger.balances }
  | limitOrderCreate op => op.doApply (deferredFee coreFeePaid s) s
  | limitOrderCancel op => op.doApply s
  | callOrderUpdate op => op.doApply s
  | bidCollateral op => op.doApply s
  | assetCreate op => op.doApply coreFeePaid s
  | assetUpdate op => op.doApply s
  | assetUpdateBitasset op => op.doApply s
  | assetUpdateFeedProducers op => op.doApply s
  | assetPublishFeed op => op.doApply s
  | assetGlobalSettle op => op.doApply s
  | assetSettle op => op.doApply s
  | assetIssue op => op.doApply s
  | assetReserve op => op.doApply s
  | assetFundFeePool op => op.doApply s
  | assetClaimFees op => op.doApply s
  | feeOnly _ => .ok s

end MarketOperation

namespace MarketState

/-- `evaluate` and then `apply`. `requiredFee` is none where the fee schedule is not checked. -/
def evaluateAndApply (op : MarketOperation) (requiredFee : Option ℤ) (s : MarketState) :
    Checked MarketState := do
  let coreFeePaid ← s.prepareFee op.feePayer op.fee
  require (∀ fee ∈ requiredFee, fee ≤ coreFeePaid) "Insufficient Fee Paid"
  op.doEvaluate s
  let s ← s.convertFee op.fee coreFeePaid
  let s ← op.payFee coreFeePaid s
  let s ← op.doApply coreFeePaid s
  s.adjustBalance op.feePayer (← op.fee.neg)

/-- An operation of a transaction, under a fee schedule. -/
def applyOperation (calculateFee : MarketOperation → ℤ) (op : MarketOperation) (s : MarketState) :
    Checked MarketState := do
  op.validate
  s.evaluateAndApply op (some (calculateFee op))

end MarketState

end KarmaCore.Market
