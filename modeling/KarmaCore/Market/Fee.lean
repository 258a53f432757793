import Mathlib
import KarmaCore.Market.FillOrder

/-!
# Fees

An operation's fee is taken from the payer, converted through the fee pool of
its asset and put aside in the payer's statistics or in an FBA accumulator.  At
maintenance the collected fees go to the network, the referrers and the
registrar.
-/

namespace KarmaCore.Market

open Transfer (get)

/-- `cut_fee`. -/
def cutFee (a : ℤ) (p : ℕ) : ℤ :=
  if a = 0 ∨ p = 0 then 0 else if p = percent100 then a else mul128 a p / percent100

def topNControlBoth : ℕ := 0x03

namespace MarketState

/-! ## Paying a fee -/

/-- The core the fee is worth, by the pool of the asset it is paid in. -/
def prepareFee (payer : AccountId) (fee : Asset) (s : MarketState) : Checked ℤ := do
  require (0 ≤ fee.amount) "fee.amount >= 0"
  let _ ← get (s.accounts.find payer)
  let feeAsset ← get (s.assets.find fee.assetId)
  let authorized ← s.isAuthorizedAsset payer fee.assetId
  require (Transfer.hardfork419Time < s.headBlockTime → authorized = true)
    "is_authorized_asset( d, *fee_paying_account, *fee_asset )"
  if fee.assetId = coreAsset then return fee.amount
  else do
    let feeFromPool ← times fee feeAsset.options.coreExchangeRate
    require (feeFromPool.assetId = coreAsset) "fee_from_pool.asset_id == asset_id_type()"
    require (feeFromPool.amount ≤ feeAsset.dynamicData.feePool)
      "Fee pool balance of '${b}' is less than the ${r} required to convert ${c}"
    return feeFromPool.amount

def convertFee (fee : Asset) (coreFeePaid : ℤ) (s : MarketState) : Checked MarketState :=
  whenever (fee.assetId ≠ coreAsset) (modifyDynamicData fee.assetId fun d ↦ do
    let accumulatedFees ← checkedShare (d.accumulatedFees + fee.amount)
    let feePool ← checkedShare (d.feePool - coreFeePaid)
    return { d with accumulatedFees, feePool }) s

def payFee (payer : AccountId) (coreFee : ℤ) (s : MarketState) : Checked MarketState :=
  s.modifyStatistics payer (·.payFee coreFee s.parameters.cashbackVestingThreshold)

/-- `is_configured`. -/
def isConfigured (fba : FbaAccumulatorObject) (s : MarketState) : Bool :=
  match fba.designatedAsset with
  | none => false
  | some id =>
      match s.assets.find id with
      | none => false
      | some a =>
          match s.accounts.find a.issuer with
          | none => false
          | some issuer =>
              ¬a.isMarketIssued ∧
                a.options.issuerPermissions &&& chargeMarketFee = a.options.issuerPermissions ∧
                a.options.flags &&& chargeMarketFee = a.options.flags ∧
                a.buybackAccount.isSome ∧ issuer.ownerSpecialAuthority = some id ∧
                issuer.activeSpecialAuthority = some id ∧ issuer.topNControlFlags = topNControlBoth

def payFbaFee (fbaId : ℕ) (payer : AccountId) (coreFee : ℤ) (s : MarketState) :
    Checked MarketState := do
  let fba ← get (s.fbaAccumulators.find fbaId)
  if ¬s.isConfigured fba then s.payFee payer coreFee
  else do
    let accumulatedFbaFees ← checkedShare (fba.accumulatedFbaFees + coreFee)
    return { s with
      fbaAccumulators := s.fbaAccumulators.set fbaId { fba with accumulatedFbaFees } }

/-! ## Vesting deposits -/

/-- The vesting balance a lazy deposit may be added to. -/
def lazyVestingTarget (vbid : Option ℕ) (vestingSeconds : ℕ) (owner : AccountId)
    (s : MarketState) : Checked (Option (ℕ × VestingBalanceObject)) :=
  match vbid with
  | none => .ok none
  | some id => do
      let vbo ← get (s.vestingBalances.find id)
      return if vbo.owner = owner ∧ vbo.cddVestingSeconds = some vestingSeconds then some (id, vbo)
        else none

/-- Adds an amount to a vesting balance, which must hold the core asset. -/
def depositVesting (id : ℕ) (vbo : VestingBalanceObject) (amount : ℤ) (s : MarketState) :
    Checked MarketState := do
  let balance ← vbo.balance.add ⟨amount, coreAsset⟩
  return { s with vestingBalances := s.vestingBalances.set id { vbo with balance } }

/-- `deposit_lazy_vesting`, with the id of the vesting balance it created. -/
def depositLazyVesting (vbid : Option ℕ) (amount : ℤ) (vestingSeconds : ℕ) (owner : AccountId)
    (s : MarketState) : Checked (Option ℕ × MarketState) :=
  if amount = 0 then .ok (none, s)
  else do
    let target ← s.lazyVestingTarget vbid vestingSeconds owner
    match target with
    | some (id, vbo) => do
        let s ← s.depositVesting id vbo amount
        return (none, s)
    | none =>
        let vbo : VestingBalanceObject := ⟨owner, ⟨amount, coreAsset⟩, some vestingSeconds⟩
        return (some s.vestingBalances.nextId,
          { s with vestingBalances := s.vestingBalances.create vbo })

def setCashbackVb (acct : AccountId) (vbid : Option ℕ) (s : MarketState) : Checked MarketState :=
  match vbid with
  | some id => s.modifyAccount acct fun a ↦ .ok { a with cashbackVb := some id }
  | none => .ok s

def depositCashback (acct : AccountId) (amount : ℤ) (s : MarketState) : Checked MarketState := do
  let account ← get (s.accounts.find acct)
  if amount = 0 then return s
  else if acct = committeeAccount ∨ acct = witnessAccount ∨ acct = relaxedCommitteeAccount ∨
      acct = nullAccount ∨ acct = tempAccount then
    s.modifyDynamicData coreAsset (·.subSupply amount)
  else do
    let (vbid, s) ← s.depositLazyVesting account.cashbackVb amount
      s.parameters.cashbackVestingPeriodSeconds acct
    s.setCashbackVb acct vbid

/-! ## Distributing fees -/

/-- A referrer who is no longer a member is replaced by the lifetime referrer. -/
def updateReferrer (acct : AccountId) (s : MarketState) : Checked MarketState := do
  let account ← get (s.accounts.find acct)
  let referrer ← get (s.accounts.find account.referrer)
  whenever (referrer.isBasicAccount s.headBlockTime)
    (modifyAccount acct fun a ↦ .ok { a with referrer := a.lifetimeReferrer }) s

/-- `pay_out_fees`. -/
def payOutFees (acct : AccountId) (coreFeeTotal : ℤ) (s : MarketState) : Checked MarketState := do
  let s ← s.updateReferrer acct
  let account ← get (s.accounts.find acct)
  let networkCut := cutFee coreFeeTotal account.networkFeePercentage
  let lifetimeCut := cutFee coreFeeTotal account.lifetimeReferrerFeePercentage
  let rest ← checkedShare (coreFeeTotal - networkCut)
  let referral ← checkedShare (rest - lifetimeCut)
  let s ← s.modifyDynamicData coreAsset fun d ↦ do
    return { d with accumulatedFees := ← checkedShare (d.accumulatedFees + networkCut) }
  let referrerCut := cutFee referral account.referrerRewardsPercentage
  let registrarCut ← checkedShare (referral - referrerCut)
  let s ← s.depositCashback account.lifetimeReferrer lifetimeCut
  let s ← s.depositCashback account.referrer referrerCut
  s.depositCashback account.registrar registrarCut

def processFees (acct : AccountId) (s : MarketState) : Checked MarketState := do
  let account ← get (s.accounts.find acct)
  let b := account.statistics
  if 0 < b.pendingFees ∨ 0 < b.pendingVestedFees then do
    let s ← s.payOutFees acct b.pendingFees
    let s ← s.payOutFees acct b.pendingVestedFees
    s.modifyStatistics acct fun b ↦ do
      let paid ← checkedShare (b.pendingFees + b.pendingVestedFees)
      let lifetimeFeesPaid ← checkedShare (b.lifetimeFeesPaid + paid)
      return { b with lifetimeFeesPaid, pendingFees := 0, pendingVestedFees := 0 }
  else return s

end MarketState

end KarmaCore.Market
