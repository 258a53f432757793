import Mathlib
import KarmaCore.Lib.ObjectIndex
import KarmaCore.Lib.Run
import KarmaCore.Transfer.TransferEvaluator

/-!
# Vesting balances

The two vesting policies, the balances they govern, and the ways into and out
of a balance: creation, withdrawal, the pay of a worker and the lazy deposit
of cashback and witness pay.
-/

namespace KarmaCore.Vesting

open Transfer (get get_eq_ok)

/-- An expression of type `int64_t`. -/
def int64 (x : ℤ) : ℤ := x.bmod (2 ^ 64)

/-- A value put into a `uint128_t`. -/
def uint128 (x : ℤ) : ℤ := x % 2 ^ 128

/-! ## Policies -/

structure LinearVestingPolicy where
  beginTimestamp : ℕ
  vestingCliffSeconds : ℕ
  vestingDurationSeconds : ℕ
  beginBalance : ℤ
  deriving DecidableEq

structure CddVestingPolicy where
  vestingSeconds : ℕ
  coinSecondsEarned : ℤ := 0
  startClaim : ℕ := 0
  coinSecondsEarnedLastUpdate : ℕ
  deriving DecidableEq

namespace LinearVestingPolicy

def getAllowedWithdraw (p : LinearVestingPolicy) (balance : Asset) (now : ℕ) : Asset :=
  if p.beginTimestamp < now then
    let elapsedSeconds := now - p.beginTimestamp
    if p.vestingCliffSeconds ≤ elapsedSeconds then
      let totalVested :=
        if elapsedSeconds < p.vestingDurationSeconds then
          p.beginBalance * elapsedSeconds / p.vestingDurationSeconds
        else p.beginBalance
      let withdrawnAlready := p.beginBalance - balance.amount
      ⟨totalVested - withdrawnAlready, balance.assetId⟩
    else ⟨0, balance.assetId⟩
  else ⟨0, balance.assetId⟩

def isWithdrawAllowed (p : LinearVestingPolicy) (balance : Asset) (now : ℕ) (amount : Asset) :
    Checked Bool :=
  if amount.assetId = balance.assetId then amount.le (p.getAllowedWithdraw balance now) else .ok false

end LinearVestingPolicy

namespace CddVestingPolicy

variable (p : CddVestingPolicy)

/-- `std::max(vesting_seconds, 1u)`. -/
def maturity : ℕ := max p.vestingSeconds 1

def computeCoinSecondsEarned (balance : Asset) (now : ℕ) : ℤ :=
  let deltaSeconds : ℤ := now - p.coinSecondsEarnedLastUpdate
  let deltaCoinSeconds := uint128 (uint128 balance.amount * uint128 deltaSeconds)
  let coinSecondsEarnedCap := uint128 (uint128 balance.amount * p.maturity)
  min (uint128 (p.coinSecondsEarned + deltaCoinSeconds)) coinSecondsEarnedCap

def updateCoinSecondsEarned (balance : Asset) (now : ℕ) : CddVestingPolicy :=
  { p with
    coinSecondsEarned := p.computeCoinSecondsEarned balance now
    coinSecondsEarnedLastUpdate := now }

def getAllowedWithdraw (balance : Asset) (now : ℕ) : Asset :=
  if now ≤ p.startClaim then ⟨0, balance.assetId⟩
  else
    let csEarned := p.computeCoinSecondsEarned balance now
    ⟨int64 (csEarned / p.maturity), balance.assetId⟩

def isWithdrawAllowed (balance : Asset) (now : ℕ) (amount : Asset) : Checked Bool :=
  amount.le (p.getAllowedWithdraw balance now)

def onDeposit (balance : Asset) (now : ℕ) : CddVestingPolicy :=
  p.updateCoinSecondsEarned balance now

/-- The product is one of `int64_t`. -/
def onDepositVested (balance : Asset) (now : ℕ) (amount : Asset) : CddVestingPolicy :=
  let p := p.onDeposit balance now
  { p with coinSecondsEarned :=
      uint128 (p.coinSecondsEarned + int64 (amount.amount * p.maturity)) }

def onWithdraw (balance : Asset) (now : ℕ) (amount : Asset) : CddVestingPolicy :=
  let p := p.updateCoinSecondsEarned balance now
  let coinSecondsNeeded := uint128 (uint128 amount.amount * p.maturity)
  { p with coinSecondsEarned := uint128 (p.coinSecondsEarned - coinSecondsNeeded) }

end CddVestingPolicy

inductive VestingPolicy
  | linear (policy : LinearVestingPolicy)
  | cdd (policy : CddVestingPolicy)
  deriving DecidableEq

/-! ## Balances -/

/-- `withdrawn` is the history of the amounts that were withdrawn, in one sum: no function of
the model reads it. -/
structure VestingBalanceObject where
  owner : AccountId
  balance : Asset
  policy : VestingPolicy
  withdrawn : ℤ := 0
  deriving DecidableEq

namespace VestingBalanceObject

variable (vbo : VestingBalanceObject)

def isWithdrawAllowed (now : ℕ) (amount : Asset) : Checked Bool :=
  match vbo.policy with
  | .linear p => p.isWithdrawAllowed vbo.balance now amount
  | .cdd p => p.isWithdrawAllowed vbo.balance now amount

def getAllowedWithdraw (now : ℕ) : Asset :=
  match vbo.policy with
  | .linear p => p.getAllowedWithdraw vbo.balance now
  | .cdd p => p.getAllowedWithdraw vbo.balance now

def deposit (now : ℕ) (amount : Asset) : Checked VestingBalanceObject := do
  let policy := match vbo.policy with
    | .linear p => .linear p
    | .cdd p => .cdd (p.onDeposit vbo.balance now)
  return { vbo with policy, balance := ← vbo.balance.add amount }

def depositVested (now : ℕ) (amount : Asset) : Checked VestingBalanceObject := do
  let policy ← match vbo.policy with
    | .linear _ => .error (.assertion "May not deposit vested into a linear vesting balance.")
    | .cdd p => .ok (.cdd (p.onDepositVested vbo.balance now amount))
  return { vbo with policy, balance := ← vbo.balance.add amount }

def depositEither (requireVesting : Bool) (now : ℕ) (amount : Asset) : Checked VestingBalanceObject :=
  if requireVesting then vbo.deposit now amount else vbo.depositVested now amount

/-- The balance of a worker has a coin-days policy. -/
def depositPay (now : ℕ) (pay : Asset) : Checked VestingBalanceObject :=
  match vbo.policy with
  | .cdd _ => vbo.deposit now pay
  | .linear _ => .error .unableToFindObject

def withdraw (now : ℕ) (amount : Asset) : Checked VestingBalanceObject := do
  let policy := match vbo.policy with
    | .linear p => .linear p
    | .cdd p => .cdd (p.onWithdraw vbo.balance now amount)
  return { vbo with
    policy
    balance := ← vbo.balance.sub amount
    withdrawn := vbo.withdrawn + amount.amount }

end VestingBalanceObject

/-! ## Operations -/

structure LinearVestingPolicyInitializer where
  beginTimestamp : ℕ
  vestingCliffSeconds : ℕ := 0
  vestingDurationSeconds : ℕ := 0

structure CddVestingPolicyInitializer where
  startClaim : ℕ := 0
  vestingSeconds : ℕ := 0

inductive VestingPolicyInitializer
  | linear (initializer : LinearVestingPolicyInitializer)
  | cdd (initializer : CddVestingPolicyInitializer)

/-- `init_policy_visitor`. -/
def VestingPolicyInitializer.init (initBalance : ℤ) (now : ℕ) : VestingPolicyInitializer → VestingPolicy
  | .linear i => .linear
      ⟨i.beginTimestamp, i.vestingCliffSeconds, i.vestingDurationSeconds, initBalance⟩
  | .cdd i => .cdd
      { vestingSeconds := i.vestingSeconds
        startClaim := i.startClaim
        coinSecondsEarned := 0
        coinSecondsEarnedLastUpdate := now }

structure VestingBalanceCreateOperation where
  creator : AccountId
  owner : AccountId
  amount : Asset
  policy : VestingPolicyInitializer

structure VestingBalanceWithdrawOperation where
  vestingBalance : ℕ
  owner : AccountId
  amount : Asset

def VestingBalanceCreateOperation.validate (op : VestingBalanceCreateOperation) : Checked Unit :=
  require (0 < op.amount.amount) "amount.amount > 0"

def VestingBalanceWithdrawOperation.validate (op : VestingBalanceWithdrawOperation) : Checked Unit :=
  require (0 < op.amount.amount) "amount.amount > 0"

/-- The time of the head block and the vesting balances. -/
structure VestingState where
  now : ℕ
  balances : ObjectIndex VestingBalanceObject := .empty

namespace VestingState

/-- The creation, once the creator has paid the amount. -/
def create (op : VestingBalanceCreateOperation) (s : VestingState) : Checked VestingState := do
  op.validate
  let vbo : VestingBalanceObject :=
    { owner := op.owner
      balance := op.amount
      policy := op.policy.init op.amount.amount s.now }
  return { s with balances := s.balances.create vbo }

def withdraw (op : VestingBalanceWithdrawOperation) (s : VestingState) : Checked VestingState := do
  op.validate
  let vbo ← get (s.balances.find op.vestingBalance)
  require (op.owner = vbo.owner) "op.owner == vbo.owner"
  require ((← vbo.isWithdrawAllowed s.now op.amount) = true)
    "vbo.is_withdraw_allowed( now, op.amount )"
  let vbo ← vbo.withdraw s.now op.amount
  return { s with balances := s.balances.set op.vestingBalance vbo }

/-- A worker is paid into the balance that `worker_init_visitor` created for it. -/
def payWorker (id : ℕ) (pay : ℤ) (s : VestingState) : Checked VestingState := do
  let vbo ← get (s.balances.find id)
  let vbo ← vbo.depositPay s.now ⟨pay, 0⟩
  return { s with balances := s.balances.set id vbo }

/-- The balance that is there is used if it is of that owner and matures in that time. -/
def Reusable (reqVestingSeconds : ℕ) (reqOwner : AccountId) (vbo : VestingBalanceObject) : Prop :=
  match vbo.policy with
  | .cdd p => vbo.owner = reqOwner ∧ p.vestingSeconds = reqVestingSeconds
  | .linear _ => False

instance (reqVestingSeconds : ℕ) (reqOwner : AccountId) :
    DecidablePred (Reusable reqVestingSeconds reqOwner) := fun vbo ↦
  match h : vbo.policy with
  | .cdd p => decidable_of_iff (vbo.owner = reqOwner ∧ p.vestingSeconds = reqVestingSeconds)
      (by simp [Reusable, h])
  | .linear _ => isFalse (by simp [Reusable, h])

/-- The balance that `deposit_lazy_vesting` creates. -/
def lazyBalance (amount : ℤ) (reqVestingSeconds : ℕ) (reqOwner : AccountId) (requireVesting : Bool)
    (now : ℕ) : VestingBalanceObject where
  owner := reqOwner
  balance := ⟨amount, 0⟩
  policy := .cdd
    { vestingSeconds := reqVestingSeconds
      coinSecondsEarned :=
        if requireVesting then 0 else uint128 (int64 (amount * reqVestingSeconds))
      coinSecondsEarnedLastUpdate := now }

def depositInto (id : ℕ) (vbo : VestingBalanceObject) (amount : ℤ) (requireVesting : Bool)
    (s : VestingState) : Checked VestingState := do
  let vbo ← vbo.depositEither requireVesting s.now ⟨amount, 0⟩
  return { s with balances := s.balances.set id vbo }

/-- The balance to reuse, if there is one. -/
def reusableBalance (ovbid : Option ℕ) (reqVestingSeconds : ℕ) (reqOwner : AccountId)
    (s : VestingState) : Checked (Option (ℕ × VestingBalanceObject)) :=
  match ovbid with
  | none => .ok none
  | some id => do
      let vbo ← get (s.balances.find id)
      return if Reusable reqVestingSeconds reqOwner vbo then some (id, vbo) else none

def depositLazyVesting (ovbid : Option ℕ) (amount : ℤ) (reqVestingSeconds : ℕ)
    (reqOwner : AccountId) (requireVesting : Bool) (s : VestingState) :
    Checked (Option ℕ × VestingState) :=
  if amount = 0 then .ok (none, s)
  else do
    match ← s.reusableBalance ovbid reqVestingSeconds reqOwner with
    | some (id, vbo) => return (none, ← s.depositInto id vbo amount requireVesting)
    | none =>
        let vbo := lazyBalance amount reqVestingSeconds reqOwner requireVesting s.now
        return (some s.balances.nextId, { s with balances := s.balances.create vbo })

end VestingState

/-! ## Runs -/

/-- What happens to the vesting balances: amounts that are deposited are never negative. -/
inductive VestingEvent
  | passTime (seconds : ℕ)
  | create (op : VestingBalanceCreateOperation)
  | withdraw (op : VestingBalanceWithdrawOperation)
  | payWorker (id pay : ℕ)
  | depositLazy (ovbid : Option ℕ) (amount : ℕ) (reqVestingSeconds : ℕ) (reqOwner : AccountId)
      (requireVesting : Bool)

namespace VestingState

def applyEvent (s : VestingState) : VestingEvent → Checked VestingState
  | .passTime seconds => .ok { s with now := s.now + seconds }
  | .create op => s.create op
  | .withdraw op => s.withdraw op
  | .payWorker id pay => s.payWorker id pay
  | .depositLazy ovbid amount reqVestingSeconds reqOwner requireVesting => do
      let (_, s) ← s.depositLazyVesting ovbid amount reqVestingSeconds reqOwner requireVesting
      return s

/-- An event that throws leaves the state as it was. -/
def step (s : VestingState) (event : VestingEvent) : VestingState :=
  match s.applyEvent event with
  | .ok s' => s'
  | .error _ => s

end VestingState

end KarmaCore.Vesting
