import Mathlib
import KarmaCore.Credit.Ledger

/-!
# Transfers and the asset's lists

`transfer`, `override_transfer` and `withdraw_permission_claim` move an amount
of an asset between two accounts.  Each evaluator tests the two accounts against
the white and black lists of the asset on its own.
-/

namespace KarmaCore.Transfer

/-! `asset_issuer_permission_flags`. -/

def whiteList : ℕ := 0x02
def overrideAuthority : ℕ := 0x04
def transferRestricted : ℕ := 0x08

def hardfork23Time : ℕ := 1512747600
def hardfork415Time : ℕ := 1446652800
def hardfork419Time : ℕ := 1446652800

structure AccountObject where
  id : AccountId
  allowedAssets : Option (Finset AssetId) := none
  whitelistingAccounts : List AccountId := []
  blacklistingAccounts : List AccountId := []

structure AssetObject where
  id : AssetId
  issuer : AccountId
  flags : ℕ := 0
  whitelistAuthorities : Finset AccountId := ∅
  blacklistAuthorities : Finset AccountId := ∅

namespace AssetObject

def hasFlag (flag : ℕ) (a : AssetObject) : Prop := a.flags &&& flag ≠ 0

def isTransferRestricted (a : AssetObject) : Prop := a.hasFlag transferRestricted
def canOverride (a : AssetObject) : Prop := a.hasFlag overrideAuthority

instance (flag : ℕ) (a : AssetObject) : Decidable (a.hasFlag flag) :=
  inferInstanceAs (Decidable (_ ≠ _))

instance (a : AssetObject) : Decidable a.isTransferRestricted :=
  inferInstanceAs (Decidable (a.hasFlag _))

instance (a : AssetObject) : Decidable a.canOverride := inferInstanceAs (Decidable (a.hasFlag _))

end AssetObject

abbrev WithdrawPermissionId := ℕ

structure WithdrawPermissionObject where
  withdrawFromAccount : AccountId
  authorizedAccount : AccountId
  withdrawalLimit : Asset
  withdrawalPeriodSec : ℕ
  periodStartTime : ℕ
  expiration : ℕ
  claimedThisPeriod : ℤ := 0

structure TransferDatabase where
  accounts : AccountId → Option AccountObject
  assets : AssetId → Option AssetObject
  permits : WithdrawPermissionId → Option WithdrawPermissionObject
  ledger : Ledger
  headBlockTime : ℕ

/-- `id(d)`: the object or an exception. -/
def get {α : Type} : Option α → Checked α
  | some o => .ok o
  | none => .error .unableToFindObject

theorem get_eq_ok {α : Type} {x : Option α} {o : α} : get x = .ok o ↔ x = some o := by
  cases x <;> simp [get]

/-! ## The lists of an asset -/

/-- `detail::_is_authorized_asset`. -/
def slowCheck (headBlockTime : ℕ) (acct : AccountObject) (assetObj : AssetObject) : Bool :=
  if acct.allowedAssets.any (assetObj.id ∉ ·) then false
  else if acct.blacklistingAccounts.any (· ∈ assetObj.blacklistAuthorities) then false
  else if hardfork415Time < headBlockTime ∧ assetObj.whitelistAuthorities = ∅ then true
  else acct.whitelistingAccounts.any (· ∈ assetObj.whitelistAuthorities)

def isAuthorizedAsset (headBlockTime : ℕ) (acct : AccountObject) (assetObj : AssetObject) : Bool :=
  let fastCheck := ¬assetObj.hasFlag whiteList ∧ acct.allowedAssets = none
  if fastCheck then true else slowCheck headBlockTime acct assetObj

/-! ## The operations -/

structure TransferOperation where
  source : AccountId
  target : AccountId
  amount : Asset

structure OverrideTransferOperation where
  issuer : AccountId
  source : AccountId
  target : AccountId
  amount : Asset

structure WithdrawPermissionClaimOperation where
  withdrawPermission : WithdrawPermissionId
  withdrawFromAccount : AccountId
  withdrawToAccount : AccountId
  amountToWithdraw : Asset

inductive MoveOperation
  | transfer (op : TransferOperation)
  | overrideTransfer (op : OverrideTransferOperation)
  | withdrawPermissionClaim (op : WithdrawPermissionClaimOperation)

namespace TransferOperation

def validate (op : TransferOperation) : Checked Unit := do
  require (op.source ≠ op.target) "from != to"
  require (0 < op.amount.amount) "amount.amount > 0"

def doEvaluate (op : TransferOperation) (d : TransferDatabase) : Checked Unit := do
  let fromAccount ← get (d.accounts op.source)
  let toAccount ← get (d.accounts op.target)
  let assetType ← get (d.assets op.amount.assetId)
  require (isAuthorizedAsset d.headBlockTime fromAccount assetType)
    "'from' account ${from} is not whitelisted for asset ${asset}"
  require (isAuthorizedAsset d.headBlockTime toAccount assetType)
    "'to' account ${to} is not whitelisted for asset ${asset}"
  require (assetType.isTransferRestricted →
      fromAccount.id = assetType.issuer ∨ toAccount.id = assetType.issuer)
    "Asset {asset} has transfer_restricted flag enabled"
  require (op.amount.amount ≤ (d.ledger.getBalance op.source op.amount.assetId).amount)
    ("Insufficient Balance: ${balance}, unable to transfer '${total_transfer}'" ++
      " from account '${a}' to '${t}'")

def doApply (op : TransferOperation) (d : TransferDatabase) : Checked TransferDatabase := do
  let ledger ← d.ledger.transfer op.source op.amount op.target op.amount
  return { d with ledger }

end TransferOperation

namespace OverrideTransferOperation

def validate (op : OverrideTransferOperation) : Checked Unit := do
  require (op.source ≠ op.target) "from != to"
  require (0 < op.amount.amount) "amount.amount > 0"
  require (op.issuer ≠ op.source) "issuer != from"

def doEvaluate (op : OverrideTransferOperation) (d : TransferDatabase) : Checked Unit := do
  let assetType ← get (d.assets op.amount.assetId)
  require assetType.canOverride "override_transfer not permitted for asset ${asset}"
  require (assetType.issuer = op.issuer) "asset_type.issuer == op.issuer"
  let fromAccount ← get (d.accounts op.source)
  let toAccount ← get (d.accounts op.target)
  require (isAuthorizedAsset d.headBlockTime toAccount assetType)
    "is_authorized_asset( d, to_account, asset_type )"
  require (isAuthorizedAsset d.headBlockTime fromAccount assetType)
    "is_authorized_asset( d, from_account, asset_type )"
  -- Up to the hard fork the last test is made twice.
  require (d.headBlockTime ≤ hardfork419Time →
    isAuthorizedAsset d.headBlockTime fromAccount assetType)
    "is_authorized_asset( d, from_account, asset_type )"
  require (op.amount.amount ≤ (d.ledger.getBalance op.source op.amount.assetId).amount)
    "d.get_balance( from_account, asset_type ).amount >= op.amount.amount"

def doApply (op : OverrideTransferOperation) (d : TransferDatabase) :
    Checked TransferDatabase := do
  let ledger ← d.ledger.transfer op.source op.amount op.target op.amount
  return { d with ledger }

end OverrideTransferOperation

/-- `time_point_sec + seconds`: the sum is kept in 32 bits. -/
def addSeconds (time : ℕ) (seconds : ℤ) : ℕ := ((time + seconds) % 2 ^ 32).toNat

theorem addSeconds_of_lt {time seconds : ℕ} (h : time + seconds < 2 ^ 32) :
    addSeconds time seconds = time + seconds := by
  unfold addSeconds
  omega

namespace WithdrawPermissionObject

def availableThisPeriod (permit : WithdrawPermissionObject) (currentTime : ℕ) : Asset :=
  if addSeconds permit.periodStartTime permit.withdrawalPeriodSec ≤ currentTime then
    permit.withdrawalLimit
  else
    ⟨if permit.claimedThisPeriod < permit.withdrawalLimit.amount then
        permit.withdrawalLimit.amount - permit.claimedThisPeriod
      else 0, permit.withdrawalLimit.assetId⟩

/-- The change `withdraw_permission_claim` makes to the permit. -/
def claim (permit : WithdrawPermissionObject) (headBlockTime : ℕ) (amount : ℤ) :
    Checked WithdrawPermissionObject := do
  let periods : ℤ :=
    ((headBlockTime : ℤ) - permit.periodStartTime).tdiv permit.withdrawalPeriodSec
  let periodStartTime := addSeconds permit.periodStartTime (periods * permit.withdrawalPeriodSec)
  let claimed ← if periods = 0 then checkedShare (permit.claimedThisPeriod + amount) else .ok amount
  return { permit with periodStartTime, claimedThisPeriod := claimed }

end WithdrawPermissionObject

namespace WithdrawPermissionClaimOperation

def validate (op : WithdrawPermissionClaimOperation) : Checked Unit := do
  require (op.withdrawToAccount ≠ op.withdrawFromAccount)
    "withdraw_to_account != withdraw_from_account"
  require (0 < op.amountToWithdraw.amount) "amount_to_withdraw.amount > 0"

def doEvaluate (op : WithdrawPermissionClaimOperation) (d : TransferDatabase) :
    Checked Unit := do
  let permit ← get (d.permits op.withdrawPermission)
  require (d.headBlockTime < permit.expiration) "permit.expiration > head_block_time"
  require (permit.authorizedAccount = op.withdrawToAccount)
    "permit.authorized_account == op.withdraw_to_account"
  require (permit.withdrawFromAccount = op.withdrawFromAccount)
    "permit.withdraw_from_account == op.withdraw_from_account"
  require (hardfork23Time ≤ d.headBlockTime → permit.periodStartTime ≤ d.headBlockTime)
    "permit.period_start_time <= head_block_time"
  let available := permit.availableThisPeriod d.headBlockTime
  require (op.amountToWithdraw.assetId = available.assetId) "a.asset_id == b.asset_id"
  require (op.amountToWithdraw.amount ≤ available.amount)
    "op.amount_to_withdraw <= permit.available_this_period( head_block_time )"
  require (op.amountToWithdraw.amount ≤
      (d.ledger.getBalance op.withdrawFromAccount op.amountToWithdraw.assetId).amount)
    "d.get_balance(op.withdraw_from_account, op.amount_to_withdraw.asset_id) >= op.amount_to_withdraw"
  let asset ← get (d.assets op.amountToWithdraw.assetId)
  require (asset.isTransferRestricted →
      asset.issuer = permit.authorizedAccount ∨ asset.issuer = permit.withdrawFromAccount)
    "_asset.issuer == permit.authorized_account || _asset.issuer == permit.withdraw_from_account"
  -- Both of these are the account that is credited.
  let source ← get (d.accounts op.withdrawToAccount)
  let target ← get (d.accounts permit.authorizedAccount)
  require (isAuthorizedAsset d.headBlockTime target asset) "is_authorized_asset( d, to, _asset )"
  require (isAuthorizedAsset d.headBlockTime source asset) "is_authorized_asset( d, from, _asset )"

def doApply (op : WithdrawPermissionClaimOperation) (d : TransferDatabase) :
    Checked TransferDatabase := do
  let permit ← get (d.permits op.withdrawPermission)
  let permit ← permit.claim d.headBlockTime op.amountToWithdraw.amount
  let ledger ← d.ledger.transfer op.withdrawFromAccount op.amountToWithdraw op.withdrawToAccount
    op.amountToWithdraw
  return { d with permits := Function.update d.permits op.withdrawPermission permit, ledger }

end WithdrawPermissionClaimOperation

namespace MoveOperation

/-- The account whose balance is debited. -/
def source : MoveOperation → AccountId
  | transfer op => op.source
  | overrideTransfer op => op.source
  | withdrawPermissionClaim op => op.withdrawFromAccount

/-- The account whose balance is credited. -/
def target : MoveOperation → AccountId
  | transfer op => op.target
  | overrideTransfer op => op.target
  | withdrawPermissionClaim op => op.withdrawToAccount

def amount : MoveOperation → Asset
  | transfer op => op.amount
  | overrideTransfer op => op.amount
  | withdrawPermissionClaim op => op.amountToWithdraw

/-- Validation, evaluation and application, as a transaction makes them. -/
def apply (d : TransferDatabase) : MoveOperation → Checked TransferDatabase
  | transfer op => do
      op.validate
      op.doEvaluate d
      op.doApply d
  | overrideTransfer op => do
      op.validate
      op.doEvaluate d
      op.doApply d
  | withdrawPermissionClaim op => do
      op.validate
      op.doEvaluate d
      op.doApply d

end MoveOperation

/-! ## Who is authorised when an operation is accepted -/

/-- The account and the asset exist, and the account passes the asset's lists. -/
def TransferDatabase.Authorized (d : TransferDatabase) (account : AccountId)
    (assetId : AssetId) : Prop :=
  ∃ acct assetObj, d.accounts account = some acct ∧ d.assets assetId = some assetObj ∧
    isAuthorizedAsset d.headBlockTime acct assetObj

namespace MoveOperation

variable {d d' : TransferDatabase}

/-- One charge and one payment of the operation's amount. -/
def Moves (op : MoveOperation) (d d' : TransferDatabase) : Prop :=
  d'.ledger.movements =
    [.pay op.target op.amount, .charge op.source op.amount] ++ d.ledger.movements

theorem transfer_accepted {op : TransferOperation}
    (h : (MoveOperation.transfer op).apply d = .ok d') :
    (MoveOperation.transfer op).Moves d d' ∧ d.Authorized op.source op.amount.assetId ∧
      d.Authorized op.target op.amount.assetId := by
  simp only [apply, TransferOperation.doEvaluate, TransferOperation.doApply, Checked.bind_eq_ok,
    Checked.pure_eq_ok, get_eq_ok, require_eq_ok] at h
  obtain ⟨_, -, _, ⟨source, hsource, target, htarget, asset, hasset, _, hauth, _, hauth', -⟩,
    ledger, hledger, rfl⟩ := h
  exact ⟨(Ledger.moves_of_transfer hledger).movements, ⟨source, asset, hsource, hasset, hauth⟩,
    ⟨target, asset, htarget, hasset, hauth'⟩⟩

theorem overrideTransfer_accepted {op : OverrideTransferOperation}
    (h : (MoveOperation.overrideTransfer op).apply d = .ok d') :
    (MoveOperation.overrideTransfer op).Moves d d' ∧ d.Authorized op.source op.amount.assetId ∧
      d.Authorized op.target op.amount.assetId := by
  simp only [apply, OverrideTransferOperation.doEvaluate, OverrideTransferOperation.doApply,
    Checked.bind_eq_ok, Checked.pure_eq_ok, get_eq_ok, require_eq_ok] at h
  obtain ⟨_, -, _, ⟨asset, hasset, _, -, _, -, source, hsource, target, htarget, _, hauth', _,
    hauth, -⟩, ledger, hledger, rfl⟩ := h
  exact ⟨(Ledger.moves_of_transfer hledger).movements, ⟨source, asset, hsource, hasset, hauth⟩,
    ⟨target, asset, htarget, hasset, hauth'⟩⟩

/-- A claim vouches for the credited account only. -/
theorem withdrawPermissionClaim_accepted {op : WithdrawPermissionClaimOperation}
    (h : (MoveOperation.withdrawPermissionClaim op).apply d = .ok d') :
    (MoveOperation.withdrawPermissionClaim op).Moves d d' ∧
      d.Authorized op.withdrawToAccount op.amountToWithdraw.assetId := by
  simp only [apply, WithdrawPermissionClaimOperation.doEvaluate,
    WithdrawPermissionClaimOperation.doApply, Checked.bind_eq_ok, Checked.pure_eq_ok, get_eq_ok,
    require_eq_ok] at h
  obtain ⟨_, -, _, ⟨permit, -, _, -, _, -, _, -, _, -, _, -, _, -, _, -, asset, hasset, _, -,
    source, hsource, target, -, _, -, hauth⟩, _, -, _, -, ledger, hledger, rfl⟩ := h
  exact ⟨(Ledger.moves_of_transfer hledger).movements, ⟨source, asset, hsource, hasset, hauth⟩⟩

/-- An accepted operation moves its amount, and the accounts it debits and
credits are both authorised exactly when it is no claim on an account that the
asset's lists exclude. -/
theorem accepted_authorized_iff {op : MoveOperation} (h : op.apply d = .ok d') :
    op.Moves d d' ∧
      ((d.Authorized op.source op.amount.assetId ∧ d.Authorized op.target op.amount.assetId) ↔
        ∀ claim, op = .withdrawPermissionClaim claim →
          d.Authorized claim.withdrawFromAccount claim.amountToWithdraw.assetId) := by
  cases op with
  | transfer op =>
      obtain ⟨hmoves, hsource, htarget⟩ := transfer_accepted h
      exact ⟨hmoves, fun _ claim hclaim ↦ (by cases hclaim), fun _ ↦ ⟨hsource, htarget⟩⟩
  | overrideTransfer op =>
      obtain ⟨hmoves, hsource, htarget⟩ := overrideTransfer_accepted h
      exact ⟨hmoves, fun _ claim hclaim ↦ (by cases hclaim), fun _ ↦ ⟨hsource, htarget⟩⟩
  | withdrawPermissionClaim op =>
      obtain ⟨hmoves, htarget⟩ := withdrawPermissionClaim_accepted h
      refine ⟨hmoves, fun hboth claim hclaim ↦ ?_, fun hclaim ↦ ⟨hclaim op rfl, htarget⟩⟩
      cases hclaim
      exact hboth.1

end MoveOperation

/-! An asset with a white list, and a permit to withdraw it from an account. -/

def listedAsset : AssetObject :=
  { id := 1, issuer := 9, flags := whiteList, whitelistAuthorities := {9},
    blacklistAuthorities := {9} }

def withdrawDatabase (sourceLists : AccountObject) : TransferDatabase where
  accounts account :=
    if account = 1 then some sourceLists
    else if account = 2 then some { id := 2, whitelistingAccounts := [9] } else none
  assets assetId := if assetId = 1 then some listedAsset else none
  permits permit :=
    if permit = 0 then
      some { withdrawFromAccount := 1, authorizedAccount := 2, withdrawalLimit := ⟨100, 1⟩,
             withdrawalPeriodSec := 60, periodStartTime := 1600000000, expiration := 1700000000 }
    else none
  ledger := ⟨[⟨1, 1, 100⟩], fun _ ↦ 100, []⟩
  headBlockTime := 1600000030

def withdrawClaim : MoveOperation :=
  .withdrawPermissionClaim ⟨0, 1, 2, ⟨40, 1⟩⟩

def listedDatabase : TransferDatabase := withdrawDatabase { id := 1, whitelistingAccounts := [9] }

def blacklistedDatabase : TransferDatabase :=
  withdrawDatabase { id := 1, whitelistingAccounts := [9], blacklistingAccounts := [9] }

theorem accepted_authorized_iff_listed :
    ∃ d', withdrawClaim.apply listedDatabase = .ok d' ∧
      listedDatabase.Authorized 1 1 ∧ listedDatabase.Authorized 2 1 := by
  obtain ⟨d', hclaim⟩ : ∃ d', withdrawClaim.apply listedDatabase = .ok d' := ⟨_, rfl⟩
  refine ⟨d', hclaim, (MoveOperation.accepted_authorized_iff hclaim).2.mpr ?_⟩
  intro claim heq
  cases heq
  exact ⟨_, _, rfl, rfl, by decide⟩

theorem blacklisted_withdrawal_accepted :
    ∃ d', withdrawClaim.apply blacklistedDatabase = .ok d' ∧
      d'.ledger.movements = [.pay 2 ⟨40, 1⟩, .charge 1 ⟨40, 1⟩] ∧
      ¬blacklistedDatabase.Authorized 1 1 := by
  refine ⟨_, rfl, rfl, ?_⟩
  rintro ⟨acct, assetObj, hacct, hasset, hauth⟩
  obtain rfl := Option.some.inj hacct
  obtain rfl := Option.some.inj hasset
  exact absurd hauth (by decide)

end KarmaCore.Transfer
