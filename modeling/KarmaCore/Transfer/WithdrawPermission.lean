import Mathlib
import KarmaCore.Lib.Run
import KarmaCore.Transfer.TransferEvaluator

/-!
# Withdraw permissions

The life of withdraw permissions: they are created, updated, claimed from and
deleted, and removed once they have expired.  Beside each permission stands the
history of its claims since its terms were last set, which no evaluator reads.
-/

namespace KarmaCore.Transfer

/-! ## The operations -/

structure WithdrawPermissionCreateOperation where
  fee : Asset
  withdrawFromAccount : AccountId
  authorizedAccount : AccountId
  withdrawalLimit : Asset
  withdrawalPeriodSec : ℕ
  periodsUntilExpiration : ℕ
  periodStartTime : ℕ

structure WithdrawPermissionUpdateOperation where
  fee : Asset
  withdrawFromAccount : AccountId
  authorizedAccount : AccountId
  permissionToUpdate : WithdrawPermissionId
  withdrawalLimit : Asset
  withdrawalPeriodSec : ℕ
  periodStartTime : ℕ
  periodsUntilExpiration : ℕ

structure WithdrawPermissionDeleteOperation where
  fee : Asset
  withdrawFromAccount : AccountId
  authorizedAccount : AccountId
  withdrawalPermission : WithdrawPermissionId

/-- `periods` periods after the start: the product is a `uint32_t` as well. -/
def expirationTime (periodStartTime periods withdrawalPeriodSec : ℕ) : ℕ :=
  addSeconds periodStartTime ((periods * withdrawalPeriodSec % 2 ^ 32 : ℕ) : ℤ)

/-- A claim, with the `period_start_time` the permission had when it was made. -/
structure PermitClaim where
  time : ℕ
  amount : ℤ
  periodStart : ℕ

/-- The claims under one set of terms, the newest first. -/
structure ClaimHistory where
  firstStart : ℕ
  claims : List PermitClaim

namespace ClaimHistory

def opened (start : ℕ) : ClaimHistory := ⟨start, []⟩

def record (claim : PermitClaim) (h : ClaimHistory) : ClaimHistory :=
  { h with claims := claim :: h.claims }

end ClaimHistory

structure PermitState where
  db : TransferDatabase
  nextId : WithdrawPermissionId
  blockInterval : ℕ
  history : WithdrawPermissionId → ClaimHistory

namespace PermitState

/-- A permission and the history of its terms are written. -/
def write (id : WithdrawPermissionId) (permit : WithdrawPermissionObject) (h : ClaimHistory)
    (s : PermitState) : PermitState :=
  { s with db := { s.db with permits := Function.update s.db.permits id (some permit) }
           history := Function.update s.history id h }

end PermitState

namespace WithdrawPermissionCreateOperation

def validate (op : WithdrawPermissionCreateOperation) : Checked Unit := do
  require (0 ≤ op.fee.amount) "fee.amount >= 0"
  require (op.withdrawFromAccount ≠ op.authorizedAccount)
    "withdraw_from_account != authorized_account"
  require (0 < op.withdrawalLimit.amount) "withdrawal_limit.amount > 0"
  require (0 < op.withdrawalPeriodSec) "withdrawal_period_sec > 0"
  require (0 < op.periodsUntilExpiration) "periods_until_expiration > 0"

def doEvaluate (op : WithdrawPermissionCreateOperation) (s : PermitState) : Checked Unit := do
  require (s.db.accounts op.withdrawFromAccount).isSome "d.find_object(op.withdraw_from_account)"
  require (s.db.accounts op.authorizedAccount).isSome "d.find_object(op.authorized_account)"
  require (s.db.assets op.withdrawalLimit.assetId).isSome
    "d.find_object(op.withdrawal_limit.asset_id)"
  require (s.db.headBlockTime < op.periodStartTime) "op.period_start_time > d.head_block_time()"
  require (s.db.headBlockTime <
      expirationTime op.periodStartTime op.periodsUntilExpiration op.withdrawalPeriodSec)
    ("op.period_start_time + op.periods_until_expiration * op.withdrawal_period_sec > " ++
      "d.head_block_time()")
  require (s.blockInterval ≤ op.withdrawalPeriodSec)
    "op.withdrawal_period_sec >= d.get_global_properties().parameters.block_interval"

/-- The permission `withdraw_permission_create` stores. -/
def permit (op : WithdrawPermissionCreateOperation) : WithdrawPermissionObject where
  withdrawFromAccount := op.withdrawFromAccount
  authorizedAccount := op.authorizedAccount
  withdrawalLimit := op.withdrawalLimit
  withdrawalPeriodSec := op.withdrawalPeriodSec
  expiration := expirationTime op.periodStartTime op.periodsUntilExpiration op.withdrawalPeriodSec
  periodStartTime := op.periodStartTime

def doApply (op : WithdrawPermissionCreateOperation) (s : PermitState) : PermitState :=
  { s.write s.nextId op.permit (.opened op.periodStartTime) with nextId := s.nextId + 1 }

end WithdrawPermissionCreateOperation

namespace WithdrawPermissionUpdateOperation

def validate (op : WithdrawPermissionUpdateOperation) : Checked Unit := do
  require (0 < op.withdrawalLimit.amount) "withdrawal_limit.amount > 0"
  require (0 ≤ op.fee.amount) "fee.amount >= 0"
  require (0 < op.withdrawalPeriodSec) "withdrawal_period_sec > 0"
  require (op.withdrawFromAccount ≠ op.authorizedAccount)
    "withdraw_from_account != authorized_account"
  require (0 < op.periodsUntilExpiration) "periods_until_expiration > 0"

def doEvaluate (op : WithdrawPermissionUpdateOperation) (s : PermitState) : Checked Unit := do
  let permit ← get (s.db.permits op.permissionToUpdate)
  require (permit.authorizedAccount = op.authorizedAccount)
    "permit.authorized_account == op.authorized_account"
  require (permit.withdrawFromAccount = op.withdrawFromAccount)
    "permit.withdraw_from_account == op.withdraw_from_account"
  require (s.db.assets op.withdrawalLimit.assetId).isSome
    "d.find_object(op.withdrawal_limit.asset_id)"
  require (s.db.headBlockTime ≤ op.periodStartTime) "op.period_start_time >= d.head_block_time()"
  require (s.db.headBlockTime <
      expirationTime op.periodStartTime op.periodsUntilExpiration op.withdrawalPeriodSec)
    ("op.period_start_time + op.periods_until_expiration * op.withdrawal_period_sec > " ++
      "d.head_block_time()")
  require (s.blockInterval ≤ op.withdrawalPeriodSec)
    "op.withdrawal_period_sec >= d.get_global_properties().parameters.block_interval"

/-- What was claimed in the period that ends here still counts in the first of the new ones. -/
def update (op : WithdrawPermissionUpdateOperation) (permit : WithdrawPermissionObject) :
    WithdrawPermissionObject :=
  { permit with
    periodStartTime := op.periodStartTime
    expiration := expirationTime op.periodStartTime op.periodsUntilExpiration op.withdrawalPeriodSec
    withdrawalLimit := op.withdrawalLimit
    withdrawalPeriodSec := op.withdrawalPeriodSec }

def doApply (op : WithdrawPermissionUpdateOperation) (s : PermitState) : Checked PermitState := do
  let permit ← get (s.db.permits op.permissionToUpdate)
  return s.write op.permissionToUpdate (op.update permit) (.opened op.periodStartTime)

end WithdrawPermissionUpdateOperation

namespace WithdrawPermissionDeleteOperation

def validate (op : WithdrawPermissionDeleteOperation) : Checked Unit := do
  require (0 ≤ op.fee.amount) "fee.amount >= 0"
  require (op.withdrawFromAccount ≠ op.authorizedAccount)
    "withdraw_from_account != authorized_account"

def doEvaluate (op : WithdrawPermissionDeleteOperation) (s : PermitState) : Checked Unit := do
  let permit ← get (s.db.permits op.withdrawalPermission)
  require (permit.authorizedAccount = op.authorizedAccount)
    "permit.authorized_account == op.authorized_account"
  require (permit.withdrawFromAccount = op.withdrawFromAccount)
    "permit.withdraw_from_account == op.withdraw_from_account"

def doApply (op : WithdrawPermissionDeleteOperation) (s : PermitState) : PermitState :=
  { s with db := { s.db with permits := Function.update s.db.permits op.withdrawalPermission none } }

end WithdrawPermissionDeleteOperation

/-! ## Runs -/

/-- `others` stands for whatever else a block changes: accounts, assets, balances and the block
interval. -/
inductive PermitEvent
  | create (op : WithdrawPermissionCreateOperation)
  | update (op : WithdrawPermissionUpdateOperation)
  | claim (op : WithdrawPermissionClaimOperation)
  | delete (op : WithdrawPermissionDeleteOperation)
  | block (headBlockTime : UInt32)
  | others (accounts : AccountId → Option AccountObject) (assets : AssetId → Option AssetObject)
      (ledger : Ledger) (blockInterval : ℕ)

namespace PermitState

/-- The permissions of which `expiration` has come are removed. -/
def updateWithdrawPermissions (s : PermitState) : PermitState :=
  { s with db := { s.db with
      permits := fun id ↦ (s.db.permits id).filter (s.db.headBlockTime < ·.expiration) } }

def create (op : WithdrawPermissionCreateOperation) (s : PermitState) : Checked PermitState := do
  op.validate
  op.doEvaluate s
  return op.doApply s

def update (op : WithdrawPermissionUpdateOperation) (s : PermitState) : Checked PermitState := do
  op.validate
  op.doEvaluate s
  op.doApply s

/-- The claim as `MoveOperation.apply` makes it, with a record of it. -/
def claim (op : WithdrawPermissionClaimOperation) (s : PermitState) : Checked PermitState := do
  let db ← (MoveOperation.withdrawPermissionClaim op).apply s.db
  let permit ← get (s.db.permits op.withdrawPermission)
  let h := (s.history op.withdrawPermission).record
    ⟨s.db.headBlockTime, op.amountToWithdraw.amount, permit.periodStartTime⟩
  return { s with db, history := Function.update s.history op.withdrawPermission h }

def delete (op : WithdrawPermissionDeleteOperation) (s : PermitState) : Checked PermitState := do
  op.validate
  op.doEvaluate s
  return op.doApply s

/-- The next block is younger than the head block. -/
def block (headBlockTime : UInt32) (s : PermitState) : Checked PermitState := do
  require (s.db.headBlockTime < headBlockTime.toNat) "head_block_time() < next_block.timestamp"
  let s := { s with db := { s.db with headBlockTime := headBlockTime.toNat } }
  return s.updateWithdrawPermissions

def applyEvent (s : PermitState) : PermitEvent → Checked PermitState
  | .create op => s.create op
  | .update op => s.update op
  | .claim op => s.claim op
  | .delete op => s.delete op
  | .block headBlockTime => s.block headBlockTime
  | .others accounts assets ledger blockInterval =>
      .ok { s with db := { s.db with accounts, assets, ledger }, blockInterval }

/-- An event that throws leaves the state as it was. -/
def step (s : PermitState) (event : PermitEvent) : PermitState :=
  match s.applyEvent event with
  | .ok s' => s'
  | .error _ => s

end PermitState

end KarmaCore.Transfer
