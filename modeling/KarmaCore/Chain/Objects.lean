import Mathlib
import KarmaCore.Chain.ForkDatabase
import KarmaCore.Lib.ObjectIndex

/-!
# The object database under a block

What a transaction and a block do to the objects.  The operations of a
transaction, the passes of a block, the cryptography and the serialized sizes
are given; the checks around them and the index of recent transactions are not.
-/

namespace KarmaCore.Chain

/-- The flags that name the checks to skip. -/
structure SkipFlags where
  witnessSignature : Bool := false
  transactionSignatures : Bool := false
  transactionDupeCheck : Bool := false
  forkDb : Bool := false
  blockSizeCheck : Bool := false
  taposCheck : Bool := false
  authorityCheck : Bool := false
  merkleCheck : Bool := false
  assertEvaluation : Bool := false
  undoHistoryCheck : Bool := false
  witnessScheduleCheck : Bool := false
  validate : Bool := false
  deriving DecidableEq

namespace SkipFlags

/-- `~0`. -/
def all : SkipFlags := ⟨true, true, true, true, true, true, true, true, true, true, true, true⟩

/-- The flags of `reindex`. -/
def reindex : SkipFlags where
  witnessSignature := true
  transactionSignatures := true
  transactionDupeCheck := true
  taposCheck := true
  witnessScheduleCheck := true
  authorityCheck := true

end SkipFlags

/-- `GRAPHENE_MAX_UNDO_HISTORY`. -/
def maxUndoHistory : ℕ := 10000

/-- The part of the dynamic global properties that names the head block. -/
structure Head where
  number : ℕ
  id : BlockId
  time : ℕ
  deriving DecidableEq

structure TransactionObject (Tx : Type) where
  trxId : ℕ
  trx : Tx

/-- `blocks` are the blocks since block 0, the last first: no function of the model reads
them. -/
structure Objects (Tx Res Rest : Type) where
  head : Head
  transactions : ObjectIndex (TransactionObject Tx) := .empty
  rest : Rest
  blocks : List (SignedBlock Tx Res) := []

/-- What is given: the fields of a transaction, what its operations and the passes of a block
do, the chain parameters, hashes, signatures and sizes. -/
structure Code (Tx Res Rest : Type) where
  trxId : Tx → ℕ
  expiration : Tx → ℕ
  validate : Tx → Checked Unit
  verifyAuthority : Tx → Rest → Checked Unit
  checkTapos : Tx → Rest → Checked Unit
  operate : SkipFlags → Tx → Head → Rest → Checked (Res × Rest)
  updateGlobalDynamicData : SkipFlags → SignedBlock Tx Res → Head → Rest → Checked Rest
  finishBlock : SkipFlags → SignedBlock Tx Res → Head → Rest → Checked Rest
  signingKey : ℕ → Rest → Checked ℕ
  scheduledWitness : ℕ → Rest → Checked ℕ
  lastIrreversibleBlockNum : Rest → ℕ
  maximumTimeUntilExpiration : Rest → ℕ
  maximumBlockSize : Rest → ℕ
  blockInterval : Rest → ℕ
  maintenanceFlag : Rest → Bool
  maintenanceSkipSlots : Rest → ℕ
  blockHash : SignedBlock Tx Res → ℕ
  merkleRoot : List (ProcessedTransaction Tx Res) → ℕ
  publicKey : ℕ → ℕ
  sign : ℕ → SignedBlock Tx Res → ℕ
  validateSignee : SignedBlock Tx Res → ℕ → Bool
  transactionSize : ProcessedTransaction Tx Res → ℕ
  blockSize : SignedBlock Tx Res → ℕ
  maxBlockHeaderSize : ℕ
  checkpoints : List (ℕ × BlockId)

variable {Tx Res Rest : Type} (code : Code Tx Res Rest)

namespace Objects

variable (o : Objects Tx Res Rest)

/-! ## Transactions -/

/-- `is_known_transaction`. -/
def IsKnownTransaction (trxId : ℕ) : Prop := ∃ p ∈ o.transactions.objects, p.2.trxId = trxId

instance (trxId : ℕ) : Decidable (o.IsKnownTransaction trxId) :=
  inferInstanceAs (Decidable (∃ p ∈ _, _))

/-- While no block has been applied there is nothing to check. -/
def checkExpiration (skip : SkipFlags) (trx : Tx) : Checked Unit :=
  if 0 < o.head.number then do
    whenever (skip.taposCheck = false) (fun _ ↦ code.checkTapos trx o.rest) ()
    require (code.expiration trx ≤ o.head.time + code.maximumTimeUntilExpiration o.rest)
      "trx.expiration <= now + chain_parameters.maximum_time_until_expiration"
    require (o.head.time ≤ code.expiration trx) "now <= trx.expiration"
  else .ok ()

/-- The part of `_apply_transaction` before the operations. -/
def checkTransaction (skip : SkipFlags) (trx : Tx) : Checked Unit := do
  code.validate trx
  require (skip.transactionDupeCheck = true ∨ ¬o.IsKnownTransaction (code.trxId trx))
    "trx_idx.indices().get<by_trx_id>().find(trx_id) == end()"
  whenever (skip.transactionSignatures = false ∧ skip.authorityCheck = false)
    (fun _ ↦ code.verifyAuthority trx o.rest) ()
  o.checkExpiration code skip trx

/-- Puts a transaction into the index that guards against duplicates. -/
def recordTransaction (skip : SkipFlags) (trx : Tx) : Objects Tx Res Rest :=
  if skip.transactionDupeCheck then o
  else { o with transactions := o.transactions.create ⟨code.trxId trx, trx⟩ }

def applyTransaction (skip : SkipFlags) (trx : Tx) :
    Checked (ProcessedTransaction Tx Res × Objects Tx Res Rest) := do
  o.checkTransaction code skip trx
  let (operationResults, rest) ← code.operate skip trx o.head o.rest
  return (⟨trx, operationResults⟩, { o.recordTransaction code skip trx with rest })

/-- The transactions of a block, without what they return. -/
def applyTransactions (skip : SkipFlags) : List (ProcessedTransaction Tx Res) →
    Objects Tx Res Rest → Checked (Objects Tx Res Rest)
  | [], o => .ok o
  | ptx :: ptxs, o => do
      let (_, o) ← o.applyTransaction code skip ptx.trx
      applyTransactions skip ptxs o

/-- The recorded transactions that have expired. -/
def expiredTransactions : List ℕ :=
  (o.transactions.objects.filter fun p ↦ code.expiration p.2.trx < o.head.time).map Prod.fst

def clearExpiredTransactions : Objects Tx Res Rest :=
  { o with transactions := (o.expiredTransactions code).foldl ObjectIndex.remove o.transactions }

/-! ## Slots and headers -/

def getSlotTime (slotNum : ℕ) : ℕ :=
  let interval := code.blockInterval o.rest
  if slotNum = 0 then 0
  else if o.head.number = 0 then o.head.time + slotNum * interval
  else
    let skipped := if code.maintenanceFlag o.rest then code.maintenanceSkipSlots o.rest else 0
    o.head.time / interval * interval + (slotNum + skipped) * interval

def getSlotAtTime (time : ℕ) : ℕ :=
  let firstSlotTime := o.getSlotTime code 1
  if time < firstSlotTime then 0 else (time - firstSlotTime) / code.blockInterval o.rest + 1

def validateBlockHeader (skip : SkipFlags) (b : SignedBlock Tx Res) : Checked Unit := do
  require (o.head.id = b.previous) "head_block_id() == next_block.previous"
  require (o.head.time < b.timestamp) "head_block_time() < next_block.timestamp"
  let signingKey ← code.signingKey b.witness o.rest
  require (skip.witnessSignature = true ∨ code.validateSignee b signingKey = true)
    "next_block.validate_signee( witness.signing_key )"
  whenever (skip.witnessScheduleCheck = false) (fun _ ↦ do
    let slotNum := o.getSlotAtTime code b.timestamp
    require (0 < slotNum) "slot_num > 0"
    let scheduledWitness ← code.scheduledWitness slotNum o.rest
    require (b.witness = scheduledWitness) "Witness produced block at wrong time") ()

/-! ## Blocks -/

/-- The checks of `_apply_block` and the transactions. -/
def applyBody (skip : SkipFlags) (b : SignedBlock Tx Res) : Checked (Objects Tx Res Rest) := do
  require (skip.merkleCheck = true ∨ b.transactionMerkleRoot = code.merkleRoot b.transactions)
    "next_block.transaction_merkle_root == next_block.calculate_merkle_root()"
  o.validateBlockHeader code skip b
  applyTransactions code skip b.transactions o

/-- `update_global_dynamic_data` up to the sizes it sets. -/
def advanceHead (skip : SkipFlags) (b : SignedBlock Tx Res) : Checked (Objects Tx Res Rest) := do
  let rest ← code.updateGlobalDynamicData skip b o.head o.rest
  let head : Head := ⟨b.blockNum, b.id code.blockHash, b.timestamp⟩
  require (skip.undoHistoryCheck = true ∨
      head.number - code.lastIrreversibleBlockNum rest < maxUndoHistory)
    "The database does not have enough undo history to support a blockchain with so many missed blocks."
  return { o with head, rest, blocks := b :: o.blocks }

/-- The sizes of the undo stack and the fork database. -/
def historySize : ℕ := o.head.number - code.lastIrreversibleBlockNum o.rest + 1

/-- The passes after `update_global_dynamic_data`. -/
def finish (skip : SkipFlags) (b : SignedBlock Tx Res) : Checked (Objects Tx Res Rest) := do
  let rest ← code.finishBlock skip b o.head o.rest
  return { o.clearExpiredTransactions code with rest }

end Objects

/-- The flags under which a block is applied: those at or before the last checkpoint skip
almost everything. -/
def Code.skipFor (b : SignedBlock Tx Res) (skip : SkipFlags) : Checked SkipFlags :=
  match code.checkpoints.getLast? with
  | none => .ok skip
  | some last =>
      if last.2 = .null then .ok skip
      else do
        require (∀ c ∈ code.checkpoints, c.1 = b.blockNum → b.id code.blockHash = c.2)
          "Block did not match checkpoint"
        return if b.blockNum ≤ last.1 then .all else skip

end KarmaCore.Chain
