import Mathlib
import KarmaCore.Chain.Objects
import KarmaCore.Lib.Outcome

/-!
# Pushing, popping and producing blocks

The database holds the objects with a stack of the states that sessions and
blocks began with, the fork database, the block log and the pending
transactions.  A call that throws leaves behind the state of that moment.
-/

namespace KarmaCore.Chain

/-- `stack` holds the objects each session that may be undone began with, the last first.
`poppedBlocks` are the blocks that `poppedTx` is from: no function of the model reads them. -/
structure Database (Tx Res Rest : Type) where
  objects : Objects Tx Res Rest
  stack : List (Objects Tx Res Rest) := []
  maxSize : ℕ := 256
  undoDisabled : Bool := false
  forkDb : ForkDatabase Tx Res := {}
  blockLog : BlockDatabase Tx Res := {}
  pendingTx : List (ProcessedTransaction Tx Res) := []
  pendingSession : Bool := false
  poppedTx : List (ProcessedTransaction Tx Res) := []
  poppedBlocks : List (SignedBlock Tx Res) := []

variable {Tx Res Rest : Type} (code : Code Tx Res Rest)

namespace Database

variable (db : Database Tx Res Rest)

/-! ## Sessions -/

/-- The oldest states make room for a new session. -/
def startUndoSession : Database Tx Res Rest :=
  if db.undoDisabled then db
  else { db with stack := db.objects :: db.stack.take db.maxSize }

/-- The undo of the last session. What a call that threw had written is undone with it. -/
def undo : Database Tx Res Rest :=
  if db.undoDisabled then db
  else
    match db.stack with
    | [] => db
    | o :: stack => { db with objects := o, stack }

/-- The merge of a session into the one around it. -/
def merge : Outcome ChainError (Database Tx Res Rest) :=
  if db.undoDisabled then .returned db
  else if 2 ≤ db.stack.length then .returned { db with stack := db.stack.tail }
  else .threw (.assertion "_stack.size() >=2") db

/-- `pop_undo`. -/
def popUndo : Outcome ChainError (Database Tx Res Rest) :=
  match db.stack with
  | [] => .threw (.assertion "!_stack.empty()") db
  | o :: stack => .returned { db with objects := o, stack }

/-- `_pending_tx_session.reset()`. -/
def resetPendingSession : Database Tx Res Rest :=
  if db.pendingSession then { db.undo with pendingSession := false } else db

def clearPending : Database Tx Res Rest := { db.resetPendingSession with pendingTx := [] }

/-! ## Pending transactions -/

def startPendingSession : Database Tx Res Rest :=
  if db.pendingSession then db else { db.startUndoSession with pendingSession := true }

/-- `_push_transaction`. -/
def pushTransaction (skip : SkipFlags) (trx : Tx) : Outcome ChainError (Database Tx Res Rest) :=
  let db := db.startPendingSession.startUndoSession
  match db.objects.applyTransaction code skip trx with
  | .error e => .threw e db.undo
  | .ok (ptx, objects) =>
      match ({ db with objects, pendingTx := db.pendingTx ++ [ptx] } : Database Tx Res Rest).merge with
      | .returned db => .returned db
      | .threw e db => .threw e db.undo

/-- One turn of the loops of `pending_transactions_restorer`. -/
def restoreTransaction (skip : SkipFlags) (db : Database Tx Res Rest)
    (ptx : ProcessedTransaction Tx Res) : Database Tx Res Rest :=
  if db.objects.IsKnownTransaction (code.trxId ptx.trx) then db
  else (db.pushTransaction code skip ptx.trx).state

/-- The destructor of `pending_transactions_restorer`. -/
def restorePending (skip : SkipFlags) (pendingTransactions : List (ProcessedTransaction Tx Res)) :
    Database Tx Res Rest :=
  let db := db.poppedTx.foldl (restoreTransaction code skip) db
  let db := { db with poppedTx := [], poppedBlocks := [] }
  pendingTransactions.foldl (restoreTransaction code skip) db

/-- The call of `f` between the two. -/
def withoutPendingTransactions (skip : SkipFlags)
    (f : Database Tx Res Rest → Outcome ChainError (Database Tx Res Rest)) :
    Outcome ChainError (Database Tx Res Rest) :=
  (f db.clearPending).map fun db' ↦ db'.restorePending code skip db.pendingTx

/-! ## Blocks -/

def fetchBlockById (id : BlockId) : Option (SignedBlock Tx Res) :=
  ((db.forkDb.fetchBlock id).map (·.data)).or (db.blockLog.fetchOptional code.blockHash id)

def popBlock : Outcome ChainError (Database Tx Res Rest) :=
  let db := db.resetPendingSession
  match db.fetchBlockById code db.objects.head.id with
  | none => .threw (.assertion "there are no blocks to pop") db
  | some b =>
      match db.forkDb.popBlock with
      | .error e => .threw e db
      | .ok forkDb =>
          ({ db with forkDb } : Database Tx Res Rest).popUndo.andThen fun db ↦
            .returned { db with
              poppedTx := b.transactions ++ db.poppedTx
              poppedBlocks := b :: db.poppedBlocks }

/-- What `update_global_dynamic_data` sets outside of the objects. -/
def setHistorySize (size : ℕ) : Database Tx Res Rest :=
  { db with maxSize := size, forkDb := db.forkDb.setMaxSize size }

/-- `apply_block`. The caller undoes what a block that throws has written. -/
def applyBlock (skip : SkipFlags) (b : SignedBlock Tx Res) :
    Outcome ChainError (Database Tx Res Rest) :=
  match (do
      let skip ← code.skipFor b skip
      let body ← db.objects.applyBody code skip b
      let advanced ← body.advanceHead code skip b
      return (skip, advanced)) with
  | .error e => .threw e db
  | .ok (skip, advanced) =>
      let db := db.setHistorySize (advanced.historySize code)
      match advanced.finish code skip b with
      | .error e => .threw e db
      | .ok objects => .returned { db with objects }

/-- A block in a session of its own, which is committed once the block is stored. -/
def applyInSession (skip : SkipFlags) (b : SignedBlock Tx Res) (id : BlockId) :
    Outcome ChainError (Database Tx Res Rest) :=
  match db.startUndoSession.applyBlock code skip b with
  | .returned db => .returned { db with blockLog := db.blockLog.store code.blockHash id b }
  | .threw e db => .threw e db.undo

/-- Pops blocks until the head is `id`. Every pop takes a state off the stack. -/
def popUntil (id : BlockId) : ℕ → Database Tx Res Rest → Outcome ChainError (Database Tx Res Rest)
  | 0, db => if db.objects.head.id = id then .returned db else db.popBlock code
  | fuel + 1, db =>
      if db.objects.head.id = id then .returned db
      else (db.popBlock code).andThen (popUntil id fuel)

def popDownTo (id : BlockId) : Outcome ChainError (Database Tx Res Rest) :=
  popUntil code id db.stack.length db

def removeAll (items : List (ForkItem Tx Res)) : Database Tx Res Rest :=
  { db with forkDb := items.foldl (fun f item ↦ f.remove (item.data.id code.blockHash)) db.forkDb }

/-- Applies the blocks of a branch and stores each under the id that is given for it. -/
def applyBranch (skip : SkipFlags) (idFor : ForkItem Tx Res → BlockId) :
    List (ForkItem Tx Res) → Database Tx Res Rest → Outcome ChainError (Database Tx Res Rest) :=
  Outcome.forEach fun item db ↦ db.applyInSession code skip item.data (idFor item)

/-- The way back from a block of the new branch that threw: `second` is the branch that was
popped, the lowest block first. Each of its blocks is stored under the id of the new block. -/
def restoreBranch (skip : SkipFlags) (newId : BlockId) (invalid : List (ForkItem Tx Res))
    (top : ForkItem Tx Res) (ancestor : BlockId) (second : List (ForkItem Tx Res)) :
    Outcome ChainError (Database Tx Res Rest) :=
  let db := db.removeAll code invalid
  let db := { db with forkDb := db.forkDb.setHead top }
  (db.popDownTo code ancestor).andThen (applyBranch code skip (fun _ ↦ newId) second)

/-- The blocks of the new branch, the lowest first. -/
def pushBranch (skip : SkipFlags) (newId : BlockId) (top : ForkItem Tx Res) (ancestor : BlockId)
    (second : List (ForkItem Tx Res)) :
    List (ForkItem Tx Res) → Database Tx Res Rest → Outcome ChainError (Database Tx Res Rest)
  | [], db => .returned db
  | item :: items, db =>
      match db.applyInSession code skip item.data item.id with
      | .returned db => pushBranch skip newId top ancestor second items db
      | .threw e db =>
          (db.restoreBranch code skip newId (item :: items) top ancestor second).andThen fun db ↦
            .threw e db

/-- The switch to the branch of `newHead`. The items of both branches are held meanwhile. -/
def switchForks (skip : SkipFlags) (newId : BlockId) (newHead : ForkItem Tx Res) :
    Outcome ChainError (Database Tx Res Rest) :=
  match db.forkDb.fetchBranchFrom (newHead.data.id code.blockHash) db.objects.head.id with
  | .error e => .threw e db
  | .ok (first, second) =>
      match second.head?, second.getLast? with
      | some top, some bottom =>
          let db := { db with forkDb := { db.forkDb with held := first ++ second } }
          let ancestor := bottom.data.previous
          ((db.popDownTo code ancestor).andThen
            (pushBranch code skip newId top ancestor second.reverse first.reverse)).map
              fun db ↦ { db with forkDb := { db.forkDb with held := [] } }
      | _, _ => .threw .danglingReference db

/-- The block as the next one after the head. -/
def extendHead (skip : SkipFlags) (b : SignedBlock Tx Res) :
    Outcome ChainError (Database Tx Res Rest) :=
  match db.applyInSession code skip b (b.id code.blockHash) with
  | .returned db => .returned db
  | .threw e db => .threw e { db with forkDb := db.forkDb.remove (b.id code.blockHash) }

/-- `_push_block`, without the flag it returns. -/
def pushNewBlock (skip : SkipFlags) (b : SignedBlock Tx Res) :
    Outcome ChainError (Database Tx Res Rest) :=
  if skip.forkDb then db.extendHead code skip b
  else
    match db.forkDb.pushBlock (b.id code.blockHash) b with
    | .error e => .threw e db
    | .ok forkDb =>
        let db := { db with forkDb }
        match forkDb.head with
        | none => .threw .danglingReference db
        | some newHead =>
            if newHead.data.previous = db.objects.head.id then db.extendHead code skip b
            else if db.objects.head.number < newHead.num then
              db.switchForks code skip (b.id code.blockHash) newHead
            else .returned db

def pushBlock (skip : SkipFlags) (b : SignedBlock Tx Res) :
    Outcome ChainError (Database Tx Res Rest) :=
  db.withoutPendingTransactions code skip fun db ↦ db.pushNewBlock code skip b

/-! ## Producing a block -/

/-- Whether the slot and the key are those of the witness. -/
def checkProducer (skip : SkipFlags) (time witness key : ℕ) : Checked Unit := do
  let slotNum := db.objects.getSlotAtTime code time
  require (0 < slotNum) "slot_num > 0"
  let scheduledWitness ← code.scheduledWitness slotNum db.objects.rest
  require (scheduledWitness = witness) "scheduled_witness == witness_id"
  let signingKey ← code.signingKey witness db.objects.rest
  require (skip.witnessSignature = true ∨ signingKey = code.publicKey key)
    "witness_obj.signing_key == block_signing_private_key.get_public_key()"

/-- The loop over the pending transactions: those that fit and apply, and the database in the
session around them. `size` is the size of the block so far. -/
def collectTransactions (skip : SkipFlags) (maximumBlockSize : ℕ) :
    List (ProcessedTransaction Tx Res) → ℕ → Database Tx Res Rest →
      List (ProcessedTransaction Tx Res) × Database Tx Res Rest
  | [], _, db => ([], db)
  | tx :: txs, size, db =>
      if maximumBlockSize ≤ size + code.transactionSize tx then
        collectTransactions skip maximumBlockSize txs size db
      else
        let db := db.startUndoSession
        match db.objects.applyTransaction code skip tx.trx with
        | .error _ => collectTransactions skip maximumBlockSize txs size db.undo
        | .ok (ptx, objects) =>
            match ({ db with objects } : Database Tx Res Rest).merge with
            | .returned db =>
                let (ptxs, db) := collectTransactions skip maximumBlockSize txs
                  (size + code.transactionSize ptx) db
                (ptx :: ptxs, db)
            | .threw _ db => collectTransactions skip maximumBlockSize txs size db.undo

/-- The transactions of a new block, and the database once the session that was built for them
is gone. -/
def buildTransactions (skip : SkipFlags) :
    List (ProcessedTransaction Tx Res) × Database Tx Res Rest :=
  let maximumBlockSize := code.maximumBlockSize db.objects.rest
  let db := db.resetPendingSession.startPendingSession
  let (ptxs, db) :=
    collectTransactions code skip maximumBlockSize db.pendingTx code.maxBlockHeaderSize db
  (ptxs, db.resetPendingSession)

/-- The block over some transactions on the head. -/
def assemble (skip : SkipFlags) (time witness key : ℕ)
    (transactions : List (ProcessedTransaction Tx Res)) : SignedBlock Tx Res :=
  let b : SignedBlock Tx Res :=
    ⟨db.objects.head.id, time, witness, code.merkleRoot transactions, 0, transactions⟩
  if skip.witnessSignature then b else { b with witnessSignature := code.sign key b }

/-- The block `_generate_block` builds. -/
def producedBlock (skip : SkipFlags) (time witness key : ℕ) : SignedBlock Tx Res :=
  let (transactions, db) := db.buildTransactions code skip
  db.assemble code skip time witness key transactions

/-- `_generate_block`, without the block it returns, which is `producedBlock`. -/
def generateBlock (skip : SkipFlags) (time witness key : ℕ) :
    Outcome ChainError (Database Tx Res Rest) :=
  match db.checkProducer code skip time witness key with
  | .error e => .threw e db
  | .ok () =>
      let b := db.producedBlock code skip time witness key
      let db := (db.buildTransactions code skip).2
      if skip.blockSizeCheck = true ∨
          code.blockSize b ≤ code.maximumBlockSize db.objects.rest then db.pushBlock code skip b
      else .threw
        (.assertion "fc::raw::pack_size(pending_block) <= parameters.maximum_block_size") db

end Database

end KarmaCore.Chain
