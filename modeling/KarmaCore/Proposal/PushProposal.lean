import Mathlib
import KarmaCore.Lib.Outcome
import KarmaCore.Lib.SessionStack
import KarmaCore.Authority.SignState

/-!
# Proposals and their execution

A proposal holds operations that may create, update and delete proposals.  An
update that completes the approvals executes its proposal at once, inside the
update; the others are tried when they expire.  Every execution has an undo
session of its own.  Everything outside the proposals is a parameter.
-/

namespace KarmaCore.Proposals

open Authorities

abbrev ProposalId := ℕ

structure UpdateOperation where
  feePayingAccount : AccountId
  proposal : ProposalId
  activeApprovalsToAdd : List AccountId := []
  activeApprovalsToRemove : List AccountId := []
  ownerApprovalsToAdd : List AccountId := []
  ownerApprovalsToRemove : List AccountId := []
  keyApprovalsToAdd : List PublicKey := []
  keyApprovalsToRemove : List PublicKey := []
  deriving DecidableEq

structure DeleteOperation where
  feePayingAccount : AccountId
  usingOwnerAuthority : Bool := false
  proposal : ProposalId
  deriving DecidableEq

/-- The operations, those of other evaluators as a parameter. -/
inductive Operation (Body : Type)
  | create (feePayingAccount : AccountId) (proposedOps : List (Operation Body))
      (expirationTime : ℕ) (reviewPeriodSeconds : Option ℕ)
  | update (o : UpdateOperation)
  | delete (o : DeleteOperation)
  | other (body : Body)

structure ProposalObject (Body : Type) where
  id : ProposalId
  expirationTime : ℕ
  reviewPeriodTime : Option ℕ
  operations : List (Operation Body)
  requiredActiveApprovals : List AccountId
  availableActiveApprovals : List AccountId := []
  requiredOwnerApprovals : List AccountId
  availableOwnerApprovals : List AccountId := []
  availableKeyApprovals : List PublicKey := []

/-- The rest of the chain: its parameters, its accounts, its other evaluators
and its fees. -/
structure Env (Rest Body : Type) where
  maximumProposalLifetime : Rest → ℕ
  committeeProposalReviewPeriod : Rest → ℕ
  maxAuthorityDepth : Rest → ℕ
  active : Rest → AccountId → Authority
  owner : Rest → AccountId → Authority
  required : Body → RequiredAuthorities
  valid : Body → Bool
  /-- `prepare_fee`, `convert_fee` and `pay_fee`. -/
  payFee : Operation Body → Rest → Option Rest
  /-- The fee taken from the payer's balance. -/
  adjustBalance : Operation Body → Rest → Option Rest
  /-- `evaluate` and `apply` of the other operations. -/
  applyBody : Body → Rest → Option Rest

/-- `effects` records what took effect, by proposal and position; the source
does not keep it. -/
structure Db (Rest Body : Type) where
  proposals : List (ProposalObject Body)
  nextId : ProposalId
  headBlockTime : ℕ
  rest : Rest
  effects : List (ProposalId × ℕ) := []

variable {Rest Body : Type}

/-! ## Authorities -/

/-- What `operation_get_required_authorities` gets. -/
def Operation.required (env : Env Rest Body) : Operation Body → RequiredAuthorities
  | .create feePayer _ _ _ => { feePayer }
  | .update o =>
    { feePayer := o.feePayingAccount
      active := o.activeApprovalsToAdd ++ o.activeApprovalsToRemove
      owner := o.ownerApprovalsToAdd ++ o.ownerApprovalsToRemove
      other :=
        let keys := flatInsertAll (o.keyApprovalsToAdd ++ o.keyApprovalsToRemove) []
        [{ weightThreshold := UInt32.ofNat keys.length, keyAuths := keys.map fun k ↦ (k, 1) }] }
  | .delete o => { feePayer := o.feePayingAccount }
  | .other body => env.required body

/-- `is_authorized_to_execute`. -/
def ProposalObject.isAuthorizedToExecute (env : Env Rest Body) (p : ProposalObject Body)
    (rest : Rest) : Bool :=
  let call : VerifyCall :=
    { ops := p.operations.map (Operation.required env)
      sigs := p.availableKeyApprovals
      getActive := fun id ↦ some (env.active rest id)
      getOwner := fun id ↦ some (env.owner rest id)
      maxRecursionDepth := env.maxAuthorityDepth rest
      allowCommittee := true
      activeApprovals := p.availableActiveApprovals.toFinset
      ownerApprovals := p.availableOwnerApprovals.toFinset }
  match call.verifyAuthority with
  | .ok _ => true
  | .error _ => false

/-! ## Evaluators -/

mutual

/-- `operation_validate`. -/
def Operation.valid (env : Env Rest Body) : Operation Body → Bool
  | .create _ proposedOps _ _ => !proposedOps.isEmpty && validAll env proposedOps
  | .update o =>
    !(o.activeApprovalsToAdd.isEmpty && o.activeApprovalsToRemove.isEmpty &&
      o.ownerApprovalsToAdd.isEmpty && o.ownerApprovalsToRemove.isEmpty &&
      o.keyApprovalsToAdd.isEmpty && o.keyApprovalsToRemove.isEmpty) &&
    (o.activeApprovalsToAdd.all fun a ↦ a ∉ o.activeApprovalsToRemove) &&
    (o.ownerApprovalsToAdd.all fun a ↦ a ∉ o.ownerApprovalsToRemove) &&
    (o.keyApprovalsToAdd.all fun k ↦ k ∉ o.keyApprovalsToRemove)
  | .delete _ => true
  | .other body => env.valid body

def validAll (env : Env Rest Body) : List (Operation Body) → Bool
  | [] => true
  | op :: ops => op.valid env && validAll env ops

end

namespace Db

def find (db : Db Rest Body) (id : ProposalId) : Option (ProposalObject Body) :=
  db.proposals.find? fun p ↦ p.id = id

def remove (db : Db Rest Body) (id : ProposalId) : Db Rest Body :=
  { db with proposals := db.proposals.filter fun p ↦ p.id ≠ id }

def modify (db : Db Rest Body) (id : ProposalId) (f : ProposalObject Body → ProposalObject Body) :
    Db Rest Body :=
  { db with proposals := db.proposals.map fun p ↦ if p.id = id then f p else p }

/-- `proposal_create_evaluator::do_evaluate`. -/
def createEvaluate (env : Env Rest Body) (proposedOps : List (Operation Body))
    (expirationTime : ℕ) (reviewPeriodSeconds : Option ℕ) (db : Db Rest Body) : Bool :=
  let required := proposedOps.map (Operation.required env)
  decide (db.headBlockTime < expirationTime) &&
    decide (expirationTime ≤ db.headBlockTime + env.maximumProposalLifetime db.rest) &&
    (reviewPeriodSeconds.all fun r ↦ r < expirationTime - db.headBlockTime) &&
    (requiredOther required).isEmpty &&
    (decide (committeeAccount ∉ requiredActive required) &&
        decide (committeeAccount ∉ requiredOwner required) ||
      reviewPeriodSeconds.any fun r ↦ env.committeeProposalReviewPeriod db.rest ≤ r) &&
    !proposedOps.isEmpty && validAll env proposedOps

/-- `proposal_create_evaluator::do_apply`. -/
def createApply (env : Env Rest Body) (proposedOps : List (Operation Body))
    (expirationTime : ℕ) (reviewPeriodSeconds : Option ℕ) (db : Db Rest Body) : Db Rest Body :=
  let required := proposedOps.map (Operation.required env)
  let proposal : ProposalObject Body :=
    { id := db.nextId
      expirationTime
      reviewPeriodTime := reviewPeriodSeconds.map fun r ↦ expirationTime - r
      operations := proposedOps
      requiredActiveApprovals :=
        (requiredActive required).filter fun a ↦ a ∉ requiredOwner required
      requiredOwnerApprovals := requiredOwner required }
  { db with proposals := db.proposals ++ [proposal], nextId := db.nextId + 1 }

/-- `proposal_update_evaluator::do_evaluate` on the proposal it found. -/
def updateEvaluate (o : UpdateOperation) (p : ProposalObject Body) (db : Db Rest Body) : Bool :=
  (p.reviewPeriodTime.all fun t ↦ db.headBlockTime < t ||
      (o.activeApprovalsToAdd.isEmpty && o.ownerApprovalsToAdd.isEmpty)) &&
    (o.activeApprovalsToRemove.all fun a ↦ a ∈ p.availableActiveApprovals) &&
    (o.ownerApprovalsToRemove.all fun a ↦ a ∈ p.availableOwnerApprovals)

end Db

/-- The approvals that `proposal_update_evaluator::do_apply` leaves. -/
def ProposalObject.updateApprovals (o : UpdateOperation) (p : ProposalObject Body) :
    ProposalObject Body :=
  { p with
    availableActiveApprovals :=
      (flatInsertAll o.activeApprovalsToAdd p.availableActiveApprovals).filter
        fun a ↦ a ∉ o.activeApprovalsToRemove
    availableOwnerApprovals :=
      (flatInsertAll o.ownerApprovalsToAdd p.availableOwnerApprovals).filter
        fun a ↦ a ∉ o.ownerApprovalsToRemove
    availableKeyApprovals :=
      (flatInsertAll o.keyApprovalsToAdd p.availableKeyApprovals).filter
        fun k ↦ k ∉ o.keyApprovalsToRemove }

/-- `proposal_delete_evaluator::do_evaluate` on the proposal it found. -/
def deleteEvaluate (o : DeleteOperation) (p : ProposalObject Body) : Bool :=
  o.feePayingAccount ∈
    if o.usingOwnerAuthority then p.requiredOwnerApprovals else p.requiredActiveApprovals

/-! ## Execution -/

/-- An operation about to be applied, and the proposals being executed. -/
structure Step (Body : Type) where
  executing : List ProposalId
  op : Operation Body

/-- The undo states are the databases their sessions started from.  `trace`
records the operations as they are applied, whatever is undone. -/
structure Chain (Rest Body : Type) where
  db : Db Rest Body
  undo : SessionStack (Db Rest Body)
  trace : List (Step Body) := []

/-- How a call stops: an exception; a read of a proposal that no longer exists;
an undo without a state; or a recursion beyond the depth given to it. -/
inductive Failure
  | exception
  | danglingProposal
  | noUndoState
  | tooDeep
  deriving DecidableEq

namespace Chain

abbrev Result (Rest Body : Type) := Outcome Failure (Chain Rest Body)

def startSession (s : Chain Rest Body) : Chain Rest Body := { s with undo := s.undo.start s.db }

/-- `undo_database::undo`. -/
def undoSession (s : Chain Rest Body) : Result Rest Body :=
  match s.undo.stack with
  | [] => .threw .noUndoState s
  | db :: _ => .returned { s with db, undo := s.undo.drop }

/-- `undo_database::merge`. -/
def mergeSession (s : Chain Rest Body) : Result Rest Body :=
  if s.undo.activeSessions = 1 ∧ s.undo.size = 1 then .returned { s with undo := s.undo.drop }
  else if s.undo.size < 2 then .threw .exception s
  else .returned { s with undo := s.undo.drop }

/-- A session whose scope an exception leaves is undone. -/
def undoOnException : Result Rest Body → Result Rest Body
  | .threw .exception s => s.undoSession.andThen fun s ↦ .threw .exception s
  | x => x

def record (executing : List ProposalId) (op : Operation Body) (s : Chain Rest Body) :
    Chain Rest Body :=
  { s with trace := ⟨executing, op⟩ :: s.trace }

/-- What `removes` a proposal reads its object first. -/
def removeProposal (id : ProposalId) (s : Chain Rest Body) : Result Rest Body :=
  match s.db.find id with
  | none => .threw .danglingProposal s
  | some _ => .returned { s with db := s.db.remove id }

def setRest (s : Chain Rest Body) : Option Rest → Result Rest Body
  | none => .threw .exception s
  | some rest => .returned { s with db := { s.db with rest } }

/-- `proposal_update_evaluator::do_apply`, given `push_proposal`. -/
def updateApply (env : Env Rest Body) (push : ProposalId → Chain Rest Body → Result Rest Body)
    (o : UpdateOperation) (p : ProposalObject Body) (s : Chain Rest Body) : Result Rest Body :=
  let s := { s with db := s.db.modify o.proposal (·.updateApprovals o) }
  if p.reviewPeriodTime.isSome then .returned s
  else if (p.updateApprovals o).isAuthorizedToExecute env s.db.rest then
    match push o.proposal s with
    | .threw .exception s => .returned s
    | x => x
  else .returned s

/-- `do_evaluate`, the fee and `do_apply`, and the fee's payment. -/
def evaluateAndApply (env : Env Rest Body) (push : ProposalId → Chain Rest Body → Result Rest Body)
    (op : Operation Body) (s : Chain Rest Body) : Result Rest Body :=
  match op with
  | .create _ proposedOps expirationTime review =>
    if s.db.createEvaluate env proposedOps expirationTime review then
      ((s.setRest (env.payFee op s.db.rest)).andThen fun s ↦
        .returned { s with db := s.db.createApply env proposedOps expirationTime review }).andThen
          fun s ↦ s.setRest (env.adjustBalance op s.db.rest)
    else .threw .exception s
  | .update o =>
    match s.db.find o.proposal with
    | none => .threw .exception s
    | some p =>
      if s.db.updateEvaluate o p then
        ((s.setRest (env.payFee op s.db.rest)).andThen fun s ↦ s.updateApply env push o p).andThen
          fun s ↦ s.setRest (env.adjustBalance op s.db.rest)
      else .threw .exception s
  | .delete o =>
    match s.db.find o.proposal with
    | none => .threw .exception s
    | some p =>
      if deleteEvaluate o p then
        ((s.setRest (env.payFee op s.db.rest)).andThen fun s ↦ s.removeProposal o.proposal).andThen
          fun s ↦ s.setRest (env.adjustBalance op s.db.rest)
      else .threw .exception s
  | .other body => s.setRest (env.applyBody body s.db.rest)

/-- `apply_operation`. -/
def applyOperation (env : Env Rest Body) (push : ProposalId → Chain Rest Body → Result Rest Body)
    (executing : List ProposalId) (op : Operation Body) (s : Chain Rest Body) : Result Rest Body :=
  (s.record executing op).evaluateAndApply env push op

def addEffect (id : ProposalId) (i : ℕ) (s : Chain Rest Body) : Chain Rest Body :=
  { s with db := { s.db with effects := (id, i) :: s.db.effects } }

/-- The loop of `push_proposal`, from a position on; it reads the operations
from the proposal. -/
def applyProposed (apply : Operation Body → Chain Rest Body → Result Rest Body) (id : ProposalId) :
    List (Operation Body) → ℕ → Chain Rest Body → Result Rest Body
  | [], _, s => .returned s
  | op :: ops, i, s =>
    match s.db.find id with
    | none => .threw .danglingProposal s
    | some _ =>
      (apply op s).andThen fun s ↦ applyProposed apply id ops (i + 1) (s.addEffect id i)

/-- `push_proposal`, at most so deep, inside the executions of others. -/
def pushProposal (env : Env Rest Body) :
    ℕ → List ProposalId → ProposalId → Chain Rest Body → Result Rest Body
  | 0, _, _, s => .threw .tooDeep s
  | n + 1, executing, id, s =>
    match s.db.find id with
    | none => .threw .danglingProposal s
    | some p =>
      undoOnException <|
        ((applyProposed (applyOperation env (pushProposal env n (id :: executing))
            (id :: executing)) id p.operations 0 s.startSession).andThen
          (removeProposal id)).andThen mergeSession

/-- An operation of a transaction. -/
def applyTopLevel (env : Env Rest Body) (depth : ℕ) (op : Operation Body) (s : Chain Rest Body) :
    Result Rest Body :=
  s.applyOperation env (pushProposal env depth []) [] op

/-- The first proposal of the index by expiration, if it has expired. -/
def nextExpired (db : Db Rest Body) : Option (ProposalObject Body) :=
  (db.proposals.filter fun p ↦ p.expirationTime ≤ db.headBlockTime).argmin (·.expirationTime)

/-- One round of `clear_expired_proposals`. -/
def clearProposal (env : Env Rest Body) (depth : ℕ) (p : ProposalObject Body)
    (s : Chain Rest Body) : Result Rest Body :=
  if p.isAuthorizedToExecute env s.db.rest then
    match pushProposal env depth [] p.id s with
    | .threw .exception s => s.removeProposal p.id
    | x => x
  else s.removeProposal p.id

/-- `clear_expired_proposals`, for at most so many rounds. -/
def clearExpiredProposals (env : Env Rest Body) (depth : ℕ) :
    ℕ → Chain Rest Body → Result Rest Body
  | 0, s => if (nextExpired s.db).isSome then .threw .tooDeep s else .returned s
  | n + 1, s =>
    match nextExpired s.db with
    | none => .returned s
    | some p => (s.clearProposal env depth p).andThen (clearExpiredProposals env depth n)

end Chain

end KarmaCore.Proposals
