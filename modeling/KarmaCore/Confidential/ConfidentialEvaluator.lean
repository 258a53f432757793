import Mathlib
import KarmaCore.Authority.SignState
import KarmaCore.Market.Fee

/-!
# Blinded balances

Three operations move an asset into blinded balances, between them and out of
them.  A blinded balance shows a commitment to its amount only, and what an
operation moves is checked on the sums of the commitments.
-/

namespace KarmaCore.Authorities

/-- `is_impossible`. -/
def Authority.IsImpossible (a : Authority) : Prop :=
  (a.accountAuths.map fun e ↦ e.2.toNat).sum + (a.keyAuths.map fun e ↦ e.2.toNat).sum <
    a.weightThreshold.toNat

instance (a : Authority) : Decidable a.IsImpossible := inferInstanceAs (Decidable (_ < _))

end KarmaCore.Authorities

namespace KarmaCore.Confidential

open Authorities (Authority)
open Market (MarketState)
open Transfer (get)

def hardfork563Time : ℕ := 1456250400

/-- `disable_confidential`. -/
def disableConfidential : ℕ := 0x40

def fbaAccumulatorIdTransferToBlind : ℕ := 0
def fbaAccumulatorIdBlindTransfer : ℕ := 1
def fbaAccumulatorIdTransferFromBlind : ℕ := 2

/-- A signed 64-bit integer where an unsigned one is expected. -/
def uint64 (x : ℤ) : ℕ := (x % 2 ^ 64).toNat

/-! ## Commitments -/

structure RangeProofInfo where
  maxValue : ℕ

/-- What the operations use of `fc::ecc`. A value `v` without blinding is committed to as `v`
times the generator. -/
structure Ecc (C B P : Type) where
  blind : B → ℕ → C
  valueGenerator : C
  rangeGetInfo : P → Checked RangeProofInfo

variable {C B P : Type} [AddCommGroup C] [LinearOrder C] (ecc : Ecc C B P)

/-- `verify_sum`. -/
def Ecc.VerifySum (ins outs : List C) (excess : ℤ) : Prop :=
  ins.sum = outs.sum + excess • ecc.valueGenerator

instance (ins outs : List C) (excess : ℤ) : Decidable (ecc.VerifySum ins outs excess) :=
  inferInstanceAs (Decidable (_ = _))

/-! ## Objects and operations -/

structure BlindedBalanceObject (C : Type) where
  commitment : C
  assetId : AssetId
  owner : Authority

structure BlindInput (C : Type) where
  commitment : C
  owner : Authority

structure BlindOutput (C P : Type) where
  commitment : C
  rangeProof : P
  owner : Authority

structure TransferToBlindOperation (C B P : Type) where
  fee : Asset
  amount : Asset
  source : AccountId
  blindingFactor : B
  outputs : List (BlindOutput C P)

structure TransferFromBlindOperation (C B : Type) where
  fee : Asset
  amount : Asset
  target : AccountId
  blindingFactor : B
  inputs : List (BlindInput C)

structure BlindTransferOperation (C P : Type) where
  fee : Asset
  inputs : List (BlindInput C)
  outputs : List (BlindOutput C P)

inductive ConfidentialOperation (C B P : Type)
  | transferToBlind (op : TransferToBlindOperation C B P)
  | blindTransfer (op : BlindTransferOperation C P)
  | transferFromBlind (op : TransferFromBlindOperation C B)

/-- `spent` lists the ids of the blinded balances that were spent: no function of the model
reads it. -/
structure ConfidentialState (C : Type) where
  market : MarketState := {}
  blindedBalances : ObjectIndex (BlindedBalanceObject C) := .empty
  spent : List ℕ := []

/-! ## Validation -/

/-- The loop over the outputs of an operation, from the commitment before them on. -/
def checkOutputs (unsorted : String) (prev : Option C) : List (BlindOutput C P) → Checked Unit
  | [] => .ok ()
  | out :: outs => do
      require (∀ c ∈ prev, c < out.commitment) unsorted
      require (¬out.owner.IsImpossible) "!outputs[i].owner.is_impossible()"
      checkOutputs unsorted (some out.commitment) outs

def checkSorted (unsorted : String) (prev : Option C) : List (BlindInput C) → Checked Unit
  | [] => .ok ()
  | i :: inputs => do
      require (∀ c ∈ prev, c < i.commitment) unsorted
      checkSorted unsorted (some i.commitment) inputs

/-- `range_get_info` reads the bounds out of a proof and does not verify it. -/
def checkRanges : List (BlindOutput C P) → Checked Unit
  | [] => .ok ()
  | out :: outs => do
      let info ← ecc.rangeGetInfo out.rangeProof
      require (info.maxValue ≤ maxShareSupply) "info.max_value <= GRAPHENE_MAX_SHARE_SUPPLY"
      checkRanges outs

/-- A single output carries no range proof. -/
def checkRangeProofs (outs : List (BlindOutput C P)) : Checked Unit :=
  if 1 < outs.length then checkRanges ecc outs else .ok ()

namespace TransferToBlindOperation

def validate (o : TransferToBlindOperation C B P) : Checked Unit := do
  require (0 ≤ o.fee.amount) "fee.amount >= 0"
  require (0 < o.amount.amount) "amount.amount > 0"
  checkOutputs "all outputs must be sorted by commitment id" none o.outputs
  require (o.outputs ≠ []) "there must be at least one output"
  let publicC := ecc.blind o.blindingFactor (uint64 o.amount.amount)
  require (ecc.VerifySum [publicC] (o.outputs.map (·.commitment)) 0)
    "fc::ecc::verify_sum( {public_c}, out, 0 )"
  checkRangeProofs ecc o.outputs

end TransferToBlindOperation

namespace TransferFromBlindOperation

def validate (o : TransferFromBlindOperation C B) : Checked Unit := do
  require (0 < o.amount.amount) "amount.amount > 0"
  require (0 ≤ o.fee.amount) "fee.amount >= 0"
  require (0 < o.inputs.length) "inputs.size() > 0"
  require (o.amount.assetId = o.fee.assetId) "amount.asset_id == fee.asset_id"
  let publicC := ecc.blind o.blindingFactor (uint64 (o.fee.amount + o.amount.amount))
  checkSorted "all inputs must be sorted by commitment id" none o.inputs
  require (o.inputs ≠ []) "there must be at least one input"
  require (ecc.VerifySum (o.inputs.map (·.commitment)) [publicC] 0)
    "fc::ecc::verify_sum( in, out, 0 )"

end TransferFromBlindOperation

namespace BlindTransferOperation

def feePayer (_ : BlindTransferOperation C P) : AccountId := Market.tempAccount

def validate (o : BlindTransferOperation C P) : Checked Unit := do
  checkSorted "in[i-1] < in[i]" none o.inputs
  checkOutputs "out[i-1] < out[i]" none o.outputs
  require (o.inputs ≠ []) "there must be at least one input"
  require (ecc.VerifySum (o.inputs.map (·.commitment)) (o.outputs.map (·.commitment)) o.fee.amount)
    "fc::ecc::verify_sum( in, out, net_public )"
  checkRangeProofs ecc o.outputs
  require (ecc.VerifySum (o.inputs.map (·.commitment)) (o.outputs.map (·.commitment)) o.fee.amount)
    "fc::ecc::verify_sum( in, out, net_public )"

end BlindTransferOperation

/-! ## Reading and writing blinded balances -/

def checkAccounts (market : MarketState) : List AccountId → Checked Unit
  | [] => .ok ()
  | a :: accounts => do
      let _ ← get (market.accounts.find a)
      checkAccounts market accounts

/-- All accounts an owner of an output names must exist. -/
def checkOwners (market : MarketState) : List (BlindOutput C P) → Checked Unit
  | [] => .ok ()
  | out :: outs => do
      checkAccounts market (out.owner.accountAuths.map Prod.fst)
      checkOwners market outs

namespace ConfidentialState

/-- `cidx.find`. -/
def findCommitment (c : C) (s : ConfidentialState C) : Option (ℕ × BlindedBalanceObject C) :=
  s.blindedBalances.objects.find? fun o ↦ o.2.commitment = c

def getCommitment (unknown : String) (c : C) (s : ConfidentialState C) :
    Checked (ℕ × BlindedBalanceObject C) :=
  match s.findCommitment c with
  | some o => .ok o
  | none => .error (.assertion unknown)

def checkInputs (unknown : String) (assetId : AssetId) (s : ConfidentialState C) :
    List (BlindInput C) → Checked Unit
  | [] => .ok ()
  | i :: inputs => do
      let o ← s.getCommitment unknown i.commitment
      require (o.2.assetId = assetId) "itr->asset_id == o.fee.asset_id"
      require (o.2.owner = i.owner) "itr->owner == in.owner"
      checkInputs unknown assetId s inputs

def removeInputs (unknown : String) : List (BlindInput C) → ConfidentialState C →
    Checked (ConfidentialState C)
  | [], s => .ok s
  | i :: inputs, s => do
      let o ← s.getCommitment unknown i.commitment
      removeInputs unknown inputs
        { s with blindedBalances := s.blindedBalances.remove o.1, spent := o.1 :: s.spent }

/-- The index by commitment is unique. -/
def createOutputs (assetId : AssetId) : List (BlindOutput C P) → ConfidentialState C →
    Checked (ConfidentialState C)
  | [], s => .ok s
  | out :: outs, s => do
      require (∀ o ∈ s.blindedBalances.objects, o.2.commitment ≠ out.commitment)
        "Could not create object! Most likely a uniqueness constraint is violated."
      createOutputs assetId outs { s with
        blindedBalances := s.blindedBalances.create ⟨out.commitment, assetId, out.owner⟩ }

end ConfidentialState

/-- What each of the three writes into the confidential supply, which must not become
negative. -/
def setConfidentialSupply (supply : ℤ) (d : Market.AssetDynamicData) :
    Checked Market.AssetDynamicData := do
  let confidentialSupply ← checkedShare supply
  require (0 ≤ confidentialSupply) "obj.confidential_supply >= 0"
  return { d with confidentialSupply }

/-! ## Evaluators -/

/-- From the hard fork on the fee goes to an FBA accumulator. -/
def payFee (fbaId : ℕ) (payer : AccountId) (coreFeePaid : ℤ) (market : MarketState) :
    Checked MarketState :=
  if hardfork563Time ≤ market.headBlockTime then market.payFbaFee fbaId payer coreFeePaid
  else market.payFee payer coreFeePaid

namespace TransferToBlindOperation

def doEvaluate (s : ConfidentialState C) (o : TransferToBlindOperation C B P) : Checked Unit := do
  let atype ← get (s.market.assets.find o.amount.assetId)
  require (atype.options.flags &&& disableConfidential = 0) "atype.allow_confidential()"
  require (atype.options.flags &&& Transfer.transferRestricted = 0) "!atype.is_transfer_restricted()"
  require (atype.options.flags &&& Transfer.whiteList = 0) "!(atype.options.flags & white_list)"
  checkOwners s.market o.outputs

def doApply (s : ConfidentialState C) (o : TransferToBlindOperation C B P) :
    Checked (ConfidentialState C) := do
  let market ← s.market.adjustBalance o.source (← o.amount.neg)
  let market ← market.modifyDynamicData o.amount.assetId fun d ↦
    setConfidentialSupply (d.confidentialSupply + o.amount.amount) d
  { s with market }.createOutputs o.amount.assetId o.outputs

end TransferToBlindOperation

namespace TransferFromBlindOperation

def doEvaluate (s : ConfidentialState C) (o : TransferFromBlindOperation C B) : Checked Unit := do
  let _ ← get (s.market.assets.find o.fee.assetId)
  s.checkInputs "itr != cidx.end()" o.fee.assetId o.inputs

def doApply (s : ConfidentialState C) (o : TransferFromBlindOperation C B) :
    Checked (ConfidentialState C) := do
  let market ← s.market.adjustBalance Market.tempAccount o.fee
  let market ← market.adjustBalance o.target o.amount
  let s ← { s with market }.removeInputs "itr != cidx.end()" o.inputs
  let market ← s.market.modifyDynamicData o.amount.assetId fun d ↦ do
    let leaving ← checkedShare (o.amount.amount + o.fee.amount)
    setConfidentialSupply (d.confidentialSupply - leaving) d
  return { s with market }

end TransferFromBlindOperation

namespace BlindTransferOperation

/-- The exception of an input that does not exist. -/
def unknownCommitment : String := "blind_transfer_unknown_commitment"

def doEvaluate (s : ConfidentialState C) (o : BlindTransferOperation C P) : Checked Unit := do
  let _ ← get (s.market.assets.find o.fee.assetId)
  checkOwners s.market o.outputs
  s.checkInputs unknownCommitment o.fee.assetId o.inputs

def doApply (s : ConfidentialState C) (o : BlindTransferOperation C P) :
    Checked (ConfidentialState C) := do
  let market ← s.market.adjustBalance o.feePayer o.fee
  let s ← { s with market }.removeInputs unknownCommitment o.inputs
  let s ← s.createOutputs o.fee.assetId o.outputs
  let market ← s.market.modifyDynamicData o.fee.assetId fun d ↦
    setConfidentialSupply (d.confidentialSupply - o.fee.amount) d
  return { s with market }

end BlindTransferOperation

namespace ConfidentialOperation

def fee : ConfidentialOperation C B P → Asset
  | transferToBlind o => o.fee
  | blindTransfer o => o.fee
  | transferFromBlind o => o.fee

def feePayer : ConfidentialOperation C B P → AccountId
  | transferToBlind o => o.source
  | blindTransfer o => o.feePayer
  | transferFromBlind _ => Market.tempAccount

def fbaId : ConfidentialOperation C B P → ℕ
  | transferToBlind _ => fbaAccumulatorIdTransferToBlind
  | blindTransfer _ => fbaAccumulatorIdBlindTransfer
  | transferFromBlind _ => fbaAccumulatorIdTransferFromBlind

def validate : ConfidentialOperation C B P → Checked Unit
  | transferToBlind o => o.validate ecc
  | blindTransfer o => o.validate ecc
  | transferFromBlind o => o.validate ecc

def doEvaluate (s : ConfidentialState C) : ConfidentialOperation C B P → Checked Unit
  | transferToBlind o => o.doEvaluate s
  | blindTransfer o => o.doEvaluate s
  | transferFromBlind o => o.doEvaluate s

def doApply (s : ConfidentialState C) : ConfidentialOperation C B P → Checked (ConfidentialState C)
  | transferToBlind o => o.doApply s
  | blindTransfer o => o.doApply s
  | transferFromBlind o => o.doApply s

end ConfidentialOperation

namespace ConfidentialState

/-- `evaluate` and then `apply`. -/
def evaluateAndApply (op : ConfidentialOperation C B P) (requiredFee : ℤ)
    (s : ConfidentialState C) : Checked (ConfidentialState C) := do
  let coreFeePaid ← s.market.prepareFee op.feePayer op.fee
  require (requiredFee ≤ coreFeePaid) "Insufficient Fee Paid"
  op.doEvaluate s
  let market ← s.market.convertFee op.fee coreFeePaid
  let market ← payFee op.fbaId op.feePayer coreFeePaid market
  let s ← op.doApply { s with market }
  let market ← s.market.adjustBalance op.feePayer (← op.fee.neg)
  return { s with market }

def applyOperation (calculateFee : ConfidentialOperation C B P → ℤ)
    (op : ConfidentialOperation C B P) (s : ConfidentialState C) :
    Checked (ConfidentialState C) := do
  op.validate ecc
  s.evaluateAndApply op (calculateFee op)

end ConfidentialState

end KarmaCore.Confidential
