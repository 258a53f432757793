import Mathlib
import KarmaCore.Market.Fee

/-!
# The tally of votes

At maintenance every account's stake is counted for the votes of its opinion
account, and for how many witnesses and committee members that account wants.
The counts are kept in buffers of the database that no undo session covers.
-/

namespace KarmaCore.Votes

open Market (MarketState coreAsset)
open Transfer (get)

/-- `GRAPHENE_PROXY_TO_SELF_ACCOUNT`. -/
def proxyToSelfAccount : AccountId := 5

/-- The votes are a `flat_set`, which compares them by their instances. -/
structure AccountOptions where
  votingAccount : AccountId := proxyToSelfAccount
  numWitness : ℕ := 0
  numCommittee : ℕ := 0
  votes : List ℕ := []
  nodup : votes.Nodup := by decide

/-- What the tally reads of the global properties, and the options of the accounts. -/
structure VoteProperties where
  countNonMemberVotes : Bool := true
  maximumWitnessCount : ℕ := 1001
  maximumCommitteeCount : ℕ := 1001
  nextAvailableVoteId : ℕ
  options : AccountId → AccountOptions

structure VoteBuffers where
  voteTally : List UInt64
  witnessCountHistogram : List UInt64
  committeeCountHistogram : List UInt64
  totalVotingStake : UInt64

/-- `vector::resize`: what fits is kept. -/
def resize (n : ℕ) (l : List UInt64) : List UInt64 := l.take n ++ List.replicate (n - l.length) 0

namespace VoteBuffers

/-- The constructor of `vote_tally_helper`. -/
def resized (p : VoteProperties) (b : VoteBuffers) : VoteBuffers where
  voteTally := resize p.nextAvailableVoteId b.voteTally
  witnessCountHistogram := resize (p.maximumWitnessCount / 2 + 1) b.witnessCountHistogram
  committeeCountHistogram := resize (p.maximumCommitteeCount / 2 + 1) b.committeeCountHistogram
  totalVotingStake := 0

/-- `clear_canary`, for all three of the buffers. -/
def cleared (b : VoteBuffers) : VoteBuffers :=
  { b with voteTally := [], witnessCountHistogram := [], committeeCountHistogram := [] }

end VoteBuffers

/-! ## One account -/

/-- The stake of an account and what its opinion account says. -/
structure Ballot where
  stake : UInt64
  opinion : AccountOptions

/-- An illegal offset is ignored. -/
def addVotes (stake : UInt64) : List ℕ → List UInt64 → List UInt64
  | [], tally => tally
  | offset :: votes, tally =>
      addVotes stake votes
        (if offset < tally.length then tally.modify offset (· + stake) else tally)

/-- A preference above the maximum is left out, though it is meant to count as the maximum. -/
def addPreference (stake : UInt64) (preference maximum : ℕ) (histogram : List UInt64) :
    List UInt64 :=
  if preference ≤ maximum then
    histogram.modify (min (preference / 2) (histogram.length - 1)) (· + stake)
  else histogram

def VoteBuffers.count (p : VoteProperties) (b : VoteBuffers) (ballot : Ballot) : VoteBuffers where
  voteTally := addVotes ballot.stake ballot.opinion.votes b.voteTally
  witnessCountHistogram := addPreference ballot.stake ballot.opinion.numWitness
    p.maximumWitnessCount b.witnessCountHistogram
  committeeCountHistogram := addPreference ballot.stake ballot.opinion.numCommittee
    p.maximumCommitteeCount b.committeeCountHistogram
  totalVotingStake := b.totalVotingStake + ballot.stake

def cashbackAmount (vbid : Option ℕ) (s : MarketState) : Checked ℤ :=
  match vbid with
  | some id => do return (← get (s.vestingBalances.find id)).balance.amount
  | none => .ok 0

/-- The account whose options count for a stake account. -/
def opinionAccount (p : VoteProperties) (id : AccountId) (s : MarketState) : Checked AccountId :=
  if (p.options id).votingAccount = proxyToSelfAccount then .ok id
  else do
    let _ ← get (s.accounts.find (p.options id).votingAccount)
    return (p.options id).votingAccount

/-- Who is no member has no ballot, unless such votes count as well. -/
def castBallot (p : VoteProperties) (id : AccountId) (s : MarketState) : Checked (Option Ballot) := do
  let account ← get (s.accounts.find id)
  if p.countNonMemberVotes = true ∨ ¬account.isBasicAccount s.headBlockTime then do
    let opinion ← opinionAccount p id s
    let cashback ← cashbackAmount account.cashbackVb s
    let stake := account.statistics.totalCoreInOrders + cashback + (s.getBalance id coreAsset).amount
    return some ⟨UInt64.ofInt stake, p.options opinion⟩
  else return none

/-- `vote_tally_helper::operator()`: nothing is counted when it throws. -/
def tally (p : VoteProperties) (id : AccountId) (s : MarketState) (b : VoteBuffers) :
    Checked VoteBuffers := do
  match ← castBallot p id s with
  | some ballot => return b.count p ballot
  | none => return b

/-! ## All accounts -/

/-- `perform_account_maintenance`: each account's stake is counted before its fees are paid out. An
exception leaves what was counted in the buffers. -/
def performAccountMaintenance (p : VoteProperties) :
    List AccountId → MarketState → VoteBuffers → VoteBuffers × Checked MarketState
  | [], s, b => (b, .ok s)
  | id :: ids, s, b =>
      match tally p id s b with
      | .error e => (b, .error e)
      | .ok b =>
          match s.processFees id with
          | .error e => (b, .error e)
          | .ok s => performAccountMaintenance p ids s b

/-! ## The numbers of witnesses and committee members -/

/-- The loop over the histogram from its second entry on. -/
def countPairs (stakeTarget : ℤ) : List UInt64 → ℤ → ℕ → Checked ℕ
  | [], _, count => .ok count
  | stake :: histogram, stakeTally, count =>
      if stakeTally ≤ stakeTarget then do
        let stakeTally ← checkedShare (stakeTally + (stake.toNat : ℤ).bmod (2 ^ 64))
        countPairs stakeTarget histogram stakeTally (count + 1)
      else .ok count

/-- `witness_count` in `update_active_witnesses`. -/
def witnessCount (b : VoteBuffers) : Checked ℕ := do
  require (b.witnessCountHistogram ≠ []) "_witness_count_histogram_buffer.size() > 0"
  let abstaining := b.witnessCountHistogram.headD 0
  let stakeTarget : ℤ := ((b.totalVotingStake - abstaining) / 2).toNat
  if 0 < stakeTarget then countPairs stakeTarget b.witnessCountHistogram.tail 0 0 else return 0

/-! ## Maintenance after maintenance -/

/-- One maintenance: `accounts` are in the order of their names, and the market and the properties
are those of the block, which may not have to do with those of a maintenance that failed. -/
structure MaintenanceEvent where
  properties : VoteProperties
  accounts : List AccountId
  market : MarketState

/-- What the loop over the accounts leaves in the buffers. -/
def tallied (b : VoteBuffers) (event : MaintenanceEvent) : VoteBuffers × Checked MarketState :=
  performAccountMaintenance event.properties event.accounts event.market
    (b.resized event.properties)

/-- Once all accounts were counted the buffers are cleared, whether or not the rest of the
maintenance throws. -/
def maintenance (b : VoteBuffers) (event : MaintenanceEvent) : VoteBuffers :=
  match tallied b event with
  | (b, .ok _) => b.cleared
  | (b, .error _) => b

end KarmaCore.Votes
