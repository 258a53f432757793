import Mathlib
import KarmaCore.Lib.TopRanked
import KarmaCore.Authority.VoteCounter
import KarmaCore.Votes.WitnessCount

/-!
# Elections

Witnesses, committee members and workers get the ids that accounts vote for when they are
created.  At maintenance those with the most votes become the active witnesses and committee
members, and the authorities of the accounts that stand for these groups are made of them.
-/

namespace KarmaCore.Votes

open Authorities (Authority VoteCounter)

/-! ## The ids of votes -/

inductive VoteType
  | committee
  | witness
  | worker

def VoteType.toUInt32 : VoteType → UInt32
  | .committee => 0
  | .witness => 1
  | .worker => 2

/-- `vote_id_type`: the type in the lower 8 bits, the instance in the upper 24 bits. -/
structure VoteId where
  content : UInt32
  deriving DecidableEq

namespace VoteId

def make (type : VoteType) (number : UInt32) : VoteId := ⟨number <<< 8 ||| type.toUInt32⟩

/-- `instance`, which ids are compared by. -/
def number (v : VoteId) : ℕ := (v.content >>> 8).toNat

end VoteId

/-! ## The candidates -/

/-- What `witness_object` and `committee_member_object` have in common. -/
structure Votable where
  id : ℕ
  account : AccountId
  voteId : VoteId
  totalVotes : UInt64 := 0

structure WorkerObject where
  id : ℕ
  workerAccount : AccountId
  voteFor : VoteId
  voteAgainst : VoteId
  totalVotesFor : UInt64 := 0
  totalVotesAgainst : UInt64 := 0

structure Elections where
  nextAvailableVoteId : UInt32 := 0
  witnesses : List Votable := []
  committeeMembers : List Votable := []
  workers : List WorkerObject := []
  activeWitnesses : Finset ℕ := ∅
  activeCommitteeMembers : List ℕ := []
  witnessAuthority : Authority := { weightThreshold := 0 }
  committeeAuthority : Authority := { weightThreshold := 0 }
  relaxedCommitteeAuthority : Authority := { weightThreshold := 0 }

namespace Elections

def getNextVoteId (type : VoteType) (s : Elections) : VoteId × Elections :=
  (.make type s.nextAvailableVoteId, { s with nextAvailableVoteId := s.nextAvailableVoteId + 1 })

/-- The index refuses an account, and an id, that one of the objects has. -/
def insertVotable (account : AccountId) (voteId : VoteId) (objects : List Votable) :
    Checked (List Votable) := do
  require (∀ o ∈ objects, o.account ≠ account ∧ o.voteId.number ≠ voteId.number)
    "Could not create object! Most likely a uniqueness constraint is violated."
  return objects ++ [{ id := objects.length, account, voteId }]

def witnessCreate (witnessAccount : AccountId) (isLifetimeMember : Bool) (s : Elections) :
    Checked Elections := do
  require (isLifetimeMember = true) "db().get(op.witness_account).is_lifetime_member()"
  let (voteId, s) := s.getNextVoteId .witness
  return { s with witnesses := ← insertVotable witnessAccount voteId s.witnesses }

def committeeMemberCreate (committeeMemberAccount : AccountId) (isLifetimeMember : Bool)
    (s : Elections) : Checked Elections := do
  require (isLifetimeMember = true) "db().get(op.committee_member_account).is_lifetime_member()"
  let (voteId, s) := s.getNextVoteId .committee
  return { s with
    committeeMembers := ← insertVotable committeeMemberAccount voteId s.committeeMembers }

def workerCreate (owner : AccountId) (isLifetimeMember : Bool) (workBeginDate headBlockTime : ℕ)
    (s : Elections) : Checked Elections := do
  require (isLifetimeMember = true) "d.get(o.owner).is_lifetime_member()"
  require (headBlockTime ≤ workBeginDate) "o.work_begin_date >= d.head_block_time()"
  let (voteFor, s) := s.getNextVoteId .worker
  let (voteAgainst, s) := s.getNextVoteId .worker
  require (∀ w ∈ s.workers, w.voteFor.number ≠ voteFor.number ∧
    w.voteAgainst.number ≠ voteAgainst.number)
    "Could not create object! Most likely a uniqueness constraint is violated."
  return { s with
    workers := s.workers ++
      [{ id := s.workers.length, workerAccount := owner, voteFor, voteAgainst }] }

end Elections

/-! ## The election -/

namespace VoteBuffers

/-- `_vote_tally_buffer[id]`; the tally has an entry for every id that was given. -/
def votes (b : VoteBuffers) (v : VoteId) : UInt64 := b.voteTally.getD v.number 0

/-- The votes as a `share_type`. -/
def signedVotes (b : VoteBuffers) (v : VoteId) : ℤ := ((b.votes v).toNat : ℤ).bmod (2 ^ 64)

/-- More votes go first, and of as many the lower id. -/
def Ranks (b : VoteBuffers) (v w : Votable) : Prop :=
  b.signedVotes w.voteId < b.signedVotes v.voteId ∨
    b.signedVotes v.voteId = b.signedVotes w.voteId ∧ v.voteId.number ≤ w.voteId.number

instance (b : VoteBuffers) : DecidableRel b.Ranks := fun _ _ ↦ inferInstanceAs (Decidable (_ ∨ _))

/-- `sort_votable_objects`. -/
def sortVotableObjects (b : VoteBuffers) (count : ℕ) (all : List Votable) : List Votable :=
  TopRanked.top b.Ranks (min count all.length) all

/-- What the counter of the votes for an authority is told. -/
def counted (b : VoteBuffers) (elected : List Votable) : List (AccountId × ℕ) :=
  elected.map fun v ↦ (v.account, (b.votes v.voteId).toNat)

/-- The loop over the histogram of the committee, whose sum is unsigned. -/
def countMembers (stakeTarget : ℤ) : List UInt64 → UInt64 → ℕ → ℕ
  | [], _, count => count
  | stake :: histogram, stakeTally, count =>
      if (stakeTally.toNat : ℤ).bmod (2 ^ 64) ≤ stakeTarget then
        countMembers stakeTarget histogram (stakeTally + stake) (count + 1)
      else count

def hardforkCore353Time : ℕ := 1512747600
def hardfork607Time : ℕ := 1458752400

/-- `GRAPHENE_DEFAULT_MIN_COMMITTEE_MEMBER_COUNT`. -/
def defaultMinCommitteeMemberCount : ℕ := 11

/-- `committee_member_count` in `update_active_committee_members`: a count for the target of the
witnesses is taken in its place at first. -/
def committeeMemberCount (b : VoteBuffers) (headBlockTime : ℕ) : Checked ℕ := do
  require (b.committeeCountHistogram ≠ []) "_committee_count_histogram_buffer.size() > 0"
  let stakeTarget : ℤ := ((b.totalVotingStake - b.committeeCountHistogram.headD 0) / 2).toNat
  let oldStakeTarget : ℤ := ((b.totalVotingStake - b.witnessCountHistogram.headD 0) / 2).toNat
  let count :=
    if 0 < stakeTarget then countMembers stakeTarget b.committeeCountHistogram.tail 0 0 else 0
  let oldCount := countMembers oldStakeTarget b.committeeCountHistogram.tail 0 0
  return if stakeTarget ≠ oldStakeTarget ∧ 0 < oldStakeTarget ∧
      headBlockTime < hardforkCore353Time ∧ oldCount ≠ count ∧
      (defaultMinCommitteeMemberCount < oldCount ∨ defaultMinCommitteeMemberCount < count) then
    oldCount else count

end VoteBuffers

structure ImmutableChainParameters where
  minCommitteeMemberCount : UInt16
  minWitnessCount : UInt16

namespace Elections

open VoteBuffers

/-- After the hardfork that brought the vote counter. -/
def updateActiveWitnesses (c : ImmutableChainParameters) (b : VoteBuffers) (s : Elections) :
    Checked Elections := do
  let witnessCount ← witnessCount b
  let wits := b.sortVotableObjects (max (witnessCount * 2 + 1) c.minWitnessCount.toNat) s.witnesses
  return { s with
    witnesses := s.witnesses.map fun wit ↦ { wit with totalVotes := b.votes wit.voteId }
    witnessAuthority := (VoteCounter.addAll {} (b.counted wits)).finish s.witnessAuthority
    activeWitnesses := (wits.map Votable.id).toFinset }

/-- Only the members that are elected are told their votes. -/
def updateActiveCommitteeMembers (c : ImmutableChainParameters) (b : VoteBuffers)
    (headBlockTime : ℕ) (s : Elections) : Checked Elections := do
  let count ← b.committeeMemberCount headBlockTime
  let members := b.sortVotableObjects (max (count * 2 + 1) c.minCommitteeMemberCount.toNat)
    s.committeeMembers
  let authority :=
    if members = [] then s.committeeAuthority
    else (VoteCounter.addAll {} (b.counted members)).finish s.committeeAuthority
  return { s with
    committeeMembers := s.committeeMembers.map fun del ↦
      if del.id ∈ members.map Votable.id then { del with totalVotes := b.votes del.voteId } else del
    committeeAuthority := authority
    relaxedCommitteeAuthority := if members = [] then s.relaxedCommitteeAuthority else authority
    activeCommitteeMembers := members.map Votable.id }

def updateWorkerVotes (b : VoteBuffers) (headBlockTime : ℕ) (s : Elections) : Elections :=
  { s with
    workers := s.workers.map fun obj ↦ { obj with
      totalVotesFor := b.votes obj.voteFor
      totalVotesAgainst :=
        if headBlockTime < hardfork607Time then b.votes obj.voteAgainst else 0 } }

/-- What `perform_chain_maintenance` does with the buffers once all accounts were counted. -/
def elect (c : ImmutableChainParameters) (b : VoteBuffers) (headBlockTime : ℕ) (s : Elections) :
    Checked Elections := do
  let s ← s.updateActiveWitnesses c b
  let s ← s.updateActiveCommitteeMembers c b headBlockTime
  return s.updateWorkerVotes b headBlockTime

end Elections

end KarmaCore.Votes
