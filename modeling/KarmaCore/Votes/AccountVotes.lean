import Mathlib
import KarmaCore.Votes.Elected

/-!
# What accounts may vote for

The options of an account are checked when they are set.  What they vote for then exists, under
the type the id of the vote says, and the account votes for as many witnesses and committee
members as it wants there to be.  Later operations do not change that.
-/

namespace KarmaCore.Votes

open Elections

namespace VoteId

def type (v : VoteId) : UInt32 := v.content &&& 0xff

end VoteId

/-- `account_options`: the votes are a `flat_set`. -/
structure VoteOptions where
  votingAccount : AccountId := proxyToSelfAccount
  numWitness : ℕ := 0
  numCommittee : ℕ := 0
  votes : List VoteId := []
  sorted : (votes.map VoteId.number).Pairwise (· < ·) := by decide

namespace VoteOptions

/-- The loop of `account_options::validate`. -/
def neededAfter : List VoteId → ℕ → ℕ → ℕ × ℕ
  | [], neededWitnesses, neededCommittee => (neededWitnesses, neededCommittee)
  | id :: votes, neededWitnesses, neededCommittee =>
      if id.type = VoteType.witness.toUInt32 ∧ neededWitnesses ≠ 0 then
        neededAfter votes (neededWitnesses - 1) neededCommittee
      else if id.type = VoteType.committee.toUInt32 ∧ neededCommittee ≠ 0 then
        neededAfter votes neededWitnesses (neededCommittee - 1)
      else neededAfter votes neededWitnesses neededCommittee

def validate (options : VoteOptions) : Checked Unit :=
  let needed := neededAfter options.votes options.numWitness options.numCommittee
  require (needed.1 = 0 ∧ needed.2 = 0)
    "May not specify fewer witnesses or committee members than the number voted for."

end VoteOptions

namespace Elections

def hardforkCore143Time : ℕ := 1512747600

/-- The `switch` over the types; the indexes are searched by the instances of the ids. -/
def verifyType (s : Elections) (id : VoteId) : Checked Unit :=
  if id.type = VoteType.committee.toUInt32 then
    require (∃ o ∈ s.committeeMembers, o.voteId.number = id.number)
      "committee_idx.find(id) != committee_idx.end()"
  else if id.type = VoteType.witness.toUInt32 then
    require (∃ o ∈ s.witnesses, o.voteId.number = id.number)
      "witness_idx.find(id) != witness_idx.end()"
  else if id.type = VoteType.worker.toUInt32 then
    require (∃ w ∈ s.workers, w.voteFor.number = id.number)
      "approve_worker_idx.find( id ) != approve_worker_idx.end()"
  else .error (.assertion "Invalid Vote Type: ${id}")

def verifyTypes (s : Elections) : List VoteId → Checked Unit
  | [] => .ok ()
  | id :: votes => do
      s.verifyType id
      s.verifyTypes votes

def verifyAccountVotes (maximumWitnessCount maximumCommitteeCount headBlockTime : ℕ)
    (options : VoteOptions) (s : Elections) : Checked Unit := do
  require (options.numWitness ≤ maximumWitnessCount)
    "Voted for more witnesses than currently allowed (${c})"
  require (options.numCommittee ≤ maximumCommitteeCount)
    "Voted for more committee members than currently allowed (${c})"
  require (∀ id ∈ options.votes, id.number < s.nextAvailableVoteId.toNat) "id < max_vote_id"
  require (VoteBuffers.hardfork607Time ≤ headBlockTime →
      ∀ id ∈ options.votes, id.type = VoteType.worker.toUInt32 →
        ∀ w ∈ s.workers, w.voteAgainst.number ≠ id.number)
    "against_worker_idx.find( id ) == against_worker_idx.end()"
  if hardforkCore143Time ≤ headBlockTime then s.verifyTypes options.votes else return ()

end Elections

/-- The candidates and the options of the accounts. -/
structure VotingState where
  elections : Elections := {}
  options : AccountId → Option VoteOptions := fun _ ↦ none

inductive VotingEvent
  | election (event : ElectionEvent)
  | setOptions (account : AccountId) (options : VoteOptions)
      (maximumWitnessCount maximumCommitteeCount headBlockTime : ℕ)

namespace VotingState

/-- What `account_create` and `account_update` do with the options. -/
def setOptions (account : AccountId) (options : VoteOptions)
    (maximumWitnessCount maximumCommitteeCount headBlockTime : ℕ) (s : VotingState) :
    Checked VotingState := do
  options.validate
  s.elections.verifyAccountVotes maximumWitnessCount maximumCommitteeCount headBlockTime options
  return { s with options := Function.update s.options account (some options) }

def step (c : ImmutableChainParameters) (s : VotingState) : VotingEvent → VotingState
  | .election event => { s with elections := s.elections.step c event }
  | .setOptions account options maximumWitnessCount maximumCommitteeCount headBlockTime =>
      match s.setOptions account options maximumWitnessCount maximumCommitteeCount
          headBlockTime with
      | .ok s' => s'
      | .error _ => s

def run (c : ImmutableChainParameters) (events : List VotingEvent) : VotingState :=
  events.foldl (step c) {}

end VotingState

/-! ## The ids of votes -/

namespace VoteId

theorem toNat_content (v : VoteId) : v.content.toNat = v.number * 256 + v.type.toNat := by
  have hnumber : v.number = v.content.toNat / 256 := by
    rw [number, UInt32.toNat_shiftRight]
    exact Nat.shiftRight_eq_div_pow _ 8
  have htype : v.type.toNat = v.content.toNat % 256 := by
    rw [type, UInt32.toNat_and]
    exact Nat.and_two_pow_sub_one_eq_mod _ 8
  omega

theorem eq_of_number {v w : VoteId} (hnumber : v.number = w.number) (htype : v.type = w.type) :
    v = w := by
  have hcontent : v.content.toNat = w.content.toNat := by
    rw [toNat_content v, toNat_content w, hnumber, htype]
  cases v
  cases w
  exact congrArg VoteId.mk (UInt32.toNat_inj.mp hcontent)

theorem type_make (type : VoteType) (i : UInt32) : (make type i).type = type.toUInt32 := by
  have htype : type.toUInt32.toNat % 256 = type.toUInt32.toNat := by cases type <;> rfl
  apply UInt32.toNat_inj.mp
  rw [VoteId.type, make, UInt32.toNat_and, UInt32.toNat_or, UInt32.toNat_shiftLeft]
  change (i.toNat <<< 8 % 2 ^ 32 ||| type.toUInt32.toNat) &&& (2 ^ 8 - 1) = type.toUInt32.toNat
  rw [Nat.and_or_distrib_right, Nat.and_two_pow_sub_one_eq_mod, Nat.and_two_pow_sub_one_eq_mod,
    Nat.shiftLeft_eq]
  have hlow : i.toNat * 2 ^ 8 % 2 ^ 32 % 2 ^ 8 = 0 := by omega
  rw [hlow, Nat.zero_or]
  exact htype

end VoteId

/-! ## Options that are legal -/

namespace VoteOptions

/-- What is needed is what the votes do not give. -/
theorem neededAfter_eq (votes : List VoteId) (neededWitnesses neededCommittee : ℕ) :
    neededAfter votes neededWitnesses neededCommittee =
      (neededWitnesses - votes.countP (·.type = VoteType.witness.toUInt32),
        neededCommittee - votes.countP (·.type = VoteType.committee.toUInt32)) := by
  induction votes generalizing neededWitnesses neededCommittee with
  | nil => rfl
  | cons id votes ih =>
      have hdiffer : ¬(VoteType.witness.toUInt32 = VoteType.committee.toUInt32) := by decide
      rw [neededAfter]
      simp only [List.countP_cons, decide_eq_true_eq]
      split_ifs with hwitness hcommittee <;> rw [ih] <;> simp_all <;> omega

end VoteOptions

/-- The votes of one type go to candidates of that type, and are at least as many as wanted. -/
structure LegalVotes (votes : List VoteId) (type : VoteType) (wanted : ℕ) (ids : List VoteId) :
    Prop where
  mem : ∀ v ∈ votes, v.type = type.toUInt32 → v ∈ ids
  wanted_le : wanted ≤ (ids.filter (· ∈ votes)).length

/-- Options that may be set after the types of votes are checked. -/
structure LegalOptions (s : Elections) (options : VoteOptions) : Prop where
  witnesses : LegalVotes options.votes .witness options.numWitness (s.witnesses.map Votable.voteId)
  committee : LegalVotes options.votes .committee options.numCommittee
    (s.committeeMembers.map Votable.voteId)
  workers : LegalVotes options.votes .worker 0 (s.workers.map WorkerObject.voteFor)
  types : ∀ v ∈ options.votes, ∃ type : VoteType, v.type = type.toUInt32

theorem LegalVotes.mono {votes ids ids' : List VoteId} {type : VoteType} {wanted : ℕ}
    (h : LegalVotes votes type wanted ids) (hids : ids <+: ids') :
    LegalVotes votes type wanted ids' :=
  ⟨fun v hv htype ↦ hids.subset (h.mem v hv htype),
    h.wanted_le.trans (hids.sublist.filter _).length_le⟩

/-- Different votes for different candidates. -/
theorem LegalVotes.of_mem {votes ids : List VoteId} {type : VoteType} {wanted : ℕ}
    (hsorted : (votes.map VoteId.number).Pairwise (· < ·))
    (hmem : ∀ v ∈ votes, v.type = type.toUInt32 → v ∈ ids)
    (hwanted : wanted ≤ votes.countP (·.type = type.toUInt32)) :
    LegalVotes votes type wanted ids := by
  refine ⟨hmem, hwanted.trans ?_⟩
  have hnodup : votes.Nodup := by
    refine List.Nodup.of_map VoteId.number ?_
    exact hsorted.imp fun hlt ↦ hlt.ne
  rw [List.countP_eq_length_filter]
  refine ((hnodup.filter _).subperm fun v hv ↦ ?_).length_le
  obtain ⟨hvotes, htype⟩ := List.mem_filter.mp hv
  exact List.mem_filter.mpr ⟨hmem v hvotes (by simpa using htype), by simpa using hvotes⟩

/-! ## The ids that candidates have -/

/-- The ids of the witnesses, the committee members and the workers. -/
structure GivenIds where
  witnesses : List VoteId
  committeeMembers : List VoteId
  workers : List (VoteId × VoteId)

namespace GivenIds

/-- New ids say what they are for. -/
inductive Step : GivenIds → GivenIds → Prop
  | same (ids : GivenIds) : Step ids ids
  | witness (ids : GivenIds) (i : UInt32) :
      Step ids { ids with witnesses := ids.witnesses ++ [.make .witness i] }
  | committeeMember (ids : GivenIds) (i : UInt32) :
      Step ids { ids with committeeMembers := ids.committeeMembers ++ [.make .committee i] }
  | worker (ids : GivenIds) (i j : UInt32) :
      Step ids { ids with workers := ids.workers ++ [(.make .worker i, .make .worker j)] }

structure Typed (ids : GivenIds) : Prop where
  witnesses : ∀ v ∈ ids.witnesses, v.type = VoteType.witness.toUInt32
  committeeMembers : ∀ v ∈ ids.committeeMembers, v.type = VoteType.committee.toUInt32
  workers : ∀ w ∈ ids.workers,
    w.1.type = VoteType.worker.toUInt32 ∧ w.2.type = VoteType.worker.toUInt32

structure Extends (ids ids' : GivenIds) : Prop where
  witnesses : ids.witnesses <+: ids'.witnesses
  committeeMembers : ids.committeeMembers <+: ids'.committeeMembers
  workers : ids.workers <+: ids'.workers

variable {ids ids' : GivenIds}

theorem Step.extends (h : Step ids ids') : Extends ids ids' := by
  cases h with
  | same => exact ⟨List.prefix_refl _, List.prefix_refl _, List.prefix_refl _⟩
  | witness i => exact ⟨List.prefix_append _ _, List.prefix_refl _, List.prefix_refl _⟩
  | committeeMember i => exact ⟨List.prefix_refl _, List.prefix_append _ _, List.prefix_refl _⟩
  | worker i j => exact ⟨List.prefix_refl _, List.prefix_refl _, List.prefix_append _ _⟩

theorem Typed.step (ht : Typed ids) (h : Step ids ids') : Typed ids' := by
  cases h with
  | same => exact ht
  | witness i =>
      refine ⟨fun v hv ↦ ?_, ht.committeeMembers, ht.workers⟩
      rcases List.mem_append.mp hv with hold | hnew
      · exact ht.witnesses v hold
      · exact List.mem_singleton.mp hnew ▸ VoteId.type_make _ _
  | committeeMember i =>
      refine ⟨ht.witnesses, fun v hv ↦ ?_, ht.workers⟩
      rcases List.mem_append.mp hv with hold | hnew
      · exact ht.committeeMembers v hold
      · exact List.mem_singleton.mp hnew ▸ VoteId.type_make _ _
  | worker i j =>
      refine ⟨ht.witnesses, ht.committeeMembers, fun w hw ↦ ?_⟩
      rcases List.mem_append.mp hw with hold | hnew
      · exact ht.workers w hold
      · exact List.mem_singleton.mp hnew ▸ ⟨VoteId.type_make _ _, VoteId.type_make _ _⟩

end GivenIds

namespace Elections

def givenIds (s : Elections) : GivenIds where
  witnesses := s.witnesses.map Votable.voteId
  committeeMembers := s.committeeMembers.map Votable.voteId
  workers := s.workers.map fun w ↦ (w.voteFor, w.voteAgainst)

variable {c : ImmutableChainParameters} {s s' : Elections} {options : VoteOptions}

theorem givenIds_elect {b : VoteBuffers} {headBlockTime : ℕ}
    (h : s.elect c b headBlockTime = .ok s') : s'.givenIds = s.givenIds := by
  simp only [elect, updateActiveWitnesses, updateActiveCommitteeMembers, updateWorkerVotes,
    Checked.bind_eq_ok, Checked.pure_eq_ok] at h
  obtain ⟨_, ⟨n, -, rfl⟩, _, ⟨m, -, rfl⟩, rfl⟩ := h
  simp only [givenIds, List.map_map, GivenIds.mk.injEq]
  refine ⟨rfl, List.map_congr_left fun del _ ↦ ?_, rfl⟩
  simp only [Function.comp]
  split <;> rfl

theorem givenIds_step (c : ImmutableChainParameters) (s : Elections) (event : ElectionEvent) :
    GivenIds.Step s.givenIds (step c s event).givenIds := by
  unfold step
  split
  · rename_i s' hok
    cases event with
    | witnessCreate account isLifetimeMember =>
        simp only [apply, witnessCreate, getNextVoteId, insertVotable, Checked.bind_eq_ok,
          Checked.pure_eq_ok] at hok
        obtain ⟨_, -, objects, ⟨_, -, rfl⟩, rfl⟩ := hok
        have hstep := GivenIds.Step.witness s.givenIds s.nextAvailableVoteId
        simpa only [givenIds, List.map_append, List.map_singleton] using hstep
    | committeeMemberCreate account isLifetimeMember =>
        simp only [apply, committeeMemberCreate, getNextVoteId, insertVotable, Checked.bind_eq_ok,
          Checked.pure_eq_ok] at hok
        obtain ⟨_, -, objects, ⟨_, -, rfl⟩, rfl⟩ := hok
        have hstep := GivenIds.Step.committeeMember s.givenIds s.nextAvailableVoteId
        simpa only [givenIds, List.map_append, List.map_singleton] using hstep
    | workerCreate owner isLifetimeMember workBeginDate headBlockTime =>
        simp only [apply, workerCreate, getNextVoteId, Checked.bind_eq_ok,
          Checked.pure_eq_ok] at hok
        obtain ⟨_, -, _, -, _, -, rfl⟩ := hok
        have hstep := GivenIds.Step.worker s.givenIds s.nextAvailableVoteId
          (s.nextAvailableVoteId + 1)
        simpa only [givenIds, List.map_append, List.map_singleton] using hstep
    | maintenance b headBlockTime => exact givenIds_elect hok ▸ .same _
  · exact .same _

theorem verifyType_of_verifyTypes {votes : List VoteId} (h : s.verifyTypes votes = .ok ())
    {v : VoteId} (hv : v ∈ votes) : s.verifyType v = .ok () := by
  induction votes with
  | nil => exact absurd hv List.not_mem_nil
  | cons id votes ih =>
      obtain ⟨_, hid, hvotes⟩ := Checked.bind_eq_ok.mp h
      rcases List.mem_cons.mp hv with rfl | hv
      · exact hid
      · exact ih hvotes hv

/-- An id of the right type whose number a candidate has is the candidate's. -/
theorem verifyType_cases (ht : s.givenIds.Typed) {v : VoteId} (h : s.verifyType v = .ok ()) :
    v.type = VoteType.committee.toUInt32 ∧ v ∈ s.givenIds.committeeMembers ∨
      v.type = VoteType.witness.toUInt32 ∧ v ∈ s.givenIds.witnesses ∨
      v.type = VoteType.worker.toUInt32 ∧ v ∈ s.workers.map WorkerObject.voteFor := by
  unfold verifyType at h
  split_ifs at h with hcommittee hwitness hworker
  · obtain ⟨o, ho, hnumber⟩ := require_eq_ok.mp h
    have hmem : o.voteId ∈ s.givenIds.committeeMembers := List.mem_map_of_mem ho
    have hsame := VoteId.eq_of_number hnumber
      ((ht.committeeMembers _ hmem).trans hcommittee.symm)
    exact .inl ⟨hcommittee, hsame ▸ hmem⟩
  · obtain ⟨o, ho, hnumber⟩ := require_eq_ok.mp h
    have hmem : o.voteId ∈ s.givenIds.witnesses := List.mem_map_of_mem ho
    have hsame := VoteId.eq_of_number hnumber ((ht.witnesses _ hmem).trans hwitness.symm)
    exact .inr (.inl ⟨hwitness, hsame ▸ hmem⟩)
  · obtain ⟨w, hw, hnumber⟩ := require_eq_ok.mp h
    have hmem : (w.voteFor, w.voteAgainst) ∈ s.givenIds.workers :=
      List.mem_map_of_mem (f := fun w : WorkerObject ↦ (w.voteFor, w.voteAgainst)) hw
    have hsame := VoteId.eq_of_number hnumber ((ht.workers _ hmem).1.trans hworker.symm)
    exact .inr (.inr ⟨hworker, hsame ▸ List.mem_map_of_mem hw⟩)

/-- Options that pass the checks are legal. -/
theorem legal_of_verify {maximumWitnessCount maximumCommitteeCount headBlockTime : ℕ}
    (ht : s.givenIds.Typed) (hlate : hardforkCore143Time ≤ headBlockTime)
    (hvalid : options.validate = .ok ())
    (h : s.verifyAccountVotes maximumWitnessCount maximumCommitteeCount headBlockTime options =
      .ok ()) : LegalOptions s options := by
  simp only [verifyAccountVotes, if_pos hlate, Checked.bind_eq_ok] at h
  obtain ⟨_, -, _, -, _, -, _, -, htypes⟩ := h
  have hcases : ∀ v ∈ options.votes, _ := fun v hv ↦
    verifyType_cases ht (verifyType_of_verifyTypes htypes hv)
  have hneeded := require_eq_ok.mp hvalid
  rw [VoteOptions.neededAfter_eq] at hneeded
  refine ⟨.of_mem options.sorted ?_ (Nat.le_of_sub_eq_zero hneeded.1),
    .of_mem options.sorted ?_ (Nat.le_of_sub_eq_zero hneeded.2),
    .of_mem options.sorted ?_ (Nat.zero_le _), ?_⟩
  · intro v hv htype
    rcases hcases v hv with ⟨hother, -⟩ | ⟨-, hmem⟩ | ⟨hother, -⟩
    · exact absurd (htype.symm.trans hother) (by decide)
    · exact hmem
    · exact absurd (htype.symm.trans hother) (by decide)
  · intro v hv htype
    rcases hcases v hv with ⟨-, hmem⟩ | ⟨hother, -⟩ | ⟨hother, -⟩
    · exact hmem
    · exact absurd (htype.symm.trans hother) (by decide)
    · exact absurd (htype.symm.trans hother) (by decide)
  · intro v hv htype
    rcases hcases v hv with ⟨hother, -⟩ | ⟨hother, -⟩ | ⟨-, hmem⟩
    · exact absurd (htype.symm.trans hother) (by decide)
    · exact absurd (htype.symm.trans hother) (by decide)
    · exact hmem
  · intro v hv
    rcases hcases v hv with ⟨htype, -⟩ | ⟨htype, -⟩ | ⟨htype, -⟩
    · exact ⟨.committee, htype⟩
    · exact ⟨.witness, htype⟩
    · exact ⟨.worker, htype⟩

theorem voteFor_extends (h : s.givenIds.Extends s'.givenIds) :
    s.workers.map WorkerObject.voteFor <+: s'.workers.map WorkerObject.voteFor := by
  have hmap := h.workers.map Prod.fst
  simpa only [givenIds, List.map_map, Function.comp_def] using hmap

end Elections

theorem LegalOptions.mono {s s' : Elections} {options : VoteOptions} (h : LegalOptions s options)
    (hids : s.givenIds.Extends s'.givenIds) : LegalOptions s' options :=
  ⟨h.witnesses.mono hids.witnesses, h.committee.mono hids.committeeMembers,
    h.workers.mono (voteFor_extends hids), h.types⟩

/-! ## Runs -/

namespace VotingEvent

/-- The types of votes have been checked since the hardfork. -/
def Late : VotingEvent → Prop
  | .election _ => True
  | .setOptions _ _ _ _ headBlockTime => hardforkCore143Time ≤ headBlockTime

def election? : VotingEvent → Option ElectionEvent
  | .election event => some event
  | .setOptions _ _ _ _ _ => none

end VotingEvent

namespace VotingState

/-- The ids say what they are for, and all options are legal. -/
structure Lawful (s : VotingState) : Prop where
  typed : s.elections.givenIds.Typed
  legal : ∀ account options, s.options account = some options → LegalOptions s.elections options

variable {c : ImmutableChainParameters} {s : VotingState}

theorem lawful_start : Lawful {} := by
  refine ⟨⟨?_, ?_, ?_⟩, ?_⟩
  · intro v hv
    exact absurd hv List.not_mem_nil
  · intro v hv
    exact absurd hv List.not_mem_nil
  · intro w hw
    exact absurd hw List.not_mem_nil
  · intro account options hoptions
    cases hoptions

theorem Lawful.step (h : Lawful s) {event : VotingEvent} (hlate : event.Late) :
    Lawful (step c s event) := by
  cases event with
  | election event =>
      have hids := givenIds_step c s.elections event
      refine ⟨h.typed.step hids, fun account options hoptions ↦ ?_⟩
      exact (h.legal account options hoptions).mono hids.extends
  | setOptions account options maximumWitnessCount maximumCommitteeCount headBlockTime =>
      simp only [VotingState.step]
      split
      · rename_i s' hok
        simp only [setOptions, Checked.bind_eq_ok, Checked.pure_eq_ok] at hok
        obtain ⟨_, hvalid, _, hverify, rfl⟩ := hok
        refine ⟨h.typed, fun other set hset ↦ ?_⟩
        change Function.update s.options account (some options) other = some set at hset
        rw [Function.update_apply] at hset
        split_ifs at hset
        · cases hset
          exact legal_of_verify h.typed hlate hvalid hverify
        · exact h.legal other set hset
      · exact h

theorem lawful_run (events : List VotingEvent) (hlate : ∀ event ∈ events, event.Late) :
    Lawful (run c events) := by
  induction events using List.reverseRecOn with
  | nil => exact lawful_start
  | append_singleton events event ih =>
      rw [run, List.foldl_concat]
      refine (ih fun e he ↦ hlate e ?_).step (hlate event ?_)
      · exact List.mem_append_left _ he
      · exact List.mem_append_right _ (List.mem_singleton_self event)

/-- The candidates are those of the operations that are about them. -/
theorem elections_run (events : List VotingEvent) :
    (run c events).elections = Elections.run c (events.filterMap VotingEvent.election?) := by
  induction events using List.reverseRecOn with
  | nil => rfl
  | append_singleton events event ih =>
      rw [run, List.foldl_concat, List.filterMap_append]
      cases event with
      | election event =>
          have hsplit : Elections.run c (events.filterMap VotingEvent.election? ++ [event]) =
              (Elections.run c (events.filterMap VotingEvent.election?)).step c event :=
            List.foldl_concat ..
          change (run c events).elections.step c event = Elections.run c (_ ++ [event])
          rw [hsplit, ih]
      | setOptions account options maximumWitnessCount maximumCommitteeCount headBlockTime =>
          change (step c (run c events) _).elections = Elections.run c (_ ++ [])
          rw [List.append_nil, ← ih]
          simp only [step]
          split
          · rename_i s' hok
            simp only [setOptions, Checked.bind_eq_ok, Checked.pure_eq_ok] at hok
            obtain ⟨_, -, _, -, rfl⟩ := hok
            rfl
          · rfl

end VotingState

/-- In a list of pairs without repetitions no first is a second. -/
theorem ne_of_nodup_flatMap {α : Type*} {f g : α → ℕ} {l : List α}
    (h : (l.flatMap fun a ↦ [f a, g a]).Nodup) {a b : α} (ha : a ∈ l) (hb : b ∈ l) :
    f a ≠ g b := by
  induction l with
  | nil => exact absurd ha List.not_mem_nil
  | cons x l ih =>
      simp only [List.flatMap_cons, List.cons_append, List.nil_append, List.nodup_cons,
        List.mem_cons, not_or, List.mem_flatMap] at h
      obtain ⟨⟨hsame, hfirst⟩, hsecond, hrest⟩ := h
      rcases List.mem_cons.mp ha with rfl | hlater
      · rcases List.mem_cons.mp hb with rfl | hlast
        · exact hsame
        · intro heq
          exact hfirst ⟨b, hlast, by simp [heq]⟩
      · rcases List.mem_cons.mp hb with rfl | hlast
        · intro heq
          exact hsecond ⟨a, hlater, by simp [heq]⟩
        · exact ih hrest hlater hlast

open VotingState

/-- Since the hardfork that checks the types, an account votes only for ids that were given to
candidates of those types, and never against a worker.  It votes for at least as many witnesses
and committee members as it wants there to be, and the tally has an entry for each vote. -/
theorem legal_of_run (c : ImmutableChainParameters) (events : List VotingEvent)
    (h : 2 * events.length < 2 ^ 24) (hlate : ∀ event ∈ events, event.Late)
    (account : AccountId) {options : VoteOptions} :
    let s := (VotingState.run c events).elections
    (VotingState.run c events).options account = some options →
      LegalOptions s options ∧
      (∀ v ∈ options.votes, v.number < s.nextAvailableVoteId.toNat) ∧
      ∀ w ∈ s.workers, w.voteAgainst ∉ options.votes := by
  intro s hoptions
  have hlawful := lawful_run (c := c) events hlate
  have hlegal : LegalOptions s options := hlawful.legal account options hoptions
  have hsound : s.roll.Sound := by
    have hshort := List.length_filterMap_le VotingEvent.election? events
    have hroll := (sound_run (c := c) (events.filterMap VotingEvent.election?) (by omega)).1
    rwa [← elections_run] at hroll
  refine ⟨hlegal, fun v hv ↦ hsound.below _ ?_, fun w hw hagainst ↦ ?_⟩
  · simp only [Roll.voteIds, roll, List.map_map, List.mem_append]
    obtain ⟨type, htype⟩ := hlegal.types v hv
    cases type with
    | committee =>
        obtain ⟨o, ho, rfl⟩ := List.mem_map.mp (hlegal.committee.mem v hv htype)
        exact .inl (.inr (List.mem_map_of_mem (f := Candidate.number ∘ Votable.candidate) ho))
    | witness =>
        obtain ⟨o, ho, rfl⟩ := List.mem_map.mp (hlegal.witnesses.mem v hv htype)
        exact .inl (.inl (List.mem_map_of_mem (f := Candidate.number ∘ Votable.candidate) ho))
    | worker =>
        obtain ⟨w, hw, rfl⟩ := List.mem_map.mp (hlegal.workers.mem v hv htype)
        refine .inr (List.mem_flatMap.mpr ⟨w.candidate, List.mem_map_of_mem hw, ?_⟩)
        exact List.mem_cons_self
  · have hgiven : (w.voteFor, w.voteAgainst) ∈ s.givenIds.workers :=
      List.mem_map_of_mem (f := fun w : WorkerObject ↦ (w.voteFor, w.voteAgainst)) hw
    have htype := (hlawful.typed.workers _ hgiven).2
    obtain ⟨w', hw', hsame⟩ := List.mem_map.mp (hlegal.workers.mem _ hagainst htype)
    have hpairs := (List.nodup_append.mp hsound.distinct).2.1
    have hne := ne_of_nodup_flatMap hpairs (List.mem_map_of_mem hw') (List.mem_map_of_mem hw)
    exact hne (congrArg VoteId.number hsame)

/-- A vote for the witness that comes first, who is all the witnesses there should be. -/
def firstVote : VoteOptions where
  numWitness := 1
  votes := [.make .witness 0]
  sorted := List.pairwise_singleton _ _

def oneVote : List VotingEvent :=
  [.election (.witnessCreate 7 true), .setOptions 8 firstVote 1001 1001 1600000000]

theorem legal_of_oneVote :
    let s := (VotingState.run oneSeat oneVote).elections
    (VotingState.run oneSeat oneVote).options 8 = some firstVote ∧ LegalOptions s firstVote ∧
      (∀ v ∈ firstVote.votes, v.number < s.nextAvailableVoteId.toNat) ∧
      ∀ w ∈ s.workers, w.voteAgainst ∉ firstVote.votes :=
  ⟨rfl, legal_of_run oneSeat oneVote (by decide)
    (by simp [oneVote, VotingEvent.Late, hardforkCore143Time]) 8 rfl⟩

end KarmaCore.Votes
