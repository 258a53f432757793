import Mathlib
import KarmaCore.Votes.WitnessCount

/-!
# The tally over many maintenances

Each completed tally is kept with the buffers it started from.  The buffers are empty
as long as every maintenance counts all accounts.
-/

namespace KarmaCore.Votes

open Market (MarketState)

section event

variable {event : MaintenanceEvent} {b b' : VoteBuffers} {ballots : List Ballot} {s' : MarketState}

theorem performAccountMaintenance_of_castBallots {p : VoteProperties} {ids : List AccountId}
    {s : MarketState} (h : castBallots p ids s = .ok ballots) : ∃ s',
      performAccountMaintenance p ids s b = (ballots.foldl (VoteBuffers.count p) b, .ok s') := by
  induction ids generalizing s b ballots with
  | nil =>
      obtain rfl := Except.ok.inj h
      exact ⟨s, rfl⟩
  | cons id ids ih =>
      simp only [castBallots, Checked.bind_eq_ok, Checked.pure_eq_ok] at h
      obtain ⟨ballot, hballot, s₁, hfees, rest, hrest, rfl⟩ := h
      have htally : tally p id s b = .ok (ballot.toList.foldl (VoteBuffers.count p) b) := by
        rw [tally, hballot]
        cases ballot <;> rfl
      obtain ⟨s', hs'⟩ := @ih (ballot.toList.foldl (VoteBuffers.count p) b) rest s₁ hrest
      refine ⟨s', ?_⟩
      rw [performAccountMaintenance, htally]
      simp only [hfees, hs', List.foldl_append]

theorem tallied_of_ballots (h : event.ballots = .ok ballots) : ∃ s', tallied b event =
    (ballots.foldl (VoteBuffers.count event.properties) (b.resized event.properties), .ok s') :=
  performAccountMaintenance_of_castBallots h

/-- The promise is kept exactly where the buffers a maintenance starts from are right. -/
theorem votesMeet_iff (hballots : event.ballots = .ok ballots)
    (hsupply : stakeOf (fun _ ↦ True) ballots < 2 ^ 63) :
    VotesMeet event.properties ballots (tallied b event).1 ↔
      CountsRight event.properties ballots b := by
  obtain ⟨s', hs'⟩ := @tallied_of_ballots event b ballots hballots
  have hb' : (tallied b event).1 =
      ballots.foldl (VoteBuffers.count event.properties) (b.resized event.properties) := by
    rw [hs']
  have hlength : (tallied b event).1.witnessCountHistogram.length =
      event.properties.maximumWitnessCount / 2 + 1 := by
    rw [hb', length_histogram_count]
    exact length_resize _ _
  have htotal : (tallied b event).1.totalVotingStake =
      UInt64.ofNat (stakeOf (fun _ ↦ True) ballots) := by
    rw [hb', totalVotingStake_count]
    exact zero_add _
  constructor
  · intro h
    exact ⟨(tally_iff hsupply hb').mp h.tally, (histogram_iff hsupply hb').mp h.histogram,
      (count_iff hsupply hlength htotal h.histogram).mp h.count⟩
  · intro h
    have hhistogram := (histogram_iff hsupply hb').mpr h.histogram
    exact ⟨(tally_iff hsupply hb').mpr h.tally, hhistogram,
      (count_iff hsupply hlength htotal hhistogram).mpr h.decided⟩

/-- From empty buffers only the preferences above the maximum and a single share can go wrong. -/
theorem countsRight_of_empty {p : VoteProperties} (htally : b.voteTally = [])
    (hhistogram : b.witnessCountHistogram = []) : CountsRight p ballots b ↔
      stakeOf (p.maximumWitnessCount < ·.opinion.numWitness) ballots = 0 ∧
        stakeOf (fun ballot ↦ 1 ≤ pairs p ballot) ballots ≠ 1 := by
  constructor
  · rintro ⟨-, hhist, hdecided⟩
    have hlast := hhist _ le_rfl
    rw [if_pos rfl, hhistogram] at hlast
    exact ⟨hlast.symm, hdecided⟩
  · rintro ⟨habove, hdecided⟩
    refine ⟨fun _ _ ↦ by rw [htally]; rfl, fun k _ ↦ ?_, hdecided⟩
    rw [hhistogram, habove, ite_self]
    rfl

end event

/-! ## Runs -/

/-- A tally that went through all accounts. -/
structure CompletedTally where
  properties : VoteProperties
  ballots : List Ballot
  before : VoteBuffers
  after : VoteBuffers

/-- The buffers, and a history of the completed tallies that no function reads. -/
structure VoteState where
  buffers : VoteBuffers
  history : List CompletedTally

namespace VoteState

variable {s : VoteState} {event : MaintenanceEvent}

def initial : VoteState := ⟨⟨[], [], [], 0⟩, []⟩

def step (s : VoteState) (event : MaintenanceEvent) : VoteState where
  buffers := maintenance s.buffers event
  history :=
    match event.ballots with
    | .ok ballots =>
        ⟨event.properties, ballots, s.buffers, (tallied s.buffers event).1⟩ :: s.history
    | .error _ => s.history

/-- The stakes are shares of the core supply. -/
def StakesFit (_ : VoteState) (event : MaintenanceEvent) : Prop :=
  ∀ ballots, event.ballots = .ok ballots → stakeOf (fun _ ↦ True) ballots < 2 ^ 63

/-- In every run each completed tally keeps the promise exactly where it starts from buffers that
are right. -/
theorem votesMeet_iff_of_reaches (hs : Run.Reaches step StakesFit initial s) :
    ∀ t ∈ s.history, VotesMeet t.properties t.ballots t.after ↔
      CountsRight t.properties t.ballots t.before := by
  refine hs.invariant (fun s ↦ ∀ t ∈ s.history, VotesMeet t.properties t.ballots t.after ↔
    CountsRight t.properties t.ballots t.before) (fun t ht ↦ absurd ht List.not_mem_nil) ?_
  intro s event hhistory hfit t ht
  unfold step at ht
  cases hballots : event.ballots with
  | error e =>
      simp only [hballots] at ht
      exact hhistory t ht
  | ok ballots =>
      simp only [hballots, List.mem_cons] at ht
      rcases ht with rfl | ht
      · exact votesMeet_iff hballots (hfit ballots hballots)
      · exact hhistory t ht

/-! Two voters, of whom the second lets the first decide. -/

def votingMarket : MarketState where
  balances := [⟨10, 0, 1000⟩, ⟨11, 0, 600⟩]
  accounts := ⟨12, [(10, {}), (11, {})], Market.sorted_twoAccounts, Market.fresh_twoAccounts⟩
  headBlockTime := 1600000000

def votingProperties (numWitness : ℕ) : VoteProperties where
  maximumWitnessCount := 21
  nextAvailableVoteId := 3
  options id :=
    if id = 10 then { numWitness, votes := [1, 2] } else { votingAccount := 10 }

def vote (numWitness : ℕ) : MaintenanceEvent :=
  ⟨votingProperties numWitness, [10, 11], votingMarket⟩

def bothBallots (numWitness : ℕ) : List Ballot :=
  [⟨1000, { numWitness, votes := [1, 2] }⟩, ⟨600, { numWitness, votes := [1, 2] }⟩]

theorem ballots_vote (numWitness : ℕ) : (vote numWitness).ballots = .ok (bothBallots numWitness) := by
  have hfirst : castBallot (votingProperties numWitness) 10 votingMarket =
      .ok (some ⟨1000, { numWitness, votes := [1, 2] }⟩) := rfl
  have hsecond : castBallot (votingProperties numWitness) 11 votingMarket =
      .ok (some ⟨600, { numWitness, votes := [1, 2] }⟩) := rfl
  have hfees : ∀ id ∈ [10, 11], votingMarket.processFees id = .ok votingMarket := by
    intro id hid
    fin_cases hid <;> rfl
  simp only [MaintenanceEvent.ballots, vote, castBallots, Checked.bind_eq_ok, Checked.pure_eq_ok]
  exact ⟨_, hfirst, _, hfees 10 (by decide), _,
    ⟨_, hsecond, _, hfees 11 (by decide), _, rfl, rfl⟩, rfl⟩

theorem stakesFit_vote (numWitness : ℕ) : StakesFit initial (vote numWitness) := by
  intro ballots hballots
  obtain rfl := Except.ok.inj ((ballots_vote numWitness).symm.trans hballots)
  have hstakes : stakeOf (fun _ ↦ True) (bothBallots numWitness) = 1600 := rfl
  omega

theorem votesMeet_eleven : ∃ t ∈ (initial.step (vote 11)).history, t.ballots = bothBallots 11 ∧
    VotesMeet t.properties t.ballots t.after := by
  have hreach : Run.Reaches step StakesFit initial (initial.step (vote 11)) :=
    .next _ .refl (stakesFit_vote 11)
  have hright : CountsRight (votingProperties 11) (bothBallots 11) initial.buffers :=
    (countsRight_of_empty rfl rfl).mpr ⟨by decide, by decide⟩
  have hmem : (⟨votingProperties 11, bothBallots 11, initial.buffers,
      (tallied initial.buffers (vote 11)).1⟩ : CompletedTally) ∈ (initial.step (vote 11)).history :=
    List.mem_singleton.mpr rfl
  exact ⟨_, hmem, rfl, (votesMeet_iff_of_reaches hreach _ hmem).mpr hright⟩

/-- Who asked for more witnesses than the lowered maximum is missing from the histogram. -/
theorem not_votesMeet_above : ∃ t ∈ (initial.step (vote 23)).history,
    Run.Reaches step StakesFit initial (initial.step (vote 23)) ∧
      ¬VotesMeet t.properties t.ballots t.after := by
  refine ⟨⟨votingProperties 23, bothBallots 23, initial.buffers,
    (tallied initial.buffers (vote 23)).1⟩, List.mem_singleton.mpr rfl,
    .next _ .refl (stakesFit_vote 23), fun h ↦ ?_⟩
  have hlast := h.histogram 10 le_rfl
  exact absurd hlast (by decide)

/-- Every account of every maintenance is counted. -/
def AllCounted (_ : VoteState) (event : MaintenanceEvent) : Prop :=
  ∃ ballots, event.ballots = .ok ballots

/-- Where no maintenance fails while it counts, the buffers are empty in between. -/
theorem buffers_of_reaches (hs : Run.Reaches step AllCounted initial s) :
    s.buffers.voteTally = [] ∧ s.buffers.witnessCountHistogram = [] := by
  refine hs.invariant (fun s ↦ s.buffers.voteTally = [] ∧ s.buffers.witnessCountHistogram = [])
    ⟨rfl, rfl⟩ ?_
  rintro s event - ⟨ballots, hballots⟩
  obtain ⟨s', hs'⟩ := @tallied_of_ballots event s.buffers ballots hballots
  simp only [step, maintenance, hs']
  exact ⟨rfl, rfl⟩

end VoteState

end KarmaCore.Votes
