import Mathlib
import KarmaCore.Votes.ElectionRun

/-!
# Who is elected

The active witnesses and committee members are the candidates with the most votes, and the
authorities of their accounts need more than half of the weights they are made of.
-/

namespace KarmaCore.Votes

open Authorities (Authority Fair Added listed fair_finish VoteCounter)
open Elections

/-! ## The numbers of seats -/

theorem countPairs_le {stakeTarget stakeTally : ℤ} {histogram : List UInt64} {count n : ℕ}
    (h : countPairs stakeTarget histogram stakeTally count = .ok n) :
    n ≤ count + histogram.length := by
  induction histogram generalizing stakeTally count with
  | nil =>
      obtain rfl := Except.ok.inj h
      exact Nat.le_add_right _ _
  | cons stake histogram ih =>
      rw [countPairs] at h
      split_ifs at h
      · obtain ⟨tally, -, hrest⟩ := Checked.bind_eq_ok.mp h
        have := ih hrest
        rw [List.length_cons]
        omega
      · obtain rfl := Except.ok.inj h
        exact Nat.le_add_right _ _

theorem witnessCount_lt {b : VoteBuffers} {n : ℕ} (h : witnessCount b = .ok n) :
    n < b.witnessCountHistogram.length := by
  obtain ⟨_, hrequire, hcount⟩ := Checked.bind_eq_ok.mp h
  have hsome := List.length_pos_iff.mpr (require_eq_ok.mp hrequire)
  dsimp only at hcount
  split_ifs at hcount
  · have := countPairs_le hcount
    rw [List.length_tail] at this
    omega
  · obtain rfl := Except.ok.inj hcount
    exact hsome

namespace VoteBuffers

variable {b : VoteBuffers} {headBlockTime n : ℕ}

theorem countMembers_le (stakeTarget : ℤ) (histogram : List UInt64) (stakeTally : UInt64)
    (count : ℕ) : countMembers stakeTarget histogram stakeTally count ≤ count + histogram.length := by
  induction histogram generalizing stakeTally count with
  | nil => exact le_rfl
  | cons stake histogram ih =>
      rw [countMembers]
      split_ifs
      · have := ih (stakeTally + stake) (count + 1)
        rw [List.length_cons]
        omega
      · exact Nat.le_add_right _ _

theorem committeeMemberCount_lt (h : b.committeeMemberCount headBlockTime = .ok n) :
    n < b.committeeCountHistogram.length := by
  obtain ⟨_, hrequire, hcount⟩ := Checked.bind_eq_ok.mp h
  have hsome := List.length_pos_iff.mpr (require_eq_ok.mp hrequire)
  have htail : ∀ stakeTarget : ℤ,
      countMembers stakeTarget b.committeeCountHistogram.tail 0 0 <
        b.committeeCountHistogram.length := by
    intro stakeTarget
    have := countMembers_le stakeTarget b.committeeCountHistogram.tail 0 0
    rw [List.length_tail] at this
    omega
  obtain rfl := Except.ok.inj hcount
  split_ifs
  all_goals first | exact htail _ | exact hsome

/-! ## The ranking -/

theorem signedVotes_eq (hsigned : ∀ stake ∈ b.voteTally, stake.toNat < 2 ^ 63) (v : VoteId) :
    b.signedVotes v = (b.votes v).toNat := by
  apply signed_of_lt
  rw [votes, List.getD_eq_getElem?_getD]
  cases hv : b.voteTally[v.number]? with
  | none => decide
  | some stake => exact hsigned stake (List.mem_of_getElem? hv)

instance (b : VoteBuffers) : Std.Total b.Ranks := by
  refine ⟨fun v w ↦ ?_⟩
  unfold Ranks
  omega

instance (b : VoteBuffers) : IsTrans Votable b.Ranks := by
  refine ⟨fun u v w huv hvw ↦ ?_⟩
  unfold Ranks at huv hvw ⊢
  omega

/-- As many candidates as there are seats have more votes than the others, or as many and
lower ids. -/
structure Elected (b : VoteBuffers) (seats : ℕ) (candidates elected : List Votable) : Prop where
  stood : ∀ v ∈ elected, v ∈ candidates
  ids : (elected.map Votable.id).Nodup
  length_eq : elected.length = min seats candidates.length
  most : ∀ v ∈ elected, ∀ w ∈ candidates, w ∉ elected → b.votes w.voteId < b.votes v.voteId ∨
    b.votes v.voteId = b.votes w.voteId ∧ v.voteId.number < w.voteId.number

/-- An authority whose accounts have votes is made of those, and it stays as it was when nobody
has votes. -/
structure Represents (entries : List (AccountId × ℕ)) (before after : Authority) : Prop where
  unchanged : listed entries = [] → after = before
  fair : listed entries ≠ [] → Fair entries after

section sorting

variable {all : List Votable} {seats : ℕ}

theorem isTop_sortVotableObjects (b : VoteBuffers) (seats : ℕ) (all : List Votable) :
    TopRanked.IsTop b.Ranks (min seats all.length) all (b.sortVotableObjects seats all) :=
  TopRanked.isTop_top _ all

theorem elected_sortVotableObjects (hsigned : ∀ stake ∈ b.voteTally, stake.toNat < 2 ^ 63)
    (hids : (all.map Votable.id).Nodup) (hnumbers : (all.map (·.voteId.number)).Nodup) :
    Elected b seats all (b.sortVotableObjects seats all) := by
  have htop := isTop_sortVotableObjects b seats all
  refine ⟨fun v hv ↦ htop.mem hv, htop.nodup_map hids, ?_, ?_⟩
  · rw [htop.length_eq, min_assoc, min_self]
  · intro v hv w hw hout
    have hrank := htop.before v hv w hw hout
    rw [Ranks, signedVotes_eq hsigned, signedVotes_eq hsigned] at hrank
    rcases hrank with hmore | ⟨hsame, hle⟩
    · exact .inl (UInt64.lt_iff_toNat_lt.mpr (by exact_mod_cast hmore))
    · refine .inr ⟨UInt64.toNat_inj.mp (by exact_mod_cast hsame), lt_of_le_of_ne hle ?_⟩
      intro hnumber
      exact hout (List.inj_on_of_nodup_map hnumbers (htop.mem hv) hw hnumber ▸ hv)

theorem represents_finish (hsigned : ∀ stake ∈ b.voteTally, stake.toNat < 2 ^ 63)
    (haccounts : (all.map Votable.account).Nodup) (hseats : seats < 2 ^ 16)
    (before : Authority) :
    Represents (b.counted (b.sortVotableObjects seats all)) before
      ((VoteCounter.addAll {} (b.counted (b.sortVotableObjects seats all))).finish before) := by
  have htop := isTop_sortVotableObjects b seats all
  have hadded : Added (b.counted (b.sortVotableObjects seats all)) := by
    refine ⟨?_, ?_, ?_, ?_⟩
    · refine List.pairwise_map.mpr (htop.ranked.imp fun {v w} hrank ↦ ?_)
      rw [Ranks, signedVotes_eq hsigned, signedVotes_eq hsigned] at hrank
      change (b.votes w.voteId).toNat ≤ (b.votes v.voteId).toNat
      omega
    · intro entry hentry
      obtain ⟨v, -, rfl⟩ := List.mem_map.mp hentry
      exact (b.votes v.voteId).toNat_lt
    · rw [counted, List.map_map]
      exact htop.nodup_map haccounts
    · rw [counted, List.length_map, htop.length_eq]
      omega
  exact ⟨(fair_finish hadded before).1, (fair_finish hadded before).2⟩

end sorting

end VoteBuffers

/-- Different accounts with different ids are on a list of the roll. -/
theorem nodup_of_listed {objects : List Votable}
    (h : Roll.Listed (objects.map Votable.candidate)) :
    (objects.map Votable.id).Nodup ∧ (objects.map Votable.account).Nodup := by
  have hids := h.ids
  have haccounts := h.accounts
  rw [List.map_map] at hids haccounts
  exact ⟨(congrArg List.Nodup hids).mpr List.nodup_range, haccounts⟩

open VoteBuffers

/-- Two witnesses stand for one seat, and a committee member for another. -/
def threeCandidates : List ElectionEvent :=
  [.witnessCreate 7 true, .witnessCreate 8 true, .committeeMemberCreate 9 true]

def oneSeat : ImmutableChainParameters := ⟨1, 1⟩

/-- The second witness has twice the votes, and nobody says how many there should be. -/
def countedVotes : VoteBuffers := ⟨[10, 20, 5], [35], [35], 35⟩

def afterElection : Elections :=
  match (run oneSeat threeCandidates).elect oneSeat countedVotes 1600000000 with
  | .ok s => s
  | .error _ => {}

end KarmaCore.Votes
