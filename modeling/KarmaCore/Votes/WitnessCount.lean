import Mathlib
import KarmaCore.Lib.Run
import KarmaCore.Votes.VoteTally

/-!
# The tally and the number of witnesses

The buffers after all accounts were counted, as sums over the ballots that were
cast, and the number of witnesses the median stake asks for.
-/

namespace KarmaCore.Votes

open Market (MarketState)

/-! ## Sums of stakes -/

section stakes

variable {P Q : Ballot → Prop} [DecidablePred P] [DecidablePred Q] {ballots : List Ballot}

/-- The stake of the ballots of a kind. -/
def stakeOf (P : Ballot → Prop) [DecidablePred P] (ballots : List Ballot) : ℕ :=
  (ballots.map fun ballot ↦ if P ballot then ballot.stake.toNat else 0).sum

theorem stakeOf_cons (ballot : Ballot) : stakeOf P (ballot :: ballots) =
    (if P ballot then ballot.stake.toNat else 0) + stakeOf P ballots := by
  simp [stakeOf]

theorem stakeOf_congr (h : ∀ ballot, P ballot ↔ Q ballot) : stakeOf P ballots = stakeOf Q ballots := by
  unfold stakeOf
  congr 1
  refine List.map_congr_left fun ballot _ ↦ ?_
  simp only [h]

theorem stakeOf_add (h : ∀ ballot, ¬(P ballot ∧ Q ballot)) :
    stakeOf (fun ballot ↦ P ballot ∨ Q ballot) ballots = stakeOf P ballots + stakeOf Q ballots := by
  unfold stakeOf
  rw [← List.sum_map_add]
  congr 1
  refine List.map_congr_left fun ballot _ ↦ ?_
  have hnot := h ballot
  by_cases hP : P ballot <;> by_cases hQ : Q ballot <;> simp_all

theorem stakeOf_le (h : ∀ ballot, P ballot → Q ballot) : stakeOf P ballots ≤ stakeOf Q ballots := by
  refine List.sum_le_sum fun ballot _ ↦ ?_
  split_ifs with hP hQ hQ
  · exact le_rfl
  · exact absurd (h ballot hP) hQ
  · exact Nat.zero_le _
  · exact le_rfl

end stakes

/-! ## Single entries -/

theorem getElem?_resize (n i : ℕ) (l : List UInt64) :
    (resize n l)[i]? = if i < n then some (l.getD i 0) else none := by
  unfold resize
  rw [List.getElem?_append, List.getElem?_take, List.getElem?_replicate, List.length_take,
    List.getD_eq_getElem?_getD]
  split_ifs with hboth hi hlt hi
  · rw [List.getElem?_eq_getElem (by omega), Option.getD_some]
  · omega
  · rw [List.getElem?_eq_none (by omega), Option.getD_none]
  · omega
  · omega
  · rfl

theorem length_resize (n : ℕ) (l : List UInt64) : (resize n l).length = n := by
  simp only [resize, List.length_append, List.length_take, List.length_replicate]
  omega

theorem getElem?_addVotes (stake : UInt64) {votes : List ℕ} (hvotes : votes.Nodup) (i : ℕ)
    (tally : List UInt64) : (addVotes stake votes tally)[i]? =
      tally[i]?.map (· + if i ∈ votes then stake else 0) := by
  induction votes generalizing tally with
  | nil => simp [addVotes]
  | cons offset votes ih =>
      obtain ⟨hnew, hrest⟩ := List.nodup_cons.mp hvotes
      have hadded : (if offset < tally.length then tally.modify offset (· + stake) else tally)[i]? =
          tally[i]?.map (· + if offset = i then stake else 0) := by
        split_ifs with hlegal hi hi
        · rw [List.getElem?_modify, hi]
          simp
        · rw [List.getElem?_modify]
          simp [hi]
        · rw [List.getElem?_eq_none (by omega)]
          rfl
        · simp
      rw [addVotes, ih hrest, hadded, Option.map_map]
      congr 1
      funext x
      by_cases hi : offset = i
      · subst hi
        simp [hnew]
      · simp [hi, Ne.symm hi]

theorem getElem?_addPreference (stake : UInt64) (preference maximum i : ℕ) (histogram : List UInt64) :
    (addPreference stake preference maximum histogram)[i]? = histogram[i]?.map (· +
      if preference ≤ maximum ∧ min (preference / 2) (histogram.length - 1) = i then stake else 0) := by
  unfold addPreference
  split_ifs with hmaximum hi hi
  · rw [List.getElem?_modify, hi.2]
    simp
  · have hother : min (preference / 2) (histogram.length - 1) ≠ i := fun heq ↦ hi ⟨hmaximum, heq⟩
    rw [List.getElem?_modify]
    simp [hother]
  · exact absurd hi.1 hmaximum
  · simp

theorem length_addPreference (stake : UInt64) (preference maximum : ℕ) (histogram : List UInt64) :
    (addPreference stake preference maximum histogram).length = histogram.length := by
  unfold addPreference
  split_ifs
  · exact List.length_modify _ _ _
  · rfl

/-! ## All ballots -/

/-- The ballots that are cast as the loop goes through the accounts. -/
def castBallots (p : VoteProperties) : List AccountId → MarketState → Checked (List Ballot)
  | [], _ => .ok []
  | id :: ids, s => do
      let ballot ← castBallot p id s
      let s ← s.processFees id
      let ballots ← castBallots p ids s
      return ballot.toList ++ ballots

def MaintenanceEvent.ballots (event : MaintenanceEvent) : Checked (List Ballot) :=
  castBallots event.properties event.accounts event.market

section counting

variable {p : VoteProperties} {ids : List AccountId} {s s' : MarketState} {b b' : VoteBuffers}
  {ballots : List Ballot}

theorem castBallots_of_ok (h : performAccountMaintenance p ids s b = (b', .ok s')) :
    ∃ ballots, castBallots p ids s = .ok ballots ∧ b' = ballots.foldl (VoteBuffers.count p) b := by
  induction ids generalizing s b with
  | nil =>
      obtain ⟨rfl, -⟩ := Prod.mk.inj h
      exact ⟨[], rfl, rfl⟩
  | cons id ids ih =>
      rw [performAccountMaintenance] at h
      split at h
      · cases h
      · next b₁ htally =>
          split at h
          · cases h
          · next s₁ hfees =>
              obtain ⟨ballots, hballots, rfl⟩ := ih h
              simp only [tally, Checked.bind_eq_ok] at htally
              obtain ⟨ballot, hballot, htally⟩ := htally
              refine ⟨ballot.toList ++ ballots, ?_, ?_⟩
              · simp only [castBallots, Checked.bind_eq_ok, Checked.pure_eq_ok]
                exact ⟨ballot, hballot, s₁, hfees, ballots, hballots, rfl⟩
              · cases ballot with
                | none =>
                    obtain rfl := Checked.pure_eq_ok.mp htally
                    rfl
                | some ballot =>
                    obtain rfl := Checked.pure_eq_ok.mp htally
                    rfl

theorem ofNat_stakeOf_cons (P : Ballot → Prop) [DecidablePred P] (ballot : Ballot) :
    UInt64.ofNat (stakeOf P (ballot :: ballots)) =
      (if P ballot then ballot.stake else 0) + UInt64.ofNat (stakeOf P ballots) := by
  rw [stakeOf_cons, UInt64.ofNat_add]
  split_ifs
  · rw [UInt64.ofNat_toNat]
  · rfl

theorem voteTally_count (i : ℕ) : (ballots.foldl (VoteBuffers.count p) b).voteTally[i]? =
    b.voteTally[i]?.map (· + UInt64.ofNat (stakeOf (i ∈ ·.opinion.votes) ballots)) := by
  induction ballots generalizing b with
  | nil => simp [stakeOf]
  | cons ballot ballots ih =>
      rw [List.foldl_cons, ih, ofNat_stakeOf_cons]
      simp only [VoteBuffers.count]
      rw [getElem?_addVotes _ ballot.opinion.nodup, Option.map_map]
      congr 1
      funext x
      exact add_assoc _ _ _

theorem length_histogram_count : (ballots.foldl (VoteBuffers.count p) b).witnessCountHistogram.length =
    b.witnessCountHistogram.length := by
  induction ballots generalizing b with
  | nil => rfl
  | cons ballot ballots ih =>
      rw [List.foldl_cons, ih]
      exact length_addPreference _ _ _ _

theorem histogram_count (i : ℕ) :
    (ballots.foldl (VoteBuffers.count p) b).witnessCountHistogram[i]? =
      b.witnessCountHistogram[i]?.map (· + UInt64.ofNat (stakeOf (fun ballot ↦
        ballot.opinion.numWitness ≤ p.maximumWitnessCount ∧
          min (ballot.opinion.numWitness / 2) (b.witnessCountHistogram.length - 1) = i) ballots)) := by
  induction ballots generalizing b with
  | nil => simp [stakeOf]
  | cons ballot ballots ih =>
      rw [List.foldl_cons, ih, ofNat_stakeOf_cons]
      simp only [VoteBuffers.count, length_addPreference]
      rw [getElem?_addPreference, Option.map_map]
      congr 1
      funext x
      exact add_assoc _ _ _

theorem totalVotingStake_count : (ballots.foldl (VoteBuffers.count p) b).totalVotingStake =
    b.totalVotingStake + UInt64.ofNat (stakeOf (fun _ ↦ True) ballots) := by
  induction ballots generalizing b with
  | nil => simp [stakeOf]
  | cons ballot ballots ih =>
      rw [List.foldl_cons, ih, ofNat_stakeOf_cons, if_pos trivial]
      exact add_assoc _ _ _

end counting

/-! ## The loop over the histogram -/

/-- The sum of the first stakes of a histogram. -/
def firstStakes (n : ℕ) (histogram : List UInt64) : ℕ := ((histogram.take n).map UInt64.toNat).sum

theorem signed_of_lt {x : UInt64} (h : x.toNat < 2 ^ 63) : (x.toNat : ℤ).bmod (2 ^ 64) = x.toNat := by
  refine Int.bmod_eq_of_le ?_ ?_ <;> omega

/-- The loop stops at the first entry up to which the stakes exceed the target, or at the end. -/
theorem countPairs_spec {stakeTarget stakeTally : ℤ} {histogram : List UInt64} {count : ℕ}
    (hnonneg : 0 ≤ stakeTally)
    (hsum : stakeTally + firstStakes histogram.length histogram < 2 ^ 63) :
    ∃ n ≤ histogram.length, countPairs stakeTarget histogram stakeTally count = .ok (count + n) ∧
      (∀ j < n, stakeTally + firstStakes j histogram ≤ stakeTarget) ∧
      (n < histogram.length → stakeTarget < stakeTally + firstStakes n histogram) := by
  induction histogram generalizing stakeTally count with
  | nil => exact ⟨0, le_rfl, rfl, by simp, by simp⟩
  | cons stake histogram ih =>
      have hfirst : ∀ j, firstStakes (j + 1) (stake :: histogram) =
          stake.toNat + firstStakes j histogram := fun j ↦ by
        simp [firstStakes]
      rw [List.length_cons, hfirst] at hsum
      push_cast at hsum
      unfold countPairs
      split_ifs with hgoOn
      · have hstake : (stake.toNat : ℤ).bmod (2 ^ 64) = stake.toNat := signed_of_lt (by omega)
        have hchecked : checkedShare (stakeTally + (stake.toNat : ℤ).bmod (2 ^ 64)) =
            .ok (stakeTally + stake.toNat) := by
          rw [hstake, checkedShare_eq_ok]
          exact ⟨⟨by unfold shareMin; omega, by unfold shareEnd; omega⟩, rfl⟩
        obtain ⟨n, hn, hcount, hbefore, hafter⟩ := @ih (stakeTally + stake.toNat)
          (count + 1) (by omega) (by omega)
        refine ⟨n + 1, Nat.succ_le_succ hn, ?_, fun j hj ↦ ?_, fun hlt ↦ ?_⟩
        · rw [hchecked]
          exact hcount.trans (by rw [add_assoc, add_comm 1])
        · cases j with
          | zero => simpa [firstStakes] using hgoOn
          | succ j =>
              rw [hfirst]
              have := hbefore j (Nat.lt_of_succ_lt_succ hj)
              push_cast
              omega
        · rw [hfirst]
          have := hafter (Nat.lt_of_succ_lt_succ hlt)
          push_cast
          omega
      · refine ⟨0, Nat.zero_le _, rfl, by simp, fun _ ↦ ?_⟩
        simpa [firstStakes] using hgoOn

/-! ## What the tally promises -/

/-- The pairs of witnesses a ballot asks for, where more than the maximum is the maximum. -/
def pairs (p : VoteProperties) (ballot : Ballot) : ℕ :=
  min ballot.opinion.numWitness p.maximumWitnessCount / 2

/-- The ballots for at most `k` pairs have more than half of the stake that expresses a
preference. -/
def Majority (p : VoteProperties) (ballots : List Ballot) (k : ℕ) : Prop :=
  stakeOf (fun ballot ↦ 1 ≤ pairs p ballot) ballots <
    2 * stakeOf (fun ballot ↦ 1 ≤ pairs p ballot ∧ pairs p ballot ≤ k) ballots

/-- Every vote has the stake behind it, every stake is counted once in the histogram, and the
number of witnesses is the least one with a majority for it. -/
structure VotesMeet (p : VoteProperties) (ballots : List Ballot) (b : VoteBuffers) : Prop where
  tally : ∀ id < p.nextAvailableVoteId,
    b.voteTally[id]?.map UInt64.toNat = some (stakeOf (id ∈ ·.opinion.votes) ballots)
  histogram : ∀ k ≤ p.maximumWitnessCount / 2,
    b.witnessCountHistogram[k]?.map UInt64.toNat = some (stakeOf (pairs p · = k) ballots)
  count : ∀ k, IsLeast {k | Majority p ballots k} k → witnessCount b = .ok k

/-- Nothing is left in the buffers from a maintenance before, but for what stands for the
preferences above the maximum, and more or less than one share expresses a preference. -/
structure CountsRight (p : VoteProperties) (ballots : List Ballot) (b : VoteBuffers) : Prop where
  tally : ∀ id < p.nextAvailableVoteId, b.voteTally.getD id 0 = 0
  histogram : ∀ k ≤ p.maximumWitnessCount / 2, (b.witnessCountHistogram.getD k 0).toNat =
    if k = p.maximumWitnessCount / 2 then
      stakeOf (p.maximumWitnessCount < ·.opinion.numWitness) ballots
    else 0
  decided : stakeOf (fun ballot ↦ 1 ≤ pairs p ballot) ballots ≠ 1

section meeting

variable {p : VoteProperties} {b b' : VoteBuffers} {ballots : List Ballot}

theorem toNat_add_ofNat_iff {x : UInt64} {n : ℕ} (hn : n < 2 ^ 63) {m : ℕ} (hm : m < 2 ^ 63) :
    (x + UInt64.ofNat n).toNat = n + m ↔ x.toNat = m := by
  have hx := x.toNat_lt
  rw [UInt64.toNat_add, UInt64.toNat_ofNat']
  omega

theorem stakeOf_le_all (P : Ballot → Prop) [DecidablePred P] :
    stakeOf P ballots ≤ stakeOf (fun _ ↦ True) ballots := stakeOf_le fun _ _ ↦ trivial

/-- The tally is right exactly where it started from nothing. -/
theorem tally_iff (hsupply : stakeOf (fun _ ↦ True) ballots < 2 ^ 63)
    (hb' : b' = ballots.foldl (VoteBuffers.count p) (b.resized p)) :
    (∀ id < p.nextAvailableVoteId,
      b'.voteTally[id]?.map UInt64.toNat = some (stakeOf (id ∈ ·.opinion.votes) ballots)) ↔
    ∀ id < p.nextAvailableVoteId, b.voteTally.getD id 0 = 0 := by
  refine forall_congr' fun id ↦ forall_congr' fun hid ↦ ?_
  have hlt : stakeOf (fun ballot ↦ id ∈ ballot.opinion.votes) ballots < 2 ^ 63 :=
    (stakeOf_le_all _).trans_lt hsupply
  rw [hb', voteTally_count, VoteBuffers.resized, getElem?_resize, if_pos hid, Option.map_some,
    Option.map_some, Option.some_inj]
  refine (toNat_add_ofNat_iff hlt (m := 0) (by decide)).trans ?_
  rw [← UInt64.toNat_inj]
  rfl

/-- Preferences above the maximum miss in the last entry of the histogram. -/
theorem stakeOf_pairs (k : ℕ) : stakeOf (pairs p · = k) ballots =
    stakeOf (fun ballot ↦ ballot.opinion.numWitness ≤ p.maximumWitnessCount ∧
      ballot.opinion.numWitness / 2 = k) ballots +
    if k = p.maximumWitnessCount / 2 then
      stakeOf (p.maximumWitnessCount < ·.opinion.numWitness) ballots
    else 0 := by
  have habove : stakeOf (fun ballot ↦ p.maximumWitnessCount < ballot.opinion.numWitness ∧
      k = p.maximumWitnessCount / 2) ballots = if k = p.maximumWitnessCount / 2 then
        stakeOf (p.maximumWitnessCount < ·.opinion.numWitness) ballots else 0 := by
    split_ifs with hlast
    · exact stakeOf_congr fun ballot ↦ and_iff_left hlast
    · simp [stakeOf, hlast]
  rw [← habove, ← stakeOf_add fun ballot ↦ by omega]
  refine stakeOf_congr fun ballot ↦ ?_
  unfold pairs
  rcases le_or_gt ballot.opinion.numWitness p.maximumWitnessCount with hle | hlt
  · rw [min_eq_left hle]
    omega
  · rw [min_eq_right hlt.le]
    omega

theorem histogram_iff (hsupply : stakeOf (fun _ ↦ True) ballots < 2 ^ 63)
    (hb' : b' = ballots.foldl (VoteBuffers.count p) (b.resized p)) :
    (∀ k ≤ p.maximumWitnessCount / 2,
      b'.witnessCountHistogram[k]?.map UInt64.toNat = some (stakeOf (pairs p · = k) ballots)) ↔
    ∀ k ≤ p.maximumWitnessCount / 2, (b.witnessCountHistogram.getD k 0).toNat =
      if k = p.maximumWitnessCount / 2 then
        stakeOf (p.maximumWitnessCount < ·.opinion.numWitness) ballots
      else 0 := by
  refine forall_congr' fun k ↦ forall_congr' fun hk ↦ ?_
  have hcounted : stakeOf (fun ballot ↦ ballot.opinion.numWitness ≤ p.maximumWitnessCount ∧
      min (ballot.opinion.numWitness / 2) (p.maximumWitnessCount / 2 + 1 - 1) = k) ballots =
      stakeOf (fun ballot ↦ ballot.opinion.numWitness ≤ p.maximumWitnessCount ∧
        ballot.opinion.numWitness / 2 = k) ballots := stakeOf_congr fun ballot ↦ by omega
  have hlt : stakeOf (fun ballot ↦ ballot.opinion.numWitness ≤ p.maximumWitnessCount ∧
      ballot.opinion.numWitness / 2 = k) ballots < 2 ^ 63 := (stakeOf_le_all _).trans_lt hsupply
  have hlt' : (if k = p.maximumWitnessCount / 2 then
      stakeOf (p.maximumWitnessCount < ·.opinion.numWitness) ballots else 0) < 2 ^ 63 := by
    split_ifs
    · exact (stakeOf_le_all _).trans_lt hsupply
    · decide
  rw [hb', histogram_count, VoteBuffers.resized, length_resize, getElem?_resize,
    if_pos (Nat.lt_succ_of_le hk), Option.map_some, Option.map_some, Option.some_inj, hcounted,
    stakeOf_pairs]
  exact toNat_add_ofNat_iff hlt hlt'

/-! ## The number of witnesses -/

theorem firstStakes_succ (n : ℕ) (histogram : List UInt64) :
    firstStakes (n + 1) histogram =
      firstStakes n histogram + (histogram[n]?.map UInt64.toNat).getD 0 := by
  unfold firstStakes
  rw [List.take_add_one, List.map_append, List.sum_append]
  cases histogram[n]? <;> simp

theorem stakeOf_none :
    stakeOf (fun ballot ↦ 1 ≤ pairs p ballot ∧ pairs p ballot ≤ 0) ballots = 0 := by
  refine List.sum_eq_zero fun x hx ↦ ?_
  obtain ⟨ballot, -, rfl⟩ := List.mem_map.mp hx
  exact if_neg fun h ↦ by omega

/-- The entries of the histogram from the second to the `n`th are the ballots for up to `n` pairs. -/
theorem firstStakes_tail {histogram : List UInt64}
    (h : ∀ k ≤ p.maximumWitnessCount / 2,
      histogram[k]?.map UInt64.toNat = some (stakeOf (pairs p · = k) ballots))
    {n : ℕ} (hn : n ≤ p.maximumWitnessCount / 2) : firstStakes n histogram.tail =
      stakeOf (fun ballot ↦ 1 ≤ pairs p ballot ∧ pairs p ballot ≤ n) ballots := by
  induction n with
  | zero =>
      rw [stakeOf_none]
      simp [firstStakes]
  | succ n ih =>
      have hentry : (histogram.tail[n]?.map UInt64.toNat).getD 0 =
          stakeOf (pairs p · = n + 1) ballots := by
        rw [List.getElem?_tail, h (n + 1) hn, Option.getD_some]
      rw [firstStakes_succ, ih (Nat.le_of_succ_le hn), hentry,
        ← stakeOf_add fun ballot ↦ by omega]
      exact stakeOf_congr fun ballot ↦ by omega

theorem pairs_le (ballot : Ballot) : pairs p ballot ≤ p.maximumWitnessCount / 2 :=
  Nat.div_le_div_right (min_le_right _ _)

/-- With the right histogram the number of witnesses is the result of the loop over the entries
that express a preference. -/
theorem witnessCount_of_histogram (hsupply : stakeOf (fun _ ↦ True) ballots < 2 ^ 63)
    (hlength : b.witnessCountHistogram.length = p.maximumWitnessCount / 2 + 1)
    (htotal : b.totalVotingStake = UInt64.ofNat (stakeOf (fun _ ↦ True) ballots))
    (h : ∀ k ≤ p.maximumWitnessCount / 2,
      b.witnessCountHistogram[k]?.map UInt64.toNat = some (stakeOf (pairs p · = k) ballots)) :
    witnessCount b =
      if 0 < stakeOf (fun ballot ↦ 1 ≤ pairs p ballot) ballots / 2 then
        countPairs (stakeOf (fun ballot ↦ 1 ≤ pairs p ballot) ballots / 2 : ℕ)
          b.witnessCountHistogram.tail 0 0
      else .ok 0 := by
  have hall : stakeOf (fun _ ↦ True) ballots = stakeOf (pairs p · = 0) ballots +
      stakeOf (fun ballot ↦ 1 ≤ pairs p ballot) ballots := by
    rw [← stakeOf_add fun ballot ↦ by omega]
    exact stakeOf_congr fun ballot ↦ ⟨fun _ ↦ by omega, fun _ ↦ trivial⟩
  have hhead : (b.witnessCountHistogram.headD 0).toNat = stakeOf (pairs p · = 0) ballots := by
    have hfirst := h 0 (Nat.zero_le _)
    cases hist : b.witnessCountHistogram with
    | nil => rw [hist] at hfirst; cases hfirst
    | cons stake rest =>
        rw [hist] at hfirst
        exact Option.some.inj hfirst
  have hne : b.witnessCountHistogram ≠ [] := List.ne_nil_of_length_eq_add_one hlength
  have htotalNat : b.totalVotingStake.toNat = stakeOf (fun _ ↦ True) ballots := by
    rw [htotal, UInt64.toNat_ofNat', Nat.mod_eq_of_lt (by omega)]
  have htarget : ((b.totalVotingStake - b.witnessCountHistogram.headD 0) / 2).toNat =
      stakeOf (fun ballot ↦ 1 ≤ pairs p ballot) ballots / 2 := by
    have hle : b.witnessCountHistogram.headD 0 ≤ b.totalVotingStake := by
      rw [UInt64.le_iff_toNat_le, hhead, htotalNat]
      omega
    rw [UInt64.toNat_div, UInt64.toNat_sub_of_le _ _ hle, hhead, htotalNat, hall,
      Nat.add_sub_cancel_left]
    rfl
  have hrequire : require (b.witnessCountHistogram ≠ [])
      "_witness_count_histogram_buffer.size() > 0" = .ok () := require_eq_ok.mpr hne
  unfold witnessCount
  rw [hrequire]
  simp only [htarget, Nat.cast_pos]
  rfl

/-- With the right histogram the number of witnesses is right unless just one share expresses a
preference. -/
theorem count_iff (hsupply : stakeOf (fun _ ↦ True) ballots < 2 ^ 63)
    (hlength : b.witnessCountHistogram.length = p.maximumWitnessCount / 2 + 1)
    (htotal : b.totalVotingStake = UInt64.ofNat (stakeOf (fun _ ↦ True) ballots))
    (h : ∀ k ≤ p.maximumWitnessCount / 2,
      b.witnessCountHistogram[k]?.map UInt64.toNat = some (stakeOf (pairs p · = k) ballots)) :
    (∀ k, IsLeast {k | Majority p ballots k} k → witnessCount b = .ok k) ↔
      stakeOf (fun ballot ↦ 1 ≤ pairs p ballot) ballots ≠ 1 := by
  set stake := stakeOf (fun ballot ↦ 1 ≤ pairs p ballot) ballots with hstake
  have hcount := witnessCount_of_histogram hsupply hlength htotal h
  rw [← hstake] at hcount
  have hlast : stakeOf (fun ballot ↦ 1 ≤ pairs p ballot ∧
      pairs p ballot ≤ p.maximumWitnessCount / 2) ballots = stake :=
    stakeOf_congr fun ballot ↦ and_iff_left (pairs_le ballot)
  constructor
  · intro hmeets hone
    have hmajority : Majority p ballots (p.maximumWitnessCount / 2) := by
      rw [Majority, hlast, ← hstake]
      omega
    have hleast : ∃ k, IsLeast {k | Majority p ballots k} k := by
      classical
      exact ⟨Nat.find ⟨_, hmajority⟩, Nat.find_spec ⟨_, hmajority⟩, fun _ ↦ Nat.find_min' _⟩
    obtain ⟨k, hk⟩ := hleast
    have hzero := hmeets k hk
    rw [hcount, hone, if_neg (by decide)] at hzero
    obtain rfl := Except.ok.inj hzero
    have hmajority : Majority p ballots 0 := hk.1
    rw [Majority, stakeOf_none, mul_zero] at hmajority
    exact Nat.not_lt_zero _ hmajority
  · intro hone k hk
    have hmajority : Majority p ballots k := hk.1
    have hle : stakeOf (fun ballot ↦ 1 ≤ pairs p ballot ∧ pairs p ballot ≤ k) ballots ≤ stake :=
      stakeOf_le fun ballot ↦ And.left
    rw [Majority, ← hstake] at hmajority
    have hsmall : stake < 2 ^ 63 := (stakeOf_le_all _).trans_lt hsupply
    have hpairs : b.witnessCountHistogram.tail.length = p.maximumWitnessCount / 2 := by
      rw [List.length_tail, hlength, Nat.add_sub_cancel]
    have hsum : (0 : ℤ) + firstStakes b.witnessCountHistogram.tail.length
        b.witnessCountHistogram.tail < 2 ^ 63 := by
      rw [hpairs, firstStakes_tail h le_rfl, hlast]
      omega
    obtain ⟨n, hn, hresult, hbefore, hafter⟩ := @countPairs_spec (stake / 2 : ℕ) 0
      b.witnessCountHistogram.tail 0 le_rfl hsum
    rw [hpairs] at hn hafter
    rw [hcount, if_pos (by omega), hresult, Nat.zero_add]
    have hreached : Majority p ballots n := by
      rw [Majority, ← hstake]
      rcases hn.lt_or_eq with hlt | rfl
      · have hexceeds := hafter hlt
        rw [firstStakes_tail h hn] at hexceeds
        omega
      · rw [hlast]
        omega
    have hfirst : ∀ j < n, ¬Majority p ballots j := by
      intro j hj hmajority
      have hwithin := hbefore j hj
      rw [firstStakes_tail h (hj.le.trans hn)] at hwithin
      rw [Majority, ← hstake] at hmajority
      omega
    have hkn : k = n := le_antisymm (hk.2 hreached)
      (not_lt.mp fun hlt ↦ hfirst k hlt hk.1)
    rw [hkn]

end meeting

end KarmaCore.Votes
