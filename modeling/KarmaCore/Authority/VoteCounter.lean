import Mathlib
import KarmaCore.Authority.SignState

/-!
# Authorities that are counted from votes

The votes of the accounts of an authority are scaled to 16 bits by the shift the
first vote needs.  The authority needs more than half of the weights it is made
of, so that all of its accounts together satisfy it and no half of them does.
-/

namespace KarmaCore.Authorities

/-- `account_auths[who] = weight` in a flat map. -/
def setWeight (who : AccountId) (weight : UInt16) :
    List (AccountId × UInt16) → List (AccountId × UInt16)
  | [] => [(who, weight)]
  | (k, w) :: rest =>
      if who < k then (who, weight) :: (k, w) :: rest
      else if who = k then (who, weight) :: rest
      else (k, w) :: setWeight who weight rest

/-- A shift of -1 is not chosen yet. -/
structure VoteCounter where
  lastVotes : ℕ := 2 ^ 64 - 1
  totalVotes : ℕ := 0
  bitshift : ℤ := -1
  auth : Authority := { weightThreshold := 0 }

namespace VoteCounter

def scaledVotes (bitshift votes : ℕ) : ℕ := max (votes >>> bitshift) 1

def add (vc : VoteCounter) (who : AccountId) (votes : ℕ) : VoteCounter :=
  if votes = 0 then vc
  else
    let bitshift := if vc.bitshift = -1 then max ((votes.log2 : ℤ) - 15) 0 else vc.bitshift
    let scaled := scaledVotes bitshift.toNat votes
    { lastVotes := votes
      totalVotes := (vc.totalVotes + scaled) % 2 ^ 64
      bitshift
      auth := { vc.auth with
        accountAuths := setWeight who (UInt16.ofNat scaled) vc.auth.accountAuths } }

def finish (vc : VoteCounter) (outAuth : Authority) : Authority :=
  if vc.totalVotes = 0 then outAuth
  else { vc.auth with weightThreshold := UInt32.ofNat ((vc.totalVotes % 2 ^ 32) >>> 1 + 1) }

/-- A sequence of accounts with their votes. -/
def addAll (vc : VoteCounter) (entries : List (AccountId × ℕ)) : VoteCounter :=
  entries.foldl (fun vc entry ↦ vc.add entry.1 entry.2) vc

end VoteCounter

/-- The loop of `update_top_n_authorities` over the balances, the highest first, of an asset. -/
def addTopHolders (acct : AccountId) : ℕ → List (AccountId × ℕ) → VoteCounter → VoteCounter
  | 0, _, vc => vc
  | _ + 1, [], vc => vc
  | numNeeded + 1, (owner, balance) :: rest, vc =>
      if owner = acct then addTopHolders acct (numNeeded + 1) rest vc
      else addTopHolders acct numNeeded rest (vc.add owner balance)

/-! ## Fair authorities -/

/-- The accounts that have votes. -/
def listed (entries : List (AccountId × ℕ)) : List (AccountId × ℕ) :=
  entries.filter fun entry ↦ 0 < entry.2

def Authority.totalWeight (auth : Authority) : ℕ :=
  (auth.accountAuths.map fun item ↦ item.2.toNat).sum +
    (auth.keyAuths.map fun item ↦ item.2.toNat).sum

/-- The accounts that have votes are listed, with weights in the order of their votes, and
more than half of the weights satisfy the authority. -/
structure Fair (entries : List (AccountId × ℕ)) (auth : Authority) : Prop where
  accounts : (auth.accountAuths.map Prod.fst).Perm ((listed entries).map Prod.fst)
  keys : auth.keyAuths = []
  weight : ∀ item ∈ auth.accountAuths, 1 ≤ item.2.toNat ∧ item.2.toNat ≤ 65535
  order : ∀ entry ∈ listed entries, ∀ entry' ∈ listed entries, ∀ w w',
    (entry.1, w) ∈ auth.accountAuths → (entry'.1, w') ∈ auth.accountAuths →
      entry.2 ≤ entry'.2 → w.toNat ≤ w'.toNat
  majority : auth.totalWeight < 2 * auth.weightThreshold.toNat
  possible : auth.weightThreshold.toNat ≤ auth.totalWeight

/-! ## The flat map -/

/-- A new account is put somewhere. -/
theorem setWeight_perm {who : AccountId} {weight : UInt16} {auths : List (AccountId × UInt16)}
    (h : who ∉ auths.map Prod.fst) : (setWeight who weight auths).Perm ((who, weight) :: auths) := by
  induction auths with
  | nil => exact .refl _
  | cons item rest ih =>
      obtain ⟨k, w⟩ := item
      rw [List.map_cons, List.mem_cons, not_or] at h
      rw [setWeight]
      split_ifs with hlt heq
      · exact .refl _
      · exact absurd heq h.1
      · exact ((ih h.2).cons _).trans (.swap _ _ _)

/-! ## The counter -/

/-- The shift the first vote needs. -/
def shiftOf : List (AccountId × ℕ) → ℕ
  | [] => 0
  | entry :: _ => entry.2.log2 - 15

/-- The weight of an account among others. -/
def weightIn (entries : List (AccountId × ℕ)) (entry : AccountId × ℕ) : ℕ :=
  VoteCounter.scaledVotes (shiftOf entries) entry.2

variable {entries : List (AccountId × ℕ)} {vc : VoteCounter}

theorem scaledVotes_pos (bitshift votes : ℕ) : 1 ≤ VoteCounter.scaledVotes bitshift votes :=
  le_max_right _ _

theorem scaledVotes_mono {bitshift votes votes' : ℕ} (h : votes ≤ votes') :
    VoteCounter.scaledVotes bitshift votes ≤ VoteCounter.scaledVotes bitshift votes' := by
  rw [VoteCounter.scaledVotes, VoteCounter.scaledVotes, Nat.shiftRight_eq_div_pow,
    Nat.shiftRight_eq_div_pow]
  exact max_le_max_right 1 (Nat.div_le_div_right h)

/-- The shift makes the first vote, and so all of them, fit in 16 bits. -/
theorem weightIn_le (hsorted : entries.Pairwise fun a b ↦ b.2 ≤ a.2) {entry : AccountId × ℕ}
    (hentry : entry ∈ entries) : weightIn entries entry ≤ 65535 := by
  cases entries with
  | nil => exact absurd hentry List.not_mem_nil
  | cons first rest =>
      have hle : entry.2 ≤ first.2 := by
        rcases List.mem_cons.mp hentry with rfl | hmem
        · exact le_rfl
        · exact (List.pairwise_cons.mp hsorted).1 entry hmem
      refine (scaledVotes_mono hle).trans ?_
      rw [VoteCounter.scaledVotes, shiftOf, Nat.shiftRight_eq_div_pow]
      have hlt : first.2 < 2 ^ (first.2.log2 + 1) := Nat.lt_log2_self
      have hpow : 2 ^ (first.2.log2 + 1) ≤ 2 ^ 16 * 2 ^ (first.2.log2 - 15) := by
        rw [← pow_add]
        exact Nat.pow_le_pow_right (by decide) (by omega)
      have hdiv : first.2 / 2 ^ (first.2.log2 - 15) < 2 ^ 16 :=
        Nat.div_lt_of_lt_mul (by rw [mul_comm]; exact hlt.trans_le hpow)
      omega

/-- What the counter holds after some accounts that have votes. -/
structure Counts (vc : VoteCounter) (entries : List (AccountId × ℕ)) : Prop where
  bitshift : vc.bitshift = if entries = [] then -1 else (shiftOf entries : ℤ)
  totalVotes : vc.totalVotes = (entries.map (weightIn entries)).sum
  accounts : vc.auth.accountAuths.Perm
    (entries.map fun entry ↦ (entry.1, UInt16.ofNat (weightIn entries entry)))
  keys : vc.auth.keyAuths = []

theorem counts_empty : Counts {} [] := ⟨rfl, rfl, .refl _, rfl⟩

/-- The shift does not change after the first account. -/
theorem shiftOf_append (hne : entries ≠ []) (entry : AccountId × ℕ) :
    shiftOf (entries ++ [entry]) = shiftOf entries := by
  cases entries with
  | nil => exact absurd rfl hne
  | cons first rest => rfl

theorem sum_weightIn_le (hsorted : entries.Pairwise fun a b ↦ b.2 ≤ a.2) :
    (entries.map (weightIn entries)).sum ≤ entries.length * 65535 := by
  have hle : ∀ w ∈ entries.map (weightIn entries), w ≤ 65535 := by
    intro w hw
    obtain ⟨entry, hentry, rfl⟩ := List.mem_map.mp hw
    exact weightIn_le hsorted hentry
  simpa using List.sum_le_card_nsmul _ _ hle

theorem Counts.add (hvc : Counts vc entries) {entry : AccountId × ℕ} (hpos : 0 < entry.2)
    (hnew : entry.1 ∉ entries.map Prod.fst)
    (hsorted : (entries ++ [entry]).Pairwise fun a b ↦ b.2 ≤ a.2)
    (hlength : (entries ++ [entry]).length < 2 ^ 16) :
    Counts (vc.add entry.1 entry.2) (entries ++ [entry]) := by
  have hbitshift : (if vc.bitshift = -1 then max ((entry.2.log2 : ℤ) - 15) 0 else vc.bitshift) =
      (shiftOf (entries ++ [entry]) : ℤ) := by
    rw [hvc.bitshift]
    by_cases hne : entries = []
    · subst hne
      rw [if_pos rfl, if_pos rfl, List.nil_append, shiftOf]
      omega
    · rw [if_neg hne, if_neg (by omega), shiftOf_append hne]
  have hweights : entries.map (weightIn (entries ++ [entry])) = entries.map (weightIn entries) := by
    by_cases hne : entries = []
    · rw [hne]
      rfl
    · apply List.map_congr_left
      intro other _
      rw [weightIn, weightIn, shiftOf_append hne]
  have hsum := sum_weightIn_le hsorted
  rw [List.map_append, List.sum_append, hweights, ← hvc.totalVotes, List.map_singleton,
    List.sum_singleton] at hsum
  have hadd : vc.add entry.1 entry.2 =
      { lastVotes := entry.2
        totalVotes := (vc.totalVotes + weightIn (entries ++ [entry]) entry) % 2 ^ 64
        bitshift := shiftOf (entries ++ [entry])
        auth := { vc.auth with
          accountAuths := setWeight entry.1 (UInt16.ofNat (weightIn (entries ++ [entry]) entry))
            vc.auth.accountAuths } } := by
    simp only [VoteCounter.add, if_neg hpos.ne', hbitshift, Int.toNat_natCast, weightIn]
  rw [hadd]
  refine ⟨by rw [if_neg (by simp)], ?_, ?_, hvc.keys⟩
  · rw [List.map_append, List.sum_append, hweights, ← hvc.totalVotes, List.map_singleton,
      List.sum_singleton]
    exact Nat.mod_eq_of_lt (by omega)
  · have hfresh : entry.1 ∉ vc.auth.accountAuths.map Prod.fst := by
      rw [(hvc.accounts.map Prod.fst).mem_iff, List.map_map]
      exact hnew
    have hold : (entries.map fun other ↦ (other.1, UInt16.ofNat (weightIn entries other))) =
        entries.map fun other ↦ (other.1, UInt16.ofNat (weightIn (entries ++ [entry]) other)) := by
      apply List.map_congr_left
      intro other hother
      rw [List.map_inj_left.mp hweights other hother]
    rw [List.map_append, ← hold]
    exact (setWeight_perm hfresh).trans ((hvc.accounts.cons _).trans
      (List.perm_append_singleton _ _).symm)

/-- The votes are added from the most to the fewest, for as many accounts as an authority may
list. -/
structure Added (entries : List (AccountId × ℕ)) : Prop where
  sorted : entries.Pairwise fun a b ↦ b.2 ≤ a.2
  votes : ∀ entry ∈ entries, entry.2 < 2 ^ 64
  accounts : (entries.map Prod.fst).Nodup
  length : entries.length < 2 ^ 16

theorem Added.sublist {entries' : List (AccountId × ℕ)} (h : Added entries)
    (hsub : entries'.Sublist entries) : Added entries' where
  sorted := h.sorted.sublist hsub
  votes entry hentry := h.votes entry (hsub.subset hentry)
  accounts := h.accounts.sublist (hsub.map _)
  length := hsub.length_le.trans_lt h.length

/-- Every account that has votes is counted. -/
theorem counts_addAll (h : Added entries) : Counts (VoteCounter.addAll {} entries) (listed entries) := by
  induction entries using List.reverseRecOn with
  | nil => exact counts_empty
  | append_singleton entries entry ih =>
      have hvc := ih (h.sublist (List.sublist_append_left _ _))
      have hall : VoteCounter.addAll {} (entries ++ [entry]) =
          (VoteCounter.addAll {} entries).add entry.1 entry.2 := List.foldl_concat ..
      rw [hall]
      by_cases hpos : 0 < entry.2
      · have hlisted : listed (entries ++ [entry]) = listed entries ++ [entry] := by
          rw [listed, List.filter_append, List.filter_cons_of_pos (by simpa using hpos),
            List.filter_nil, listed]
        have hsub : (listed (entries ++ [entry])).Sublist (entries ++ [entry]) := List.filter_sublist
        have hsorted := (h.sublist hsub).sorted
        have hlength := (h.sublist hsub).length
        have hnew : entry.1 ∉ (listed entries).map Prod.fst := by
          have hnodup := (h.sublist hsub).accounts
          rw [hlisted, List.map_append, List.map_singleton, List.nodup_append] at hnodup
          exact fun hmem ↦ hnodup.2.2 _ hmem _ (List.mem_singleton_self _) rfl
        rw [hlisted] at hsorted hlength ⊢
        exact hvc.add hpos hnew hsorted hlength
      · have hlisted : listed (entries ++ [entry]) = listed entries := by
          rw [listed, List.filter_append, List.filter_cons_of_neg (by simpa using hpos),
            List.filter_nil, List.append_nil, listed]
        rw [hlisted, VoteCounter.add, if_pos (by omega)]
        exact hvc

/-! ## The finished authority -/

theorem toNat_weight {w : ℕ} (h : w ≤ 65535) : (UInt16.ofNat w).toNat = w := by
  rw [UInt16.toNat_ofNat']
  exact Nat.mod_eq_of_lt (by omega)

/-- What is counted is the weight of the authority. -/
theorem Counts.totalWeight (hvc : Counts vc entries)
    (hsorted : entries.Pairwise fun a b ↦ b.2 ≤ a.2) : vc.auth.totalWeight = vc.totalVotes := by
  have hperm := (hvc.accounts.map fun item ↦ item.2.toNat).sum_eq
  have hweights : (entries.map fun entry ↦ (entry.1, UInt16.ofNat (weightIn entries entry))).map
      (fun item ↦ item.2.toNat) = entries.map (weightIn entries) := by
    rw [List.map_map]
    apply List.map_congr_left
    intro entry hentry
    exact toNat_weight (weightIn_le hsorted hentry)
  rw [Authority.totalWeight, hvc.keys, hvc.totalVotes, hperm, hweights]
  rfl

/-- The weight an account was listed with. -/
theorem Counts.weight_eq (hvc : Counts vc entries)
    (hsorted : entries.Pairwise fun a b ↦ b.2 ≤ a.2) (hnodup : (entries.map Prod.fst).Nodup)
    {entry : AccountId × ℕ} (hentry : entry ∈ entries) {w : UInt16}
    (hw : (entry.1, w) ∈ vc.auth.accountAuths) : w.toNat = weightIn entries entry := by
  obtain ⟨other, hother, heq⟩ := List.mem_map.mp (hvc.accounts.mem_iff.mp hw)
  obtain ⟨haccount, rfl⟩ := Prod.mk.inj heq
  obtain rfl := List.inj_on_of_nodup_map hnodup hother hentry haccount
  exact toNat_weight (weightIn_le hsorted hother)

/-- The sum is 32 bits wide, and more than half of it is needed. -/
theorem finish_threshold {total : ℕ} (hpos : 0 < total) (hlt : total < 2 ^ 32) :
    (UInt32.ofNat ((total % 2 ^ 32) >>> 1 + 1)).toNat = total / 2 + 1 := by
  rw [UInt32.toNat_ofNat', Nat.mod_eq_of_lt hlt, Nat.shiftRight_eq_div_pow]
  exact Nat.mod_eq_of_lt (by omega)

/-- Where somebody has votes, the authority is fair. -/
theorem fair_of_added (h : Added entries) (hsome : listed entries ≠ []) (outAuth : Authority) :
    Fair entries ((VoteCounter.addAll {} entries).finish outAuth) := by
  have hvc := counts_addAll h
  have hlisted : Added (listed entries) := h.sublist List.filter_sublist
  have hsum := sum_weightIn_le hlisted.sorted
  have hlength := hlisted.length
  have hpos : 0 < (VoteCounter.addAll {} entries).totalVotes := by
    obtain ⟨first, rest, hfirst⟩ := List.exists_cons_of_ne_nil hsome
    have hweight : 1 ≤ weightIn (listed entries) first := scaledVotes_pos _ _
    have hsplit : ((listed entries).map (weightIn (listed entries))).sum =
        weightIn (listed entries) first + (rest.map (weightIn (listed entries))).sum := by
      conv_lhs => rw [hfirst, List.map_cons, List.sum_cons, ← hfirst]
    rw [hvc.totalVotes, hsplit]
    omega
  have hlt : (VoteCounter.addAll {} entries).totalVotes < 2 ^ 32 := by
    rw [hvc.totalVotes]
    omega
  have hthreshold := finish_threshold hpos hlt
  have htotal := hvc.totalWeight hlisted.sorted
  rw [VoteCounter.finish, if_neg hpos.ne']
  refine ⟨?_, hvc.keys, fun item hitem ↦ ?_, ?_, ?_, ?_⟩
  · have haccounts := hvc.accounts.map Prod.fst
    rw [List.map_map] at haccounts
    exact haccounts
  · obtain ⟨entry, hentry, rfl⟩ := List.mem_map.mp (hvc.accounts.mem_iff.mp hitem)
    have hle := weightIn_le hlisted.sorted hentry
    rw [toNat_weight hle]
    exact ⟨scaledVotes_pos _ _, hle⟩
  · intro entry hentry entry' hentry' w w' hw hw' hvotes
    rw [hvc.weight_eq hlisted.sorted hlisted.accounts hentry hw,
      hvc.weight_eq hlisted.sorted hlisted.accounts hentry' hw']
    exact scaledVotes_mono hvotes
  · change (VoteCounter.addAll {} entries).auth.totalWeight < 2 * (UInt32.ofNat _).toNat
    rw [hthreshold, htotal]
    omega
  · change (UInt32.ofNat _).toNat ≤ (VoteCounter.addAll {} entries).auth.totalWeight
    rw [hthreshold, htotal]
    omega

/-- Of different accounts whose votes are added from the most to the fewest a fair
authority is made, unless nobody has votes, when the authority stays as it is. -/
theorem fair_finish (h : Added entries) (outAuth : Authority) :
    (listed entries = [] → (VoteCounter.addAll {} entries).finish outAuth = outAuth) ∧
    (listed entries ≠ [] → Fair entries ((VoteCounter.addAll {} entries).finish outAuth)) := by
  refine ⟨fun hnone ↦ ?_, fun hsome ↦ fair_of_added h hsome outAuth⟩
  have hzero : (VoteCounter.addAll {} entries).totalVotes = 0 := by
    rw [(counts_addAll h).totalVotes, hnone]
    rfl
  rw [VoteCounter.finish, if_pos hzero]

/-- Three accounts, the last of which has too few votes for a weight of its own. -/
theorem fair_three : Fair [(7, 2 ^ 64 - 1), (5, 2 ^ 63), (6, 3)]
    ((VoteCounter.addAll {} [(7, 2 ^ 64 - 1), (5, 2 ^ 63), (6, 3)]).finish
      { weightThreshold := 0 }) := by
  have hadded : Added [(7, 2 ^ 64 - 1), (5, 2 ^ 63), (6, 3)] :=
    ⟨by decide, by decide, by decide, by decide⟩
  exact (fair_finish hadded _).2 (by decide)

/-- An account that is added twice is listed once, but counted twice. -/
theorem not_fair_twice :
    ((VoteCounter.addAll {} [(7, 10), (7, 10)]).finish { weightThreshold := 0 }) =
      { weightThreshold := 11, accountAuths := [(7, 10)] } ∧
    ¬Fair [(7, 10), (7, 10)]
      ((VoteCounter.addAll {} [(7, 10), (7, 10)]).finish { weightThreshold := 0 }) := by
  refine ⟨by decide, fun hfair ↦ ?_⟩
  exact absurd hfair.possible (by decide)

/-! ## The top holders of an asset -/

/-- The loop adds the first holders other than the account itself. -/
theorem addTopHolders_eq (acct : AccountId) (numNeeded : ℕ) (balances : List (AccountId × ℕ))
    (vc : VoteCounter) : addTopHolders acct numNeeded balances vc =
      vc.addAll ((balances.filter (·.1 ≠ acct)).take numNeeded) := by
  induction balances generalizing numNeeded vc with
  | nil =>
      cases numNeeded with
      | zero => rfl
      | succ numNeeded => rfl
  | cons item rest ih =>
      obtain ⟨owner, balance⟩ := item
      cases numNeeded with
      | zero => rfl
      | succ numNeeded =>
          rw [addTopHolders]
          by_cases howner : owner = acct
          · rw [if_pos howner, ih, List.filter_cons_of_neg (by simpa using howner)]
          · rw [if_neg howner, ih, List.filter_cons_of_pos (by simpa using howner),
              List.take_succ_cons]
            rfl

/-- The holders of an asset, ordered by balance, form a fair authority. -/
theorem fair_topHolders {balances : List (AccountId × ℕ)} {acct : AccountId} {numNeeded : ℕ}
    (hsorted : balances.Pairwise fun a b ↦ b.2 ≤ a.2) (hnodup : (balances.map Prod.fst).Nodup)
    (hrange : ∀ item ∈ balances, item.2 < 2 ^ 64) (hneeded : numNeeded < 2 ^ 8)
    (hsome : listed ((balances.filter (·.1 ≠ acct)).take numNeeded) ≠ []) (outAuth : Authority) :
    Fair ((balances.filter (·.1 ≠ acct)).take numNeeded)
      ((addTopHolders acct numNeeded balances {}).finish outAuth) := by
  have hsub : ((balances.filter (·.1 ≠ acct)).take numNeeded).Sublist balances :=
    (List.take_sublist _ _).trans List.filter_sublist
  have hadded : Added ((balances.filter (·.1 ≠ acct)).take numNeeded) := by
    refine ⟨hsorted.sublist hsub, fun item hitem ↦ hrange item (hsub.subset hitem),
      hnodup.sublist (hsub.map _), ?_⟩
    have := List.length_take_le numNeeded (balances.filter (·.1 ≠ acct))
    omega
  rw [addTopHolders_eq]
  exact fair_of_added hadded hsome outAuth

end KarmaCore.Authorities
