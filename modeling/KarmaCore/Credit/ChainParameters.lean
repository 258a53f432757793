import Mathlib
import KarmaCore.Credit.NonNegative

/-!
# The chain parameters and the split of a loan

`chain_parameters::validate` relates the bonuses of an approval to each other,
but bounds none of them.  What an approval pays out of a loan is then
non-negative under a condition on the percentages in force.
-/

namespace KarmaCore

open Truncation CreditApproveOperation

/-- `GRAPHENE_100_PERCENT`. -/
def oneHundredPercent : ℕ := 10000

inductive ParameterExtension
  | creditOptions (options : CreditOptions)
  | creditReferrerBonusOptions (options : CreditReferrerBonusOptions)

/-- The parameters `validate` looks at.  No fee is checked: the visitor of the
schedule is empty. -/
structure ChainParameters where
  blockInterval : ℕ := 5
  maintenanceInterval : ℕ := 86400
  committeeProposalReviewPeriod : ℕ := 1209600
  maximumTransactionSize : ℕ := 2048
  maximumBlockSize : ℕ := 2000000
  maximumTimeUntilExpiration : ℕ := 86400
  maximumProposalLifetime : ℕ := 2419200
  reservePercentOfFee : ℕ := 2000
  networkPercentOfFee : ℕ := 2000
  lifetimeReferrerPercentOfFee : ℕ := 3000
  extensions : List ParameterExtension := []

namespace ChainParameters

def getCreditOptions (p : ChainParameters) : CreditOptions :=
  (p.extensions.findSome? fun
    | .creditOptions options => some options
    | .creditReferrerBonusOptions _ => none).getD {}

def getBonusOptions (p : ChainParameters) : CreditReferrerBonusOptions :=
  (p.extensions.findSome? fun
    | .creditOptions _ => none
    | .creditReferrerBonusOptions options => some options).getD {}

/-- `max_credit_expiration_days >= 0` holds of every `uint32_t`. -/
def validateExtensions (p : ChainParameters) : Checked Unit := do
  let options := p.getCreditOptions
  require (0 < options.secondsPerDay) "Seconds_per_day interval must be greater than zero"
  require (0 ≤ options.maxCreditExpirationDays)
    "Max credit expiration days interval must be greater or equal than zero"
  require (0 < options.minWitnessesForExchangeRate)
    "Min witnesses for set exchange rate must be greater than zero"
  require (0 < options.exchangeRateSetMinInterval)
    "Exchange rate set min interval must be greater than zero"
  require (0 < options.exchangeRateSetMaxInterval)
    "Exchange rate set max interval must be greater than zero"
  require (options.exchangeRateSetMinInterval ≤ options.exchangeRateSetMaxInterval)
    "Exchange rate min interval must be less or equal than exchange rate max interval"
  let bonuses := p.getBonusOptions
  require (bonuses.creditorReferrerBonus + bonuses.borrowerReferrerBonus ≤
      bonuses.karmaAccountBonus)
    "The sum of creditor and borrower referrer bonuses must be less or equal than karma account bonus"

def validate (p : ChainParameters) : Checked Unit := do
  require (p.reservePercentOfFee ≤ oneHundredPercent)
    "reserve_percent_of_fee <= GRAPHENE_100_PERCENT"
  require (p.networkPercentOfFee ≤ oneHundredPercent)
    "network_percent_of_fee <= GRAPHENE_100_PERCENT"
  require (p.lifetimeReferrerPercentOfFee ≤ oneHundredPercent)
    "lifetime_referrer_percent_of_fee <= GRAPHENE_100_PERCENT"
  require (p.networkPercentOfFee + p.lifetimeReferrerPercentOfFee ≤ oneHundredPercent)
    "network_percent_of_fee + lifetime_referrer_percent_of_fee <= GRAPHENE_100_PERCENT"
  require (1 ≤ p.blockInterval) "block_interval >= GRAPHENE_MIN_BLOCK_INTERVAL"
  require (p.blockInterval ≤ 30) "block_interval <= GRAPHENE_MAX_BLOCK_INTERVAL"
  require (0 < p.blockInterval) "block_interval > 0"
  require (p.blockInterval < p.maintenanceInterval)
    "Maintenance interval must be longer than block interval"
  require (p.maintenanceInterval % p.blockInterval = 0)
    "Maintenance interval must be a multiple of block interval"
  require (1024 ≤ p.maximumTransactionSize) "Transaction size limit is too low"
  require (5120 ≤ p.maximumBlockSize) "Block size limit is too low"
  require (p.blockInterval < p.maximumTimeUntilExpiration)
    "Maximum transaction expiration time must be greater than a block interval"
  require (p.blockInterval <
      wrap32 (p.maximumProposalLifetime - p.committeeProposalReviewPeriod))
    "Committee proposal review period must be less than the maximum proposal lifetime"
  if p.extensions.length > 0 then p.validateExtensions else return ()

/-- All that is known of the bonuses of accepted parameters. -/
theorem bonuses_le_of_validate {p : ChainParameters} (h : p.validate = .ok ()) :
    p.getBonusOptions.creditorReferrerBonus + p.getBonusOptions.borrowerReferrerBonus ≤
      p.getBonusOptions.karmaAccountBonus := by
  simp only [validate, Checked.bind_eq_ok, require_eq_ok] at h
  obtain ⟨_, -, _, -, _, -, _, -, _, -, _, -, _, -, _, -, _, -, _, -, _, -, _, -, _, -, h⟩ := h
  split_ifs at h with hextensions
  · simp only [validateExtensions, Checked.bind_eq_ok, require_eq_ok] at h
    obtain ⟨_, -, _, -, _, -, _, -, _, -, _, -, h⟩ := h
    exact h
  · have hnone : p.extensions = [] := by simpa using hextensions
    norm_num [getBonusOptions, hnone]

end ChainParameters

/-! ## The parts of a loan -/

/-- A percentage of a loan, exactly. -/
def exactPart (loan : ℤ) (percent : ℚ) : ℚ := loan * percent / 100

/-- Every part is above minus one share, and what the parts exceed the loan by
is no more than their fractions. -/
structure PartsFit (loan : ℤ) (a b s : ℚ) : Prop where
  creditor : -1 < a
  borrower : -1 < b
  special : -1 < s
  excess : max a 0 + max b 0 + max s 0 - loan ≤
    Int.fract (max a 0) + Int.fract (max b 0) + Int.fract (max s 0)

theorem partsFit_iff {loan : ℤ} {a b s : ℚ} : PartsFit loan a b s ↔
    0 ≤ truncate a ∧ 0 ≤ truncate b ∧ 0 ≤ truncate s ∧
      truncate a + truncate b + truncate s ≤ loan := by
  have htotal : -1 < a → -1 < b → -1 < s →
      (truncate a + truncate b + truncate s ≤ loan ↔ max a 0 + max b 0 + max s 0 - loan ≤
        Int.fract (max a 0) + Int.fract (max b 0) + Int.fract (max s 0)) := by
    intro ha hb hs
    rw [← @Int.cast_le ℚ]
    push_cast
    rw [truncate_eq_max_sub_fract ha, truncate_eq_max_sub_fract hb, truncate_eq_max_sub_fract hs]
    constructor <;> intro h <;> linarith
  simp only [truncate_nonneg_iff]
  constructor
  · rintro ⟨ha, hb, hs, hexcess⟩
    exact ⟨ha, hb, hs, (htotal ha hb hs).mpr hexcess⟩
  · rintro ⟨ha, hb, hs, hle⟩
    exact ⟨ha, hb, hs, (htotal ha hb hs).mp hle⟩

/-- Parts of a loan that are not negative and together no more than it. -/
theorem partsFit_of_nonneg {loan : ℤ} {a b s : ℚ} (ha : 0 ≤ a) (hb : 0 ≤ b) (hs : 0 ≤ s)
    (htotal : a + b + s ≤ loan) : PartsFit loan a b s := by
  refine ⟨by linarith, by linarith, by linarith, ?_⟩
  rw [max_eq_left ha, max_eq_left hb, max_eq_left hs]
  linarith [Int.fract_nonneg a, Int.fract_nonneg b, Int.fract_nonneg s]

/-- Before the fork the borrower receives the whole loan. -/
def SplitFits (v : ChainView) (creditor : AccountId) (c : CreditObject) : Prop :=
  if hardforkCoreKarma2Time ≤ v.headBlockTime then
    ∀ creditorAccount ∈ v.accounts creditor, ∀ borrowerAccount ∈ v.accounts c.borrower.borrower,
      PartsFit c.borrower.loanAsset.amount
        (exactPart c.borrower.loanAsset.amount (creditorPercent v creditorAccount))
        (exactPart c.borrower.loanAsset.amount (borrowerPercent v borrowerAccount))
        (exactPart c.borrower.loanAsset.amount
          (specialAccountPercent v creditorAccount borrowerAccount))
  else 0 ≤ c.borrower.loanAsset.amount

theorem referrerPercent_cases (v : ChainView) (account : AccountObject) (bonus : ℚ) :
    referrerPercent v account bonus = bonus ∨ referrerPercent v account bonus = 0 := by
  unfold referrerPercent
  split_ifs
  · exact .inl rfl
  · exact .inr rfl

/-- Accepted parameters with no negative bonus and at most the whole loan for
the special account split every loan, whichever referrers have expired. -/
theorem splitFits_of_bonuses {v : ChainView} {creditor : AccountId} {c : CreditObject}
    (hsum : v.bonusOptions.creditorReferrerBonus + v.bonusOptions.borrowerReferrerBonus ≤
      v.bonusOptions.karmaAccountBonus)
    (hloan : 0 ≤ c.borrower.loanAsset.amount)
    (hcreditor : 0 ≤ v.bonusOptions.creditorReferrerBonus)
    (hborrower : 0 ≤ v.bonusOptions.borrowerReferrerBonus)
    (hkarma : v.bonusOptions.karmaAccountBonus ≤ 100) : SplitFits v creditor c := by
  unfold SplitFits
  split_ifs
  · intro creditorAccount _ borrowerAccount _
    have hcreditorPercent := referrerPercent_cases v creditorAccount
      v.bonusOptions.creditorReferrerBonus
    have hborrowerPercent := referrerPercent_cases v borrowerAccount
      v.bonusOptions.borrowerReferrerBonus
    have hcast : (0 : ℚ) ≤ c.borrower.loanAsset.amount := by exact_mod_cast hloan
    have hpart : ∀ {percent : ℚ}, 0 ≤ percent →
        0 ≤ exactPart c.borrower.loanAsset.amount percent := fun hpercent ↦ by
      unfold exactPart
      positivity
    refine partsFit_of_nonneg (hpart ?_) (hpart ?_) (hpart ?_) ?_
    · unfold creditorPercent
      rcases hcreditorPercent with h | h <;> rw [h]
      exact hcreditor
    · unfold borrowerPercent
      rcases hborrowerPercent with h | h <;> rw [h]
      exact hborrower
    · unfold specialAccountPercent creditorPercent borrowerPercent
      rcases hcreditorPercent with h | h <;> rcases hborrowerPercent with h' | h' <;>
        rw [h, h'] <;> linarith
    · -- the three percentages add up to the one of the special account
      unfold exactPart specialAccountPercent
      nlinarith
  · exact hloan

theorem LoanMoves.total {v : ChainView} {creditor : AccountId} {c : CreditObject}
    {ms : List Movement} (h : LoanMoves v creditor c ms) :
    (ms.map fun m ↦ m.sum.amount).sum = c.borrower.loanAsset.amount := by
  cases h with
  | whole hfork => simp [Movement.sum]
  | bonuses hfork hcreditor hborrower hsums =>
      simp only [List.map_cons, List.map_nil, List.sum_cons, List.sum_nil, Movement.sum]
      ring

theorem LoanMoves.nonneg_iff {v : ChainView} {creditor : AccountId} {c : CreditObject}
    {ms : List Movement} (h : LoanMoves v creditor c ms) :
    (∀ m ∈ ms, 0 ≤ m.sum.amount) ↔ SplitFits v creditor c := by
  cases h with
  | whole hfork =>
      rw [SplitFits, if_neg (not_le.mpr hfork)]
      simp [Movement.sum]
  | @bonuses special creditorAccount borrowerAccount sums hfork hcreditor hborrower hsums =>
      rw [SplitFits, if_pos hfork]
      simp only [hcreditor, hborrower, Option.mem_def, Option.some.injEq, forall_eq', partsFit_iff,
        exactPart]
      simp only [bonusSums, Checked.bind_eq_ok, toShare_eq_ok, Checked.pure_eq_ok] at hsums
      obtain ⟨_, ⟨-, rfl⟩, _, ⟨-, rfl⟩, _, ⟨-, rfl⟩, rfl⟩ := hsums
      simp only [List.mem_cons, List.not_mem_nil, or_false, forall_eq_or_imp, forall_eq,
        Movement.sum]
      constructor
      · rintro ⟨hrest, hspecial, hforBorrower, hforCreditor⟩
        exact ⟨hforCreditor, hforBorrower, hspecial, by omega⟩
      · rintro ⟨hforCreditor, hforBorrower, hspecial, htotal⟩
        exact ⟨by omega, hspecial, hforBorrower, hforCreditor⟩

def overpaidParameters : ChainParameters where
  extensions := [.creditReferrerBonusOptions { karmaAccountBonus := 101 }]

def parametersView (p : ChainParameters) : ChainView :=
  { twoAssetView with bonusOptions := p.getBonusOptions }

/-- A request of ten units by the account that will lend them. -/
def plainCredit : CreditObject :=
  depositRequest.newCredit twoAssetView ⟨"KUSD", 2, two_lt_nineteen⟩ "aa"

end KarmaCore
