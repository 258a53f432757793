import Mathlib
import KarmaCore.Credit.NonNegative

/-!
# The credit pass of a block

`process_credit_stories` has no handler: one credit that throws stops the block.
The pass completes while payments stay within the share range.  What the accounts
hold of an asset and what live credits may still pay or return in it is a
potential that no credit's processing raises, and it bounds every balance.
-/

namespace KarmaCore

open Truncation

namespace CreditObject

/-- What the rest of the chain keeps in place for a credit. -/
structure Valid (v : ChainView) (c : CreditObject) : Prop where
  nonneg : c.NonNegative
  borrower : ∃ account, v.accounts c.borrower.borrower = some account
  deposit : ∃ deposit, v.assets c.depositId = some deposit
  loan : ∃ loan, v.assets c.loanId = some loan
  quotes : ¬c.borrower.collateralFree → ∃ q, QuotesIn v c q
  period : 0 < c.borrower.loanPeriod ∧ c.borrower.loanPeriod < 2 ^ 32
  live : c.status = .inProgress → c.settleMonthElapsed < c.borrower.loanPeriod

/-- The payments still to come in shares of the loan asset, not rounded. -/
def remaining (v : ChainView) (c : CreditObject) : ℚ :=
  match v.assets c.loanId with
  | some loan => if c.status = .inProgress then c.loanForReturn * 10 ^ loan.precision else 0
  | none => 0

/-- What a credit may still add to the balances of an asset. -/
def outstanding (v : ChainView) (assetId : AssetId) (c : CreditObject) : ℚ :=
  (if c.loanId = assetId then c.remaining v else 0) + c.held assetId

variable {boost : BoostLibrary} {v : ChainView} {c c' : CreditObject} {q : Quotes} {l l' : Ledger}
  {s : Settlement} {ms : List Movement}

theorem wrap32_sub {m n : ℕ} (hmn : n ≤ m) (hm : m < 2 ^ 32) : wrap32 ((m : ℤ) - n) = m - n := by
  unfold wrap32
  omega

theorem wrap32_succ {n : ℕ} (hn : n + 1 < 2 ^ 32) : wrap32 ((n : ℤ) + 1) = n + 1 := by
  unfold wrap32
  omega

theorem remaining_eq {loan : AssetObject} (hloan : v.assets c.loanId = some loan)
    (hstatus : c.status = .inProgress) :
    c.remaining v = c.loanForReturn * 10 ^ loan.precision := by
  simp [remaining, hloan, hstatus]

theorem remaining_nonneg (hc : c.NonNegative) : 0 ≤ c.remaining v := by
  unfold remaining
  split
  · split_ifs
    · exact mul_nonneg (loanForReturn_nonneg hc) (by positivity)
    · exact le_rfl
  · exact le_rfl

theorem remaining_of_closed (h : c.status ≠ .inProgress) : c.remaining v = 0 := by
  unfold remaining
  split
  · rw [if_neg h]
  · rfl

theorem held_nonneg (hc : c.NonNegative) (assetId : AssetId) : 0 ≤ c.held assetId := by
  unfold held Asset.part
  split_ifs
  · exact hc.deposit
  · exact le_rfl

theorem outstanding_nonneg (hc : c.NonNegative) (assetId : AssetId) :
    0 ≤ c.outstanding v assetId := by
  have hheld : (0 : ℚ) ≤ c.held assetId := by exact_mod_cast held_nonneg hc assetId
  have hremaining := remaining_nonneg (v := v) hc
  unfold outstanding
  split_ifs <;> linarith

/-! ## The next payment is one of those to come -/

/-- A month later one payment less is to come. -/
theorem loanForReturn_eq (hc : c.Valid v) (hstatus : c.status = .inProgress) :
    c.loanForReturn = c.creditor.monthlyPayment *
      (c.borrower.loanPeriod - c.settleMonthElapsed - 1 : ℕ) + c.creditor.monthlyPayment := by
  have hlive := hc.live hstatus
  rw [loanForReturn, wrap32_sub hlive.le hc.period.2]
  have hsplit : c.borrower.loanPeriod - c.settleMonthElapsed =
      (c.borrower.loanPeriod - c.settleMonthElapsed - 1) + 1 := by omega
  rw [hsplit]
  push_cast
  ring

theorem monthlyPayment_le_loanForReturn (hc : c.Valid v) (hstatus : c.status = .inProgress) :
    c.creditor.monthlyPayment ≤ c.loanForReturn := by
  have hpayment := hc.nonneg.payment
  rw [loanForReturn_eq hc hstatus]
  have : 0 ≤ c.creditor.monthlyPayment *
      ((c.borrower.loanPeriod - c.settleMonthElapsed - 1 : ℕ) : ℚ) := by positivity
  linarith

/-- A credit like `c` but for its deposit and its payment clock. -/
structure SameLoan (c c' : CreditObject) : Prop where
  loan : c'.borrower.loanAsset = c.borrower.loanAsset
  period : c'.borrower.loanPeriod = c.borrower.loanPeriod
  creditor : c'.creditor = c.creditor
  elapsed : c'.settleMonthElapsed = c.settleMonthElapsed
  status : c'.status = c.status

theorem SameLoan.remaining (h : SameLoan c c') : c'.remaining v = c.remaining v := by
  simp only [CreditObject.remaining, loanId, loanForReturn, h.loan, h.period, h.creditor,
    h.elapsed, h.status]

/-- A paid month takes one payment off those to come. -/
theorem remaining_paidMonth {loan : AssetObject} (hc : c.Valid v) (hstatus : c.status = .inProgress)
    (hsame : SameLoan c c') (hstart : c'.expiredTimeStart = 0)
    (hloan : v.assets c.loanId = some loan) :
    c'.nextMonth.remaining v + c.creditor.monthlyPayment * 10 ^ loan.precision =
      c.remaining v := by
  have hlive := hc.live hstatus
  have hperiod := hc.period.2
  have hreturn : c'.nextMonth.loanForReturn = c.creditor.monthlyPayment *
      (c.borrower.loanPeriod - c.settleMonthElapsed - 1 : ℕ) := by
    rw [nextMonth, if_pos hstart]
    simp only [loanForReturn, hsame.creditor, hsame.period, hsame.elapsed]
    rw [wrap32_succ (by omega), wrap32_sub (by omega) hperiod]
    congr 2
  have hstatus' : c'.nextMonth.status = .inProgress := by
    rw [nextMonth, if_pos hstart]
    exact hsame.status.trans hstatus
  have hloan' : v.assets c'.nextMonth.loanId = some loan := by
    rw [nextMonth, if_pos hstart, loanId, hsame.loan]
    exact hloan
  rw [remaining_eq hloan' hstatus', remaining_eq hloan hstatus, hreturn,
    loanForReturn_eq hc hstatus]
  ring

theorem remaining_nextMonth_le (hc : c.Valid v) (hstatus : c.status = .inProgress)
    (hsame : SameLoan c c') : c'.nextMonth.remaining v ≤ c.remaining v := by
  obtain ⟨loan, hloan⟩ := hc.loan
  by_cases hstart : c'.expiredTimeStart = 0
  · have hpaid := remaining_paidMonth hc hstatus hsame hstart hloan
    have hpayment := hc.nonneg.payment
    have : 0 ≤ c.creditor.monthlyPayment * 10 ^ loan.precision := by positivity
    linarith
  · rw [nextMonth, if_neg hstart, hsame.remaining]

/-! ## No outcome raises the potential -/

/-- What a settlement adds to the coins is at most the sum it settles. -/
theorem settlement_le {sum : ℚ} (hc : c.NonNegative) (hshort : c.loanLeft q l < sum)
    (hs : c.settlement q l sum = .ok s) :
    (s.loanAssetToCreditor.amount : ℚ) ≤ sum * 10 ^ q.loan.precision ∧
      0 ≤ s.depositAssetFromDeposit.amount := by
  obtain ⟨-, hsums⟩ := settlement_sums hs
  have hloanRate := q.loanExchangeRate.2
  have hdepositRate := q.depositExchangeRate.2
  have hleft := loanLeft_nonneg c q l
  have hdeposit := depositLeft_nonneg hc q
  have hpow : (0 : ℚ) ≤ 10 ^ q.loan.precision := by positivity
  split_ifs at hsums with hreach
  · obtain ⟨left, hall, htaken, hgiven⟩ := hsums
    rw [htaken, hgiven]
    constructor
    · refine (truncate_le (by positivity)).trans (mul_le_mul_of_nonneg_right ?_ hpow)
      -- the whole deposit is worth less than the debt
      have hvalue : c.depositLeft q * q.depositExchangeRate <
          (sum - c.loanLeft q l) * q.loanExchangeRate := (lt_div_iff₀ hdepositRate).mp hreach
      have := (div_lt_iff₀ hloanRate).mpr hvalue
      linarith
    · rw [depositLeft_scaled hc q] at hall
      have hint : c.borrower.depositAsset.amount = left := by exact_mod_cast hall
      exact hint ▸ hc.deposit
  · obtain ⟨htaken, hgiven⟩ := hsums
    rw [htaken, hgiven]
    have hsum : 0 ≤ sum := hleft.trans hshort.le
    refine ⟨truncate_le (by positivity), truncate_nonneg (mul_nonneg ?_ (by positivity))⟩
    have : 0 ≤ sum - c.loanLeft q l := sub_nonneg.mpr hshort.le
    unfold debtInDeposit
    positivity

theorem leak_le {sum : ℚ} (hc : c.NonNegative) (hshort : c.loanLeft q l < sum)
    (hs : c.settlement q l sum = .ok s) (assetId : AssetId) :
    (leak s assetId : ℚ) ≤ if c.loanId = assetId then sum * 10 ^ q.loan.precision else 0 := by
  obtain ⟨hgiven, htaken⟩ := settlement_le hc hshort hs
  obtain ⟨hborrower, -, -⟩ := settlement_nonneg hc hshort hs
  have hin := settlement_in hs
  have hint : leak s assetId ≤
      if c.loanId = assetId then s.loanAssetToCreditor.amount else 0 := by
    simp only [leak, Asset.part, hin.fromBorrower, hin.toCreditor, hin.fromDeposit]
    split_ifs <;> omega
  refine le_trans (Int.cast_le.mpr hint) ?_
  split_ifs
  · exact hgiven
  · simp

/-- A movement of coins and a change of a credit together raise the potential
of no asset. -/
def PotentialKept (v : ChainView) (c c' : CreditObject) (ms : List Movement) : Prop :=
  ∀ assetId, (netOf assetId ms : ℚ) + c'.outstanding v assetId ≤ c.outstanding v assetId

theorem potentialKept_of_remaining_le (hloan : c'.borrower.loanAsset = c.borrower.loanAsset)
    (hremaining : c'.remaining v ≤ c.remaining v)
    (hheld : ∀ assetId, netOf assetId ms + c'.held assetId = c.held assetId) :
    PotentialKept v c c' ms := by
  intro assetId
  have hcast : (netOf assetId ms : ℚ) + c'.held assetId = c.held assetId := by
    exact_mod_cast hheld assetId
  have hid : c'.loanId = c.loanId := congrArg Asset.assetId hloan
  simp only [outstanding, hid]
  split_ifs <;> linarith

/-- A settlement's leak is paid for by the payments that are no longer to come. -/
theorem potentialKept_of_settlement {sum : ℚ} (hc : c.NonNegative)
    (hshort : c.loanLeft q l < sum) (hs : c.settlement q l sum = .ok s)
    (hloan : c'.borrower.loanAsset = c.borrower.loanAsset)
    (hremaining : c'.remaining v + sum * 10 ^ q.loan.precision ≤ c.remaining v)
    (hheld : ∀ assetId, netOf assetId ms + c'.held assetId = c.held assetId + leak s assetId) :
    PotentialKept v c c' ms := by
  intro assetId
  have hcast : (netOf assetId ms : ℚ) + c'.held assetId = c.held assetId + leak s assetId := by
    exact_mod_cast hheld assetId
  have hleak := leak_le hc hshort hs assetId
  have hid : c'.loanId = c.loanId := congrArg Asset.assetId hloan
  simp only [outstanding, hid]
  split_ifs at hleak ⊢ <;> linarith

theorem MonthOutcome.potentialKept (hc : c.Valid v) (hstatus : c.status = .inProgress)
    (h : MonthOutcome v c l c' ms) : PotentialKept v c c' ms := by
  cases h with
  | paid hloan hamount hcover =>
      refine potentialKept_of_remaining_le (by unfold nextMonth; split_ifs <;> rfl)
        (remaining_nextMonth_le hc hstatus ⟨rfl, rfl, rfl, rfl, rfl⟩) fun assetId ↦ ?_
      rw [netOf_transferMoves, held_nextMonth, zero_add]
      rfl
  | delayed hstart hdelay =>
      refine potentialKept_of_remaining_le (by unfold nextMonth; split_ifs <;> rfl)
        (remaining_nextMonth_le hc hstatus ⟨rfl, rfl, rfl, rfl, rfl⟩) fun assetId ↦ ?_
      rw [netOf_nil, held_nextMonth, zero_add]
      rfl
  | waiting hdelay =>
      exact potentialKept_of_remaining_le (by unfold nextMonth; split_ifs <;> rfl)
        (remaining_nextMonth_le hc hstatus ⟨rfl, rfl, rfl, rfl, rfl⟩) fun assetId ↦ by simp
  | defaulted hloan hamount hdeposit =>
      refine potentialKept_of_remaining_le rfl ?_ fun assetId ↦ by simp
      rw [remaining_of_closed (by simp [CreditObject.defaulted])]
      exact remaining_nonneg hc.nonneg
  | @fromDeposit q s hpays hreach hs =>
      have hsame : SameLoan c { c.afterSettlement s with expiredTimeStart := 0 } :=
        ⟨rfl, rfl, rfl, rfl, rfl⟩
      refine potentialKept_of_settlement hc.nonneg (loanLeft_lt_of_short hpays.short) hs
        (by unfold nextMonth; split_ifs <;> rfl)
        (remaining_paidMonth hc hstatus hsame rfl hpays.quotes.loan).le fun assetId ↦ ?_
      rw [held_nextMonth]
      exact netOf_settlementMoves (settlement_in hs) assetId
  | @exhausted q s amount mid hpays hshort hs hamount =>
      refine potentialKept_of_settlement hc.nonneg (loanLeft_lt_of_short hpays.short) hs rfl ?_
        fun assetId ↦ ?_
      · rw [remaining_of_closed (by simp [CreditObject.defaulted]), zero_add,
          remaining_eq hpays.quotes.loan hstatus]
        exact mul_le_mul_of_nonneg_right (monthlyPayment_le_loanForReturn hc hstatus)
          (by positivity)
      · rw [netOf_append, netOf_transferMoves, zero_add, held_defaulted]
        exact netOf_settlementMoves (settlement_in hs) assetId

theorem outstanding_completed (assetId : AssetId) : c.completed.outstanding v assetId = 0 := by
  rw [outstanding, remaining_of_closed (by simp [completed]), held_completed]
  simp

theorem PotentialKept.completed (h : PotentialKept v c c' ms) (hc' : c'.NonNegative) :
    PotentialKept v c c'.completed
      (.pay c'.borrower.borrower c'.borrower.depositAsset :: ms) := by
  intro assetId
  have hkept := h assetId
  have hremaining := remaining_nonneg (v := v) hc'
  have hpay : Movement.effect assetId
      (.pay c'.borrower.borrower c'.borrower.depositAsset) = c'.held assetId := rfl
  rw [netOf_cons, hpay, outstanding_completed]
  simp only [outstanding] at hkept ⊢
  push_cast
  split_ifs at hkept ⊢ <;> linarith

/-- Processing a credit raises no asset's potential. -/
theorem ProcessOutcome.potentialKept (hc : c.Valid v) (h : ProcessOutcome boost v c l c' ms) :
    PotentialKept v c c' ms := by
  cases h with
  | closed hstatus => intro assetId; simp
  | @stoppedLoss q s hstatus hcollateral hq hstop hs =>
      have hheld := netOf_stoppedLoss (stopLossSettlement_in hs)
      have hclosed : ((c.afterSettlement s).setDeposit ⟨0, c.depositId⟩).defaulted.remaining v = 0 :=
        remaining_of_closed (by simp [CreditObject.defaulted])
      unfold stopLossSettlement at hs
      split_ifs at hs with hshort
      · refine potentialKept_of_settlement hc.nonneg hshort hs rfl ?_ hheld
        rw [hclosed, zero_add, remaining_eq hq.loan hstatus]
      · refine potentialKept_of_remaining_le rfl ?_ fun assetId ↦ ?_
        · rw [hclosed]
          exact remaining_nonneg hc.nonneg
        · simp only [Checked.bind_eq_ok, Checked.pure_eq_ok] at hs
          obtain ⟨amount, -, rfl⟩ := hs
          rw [hheld, leak, Asset.part_mk, Asset.part_mk]
          split_ifs <;> omega
  | notDue hstatus hquoted hdue => intro assetId; simp
  | month hstatus hquoted hdue hmonth hperiod => exact hmonth.potentialKept hc hstatus
  | lastMonth hstatus hquoted hdue hmonth hperiod =>
      exact (hmonth.potentialKept hc hstatus).completed (hmonth.nonNegative hc.nonneg).1

/-! ## What a credit keeps -/

/-- What processing leaves of a credit: its parties, its assets and its terms. -/
structure SameTerms (c c' : CreditObject) : Prop where
  borrower : c'.borrower.borrower = c.borrower.borrower
  loan : c'.borrower.loanAsset = c.borrower.loanAsset
  deposit : c'.depositId = c.depositId
  period : c'.borrower.loanPeriod = c.borrower.loanPeriod
  collateral : c'.borrower.collateralFree = c.borrower.collateralFree
  creditor : c'.creditor = c.creditor

theorem sameTerms_nextMonth (h : SameTerms c c') : SameTerms c c'.nextMonth := by
  unfold nextMonth
  split_ifs
  · exact ⟨h.borrower, h.loan, h.deposit, h.period, h.collateral, h.creditor⟩
  · exact h

theorem MonthOutcome.sameTerms (h : MonthOutcome v c l c' ms) : SameTerms c c' := by
  cases h with
  | paid => exact sameTerms_nextMonth ⟨rfl, rfl, rfl, rfl, rfl, rfl⟩
  | delayed => exact sameTerms_nextMonth ⟨rfl, rfl, rfl, rfl, rfl, rfl⟩
  | waiting => exact sameTerms_nextMonth ⟨rfl, rfl, rfl, rfl, rfl, rfl⟩
  | defaulted => exact ⟨rfl, rfl, rfl, rfl, rfl, rfl⟩
  | fromDeposit => exact sameTerms_nextMonth ⟨rfl, rfl, rfl, rfl, rfl, rfl⟩
  | exhausted => exact ⟨rfl, rfl, rfl, rfl, rfl, rfl⟩

theorem ProcessOutcome.sameTerms (h : ProcessOutcome boost v c l c' ms) : SameTerms c c' := by
  cases h with
  | closed => exact ⟨rfl, rfl, rfl, rfl, rfl, rfl⟩
  | stoppedLoss => exact ⟨rfl, rfl, rfl, rfl, rfl, rfl⟩
  | notDue => exact ⟨rfl, rfl, rfl, rfl, rfl, rfl⟩
  | month hstatus hquoted hdue hmonth => exact hmonth.sameTerms
  | lastMonth hstatus hquoted hdue hmonth =>
      have h := hmonth.sameTerms
      exact ⟨h.borrower, h.loan, h.deposit, h.period, h.collateral, h.creditor⟩

theorem QuotesIn.congr (h : SameTerms c c') (hq : QuotesIn v c q) : QuotesIn v c' q := by
  have hid : c'.loanId = c.loanId := congrArg Asset.assetId h.loan
  exact ⟨h.deposit ▸ hq.deposit, hid ▸ hq.loan, hq.depositExchangeRate, hq.loanExchangeRate⟩

theorem Valid.of_sameTerms (hc : c.Valid v) (h : SameTerms c c') (hc' : c'.NonNegative)
    (hlive : c'.status = .inProgress → c'.settleMonthElapsed < c'.borrower.loanPeriod) :
    c'.Valid v := by
  have hid : c'.loanId = c.loanId := congrArg Asset.assetId h.loan
  refine ⟨hc', h.borrower ▸ hc.borrower, h.deposit ▸ hc.deposit, hid ▸ hc.loan, fun hfree ↦ ?_,
    h.period ▸ hc.period, hlive⟩
  rw [h.collateral] at hfree
  obtain ⟨q, hq⟩ := hc.quotes hfree
  exact ⟨q, hq.congr h⟩

theorem ProcessOutcome.valid (hc : c.Valid v) (h : ProcessOutcome boost v c l c' ms) :
    c'.Valid v := by
  refine hc.of_sameTerms h.sameTerms (h.nonNegative hc.nonneg).1 fun hstatus' ↦ ?_
  cases h with
  | closed hstatus => exact absurd hstatus' hstatus
  | stoppedLoss => cases hstatus'
  | notDue hstatus => exact hc.live hstatus
  | month hstatus hquoted hdue hmonth hperiod => exact hperiod
  | lastMonth => cases hstatus'

/-! ## When processing succeeds -/

/-- Room for what a credit may still add to the balances. -/
def Room (v : ChainView) (c : CreditObject) (l : Ledger) : Prop :=
  ∀ assetId, (l.total assetId : ℚ) + c.outstanding v assetId < shareEnd

/-- Every pay date exists, and the payments to come are within the share range
when valued in the deposit asset. -/
structure Fits (boost : BoostLibrary) (v : ChainView) (c : CreditObject) : Prop where
  date : ∃ days, boost.payDateDays c.requestApprovationTime
    (wrap32 (c.settleMonthElapsed + 1)) = some days
  value : ¬c.borrower.collateralFree → ∀ q, QuotesIn v c q →
    c.loanForReturn * q.loanExchangeRate / q.depositExchangeRate * 10 ^ q.deposit.precision <
      shareEnd

theorem toShare_ok {x : ℚ} (hlow : 0 ≤ x) (hhigh : x < shareEnd) : toShare x = .ok (truncate x) := by
  refine toShare_eq_ok.mpr ⟨⟨?_, ?_⟩, rfl⟩
  · exact le_trans (by decide) (truncate_nonneg hlow)
  · rw [truncate_of_nonneg hlow]
    exact Int.floor_lt.mpr hhigh

theorem transfer_ok {source : AccountId} (target : AccountId) {taken given : ℤ} {assetId : AssetId}
    (htaken : 0 ≤ taken) (hcover : taken ≤ (l.getBalance source assetId).amount)
    (hgiven : 0 ≤ given) (hroom : l.total assetId < shareEnd)
    (hafter : l.total assetId - taken + given < shareEnd) :
    ∃ l', l.transfer source ⟨taken, assetId⟩ target ⟨given, assetId⟩ = .ok l' := by
  obtain ⟨mid, hcharge⟩ : ∃ mid, l.charge source ⟨taken, assetId⟩ = .ok mid :=
    Ledger.charge_ok source htaken hcover hroom
  have htotal := (Ledger.moves_of_charge hcharge).total assetId
  simp only [netOf_cons, netOf_nil, Movement.effect, Asset.part_mk, if_true, add_zero] at htotal
  obtain ⟨l', hpay⟩ : ∃ l', mid.pay target ⟨given, assetId⟩ = .ok l' :=
    Ledger.pay_ok target hgiven (by simp only; omega)
  exact ⟨l', Checked.bind_eq_ok.mpr ⟨mid, hcharge, hpay⟩⟩

theorem updateAccountKarma_ok {account : AccountId} (h : ∃ o, v.accounts account = some o) :
    v.updateAccountKarma account = .ok () := by
  obtain ⟨o, ho⟩ := h
  exact Checked.bind_eq_ok.mpr ⟨o, ChainView.accountObject_eq_ok.mpr ho, rfl⟩

theorem Room.total_lt (h : Room v c l) (hc : c.NonNegative) (assetId : AssetId) :
    l.total assetId < shareEnd := by
  have hroom := h assetId
  have houtstanding := outstanding_nonneg (v := v) hc assetId
  have hlt : (l.total assetId : ℚ) < shareEnd := by linarith
  exact_mod_cast hlt

/-- The payments to come fit on top of what the accounts hold. -/
theorem Room.remaining_lt (h : Room v c l) (hc : c.NonNegative) :
    (l.total c.loanId : ℚ) + c.remaining v < shareEnd := by
  have hroom := h c.loanId
  have hheld : (0 : ℚ) ≤ c.held c.loanId := by exact_mod_cast held_nonneg hc c.loanId
  rw [outstanding, if_pos rfl] at hroom
  linarith

/-- The deposit fits on top of what the accounts hold. -/
theorem Room.deposit_lt (h : Room v c l) (hc : c.NonNegative) :
    l.total c.depositId + c.borrower.depositAsset.amount < shareEnd := by
  have hroom := h c.depositId
  have hremaining := remaining_nonneg (v := v) hc
  have hheld : c.held c.depositId = c.borrower.depositAsset.amount := if_pos rfl
  rw [outstanding, hheld] at hroom
  have hlt : (l.total c.depositId : ℚ) + c.borrower.depositAsset.amount < shareEnd := by
    split_ifs at hroom <;> linarith
  exact_mod_cast hlt

theorem Room.of_moves {mid : Ledger} (h : Room v c l) (hmoves : l.Moves ms mid)
    (hkept : PotentialKept v c c' ms) : Room v c' mid := by
  intro assetId
  have hroom := h assetId
  have hkeep := hkept assetId
  rw [hmoves.total]
  push_cast
  linarith

theorem balance_lt (hroom : l.total c.loanId < shareEnd) :
    ((l.getBalance c.borrower.borrower c.loanId).amount : ℚ) < shareEnd := by
  have hle := l.getBalance_le_total c.borrower.borrower c.loanId
  exact_mod_cast hle.trans_lt hroom

/-- The whole balance of the borrower passes through its decimal text. -/
theorem toShare_balance (loan : AssetObject) (hroom : l.total c.loanId < shareEnd) :
    toShare (loan.amountToReal (l.getBalance c.borrower.borrower c.loanId).amount *
      10 ^ loan.precision) = .ok (l.getBalance c.borrower.borrower c.loanId).amount := by
  have hpow : (10 : ℚ) ^ loan.precision ≠ 0 := by positivity
  rw [loan.amountToReal_of_nonneg (l.getBalance_nonneg _ _), div_mul_cancel₀ _ hpow,
    toShare_ok (by exact_mod_cast l.getBalance_nonneg _ _) (balance_lt hroom), truncate_intCast]

theorem completeCreditOperationUbnormal_ok (hc : c.Valid v)
    (hroom : l.total c.loanId < shareEnd) :
    ∃ r, c.completeCreditOperationUbnormal v l = .ok r := by
  obtain ⟨deposit, hdeposit⟩ := hc.deposit
  obtain ⟨loan, hloan⟩ := hc.loan
  have hbalance := l.getBalance_nonneg c.borrower.borrower c.loanId
  obtain ⟨l', htransfer⟩ := transfer_ok c.creditor.creditor hbalance le_rfl hbalance
    hroom (by omega)
  exact ⟨_, Checked.bind_eq_ok.mpr ⟨deposit, ChainView.assetObject_eq_ok.mpr hdeposit,
    Checked.bind_eq_ok.mpr ⟨loan, ChainView.assetObject_eq_ok.mpr hloan,
    Checked.bind_eq_ok.mpr ⟨_, toShare_balance loan hroom,
    Checked.bind_eq_ok.mpr ⟨l', htransfer,
    Checked.bind_eq_ok.mpr ⟨(), updateAccountKarma_ok hc.borrower, rfl⟩⟩⟩⟩⟩⟩

theorem settleMonthlyPayment_ok {loan : AssetObject} {amount : ℤ} (hc : c.Valid v)
    (hloan : v.assets c.loanId = some loan)
    (hamount : toShare (c.creditor.monthlyPayment * 10 ^ loan.precision) = .ok amount)
    (hcover : amount ≤ (l.getBalance c.borrower.borrower c.loanId).amount)
    (hroom : l.total c.loanId < shareEnd) : ∃ r, c.settleMonthlyPayment v l = .ok r := by
  obtain ⟨deposit, hdeposit⟩ := hc.deposit
  have hamount0 := payment_share_nonneg hc.nonneg hamount
  obtain ⟨l', htransfer⟩ := transfer_ok c.creditor.creditor hamount0 hcover hamount0
    hroom (by omega)
  exact ⟨_, Checked.bind_eq_ok.mpr ⟨loan, ChainView.assetObject_eq_ok.mpr hloan,
    Checked.bind_eq_ok.mpr ⟨deposit, ChainView.assetObject_eq_ok.mpr hdeposit,
    Checked.bind_eq_ok.mpr ⟨amount, hamount,
    Checked.bind_eq_ok.mpr ⟨l', htransfer,
    Checked.bind_eq_ok.mpr ⟨(), updateAccountKarma_ok hc.borrower, rfl⟩⟩⟩⟩⟩⟩

/-- A sum the borrower lacks is settled when it and its value in the deposit
asset are within the share range. -/
theorem settlement_ok {sum : ℚ} (hc : c.NonNegative) (hshort : c.loanLeft q l < sum)
    (hloanRoom : l.total c.loanId < shareEnd)
    (hdepositRoom : l.total c.depositId + c.borrower.depositAsset.amount < shareEnd)
    (hsum : sum * 10 ^ q.loan.precision < shareEnd)
    (hvalue : sum * q.loanExchangeRate / q.depositExchangeRate * 10 ^ q.deposit.precision <
      shareEnd) : ∃ s, c.settlement q l sum = .ok s := by
  have hloanRate := q.loanExchangeRate.2
  have hdepositRate := q.depositExchangeRate.2
  have hleft := loanLeft_nonneg c q l
  have hdeposit := depositLeft_nonneg hc q
  have hsum0 : 0 ≤ sum := hleft.trans hshort.le
  have hdebt : 0 ≤ c.debtInDeposit q l sum := by
    have : 0 ≤ sum - c.loanLeft q l := sub_nonneg.mpr hshort.le
    unfold debtInDeposit
    positivity
  have hdebtLe : c.debtInDeposit q l sum * 10 ^ q.deposit.precision ≤
      sum * q.loanExchangeRate / q.depositExchangeRate * 10 ^ q.deposit.precision := by
    unfold debtInDeposit
    gcongr
    linarith
  have hborrower := toShare_balance q.loan hloanRoom
  have htaken := toShare_ok (mul_nonneg hdebt (show (0 : ℚ) ≤ 10 ^ q.deposit.precision by
    positivity)) (hdebtLe.trans_lt hvalue)
  have hgiven := toShare_ok (mul_nonneg hsum0 (show (0 : ℚ) ≤ 10 ^ q.loan.precision by
    positivity)) hsum
  simp only [settlement, Checked.bind_eq_ok]
  by_cases hreach : c.depositLeft q < c.debtInDeposit q l sum
  · have hworth : c.depositLeft q * q.depositExchangeRate / q.loanExchangeRate + c.loanLeft q l ≤
        sum := by
      have hvalue : c.depositLeft q * q.depositExchangeRate <
          (sum - c.loanLeft q l) * q.loanExchangeRate := (lt_div_iff₀ hdepositRate).mp hreach
      have := (div_lt_iff₀ hloanRate).mpr hvalue
      linarith
    have hall : c.depositLeft q * 10 ^ q.deposit.precision < shareEnd := by
      have hlt : c.borrower.depositAsset.amount < shareEnd := by
        have := l.total_nonneg c.depositId
        omega
      rw [depositLeft_scaled hc q]
      exact_mod_cast hlt
    have hgiven' := toShare_ok (by positivity)
      ((mul_le_mul_of_nonneg_right hworth (by positivity)).trans_lt hsum)
    have htaken' := toShare_ok (by positivity) hall
    simp only [if_pos hreach, Checked.bind_eq_ok]
    exact ⟨_, _, hborrower, _, htaken, _, hgiven, _, hgiven', _, htaken', rfl⟩
  · simp only [if_neg hreach]
    exact ⟨_, _, hborrower, _, htaken, _, hgiven, rfl⟩

/-- The movements of a settlement are possible when the borrower, the deposit
and the share range cover them. -/
theorem settle_ok (hin : c.SettlementIn s) (hborrower : 0 ≤ s.loanAssetFromBorrower.amount)
    (hcover : s.loanAssetFromBorrower.amount ≤
      (l.getBalance c.borrower.borrower c.loanId).amount)
    (hcreditor : 0 ≤ s.loanAssetToCreditor.amount) (hroom : l.total c.loanId < shareEnd)
    (hafter : l.total c.loanId - s.loanAssetFromBorrower.amount + s.loanAssetToCreditor.amount <
      shareEnd)
    (htaken : 0 ≤ s.depositAssetFromDeposit.amount)
    (hdeposit : s.depositAssetFromDeposit.amount ≤ c.borrower.depositAsset.amount)
    (hheld : c.borrower.depositAsset.amount < shareEnd) :
    ∃ l', c.settle v q s l = .ok (c.afterSettlement s, l') ∧
      l'.total c.loanId =
        l.total c.loanId - s.loanAssetFromBorrower.amount + s.loanAssetToCreditor.amount := by
  obtain ⟨⟨fromBorrower, _⟩, ⟨toCreditor, _⟩, ⟨fromDeposit, _⟩⟩ := s
  obtain ⟨rfl, rfl, rfl⟩ := hin
  obtain ⟨l', htransfer⟩ := transfer_ok c.creditor.creditor hborrower hcover hcreditor
    hroom hafter
  have hsub : c.borrower.depositAsset.sub ⟨fromDeposit, c.depositId⟩ =
      .ok ⟨c.borrower.depositAsset.amount - fromDeposit, c.depositId⟩ := by
    refine Asset.sub_eq_ok.mpr ⟨rfl, ⟨?_, ?_⟩, rfl⟩
    · exact le_trans (by decide) (sub_nonneg.mpr hdeposit)
    · simp only at htaken ⊢
      omega
  have hconvert : c.checkConvertation v q
      ⟨⟨fromBorrower, c.loanId⟩, ⟨toCreditor, c.loanId⟩, ⟨fromDeposit, c.depositId⟩⟩ l' = .ok l' := by
    rw [checkConvertation, if_neg (by simp)]
    rfl
  refine ⟨l', Checked.bind_eq_ok.mpr ⟨l', htransfer, Checked.bind_eq_ok.mpr ⟨_, hsub,
    Checked.bind_eq_ok.mpr ⟨l', hconvert, rfl⟩⟩⟩, ?_⟩
  rw [(Ledger.moves_of_transfer htransfer).total]
  simp only [netOf_cons, netOf_nil, Movement.effect, Asset.part_mk, if_true]
  ring

/-- A sum among the payments to come is settled out of balance and deposit. -/
theorem settleSum_ok {sum : ℚ} (hc : c.Valid v) (hroom : Room v c l)
    (hshort : c.loanLeft q l < sum) (hsum : sum * 10 ^ q.loan.precision ≤ c.remaining v)
    (hvalue : sum * q.loanExchangeRate / q.depositExchangeRate * 10 ^ q.deposit.precision <
      shareEnd) :
    ∃ s l', c.settlement q l sum = .ok s ∧ c.settle v q s l = .ok (c.afterSettlement s, l') ∧
      l'.total c.loanId < shareEnd := by
  have hloanRoom := hroom.total_lt hc.nonneg c.loanId
  have hdepositRoom := hroom.deposit_lt hc.nonneg
  have hremaining := hroom.remaining_lt hc.nonneg
  have hdepositTotal0 := l.total_nonneg c.depositId
  have hcast : (0 : ℚ) ≤ l.total c.loanId := by exact_mod_cast l.total_nonneg c.loanId
  obtain ⟨s, hs⟩ := settlement_ok hc.nonneg hshort hloanRoom hdepositRoom (by linarith) hvalue
  obtain ⟨hborrower, hcreditor, hdeposit⟩ := settlement_nonneg hc.nonneg hshort hs
  obtain ⟨hgiven, htaken⟩ := settlement_le hc.nonneg hshort hs
  obtain ⟨hfrom, -⟩ := settlement_sums hs
  have hafter : l.total c.loanId - s.loanAssetFromBorrower.amount +
      s.loanAssetToCreditor.amount < shareEnd := by
    have hlt : (l.total c.loanId : ℚ) + s.loanAssetToCreditor.amount < shareEnd := by linarith
    have hint : l.total c.loanId + s.loanAssetToCreditor.amount < shareEnd := by
      exact_mod_cast hlt
    omega
  obtain ⟨l', hsettle, htotal⟩ := settle_ok (v := v) (q := q) (settlement_in hs) hborrower
    (by rw [hfrom]) hcreditor hloanRoom hafter htaken hdeposit (by omega)
  exact ⟨s, l', hs, hsettle, htotal ▸ hafter⟩

theorem Fits.monthly_lt (hfits : Fits boost v c) (hc : c.Valid v) (hstatus : c.status = .inProgress)
    (hcollateral : ¬c.borrower.collateralFree) (hq : QuotesIn v c q) :
    c.creditor.monthlyPayment * q.loanExchangeRate / q.depositExchangeRate *
      10 ^ q.deposit.precision < shareEnd := by
  have hle := monthlyPayment_le_loanForReturn hc hstatus
  have hloanRate := q.loanExchangeRate.2
  have hdepositRate := q.depositExchangeRate.2
  refine lt_of_le_of_lt ?_ (hfits.value hcollateral q hq)
  gcongr

theorem settleFromDeposit_ok (hc : c.Valid v) (hstatus : c.status = .inProgress)
    (hcollateral : ¬c.borrower.collateralFree) (hroom : Room v c l) (hfits : Fits boost v c)
    (hshort : ∀ loan, v.assets c.loanId = some loan → c.PaymentShort loan l) :
    ∃ r, c.settleFromDeposit v l = .ok r := by
  obtain ⟨q, hq⟩ := hc.quotes hcollateral
  simp only [settleFromDeposit, Checked.bind_eq_ok, ChainView.assetObject_eq_ok]
  by_cases hzero : q.deposit.amountToReal c.borrower.depositAsset.amount = 0
  · obtain ⟨r, hr⟩ := completeCreditOperationUbnormal_ok hc (hroom.total_lt hc.nonneg _)
    exact ⟨r, q.deposit, hq.deposit, by rw [if_pos hzero]; exact hr⟩
  · have hmonthly : c.creditor.monthlyPayment * 10 ^ q.loan.precision ≤ c.remaining v := by
      rw [remaining_eq hq.loan hstatus]
      exact mul_le_mul_of_nonneg_right (monthlyPayment_le_loanForReturn hc hstatus)
        (by positivity)
    have hlt := loanLeft_lt_of_short (hshort q.loan hq.loan)
    obtain ⟨s, l', hs, hsettle, htotal⟩ := settleSum_ok hc hroom hlt hmonthly
      (hfits.monthly_lt hc hstatus hcollateral hq)
    obtain ⟨-, -, hdeposit⟩ := settlement_nonneg hc.nonneg hlt hs
    have hvalid : (c.afterSettlement s).Valid v :=
      hc.of_sameTerms ⟨rfl, rfl, rfl, rfl, rfl, rfl⟩
        (nonNegative_afterSettlement hc.nonneg hdeposit) fun _ ↦ hc.live hstatus
    obtain ⟨r, hr⟩ : ∃ r, (if c.depositLeft q < c.debtInDeposit q l c.creditor.monthlyPayment
        then completeCreditOperationUbnormal v (c.afterSettlement s) l'
        else pure ({ c.afterSettlement s with expiredTimeStart := 0 }, l')) = .ok r := by
      split_ifs
      · exact completeCreditOperationUbnormal_ok hvalid htotal
      · exact ⟨_, rfl⟩
    refine ⟨r, q.deposit, hq.deposit, ?_⟩
    rw [if_neg hzero]
    exact Checked.bind_eq_ok.mpr ⟨q, quotes_eq_ok.mpr hq, Checked.bind_eq_ok.mpr ⟨s, hs,
      Checked.bind_eq_ok.mpr ⟨_, hsettle, hr⟩⟩⟩

theorem payment_ok (hc : c.Valid v) (hstatus : c.status = .inProgress) (hroom : Room v c l)
    {loan : AssetObject} (hloan : v.assets c.loanId = some loan) :
    ∃ amount, toShare (c.creditor.monthlyPayment * 10 ^ loan.precision) = .ok amount := by
  have hremaining := hroom.remaining_lt hc.nonneg
  have htotal : (0 : ℚ) ≤ l.total c.loanId := by exact_mod_cast l.total_nonneg c.loanId
  have hpow : (0 : ℚ) ≤ 10 ^ loan.precision := by positivity
  rw [remaining_eq hloan hstatus] at hremaining
  have hle := mul_le_mul_of_nonneg_right (monthlyPayment_le_loanForReturn hc hstatus) hpow
  exact ⟨_, toShare_ok (mul_nonneg hc.nonneg.payment hpow) (by linarith)⟩

theorem checkExpiredPayTime_ok (hc : c.Valid v) (hstatus : c.status = .inProgress)
    (hroom : Room v c l) (hfits : Fits boost v c)
    (hshort : ∀ loan, v.assets c.loanId = some loan → c.PaymentShort loan l) :
    ∃ r, c.checkExpiredPayTime v l = .ok r := by
  obtain ⟨loan, hloan⟩ := hc.loan
  unfold checkExpiredPayTime
  split_ifs with hstart hover hfree
  · obtain ⟨amount, hamount⟩ := payment_ok hc hstatus hroom hloan
    exact ⟨_, Checked.bind_eq_ok.mpr ⟨loan, ChainView.assetObject_eq_ok.mpr hloan,
      Checked.bind_eq_ok.mpr ⟨amount, hamount,
      Checked.bind_eq_ok.mpr ⟨(), updateAccountKarma_ok hc.borrower, rfl⟩⟩⟩⟩
  · exact completeCreditOperationUbnormal_ok hc (hroom.total_lt hc.nonneg _)
  · exact settleFromDeposit_ok hc hstatus hfree hroom hfits hshort
  · exact ⟨_, rfl⟩

theorem onNextMonth_ok (hc : c.Valid v) (hstatus : c.status = .inProgress) (hroom : Room v c l)
    (hfits : Fits boost v c) : ∃ r, c.onNextMonth v l = .ok r := by
  obtain ⟨loan, hloan⟩ := hc.loan
  obtain ⟨account, haccount⟩ := hc.borrower
  obtain ⟨amount, hamount⟩ := payment_ok hc hstatus hroom hloan
  obtain ⟨⟨c', l'⟩, hpay⟩ : ∃ r, c.payMonth v amount l = .ok r := by
    unfold payMonth
    split_ifs with hcover
    · exact settleMonthlyPayment_ok hc hloan hamount hcover (hroom.total_lt hc.nonneg _)
    · refine checkExpiredPayTime_ok hc hstatus hroom hfits fun loan' hloan' ↦ ?_
      obtain rfl := Option.some.inj (hloan.symm.trans hloan')
      exact ⟨amount, hamount, not_le.mp hcover⟩
  have hafter : (if c'.status = .completeUbnormal then pure (c', l')
      else pure (c'.nextMonth, l') : Checked (CreditObject × Ledger)) = .ok (c'.afterMonth, l') := by
    unfold afterMonth
    split_ifs <;> rfl
  exact ⟨(c'.afterMonth, l'), Checked.bind_eq_ok.mpr ⟨account,
    ChainView.accountObject_eq_ok.mpr haccount, Checked.bind_eq_ok.mpr ⟨loan,
    ChainView.assetObject_eq_ok.mpr hloan, Checked.bind_eq_ok.mpr ⟨amount, hamount,
    Checked.bind_eq_ok.mpr ⟨_, hpay, hafter⟩⟩⟩⟩⟩

theorem processPayment_ok (hc : c.Valid v) (hstatus : c.status = .inProgress) (hroom : Room v c l)
    (hfits : Fits boost v c) : ∃ r, c.processPayment boost v l = .ok r := by
  obtain ⟨days, hdays⟩ := hfits.date
  obtain ⟨due, hdue⟩ : ∃ due, c.paymentDue boost v = .ok due := by
    unfold paymentDue
    rw [hdays]
    exact ⟨_, rfl⟩
  simp only [processPayment, Checked.bind_eq_ok]
  cases due with
  | false => exact ⟨(c, l), false, hdue, rfl⟩
  | true =>
      obtain ⟨⟨c', l'⟩, hmonth⟩ := onNextMonth_ok hc hstatus hroom hfits
      obtain ⟨r, hr⟩ : ∃ r, (if c'.borrower.loanPeriod ≤ c'.settleMonthElapsed
          then c'.completeCreditOperation v l' else pure (c', l')) = .ok r := by
        split_ifs with hperiod
        · obtain ⟨ms, hmoves, houtcome⟩ := onNextMonth_cases hmonth (by simp [hstatus])
          have hc' := (houtcome.nonNegative hc.nonneg).1
          have hroom' := hroom.of_moves hmoves (houtcome.potentialKept hc hstatus)
          have hterms := houtcome.sameTerms
          obtain ⟨deposit, hdeposit⟩ := hc.deposit
          obtain ⟨l'', hpay⟩ := Ledger.pay_ok c'.borrower.borrower hc'.deposit
            (hroom'.deposit_lt hc')
          exact ⟨_, Checked.bind_eq_ok.mpr ⟨deposit,
            ChainView.assetObject_eq_ok.mpr (hterms.deposit ▸ hdeposit),
            Checked.bind_eq_ok.mpr ⟨l'', hpay, Checked.bind_eq_ok.mpr
              ⟨(), updateAccountKarma_ok (hterms.borrower ▸ hc.borrower), rfl⟩⟩⟩⟩
        · exact ⟨_, rfl⟩
      refine ⟨r, true, hdue, ?_⟩
      rw [if_pos rfl]
      exact Checked.bind_eq_ok.mpr ⟨_, hmonth, hr⟩

theorem stopLossSettlement_ok (hc : c.Valid v) (hstatus : c.status = .inProgress)
    (hcollateral : ¬c.borrower.collateralFree) (hq : QuotesIn v c q) (hroom : Room v c l)
    (hfits : Fits boost v c) :
    ∃ s l', c.stopLossSettlement q l = .ok s ∧ c.settle v q s l = .ok (c.afterSettlement s, l') := by
  unfold stopLossSettlement
  split_ifs with hshort
  · obtain ⟨s, l', hs, hsettle, -⟩ := settleSum_ok hc hroom hshort
      (remaining_eq hq.loan hstatus).ge (hfits.value hcollateral q hq)
    exact ⟨s, l', hs, hsettle⟩
  · have hloanRoom := hroom.total_lt hc.nonneg c.loanId
    have hdepositRoom := hroom.deposit_lt hc.nonneg
    have hdepositTotal0 := l.total_nonneg c.depositId
    have hremaining := hroom.remaining_lt hc.nonneg
    rw [remaining_eq hq.loan hstatus] at hremaining
    have htotal : (0 : ℚ) ≤ l.total c.loanId := by exact_mod_cast l.total_nonneg c.loanId
    have hreturn0 : (0 : ℚ) ≤ c.loanForReturn * 10 ^ q.loan.precision :=
      mul_nonneg (loanForReturn_nonneg hc.nonneg) (by positivity)
    have hcover : truncate (c.loanForReturn * 10 ^ q.loan.precision) ≤
        (l.getBalance c.borrower.borrower c.loanId).amount := by
      refine truncate_le_of_le_intCast hreturn0 ?_
      rw [← loanLeft_scaled c q l]
      exact mul_le_mul_of_nonneg_right (not_lt.mp hshort) (by positivity)
    have hsum0 := truncate_nonneg hreturn0
    obtain ⟨l', hsettle, -⟩ := settle_ok (v := v) (q := q)
      (s := ⟨⟨truncate (c.loanForReturn * 10 ^ q.loan.precision), c.loanId⟩,
        ⟨truncate (c.loanForReturn * 10 ^ q.loan.precision), c.loanId⟩, ⟨0, c.depositId⟩⟩)
      ⟨rfl, rfl, rfl⟩ hsum0 hcover hsum0 hloanRoom (by simp only; omega) le_rfl hc.nonneg.deposit
      (by omega)
    exact ⟨_, l', Checked.bind_eq_ok.mpr ⟨_, toShare_ok hreturn0 (by linarith), rfl⟩, hsettle⟩

theorem checkDepositQuotes_ok (hc : c.Valid v) (hstatus : c.status = .inProgress)
    (hcollateral : ¬c.borrower.collateralFree) (hroom : Room v c l) (hfits : Fits boost v c) :
    (∃ r, c.checkDepositQuotes v l = .ok (false, r)) ∨
      c.checkDepositQuotes v l = .ok (true, c, l) := by
  obtain ⟨q, hq⟩ := hc.quotes hcollateral
  simp only [checkDepositQuotes, Checked.bind_eq_ok]
  by_cases hstop : c.stopLoss q
  · left
    obtain ⟨s, l', hs, hsettle⟩ := stopLossSettlement_ok hc hstatus hcollateral hq hroom hfits
    have houtcome : ProcessOutcome boost v c l _ _ :=
      .stoppedLoss hstatus hcollateral hq hstop hs
    have hclosed := (houtcome.nonNegative hc.nonneg).1
    have hleft := (houtcome.nonNegative hc.nonneg).2 _ List.mem_cons_self
    obtain ⟨hmoves, -⟩ := settle_eq_ok (stopLossSettlement_in hs) hsettle
    -- the potential covers the deposit that goes back to the borrower
    have hpay : ∃ l'', l'.pay c.borrower.borrower (c.afterSettlement s).borrower.depositAsset =
        .ok l'' := by
      refine Ledger.pay_ok _ hleft ?_
      have hkept := houtcome.potentialKept hc c.depositId
      have hroomDeposit := hroom c.depositId
      have hrest := outstanding_nonneg (v := v) hclosed c.depositId
      have hlt : (l.total c.depositId : ℚ) + netOf c.depositId
          (.pay c.borrower.borrower (c.afterSettlement s).borrower.depositAsset ::
            c.settlementMoves s) < shareEnd := by linarith
      have hint : l.total c.depositId + netOf c.depositId
          (.pay c.borrower.borrower (c.afterSettlement s).borrower.depositAsset ::
            c.settlementMoves s) < shareEnd := by exact_mod_cast hlt
      have hpart : (c.afterSettlement s).borrower.depositAsset.part c.depositId =
          (c.afterSettlement s).borrower.depositAsset.amount := if_pos rfl
      rw [netOf_cons, Movement.effect, hpart] at hint
      change l'.total c.depositId + _ < _
      rw [hmoves.total]
      omega
    obtain ⟨l'', hpay⟩ := hpay
    refine ⟨(((c.afterSettlement s).setDeposit ⟨0, c.depositId⟩).defaulted, l''), q,
      quotes_eq_ok.mpr hq, ?_⟩
    rw [if_pos hstop]
    exact Checked.bind_eq_ok.mpr ⟨s, hs, Checked.bind_eq_ok.mpr ⟨_, hsettle,
      Checked.bind_eq_ok.mpr ⟨l'', hpay, rfl⟩⟩⟩
  · right
    exact ⟨q, quotes_eq_ok.mpr hq, by rw [if_neg hstop]; rfl⟩

/-- A valid credit with room for what it may still add is processed. -/
theorem process_ok (hc : c.Valid v) (hroom : Room v c l)
    (hfits : c.status = .inProgress → Fits boost v c) : ∃ r, c.process boost v l = .ok r := by
  unfold process
  split_ifs with hstatus hfree
  · exact processPayment_ok hc hstatus hroom (hfits hstatus)
  · rcases checkDepositQuotes_ok hc hstatus hfree hroom (hfits hstatus) with ⟨r, hcheck⟩ | hcheck
    · exact ⟨r, Checked.bind_eq_ok.mpr ⟨_, hcheck, rfl⟩⟩
    · obtain ⟨r, hr⟩ := processPayment_ok hc hstatus hroom (hfits hstatus)
      exact ⟨r, Checked.bind_eq_ok.mpr ⟨_, hcheck, hr⟩⟩
  · exact ⟨_, rfl⟩

end CreditObject

end KarmaCore
