import Mathlib
import KarmaCore.Credit.MonthlyPayment

/-!
# The life of a credit

The months of a credit are the payments made for it.  A block either pays a
month in full, out of the balance or with help of the deposit, or leaves the
month as it is; the last payment completes the credit, and a completed credit
stays as it is and holds no deposit unless it was requested with a negative one.
-/

namespace KarmaCore

open Truncation

namespace CreditObject

variable {boost : BoostLibrary} {v : ChainView} {c c' : CreditObject} {l l' : Ledger}
  {ms : List Movement} {n : ℕ}

/-- The borrower's balance covers the month's payment, or the delay is over and
the deposit covers what the balance lacks. -/
def Covered (v : ChainView) (c : CreditObject) (l : Ledger) : Prop :=
  (∃ loan amount, v.assets c.loanId = some loan ∧
    toShare (c.creditor.monthlyPayment * 10 ^ loan.precision) = .ok amount ∧
    amount ≤ (l.getBalance c.borrower.borrower c.loanId).amount) ∨
  (¬c.borrower.collateralFree ∧ DelayOver v c ∧ ∃ q, QuotesIn v c q ∧
    c.debtInDeposit q l c.creditor.monthlyPayment ≤ c.depositLeft q)

/-- A month is due in a block, and its payment is covered. -/
structure MonthPaid (boost : BoostLibrary) (v : ChainView) (c : CreditObject) (l : Ledger) :
    Prop where
  live : c.status = .inProgress
  quoted : Quoted v c
  due : c.paymentDue boost v = .ok true
  covered : Covered v c l

/-- The creditor receives one month's payment in whole shares. -/
def PaysCreditor (v : ChainView) (c : CreditObject) (l l' : Ledger) : Prop :=
  ∃ loan amount ms, v.assets c.loanId = some loan ∧
    toShare (c.creditor.monthlyPayment * 10 ^ loan.precision) = .ok amount ∧
    l.Moves ms l' ∧ .pay c.creditor.creditor ⟨amount, c.loanId⟩ ∈ ms

theorem toCreditor_of_reach {q : Quotes} {sum : ℚ} {s : Settlement}
    (h : c.settlement q l sum = .ok s) (hreach : c.debtInDeposit q l sum ≤ c.depositLeft q) :
    ∃ amount, toShare (sum * 10 ^ q.loan.precision) = .ok amount ∧
      s.loanAssetToCreditor = ⟨amount, c.loanId⟩ := by
  simp only [settlement, Checked.bind_eq_ok] at h
  obtain ⟨_, -, _, -, amount, hamount, h⟩ := h
  rw [if_neg (not_lt.mpr hreach)] at h
  obtain rfl := Checked.pure_eq_ok.mp h
  exact ⟨amount, hamount, rfl⟩

/-- What a month does to the counter: it is paid in full, or not counted. -/
inductive MonthCounted (v : ChainView) (c : CreditObject) (l : Ledger) (c' : CreditObject)
    (l' : Ledger) : Prop
  | paid (hcovered : Covered v c l) (hpays : PaysCreditor v c l l') (hlive : c'.status = .inProgress)
      (helapsed : c'.settleMonthElapsed = c.settleMonthElapsed + 1)
  | unpaid (hcovered : ¬Covered v c l) (hstatus : c'.status ≠ .completeNormal)
      (helapsed : c'.settleMonthElapsed = c.settleMonthElapsed)

theorem nextMonth_of_settled (hmonth : c.settleMonthElapsed + 1 < 2 ^ 32)
    (hstart : c.expiredTimeStart = 0) :
    c.nextMonth.settleMonthElapsed = c.settleMonthElapsed + 1 := by
  rw [nextMonth, if_pos hstart]
  exact_mod_cast wrap32_of_lt hmonth

theorem nextMonth_of_expired (hstart : c.expiredTimeStart ≠ 0) : c.nextMonth = c :=
  if_neg hstart

/-- Where no delay is allowed it is over at once. -/
theorem maxCreditExpirationTime_of_days (hdays : v.creditOptions.maxCreditExpirationDays = 0) :
    maxCreditExpirationTime v = 0 := by
  simp [maxCreditExpirationTime, hdays, wrap32]

section

variable {loan : AssetObject} {payment : ℤ}

theorem not_covered_of_short (hloan : v.assets c.loanId = some loan)
    (hpayment : toShare (c.creditor.monthlyPayment * 10 ^ loan.precision) = .ok payment)
    (hshort : (l.getBalance c.borrower.borrower c.loanId).amount < payment)
    (hdeposit : ¬c.borrower.collateralFree → DelayOver v c → ∀ q, QuotesIn v c q →
      c.depositLeft q < c.debtInDeposit q l c.creditor.monthlyPayment) : ¬Covered v c l := by
  rintro (⟨loan', amount, hloan', hamount, hcover⟩ | ⟨hfree, hover, q, hq, hreach⟩)
  · obtain rfl := Option.some.inj (hloan.symm.trans hloan')
    obtain rfl : payment = amount := by simpa using hpayment.symm.trans hamount
    exact absurd hcover (not_le.mpr hshort)
  · exact absurd hreach (not_le.mpr (hdeposit hfree hover q hq))

theorem debtInDeposit_pos {q : Quotes} (hq : QuotesIn v c q) (hloan : v.assets c.loanId = some loan)
    (hpayment : toShare (c.creditor.monthlyPayment * 10 ^ loan.precision) = .ok payment)
    (hshort : (l.getBalance c.borrower.borrower c.loanId).amount < payment) :
    0 < c.debtInDeposit q l c.creditor.monthlyPayment := by
  obtain rfl := Option.some.inj (hq.loan.symm.trans hloan)
  have hleft := loanLeft_lt_of_short ⟨payment, hpayment, hshort⟩
  have hrate := q.loanExchangeRate.2
  have hdepositRate := q.depositExchangeRate.2
  have hlack : 0 < c.creditor.monthlyPayment - c.loanLeft q l := sub_pos.mpr hleft
  unfold debtInDeposit
  positivity

theorem settleFromDeposit_counted (h : c.settleFromDeposit v l = .ok (c', l'))
    (hlive : c.status = .inProgress) (hmonth : c.settleMonthElapsed + 1 < 2 ^ 32)
    (hloan : v.assets c.loanId = some loan)
    (hpayment : toShare (c.creditor.monthlyPayment * 10 ^ loan.precision) = .ok payment)
    (hshort : (l.getBalance c.borrower.borrower c.loanId).amount < payment)
    (hfree : ¬c.borrower.collateralFree) (hover : DelayOver v c) :
    MonthCounted v c l c'.afterMonth l' := by
  simp only [settleFromDeposit, Checked.bind_eq_ok] at h
  obtain ⟨deposit, hdeposit, h⟩ := h
  rw [ChainView.assetObject_eq_ok] at hdeposit
  split_ifs at h with hzero
  · obtain ⟨_, amount, -, hamount, hmoves, rfl⟩ := completeCreditOperationUbnormal_eq_ok h
    rw [afterMonth_defaulted]
    refine .unpaid (not_covered_of_short hloan hpayment hshort fun _ _ q hq ↦ ?_)
      (by simp [defaulted]) rfl
    -- a deposit of nothing covers no debt
    obtain rfl : q.deposit = deposit := Option.some.inj (hq.deposit.symm.trans hdeposit)
    exact hzero.le.trans_lt (debtInDeposit_pos hq hloan hpayment hshort)
  · simp only [Checked.bind_eq_ok] at h
    obtain ⟨q, hq, s, hs, ⟨mid, m⟩, hsettle, h⟩ := h
    obtain ⟨hmoves, rfl⟩ := settle_eq_ok (settlement_in hs) hsettle
    split_ifs at h with hreach
    · obtain ⟨_, amount, -, hamount, hrest, rfl⟩ := completeCreditOperationUbnormal_eq_ok h
      rw [afterMonth_defaulted]
      refine .unpaid (not_covered_of_short hloan hpayment hshort fun _ _ q' hq' ↦ ?_)
        (by simp [defaulted]) rfl
      obtain rfl : q = q' := by simpa using hq.symm.trans (quotes_eq_ok.mpr hq')
      exact hreach
    · obtain ⟨rfl, rfl⟩ := Prod.mk.inj (Checked.pure_eq_ok.mp h)
      rw [quotes_eq_ok] at hq
      have hreach := not_lt.mp hreach
      obtain ⟨amount, hamount, hcreditor⟩ := toCreditor_of_reach hs hreach
      rw [afterMonth_of_live (by simp [afterSettlement, setDeposit, hlive])]
      refine .paid (.inr ⟨hfree, hover, q, hq, hreach⟩)
        ⟨q.loan, amount, _, hq.loan, hamount, hmoves, ?_⟩ ?_ (nextMonth_of_settled hmonth rfl)
      · simp [settlementMoves, hcreditor]
      · rw [nextMonth_status]
        exact hlive

theorem checkExpiredPayTime_counted (h : c.checkExpiredPayTime v l = .ok (c', l'))
    (hlive : c.status = .inProgress) (hmonth : c.settleMonthElapsed + 1 < 2 ^ 32)
    (htime : 0 < v.headBlockTime) (hloan : v.assets c.loanId = some loan)
    (hpayment : toShare (c.creditor.monthlyPayment * 10 ^ loan.precision) = .ok payment)
    (hshort : (l.getBalance c.borrower.borrower c.loanId).amount < payment) :
    MonthCounted v c l c'.afterMonth l' := by
  have huncovered : (¬c.borrower.collateralFree → ¬DelayOver v c) → ¬Covered v c l := fun hdelay ↦
    not_covered_of_short hloan hpayment hshort fun hfree hover ↦ absurd hover (hdelay hfree)
  unfold checkExpiredPayTime at h
  split_ifs at h with hstart hover hfree
  · simp only [Checked.bind_eq_ok] at h
    obtain ⟨_, -, _, -, _, -, h⟩ := h
    obtain ⟨rfl, rfl⟩ := Prod.mk.inj (Checked.pure_eq_ok.mp h)
    rw [afterMonth_of_live (by simp [hlive]), nextMonth_of_expired (by simpa using htime.ne')]
    exact .unpaid (huncovered fun _ hover ↦ hover.1 hstart) (by simp [hlive]) rfl
  · obtain ⟨_, amount, -, hamount, hmoves, rfl⟩ := completeCreditOperationUbnormal_eq_ok h
    rw [afterMonth_defaulted]
    exact .unpaid (huncovered fun hcollateral ↦ absurd hfree hcollateral) (by simp [defaulted]) rfl
  · exact settleFromDeposit_counted h hlive hmonth hloan hpayment hshort hfree ⟨hstart, hover⟩
  · obtain ⟨rfl, rfl⟩ := Prod.mk.inj (Checked.pure_eq_ok.mp h)
    have hexpired : c.expiredTimeStart ≠ 0 := by
      intro hzero
      have hdays : v.creditOptions.maxCreditExpirationDays = 0 := by simpa [hzero] using hstart
      exact hover (by rw [maxCreditExpirationTime_of_days hdays]; exact Nat.zero_le _)
    rw [afterMonth_of_live (by simp [hlive]), nextMonth_of_expired hexpired]
    exact .unpaid (huncovered fun _ hdelay ↦ hover hdelay.2) (by simp [hlive]) rfl

end

theorem onNextMonth_counted (h : c.onNextMonth v l = .ok (c', l'))
    (hlive : c.status = .inProgress) (hmonth : c.settleMonthElapsed + 1 < 2 ^ 32)
    (htime : 0 < v.headBlockTime) : MonthCounted v c l c' l' := by
  simp only [onNextMonth, Checked.bind_eq_ok] at h
  obtain ⟨_, -, loan, hloan, payment, hpayment, ⟨d, m⟩, hpay, h⟩ := h
  rw [ChainView.assetObject_eq_ok] at hloan
  obtain ⟨rfl, rfl⟩ : d.afterMonth = c' ∧ m = l' := by
    unfold afterMonth
    split_ifs at h ⊢ <;> simpa [pure, Except.pure] using h
  unfold payMonth at hpay
  split_ifs at hpay with hcover
  · obtain ⟨loan', amount, hloan', hamount, hmoves, rfl⟩ := settleMonthlyPayment_eq_ok hpay
    obtain rfl : loan = loan' := Option.some.inj (hloan.symm.trans hloan')
    rw [afterMonth_of_live (by simp [hlive])]
    refine .paid (.inl ⟨loan, payment, hloan, hpayment, hcover⟩)
      ⟨loan, amount, _, hloan, hamount, hmoves, by simp [transferMoves]⟩ (by simpa using hlive)
      (nextMonth_of_settled hmonth rfl)
  · exact checkExpiredPayTime_counted hpay hlive hmonth htime hloan hpayment (not_le.mp hcover)

/-! ## A block -/

/-- What a block does to the counter and the status of a live credit. -/
inductive BlockCounted (boost : BoostLibrary) (v : ChainView) (c : CreditObject) (l : Ledger)
    (c' : CreditObject) (l' : Ledger) : Prop
  | paid (hpaid : MonthPaid boost v c l) (hpays : PaysCreditor v c l l')
      (helapsed : c'.settleMonthElapsed = c.settleMonthElapsed + 1)
      (hstatus : c'.status = .completeNormal ↔ c'.settleMonthElapsed = c.borrower.loanPeriod)
  | unpaid (hunpaid : ¬MonthPaid boost v c l) (hstatus : c'.status ≠ .completeNormal)
      (helapsed : c'.settleMonthElapsed = c.settleMonthElapsed)

/-- The payment back of the deposit comes on top of what the creditor got. -/
theorem PaysCreditor.trans {mid : Ledger} (h : PaysCreditor v c l mid) (hrest : mid.Moves ms l') :
    PaysCreditor v c l l' := by
  obtain ⟨loan, amount, ms', hloan, hamount, hmoves, hmem⟩ := h
  exact ⟨loan, amount, _, hloan, hamount, hmoves.trans hrest, List.mem_append_right _ hmem⟩

theorem onNextMonth_period (h : c.onNextMonth v l = .ok (c', l')) (hlive : c.status = .inProgress) :
    c'.borrower.loanPeriod = c.borrower.loanPeriod := by
  obtain ⟨ms, -, hmonth⟩ := onNextMonth_cases h (by simp [hlive])
  exact hmonth.sameTerms.period

theorem processPayment_counted (h : c.processPayment boost v l = .ok (c', l'))
    (hlive : c.status = .inProgress) (hquoted : Quoted v c)
    (hperiod : c.settleMonthElapsed < c.borrower.loanPeriod)
    (hmonths : c.borrower.loanPeriod < 2 ^ 32) (htime : 0 < v.headBlockTime) :
    BlockCounted boost v c l c' l' := by
  simp only [processPayment, Checked.bind_eq_ok] at h
  obtain ⟨due, hdue, h⟩ := h
  split_ifs at h with hd
  · simp only [Checked.bind_eq_ok] at h
    obtain ⟨⟨d, m⟩, hmonth, h⟩ := h
    dsimp only at h
    subst hd
    have hsame := onNextMonth_period hmonth hlive
    cases onNextMonth_counted hmonth hlive (by omega) htime with
    | paid hcovered hpays hstatus helapsed =>
        have hpaid : MonthPaid boost v c l := ⟨hlive, hquoted, hdue, hcovered⟩
        split_ifs at h with hlast
        · obtain ⟨hpay, rfl⟩ := completeCreditOperation_eq_ok h
          refine .paid hpaid (hpays.trans hpay) helapsed (iff_of_true rfl ?_)
          change d.settleMonthElapsed = _
          omega
        · obtain ⟨rfl, rfl⟩ := Prod.mk.inj (Checked.pure_eq_ok.mp h)
          exact .paid hpaid hpays helapsed (iff_of_false (by simp [hstatus]) (by omega))
    | unpaid hcovered hstatus helapsed =>
        rw [if_neg (by omega)] at h
        obtain ⟨rfl, rfl⟩ := Prod.mk.inj (Checked.pure_eq_ok.mp h)
        exact .unpaid (fun hpaid ↦ hcovered hpaid.covered) hstatus helapsed
  · obtain ⟨rfl, rfl⟩ := Prod.mk.inj (Checked.pure_eq_ok.mp h)
    refine .unpaid (fun hpaid ↦ hd ?_) (by simp [hlive]) rfl
    simpa using hdue.symm.trans hpaid.due

/-- A block over a live credit counts a month exactly when its payment is made,
and completes the credit exactly with the last one. -/
theorem process_counted (h : c.process boost v l = .ok (c', l')) (hlive : c.status = .inProgress)
    (hperiod : c.settleMonthElapsed < c.borrower.loanPeriod)
    (hmonths : c.borrower.loanPeriod < 2 ^ 32) (htime : 0 < v.headBlockTime) :
    BlockCounted boost v c l c' l' := by
  rw [process, if_pos hlive] at h
  split_ifs at h with hfree
  · exact processPayment_counted h hlive (.inl hfree) hperiod hmonths htime
  · simp only [Checked.bind_eq_ok] at h
    obtain ⟨⟨quoted, d, m⟩, hcheck, h⟩ := h
    simp only [checkDepositQuotes, Checked.bind_eq_ok] at hcheck
    obtain ⟨q, hq, hcheck⟩ := hcheck
    split_ifs at hcheck with hstop
    · simp only [Checked.bind_eq_ok, Checked.pure_eq_ok, Prod.mk.injEq] at hcheck
      obtain ⟨s, hs, ⟨e, k⟩, hsettle, _, hpay, rfl, rfl, rfl⟩ := hcheck
      obtain ⟨hmoves, rfl⟩ := settle_eq_ok (stopLossSettlement_in hs) hsettle
      obtain ⟨rfl, rfl⟩ := Prod.mk.inj (Checked.pure_eq_ok.mp h)
      refine .unpaid (fun hpaid ↦ ?_) (by simp) rfl
      -- the quotes of the stop-loss test are those the payment would need
      rcases hpaid.quoted with hcollateral | ⟨q', hq', hquoted⟩
      · exact hfree hcollateral
      · obtain rfl : q = q' := by simpa using hq.symm.trans (quotes_eq_ok.mpr hq')
        exact hquoted hstop
    · simp only [Checked.pure_eq_ok, Prod.mk.injEq] at hcheck
      obtain ⟨rfl, rfl, rfl⟩ := hcheck
      exact processPayment_counted h hlive (.inr ⟨q, quotes_eq_ok.mp hq, hstop⟩) hperiod hmonths
        htime

theorem process_of_closed (h : c.process boost v l = .ok (c', l')) (hclosed : c.status ≠ .inProgress) :
    c' = c := by
  rw [process, if_neg hclosed] at h
  exact (Prod.mk.inj (Checked.pure_eq_ok.mp h)).1.symm

/-! ## The deposit of a completed credit -/

def Completed (c : CreditObject) : Prop := c.status = .completeNormal ∨ c.status = .completeUbnormal

/-- No negative deposit, none without collateral and none once completed. -/
structure DepositKept (c : CreditObject) : Prop where
  nonneg : 0 ≤ c.borrower.depositAsset.amount
  free : c.borrower.collateralFree → c.borrower.depositAsset.amount = 0
  completed : c.Completed → c.borrower.depositAsset.amount = 0

theorem amount_eq_zero_of_real {o : AssetObject} {amount : ℤ} (h : 0 ≤ amount)
    (hreal : o.amountToReal amount = 0) : amount = 0 := by
  rw [o.amountToReal_of_nonneg h, div_eq_zero_iff] at hreal
  rcases hreal with hzero | hzero
  · exact_mod_cast hzero
  · exact absurd hzero (by positivity)

/-- What a settlement takes out of a deposit it does not exceed. -/
theorem fromDeposit_of_reach {q : Quotes} {sum : ℚ} {s : Settlement}
    (hc : 0 ≤ c.borrower.depositAsset.amount) (hs : c.settlement q l sum = .ok s)
    (hdebt : 0 ≤ c.debtInDeposit q l sum) (hreach : c.debtInDeposit q l sum ≤ c.depositLeft q) :
    s.depositAssetFromDeposit.amount ≤ c.borrower.depositAsset.amount := by
  obtain ⟨-, hsums⟩ := settlement_sums hs
  rw [if_neg (not_lt.mpr hreach)] at hsums
  rw [hsums.1]
  refine truncate_le_of_le_intCast (by positivity) ?_
  have hpow : (10 : ℚ) ^ q.deposit.precision ≠ 0 := by positivity
  have hscaled : c.depositLeft q * 10 ^ q.deposit.precision = c.borrower.depositAsset.amount := by
    rw [depositLeft, q.deposit.amountToReal_of_nonneg hc, div_mul_cancel₀ _ hpow]
  rw [← hscaled]
  exact mul_le_mul_of_nonneg_right hreach (by positivity)

/-- A deposit that does not reach is used up. -/
theorem fromDeposit_of_short {q : Quotes} {sum : ℚ} {s : Settlement}
    (hc : 0 ≤ c.borrower.depositAsset.amount) (hs : c.settlement q l sum = .ok s)
    (hshort : c.depositLeft q < c.debtInDeposit q l sum) :
    s.depositAssetFromDeposit.amount = c.borrower.depositAsset.amount := by
  obtain ⟨-, hsums⟩ := settlement_sums hs
  rw [if_pos hshort] at hsums
  obtain ⟨left, hall, htaken, -⟩ := hsums
  have hpow : (10 : ℚ) ^ q.deposit.precision ≠ 0 := by positivity
  rw [htaken]
  rw [depositLeft, q.deposit.amountToReal_of_nonneg hc, div_mul_cancel₀ _ hpow] at hall
  exact_mod_cast hall.symm

theorem not_completed_of_live (h : c.status = .inProgress) : ¬c.Completed := by
  rintro (hstatus | hstatus) <;> simp [h] at hstatus

/-- A live credit has no zero deposit to keep. -/
theorem DepositKept.of_live (hlive : c.status = .inProgress)
    (hnonneg : 0 ≤ c.borrower.depositAsset.amount)
    (hfree : c.borrower.collateralFree → c.borrower.depositAsset.amount = 0) : c.DepositKept :=
  ⟨hnonneg, hfree, fun hcompleted ↦ absurd hcompleted (not_completed_of_live hlive)⟩

theorem DepositKept.nextMonth (hc : c.DepositKept) (hlive : c.status = .inProgress) :
    c.nextMonth.DepositKept := by
  refine .of_live (by rw [nextMonth_status, hlive]) ?_ ?_
  · rw [nextMonth_borrower]
    exact hc.nonneg
  · rw [nextMonth_borrower]
    exact hc.free

theorem DepositKept.expired (hc : c.DepositKept) (time : ℕ) :
    DepositKept { c with expiredTimeStart := time } :=
  ⟨hc.nonneg, hc.free, hc.completed⟩

theorem MonthOutcome.depositKept (h : MonthOutcome v c l c' ms) (hc : c.DepositKept)
    (hlive : c.status = .inProgress) : c'.DepositKept := by
  cases h with
  | paid => exact (hc.expired _).nextMonth hlive
  | delayed => exact (hc.expired _).nextMonth hlive
  | waiting => exact hc.nextMonth hlive
  | defaulted hloan hamount hdeposit =>
      have hzero : c.borrower.depositAsset.amount = 0 := by
        rcases hdeposit with hfree | ⟨deposit, -, hreal⟩
        · exact hc.free hfree
        · exact amount_eq_zero_of_real hc.nonneg hreal
      exact ⟨hc.nonneg, hc.free, fun _ ↦ hzero⟩
  | @fromDeposit q s hpays hreach hs =>
      have hdebt : 0 ≤ c.debtInDeposit q l c.creditor.monthlyPayment := by
        obtain ⟨payment, hpayment, hshort⟩ := hpays.short
        exact (debtInDeposit_pos hpays.quotes hpays.quotes.loan hpayment hshort).le
      have htaken := fromDeposit_of_reach hc.nonneg hs hdebt hreach
      have hkept : DepositKept { c.afterSettlement s with expiredTimeStart := 0 } :=
        .of_live hlive (sub_nonneg.mpr htaken) fun hfree ↦ absurd hfree hpays.collateral
      exact hkept.nextMonth hlive
  | @exhausted q s amount mid hpays hshort hs hamount =>
      have hzero : c.borrower.depositAsset.amount - s.depositAssetFromDeposit.amount = 0 := by
        rw [fromDeposit_of_short hc.nonneg hs hshort, sub_self]
      exact ⟨hzero.ge, fun _ ↦ hzero, fun _ ↦ hzero⟩

theorem ProcessOutcome.depositKept (h : ProcessOutcome boost v c l c' ms) (hc : c.DepositKept) :
    c'.DepositKept := by
  cases h with
  | closed => exact hc
  | stoppedLoss => exact ⟨le_rfl, fun _ ↦ rfl, fun _ ↦ rfl⟩
  | notDue => exact hc
  | month hstatus hquoted hdue hmonth hperiod => exact hmonth.depositKept hc hstatus
  | lastMonth => exact ⟨le_rfl, fun _ ↦ rfl, fun _ ↦ rfl⟩

end CreditObject

/-! ## Runs over one credit -/

open CreditObject

/-- What becomes of a credit in blocks and by early settlement, with the number
of payments made.  Other credits and the rest of the chain show in the view and
the ledger of each step. -/
inductive Life (boost : BoostLibrary) (start : CreditObject) : ℕ → CreditObject → Prop
  | approved : Life boost start 0 start
  | paid {n : ℕ} {c c' : CreditObject} {v : ChainView} {l l' : Ledger} (hlife : Life boost start n c)
      (htime : 0 < v.headBlockTime) (hprocess : c.process boost v l = .ok (c', l'))
      (hpaid : MonthPaid boost v c l) : Life boost start (n + 1) c'
  | unpaid {n : ℕ} {c c' : CreditObject} {v : ChainView} {l l' : Ledger}
      (hlife : Life boost start n c) (htime : 0 < v.headBlockTime)
      (hprocess : c.process boost v l = .ok (c', l')) (hunpaid : ¬MonthPaid boost v c l) :
      Life boost start n c'
  | settled {n i : ℕ} {c c' : CreditObject} {v : ChainView} {l : Ledger}
      {op : SettleCreditOperation} {db : CreditDatabase} (hlife : Life boost start n c)
      (hsettle : op.doApply v ⟨l, [c], i⟩ = .ok db) (hc' : db.credits = [c']) :
      Life boost start n c'

/-- The invariant of a life of `n` payments. -/
structure LifeKept (n : ℕ) (c : CreditObject) : Prop where
  elapsed : c.settleMonthElapsed = n
  live : c.status = .inProgress → c.settleMonthElapsed < c.borrower.loanPeriod
  period : c.borrower.loanPeriod < 2 ^ 32
  deposit : c.DepositKept

theorem settle_single {v : ChainView} {l : Ledger} {c c' : CreditObject} {i : ℕ}
    {op : SettleCreditOperation} {db : CreditDatabase}
    (h : op.doApply v ⟨l, [c], i⟩ = .ok db) (hc' : db.credits = [c']) :
    c.status = .inProgress ∧ c' = c.completed := by
  simp only [SettleCreditOperation.doApply, Checked.bind_eq_ok, require_eq_ok] at h
  obtain ⟨⟨before, d, after⟩, hfind, _, -, _, -, _, hstatus, _, -, _, -, _, -, _, -, ⟨e, m⟩,
    hcomplete, h⟩ := h
  obtain rfl := Checked.pure_eq_ok.mp h
  obtain ⟨-, rfl⟩ := completeCreditOperation_eq_ok hcomplete
  have hsingle : [c] = before ++ d :: after := findCreditRequest_eq_ok hfind
  obtain ⟨rfl, rfl, rfl⟩ : before = [] ∧ d = c ∧ after = [] := by
    cases before <;> simp_all
  simp only [List.nil_append, List.cons.injEq] at hc'
  exact ⟨hstatus, hc'.1.symm⟩

theorem LifeKept.completed {n : ℕ} {c : CreditObject} (hc : LifeKept n c) :
    LifeKept n c.completed := by
  refine ⟨hc.elapsed, fun hstatus ↦ ?_, hc.period, ⟨le_rfl, fun _ ↦ rfl, fun _ ↦ rfl⟩⟩
  cases hstatus

section

variable {boost : BoostLibrary} {v : ChainView} {c c' start : CreditObject} {l l' : Ledger} {n : ℕ}

/-- What a block keeps, besides the counter. -/
theorem LifeKept.process (hc : LifeKept n c) (h : c.process boost v l = .ok (c', l')) :
    (c'.status = .inProgress → c'.settleMonthElapsed < c'.borrower.loanPeriod) ∧
      c'.borrower.loanPeriod < 2 ^ 32 ∧ c'.DepositKept := by
  obtain ⟨ms, -, houtcome⟩ := process_cases h
  exact ⟨fun hstatus' ↦ (houtcome.live hc.live hstatus').2,
    by rw [houtcome.sameTerms.period]; exact hc.period, houtcome.depositKept hc.deposit⟩

/-- A block's payment is the one the counter counts. -/
theorem LifeKept.elapsed_iff (hc : LifeKept n c) (htime : 0 < v.headBlockTime)
    (h : c.process boost v l = .ok (c', l')) :
    c'.settleMonthElapsed = c.settleMonthElapsed + 1 ∧ MonthPaid boost v c l ∧
        PaysCreditor v c l l' ∨
      c'.settleMonthElapsed = c.settleMonthElapsed ∧ ¬MonthPaid boost v c l := by
  by_cases hlive : c.status = .inProgress
  · cases process_counted h hlive (hc.live hlive) hc.period htime with
    | paid hpaid hpays helapsed hstatus => exact .inl ⟨helapsed, hpaid, hpays⟩
    | unpaid hunpaid hstatus helapsed => exact .inr ⟨helapsed, hunpaid⟩
  · exact .inr ⟨by rw [process_of_closed h hlive], fun hpaid ↦ hlive hpaid.live⟩

theorem Life.kept (hlife : Life boost start n c) (hstart : LifeKept 0 start) : LifeKept n c := by
  induction hlife with
  | approved => exact hstart
  | paid hlife htime hprocess hpaid ih =>
      obtain ⟨hlive, hperiod, hdeposit⟩ := ih.process hprocess
      refine ⟨?_, hlive, hperiod, hdeposit⟩
      rcases ih.elapsed_iff htime hprocess with ⟨helapsed, -⟩ | ⟨-, hunpaid⟩
      · rw [helapsed, ih.elapsed]
      · exact absurd hpaid hunpaid
  | unpaid hlife htime hprocess hunpaid ih =>
      obtain ⟨hlive, hperiod, hdeposit⟩ := ih.process hprocess
      refine ⟨?_, hlive, hperiod, hdeposit⟩
      rcases ih.elapsed_iff htime hprocess with ⟨-, hpaid, -⟩ | ⟨helapsed, -⟩
      · exact absurd hpaid hunpaid
      · rw [helapsed, ih.elapsed]
  | settled hlife hsettle hc' ih =>
      obtain ⟨-, rfl⟩ := settle_single hsettle hc'
      exact ih.completed

end

/-! ## A completed credit stays -/

theorem processCreditStories_closed {boost : BoostLibrary} {v : ChainView} {c : CreditObject}
    {cs cs' : List CreditObject} {l l' : Ledger}
    (h : processCreditStories boost v cs l = .ok (cs', l')) (hc : c ∈ cs)
    (hclosed : c.status ≠ .inProgress) : c ∈ cs' := by
  induction cs generalizing cs' l with
  | nil => simp at hc
  | cons d cs ih =>
      simp only [processCreditStories, Checked.bind_eq_ok] at h
      obtain ⟨⟨d', m⟩, hprocess, ⟨ds, k⟩, hrest, h⟩ := h
      obtain ⟨rfl, rfl⟩ := Prod.mk.inj (Checked.pure_eq_ok.mp h)
      rcases List.mem_cons.mp hc with rfl | hc
      · obtain rfl := process_of_closed hprocess hclosed
        exact List.mem_cons_self
      · exact List.mem_cons_of_mem _ (ih hrest hc)

/-- A credit that is replaced or removed is not the one that is kept. -/
theorem mem_replaced {before after : List CreditObject} {c d : CreditObject}
    (cs : List CreditObject) (hc : c ∈ before ++ d :: after) (hne : c ≠ d) : c ∈ before ++ (cs ++ after) := by
  simp only [List.mem_append, List.mem_cons] at hc ⊢
  tauto

theorem applyOperation_completed {boost : BoostLibrary} {v : ChainView} {c : CreditObject}
    {db db' : CreditDatabase} {op : CreditOperation} (h : db.applyOperation boost v op = .ok db')
    (hc : c ∈ db.credits) (hcompleted : c.Completed) : c ∈ db'.credits := by
  have hne : ∀ d : CreditObject, d.status = .watingForAcceptance ∨ d.status = .inProgress →
      c ≠ d := by
    rintro d hstatus rfl
    rcases hcompleted with hc | hc <;> simp [hc] at hstatus
  cases op with
  | request op =>
      simp only [CreditDatabase.applyOperation, CreditRequestOperation.doApply,
        Checked.bind_eq_ok] at h
      obtain ⟨_, -, _, -, deposit, -, uuid, -, l, -, h⟩ := h
      obtain rfl := Checked.pure_eq_ok.mp h
      exact List.mem_append_left _ hc
  | approve op =>
      simp only [CreditDatabase.applyOperation, CreditApproveOperation.doApply,
        Checked.bind_eq_ok, require_eq_ok] at h
      obtain ⟨_, -, ⟨before, d, after⟩, hfind, _, hstatus, _, -, loan, -, _, -, l, -, l', -, h⟩ := h
      obtain rfl := Checked.pure_eq_ok.mp h
      rw [findCreditRequest_eq_ok hfind] at hc
      exact mem_replaced [_] hc (hne d (.inl hstatus))
  | cancel op =>
      simp only [CreditDatabase.applyOperation, CreditRequestCancelOperation.doApply,
        Checked.bind_eq_ok, require_eq_ok] at h
      obtain ⟨_, -, ⟨before, d, after⟩, hfind, _, -, _, hstatus, l, -, h⟩ := h
      obtain rfl := Checked.pure_eq_ok.mp h
      rw [findCreditRequest_eq_ok hfind] at hc
      exact mem_replaced [] hc (hne d (.inl hstatus))
  | settle op =>
      simp only [CreditDatabase.applyOperation, SettleCreditOperation.doApply,
        Checked.bind_eq_ok, require_eq_ok] at h
      obtain ⟨_, -, ⟨before, d, after⟩, hfind, loan, -, _, -, _, hstatus, _, -, amount, -, _, -, l, -,
        ⟨e, m⟩, -, h⟩ := h
      obtain rfl := Checked.pure_eq_ok.mp h
      rw [findCreditRequest_eq_ok hfind] at hc
      exact mem_replaced [_] hc (hne d (.inr hstatus))

/-- No operation, block or foreign change touches a completed credit. -/
theorem CreditState.completed_stays {boost : BoostLibrary} {s : CreditState} {c : CreditObject}
    (hc : c ∈ s.db.credits) (hcompleted : c.Completed) (event : CreditEvent) :
    c ∈ (s.step boost event).db.credits := by
  cases event with
  | operation op =>
      simp only [step]
      rcases happly : s.db.applyOperation boost s.view op with _ | db
      · exact hc
      · exact applyOperation_completed happly hc hcompleted
  | block =>
      simp only [step]
      rcases hprocess : s.db.processCredits boost s.view with _ | db
      · exact hc
      · simp only [CreditDatabase.processCredits, Checked.bind_eq_ok] at hprocess
        obtain ⟨⟨credits, l⟩, hstories, hdb⟩ := hprocess
        obtain rfl := Checked.pure_eq_ok.mp hdb
        exact processCreditStories_closed hstories hc
          fun hlive ↦ not_completed_of_live hlive hcompleted
  | others view balances supply => exact hc

/-! ## The state machine -/

theorem approved_kept {v v' : ChainView} {db : CreditDatabase} {op : CreditRequestOperation}
    {deposit loan : AssetObject} {uuid : String} {creditor : AccountId}
    (heval : op.doEvaluate v db = .ok ())
    (hsign : 0 ≤ op.depositAsset.amount) :
    LifeKept 0 (CreditApproveOperation.approved v' creditor loan (op.newCredit v deposit uuid)) := by
  have hscheduled : Scheduled v (op.newCredit v deposit uuid) := newCredit_scheduled heval
  refine ⟨rfl, fun _ ↦ hscheduled.period.1, hscheduled.period.2, .of_live rfl hsign fun hfree ↦ ?_⟩
  exact amount_eq_zero_of_real hsign (of_decide_eq_true hfree)

/-- A loan of ten units against minus ninety hundredths, which print as `0.0`. -/
def strayDepositRequest : CreditRequestOperation where
  fee := ⟨1, 0⟩
  borrower := 1
  loanAsset := ⟨1000, 1⟩
  loanPeriod := 1
  loanPersent := 12
  depositAsset := ⟨-90, 1⟩
  loanPeriod_lt := one_lt_uint32
  loanPersent_lt := twelve_lt_uint32

def strayCredit : CreditObject :=
  CreditApproveOperation.approved twoAssetView 0 lentAsset
    (strayDepositRequest.newCredit twoAssetView lentAsset "aa")

/-- A borrower without a balance. -/
def emptyLedger : Ledger := ⟨[], fun _ ↦ 5000, []⟩

/-- The view some days after the approval. -/
def viewAfterDays (days : ℕ) : ChainView :=
  { twoAssetView with headBlockTime := 1600000000 + 86400 * days }

end KarmaCore
