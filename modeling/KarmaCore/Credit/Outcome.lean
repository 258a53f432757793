import Mathlib
import KarmaCore.Credit.CreditObject

/-!
# What processing a credit can do

Every way `process` succeeds, with the movements it makes and the credit it
leaves.  All later results about a block are case analyses over these outcomes.
-/

namespace KarmaCore

namespace CreditObject

open Ledger

variable {boost : BoostLibrary} {v : ChainView}

/-- The two movements of a settlement. -/
def settlementMoves (c : CreditObject) (s : Settlement) : List Movement :=
  [.pay c.creditor.creditor s.loanAssetToCreditor,
    .charge c.borrower.borrower s.loanAssetFromBorrower]

/-- The two movements that hand an amount of the loan asset to the creditor. -/
def transferMoves (c : CreditObject) (amount : ℤ) : List Movement :=
  [.pay c.creditor.creditor ⟨amount, c.loanId⟩, .charge c.borrower.borrower ⟨amount, c.loanId⟩]

def completed (c : CreditObject) : CreditObject :=
  { c.setDeposit ⟨0, c.depositId⟩ with status := .completeNormal }

def defaulted (c : CreditObject) : CreditObject := { c with status := .completeUbnormal }

/-- The credit when `on_next_month` ends. -/
def afterMonth (c : CreditObject) : CreditObject :=
  if c.status = .completeUbnormal then c else c.nextMonth

@[simp] theorem afterMonth_defaulted (c : CreditObject) : c.defaulted.afterMonth = c.defaulted :=
  if_pos rfl

theorem afterMonth_of_live {c : CreditObject} (h : c.status ≠ .completeUbnormal) :
    c.afterMonth = c.nextMonth := if_neg h

/-- The credit after a settlement took its part of the deposit. -/
def afterSettlement (c : CreditObject) (s : Settlement) : CreditObject :=
  c.setDeposit ⟨c.borrower.depositAsset.amount - s.depositAssetFromDeposit.amount, c.depositId⟩

/-- The sums of a settlement are in the assets of the credit, and the loan
asset on both sides. -/
structure SettlementIn (c : CreditObject) (s : Settlement) : Prop where
  fromBorrower : s.loanAssetFromBorrower.assetId = c.loanId
  toCreditor : s.loanAssetToCreditor.assetId = c.loanId
  fromDeposit : s.depositAssetFromDeposit.assetId = c.depositId

theorem settlement_in {c : CreditObject} {q : Quotes} {l : Ledger} {sum : ℚ} {s : Settlement}
    (h : c.settlement q l sum = .ok s) : c.SettlementIn s := by
  simp only [settlement, Checked.bind_eq_ok] at h
  obtain ⟨_, -, _, -, _, -, h⟩ := h
  split_ifs at h
  · simp only [Checked.bind_eq_ok, Checked.pure_eq_ok] at h
    obtain ⟨_, -, _, -, rfl⟩ := h
    exact ⟨rfl, rfl, rfl⟩
  · obtain rfl := Checked.pure_eq_ok.mp h
    exact ⟨rfl, rfl, rfl⟩

theorem stopLossSettlement_in {c : CreditObject} {q : Quotes} {l : Ledger} {s : Settlement}
    (h : c.stopLossSettlement q l = .ok s) : c.SettlementIn s := by
  unfold stopLossSettlement at h
  split_ifs at h
  · exact settlement_in h
  · simp only [Checked.bind_eq_ok, Checked.pure_eq_ok] at h
    obtain ⟨_, -, rfl⟩ := h
    exact ⟨rfl, rfl, rfl⟩

/-- The conversion of the deposit is never entered. -/
theorem settle_eq_ok {c c' : CreditObject} {q : Quotes} {s : Settlement} {l l' : Ledger}
    (hin : c.SettlementIn s) (h : c.settle v q s l = .ok (c', l')) :
    l.Moves (c.settlementMoves s) l' ∧ c' = c.afterSettlement s := by
  simp only [settle, Checked.bind_eq_ok] at h
  obtain ⟨mid, htransfer, deposit, hsub, last, hconvert, h⟩ := h
  obtain ⟨-, -, rfl⟩ := Asset.sub_eq_ok.mp hsub
  rw [checkConvertation, if_neg (not_not.mpr (hin.fromBorrower.trans hin.toCreditor.symm))]
    at hconvert
  obtain rfl := Checked.pure_eq_ok.mp hconvert
  obtain ⟨rfl, rfl⟩ := Prod.mk.inj (Checked.pure_eq_ok.mp h)
  exact ⟨moves_of_transfer htransfer, rfl⟩

theorem completeCreditOperation_eq_ok {c c' : CreditObject} {l l' : Ledger}
    (h : c.completeCreditOperation v l = .ok (c', l')) :
    l.Moves [.pay c.borrower.borrower c.borrower.depositAsset] l' ∧ c' = c.completed := by
  simp only [completeCreditOperation, Checked.bind_eq_ok] at h
  obtain ⟨_, -, mid, hpay, _, -, h⟩ := h
  obtain ⟨rfl, rfl⟩ := Prod.mk.inj (Checked.pure_eq_ok.mp h)
  exact ⟨moves_of_pay hpay, rfl⟩

theorem completeCreditOperationUbnormal_eq_ok {c c' : CreditObject} {l l' : Ledger}
    (h : c.completeCreditOperationUbnormal v l = .ok (c', l')) :
    ∃ loan amount, v.assets c.loanId = some loan ∧
      toShare (loan.amountToReal (l.getBalance c.borrower.borrower c.loanId).amount *
        10 ^ loan.precision) = .ok amount ∧
      l.Moves (c.transferMoves amount) l' ∧ c' = c.defaulted := by
  simp only [completeCreditOperationUbnormal, Checked.bind_eq_ok] at h
  obtain ⟨_, -, loan, hloan, amount, hamount, mid, htransfer, _, -, h⟩ := h
  obtain ⟨rfl, rfl⟩ := Prod.mk.inj (Checked.pure_eq_ok.mp h)
  exact ⟨loan, amount, ChainView.assetObject_eq_ok.mp hloan, hamount,
    moves_of_transfer htransfer, rfl⟩

theorem settleMonthlyPayment_eq_ok {c c' : CreditObject} {l l' : Ledger}
    (h : c.settleMonthlyPayment v l = .ok (c', l')) :
    ∃ loan amount, v.assets c.loanId = some loan ∧
      toShare (c.creditor.monthlyPayment * 10 ^ loan.precision) = .ok amount ∧
      l.Moves (c.transferMoves amount) l' ∧ c' = { c with expiredTimeStart := 0 } := by
  simp only [settleMonthlyPayment, Checked.bind_eq_ok] at h
  obtain ⟨loan, hloan, _, -, amount, hamount, mid, htransfer, _, -, h⟩ := h
  obtain ⟨rfl, rfl⟩ := Prod.mk.inj (Checked.pure_eq_ok.mp h)
  exact ⟨loan, amount, ChainView.assetObject_eq_ok.mp hloan, hamount,
    moves_of_transfer htransfer, rfl⟩

/-- The quotes of a credit are the assets and rates of the view. -/
structure QuotesIn (v : ChainView) (c : CreditObject) (q : Quotes) : Prop where
  deposit : v.assets c.depositId = some q.deposit
  loan : v.assets c.loanId = some q.loan
  depositExchangeRate : v.lastExchangeRate q.deposit.symbol = some q.depositExchangeRate
  loanExchangeRate : v.lastExchangeRate q.loan.symbol = some q.loanExchangeRate

theorem quotes_eq_ok {c : CreditObject} {q : Quotes} :
    c.quotes v = .ok q ↔ QuotesIn v c q := by
  simp only [quotes, Checked.bind_eq_ok, Checked.pure_eq_ok, ChainView.assetObject_eq_ok,
    ChainView.getExchangeRateBySymbol_eq_ok]
  constructor
  · rintro ⟨deposit, hdeposit, loan, hloan, depositRate, hdepositRate, loanRate, hloanRate, rfl⟩
    exact ⟨hdeposit, hloan, hdepositRate, hloanRate⟩
  · intro h
    exact ⟨_, h.deposit, _, h.loan, _, h.depositExchangeRate, _, h.loanExchangeRate, rfl⟩

/-- The overdue payment is not only being noted. -/
def DelayOver (v : ChainView) (c : CreditObject) : Prop :=
  ¬(c.expiredTimeStart = 0 ∧ v.creditOptions.maxCreditExpirationDays ≠ 0) ∧
    maxCreditExpirationTime v ≤ wrap32 (v.headBlockTime - c.expiredTimeStart)

/-- The borrower's balance is below the month's payment. -/
def PaymentShort (c : CreditObject) (loan : AssetObject) (l : Ledger) : Prop :=
  ∃ payment, toShare (c.creditor.monthlyPayment * 10 ^ loan.precision) = .ok payment ∧
    (l.getBalance c.borrower.borrower c.loanId).amount < payment

/-- The month's payment is due out of the deposit. -/
structure DepositPays (v : ChainView) (c : CreditObject) (q : Quotes) (l : Ledger) : Prop where
  quotes : QuotesIn v c q
  collateral : ¬c.borrower.collateralFree
  delay : DelayOver v c
  short : c.PaymentShort q.loan l
  deposit : c.depositLeft q ≠ 0

/-- The credit has no deposit, or one that passes the stop-loss test. -/
def Quoted (v : ChainView) (c : CreditObject) : Prop :=
  c.borrower.collateralFree ∨ ∃ q, QuotesIn v c q ∧ ¬c.stopLoss q

/-- What `on_next_month` can do: the credit it leaves, then its movements. -/
inductive MonthOutcome (v : ChainView) (c : CreditObject) (l : Ledger) :
    CreditObject → List Movement → Prop
  | paid {loan : AssetObject} {amount : ℤ} (hloan : v.assets c.loanId = some loan)
      (hamount : toShare (c.creditor.monthlyPayment * 10 ^ loan.precision) = .ok amount)
      (hcover : amount ≤ (l.getBalance c.borrower.borrower c.loanId).amount) :
      MonthOutcome v c l (nextMonth { c with expiredTimeStart := 0 }) (c.transferMoves amount)
  | delayed (hstart : c.expiredTimeStart = 0) (hdelay : ¬DelayOver v c) :
      MonthOutcome v c l (nextMonth { c with expiredTimeStart := v.headBlockTime }) []
  | waiting (hdelay : ¬DelayOver v c) : MonthOutcome v c l c.nextMonth []
  | defaulted {loan : AssetObject} {amount : ℤ} (hloan : v.assets c.loanId = some loan)
      (hamount : toShare (loan.amountToReal (l.getBalance c.borrower.borrower c.loanId).amount *
        10 ^ loan.precision) = .ok amount)
      (hdeposit : c.borrower.collateralFree ∨ ∃ deposit, v.assets c.depositId = some deposit ∧
        deposit.amountToReal c.borrower.depositAsset.amount = 0) :
      MonthOutcome v c l c.defaulted (c.transferMoves amount)
  | fromDeposit {q : Quotes} {s : Settlement} (hpays : DepositPays v c q l)
      (hreach : c.debtInDeposit q l c.creditor.monthlyPayment ≤ c.depositLeft q)
      (hs : c.settlement q l c.creditor.monthlyPayment = .ok s) :
      MonthOutcome v c l (nextMonth { c.afterSettlement s with expiredTimeStart := 0 })
        (c.settlementMoves s)
  | exhausted {q : Quotes} {s : Settlement} {amount : ℤ} {mid : Ledger}
      (hpays : DepositPays v c q l)
      (hshort : c.depositLeft q < c.debtInDeposit q l c.creditor.monthlyPayment)
      (hs : c.settlement q l c.creditor.monthlyPayment = .ok s)
      (hamount : toShare (q.loan.amountToReal
        (mid.getBalance c.borrower.borrower c.loanId).amount * 10 ^ q.loan.precision) = .ok amount) :
      MonthOutcome v c l (c.afterSettlement s).defaulted
        (c.transferMoves amount ++ c.settlementMoves s)

theorem settleFromDeposit_cases {c c' : CreditObject} {l l' : Ledger}
    (h : c.settleFromDeposit v l = .ok (c', l'))
    (hpays : ∀ q, QuotesIn v c q → c.depositLeft q ≠ 0 → DepositPays v c q l)
    (hlive : c.status ≠ .completeUbnormal) :
    ∃ ms, l.Moves ms l' ∧
      MonthOutcome v c l c'.afterMonth ms := by
  simp only [settleFromDeposit, Checked.bind_eq_ok] at h
  obtain ⟨deposit, hdeposit, h⟩ := h
  rw [ChainView.assetObject_eq_ok] at hdeposit
  split_ifs at h with hzero
  · obtain ⟨loan, amount, hloan, hamount, hmoves, rfl⟩ := completeCreditOperationUbnormal_eq_ok h
    refine ⟨_, hmoves, ?_⟩
    rw [afterMonth_defaulted]
    exact .defaulted hloan hamount (.inr ⟨deposit, hdeposit, hzero⟩)
  · simp only [Checked.bind_eq_ok] at h
    obtain ⟨q, hq, s, hs, ⟨mid, m⟩, hsettle, h⟩ := h
    rw [quotes_eq_ok] at hq
    obtain rfl : q.deposit = deposit := Option.some.inj (hq.deposit.symm.trans hdeposit)
    obtain ⟨hmoves, rfl⟩ := settle_eq_ok (settlement_in hs) hsettle
    have hpays := hpays q hq hzero
    split_ifs at h with hshort
    · obtain ⟨loan, amount, hloan, hamount, hrest, rfl⟩ :=
        completeCreditOperationUbnormal_eq_ok h
      obtain rfl : q.loan = loan := Option.some.inj (hq.loan.symm.trans hloan)
      refine ⟨_, hmoves.trans hrest, ?_⟩
      rw [afterMonth_defaulted]
      exact .exhausted hpays hshort hs hamount
    · obtain ⟨rfl, rfl⟩ := Prod.mk.inj (Checked.pure_eq_ok.mp h)
      refine ⟨_, hmoves, ?_⟩
      rw [afterMonth_of_live (by simpa [afterSettlement, setDeposit] using hlive)]
      exact .fromDeposit hpays (not_lt.mp hshort) hs

theorem checkExpiredPayTime_cases {c c' : CreditObject} {l l' : Ledger}
    (h : c.checkExpiredPayTime v l = .ok (c', l'))
    (hlive : c.status ≠ .completeUbnormal)
    (hshort : ∀ loan, v.assets c.loanId = some loan → c.PaymentShort loan l) :
    ∃ ms, l.Moves ms l' ∧
      MonthOutcome v c l c'.afterMonth ms := by
  unfold checkExpiredPayTime at h
  split_ifs at h with hstart hover hfree
  · simp only [Checked.bind_eq_ok] at h
    obtain ⟨_, -, _, -, _, -, h⟩ := h
    obtain ⟨rfl, rfl⟩ := Prod.mk.inj (Checked.pure_eq_ok.mp h)
    refine ⟨_, .refl l, ?_⟩
    rw [afterMonth_of_live (by simpa using hlive)]
    exact .delayed hstart.1 fun hover ↦ hover.1 hstart
  · obtain ⟨loan, amount, hloan, hamount, hmoves, rfl⟩ := completeCreditOperationUbnormal_eq_ok h
    refine ⟨_, hmoves, ?_⟩
    rw [afterMonth_defaulted]
    exact .defaulted hloan hamount (.inl hfree)
  · exact settleFromDeposit_cases h (fun q hq hzero ↦ ⟨hq, hfree, ⟨hstart, hover⟩,
      hshort q.loan hq.loan, hzero⟩) hlive
  · obtain ⟨rfl, rfl⟩ := Prod.mk.inj (Checked.pure_eq_ok.mp h)
    refine ⟨_, .refl l, ?_⟩
    rw [afterMonth_of_live hlive]
    exact .waiting fun h ↦ hover h.2

theorem onNextMonth_cases {c c' : CreditObject} {l l' : Ledger}
    (h : c.onNextMonth v l = .ok (c', l')) (hlive : c.status ≠ .completeUbnormal) :
    ∃ ms, l.Moves ms l' ∧ MonthOutcome v c l c' ms := by
  simp only [onNextMonth, Checked.bind_eq_ok] at h
  obtain ⟨_, -, loan, hloan, payment, hpayment, ⟨d, m⟩, hpay, h⟩ := h
  rw [ChainView.assetObject_eq_ok] at hloan
  obtain ⟨rfl, rfl⟩ : d.afterMonth = c' ∧ m = l' := by
    unfold afterMonth
    split_ifs at h ⊢ <;> simpa [pure, Except.pure] using h
  unfold payMonth at hpay
  split_ifs at hpay with hcover
  · obtain ⟨loan', amount, hloan', hamount, hmoves, rfl⟩ := settleMonthlyPayment_eq_ok hpay
    obtain rfl : loan = loan' := Option.some.inj (hloan.symm.trans hloan')
    obtain rfl : payment = amount := by simpa using hpayment.symm.trans hamount
    refine ⟨_, hmoves, ?_⟩
    rw [afterMonth_of_live (by simpa using hlive)]
    exact .paid hloan hamount hcover
  · refine checkExpiredPayTime_cases hpay hlive fun loan' hloan' ↦ ?_
    obtain rfl : loan = loan' := Option.some.inj (hloan.symm.trans hloan')
    exact ⟨payment, hpayment, not_le.mp hcover⟩

/-- What `process` can do. -/
inductive ProcessOutcome (boost : BoostLibrary) (v : ChainView) (c : CreditObject) (l : Ledger) :
    CreditObject → List Movement → Prop
  | closed (hstatus : c.status ≠ .inProgress) : ProcessOutcome boost v c l c []
  | stoppedLoss {q : Quotes} {s : Settlement} (hstatus : c.status = .inProgress)
      (hcollateral : ¬c.borrower.collateralFree) (hq : QuotesIn v c q) (hstop : c.stopLoss q)
      (hs : c.stopLossSettlement q l = .ok s) :
      ProcessOutcome boost v c l ((c.afterSettlement s).setDeposit ⟨0, c.depositId⟩).defaulted
        (.pay c.borrower.borrower (c.afterSettlement s).borrower.depositAsset ::
          c.settlementMoves s)
  | notDue (hstatus : c.status = .inProgress) (hquoted : Quoted v c)
      (hdue : c.paymentDue boost v = .ok false) : ProcessOutcome boost v c l c []
  | month {c' : CreditObject} {ms : List Movement} (hstatus : c.status = .inProgress)
      (hquoted : Quoted v c) (hdue : c.paymentDue boost v = .ok true)
      (hmonth : MonthOutcome v c l c' ms) (hperiod : c'.settleMonthElapsed < c'.borrower.loanPeriod) :
      ProcessOutcome boost v c l c' ms
  | lastMonth {c' : CreditObject} {ms : List Movement} (hstatus : c.status = .inProgress)
      (hquoted : Quoted v c) (hdue : c.paymentDue boost v = .ok true)
      (hmonth : MonthOutcome v c l c' ms) (hperiod : c'.borrower.loanPeriod ≤ c'.settleMonthElapsed) :
      ProcessOutcome boost v c l c'.completed
        (.pay c'.borrower.borrower c'.borrower.depositAsset :: ms)

theorem processPayment_cases {c c' : CreditObject} {l l' : Ledger}
    (h : c.processPayment boost v l = .ok (c', l')) (hstatus : c.status = .inProgress)
    (hquoted : Quoted v c) : ∃ ms, l.Moves ms l' ∧ ProcessOutcome boost v c l c' ms := by
  simp only [processPayment, Checked.bind_eq_ok] at h
  obtain ⟨due, hdue, h⟩ := h
  split_ifs at h with hd
  · simp only [Checked.bind_eq_ok] at h
    obtain ⟨⟨d, m⟩, hmonth, h⟩ := h
    subst hd
    obtain ⟨ms, hmoves, hmonth⟩ := onNextMonth_cases hmonth (by simp [hstatus])
    split_ifs at h with hperiod
    · obtain ⟨hpay, rfl⟩ := completeCreditOperation_eq_ok h
      exact ⟨_, hmoves.trans hpay, .lastMonth hstatus hquoted hdue hmonth hperiod⟩
    · obtain ⟨rfl, rfl⟩ := Prod.mk.inj (Checked.pure_eq_ok.mp h)
      exact ⟨ms, hmoves, .month hstatus hquoted hdue hmonth (not_le.mp hperiod)⟩
  · obtain ⟨rfl, rfl⟩ := Prod.mk.inj (Checked.pure_eq_ok.mp h)
    obtain rfl : due = false := by simpa using hd
    exact ⟨[], .refl l, .notDue hstatus hquoted hdue⟩

/-- Whatever `process` does is one of its outcomes. -/
theorem process_cases {c c' : CreditObject} {l l' : Ledger}
    (h : c.process boost v l = .ok (c', l')) :
    ∃ ms, l.Moves ms l' ∧ ProcessOutcome boost v c l c' ms := by
  unfold process at h
  split_ifs at h with hstatus hfree
  · exact processPayment_cases h hstatus (.inl hfree)
  · simp only [Checked.bind_eq_ok] at h
    obtain ⟨⟨quoted, d, m⟩, hcheck, h⟩ := h
    simp only [checkDepositQuotes, Checked.bind_eq_ok] at hcheck
    obtain ⟨q, hq, hcheck⟩ := hcheck
    rw [quotes_eq_ok] at hq
    split_ifs at hcheck with hstop
    · simp only [Checked.bind_eq_ok, Checked.pure_eq_ok, Prod.mk.injEq] at hcheck
      obtain ⟨s, hs, ⟨e, n⟩, hsettle, k, hpay, rfl, rfl, rfl⟩ := hcheck
      obtain ⟨hmoves, rfl⟩ := settle_eq_ok (stopLossSettlement_in hs) hsettle
      obtain ⟨rfl, rfl⟩ := Prod.mk.inj (Checked.pure_eq_ok.mp h)
      exact ⟨_, hmoves.trans (moves_of_pay hpay), .stoppedLoss hstatus hfree hq hstop hs⟩
    · simp only [Checked.pure_eq_ok, Prod.mk.injEq] at hcheck
      obtain ⟨rfl, rfl, rfl⟩ := hcheck
      exact processPayment_cases h hstatus (.inr ⟨q, hq, hstop⟩)
  · obtain ⟨rfl, rfl⟩ := Prod.mk.inj (Checked.pure_eq_ok.mp h)
    exact ⟨[], .refl l, .closed hstatus⟩

end CreditObject

end KarmaCore
