import Mathlib
import KarmaCore.Credit.BlockRun
import KarmaCore.Lib.Annuity

/-!
# The month's payment and early settlement

The month's payment is the one that pays a loan off in its period.  Early
settlement charges all payments still to come, or before the first month the
loan and a twelfth of its percentage.
-/

namespace KarmaCore

open Annuity

/-- The growth of a debt in one month. -/
def monthlyRate (annualLoanRate : ℚ) : ℚ := (annualLoanRate / 12) / 100

theorem calculateMonthlyPayment_eq (loanSum annualLoanRate : ℚ) (period : ℕ) :
    calculateMonthlyPayment loanSum annualLoanRate period =
      payment loanSum (monthlyRate annualLoanRate) period := rfl

theorem monthlyRate_pos {annualLoanRate : ℚ} (h : 0 < annualLoanRate) :
    0 < monthlyRate annualLoanRate := by
  unfold monthlyRate
  positivity

theorem monthlyRate_lt {rate rate' : ℚ} (h : rate < rate') :
    monthlyRate rate < monthlyRate rate' := by
  unfold monthlyRate
  linarith

/-- The month's payment of a loan above zero ends it with the period, is at
least the loan by the months, and grows with the percentage. -/
theorem calculateMonthlyPayment_amortizes {loanSum rate : ℚ} {period : ℕ} (hloan : 0 < loanSum)
    (hrate : 0 < rate) (hperiod : 0 < period) :
    debt loanSum ((rate / 12) / 100) (calculateMonthlyPayment loanSum rate period) period = 0 ∧
      0 < calculateMonthlyPayment loanSum rate period ∧
      loanSum / period ≤ calculateMonthlyPayment loanSum rate period ∧
      ∀ rate', rate < rate' →
        calculateMonthlyPayment loanSum rate period <
          calculateMonthlyPayment loanSum rate' period := by
  have hp := monthlyRate_pos hrate
  refine ⟨debt_payment hp hperiod, payment_pos hloan hp hperiod,
    div_le_payment hloan.le hp hperiod, fun rate' hlt ↦ ?_⟩
  exact payment_lt_payment hloan hp (monthlyRate_lt hlt) hperiod

theorem calculateMonthlyPayment_amortizes_year :
    debt (1000 : ℚ) ((12 / 12) / 100) (calculateMonthlyPayment 1000 12 12) 12 = 0 ∧
      1000 / (12 : ℕ) ≤ calculateMonthlyPayment 1000 12 12 ∧
      calculateMonthlyPayment 1000 12 12 < calculateMonthlyPayment 1000 13 12 := by
  have h := @calculateMonthlyPayment_amortizes 1000 12 12 (by norm_num) (by norm_num) (by norm_num)
  exact ⟨h.1, h.2.2.1, h.2.2.2 13 (by norm_num)⟩

/-- A request for nothing, for a year. -/
def emptyRequest : CreditRequestOperation where
  fee := ⟨1, 0⟩
  borrower := 1
  loanAsset := ⟨0, 1⟩
  loanPeriod := 12
  loanPersent := 12
  depositAsset := ⟨0, 0⟩
  loanPeriod_lt := twelve_lt_uint32
  loanPersent_lt := twelve_lt_uint32

/-- It is accepted, and its payment is no amount at any percentage. -/
theorem emptyRequest_pays_nothing :
    emptyRequest.doEvaluate twoAssetView freshState.db = .ok () ∧
      ¬0 < calculateMonthlyPayment 0 12 12 ∧
      ¬calculateMonthlyPayment 0 12 12 < calculateMonthlyPayment 0 24 12 :=
  ⟨by decide +kernel, by norm_num [calculateMonthlyPayment],
    by norm_num [calculateMonthlyPayment]⟩

/-! ## Credits on schedule -/

/-- The terms every credit keeps from its request, and the payment and the
month of a live one. -/
structure Scheduled (v : ChainView) (c : CreditObject) : Prop where
  loan : ∃ loan, v.assets c.loanId = some loan ∧ 0 ≤ loan.amountToReal c.borrower.loanAsset.amount
  persent : 0 < c.borrower.loanPersent
  period : 0 < c.borrower.loanPeriod ∧ c.borrower.loanPeriod < 2 ^ 32
  elapsed : c.status = .inProgress → c.settleMonthElapsed < c.borrower.loanPeriod
  payment : c.status = .inProgress → ∀ loan ∈ v.assets c.loanId,
    c.creditor.monthlyPayment = calculateMonthlyPayment
      (loan.amountToReal c.borrower.loanAsset.amount) c.borrower.loanPersent c.borrower.loanPeriod

theorem newCredit_scheduled {v : ChainView} {db : CreditDatabase} {op : CreditRequestOperation}
    {deposit : AssetObject} {uuid : String} (heval : op.doEvaluate v db = .ok ()) :
    Scheduled v (op.newCredit v deposit uuid) := by
  simp only [CreditRequestOperation.doEvaluate, Checked.bind_eq_ok, require_eq_ok,
    ChainView.assetObject_eq_ok] at heval
  obtain ⟨_, -, _, -, loan, hloan, _, -, _, hsign, _, -, _, -, _, hperiod, _, hpersent, -⟩ := heval
  refine ⟨⟨loan, hloan, not_lt.mp hsign⟩, Nat.pos_of_ne_zero hpersent,
    ⟨Nat.pos_of_ne_zero hperiod, op.loanPeriod_lt⟩, ?_, ?_⟩
  · intro hstatus
    cases hstatus
  · intro hstatus
    cases hstatus

theorem Scheduled.approved {v : ChainView} {c : CreditObject} {loan : AssetObject}
    (hc : Scheduled v c) (creditor : AccountId) (hloan : v.assets c.loanId = some loan) :
    Scheduled v (CreditApproveOperation.approved v creditor loan c) := by
  refine ⟨hc.loan, hc.persent, hc.period, fun _ ↦ hc.period.1, fun _ loan' hloan' ↦ ?_⟩
  obtain rfl := Option.some.inj (hloan.symm.trans hloan')
  rfl

theorem Scheduled.completed {v : ChainView} {c : CreditObject} (hc : Scheduled v c) :
    Scheduled v c.completed := by
  refine ⟨hc.loan, hc.persent, hc.period, ?_, ?_⟩
  · intro hstatus
    cases hstatus
  · intro hstatus
    cases hstatus

namespace CreditObject

variable {boost : BoostLibrary} {v : ChainView} {c c' : CreditObject} {l : Ledger}
  {ms : List Movement}

@[simp] theorem nextMonth_borrower (c : CreditObject) : c.nextMonth.borrower = c.borrower := by
  unfold nextMonth
  split_ifs <;> rfl

@[simp] theorem nextMonth_status (c : CreditObject) : c.nextMonth.status = c.status := by
  unfold nextMonth
  split_ifs <;> rfl

theorem MonthOutcome.loanPersent_eq (h : MonthOutcome v c l c' ms) :
    c'.borrower.loanPersent = c.borrower.loanPersent := by
  cases h with
  | paid => rw [nextMonth_borrower]
  | delayed => rw [nextMonth_borrower]
  | waiting => rw [nextMonth_borrower]
  | defaulted => rfl
  | fromDeposit =>
      rw [nextMonth_borrower]
      rfl
  | exhausted => rfl

theorem ProcessOutcome.loanPersent_eq (h : ProcessOutcome boost v c l c' ms) :
    c'.borrower.loanPersent = c.borrower.loanPersent := by
  cases h with
  | closed => rfl
  | stoppedLoss => rfl
  | notDue => rfl
  | month hstatus hquoted hdue hmonth => exact hmonth.loanPersent_eq
  | lastMonth hstatus hquoted hdue hmonth => exact hmonth.loanPersent_eq

/-- Processing a credit leaves it live only in a month of its period. -/
theorem ProcessOutcome.live (h : ProcessOutcome boost v c l c' ms)
    (hc : c.status = .inProgress → c.settleMonthElapsed < c.borrower.loanPeriod)
    (hstatus' : c'.status = .inProgress) :
    c.status = .inProgress ∧ c'.settleMonthElapsed < c'.borrower.loanPeriod := by
  cases h with
  | closed hstatus => exact absurd hstatus' hstatus
  | stoppedLoss => cases hstatus'
  | notDue hstatus => exact ⟨hstatus, hc hstatus⟩
  | month hstatus hquoted hdue hmonth hperiod => exact ⟨hstatus, hperiod⟩
  | lastMonth => cases hstatus'

theorem ProcessOutcome.scheduled (h : ProcessOutcome boost v c l c' ms) (hc : Scheduled v c) :
    Scheduled v c' := by
  have hterms := h.sameTerms
  have hid : c'.loanId = c.loanId := congrArg Asset.assetId hterms.loan
  refine ⟨by rw [hid, hterms.loan]; exact hc.loan, by rw [h.loanPersent_eq]; exact hc.persent,
    by rw [hterms.period]; exact hc.period, fun hstatus' ↦ (h.live hc.elapsed hstatus').2,
    fun hstatus' loan hloan ↦ ?_⟩
  rw [hterms.creditor, hterms.loan, hterms.period, h.loanPersent_eq]
  rw [hid] at hloan
  exact hc.payment (h.live hc.elapsed hstatus').1 loan hloan

end CreditObject

namespace CreditState

/-- The rest of the chain removes nothing and keeps every asset's precision. -/
def ViewsGrow (s : CreditState) : CreditEvent → Prop
  | .others view _ _ => ViewGrows s.view view
  | .operation _ => True
  | .block => True

theorem step_scheduled {boost : BoostLibrary} {s : CreditState} {event : CreditEvent}
    (hs : ∀ c ∈ s.db.credits, Scheduled s.view c) (hevent : s.ViewsGrow event) :
    ∀ c ∈ (s.step boost event).db.credits, Scheduled (s.step boost event).view c := by
  cases event with
  | operation op =>
      simp only [step]
      rcases happly : s.db.applyOperation boost s.view op with _ | db
      · exact hs
      · obtain ⟨ms, hmoves, houtcome⟩ := applyOperation_cases happly
        refine houtcome.forall_credits hs ?_ ?_ ?_
        · rintro req deposit uuid rfl heval hdeposit
          exact newCredit_scheduled heval
        · rintro app before c after loan rfl hfind hstatus hloan hc
          exact hc.approved _ hloan
        · exact fun c hc ↦ hc.completed
  | block =>
      simp only [step]
      rcases hprocess : s.db.processCredits boost s.view with _ | db
      · exact hs
      · simp only [CreditDatabase.processCredits, Checked.bind_eq_ok] at hprocess
        obtain ⟨⟨credits, l⟩, hstories, hdb⟩ := hprocess
        obtain rfl := Checked.pure_eq_ok.mp hdb
        exact processCreditStories_forall hstories hs fun c l c' ms hc houtcome ↦
          houtcome.scheduled hc
  | others view balances supply =>
      intro c hc
      have hscheduled := hs c hc
      obtain ⟨loan, hloan, hreal⟩ := hscheduled.loan
      have hgrown := hevent.assets _ _ hloan
      refine ⟨⟨loan, hgrown, hreal⟩, hscheduled.persent, hscheduled.period, hscheduled.elapsed,
        fun hstatus loan' hloan' ↦ ?_⟩
      obtain rfl := Option.some.inj (hgrown.symm.trans hloan')
      exact hscheduled.payment hstatus loan hloan

/-- Every credit of a run stays on schedule. -/
theorem scheduled_of_reaches {boost : BoostLibrary} {start s : CreditState}
    (hstart : start.db.credits = []) (hrun : Run.Reaches (step boost) ViewsGrow start s) :
    ∀ c ∈ s.db.credits, Scheduled s.view c := by
  refine hrun.invariant (fun s ↦ ∀ c ∈ s.db.credits, Scheduled s.view c) ?_
    fun s event hs hguard ↦ step_scheduled hs hguard
  intro c hc
  simp [hstart] at hc

end CreditState

/-! ## Early settlement -/

/-- The bounds of an early settlement: the loan when no month was paid, the
payments still to come, and before the first one a month's interest. -/
structure SettlementBounded (loan : AssetObject) (c : CreditObject) : Prop where
  principal : c.settleMonthElapsed = 0 →
    loan.amountToReal c.borrower.loanAsset.amount ≤ SettleCreditOperation.settleSum loan c
  remaining : SettleCreditOperation.settleSum loan c ≤
    c.creditor.monthlyPayment * (c.borrower.loanPeriod - c.settleMonthElapsed : ℕ)
  firstMonth : c.settleMonthElapsed = 0 → SettleCreditOperation.settleSum loan c =
    loan.amountToReal c.borrower.loanAsset.amount +
      (c.borrower.loanPersent / 12 / 100 : ℚ) * loan.amountToReal c.borrower.loanAsset.amount

theorem wrap32_of_lt {n : ℕ} (h : n < 2 ^ 32) : wrap32 n = n := by
  unfold wrap32
  omega

/-- After the first month exactly the payments still to come are charged. -/
theorem settleSum_of_elapsed {v : ChainView} {c : CreditObject} (hc : Scheduled v c)
    (hstatus : c.status = .inProgress) (helapsed : c.settleMonthElapsed ≠ 0) (loan : AssetObject) :
    SettleCreditOperation.settleSum loan c =
      c.creditor.monthlyPayment * (c.borrower.loanPeriod - c.settleMonthElapsed : ℕ) := by
  have hlive := hc.elapsed hstatus
  have hperiod := hc.period.2
  have hmonths : (c.borrower.loanPeriod : ℤ) - c.settleMonthElapsed =
      (c.borrower.loanPeriod - c.settleMonthElapsed : ℕ) := by omega
  rw [SettleCreditOperation.settleSum, if_neg helapsed, CreditObject.loanForReturn, hmonths,
    wrap32_of_lt (by omega)]

/-- The schedule is worth the loan and a month's interest at least. -/
theorem Scheduled.interest_le {v : ChainView} {c : CreditObject} {loan : AssetObject}
    (hc : Scheduled v c) (hstatus : c.status = .inProgress)
    (hloan : v.assets c.loanId = some loan) :
    loan.amountToReal c.borrower.loanAsset.amount +
        (c.borrower.loanPersent / 12 / 100 : ℚ) * loan.amountToReal c.borrower.loanAsset.amount ≤
      c.creditor.monthlyPayment * c.borrower.loanPeriod := by
  obtain ⟨loan', hloan', hreal⟩ := hc.loan
  obtain rfl := Option.some.inj (hloan'.symm.trans hloan)
  have hpersent : (0 : ℚ) < c.borrower.loanPersent := by exact_mod_cast hc.persent
  rw [hc.payment hstatus loan' hloan, calculateMonthlyPayment_eq, mul_comm _ (c.borrower.loanPeriod : ℚ)]
  exact loan_add_interest_le hreal (monthlyRate_pos hpersent) hc.period.1

/-- In every run, an early settlement keeps its bounds exactly when a month was
paid or the loan is a hundred units. -/
theorem settlementBounded_iff {boost : BoostLibrary} {start s : CreditState} {c : CreditObject}
    {loan : AssetObject} (hstart : start.db.credits = [])
    (hrun : Run.Reaches (CreditState.step boost) CreditState.ViewsGrow start s)
    (hc : c ∈ s.db.credits) (hstatus : c.status = .inProgress)
    (hloan : s.view.assets c.loanId = some loan) :
    SettlementBounded loan c ↔
      c.settleMonthElapsed ≠ 0 ∨ loan.amountToReal c.borrower.loanAsset.amount = 100 := by
  have hscheduled := CreditState.scheduled_of_reaches hstart hrun c hc
  have hpersent : (0 : ℚ) < c.borrower.loanPersent := by exact_mod_cast hscheduled.persent
  by_cases helapsed : c.settleMonthElapsed = 0
  · have hsum : SettleCreditOperation.settleSum loan c =
        c.borrower.loanPersent / 12 + loan.amountToReal c.borrower.loanAsset.amount :=
      if_pos helapsed
    rw [or_iff_right (not_not.mpr helapsed)]
    constructor
    · intro hbounded
      have hfirst := hbounded.firstMonth helapsed
      rw [hsum] at hfirst
      have hmul : (c.borrower.loanPersent : ℚ) *
          (loan.amountToReal c.borrower.loanAsset.amount - 100) = 0 := by linarith
      rcases mul_eq_zero.mp hmul with hzero | hzero
      · exact absurd hzero hpersent.ne'
      · linarith
    · intro hhundred
      have hinterest := hscheduled.interest_le hstatus hloan
      refine ⟨fun _ ↦ ?_, ?_, fun _ ↦ ?_⟩
      · rw [hsum]
        have htwelfth : 0 ≤ (c.borrower.loanPersent : ℚ) / 12 := by positivity
        linarith
      · rw [hsum, helapsed, Nat.sub_zero]
        rw [hhundred] at hinterest ⊢
        linarith
      · rw [hsum, hhundred]
        ring
  · refine iff_of_true ⟨fun h ↦ absurd h helapsed, ?_, fun h ↦ absurd h helapsed⟩ (.inl helapsed)
    exact (settleSum_of_elapsed hscheduled hstatus helapsed loan).le

/-- The loan asset of the credit of ten units. -/
def lentAsset : AssetObject := { symbol := "KUSD", precision := 2, precision_lt := two_lt_nineteen }

theorem lentState_reached :
    Run.Reaches (CreditState.step plainCalendar) CreditState.ViewsGrow freshState lentState :=
  .next (CreditEvent.operation (.approve depositApproval))
    (.next (CreditEvent.operation (.request depositRequest)) .refl trivial) trivial

theorem lentState_view : lentState.view = twoAssetView := by
  rw [lentState, CreditState.step_operation_view, requestedState,
    CreditState.step_operation_view, freshState]

/-- Ten units at twelve percent are settled early for eleven, when the one
payment to come is ten and a tenth. -/
theorem lentCredit_overcharged :
    Run.Reaches (CreditState.step plainCalendar) CreditState.ViewsGrow freshState lentState ∧
      lentCredit ∈ lentState.db.credits ∧ lentCredit.status = .inProgress ∧
      lentState.view.assets lentCredit.loanId = some lentAsset ∧
      SettleCreditOperation.settleSum lentAsset lentCredit = 11 ∧
      ¬SettlementBounded lentAsset lentCredit := by
  have hsum : SettleCreditOperation.settleSum lentAsset lentCredit = 11 := by decide +kernel
  refine ⟨lentState_reached, by simp [lentState_credits], rfl, by rw [lentState_view]; rfl, hsum,
    fun hbounded ↦ ?_⟩
  have hremaining := hbounded.remaining
  rw [hsum] at hremaining
  exact absurd hremaining (by decide +kernel)

theorem settlementBounded_iff_lentCredit :
    SettlementBounded lentAsset lentCredit ↔
      lentCredit.settleMonthElapsed ≠ 0 ∨
        lentAsset.amountToReal lentCredit.borrower.loanAsset.amount = 100 :=
  settlementBounded_iff rfl lentState_reached (by simp [lentState_credits]) rfl
    (by rw [lentState_view]; rfl)

end KarmaCore
