import Mathlib
import KarmaCore.Credit.CreditEvaluator
import KarmaCore.Credit.Conservation
import KarmaCore.Lib.Run

/-!
# Signs of credit amounts

The evaluator of a request looks for a minus sign in the decimal text of an
amount.  A negative amount of less than one whole unit prints without one, so
requests for such amounts pass.  Without them every loan, deposit and moved
amount is at least zero, all along a run.
-/

namespace KarmaCore

open Truncation

/-- A negative amount whose decimal text has lost its sign. -/
def SignLost (o : AssetObject) (amount : ℤ) : Prop := -(o.scaledPrecision : ℤ) < amount ∧ amount < 0

instance (o : AssetObject) (amount : ℤ) : Decidable (SignLost o amount) :=
  inferInstanceAs (Decidable (_ ∧ _))

theorem amountToReal_neg_iff {o : AssetObject} {amount : ℤ} :
    o.amountToReal amount < 0 ↔ amount < 0 ∧ ¬SignLost o amount := by
  constructor
  · intro h
    have hneg : amount < 0 := by
      by_contra hge
      rw [o.amountToReal_of_nonneg (not_lt.mp hge)] at h
      have : (0 : ℚ) ≤ amount / 10 ^ o.precision := by
        have : (0 : ℚ) ≤ amount := by exact_mod_cast not_lt.mp hge
        positivity
      linarith
    refine ⟨hneg, fun hlost ↦ ?_⟩
    exact absurd h (not_lt.mpr (o.amountToReal_nonneg_of_gt hlost.1 hneg))
  · rintro ⟨hneg, hkept⟩
    refine o.amountToReal_neg_of_le ?_
    by_contra hgt
    exact hkept ⟨not_le.mp hgt, hneg⟩

namespace CreditObject

/-- The amounts of a credit that are charged or paid at some time. -/
structure NonNegative (c : CreditObject) : Prop where
  loan : 0 ≤ c.borrower.loanAsset.amount
  deposit : 0 ≤ c.borrower.depositAsset.amount
  payment : 0 ≤ c.creditor.monthlyPayment

variable {boost : BoostLibrary} {v : ChainView} {c c' : CreditObject} {q : Quotes} {l l' : Ledger}
  {s : Settlement} {ms : List Movement}

theorem loanLeft_nonneg (c : CreditObject) (q : Quotes) (l : Ledger) : 0 ≤ c.loanLeft q l := by
  have hbal : (0 : ℚ) ≤ (l.getBalance c.borrower.borrower c.loanId).amount := by
    exact_mod_cast l.getBalance_nonneg _ _
  rw [loanLeft, q.loan.amountToReal_of_nonneg (l.getBalance_nonneg _ _)]
  positivity

theorem depositLeft_scaled (hc : c.NonNegative) (q : Quotes) :
    c.depositLeft q * 10 ^ q.deposit.precision = c.borrower.depositAsset.amount := by
  have hpow : (10 : ℚ) ^ q.deposit.precision ≠ 0 := by positivity
  rw [depositLeft, q.deposit.amountToReal_of_nonneg hc.deposit, div_mul_cancel₀ _ hpow]

theorem depositLeft_nonneg (hc : c.NonNegative) (q : Quotes) : 0 ≤ c.depositLeft q := by
  have hdeposit : (0 : ℚ) ≤ c.borrower.depositAsset.amount := by exact_mod_cast hc.deposit
  rw [depositLeft, q.deposit.amountToReal_of_nonneg hc.deposit]
  positivity

/-- A settlement of a sum the borrower lacks moves no negative amount and takes
no more than the deposit. -/
theorem settlement_nonneg {sum : ℚ} (hc : c.NonNegative) (hshort : c.loanLeft q l < sum)
    (hs : c.settlement q l sum = .ok s) :
    0 ≤ s.loanAssetFromBorrower.amount ∧ 0 ≤ s.loanAssetToCreditor.amount ∧
      s.depositAssetFromDeposit.amount ≤ c.borrower.depositAsset.amount := by
  obtain ⟨hborrower, hsums⟩ := settlement_sums hs
  have hloanRate := q.loanExchangeRate.2
  have hdepositRate := q.depositExchangeRate.2
  have hleft := loanLeft_nonneg c q l
  have hdeposit := depositLeft_nonneg hc q
  have hscaled := depositLeft_scaled hc q
  refine ⟨by rw [hborrower]; exact l.getBalance_nonneg _ _, ?_⟩
  split_ifs at hsums with hreach
  · obtain ⟨left, hall, htaken, hgiven⟩ := hsums
    rw [htaken, hgiven]
    refine ⟨truncate_nonneg (by positivity), ?_⟩
    rw [hscaled] at hall
    exact_mod_cast hall.ge
  · obtain ⟨htaken, hgiven⟩ := hsums
    rw [htaken, hgiven]
    have hsum : 0 ≤ sum := hleft.trans hshort.le
    refine ⟨truncate_nonneg (by positivity), ?_⟩
    have hdebt : 0 ≤ c.debtInDeposit q l sum := by
      have : 0 ≤ sum - c.loanLeft q l := sub_nonneg.mpr hshort.le
      unfold debtInDeposit
      positivity
    refine truncate_le_of_le_intCast (by positivity) ?_
    rw [← hscaled]
    exact mul_le_mul_of_nonneg_right (not_lt.mp hreach) (by positivity)

theorem nonNegative_nextMonth (hc : c.NonNegative) : c.nextMonth.NonNegative := by
  unfold nextMonth
  split_ifs
  · exact ⟨hc.loan, hc.deposit, hc.payment⟩
  · exact hc

theorem transferMoves_nonneg {amount : ℤ} (h : 0 ≤ amount) :
    ∀ m ∈ c.transferMoves amount, 0 ≤ m.sum.amount := by
  simp [transferMoves, Movement.sum, h]

theorem settlementMoves_nonneg (hborrower : 0 ≤ s.loanAssetFromBorrower.amount)
    (hcreditor : 0 ≤ s.loanAssetToCreditor.amount) :
    ∀ m ∈ c.settlementMoves s, 0 ≤ m.sum.amount := by
  simp [settlementMoves, Movement.sum, hborrower, hcreditor]

theorem nonNegative_afterSettlement (hc : c.NonNegative)
    (h : s.depositAssetFromDeposit.amount ≤ c.borrower.depositAsset.amount) :
    (c.afterSettlement s).NonNegative :=
  ⟨hc.loan, sub_nonneg.mpr h, hc.payment⟩

/-- The whole balance of the borrower, through its decimal text. -/
theorem balance_share_nonneg {loan : AssetObject} {owner : AccountId} {assetId : AssetId}
    {amount : ℤ} (h : toShare (loan.amountToReal (l.getBalance owner assetId).amount *
      10 ^ loan.precision) = .ok amount) : 0 ≤ amount := by
  obtain ⟨-, rfl⟩ := toShare_eq_ok.mp h
  have hbal : (0 : ℚ) ≤ (l.getBalance owner assetId).amount := by
    exact_mod_cast l.getBalance_nonneg _ _
  rw [loan.amountToReal_of_nonneg (l.getBalance_nonneg _ _)]
  exact truncate_nonneg (by positivity)

theorem payment_share_nonneg (hc : c.NonNegative) {loan : AssetObject} {amount : ℤ}
    (h : toShare (c.creditor.monthlyPayment * 10 ^ loan.precision) = .ok amount) : 0 ≤ amount := by
  obtain ⟨-, rfl⟩ := toShare_eq_ok.mp h
  exact truncate_nonneg (mul_nonneg hc.payment (by positivity))

theorem MonthOutcome.nonNegative (hc : c.NonNegative) (h : MonthOutcome v c l c' ms) :
    c'.NonNegative ∧ ∀ m ∈ ms, 0 ≤ m.sum.amount := by
  cases h with
  | paid hloan hamount hcover =>
      exact ⟨nonNegative_nextMonth ⟨hc.loan, hc.deposit, hc.payment⟩,
        transferMoves_nonneg (payment_share_nonneg hc hamount)⟩
  | delayed hstart hdelay =>
      exact ⟨nonNegative_nextMonth ⟨hc.loan, hc.deposit, hc.payment⟩, by simp⟩
  | waiting hdelay => exact ⟨nonNegative_nextMonth hc, by simp⟩
  | defaulted hloan hamount hdeposit =>
      exact ⟨⟨hc.loan, hc.deposit, hc.payment⟩,
        transferMoves_nonneg (balance_share_nonneg hamount)⟩
  | fromDeposit hpays hreach hs =>
      obtain ⟨hborrower, hcreditor, hdeposit⟩ :=
        settlement_nonneg hc (loanLeft_lt_of_short hpays.short) hs
      have hafter := nonNegative_afterSettlement hc hdeposit
      exact ⟨nonNegative_nextMonth ⟨hafter.loan, hafter.deposit, hafter.payment⟩,
        settlementMoves_nonneg hborrower hcreditor⟩
  | exhausted hpays hshort hs hamount =>
      obtain ⟨hborrower, hcreditor, hdeposit⟩ :=
        settlement_nonneg hc (loanLeft_lt_of_short hpays.short) hs
      have hafter := nonNegative_afterSettlement hc hdeposit
      refine ⟨⟨hafter.loan, hafter.deposit, hafter.payment⟩, fun m hm ↦ ?_⟩
      rcases List.mem_append.mp hm with hm | hm
      · exact transferMoves_nonneg (balance_share_nonneg hamount) m hm
      · exact settlementMoves_nonneg hborrower hcreditor m hm

theorem loanForReturn_nonneg (hc : c.NonNegative) : 0 ≤ c.loanForReturn :=
  mul_nonneg hc.payment (by positivity)

/-- Processing a credit keeps its amounts and moves none below zero. -/
theorem ProcessOutcome.nonNegative (hc : c.NonNegative) (h : ProcessOutcome boost v c l c' ms) :
    c'.NonNegative ∧ ∀ m ∈ ms, 0 ≤ m.sum.amount := by
  cases h with
  | closed hstatus => exact ⟨hc, by simp⟩
  | @stoppedLoss q s hstatus hcollateral hq hstop hs =>
      have hsums : 0 ≤ s.loanAssetFromBorrower.amount ∧ 0 ≤ s.loanAssetToCreditor.amount ∧
          s.depositAssetFromDeposit.amount ≤ c.borrower.depositAsset.amount := by
        unfold stopLossSettlement at hs
        split_ifs at hs with hshort
        · exact settlement_nonneg hc hshort hs
        · simp only [Checked.bind_eq_ok, toShare_eq_ok, Checked.pure_eq_ok] at hs
          obtain ⟨_, ⟨-, rfl⟩, rfl⟩ := hs
          have hreturn := truncate_nonneg (mul_nonneg (loanForReturn_nonneg hc)
            (show (0 : ℚ) ≤ 10 ^ q.loan.precision by positivity))
          exact ⟨hreturn, hreturn, hc.deposit⟩
      have hafter := nonNegative_afterSettlement hc hsums.2.2
      refine ⟨⟨hafter.loan, le_rfl, hafter.payment⟩, fun m hm ↦ ?_⟩
      rcases List.mem_cons.mp hm with rfl | hm
      · exact hafter.deposit
      · exact settlementMoves_nonneg hsums.1 hsums.2.1 m hm
  | notDue hstatus hquoted hdue => exact ⟨hc, by simp⟩
  | month hstatus hquoted hdue hmonth hperiod => exact hmonth.nonNegative hc
  | lastMonth hstatus hquoted hdue hmonth hperiod =>
      obtain ⟨hc', hms⟩ := hmonth.nonNegative hc
      refine ⟨⟨hc'.loan, le_rfl, hc'.payment⟩, fun m hm ↦ ?_⟩
      rcases List.mem_cons.mp hm with rfl | hm
      · exact hc'.deposit
      · exact hms m hm

end CreditObject

/-! ## Operations -/

/-- The accepted sign of a request is the sign of its amounts, but for amounts
whose text loses it. -/
theorem request_nonneg_iff {v : ChainView} {db : CreditDatabase} {op : CreditRequestOperation}
    (h : op.doEvaluate v db = .ok ()) : ∃ deposit loan,
      v.assets op.depositAsset.assetId = some deposit ∧ v.assets op.loanAsset.assetId = some loan ∧
      ((0 ≤ op.loanAsset.amount ∧ 0 ≤ op.depositAsset.amount) ↔
        ¬SignLost loan op.loanAsset.amount ∧ ¬SignLost deposit op.depositAsset.amount) := by
  simp only [CreditRequestOperation.doEvaluate, Checked.bind_eq_ok, require_eq_ok,
    ChainView.assetObject_eq_ok] at h
  obtain ⟨_, -, deposit, hdeposit, loan, hloan, _, hdepositSign, _, hloanSign, -⟩ := h
  refine ⟨deposit, loan, hdeposit, hloan, ?_⟩
  rw [amountToReal_neg_iff] at hdepositSign hloanSign
  have hiff : ∀ {o : AssetObject} {x : ℤ}, ¬(x < 0 ∧ ¬SignLost o x) → (0 ≤ x ↔ ¬SignLost o x) := by
    intro o x hx
    constructor
    · exact fun hpos hlost ↦ absurd hlost.2 (not_lt.mpr hpos)
    · intro hkept
      by_contra hneg
      exact hx ⟨not_le.mp hneg, hkept⟩
  rw [hiff hloanSign, hiff hdepositSign]

theorem calculateMonthlyPayment_nonneg {loanSum rate : ℚ} (h : 0 ≤ loanSum) (hrate : 0 ≤ rate)
    (period : ℕ) : 0 ≤ calculateMonthlyPayment loanSum rate period := by
  have hp : (0 : ℚ) ≤ (rate / 12) / 100 := by positivity
  have ht : (0 : ℚ) ≤ (1 + (rate / 12) / 100) ^ period - 1 :=
    sub_nonneg.mpr (one_le_pow₀ (by linarith))
  exact mul_nonneg h (add_nonneg hp (div_nonneg hp ht))

/-- A percentage of a loan in whole shares. -/
def bonusPart (loan : ℤ) (percent : ℚ) : ℤ := truncate (loan * percent / 100)

/-- The three bonuses of a loan are non-negative and together no more than it. -/
structure BonusesFit (v : ChainView) (creditor borrower : AccountObject) (loan : ℤ) : Prop where
  forCreditor : 0 ≤ bonusPart loan (CreditApproveOperation.creditorPercent v creditor)
  forBorrower : 0 ≤ bonusPart loan (CreditApproveOperation.borrowerPercent v borrower)
  toSpecialAccount :
    0 ≤ bonusPart loan (CreditApproveOperation.specialAccountPercent v creditor borrower)
  total : bonusPart loan (CreditApproveOperation.creditorPercent v creditor) +
    bonusPart loan (CreditApproveOperation.borrowerPercent v borrower) +
    bonusPart loan (CreditApproveOperation.specialAccountPercent v creditor borrower) ≤ loan

/-- Whatever bonuses an approval by `creditor` pays fit into the loan. -/
def BonusesCovered (v : ChainView) (creditor : AccountId) (c : CreditObject) : Prop :=
  hardforkCoreKarma2Time ≤ v.headBlockTime →
    ∀ creditorAccount ∈ v.accounts creditor, ∀ borrowerAccount ∈ v.accounts c.borrower.borrower,
      BonusesFit v creditorAccount borrowerAccount c.borrower.loanAsset.amount

theorem LoanMoves.nonneg {v : ChainView} {creditor : AccountId} {c : CreditObject}
    {ms : List Movement} (h : LoanMoves v creditor c ms) (hc : c.NonNegative)
    (hbonuses : BonusesCovered v creditor c) : ∀ m ∈ ms, 0 ≤ m.sum.amount := by
  cases h with
  | whole hfork => simpa [Movement.sum] using hc.loan
  | bonuses hfork hcreditor hborrower hsums =>
      obtain ⟨hforCreditor, hforBorrower, htoSpecial, hall⟩ :=
        hbonuses hfork _ hcreditor _ hborrower
      simp only [bonusPart] at hforCreditor hforBorrower htoSpecial hall
      simp only [CreditApproveOperation.bonusSums, Checked.bind_eq_ok, toShare_eq_ok,
        Checked.pure_eq_ok] at hsums
      obtain ⟨_, ⟨-, rfl⟩, _, ⟨-, rfl⟩, _, ⟨-, rfl⟩, rfl⟩ := hsums
      simp only [List.mem_cons, List.not_mem_nil, or_false, forall_eq_or_imp, forall_eq,
        Movement.sum]
      exact ⟨by omega, htoSpecial, hforBorrower, hforCreditor⟩

/-- The invariant of a run: no credit holds, and no movement so far had, a
negative amount. -/
structure CreditDatabase.NonNegative (db : CreditDatabase) : Prop where
  credits : ∀ c ∈ db.credits, c.NonNegative
  movements : ∀ m ∈ db.ledger.movements, 0 ≤ m.sum.amount

theorem Ledger.Moves.movements_nonneg {l l' : Ledger} {ms : List Movement} (h : l.Moves ms l')
    (hms : ∀ m ∈ ms, 0 ≤ m.sum.amount) (hl : ∀ m ∈ l.movements, 0 ≤ m.sum.amount) :
    ∀ m ∈ l'.movements, 0 ≤ m.sum.amount := by
  rw [h.movements]
  intro m hm
  rcases List.mem_append.mp hm with hm | hm
  · exact hms m hm
  · exact hl m hm

/-- An accepted request has no amount whose text loses its sign. -/
def RequestSigned (v : ChainView) (db : CreditDatabase) (op : CreditRequestOperation) : Prop :=
  op.doEvaluate v db = .ok () →
    (∀ loan ∈ v.assets op.loanAsset.assetId, ¬SignLost loan op.loanAsset.amount) ∧
      ∀ deposit ∈ v.assets op.depositAsset.assetId, ¬SignLost deposit op.depositAsset.amount

/-- What an operation must not do for the signs to hold: request an amount
whose text loses its sign, or approve a loan whose bonuses do not fit. -/
def SignsKept (v : ChainView) (db : CreditDatabase) : CreditOperation → Prop
  | .request op => RequestSigned v db op
  | .approve op => ∀ before c after,
      findCreditRequest op.creditRequestUuid db = .ok (before, c, after) →
        BonusesCovered v op.creditor c
  | .cancel _ => True
  | .settle _ => True

theorem RequestSigned.nonneg {v : ChainView} {db : CreditDatabase} {op : CreditRequestOperation}
    (h : RequestSigned v db op) (heval : op.doEvaluate v db = .ok ()) :
    0 ≤ op.loanAsset.amount ∧ 0 ≤ op.depositAsset.amount := by
  obtain ⟨deposit, loan, hdeposit, hloan, hiff⟩ := request_nonneg_iff heval
  exact hiff.mpr ⟨(h heval).1 loan hloan, (h heval).2 deposit hdeposit⟩

theorem settleSum_nonneg {c : CreditObject} (hc : c.NonNegative) (loan : AssetObject) :
    0 ≤ SettleCreditOperation.settleSum loan c := by
  unfold SettleCreditOperation.settleSum
  split_ifs
  · have hcast : (0 : ℚ) ≤ c.borrower.loanAsset.amount := by exact_mod_cast hc.loan
    rw [loan.amountToReal_of_nonneg hc.loan]
    positivity
  · exact CreditObject.loanForReturn_nonneg hc

theorem CreditObject.NonNegative.approved {c : CreditObject} (hc : c.NonNegative) (v : ChainView)
    (creditor : AccountId) (loan : AssetObject) :
    (CreditApproveOperation.approved v creditor loan c).NonNegative := by
  have hcast : (0 : ℚ) ≤ c.borrower.loanAsset.amount := by exact_mod_cast hc.loan
  have hreal : 0 ≤ loan.amountToReal c.borrower.loanAsset.amount := by
    rw [loan.amountToReal_of_nonneg hc.loan]
    positivity
  exact ⟨hc.loan, hc.deposit, calculateMonthlyPayment_nonneg hreal (by positivity) _⟩

variable {v : ChainView} {db : CreditDatabase} {op : CreditOperation} {credits : List CreditObject}
  {ms : List Movement}

/-- Replacing, adding or removing one credit keeps what holds of each. -/
theorem OperationOutcome.forall_credits {P : CreditObject → Prop}
    (h : OperationOutcome v db op credits ms) (hdb : ∀ c ∈ db.credits, P c)
    (hrequest : ∀ req deposit uuid, op = .request req → req.doEvaluate v db = .ok () →
      v.assets req.depositAsset.assetId = some deposit → P (req.newCredit v deposit uuid))
    (happrove : ∀ app before c after loan, op = .approve app →
      findCreditRequest app.creditRequestUuid db = .ok (before, c, after) →
      c.status = .watingForAcceptance → v.assets c.loanId = some loan → P c →
      P (CreditApproveOperation.approved v app.creditor loan c))
    (hcomplete : ∀ c, P c → P c.completed) : ∀ c ∈ credits, P c := by
  cases h with
  | requested heval hdeposit =>
      simp only [List.mem_append, List.mem_singleton]
      rintro c (hc | rfl)
      · exact hdb c hc
      · exact hrequest _ _ _ rfl heval hdeposit
  | approved hfind hcredits hstatus hloan hms =>
      simp only [hcredits, List.mem_append, List.mem_cons] at hdb ⊢
      rintro c (hc | rfl | hc)
      · exact hdb c (.inl hc)
      · exact happrove _ _ _ _ _ rfl hfind hstatus hloan (hdb _ (.inr (.inl rfl)))
      · exact hdb c (.inr (.inr hc))
  | cancelled hcredits =>
      simp only [hcredits, List.mem_append, List.mem_cons] at hdb ⊢
      rintro c (hc | hc)
      · exact hdb c (.inl hc)
      · exact hdb c (.inr (.inr hc))
  | settled hcredits hstatus hloan hamount =>
      simp only [hcredits, List.mem_append, List.mem_cons] at hdb ⊢
      rintro c (hc | rfl | hc)
      · exact hdb c (.inl hc)
      · exact hcomplete _ (hdb _ (.inr (.inl rfl)))
      · exact hdb c (.inr (.inr hc))

theorem OperationOutcome.credits_nonNegative (h : OperationOutcome v db op credits ms)
    (hdb : ∀ c ∈ db.credits, c.NonNegative)
    (hop : ∀ req, op = .request req → RequestSigned v db req) : ∀ c ∈ credits, c.NonNegative := by
  refine h.forall_credits hdb ?_ ?_ ?_
  · intro req deposit uuid hreq heval hdeposit
    obtain ⟨hloan, hdeposit⟩ := (hop req hreq).nonneg heval
    exact ⟨hloan, hdeposit, le_rfl⟩
  · intro app before c after loan happ hfind hstatus hloan hc
    exact hc.approved v app.creditor loan
  · intro c hc
    exact ⟨hc.loan, le_rfl, hc.payment⟩

theorem OperationOutcome.moves_nonneg (h : OperationOutcome v db op credits ms)
    (hdb : ∀ c ∈ db.credits, c.NonNegative) (hop : SignsKept v db op) :
    ∀ m ∈ ms, 0 ≤ m.sum.amount := by
  cases h with
  | requested heval hdeposit =>
      simpa [Movement.sum] using (RequestSigned.nonneg hop heval).2
  | @approved op before after c loan ms hfind hcredits hstatus hloan hms =>
      have hc := hdb c (by simp [hcredits])
      intro m hm
      rcases List.mem_append.mp hm with hm | hm
      · exact hms.nonneg hc (hop before c after hfind) m hm
      · obtain rfl := List.mem_singleton.mp hm
        exact hc.loan
  | @cancelled op before after c hcredits =>
      simpa [Movement.sum] using (hdb c (by simp [hcredits])).deposit
  | @settled op before after c loan amount hcredits hstatus hloan hamount =>
      have hc := hdb c (by simp [hcredits])
      obtain ⟨-, rfl⟩ := toShare_eq_ok.mp hamount
      have hamount0 := truncate_nonneg (mul_nonneg (settleSum_nonneg hc loan)
        (show (0 : ℚ) ≤ 10 ^ loan.precision by positivity))
      intro m hm
      rcases List.mem_cons.mp hm with rfl | hm
      · exact hc.deposit
      · exact CreditObject.transferMoves_nonneg hamount0 m hm

/-! ## Runs -/

theorem processCreditStories_nonNegative {boost : BoostLibrary} {v : ChainView}
    {cs cs' : List CreditObject} {l l' : Ledger}
    (h : processCreditStories boost v cs l = .ok (cs', l'))
    (hcs : ∀ c ∈ cs, c.NonNegative) (hl : ∀ m ∈ l.movements, 0 ≤ m.sum.amount) :
    (∀ c ∈ cs', c.NonNegative) ∧ ∀ m ∈ l'.movements, 0 ≤ m.sum.amount := by
  induction cs generalizing cs' l with
  | nil =>
      obtain ⟨rfl, rfl⟩ : [] = cs' ∧ l = l' := by simpa [processCreditStories] using h
      exact ⟨hcs, hl⟩
  | cons c cs ih =>
      simp only [processCreditStories, Checked.bind_eq_ok] at h
      obtain ⟨⟨c', m⟩, hprocess, ⟨ds, n⟩, hrest, h⟩ := h
      obtain ⟨rfl, rfl⟩ := Prod.mk.inj (Checked.pure_eq_ok.mp h)
      obtain ⟨ms, hmoves, houtcome⟩ := CreditObject.process_cases hprocess
      obtain ⟨hc', hms⟩ := houtcome.nonNegative (hcs c List.mem_cons_self)
      obtain ⟨hds, hn⟩ := ih hrest (fun d hd ↦ hcs d (List.mem_cons_of_mem _ hd))
        (hmoves.movements_nonneg hms hl)
      exact ⟨List.forall_mem_cons.mpr ⟨hc', hds⟩, hn⟩

/-- The chain between two events of the credit code. -/
structure CreditState where
  view : ChainView
  db : CreditDatabase

/-- An operation, the credit pass of a block, or whatever the rest of the chain
does to balances, supplies, rates, parameters and time. -/
inductive CreditEvent
  | operation (op : CreditOperation)
  | block
  | others (view : ChainView) (balances : List AccountBalance) (supply : AssetId → ℤ)

namespace CreditState

/-- A change that throws is undone with its session. -/
def attempt (s : CreditState) : Checked CreditDatabase → CreditState
  | .ok db => { s with db }
  | .error _ => s

def step (boost : BoostLibrary) (s : CreditState) : CreditEvent → CreditState
  | .operation op => s.attempt (s.db.applyOperation boost s.view op)
  | .block => s.attempt (s.db.processCredits boost s.view)
  | .others view balances supply =>
      ⟨view, { s.db with ledger := ⟨balances, supply, s.db.ledger.movements⟩ }⟩

@[simp] theorem step_operation_view (boost : BoostLibrary) (s : CreditState) (op : CreditOperation) :
    (s.step boost (.operation op)).view = s.view := by
  simp only [step]
  rcases s.db.applyOperation boost s.view op with _ | db <;> rfl

def SignsKept (s : CreditState) : CreditEvent → Prop
  | .operation op => KarmaCore.SignsKept s.view s.db op
  | .block => True
  | .others _ _ _ => True

/-- Before the first credit. -/
structure Fresh (s : CreditState) : Prop where
  credits : s.db.credits = []
  movements : s.db.ledger.movements = []

theorem step_nonNegative {boost : BoostLibrary} {s : CreditState} {event : CreditEvent}
    (hs : s.db.NonNegative) (hevent : s.SignsKept event) :
    (s.step boost event).db.NonNegative := by
  cases event with
  | operation op =>
      simp only [step]
      rcases happly : s.db.applyOperation boost s.view op with _ | db
      · exact hs
      · obtain ⟨ms, hmoves, houtcome⟩ := applyOperation_cases happly
        have hcredits := houtcome.credits_nonNegative hs.credits (by rintro req rfl; exact hevent)
        exact ⟨hcredits, hmoves.movements_nonneg (houtcome.moves_nonneg hs.credits hevent)
          hs.movements⟩
  | block =>
      simp only [step]
      rcases hprocess : s.db.processCredits boost s.view with _ | db
      · exact hs
      · simp only [CreditDatabase.processCredits, Checked.bind_eq_ok] at hprocess
        obtain ⟨⟨credits, l⟩, hstories, hdb⟩ := hprocess
        obtain rfl := Checked.pure_eq_ok.mp hdb
        obtain ⟨hcredits, hmovements⟩ :=
          processCreditStories_nonNegative hstories hs.credits hs.movements
        exact ⟨hcredits, hmovements⟩
  | others view balances supply => exact ⟨hs.credits, hs.movements⟩

end CreditState

/-- Two accounts without credits, one of which holds `KUSD`. -/
def freshState : CreditState := ⟨twoAssetView, { ledger := ⟨[⟨0, 1, 5000⟩], fun _ ↦ 5000, []⟩ }⟩

/-- Sixteen hundredths against minus five hundredths, which print as `0.5`. -/
def negativeDepositRequest : CreditRequestOperation where
  fee := ⟨1, 0⟩
  borrower := 1
  loanAsset := ⟨16, 1⟩
  loanPeriod := 1
  loanPersent := 12
  depositAsset := ⟨-5, 1⟩
  loanPeriod_lt := one_lt_uint32
  loanPersent_lt := twelve_lt_uint32

end KarmaCore
