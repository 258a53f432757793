import Mathlib
import KarmaCore.Credit.CreditEvaluator

/-!
# Conservation of coins

The worth of an asset is what all accounts hold of it, plus the deposits inside
credits, less its supply.  The operations keep it.  Processing a credit keeps it
except where a deposit in another asset than the loan's pays for a debt: what
leaves the deposit goes to no account, and the supply of the loan asset stays.
-/

namespace KarmaCore

open Truncation

namespace CreditObject

/-- What a credit's deposit counts for in the sum over an asset. -/
def held (c : CreditObject) (assetId : AssetId) : ℤ := c.borrower.depositAsset.part assetId

/-- What a settlement adds to the coins of an asset. -/
def leak (s : Settlement) (assetId : AssetId) : ℤ :=
  s.loanAssetToCreditor.part assetId - s.loanAssetFromBorrower.part assetId -
    s.depositAssetFromDeposit.part assetId

variable {boost : BoostLibrary} {v : ChainView} {c c' : CreditObject} {q : Quotes} {l l' : Ledger}
  {s : Settlement} {ms : List Movement}

@[simp] theorem held_setDeposit (deposit : Asset) (assetId : AssetId) :
    (c.setDeposit deposit).held assetId = deposit.part assetId := rfl

@[simp] theorem held_completed (assetId : AssetId) : c.completed.held assetId = 0 := by
  change (Asset.mk 0 c.depositId).part assetId = 0
  simp [Asset.part]

@[simp] theorem held_defaulted (assetId : AssetId) : c.defaulted.held assetId = c.held assetId :=
  rfl

@[simp] theorem held_nextMonth (assetId : AssetId) : c.nextMonth.held assetId = c.held assetId := by
  unfold nextMonth
  split_ifs <;> rfl

@[simp] theorem netOf_transferMoves (amount : ℤ) (assetId : AssetId) :
    netOf assetId (c.transferMoves amount) = 0 := by
  simp [transferMoves, Movement.effect]

/-- A settlement changes the coins by its leak. -/
theorem netOf_settlementMoves (hin : c.SettlementIn s) (assetId : AssetId) :
    netOf assetId (c.settlementMoves s) + (c.afterSettlement s).held assetId =
      c.held assetId + leak s assetId := by
  have hheld : c.held assetId =
      if c.depositId = assetId then c.borrower.depositAsset.amount else 0 := rfl
  rw [afterSettlement, held_setDeposit, Asset.part_mk, hheld]
  simp only [settlementMoves, netOf_cons, netOf_nil, Movement.effect, leak, Asset.part,
    hin.fromDeposit]
  split_ifs <;> ring

/-- A stop-loss order returns what the settlement left of the deposit. -/
theorem netOf_stoppedLoss (hin : c.SettlementIn s) (assetId : AssetId) :
    netOf assetId (.pay c.borrower.borrower (c.afterSettlement s).borrower.depositAsset ::
        c.settlementMoves s) +
      ((c.afterSettlement s).setDeposit ⟨0, c.depositId⟩).defaulted.held assetId =
      c.held assetId + leak s assetId := by
  have hzero : (Asset.mk 0 c.depositId).part assetId = 0 := by simp [Asset.part]
  have hsettle := netOf_settlementMoves hin assetId
  rw [netOf_cons, held_defaulted, held_setDeposit, hzero, Movement.effect]
  change (c.afterSettlement s).held assetId + _ + 0 = _
  omega

/-! ## When a settlement leaks -/

/-- The borrower's balance scaled back to shares. -/
theorem loanLeft_scaled (c : CreditObject) (q : Quotes) (l : Ledger) :
    c.loanLeft q l * 10 ^ q.loan.precision =
      ((l.getBalance c.borrower.borrower c.loanId).amount : ℚ) := by
  have hpow : (10 : ℚ) ^ q.loan.precision ≠ 0 := by positivity
  rw [loanLeft, q.loan.amountToReal_of_nonneg (l.getBalance_nonneg _ _), div_mul_cancel₀ _ hpow]

/-- A settlement leaves one of the two assets short or in excess: the deposit
is used up without being empty, or what it gives rounds to something. -/
def SettlementLeaks (c : CreditObject) (q : Quotes) (l : Ledger) (sum : ℚ) : Prop :=
  if c.depositLeft q < c.debtInDeposit q l sum then c.depositLeft q ≠ 0
  else truncate (sum * 10 ^ q.loan.precision) ≠
      (l.getBalance c.borrower.borrower c.loanId).amount ∨
    truncate (c.debtInDeposit q l sum * 10 ^ q.deposit.precision) ≠ 0

/-- The sums of a settlement as integers. -/
theorem settlement_sums {sum : ℚ} (h : c.settlement q l sum = .ok s) :
    s.loanAssetFromBorrower = l.getBalance c.borrower.borrower c.loanId ∧
      (if c.depositLeft q < c.debtInDeposit q l sum then
        ∃ left : ℤ, c.depositLeft q * 10 ^ q.deposit.precision = left ∧
          s.depositAssetFromDeposit = ⟨left, c.depositId⟩ ∧
          s.loanAssetToCreditor = ⟨truncate ((c.depositLeft q * q.depositExchangeRate /
            q.loanExchangeRate + c.loanLeft q l) * 10 ^ q.loan.precision), c.loanId⟩
      else
        s.depositAssetFromDeposit =
            ⟨truncate (c.debtInDeposit q l sum * 10 ^ q.deposit.precision), c.depositId⟩ ∧
          s.loanAssetToCreditor = ⟨truncate (sum * 10 ^ q.loan.precision), c.loanId⟩) := by
  simp only [settlement, Checked.bind_eq_ok, toShare_eq_ok] at h
  obtain ⟨_, ⟨-, rfl⟩, _, ⟨-, rfl⟩, _, ⟨-, rfl⟩, h⟩ := h
  rw [loanLeft_scaled, truncate_intCast] at h
  split_ifs at h ⊢ with hshort
  · simp only [Checked.bind_eq_ok, toShare_eq_ok, Checked.pure_eq_ok] at h
    obtain ⟨_, ⟨-, rfl⟩, _, ⟨-, rfl⟩, rfl⟩ := h
    obtain ⟨left, hleft⟩ := q.deposit.amountToReal_scaled c.borrower.depositAsset.amount
    refine ⟨rfl, left, hleft, ?_, rfl⟩
    rw [depositLeft, hleft, truncate_intCast]
  · obtain rfl := Checked.pure_eq_ok.mp h
    exact ⟨rfl, rfl, rfl⟩

/-- One asset on both sides of a credit has one quote. -/
theorem QuotesIn.eq_of_same (hq : QuotesIn v c q) (hid : c.loanId = c.depositId) :
    q.deposit = q.loan ∧ q.depositExchangeRate = q.loanExchangeRate := by
  have hasset : q.deposit = q.loan := by
    have hdeposit := hq.deposit
    rw [← hid, hq.loan] at hdeposit
    exact (Option.some.inj hdeposit).symm
  have hrate := hq.depositExchangeRate
  rw [hasset, hq.loanExchangeRate] at hrate
  exact ⟨hasset, (Option.some.inj hrate).symm⟩

/-- In one asset a settlement that is short of its sum balances. -/
theorem leak_eq_zero_of_same {sum : ℚ} (hq : QuotesIn v c q) (hid : c.loanId = c.depositId)
    (hs : c.settlement q l sum = .ok s) (hshort : c.loanLeft q l < sum) (assetId : AssetId) :
    leak s assetId = 0 := by
  obtain ⟨hasset, hrate⟩ := hq.eq_of_same hid
  obtain ⟨hborrower, hsums⟩ := settlement_sums hs
  have hscaled := loanLeft_scaled c q l
  have hrate0 : (q.loanExchangeRate : ℚ) ≠ 0 := q.loanExchangeRate.2.ne'
  set bal := (l.getBalance c.borrower.borrower c.loanId).amount with hbal
  have hbal0 : 0 ≤ bal := l.getBalance_nonneg _ _
  have hfrom : s.loanAssetFromBorrower = ⟨bal, c.loanId⟩ := hborrower
  split_ifs at hsums with hreach
  · obtain ⟨left, hleft, hdeposit, hcreditor⟩ := hsums
    have hsum : (c.depositLeft q * q.depositExchangeRate / q.loanExchangeRate + c.loanLeft q l) *
        10 ^ q.loan.precision = ((left + bal : ℤ) : ℚ) := by
      rw [hrate, mul_div_cancel_right₀ _ hrate0, add_mul, hscaled, ← hasset, hleft]
      push_cast
      ring
    rw [hsum, truncate_intCast] at hcreditor
    simp only [leak, hfrom, hdeposit, hcreditor, Asset.part, ← hid]
    split_ifs <;> omega
  · obtain ⟨hdeposit, hcreditor⟩ := hsums
    have hdebt : c.debtInDeposit q l sum * 10 ^ q.deposit.precision =
        sum * 10 ^ q.loan.precision - bal := by
      rw [debtInDeposit, hrate, mul_div_cancel_right₀ _ hrate0, hasset, sub_mul, hscaled]
    have hle : (bal : ℚ) ≤ sum * 10 ^ q.loan.precision := by
      rw [← hscaled]
      exact mul_le_mul_of_nonneg_right hshort.le (by positivity)
    rw [hdebt, truncate_sub_intCast hbal0 hle] at hdeposit
    simp only [leak, hfrom, hdeposit, hcreditor, Asset.part, ← hid]
    split_ifs <;> omega

/-- In two assets a settlement balances when it does not leak. -/
theorem leak_eq_zero_iff {sum : ℚ} (hid : c.loanId ≠ c.depositId)
    (hs : c.settlement q l sum = .ok s) :
    (∀ assetId, leak s assetId = 0) ↔ ¬c.SettlementLeaks q l sum := by
  obtain ⟨hborrower, hsums⟩ := settlement_sums hs
  have hscaled := loanLeft_scaled c q l
  set bal := (l.getBalance c.borrower.borrower c.loanId).amount with hbal
  have hfrom : s.loanAssetFromBorrower = ⟨bal, c.loanId⟩ := hborrower
  have hpow : (10 : ℚ) ^ q.deposit.precision ≠ 0 := by positivity
  -- the loan asset and the deposit asset balance separately
  have hsplit : ∀ given taken : ℤ, s.loanAssetToCreditor = ⟨given, c.loanId⟩ →
      s.depositAssetFromDeposit = ⟨taken, c.depositId⟩ →
      ((∀ assetId, leak s assetId = 0) ↔ given = bal ∧ taken = 0) := by
    intro given taken hgiven htaken
    simp only [leak, hfrom, hgiven, htaken, Asset.part]
    constructor
    · intro h
      have hloan := h c.loanId
      have hdeposit := h c.depositId
      simp only [if_true, if_neg hid, if_neg hid.symm] at hloan hdeposit
      omega
    · rintro ⟨rfl, rfl⟩ assetId
      split_ifs <;> omega
  unfold SettlementLeaks
  split_ifs at hsums ⊢ with hreach
  · obtain ⟨left, hleft, hdeposit, hcreditor⟩ := hsums
    rw [hsplit _ _ hcreditor hdeposit, not_not]
    have hzero : left = 0 ↔ c.depositLeft q = 0 := by
      constructor
      · rintro rfl
        simpa [hpow] using hleft
      · intro h
        rw [h, zero_mul] at hleft
        exact_mod_cast hleft.symm
    constructor
    · exact fun h ↦ hzero.mp h.2
    · intro h
      refine ⟨?_, hzero.mpr h⟩
      rw [h, zero_mul, zero_div, zero_add, hscaled, truncate_intCast]
  · obtain ⟨hdeposit, hcreditor⟩ := hsums
    rw [hsplit _ _ hcreditor hdeposit]
    tauto

/-! ## When processing a credit leaks -/

/-- A month's payment out of the deposit always leaks between two assets. -/
theorem settlementLeaks_of_depositPays (hpays : DepositPays v c q l) :
    c.SettlementLeaks q l c.creditor.monthlyPayment := by
  obtain ⟨payment, hpayment, hshort⟩ := hpays.short
  obtain ⟨-, rfl⟩ := toShare_eq_ok.mp hpayment
  unfold SettlementLeaks
  split_ifs
  · exact hpays.deposit
  · exact .inl hshort.ne'

theorem loanLeft_lt_of_short (h : c.PaymentShort q.loan l) :
    c.loanLeft q l < c.creditor.monthlyPayment := by
  obtain ⟨payment, hpayment, hshort⟩ := h
  obtain ⟨-, rfl⟩ := toShare_eq_ok.mp hpayment
  have hlt := intCast_lt_of_lt_truncate (l.getBalance_nonneg _ _) hshort
  rw [← loanLeft_scaled c q l] at hlt
  exact lt_of_mul_lt_mul_right hlt (by positivity)

/-- The deposit's loss and the movements of a month, in one asset or without a
payment out of the deposit. -/
theorem MonthOutcome.conserved (h : MonthOutcome v c l c' ms)
    (hsafe : c.loanId = c.depositId ∨ ∀ q, ¬DepositPays v c q l) (assetId : AssetId) :
    netOf assetId ms + c'.held assetId = c.held assetId := by
  cases h with
  | paid => simp only [netOf_transferMoves, held_nextMonth, zero_add]; rfl
  | delayed => simp only [netOf_nil, held_nextMonth, zero_add]; rfl
  | waiting => simp
  | defaulted => simp
  | fromDeposit hpays hreach hs =>
      rcases hsafe with hid | hnone
      · have hleak := leak_eq_zero_of_same hpays.quotes hid hs (loanLeft_lt_of_short hpays.short)
          assetId
        have hnet := netOf_settlementMoves (settlement_in hs) assetId
        rw [hleak, add_zero] at hnet
        rw [held_nextMonth]
        exact hnet
      · exact absurd hpays (hnone _)
  | exhausted hpays hshort hs hamount =>
      rcases hsafe with hid | hnone
      · have hleak := leak_eq_zero_of_same hpays.quotes hid hs (loanLeft_lt_of_short hpays.short)
          assetId
        have hnet := netOf_settlementMoves (settlement_in hs) assetId
        rw [hleak, add_zero] at hnet
        rw [netOf_append, netOf_transferMoves, zero_add, held_defaulted]
        exact hnet
      · exact absurd hpays (hnone _)

/-- Between two assets a month's payment out of the deposit is not conserved. -/
theorem MonthOutcome.not_conserved (h : MonthOutcome v c l c' ms) (hid : c.loanId ≠ c.depositId)
    (hpays : DepositPays v c q l) :
    ¬∀ assetId, netOf assetId ms + c'.held assetId = c.held assetId := by
  have hunique : ∀ {q'}, DepositPays v c q' l → ∀ {s'},
      c.settlement q' l c.creditor.monthlyPayment = .ok s' → ∃ assetId, leak s' assetId ≠ 0 := by
    intro q' hpays' s' hs'
    by_contra hall
    push Not at hall
    exact (leak_eq_zero_iff hid hs').mp hall (settlementLeaks_of_depositPays hpays')
  cases h with
  | paid hloan hamount hcover =>
      obtain ⟨payment, hpayment, hshort⟩ := hpays.short
      obtain rfl := Option.some.inj (hpays.quotes.loan.symm.trans hloan)
      rw [hamount] at hpayment
      obtain rfl := Except.ok.inj hpayment
      exact absurd hcover (not_le.mpr hshort)
  | delayed hstart hdelay => exact absurd hpays.delay hdelay
  | waiting hdelay => exact absurd hpays.delay hdelay
  | defaulted hloan hamount hdeposit =>
      rcases hdeposit with hfree | ⟨deposit, hdeposit, hzero⟩
      · exact absurd hfree hpays.collateral
      · obtain rfl := Option.some.inj (hpays.quotes.deposit.symm.trans hdeposit)
        exact absurd hzero hpays.deposit
  | fromDeposit hpays' hreach hs =>
      obtain ⟨assetId, hleak⟩ := hunique hpays' hs
      intro hall
      have hnet := netOf_settlementMoves (settlement_in hs) assetId
      have hthis := hall assetId
      rw [held_nextMonth] at hthis
      change _ + (c.afterSettlement _).held assetId = _ at hthis
      omega
  | exhausted hpays' hshort hs hamount =>
      obtain ⟨assetId, hleak⟩ := hunique hpays' hs
      intro hall
      have hnet := netOf_settlementMoves (settlement_in hs) assetId
      have hthis := hall assetId
      rw [netOf_append, netOf_transferMoves, held_defaulted] at hthis
      omega

/-- The stop-loss order takes the deposit for a debt the borrower cannot pay. -/
def StopLossLeaks (v : ChainView) (c : CreditObject) (l : Ledger) : Prop :=
  ¬c.borrower.collateralFree ∧ ∃ q, QuotesIn v c q ∧ c.stopLoss q ∧
    c.loanLeft q l < c.loanForReturn ∧ c.SettlementLeaks q l c.loanForReturn

/-- A payment that is due and overdue is taken from the deposit. -/
def MonthLeaks (boost : BoostLibrary) (v : ChainView) (c : CreditObject) (l : Ledger) : Prop :=
  Quoted v c ∧ c.paymentDue boost v = .ok true ∧ ∃ q, DepositPays v c q l

/-- A deposit in another asset than the loan's pays for a debt. -/
def Leaks (boost : BoostLibrary) (v : ChainView) (c : CreditObject) (l : Ledger) : Prop :=
  c.status = .inProgress ∧ c.loanId ≠ c.depositId ∧
    (StopLossLeaks v c l ∨ MonthLeaks boost v c l)

theorem QuotesIn.unique {q' : Quotes} (hq : QuotesIn v c q) (hq' : QuotesIn v c q') : q = q' := by
  have hdeposit := Option.some.inj (hq.deposit.symm.trans hq'.deposit)
  have hloan := Option.some.inj (hq.loan.symm.trans hq'.loan)
  have hdepositRate := hq.depositExchangeRate
  have hloanRate := hq.loanExchangeRate
  rw [hdeposit, hq'.depositExchangeRate] at hdepositRate
  rw [hloan, hq'.loanExchangeRate] at hloanRate
  cases q
  cases q'
  simp_all

/-- The movements of a stop-loss order with what is left of the deposit. -/
theorem stopLoss_conserved_iff (hq : QuotesIn v c q) (hs : c.stopLossSettlement q l = .ok s) :
    (∀ assetId, leak s assetId = 0) ↔
      ¬(c.loanId ≠ c.depositId ∧ c.loanLeft q l < c.loanForReturn ∧
        c.SettlementLeaks q l c.loanForReturn) := by
  unfold stopLossSettlement at hs
  split_ifs at hs with hshort
  · by_cases hid : c.loanId = c.depositId
    · have hall := leak_eq_zero_of_same hq hid hs hshort
      tauto
    · rw [leak_eq_zero_iff hid hs]
      tauto
  · simp only [Checked.bind_eq_ok, Checked.pure_eq_ok] at hs
    obtain ⟨amount, -, rfl⟩ := hs
    simp only [leak, Asset.part_mk]
    have hall : ∀ assetId, ((if c.loanId = assetId then amount else 0) -
        (if c.loanId = assetId then amount else 0) -
        if c.depositId = assetId then (0 : ℤ) else 0) = 0 := fun assetId ↦ by
      split_ifs <;> omega
    tauto

theorem not_stopLossLeaks_of_quoted (hquoted : Quoted v c) : ¬StopLossLeaks v c l := by
  rintro ⟨hcollateral, q, hq, hstop, -⟩
  rcases hquoted with hfree | ⟨q', hq', hnot⟩
  · exact hcollateral hfree
  · obtain rfl := hq.unique hq'
    exact hnot hstop

/-- Once a payment is due, only the deposit paying for it leaks. -/
theorem leaks_iff_of_due (hstatus : c.status = .inProgress) (hquoted : Quoted v c)
    (hdue : c.paymentDue boost v = .ok true) :
    Leaks boost v c l ↔ ¬(c.loanId = c.depositId ∨ ∀ q, ¬DepositPays v c q l) := by
  have hnot := not_stopLossLeaks_of_quoted (l := l) hquoted
  simp only [Leaks, MonthLeaks, hstatus, hquoted, hdue, hnot, true_and, false_or, not_or,
    not_forall, not_not, ne_eq]

theorem MonthOutcome.conserved_iff (h : MonthOutcome v c l c' ms) :
    (∀ assetId, netOf assetId ms + c'.held assetId = c.held assetId) ↔
      c.loanId = c.depositId ∨ ∀ q, ¬DepositPays v c q l := by
  constructor
  · intro hall
    by_contra hleaks
    obtain ⟨hid, hpays⟩ := not_or.mp hleaks
    obtain ⟨q, hpays⟩ := not_forall_not.mp hpays
    exact h.not_conserved hid hpays hall
  · exact h.conserved

/-- Processing a credit keeps the coins unless the credit leaks. -/
theorem ProcessOutcome.conserved_iff (h : ProcessOutcome boost v c l c' ms) :
    (∀ assetId, netOf assetId ms + c'.held assetId = c.held assetId) ↔ ¬Leaks boost v c l := by
  cases h with
  | closed hstatus =>
      simp only [netOf_nil, zero_add, implies_true, true_iff]
      exact fun hleaks ↦ hstatus hleaks.1
  | @stoppedLoss q s hstatus hcollateral hq hstop hs =>
      have hleaks : Leaks boost v c l ↔ c.loanId ≠ c.depositId ∧
          c.loanLeft q l < c.loanForReturn ∧ c.SettlementLeaks q l c.loanForReturn := by
        constructor
        · rintro ⟨-, hid, ⟨-, q', hq', -, hshort, hleak⟩ | ⟨hquoted, -⟩⟩
          · obtain rfl := hq.unique hq'
            exact ⟨hid, hshort, hleak⟩
          · rcases hquoted with hfree | ⟨q', hq', hquoted⟩
            · exact absurd hfree hcollateral
            · obtain rfl := hq.unique hq'
              exact absurd hstop hquoted
        · rintro ⟨hid, hshort, hleak⟩
          exact ⟨hstatus, hid, .inl ⟨hcollateral, q, hq, hstop, hshort, hleak⟩⟩
      rw [hleaks, ← stopLoss_conserved_iff hq hs]
      refine forall_congr' fun assetId ↦ ?_
      rw [netOf_stoppedLoss (stopLossSettlement_in hs)]
      omega
  | notDue hstatus hquoted hdue =>
      simp only [netOf_nil, zero_add, implies_true, true_iff]
      rintro ⟨-, -, hstop | ⟨-, hdue', -⟩⟩
      · exact not_stopLossLeaks_of_quoted hquoted hstop
      · rw [hdue] at hdue'
        cases hdue'
  | month hstatus hquoted hdue hmonth hperiod =>
      rw [leaks_iff_of_due hstatus hquoted hdue, not_not]
      exact hmonth.conserved_iff
  | lastMonth hstatus hquoted hdue hmonth hperiod =>
      rw [leaks_iff_of_due hstatus hquoted hdue, not_not, ← hmonth.conserved_iff]
      refine forall_congr' fun assetId ↦ ?_
      rw [netOf_cons, held_completed, add_zero, Movement.effect, add_comm]
      exact Iff.rfl

end CreditObject

/-! ## The life cycle -/

def heldDeposits (assetId : AssetId) (cs : List CreditObject) : ℤ :=
  (cs.map (·.held assetId)).sum

@[simp] theorem heldDeposits_append (assetId : AssetId) (cs ds : List CreditObject) :
    heldDeposits assetId (cs ++ ds) = heldDeposits assetId cs + heldDeposits assetId ds := by
  simp [heldDeposits]

@[simp] theorem heldDeposits_cons (assetId : AssetId) (c : CreditObject) (cs : List CreditObject) :
    heldDeposits assetId (c :: cs) = c.held assetId + heldDeposits assetId cs := by
  simp [heldDeposits]

@[simp] theorem heldDeposits_nil (assetId : AssetId) : heldDeposits assetId [] = 0 := rfl

/-- The movements that hand out a loan add up to the loan. -/
theorem LoanMoves.netOf {v : ChainView} {creditor : AccountId} {c : CreditObject}
    {ms : List Movement} (h : LoanMoves v creditor c ms) (assetId : AssetId) :
    netOf assetId ms = c.borrower.loanAsset.part assetId := by
  cases h with
  | whole hfork => simp [Movement.effect]
  | bonuses hfork hcreditor hborrower hsums =>
      have hloan : c.borrower.loanAsset.part assetId =
          if c.loanId = assetId then c.borrower.loanAsset.amount else 0 := rfl
      simp only [netOf_cons, netOf_nil, Movement.effect, Asset.part_mk, hloan]
      split_ifs <;> omega

/-- Every operation keeps the balances and deposits of every asset. -/
theorem OperationOutcome.conserved {v : ChainView} {db : CreditDatabase} {op : CreditOperation}
    {credits : List CreditObject} {ms : List Movement} (h : OperationOutcome v db op credits ms)
    (assetId : AssetId) :
    netOf assetId ms + heldDeposits assetId credits = heldDeposits assetId db.credits := by
  cases h with
  | @requested op deposit uuid heval hdeposit =>
      have hheld : (op.newCredit v deposit uuid).held assetId = op.depositAsset.part assetId := rfl
      simp only [netOf_cons, netOf_nil, Movement.effect, heldDeposits_append, heldDeposits_cons,
        heldDeposits_nil, hheld]
      ring
  | @approved op before after c loan ms hfind hcredits hstatus hloan hms =>
      have hheld : (CreditApproveOperation.approved v op.creditor loan c).held assetId =
          c.held assetId := rfl
      simp only [hcredits, netOf_append, netOf_cons, netOf_nil, Movement.effect,
        heldDeposits_append, heldDeposits_cons, hheld, hms.netOf]
      ring
  | @cancelled op before after c hcredits =>
      simp only [hcredits, netOf_cons, netOf_nil, Movement.effect, heldDeposits_append,
        heldDeposits_cons, CreditObject.held]
      ring
  | @settled op before after c loan amount hcredits hstatus hloan hamount =>
      have hheld : c.held assetId = c.borrower.depositAsset.part assetId := rfl
      simp only [hcredits, netOf_cons, Movement.effect, CreditObject.netOf_transferMoves,
        heldDeposits_append, heldDeposits_cons, CreditObject.held_completed, hheld]
      ring

/-- A step of the credit life cycle. -/
inductive LifeCycleStep
  | operation (op : CreditOperation)
  /-- `credit_object::process` of the credit at a position -/
  | process (position : ℕ)

namespace CreditDatabase

variable (boost : BoostLibrary) (v : ChainView)

def lifeCycle (db : CreditDatabase) : LifeCycleStep → Checked CreditDatabase
  | .operation op => db.applyOperation boost v op
  | .process position => db.processCredit boost v position

/-- Balances and held deposits of an asset, less its supply. -/
def worth (db : CreditDatabase) (assetId : AssetId) : ℤ :=
  db.ledger.total assetId + heldDeposits assetId db.credits - db.ledger.currentSupply assetId

/-- The step processes a credit whose deposit pays for a debt in another asset. -/
def Leaks (db : CreditDatabase) : LifeCycleStep → Prop
  | .operation _ => False
  | .process position => ∃ c ∈ db.credits[position]?, c.Leaks boost v db.ledger

end CreditDatabase

theorem processCredit_cases {boost : BoostLibrary} {v : ChainView} {db db' : CreditDatabase}
    {position : ℕ} (h : db.processCredit boost v position = .ok db') :
    ∃ before c after c' ms, db.credits = before ++ c :: after ∧ db.credits[position]? = some c ∧
      db'.credits = before ++ c' :: after ∧ db.ledger.Moves ms db'.ledger ∧
      CreditObject.ProcessOutcome boost v c db.ledger c' ms := by
  unfold CreditDatabase.processCredit at h
  split at h
  · cases h
  · rename_i c after hdrop
    simp only [Checked.bind_eq_ok] at h
    obtain ⟨⟨c', l⟩, hprocess, h⟩ := h
    obtain rfl := Checked.pure_eq_ok.mp h
    obtain ⟨ms, hmoves, houtcome⟩ := CreditObject.process_cases hprocess
    have hsplit : db.credits = db.credits.take position ++ c :: after := by
      rw [← hdrop, List.take_append_drop]
    refine ⟨_, c, after, c', ms, hsplit, ?_, rfl, hmoves, houtcome⟩
    have hget : (db.credits.drop position)[0]? = some c := by rw [hdrop]; rfl
    simpa using hget

/-- Each step of the life cycle keeps every asset exactly when it does not
process a credit whose deposit pays for a debt in another asset. -/
theorem lifeCycle_conserved_iff {boost : BoostLibrary} {v : ChainView} {db db' : CreditDatabase}
    {step : LifeCycleStep} (h : db.lifeCycle boost v step = .ok db') :
    (∀ assetId, db'.worth assetId = db.worth assetId) ↔ ¬db.Leaks boost v step := by
  cases step with
  | operation op =>
      obtain ⟨ms, hmoves, houtcome⟩ := applyOperation_cases h
      have hall : ∀ assetId, db'.worth assetId = db.worth assetId := fun assetId ↦ by
        have hkeep := houtcome.conserved assetId
        rw [CreditDatabase.worth, CreditDatabase.worth, hmoves.total, hmoves.supply]
        omega
      exact iff_of_true hall not_false
  | process position =>
      obtain ⟨before, c, after, c', ms, hcredits, hget, hcredits', hmoves, houtcome⟩ :=
        processCredit_cases h
      have hleaks : db.Leaks boost v (.process position) ↔ c.Leaks boost v db.ledger := by
        simp [CreditDatabase.Leaks, hget]
      rw [hleaks, ← houtcome.conserved_iff]
      refine forall_congr' fun assetId ↦ ?_
      rw [CreditDatabase.worth, CreditDatabase.worth, hmoves.total, hmoves.supply, hcredits,
        hcredits']
      simp only [heldDeposits_append, heldDeposits_cons]
      omega

/-! ## A monthly payment out of a deposit -/

/-- Months of thirty days and one name for every credit. -/
def plainCalendar : BoostLibrary where
  payDateDays _ months := some (30 * months)
  generateUuid _ _ := some "aa"

theorem two_lt_nineteen : 2 < 19 := by decide

/-- The core asset and one other at equal rates, and two accounts. -/
def twoAssetView : ChainView where
  accounts account :=
    if account = 0 then some ⟨"creditor", 0, 0⟩ else if account = 1 then some ⟨"borrower", 0, 0⟩
    else none
  accountByName name := if name = "karma" ∨ name = "ooo-karma-rus" then some 2 else none
  assets assetId :=
    if assetId = 0 then some { symbol := "KRM", precision := 5 }
    else if assetId = 1 then some { symbol := "KUSD", precision := 2 } else none
  lastExchangeRate symbol := if symbol = "KRM" ∨ symbol = "KUSD" then some ⟨1, one_pos⟩ else none
  headBlockTime := 1600000000

/-- Ten `KUSD` lent against a hundred `KRM`, the only payment overdue by weeks. -/
def overdueCredit : CreditObject where
  objectUuid := "aa"
  status := .inProgress
  borrower := {
    borrower := 1
    loanAsset := ⟨1000, 1⟩
    loanPersent := 12
    loanPeriod := 1
    depositAsset := ⟨10000000, 0⟩
    collateralFree := false }
  requestCreationTime := 1590000000
  creditor := ⟨0, 101 / 10⟩
  requestApprovationTime := 1590000000
  expiredTimeStart := 1593000000

def overdueDatabase : CreditDatabase where
  ledger := ⟨[⟨0, 1, 5000⟩], fun _ ↦ 10000000, []⟩
  credits := [overdueCredit]
  nextInstance := 1

/-- The deposit loses the payment, which reaches no account, and the creditor
receives coins the supply does not know of. -/
theorem overdueDatabase_leaks :
    ∃ after, overdueDatabase.lifeCycle plainCalendar twoAssetView (.process 0) = .ok after ∧
      after.worth 0 = overdueDatabase.worth 0 - 1010000 ∧
      after.worth 1 = overdueDatabase.worth 1 + 1010 := by
  decide +kernel

/-- A request against a deposit, on the same accounts. -/
def depositRequest : CreditRequestOperation where
  fee := ⟨1, 0⟩
  borrower := 0
  loanAsset := ⟨1000, 1⟩
  loanPeriod := 1
  loanPersent := 12
  depositAsset := ⟨3000, 1⟩

theorem lifeCycle_conserved_iff_depositRequest :
    ∃ after, overdueDatabase.lifeCycle plainCalendar twoAssetView
        (.operation (.request depositRequest)) = .ok after ∧
      ((∀ assetId, after.worth assetId = overdueDatabase.worth assetId) ↔
        ¬overdueDatabase.Leaks plainCalendar twoAssetView
          (.operation (.request depositRequest))) := by
  have hsucceeds : ∃ after, overdueDatabase.lifeCycle plainCalendar twoAssetView
      (.operation (.request depositRequest)) = .ok after ∧ after.credits.length = 2 := by
    decide +kernel
  obtain ⟨after, hafter, -⟩ := hsucceeds
  exact ⟨after, hafter, lifeCycle_conserved_iff hafter⟩

end KarmaCore
