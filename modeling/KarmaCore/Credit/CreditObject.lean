import Mathlib
import KarmaCore.Credit.Ledger

/-!
# Credit objects and their processing in a block

`credit_object::process` runs once a block for every credit: the stop-loss test
of the deposit, the monthly payment, the delay of a payment and its settlement
out of the deposit, and the completion of the credit.  A `double` is an exact
rational here.  Texts kept for display, comments and the karma number are left
out.
-/

namespace KarmaCore

open Truncation

/-- `DEPOSIT_PERSENT`. -/
def depositPersent : ℕ := 300

/-- `SPECIAL_CONVERSION_ACCOUNT`. -/
def specialConversionAccount : String := "karma"

/-- Arithmetic of `uint32_t`. -/
def wrap32 (x : ℤ) : ℕ := (x % 2 ^ 32).toNat

structure AccountObject where
  name : String
  creditReferrer : AccountId
  creditReferrerExpirationDate : ℕ

structure CreditOptions where
  secondsPerDay : ℕ := 86400
  maxCreditExpirationDays : ℕ := 7
  minWitnessesForExchangeRate : ℕ := 7
  exchangeRateSetMaxInterval : ℕ := 3600
  exchangeRateSetMinInterval : ℕ := 75

structure CreditReferrerBonusOptions where
  karmaAccountBonus : ℚ := 1 / 2
  creditorReferrerBonus : ℚ := 1 / 10
  borrowerReferrerBonus : ℚ := 1 / 10
  specialAccountName : String := "ooo-karma-rus"

/-- Votes of witnesses are positive, and so is their median. -/
abbrev ExchangeRate := { rate : ℚ // 0 < rate }

/-- What the credit code reads and never writes. -/
structure ChainView where
  accounts : AccountId → Option AccountObject
  accountByName : String → Option AccountId
  assets : AssetId → Option AssetObject
  lastExchangeRate : String → Option ExchangeRate
  headBlockTime : ℕ
  creditOptions : CreditOptions := {}
  bonusOptions : CreditReferrerBonusOptions := {}

/-- The library functions behind the pay dates and the credit names. -/
structure BoostLibrary where
  /-- Days from a starting time to the pay date some months on; no date lies
  past the calendar's last year. -/
  payDateDays : (start months : ℕ) → Option ℤ
  generateUuid : (instanceId time : ℕ) → Option String

namespace ChainView

def accountObject (v : ChainView) (account : AccountId) : Checked AccountObject :=
  match v.accounts account with
  | some o => .ok o
  | none => .error .unableToFindObject

def assetObject (v : ChainView) (assetId : AssetId) : Checked AssetObject :=
  match v.assets assetId with
  | some o => .ok o
  | none => .error .unableToFindObject

def accountNamed (v : ChainView) (name : String) : Checked AccountId :=
  match v.accountByName name with
  | some account => .ok account
  | none => .error .unableToFindObject

def getExchangeRateBySymbol (v : ChainView) (symbol : String) : Checked ExchangeRate :=
  match v.lastExchangeRate symbol with
  | some rate => .ok rate
  | none => .error (.assertion "Exchange rate for ${symbol} has not been set")

/-- Only the lookup of the account: its karma is not modelled. -/
def updateAccountKarma (v : ChainView) (account : AccountId) : Checked Unit := do
  let _ ← v.accountObject account
  return ()

theorem assetObject_eq_ok {v : ChainView} {assetId : AssetId} {o : AssetObject} :
    v.assetObject assetId = .ok o ↔ v.assets assetId = some o := by
  unfold assetObject
  split <;> simp_all

theorem accountObject_eq_ok {v : ChainView} {account : AccountId} {o : AccountObject} :
    v.accountObject account = .ok o ↔ v.accounts account = some o := by
  unfold accountObject
  split <;> simp_all

theorem getExchangeRateBySymbol_eq_ok {v : ChainView} {symbol : String} {rate : ExchangeRate} :
    v.getExchangeRateBySymbol symbol = .ok rate ↔ v.lastExchangeRate symbol = some rate := by
  unfold getExchangeRateBySymbol
  split <;> simp_all

end ChainView

inductive CreditObjectStatus
  | empty
  | watingForAcceptance
  | inProgress
  | cancalled
  | completeNormal
  | completeUbnormal
  deriving DecidableEq, Repr

structure BorrowerInfo where
  borrower : AccountId
  loanAsset : Asset
  loanPersent : ℕ
  loanPeriod : ℕ
  depositAsset : Asset
  collateralFree : Bool
  deriving DecidableEq, Repr

structure CreditorInfo where
  creditor : AccountId := 0
  monthlyPayment : ℚ := 0
  deriving DecidableEq, Repr

structure CreditObject where
  objectUuid : String
  status : CreditObjectStatus
  borrower : BorrowerInfo
  requestCreationTime : ℕ
  creditor : CreditorInfo := {}
  requestApprovationTime : ℕ := 0
  settleMonthElapsed : ℕ := 0
  expiredTimeStart : ℕ := 0
  deriving DecidableEq, Repr

/-- The two assets of a credit with their exchange rates. -/
structure Quotes where
  deposit : AssetObject
  loan : AssetObject
  depositExchangeRate : ExchangeRate
  loanExchangeRate : ExchangeRate

/-- Who settles how much: the sums `settle_from_deposit` and
`check_deposit_quotes` move. -/
structure Settlement where
  loanAssetFromBorrower : Asset
  loanAssetToCreditor : Asset
  depositAssetFromDeposit : Asset
  deriving DecidableEq, Repr

def calculateMonthlyPayment (loanSum annualLoanRate : ℚ) (loanPeriodInMoths : ℕ) : ℚ :=
  let p : ℚ := (annualLoanRate / 12) / 100
  let t : ℚ := (1 + p) ^ loanPeriodInMoths - 1
  loanSum * (p + p / t)

namespace CreditObject

def loanId (c : CreditObject) : AssetId := c.borrower.loanAsset.assetId
def depositId (c : CreditObject) : AssetId := c.borrower.depositAsset.assetId

def setDeposit (c : CreditObject) (deposit : Asset) : CreditObject :=
  { c with borrower := { c.borrower with depositAsset := deposit } }

variable (boost : BoostLibrary) (v : ChainView)

def quotes (c : CreditObject) : Checked Quotes := do
  let deposit ← v.assetObject c.depositId
  let loan ← v.assetObject c.loanId
  let depositExchangeRate ← v.getExchangeRateBySymbol deposit.symbol
  let loanExchangeRate ← v.getExchangeRateBySymbol loan.symbol
  return ⟨deposit, loan, depositExchangeRate, loanExchangeRate⟩

/-- `loan_left_on_borrower_account`. -/
def loanLeft (c : CreditObject) (q : Quotes) (l : Ledger) : ℚ :=
  q.loan.amountToReal (l.getBalance c.borrower.borrower c.loanId).amount

/-- `deposit_left`. -/
def depositLeft (c : CreditObject) (q : Quotes) : ℚ :=
  q.deposit.amountToReal c.borrower.depositAsset.amount

/-- `debt_in_deposit`: what the borrower lacks of a sum, valued in the deposit asset. -/
def debtInDeposit (c : CreditObject) (q : Quotes) (l : Ledger) (sum : ℚ) : ℚ :=
  (sum - c.loanLeft q l) * q.loanExchangeRate / q.depositExchangeRate

/-- The sums that settle `sum` out of what the borrower has and the deposit;
if the deposit does not reach, all of it is used. -/
def settlement (c : CreditObject) (q : Quotes) (l : Ledger) (sum : ℚ) : Checked Settlement := do
  let fromBorrower ← toShare (c.loanLeft q l * 10 ^ q.loan.precision)
  let fromDeposit ← toShare (c.debtInDeposit q l sum * 10 ^ q.deposit.precision)
  let toCreditor ← toShare (sum * 10 ^ q.loan.precision)
  if c.depositLeft q < c.debtInDeposit q l sum then do
    let loanFromAllDeposit := c.depositLeft q * q.depositExchangeRate / q.loanExchangeRate
    let toCreditor ← toShare ((loanFromAllDeposit + c.loanLeft q l) * 10 ^ q.loan.precision)
    let fromDeposit ← toShare (c.depositLeft q * 10 ^ q.deposit.precision)
    return ⟨⟨fromBorrower, c.loanId⟩, ⟨toCreditor, c.loanId⟩, ⟨fromDeposit, c.depositId⟩⟩
  else
    return ⟨⟨fromBorrower, c.loanId⟩, ⟨toCreditor, c.loanId⟩, ⟨fromDeposit, c.depositId⟩⟩

/-- The conversion of what left the deposit, entered only when the two loan
sums are in different assets. -/
def checkConvertation (c : CreditObject) (q : Quotes) (s : Settlement) (l : Ledger) :
    Checked Ledger :=
  if s.loanAssetFromBorrower.assetId ≠ s.loanAssetToCreditor.assetId then do
    let karmaId ← v.accountNamed specialConversionAccount
    let l ← l.pay karmaId s.depositAssetFromDeposit
    let loanNeedToBeBalanced := q.deposit.amountToReal s.depositAssetFromDeposit.amount *
      q.depositExchangeRate / q.loanExchangeRate
    l.addSupply c.loanId (loanNeedToBeBalanced * 10 ^ q.loan.precision)
  else return l

/-- The movements of a settlement. -/
def settle (c : CreditObject) (q : Quotes) (s : Settlement) (l : Ledger) :
    Checked (CreditObject × Ledger) := do
  let l ← l.transfer c.borrower.borrower s.loanAssetFromBorrower
    c.creditor.creditor s.loanAssetToCreditor
  let deposit ← c.borrower.depositAsset.sub s.depositAssetFromDeposit
  let l ← c.checkConvertation v q s l
  return (c.setDeposit deposit, l)

def completeCreditOperation (c : CreditObject) (l : Ledger) : Checked (CreditObject × Ledger) := do
  let _ ← v.assetObject c.depositId
  let l ← l.pay c.borrower.borrower c.borrower.depositAsset
  v.updateAccountKarma c.borrower.borrower
  return ({ c.setDeposit ⟨0, c.depositId⟩ with status := .completeNormal }, l)

def completeCreditOperationUbnormal (c : CreditObject) (l : Ledger) :
    Checked (CreditObject × Ledger) := do
  let _ ← v.assetObject c.depositId
  let loan ← v.assetObject c.loanId
  let loanLeft := loan.amountToReal (l.getBalance c.borrower.borrower c.loanId).amount
  let amount ← toShare (loanLeft * 10 ^ loan.precision)
  let l ← l.transfer c.borrower.borrower ⟨amount, c.loanId⟩ c.creditor.creditor ⟨amount, c.loanId⟩
  v.updateAccountKarma c.borrower.borrower
  return ({ c with status := .completeUbnormal }, l)

def settleMonthlyPayment (c : CreditObject) (l : Ledger) : Checked (CreditObject × Ledger) := do
  let loan ← v.assetObject c.loanId
  let _ ← v.assetObject c.depositId
  let amount ← toShare (c.creditor.monthlyPayment * 10 ^ loan.precision)
  let l ← l.transfer c.borrower.borrower ⟨amount, c.loanId⟩ c.creditor.creditor ⟨amount, c.loanId⟩
  v.updateAccountKarma c.borrower.borrower
  return ({ c with expiredTimeStart := 0 }, l)

def settleFromDeposit (c : CreditObject) (l : Ledger) : Checked (CreditObject × Ledger) := do
  let deposit ← v.assetObject c.depositId
  if deposit.amountToReal c.borrower.depositAsset.amount = 0 then
    completeCreditOperationUbnormal v c l
  else do
    let q ← c.quotes v
    let s ← c.settlement q l c.creditor.monthlyPayment
    let (c', l') ← c.settle v q s l
    if c.depositLeft q < c.debtInDeposit q l c.creditor.monthlyPayment then
      completeCreditOperationUbnormal v c' l'
    else
      return ({ c' with expiredTimeStart := 0 }, l')

def maxCreditExpirationTime : ℕ :=
  wrap32 (v.creditOptions.maxCreditExpirationDays * v.creditOptions.secondsPerDay)

def checkExpiredPayTime (c : CreditObject) (l : Ledger) : Checked (CreditObject × Ledger) :=
  if c.expiredTimeStart = 0 ∧ v.creditOptions.maxCreditExpirationDays ≠ 0 then do
    let loan ← v.assetObject c.loanId
    let _ ← toShare (c.creditor.monthlyPayment * 10 ^ loan.precision)
    v.updateAccountKarma c.borrower.borrower
    return ({ c with expiredTimeStart := v.headBlockTime }, l)
  else if maxCreditExpirationTime v ≤ wrap32 (v.headBlockTime - c.expiredTimeStart) then
    if c.borrower.collateralFree then completeCreditOperationUbnormal v c l
    else settleFromDeposit v c l
  else return (c, l)

/-- The month's payment, or what becomes of it when the balance is short. -/
def payMonth (c : CreditObject) (monthlyPayment : ℤ) (l : Ledger) :
    Checked (CreditObject × Ledger) :=
  if monthlyPayment ≤ (l.getBalance c.borrower.borrower c.loanId).amount then
    c.settleMonthlyPayment v l
  else c.checkExpiredPayTime v l

/-- `settle_month_elapsed++` unless a payment is overdue. -/
def nextMonth (c : CreditObject) : CreditObject :=
  if c.expiredTimeStart = 0 then
    { c with settleMonthElapsed := wrap32 (c.settleMonthElapsed + 1) }
  else c

def onNextMonth (c : CreditObject) (l : Ledger) : Checked (CreditObject × Ledger) := do
  let _ ← v.accountObject c.borrower.borrower
  let loan ← v.assetObject c.loanId
  let monthlyPayment ← toShare (c.creditor.monthlyPayment * 10 ^ loan.precision)
  let (c, l) ← c.payMonth v monthlyPayment l
  if c.status = .completeUbnormal then return (c, l)
  else return (c.nextMonth, l)

/-- The deposit is worth no more than half of `DEPOSIT_PERSENT` of the loan. -/
def stopLoss (c : CreditObject) (q : Quotes) : Prop :=
  c.depositLeft q * q.depositExchangeRate ≤
    q.loan.amountToReal c.borrower.loanAsset.amount * q.loanExchangeRate / 100 *
      (depositPersent / 2 : ℕ)

instance (c : CreditObject) (q : Quotes) : Decidable (c.stopLoss q) :=
  inferInstanceAs (Decidable (_ ≤ _))

/-- `loan_for_return`: all payments still to come. -/
def loanForReturn (c : CreditObject) : ℚ :=
  c.creditor.monthlyPayment * wrap32 (c.borrower.loanPeriod - c.settleMonthElapsed)

def stopLossSettlement (c : CreditObject) (q : Quotes) (l : Ledger) : Checked Settlement :=
  if c.loanLeft q l < c.loanForReturn then c.settlement q l c.loanForReturn
  else do
    let amount ← toShare (c.loanForReturn * 10 ^ q.loan.precision)
    return ⟨⟨amount, c.loanId⟩, ⟨amount, c.loanId⟩, ⟨0, c.depositId⟩⟩

/-- The flag is false when the credit was closed. -/
def checkDepositQuotes (c : CreditObject) (l : Ledger) : Checked (Bool × CreditObject × Ledger) := do
  let q ← c.quotes v
  if c.stopLoss q then do
    let s ← c.stopLossSettlement q l
    let (c, l) ← c.settle v q s l
    let l ← l.pay c.borrower.borrower c.borrower.depositAsset
    return (false, { c.setDeposit ⟨0, c.depositId⟩ with status := .completeUbnormal }, l)
  else return (true, c, l)

/-- Whether the next pay date is reached or a payment is overdue.  The product
of days and seconds is one of `uint32_t`. -/
def paymentDue (c : CreditObject) : Checked Bool :=
  match boost.payDateDays c.requestApprovationTime (wrap32 (c.settleMonthElapsed + 1)) with
  | none => .error .boostException
  | some days =>
      let nextPayTotalSecs := wrap32 (days * v.creditOptions.secondsPerDay)
      .ok (decide ((nextPayTotalSecs : ℤ) ≤ v.headBlockTime - c.requestApprovationTime) ||
        c.expiredTimeStart ≠ 0)

/-- `process` once the deposit has passed the stop-loss test. -/
def processPayment (c : CreditObject) (l : Ledger) : Checked (CreditObject × Ledger) := do
  if ← c.paymentDue boost v then do
    let (c, l) ← c.onNextMonth v l
    if c.borrower.loanPeriod ≤ c.settleMonthElapsed then c.completeCreditOperation v l
    else return (c, l)
  else return (c, l)

def process (c : CreditObject) (l : Ledger) : Checked (CreditObject × Ledger) :=
  if c.status = .inProgress then
    if c.borrower.collateralFree then c.processPayment boost v l
    else do
      let (quoted, c, l) ← c.checkDepositQuotes v l
      if quoted then c.processPayment boost v l else return (c, l)
  else return (c, l)

end CreditObject

/-- `process_credit_stories`: the credits in the order of their creation. -/
def processCreditStories (boost : BoostLibrary) (v : ChainView) :
    List CreditObject → Ledger → Checked (List CreditObject × Ledger)
  | [], l => .ok ([], l)
  | c :: cs, l => do
      let (c, l) ← c.process boost v l
      let (cs, l) ← processCreditStories boost v cs l
      return (c :: cs, l)

end KarmaCore
