import Mathlib
import KarmaCore.Credit.Outcome

/-!
# The credit operations

Request, approval, cancellation and early settlement of a credit as the
evaluators carry them out.  An operation that throws leaves no trace, since the
session of its transaction is undone.
-/

namespace KarmaCore

open Truncation

/-- `HARDFORK_CORE_KARMA_2_TIME`. -/
def hardforkCoreKarma2Time : ℕ := 1524128400

structure CreditRequestOperation where
  fee : Asset
  borrower : AccountId
  loanAsset : Asset
  loanPeriod : ℕ
  loanPersent : ℕ
  depositAsset : Asset
  loanPeriod_lt : loanPeriod < 2 ^ 32 := by decide
  loanPersent_lt : loanPersent < 2 ^ 32 := by decide

/-! The numbers of the requests below: one month, and twelve months or percent. -/

theorem one_lt_uint32 : 1 < 2 ^ 32 := by decide

theorem twelve_lt_uint32 : 12 < 2 ^ 32 := by decide

structure CreditApproveOperation where
  fee : Asset
  creditor : AccountId
  creditRequestUuid : String

structure CreditRequestCancelOperation where
  fee : Asset
  borrower : AccountId
  creditRequestUuid : String

structure SettleCreditOperation where
  fee : Asset
  borrower : AccountId
  creditRequestUuid : String

inductive CreditOperation
  | request (op : CreditRequestOperation)
  | approve (op : CreditApproveOperation)
  | cancel (op : CreditRequestCancelOperation)
  | settle (op : SettleCreditOperation)

structure CreditDatabase where
  ledger : Ledger
  /-- In the order of their creation. -/
  credits : List CreditObject := []
  nextInstance : ℕ := 0

/-- `validate` of the four operations looks at the fee and nothing else. -/
def validateFee (fee : Asset) : Checked Unit := require (0 < fee.amount) "fee.amount > 0"

/-- The first credit with an identifier, between those before and after it. -/
def locate (uuid : String) :
    List CreditObject → Option (List CreditObject × CreditObject × List CreditObject)
  | [] => none
  | c :: cs =>
      if c.objectUuid = uuid then some ([], c, cs)
      else (locate uuid cs).map fun (before, d, after) ↦ (c :: before, d, after)

/-- The loop over the credits that the evaluators share. -/
def findCreditRequest (uuid : String) (db : CreditDatabase) :
    Checked (List CreditObject × CreditObject × List CreditObject) :=
  match locate uuid db.credits with
  | some found => .ok found
  | none => .error (.assertion "credit request not found!")

namespace CreditRequestOperation

variable (boost : BoostLibrary) (v : ChainView)

def depositInCore (deposit : AssetObject) (amount : ℤ) : Checked ℚ :=
  if deposit.amountToReal amount = 0 then .ok 0
  else do
    let rate ← v.getExchangeRateBySymbol deposit.symbol
    return deposit.amountToReal amount * rate

/-- A collateral free request skips the deposit's tests and is the only one
that looks for the special account. -/
def checkCollateral (deposit : AssetObject) (depositInCore loanInCore : ℚ) (db : CreditDatabase)
    (op : CreditRequestOperation) : Checked Unit :=
  if deposit.amountToReal op.depositAsset.amount ≠ 0 then do
    require (¬depositInCore < loanInCore / 100 * depositPersent) "Deposit less % of credit"
    require (op.depositAsset.amount ≤
      (db.ledger.getBalance op.borrower op.depositAsset.assetId).amount)
      "Insufficient Balance: ${balance}, unable to deposit '${deposit}' from account '${a}' to '${t}'"
  else if hardforkCoreKarma2Time ≤ v.headBlockTime then
    require (v.accountByName v.bonusOptions.specialAccountName).isSome
      "No special account found: ${a}."
  else return ()

def doEvaluate (db : CreditDatabase) (op : CreditRequestOperation) : Checked Unit := do
  let _ ← v.accountObject op.borrower
  let deposit ← v.assetObject op.depositAsset.assetId
  let loan ← v.assetObject op.loanAsset.assetId
  require (¬deposit.amountToReal op.depositAsset.amount < 0) "deposit can't be < 0"
  require (¬loan.amountToReal op.loanAsset.amount < 0) "loan can't be < 0"
  let depositInCore ← depositInCore v deposit op.depositAsset.amount
  let loanExchangeRate ← v.getExchangeRateBySymbol loan.symbol
  let loanInCore := loan.amountToReal op.loanAsset.amount * loanExchangeRate
  require (op.loanPeriod ≠ 0) "Loan period can't be 0"
  require (op.loanPersent ≠ 0) "Loan persent can't be 0"
  op.checkCollateral v deposit depositInCore loanInCore db

def newCredit (op : CreditRequestOperation) (deposit : AssetObject) (uuid : String) :
    CreditObject where
  objectUuid := uuid
  status := .watingForAcceptance
  borrower := {
    borrower := op.borrower
    loanAsset := op.loanAsset
    loanPersent := op.loanPersent
    loanPeriod := op.loanPeriod
    depositAsset := op.depositAsset
    collateralFree := deposit.amountToReal op.depositAsset.amount = 0 }
  requestCreationTime := v.headBlockTime

def objectUuid (db : CreditDatabase) : Checked String :=
  match boost.generateUuid db.nextInstance v.headBlockTime with
  | some uuid => .ok uuid
  | none => .error .boostException

def doApply (db : CreditDatabase) (op : CreditRequestOperation) : Checked CreditDatabase := do
  let deposit ← v.assetObject op.depositAsset.assetId
  let uuid ← objectUuid boost v db
  let ledger ← db.ledger.charge op.borrower op.depositAsset
  return ⟨ledger, db.credits ++ [op.newCredit v deposit uuid], db.nextInstance + 1⟩

end CreditRequestOperation

namespace CreditApproveOperation

variable (v : ChainView)

/-- The parts of a loan paid out as bonuses. -/
structure BonusSums where
  creditor : ℤ
  borrower : ℤ
  specialAccount : ℤ
  deriving DecidableEq, Repr

/-- A referrer's bonus counts until it expires. -/
def referrerPercent (account : AccountObject) (bonus : ℚ) : ℚ :=
  if v.headBlockTime < account.creditReferrerExpirationDate then bonus else 0

def creditorPercent (creditor : AccountObject) : ℚ :=
  referrerPercent v creditor v.bonusOptions.creditorReferrerBonus

def borrowerPercent (borrower : AccountObject) : ℚ :=
  referrerPercent v borrower v.bonusOptions.borrowerReferrerBonus

def specialAccountPercent (creditor borrower : AccountObject) : ℚ :=
  v.bonusOptions.karmaAccountBonus - borrowerPercent v borrower - creditorPercent v creditor

def bonusSums (creditor borrower : AccountObject) (loan : ℤ) : Checked BonusSums := do
  let forCreditor ← toShare (loan * creditorPercent v creditor / 100)
  let forBorrower ← toShare (loan * borrowerPercent v borrower / 100)
  let toSpecialAccount ← toShare (loan * specialAccountPercent v creditor borrower / 100)
  return ⟨forCreditor, forBorrower, toSpecialAccount⟩

/-- Bonuses out of the loan, and the rest to the borrower. -/
def payWithBonuses (creditor : AccountId) (c : CreditObject) (l : Ledger) : Checked Ledger := do
  let specialAccountId ← v.accountNamed v.bonusOptions.specialAccountName
  let creditorAccount ← v.accountObject creditor
  let borrowerAccount ← v.accountObject c.borrower.borrower
  let sums ← bonusSums v creditorAccount borrowerAccount c.borrower.loanAsset.amount
  let l ← l.pay creditorAccount.creditReferrer ⟨sums.creditor, c.loanId⟩
  let l ← l.pay borrowerAccount.creditReferrer ⟨sums.borrower, c.loanId⟩
  let l ← l.pay specialAccountId ⟨sums.specialAccount, c.loanId⟩
  let rest ← c.borrower.loanAsset.sub ⟨sums.creditor, c.loanId⟩
  let rest ← rest.sub ⟨sums.borrower, c.loanId⟩
  let rest ← rest.sub ⟨sums.specialAccount, c.loanId⟩
  l.pay c.borrower.borrower rest

def payLoan (creditor : AccountId) (c : CreditObject) (l : Ledger) : Checked Ledger :=
  if hardforkCoreKarma2Time ≤ v.headBlockTime then payWithBonuses v creditor c l
  else l.pay c.borrower.borrower c.borrower.loanAsset

def approved (creditor : AccountId) (loan : AssetObject) (c : CreditObject) : CreditObject :=
  { c with
    creditor := {
      creditor := creditor
      monthlyPayment := calculateMonthlyPayment (loan.amountToReal c.borrower.loanAsset.amount)
        c.borrower.loanPersent c.borrower.loanPeriod }
    requestApprovationTime := v.headBlockTime
    settleMonthElapsed := 0
    status := .inProgress }

def doApply (db : CreditDatabase) (op : CreditApproveOperation) : Checked CreditDatabase := do
  let (before, c, after) ← findCreditRequest op.creditRequestUuid db
  require (c.status = .watingForAcceptance) "credit request allready accepted!"
  let _ ← v.accountObject op.creditor
  let loan ← v.assetObject c.loanId
  require (c.borrower.loanAsset.amount ≤ (db.ledger.getBalance op.creditor c.loanId).amount)
    "Insufficient Balance"
  let l ← db.ledger.charge op.creditor c.borrower.loanAsset
  let l ← payLoan v op.creditor c l
  return { db with ledger := l, credits := before ++ approved v op.creditor loan c :: after }

end CreditApproveOperation

namespace CreditRequestCancelOperation

def doApply (db : CreditDatabase) (op : CreditRequestCancelOperation) : Checked CreditDatabase := do
  let (before, c, after) ← findCreditRequest op.creditRequestUuid db
  require (op.borrower = c.borrower.borrower) "Only owner can cancel the credit request!"
  require (c.status = .watingForAcceptance) "credit request allready accepted!"
  let l ← db.ledger.pay c.borrower.borrower c.borrower.depositAsset
  return { db with ledger := l, credits := before ++ after }

end CreditRequestCancelOperation

namespace SettleCreditOperation

variable (v : ChainView)

/-- Before the first month a twelfth of the percentage is added to the loan as
if it were an amount. -/
def settleSum (loan : AssetObject) (c : CreditObject) : ℚ :=
  if c.settleMonthElapsed = 0 then
    c.borrower.loanPersent / 12 + loan.amountToReal c.borrower.loanAsset.amount
  else c.loanForReturn

def doApply (db : CreditDatabase) (op : SettleCreditOperation) : Checked CreditDatabase := do
  let (before, c, after) ← findCreditRequest op.creditRequestUuid db
  let loan ← v.assetObject c.loanId
  let _ ← v.accountObject op.borrower
  require (c.status = .inProgress) "credit request don't accepted!"
  require (op.borrower = c.borrower.borrower) "Only owner can settle the credit operation!"
  let amount ← toShare (settleSum loan c * 10 ^ loan.precision)
  require (amount ≤ (db.ledger.getBalance op.borrower c.loanId).amount) "Insufficient Balance"
  let l ← db.ledger.transfer c.borrower.borrower ⟨amount, c.loanId⟩
    c.creditor.creditor ⟨amount, c.loanId⟩
  let (c, l) ← c.completeCreditOperation v l
  return { db with ledger := l, credits := before ++ c :: after }

end SettleCreditOperation

namespace CreditDatabase

variable (boost : BoostLibrary) (v : ChainView)

/-- An operation that passes `validate`, is evaluated and applied. -/
def applyOperation (db : CreditDatabase) : CreditOperation → Checked CreditDatabase
  | .request op => do
      validateFee op.fee
      op.doEvaluate v db
      op.doApply boost v db
  | .approve op => do
      validateFee op.fee
      op.doApply v db
  | .cancel op => do
      validateFee op.fee
      op.doApply db
  | .settle op => do
      validateFee op.fee
      op.doApply v db

/-- `process` of the credit at a position. -/
def processCredit (db : CreditDatabase) (position : ℕ) : Checked CreditDatabase :=
  match db.credits.drop position with
  | [] => .error .unableToFindObject
  | c :: after => do
      let (c, l) ← c.process boost v db.ledger
      return { db with ledger := l, credits := db.credits.take position ++ c :: after }

def processCredits (db : CreditDatabase) : Checked CreditDatabase := do
  let (credits, l) ← processCreditStories boost v db.credits db.ledger
  return { db with ledger := l, credits }

end CreditDatabase

/-! ## What an operation changes -/

theorem locate_eq_some {uuid : String} {cs before after : List CreditObject} {c : CreditObject}
    (h : locate uuid cs = some (before, c, after)) : cs = before ++ c :: after := by
  induction cs generalizing before with
  | nil => simp [locate] at h
  | cons d ds ih =>
      simp only [locate] at h
      split_ifs at h with hd
      · obtain ⟨rfl, rfl, rfl⟩ : [] = before ∧ d = c ∧ ds = after := by simpa using h
        rfl
      · obtain ⟨⟨pre, e, post⟩, hlocate, hfound⟩ := Option.map_eq_some_iff.mp h
        obtain ⟨rfl, rfl, rfl⟩ : d :: pre = before ∧ e = c ∧ post = after := by simpa using hfound
        rw [ih hlocate, List.cons_append]

theorem findCreditRequest_eq_ok {uuid : String} {db : CreditDatabase}
    {before after : List CreditObject} {c : CreditObject}
    (h : findCreditRequest uuid db = .ok (before, c, after)) :
    db.credits = before ++ c :: after := by
  unfold findCreditRequest at h
  split at h
  · rename_i found hfound
    obtain rfl : found = (before, c, after) := by simpa using h
    exact locate_eq_some hfound
  · simp at h

/-- The movements that hand a loan to the borrower. -/
inductive LoanMoves (v : ChainView) (creditor : AccountId) (c : CreditObject) :
    List Movement → Prop
  | whole (hfork : v.headBlockTime < hardforkCoreKarma2Time) :
      LoanMoves v creditor c [.pay c.borrower.borrower c.borrower.loanAsset]
  | bonuses {special : AccountId} {creditorAccount borrowerAccount : AccountObject}
      {sums : CreditApproveOperation.BonusSums}
      (hfork : hardforkCoreKarma2Time ≤ v.headBlockTime)
      (hcreditor : v.accounts creditor = some creditorAccount)
      (hborrower : v.accounts c.borrower.borrower = some borrowerAccount)
      (hsums : CreditApproveOperation.bonusSums v creditorAccount borrowerAccount
        c.borrower.loanAsset.amount = .ok sums) :
      LoanMoves v creditor c
        [.pay c.borrower.borrower ⟨c.borrower.loanAsset.amount - sums.creditor - sums.borrower -
            sums.specialAccount, c.loanId⟩,
          .pay special ⟨sums.specialAccount, c.loanId⟩,
          .pay borrowerAccount.creditReferrer ⟨sums.borrower, c.loanId⟩,
          .pay creditorAccount.creditReferrer ⟨sums.creditor, c.loanId⟩]

theorem payLoan_eq_ok {v : ChainView} {creditor : AccountId} {c : CreditObject} {l l' : Ledger}
    (h : CreditApproveOperation.payLoan v creditor c l = .ok l') :
    ∃ ms, l.Moves ms l' ∧ LoanMoves v creditor c ms := by
  unfold CreditApproveOperation.payLoan at h
  split_ifs at h with hfork
  · simp only [CreditApproveOperation.payWithBonuses, Checked.bind_eq_ok,
      ChainView.accountObject_eq_ok] at h
    obtain ⟨special, -, creditorAccount, hcreditor, borrowerAccount, hborrower, sums, hsums,
      l₁, hpay₁, l₂, hpay₂, l₃, hpay₃, rest₁, hrest₁, rest₂, hrest₂, rest₃, hrest₃, hpay⟩ := h
    obtain ⟨-, -, rfl⟩ := Asset.sub_eq_ok.mp hrest₁
    obtain ⟨-, -, rfl⟩ := Asset.sub_eq_ok.mp hrest₂
    obtain ⟨-, -, rfl⟩ := Asset.sub_eq_ok.mp hrest₃
    have hmoves := (((Ledger.moves_of_pay hpay₁).trans (Ledger.moves_of_pay hpay₂)).trans
      (Ledger.moves_of_pay hpay₃)).trans (Ledger.moves_of_pay hpay)
    exact ⟨_, hmoves, .bonuses hfork hcreditor hborrower hsums⟩
  · exact ⟨_, Ledger.moves_of_pay h, .whole (not_le.mp hfork)⟩

/-- What a successful operation can do: the credits it leaves and its movements. -/
inductive OperationOutcome (v : ChainView) (db : CreditDatabase) :
    CreditOperation → List CreditObject → List Movement → Prop
  | requested {op : CreditRequestOperation} {deposit : AssetObject} {uuid : String}
      (heval : op.doEvaluate v db = .ok ())
      (hdeposit : v.assets op.depositAsset.assetId = some deposit) :
      OperationOutcome v db (.request op) (db.credits ++ [op.newCredit v deposit uuid])
        [.charge op.borrower op.depositAsset]
  | approved {op : CreditApproveOperation} {before after : List CreditObject} {c : CreditObject}
      {loan : AssetObject} {ms : List Movement}
      (hfind : findCreditRequest op.creditRequestUuid db = .ok (before, c, after))
      (hcredits : db.credits = before ++ c :: after) (hstatus : c.status = .watingForAcceptance)
      (hloan : v.assets c.loanId = some loan) (hms : LoanMoves v op.creditor c ms) :
      OperationOutcome v db (.approve op)
        (before ++ CreditApproveOperation.approved v op.creditor loan c :: after)
        (ms ++ [.charge op.creditor c.borrower.loanAsset])
  | cancelled {op : CreditRequestCancelOperation} {before after : List CreditObject}
      {c : CreditObject} (hcredits : db.credits = before ++ c :: after) :
      OperationOutcome v db (.cancel op) (before ++ after)
        [.pay c.borrower.borrower c.borrower.depositAsset]
  | settled {op : SettleCreditOperation} {before after : List CreditObject} {c : CreditObject}
      {loan : AssetObject} {amount : ℤ} (hcredits : db.credits = before ++ c :: after)
      (hstatus : c.status = .inProgress) (hloan : v.assets c.loanId = some loan)
      (hamount : toShare (SettleCreditOperation.settleSum loan c * 10 ^ loan.precision) =
        .ok amount) :
      OperationOutcome v db (.settle op) (before ++ c.completed :: after)
        (.pay c.borrower.borrower c.borrower.depositAsset :: c.transferMoves amount)

/-- Whatever an operation does is one of its outcomes. -/
theorem applyOperation_cases {boost : BoostLibrary} {v : ChainView} {db db' : CreditDatabase}
    {op : CreditOperation} (h : db.applyOperation boost v op = .ok db') :
    ∃ ms, db.ledger.Moves ms db'.ledger ∧ OperationOutcome v db op db'.credits ms := by
  cases op with
  | request op =>
      simp only [CreditDatabase.applyOperation, CreditRequestOperation.doApply,
        Checked.bind_eq_ok, ChainView.assetObject_eq_ok] at h
      obtain ⟨_, -, _, heval, deposit, hdeposit, uuid, -, l, hcharge, h⟩ := h
      obtain rfl := Checked.pure_eq_ok.mp h
      exact ⟨_, Ledger.moves_of_charge hcharge, .requested heval hdeposit⟩
  | approve op =>
      simp only [CreditDatabase.applyOperation, CreditApproveOperation.doApply,
        Checked.bind_eq_ok, ChainView.assetObject_eq_ok, require_eq_ok] at h
      obtain ⟨_, -, ⟨before, c, after⟩, hfind, _, hstatus, _, -, loan, hloan, _, -, l, hcharge,
        l', hpay, h⟩ := h
      obtain rfl := Checked.pure_eq_ok.mp h
      obtain ⟨ms, hmoves, hms⟩ := payLoan_eq_ok hpay
      exact ⟨_, (Ledger.moves_of_charge hcharge).trans hmoves,
        .approved hfind (findCreditRequest_eq_ok hfind) hstatus hloan hms⟩
  | cancel op =>
      simp only [CreditDatabase.applyOperation, CreditRequestCancelOperation.doApply,
        Checked.bind_eq_ok] at h
      obtain ⟨_, -, ⟨before, c, after⟩, hfind, _, -, _, -, l, hpay, h⟩ := h
      obtain rfl := Checked.pure_eq_ok.mp h
      exact ⟨_, Ledger.moves_of_pay hpay, .cancelled (findCreditRequest_eq_ok hfind)⟩
  | settle op =>
      simp only [CreditDatabase.applyOperation, SettleCreditOperation.doApply,
        Checked.bind_eq_ok, ChainView.assetObject_eq_ok, require_eq_ok] at h
      obtain ⟨_, -, ⟨before, c, after⟩, hfind, loan, hloan, _, -, _, hstatus, _, -, amount, hamount,
        _, -, l, htransfer, ⟨d, m⟩, hcomplete, h⟩ := h
      obtain rfl := Checked.pure_eq_ok.mp h
      obtain ⟨hpay, rfl⟩ := CreditObject.completeCreditOperation_eq_ok hcomplete
      exact ⟨_, (Ledger.moves_of_transfer htransfer).trans hpay,
        .settled (findCreditRequest_eq_ok hfind) hstatus hloan hamount⟩

end KarmaCore
