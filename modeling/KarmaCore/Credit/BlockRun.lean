import Mathlib
import KarmaCore.Credit.BlockPass

/-!
# Runs in which every block passes

Bounds on the payments of approved credits, and room in each block for what
live credits may still move, carry through a run of operations, blocks and
foreign changes.
-/

namespace KarmaCore

open Truncation

/-- What all credits together may still add to the balances of an asset. -/
def outstandingAll (v : ChainView) (assetId : AssetId) (cs : List CreditObject) : ℚ :=
  (cs.map (·.outstanding v assetId)).sum

theorem outstandingAll_nonneg {v : ChainView} {cs : List CreditObject}
    (h : ∀ c ∈ cs, c.Valid v) (assetId : AssetId) : 0 ≤ outstandingAll v assetId cs := by
  refine List.sum_nonneg fun x hx ↦ ?_
  obtain ⟨c, hc, rfl⟩ := List.mem_map.mp hx
  exact CreditObject.outstanding_nonneg (h c hc).nonneg assetId

/-- The pass over the credits ends when they fit together. -/
theorem processCreditStories_ok {boost : BoostLibrary} {v : ChainView} {cs : List CreditObject}
    {l : Ledger} (hvalid : ∀ c ∈ cs, c.Valid v)
    (hfits : ∀ c ∈ cs, c.status = .inProgress → c.Fits boost v)
    (hroom : ∀ assetId, (l.total assetId : ℚ) + outstandingAll v assetId cs < shareEnd) :
    ∃ r, processCreditStories boost v cs l = .ok r := by
  induction cs generalizing l with
  | nil => exact ⟨_, rfl⟩
  | cons c cs ih =>
      have hc := hvalid c List.mem_cons_self
      have hcs : ∀ d ∈ cs, d.Valid v := fun d hd ↦ hvalid d (List.mem_cons_of_mem _ hd)
      have hsum : ∀ assetId, outstandingAll v assetId (c :: cs) =
          c.outstanding v assetId + outstandingAll v assetId cs := fun assetId ↦ by
        simp [outstandingAll]
      have hroomHead : c.Room v l := fun assetId ↦ by
        have h := hroom assetId
        have hrest := outstandingAll_nonneg hcs assetId
        rw [hsum] at h
        linarith
      obtain ⟨⟨c', l'⟩, hprocess⟩ := CreditObject.process_ok hc hroomHead
        (hfits c List.mem_cons_self)
      obtain ⟨ms, hmoves, houtcome⟩ := CreditObject.process_cases hprocess
      have hroomTail : ∀ assetId, (l'.total assetId : ℚ) + outstandingAll v assetId cs <
          shareEnd := fun assetId ↦ by
        have h := hroom assetId
        have hkept := houtcome.potentialKept hc assetId
        have hnonneg := CreditObject.outstanding_nonneg (v := v)
          (houtcome.nonNegative hc.nonneg).1 assetId
        rw [hsum] at h
        rw [hmoves.total]
        push_cast
        linarith
      obtain ⟨⟨cs', l''⟩, hrest⟩ := ih hcs (fun d hd ↦ hfits d (List.mem_cons_of_mem _ hd))
        hroomTail
      exact ⟨_, Checked.bind_eq_ok.mpr ⟨_, hprocess, Checked.bind_eq_ok.mpr ⟨_, hrest, rfl⟩⟩⟩

/-- What all credits keep when each that is processed keeps it. -/
theorem processCreditStories_forall {boost : BoostLibrary} {v : ChainView}
    {P : CreditObject → Prop} {cs cs' : List CreditObject} {l l' : Ledger}
    (h : processCreditStories boost v cs l = .ok (cs', l')) (hcs : ∀ c ∈ cs, P c)
    (hstep : ∀ c l c' ms, P c → CreditObject.ProcessOutcome boost v c l c' ms → P c') :
    ∀ c ∈ cs', P c := by
  induction cs generalizing cs' l with
  | nil =>
      obtain ⟨rfl, -⟩ : [] = cs' ∧ l = l' := by simpa [processCreditStories] using h
      simp
  | cons c cs ih =>
      simp only [processCreditStories, Checked.bind_eq_ok] at h
      obtain ⟨⟨c', m⟩, hprocess, ⟨ds, n⟩, hrest, h⟩ := h
      obtain ⟨rfl, rfl⟩ := Prod.mk.inj (Checked.pure_eq_ok.mp h)
      obtain ⟨ms, -, houtcome⟩ := CreditObject.process_cases hprocess
      exact List.forall_mem_cons.mpr ⟨hstep c l c' ms (hcs c List.mem_cons_self) houtcome,
        ih hrest fun d hd ↦ hcs d (List.mem_cons_of_mem _ hd)⟩

namespace CreditObject

/-- The month's payment of a live credit is at most `GRAPHENE_MAX_SHARE_SUPPLY`. -/
def PaymentBounded (v : ChainView) (c : CreditObject) : Prop :=
  c.status = .inProgress → ∀ loan ∈ v.assets c.loanId,
    truncate (c.creditor.monthlyPayment * 10 ^ loan.precision) ≤ maxShareSupply

variable {boost : BoostLibrary} {v : ChainView} {c c' : CreditObject} {l : Ledger}
  {ms : List Movement}

theorem ProcessOutcome.paymentBounded (h : ProcessOutcome boost v c l c' ms)
    (hc : c.PaymentBounded v) : c'.PaymentBounded v := by
  have hterms := h.sameTerms
  intro hstatus' loan hloan
  have hstatus : c.status = .inProgress := by
    cases h with
    | closed => exact hstatus'
    | stoppedLoss hstatus => exact hstatus
    | notDue hstatus => exact hstatus
    | month hstatus => exact hstatus
    | lastMonth hstatus => exact hstatus
  have hid : c'.loanId = c.loanId := congrArg Asset.assetId hterms.loan
  rw [hterms.creditor]
  exact hc hstatus loan (hid ▸ hloan)

end CreditObject

/-- What an accepted request has looked up. -/
theorem newCredit_valid {v : ChainView} {db : CreditDatabase} {op : CreditRequestOperation}
    {deposit : AssetObject} {uuid : String} (heval : op.doEvaluate v db = .ok ())
    (hsigned : RequestSigned v db op)
    (hdeposit : v.assets op.depositAsset.assetId = some deposit) :
    (op.newCredit v deposit uuid).Valid v := by
  obtain ⟨hloan0, hdeposit0⟩ := hsigned.nonneg heval
  simp only [CreditRequestOperation.doEvaluate, Checked.bind_eq_ok, require_eq_ok,
    ChainView.assetObject_eq_ok, ChainView.accountObject_eq_ok,
    ChainView.getExchangeRateBySymbol_eq_ok] at heval
  obtain ⟨account, haccount, deposit', hdeposit', loan, hloan, _, -, _, -, core, hcore, loanRate,
    hloanRate, _, hperiod, -⟩ := heval
  obtain rfl := Option.some.inj (hdeposit.symm.trans hdeposit')
  refine ⟨⟨hloan0, hdeposit0, le_rfl⟩, ⟨account, haccount⟩, ⟨deposit, hdeposit⟩, ⟨loan, hloan⟩,
    fun hfree ↦ ?_, ⟨Nat.pos_of_ne_zero hperiod, op.loanPeriod_lt⟩, fun hstatus ↦ ?_⟩
  · have hreal : ¬deposit.amountToReal op.depositAsset.amount = 0 := by
      simpa [CreditRequestOperation.newCredit] using hfree
    rw [CreditRequestOperation.depositInCore, if_neg hreal] at hcore
    simp only [Checked.bind_eq_ok, ChainView.getExchangeRateBySymbol_eq_ok] at hcore
    obtain ⟨depositRate, hdepositRate, -⟩ := hcore
    exact ⟨⟨deposit, loan, depositRate, loanRate⟩, hdeposit, hloan, hdepositRate, hloanRate⟩
  · cases hstatus

theorem approved_valid {v : ChainView} {creditor : AccountId} {loan : AssetObject}
    {c : CreditObject} (hc : c.Valid v) :
    (CreditApproveOperation.approved v creditor loan c).Valid v :=
  ⟨hc.nonneg.approved v creditor loan, hc.borrower, hc.deposit, hc.loan,
    fun hfree ↦ (hc.quotes hfree).imp fun _ hq ↦
      ⟨hq.deposit, hq.loan, hq.depositExchangeRate, hq.loanExchangeRate⟩,
    hc.period, fun _ ↦ hc.period.1⟩

theorem completed_valid {v : ChainView} {c : CreditObject} (hc : c.Valid v) :
    c.completed.Valid v :=
  hc.of_sameTerms ⟨rfl, rfl, rfl, rfl, rfl, rfl⟩ ⟨hc.nonneg.loan, le_rfl, hc.nonneg.payment⟩
    fun hstatus ↦ by cases hstatus

/-- Accounts, assets and exchange rates are never removed, and an asset keeps
its symbol and precision. -/
structure ViewGrows (v v' : ChainView) : Prop where
  accounts : ∀ account, (v.accounts account).isSome → (v'.accounts account).isSome
  assets : ∀ assetId, ∀ o ∈ v.assets assetId, v'.assets assetId = some o
  rates : ∀ symbol, (v.lastExchangeRate symbol).isSome → (v'.lastExchangeRate symbol).isSome

theorem CreditObject.Valid.grow {v v' : ChainView} {c : CreditObject} (hc : c.Valid v)
    (hgrow : ViewGrows v v') : c.Valid v' := by
  obtain ⟨account, haccount⟩ := hc.borrower
  obtain ⟨deposit, hdeposit⟩ := hc.deposit
  obtain ⟨loan, hloan⟩ := hc.loan
  refine ⟨hc.nonneg, Option.isSome_iff_exists.mp (hgrow.accounts _ (by simp [haccount])),
    ⟨deposit, hgrow.assets _ _ hdeposit⟩, ⟨loan, hgrow.assets _ _ hloan⟩, fun hfree ↦ ?_,
    hc.period, hc.live⟩
  obtain ⟨q, hq⟩ := hc.quotes hfree
  obtain ⟨depositRate, hdepositRate⟩ := Option.isSome_iff_exists.mp
    (hgrow.rates q.deposit.symbol (by simp [hq.depositExchangeRate]))
  obtain ⟨loanRate, hloanRate⟩ := Option.isSome_iff_exists.mp
    (hgrow.rates q.loan.symbol (by simp [hq.loanExchangeRate]))
  exact ⟨⟨q.deposit, q.loan, depositRate, loanRate⟩, hgrow.assets _ _ hq.deposit,
    hgrow.assets _ _ hq.loan, hdepositRate, hloanRate⟩

namespace CreditState

/-- The invariant of a run: every credit is valid and its payments bounded. -/
def Sound (s : CreditState) : Prop :=
  ∀ c ∈ s.db.credits, c.Valid s.view ∧ c.PaymentBounded s.view

/-- What live credits may still move fits into the share range. -/
structure BlockFits (boost : BoostLibrary) (s : CreditState) : Prop where
  room : ∀ assetId, (s.db.ledger.total assetId : ℚ) +
    outstandingAll s.view assetId s.db.credits < shareEnd
  credits : ∀ c ∈ s.db.credits, c.status = .inProgress → c.Fits boost s.view

/-- Requests keep their signs, approved payments are at most
`GRAPHENE_MAX_SHARE_SUPPLY`, and every block has room. -/
def Bounded (boost : BoostLibrary) (s : CreditState) : CreditEvent → Prop
  | .operation (.request op) => RequestSigned s.view s.db op
  | .operation (.approve op) => ∀ before c after,
      findCreditRequest op.creditRequestUuid s.db = .ok (before, c, after) →
      c.status = .watingForAcceptance → ∀ loan ∈ s.view.assets c.loanId,
        truncate (calculateMonthlyPayment (loan.amountToReal c.borrower.loanAsset.amount)
          c.borrower.loanPersent c.borrower.loanPeriod * 10 ^ loan.precision) ≤ maxShareSupply
  | .operation (.cancel _) => True
  | .operation (.settle _) => True
  | .block => s.BlockFits boost
  | .others view _ _ => ViewGrows s.view view

theorem step_sound {boost : BoostLibrary} {s : CreditState} {event : CreditEvent} (hs : s.Sound)
    (hevent : s.Bounded boost event) : (s.step boost event).Sound := by
  cases event with
  | operation op =>
      simp only [step]
      rcases happly : s.db.applyOperation boost s.view op with _ | db
      · exact hs
      · obtain ⟨ms, hmoves, houtcome⟩ := applyOperation_cases happly
        refine houtcome.forall_credits hs ?_ ?_ ?_
        · rintro req deposit uuid rfl heval hdeposit
          exact ⟨newCredit_valid heval hevent hdeposit, fun hstatus ↦ by cases hstatus⟩
        · rintro app before c after loan rfl hfind hstatus hloan ⟨hc, -⟩
          refine ⟨approved_valid hc, fun _ loan' hloan' ↦ ?_⟩
          obtain rfl := Option.some.inj (hloan.symm.trans hloan')
          exact hevent before c after hfind hstatus loan hloan
        · rintro c ⟨hc, -⟩
          exact ⟨completed_valid hc, fun hstatus ↦ by cases hstatus⟩
  | block =>
      simp only [step]
      rcases hprocess : s.db.processCredits boost s.view with _ | db
      · exact hs
      · simp only [CreditDatabase.processCredits, Checked.bind_eq_ok] at hprocess
        obtain ⟨⟨credits, l⟩, hstories, hdb⟩ := hprocess
        obtain rfl := Checked.pure_eq_ok.mp hdb
        exact processCreditStories_forall hstories hs fun c l c' ms hc houtcome ↦
          ⟨houtcome.valid hc.1, houtcome.paymentBounded hc.2⟩
  | others view balances supply =>
      intro c hc
      obtain ⟨hvalid, hbounded⟩ := hs c hc
      refine ⟨hvalid.grow hevent, fun hstatus loan hloan ↦ ?_⟩
      obtain ⟨loan', hloan'⟩ := hvalid.loan
      obtain rfl := Option.some.inj ((hevent.assets _ _ hloan').symm.trans hloan)
      exact hbounded hstatus loan' hloan'

end CreditState

/-- All of the core asset is asked for without a deposit, for one month at the
largest percentage. -/
def hugeRequest : CreditRequestOperation where
  fee := ⟨1, 0⟩
  borrower := 1
  loanAsset := ⟨1000000000000000, 0⟩
  loanPeriod := 1
  loanPersent := 4294967295
  depositAsset := ⟨0, 0⟩
  loanPeriod_lt := one_lt_uint32

def hugeApproval : CreditApproveOperation := ⟨⟨1, 0⟩, 0, "aa"⟩

/-- The creditor owns the whole supply. -/
def richState : CreditState :=
  ⟨twoAssetView, { ledger := ⟨[⟨0, 0, 1000000000000000⟩], fun _ ↦ 1000000000000000, []⟩ }⟩

/-- Forty days later. -/
def laterView : ChainView := { twoAssetView with headBlockTime := 1603456000 }

def hugeState : CreditState :=
  let s := (richState.step plainCalendar (.operation (.request hugeRequest))).step plainCalendar
    (.operation (.approve hugeApproval))
  s.step plainCalendar (.others laterView s.db.ledger.balances s.db.ledger.currentSupply)

/-- A credit of ten units that was requested and approved. -/
def requestedState : CreditState :=
  freshState.step plainCalendar (.operation (.request depositRequest))

def depositApproval : CreditApproveOperation := ⟨⟨1, 0⟩, 0, "aa"⟩

def lentState : CreditState :=
  requestedState.step plainCalendar (.operation (.approve depositApproval))

def lentCredit : CreditObject where
  objectUuid := "aa"
  status := .inProgress
  borrower := ⟨0, ⟨1000, 1⟩, 12, 1, ⟨3000, 1⟩, false⟩
  requestCreationTime := 1600000000
  creditor := ⟨0, 101 / 10⟩
  requestApprovationTime := 1600000000

theorem lentState_credits : lentState.db.credits = [lentCredit] := by decide +kernel

theorem lentState_room (assetId : AssetId) :
    (lentState.db.ledger.total assetId : ℚ) +
      outstandingAll lentState.view assetId lentState.db.credits < shareEnd := by
  by_cases hasset : assetId = 1
  · subst hasset
    decide +kernel
  · have hbalances : lentState.db.ledger.balances = [⟨0, 1, 1995⟩, ⟨2, 1, 5⟩] := by decide +kernel
    have hloan : lentCredit.loanId ≠ assetId := Ne.symm hasset
    have hheld : lentCredit.held assetId = 0 := if_neg (Ne.symm hasset)
    simp only [Ledger.total, hbalances, totalOf, if_neg (Ne.symm hasset), lentState_credits,
      outstandingAll, List.map_cons, List.map_nil, List.sum_cons, List.sum_nil,
      CreditObject.outstanding, if_neg hloan, hheld]
    decide +kernel

end KarmaCore
