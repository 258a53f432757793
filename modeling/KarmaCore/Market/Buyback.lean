import Mathlib
import KarmaCore.Market.CallResult
import KarmaCore.Market.OperationSound

/-!
# Buyback orders

At maintenance every buyback account offers what it holds for the asset it buys
and takes back what is left at once.  An exception is swallowed, but the two
operations have no undo session: the database is left as it was only if the
creation is refused before it writes anything.
-/

namespace KarmaCore.Market

open Transfer (get get_eq_ok)
open ForwardCall (read check result_bind result_check result_ite result_pure result_read)

namespace MarketCall

variable {s s' : MarketState}

/-! ## The two operations -/

def convertFee (fee : Asset) (coreFeePaid : ℤ) : MarketCall Unit :=
  update (·.convertFee fee coreFeePaid) fun s s' h ↦ by
    rcases whenever_eq_ok.mp h with ⟨-, h⟩ | ⟨-, rfl⟩
    · simp only [MarketState.modifyDynamicData, MarketState.modifyAsset, Checked.bind_eq_ok,
        Checked.pure_eq_ok] at h
      obtain ⟨_, -, _, -, rfl⟩ := h
      exact le_rfl
    · exact le_rfl

def payFee (payer : AccountId) (coreFee : ℤ) : MarketCall Unit := do
  let s ← read
  modifyStatistics payer (·.payFee coreFee s.parameters.cashbackVestingThreshold)

/-- The part of the creation of an order before the balance of the seller is changed. It
returns the fee the order keeps. -/
def acceptOrder (op : LimitOrderCreateOperation) : MarketCall ℤ := do
  let s ← read
  let coreFeePaid ← check (s.prepareFee op.seller op.fee)
  check (op.doEvaluate s)
  convertFee op.fee coreFeePaid
  whenever ((← read).headBlockTime ≤ hardfork445Time) (payFee op.seller coreFeePaid)
  let deferredFee := MarketOperation.deferredFee coreFeePaid (← read)
  modifyStatistics op.seller (·.enterOrders op.amountToSell)
  return deferredFee

/-- The part of the creation that pays for the order and matches it. -/
def placeOrder (op : LimitOrderCreateOperation) (deferredFee : ℤ) : MarketCall ℕ := do
  adjustBalance op.seller (← check op.amountToSell.neg)
  let sellPrice ← check op.getPrice
  let orderId := (← read).limitOrders.nextId
  createLimitOrder { op with forSale := op.amountToSell.amount, sellPrice, deferredFee }
  let filled ← applyOrder orderId true
  check (require (op.fillOrKill → filled = true) "!op.fill_or_kill || filled")
  return orderId

def limitOrderCreate (op : LimitOrderCreateOperation) : MarketCall ℕ := do
  let deferredFee ← acceptOrder op
  let orderId ← placeOrder op deferredFee
  adjustBalance op.seller (← check op.fee.neg)
  return orderId

def limitOrderCancel (op : LimitOrderCancelOperation) : MarketCall Unit := do
  let s ← read
  let coreFeePaid ← check (s.prepareFee op.feePayingAccount op.fee)
  check (op.doEvaluate s)
  convertFee op.fee coreFeePaid
  payFee op.feePayingAccount coreFeePaid
  let order ← check (deref ((← read).limitOrders.find op.order))
  cancelLimitOrder op.order
  let _ ← checkCallOrders order.sellPrice.base.assetId true false
  let _ ← checkCallOrders order.sellPrice.quote.assetId true false
  adjustBalance op.feePayingAccount (← check op.fee.neg)

/-! ## The attempt -/

/-- `time_point_sec::maximum`. -/
def endOfTime : ℕ := 2 ^ 32 - 1

/-- The order that sells a balance for at least one of the asset to buy. -/
def buybackOrder (account : AccountId) (sell : Asset) (buy : AssetId) : LimitOrderCreateOperation where
  seller := account
  amountToSell := sell
  minToReceive := ⟨1, buy⟩
  expiration := endOfTime

/-- What `create_buyback_orders` tries for one balance. -/
def buybackAttempt (account : AccountId) (sell : Asset) (buy : AssetId) : MarketCall Unit := do
  let orderId ← limitOrderCreate (buybackOrder account sell buy)
  if (← read).limitOrders.find orderId ≠ none then
    limitOrderCancel { order := orderId, feePayingAccount := account }
  else return ()

/-! ## What it returns -/

@[simp] theorem result_convertFee {fee : Asset} {coreFeePaid : ℤ} :
    (convertFee fee coreFeePaid).result s = do return ((), ← s.convertFee fee coreFeePaid) :=
  result_update

@[simp] theorem result_payFee {payer : AccountId} {coreFee : ℤ} :
    (payFee payer coreFee).result s = do return ((), ← s.payFee payer coreFee) := by
  simp only [payFee, MarketState.payFee, result_bind, result_read, result_modifyStatistics, pure_bind]

/-- Where the fee schedule is not checked, any fee will do. -/
theorem require_noFee (coreFeePaid : ℤ) :
    require (∀ fee ∈ (none : Option ℤ), fee ≤ coreFeePaid) "Insufficient Fee Paid" = .ok () :=
  require_eq_ok.mpr fun _ h ↦ by cases h

@[simp] theorem result_limitOrderCancel {op : LimitOrderCancelOperation} :
    (limitOrderCancel op).result s =
      do return ((), ← s.evaluateAndApply (.limitOrderCancel op) none) := by
  simp only [limitOrderCancel, MarketState.evaluateAndApply, MarketOperation.feePayer, MarketOperation.fee,
    MarketOperation.doEvaluate, MarketOperation.payFee, MarketOperation.doApply,
    LimitOrderCancelOperation.doApply, result_bind, result_read, result_check, result_convertFee,
    result_payFee, result_cancelLimitOrder, result_checkCallOrders, result_adjustBalance, require_noFee,
    ok_bind, bind_assoc, pure_bind]

theorem result_limitOrderCreate {op : LimitOrderCreateOperation} :
    Prod.snd <$> (limitOrderCreate op).result s =
      s.evaluateAndApply (.limitOrderCreate op) none := by
  have hfee : ∀ (coreFeePaid : ℤ) (s : MarketState),
      (whenever (s.headBlockTime ≤ hardfork445Time) (payFee op.seller coreFeePaid)).result s =
      do return ((), ← (MarketOperation.limitOrderCreate op).payFee coreFeePaid s) :=
    fun coreFeePaid s ↦ result_whenever result_payFee
  simp only [limitOrderCreate, acceptOrder, placeOrder, MarketState.evaluateAndApply,
    MarketOperation.feePayer, MarketOperation.fee, MarketOperation.doEvaluate, MarketOperation.doApply,
    LimitOrderCreateOperation.doApply, result_bind, result_read, result_check, result_pure,
    result_convertFee, hfee, result_modifyStatistics, result_createLimitOrder, result_applyOrder,
    result_adjustBalance, require_noFee, ok_bind, bind_assoc, pure_bind, map_bind, map_pure, bind_pure]

/-! ## Before the order is placed -/

theorem update_eq_error {f : MarketState → Checked MarketState}
    {hf : ∀ s s', f s = .ok s' → s.nextOrderId ≤ s'.nextOrderId} {e : ChainError}
    (h : (update f hf).run s = .error e s') : s' = s := (ForwardCall.write_eq_error.mp h).2

theorem update_eq_ok {f : MarketState → Checked MarketState}
    {hf : ∀ s s', f s = .ok s' → s.nextOrderId ≤ s'.nextOrderId} {u : Unit} :
    (update f hf).run s = .ok u s' ↔ f s = .ok s' := by
  rw [← ForwardCall.result_eq_ok, result_update, Checked.bind_eq_ok]
  simp only [Checked.pure_eq_ok, Prod.mk.injEq, true_and, exists_eq_right]

theorem payFee_zero {payer : AccountId} (h : s.payFee payer 0 = .ok s') : s' = s := by
  simp only [MarketState.payFee, MarketState.modifyStatistics, MarketState.modifyAccount,
    Checked.bind_eq_ok, Checked.pure_eq_ok, get_eq_ok] at h
  obtain ⟨a, ha, _, ⟨b, hb, rfl⟩, rfl⟩ := h
  have hsame : b = a.statistics := by
    unfold AccountStatistics.payFee at hb
    split_ifs at hb <;>
      · simp only [Checked.bind_eq_ok, Checked.pure_eq_ok, checkedShare_eq_ok, add_zero] at hb
        obtain ⟨_, ⟨-, rfl⟩, rfl⟩ := hb
        rfl
  rw [hsame]
  exact congrArg (fun accounts ↦ ({ s with accounts } : MarketState)) (ObjectIndex.set_self ha)

theorem convertFee_noFee {coreFeePaid : ℤ} {u : Unit}
    (h : (convertFee ⟨0, coreAsset⟩ coreFeePaid).run s = .ok u s') : s' = s := by
  rcases whenever_eq_ok.mp (update_eq_ok.mp h) with ⟨hne, -⟩ | ⟨-, rfl⟩
  · exact absurd rfl hne
  · rfl

theorem payFee_noFee {condition : Prop} [Decidable condition] {payer : AccountId} {u : Unit}
    (h : (whenever condition (payFee payer 0)).run s = .ok u s') : s' = s := by
  unfold whenever at h
  split_ifs at h
  · rw [← ForwardCall.result_eq_ok, result_payFee, Checked.bind_eq_ok] at h
    obtain ⟨t, ht, heq⟩ := h
    obtain ⟨-, rfl⟩ := Prod.mk.inj (Except.ok.inj heq)
    exact payFee_zero ht
  · exact (ForwardCall.pure_eq_ok.mp h).2.symm

theorem payFee_error {condition : Prop} [Decidable condition] {payer : AccountId} {coreFee : ℤ}
    {e : ChainError} (h : (whenever condition (payFee payer coreFee)).run s = .error e s') :
    s' = s := by
  unfold whenever at h
  split_ifs at h
  · simp only [payFee, ForwardCall.bind_eq_error, ForwardCall.read_ne_error, ForwardCall.read_eq_ok,
      false_or, exists_and_left, exists_eq_left, and_assoc] at h
    exact update_eq_error h
  · exact absurd h ForwardCall.pure_ne_error

theorem prepareFee_noFee {payer : AccountId} {coreFeePaid : ℤ}
    (h : s.prepareFee payer ⟨0, coreAsset⟩ = .ok coreFeePaid) : coreFeePaid = 0 := by
  obtain ⟨-, -, hcore⟩ := MarketState.prepareFee_spec h
  exact hcore rfl

/-- Without a fee nothing is written before the amount for sale is counted. -/
theorem acceptOrder_error {op : LimitOrderCreateOperation} (hfee : op.fee = ⟨0, coreAsset⟩)
    {e : ChainError} (h : (acceptOrder op).run s = .error e s') : s' = s := by
  simp only [acceptOrder, hfee, ForwardCall.bind_eq_error, ForwardCall.read_ne_error,
    ForwardCall.read_eq_ok, ForwardCall.check_eq_error, ForwardCall.check_eq_ok, ForwardCall.pure_ne_error,
    false_or, and_false, exists_false, or_false, exists_and_left, exists_eq_left, and_assoc] at h
  rcases h with ⟨-, rfl⟩ | ⟨coreFeePaid, hprepare, h⟩
  · rfl
  obtain rfl := prepareFee_noFee hprepare
  rcases h with ⟨-, rfl⟩ | ⟨_, -, h⟩
  · rfl
  rcases h with h | ⟨_, t, hconvert, h⟩
  · exact update_eq_error h
  obtain rfl := convertFee_noFee hconvert
  rcases h with h | ⟨_, t, hpay, h⟩
  · exact payFee_error h
  obtain rfl := payFee_noFee hpay
  exact update_eq_error h

theorem acceptOrder_ok {op : LimitOrderCreateOperation} {deferredFee : ℤ}
    (hfee : op.fee = ⟨0, coreAsset⟩) (h : (acceptOrder op).run s = .ok deferredFee s') :
    op.doEvaluate s = .ok () ∧
      s.modifyStatistics op.seller (·.enterOrders op.amountToSell) = .ok s' := by
  simp only [acceptOrder, hfee, ForwardCall.bind_eq_ok, ForwardCall.read_eq_ok, ForwardCall.check_eq_ok,
    ForwardCall.pure_eq_ok, exists_and_left, exists_eq_left, and_assoc] at h
  obtain ⟨coreFeePaid, hprepare, ⟨⟩, heval, _, t, hconvert, h⟩ := h
  obtain rfl := prepareFee_noFee hprepare
  obtain rfl := convertFee_noFee hconvert
  obtain ⟨_, t, hpay, h⟩ := h
  obtain rfl := payFee_noFee hpay
  obtain ⟨_, t', hcount, -, rfl⟩ := h
  exact ⟨heval, update_eq_ok.mp hcount⟩

/-! ## Once the order is placed -/

/-- The order sells all that the seller has of an asset. -/
structure SellsAll (op : LimitOrderCreateOperation) (s : MarketState) : Prop where
  balance : s.getBalance op.seller op.amountToSell.assetId = op.amountToSell
  lt : op.amountToSell.amount < shareEnd
  assets : op.amountToSell.assetId ≠ op.minToReceive.assetId

/-- The seller can pay for the order, which gets its id. -/
theorem placeOrder_run {op : LimitOrderCreateOperation} (hs : SellsAll op s) (deferredFee : ℤ) :
    ∃ t, t.nextOrderId = s.nextOrderId + 1 ∧ (placeOrder op deferredFee).run s = (do
      let filled ← applyOrder s.nextOrderId true
      check (require (op.fillOrKill → filled = true) "!op.fill_or_kill || filled")
      return s.nextOrderId : MarketCall ℕ).run t := by
  have hheld : (balanceOf op.seller op.amountToSell.assetId s.balances : ℤ) = op.amountToSell.amount :=
    congrArg Asset.amount hs.balance
  have hlt := hs.lt
  have hneg : op.amountToSell.neg = .ok ⟨-op.amountToSell.amount, op.amountToSell.assetId⟩ := by
    refine Checked.bind_eq_ok.mpr ⟨_, checkedShare_eq_ok.mpr ⟨⟨?_, ?_⟩, rfl⟩, rfl⟩
    · simp only [shareMin, shareEnd] at hlt ⊢
      omega
    · simp only [shareEnd]
      omega
  have hprice : op.getPrice = .ok ⟨op.amountToSell, op.minToReceive⟩ :=
    Checked.bind_eq_ok.mpr ⟨(), require_eq_ok.mpr hs.assets, rfl⟩
  obtain ⟨balances, hadjust⟩ := adjustBalance_ok op.seller
    ⟨-op.amountToSell.amount, op.amountToSell.assetId⟩ s.balances
    (by rw [hheld, add_neg_cancel]) (by rw [hheld, add_neg_cancel]; decide)
  have hpaid : (adjustBalance op.seller ⟨-op.amountToSell.amount, op.amountToSell.assetId⟩).run s =
      .ok () { s with balances } :=
    update_eq_ok.mpr (Checked.bind_eq_ok.mpr ⟨balances, hadjust, rfl⟩)
  refine ⟨{ s with
    balances
    limitOrders := s.limitOrders.create { op with
      forSale := op.amountToSell.amount
      sellPrice := ⟨op.amountToSell, op.minToReceive⟩
      deferredFee } }, rfl, ?_⟩
  unfold placeOrder
  rw [ForwardCall.run_bind_of_ok (ForwardCall.check_eq_ok.mpr ⟨hneg, rfl⟩),
    ForwardCall.run_bind_of_ok hpaid, ForwardCall.run_bind_of_ok (ForwardCall.check_eq_ok.mpr ⟨hprice, rfl⟩)]
  rfl

theorem lt_of_placeOrder {op : LimitOrderCreateOperation} (hs : SellsAll op s) (deferredFee : ℤ) :
    s.nextOrderId < (endState ((placeOrder op deferredFee).run s)).nextOrderId := by
  obtain ⟨t, ht, hrun⟩ := placeOrder_run hs deferredFee
  rw [hrun]
  have hlt : s.nextOrderId < t.nextOrderId := by omega
  exact hlt.trans_le (ForwardCall.forward _ t)

/-! ## What is refused and what is not -/

/-- The checks of a creation without a fee that come before its first write. -/
structure Accepts (op : LimitOrderCreateOperation) (s : MarketState) : Prop where
  fee : ∃ coreFeePaid, s.prepareFee op.seller op.fee = .ok coreFeePaid
  evaluated : op.doEvaluate s = .ok ()
  paid : s.headBlockTime ≤ hardfork445Time → ∃ s', s.payFee op.seller 0 = .ok s'
  counted : ∃ s', s.modifyStatistics op.seller (·.enterOrders op.amountToSell) = .ok s'

theorem payFee_run {condition : Prop} [Decidable condition] {payer : AccountId}
    (h : condition → ∃ s', s.payFee payer 0 = .ok s') :
    (whenever condition (payFee payer 0)).run s = .ok () s := by
  unfold whenever
  split_ifs with hcondition
  · obtain ⟨s', hs'⟩ := h hcondition
    obtain rfl := payFee_zero hs'
    rw [← ForwardCall.result_eq_ok, result_payFee, hs']
    rfl
  · rfl

theorem accepts_iff {op : LimitOrderCreateOperation} (hfee : op.fee = ⟨0, coreAsset⟩) :
    Accepts op s ↔ ∃ deferredFee s', (acceptOrder op).run s = .ok deferredFee s' := by
  constructor
  · rintro ⟨⟨coreFeePaid, hprepare⟩, heval, hpaid, s', hcount⟩
    rw [hfee] at hprepare
    obtain rfl := prepareFee_noFee hprepare
    have hconvert : (convertFee ⟨0, coreAsset⟩ 0).run s = .ok () s :=
      update_eq_ok.mpr (whenever_eq_ok.mpr (.inr ⟨not_not.mpr rfl, rfl⟩))
    refine ⟨MarketOperation.deferredFee 0 s, s', ?_⟩
    simp only [acceptOrder, hfee, ForwardCall.bind_eq_ok, ForwardCall.read_eq_ok,
      ForwardCall.check_eq_ok, ForwardCall.pure_eq_ok, exists_and_left, exists_eq_left, and_assoc]
    exact ⟨0, hprepare, (), heval, (), s, hconvert, (), s, payFee_run hpaid, (), s',
      update_eq_ok.mpr hcount, rfl, rfl⟩
  · rintro ⟨deferredFee, s', h⟩
    obtain ⟨heval, hcount⟩ := acceptOrder_ok hfee h
    simp only [acceptOrder, hfee, ForwardCall.bind_eq_ok, ForwardCall.read_eq_ok,
      ForwardCall.check_eq_ok, ForwardCall.pure_eq_ok, exists_and_left, exists_eq_left, and_assoc] at h
    obtain ⟨coreFeePaid, hprepare, ⟨⟩, -, _, t, hconvert, _, t', hpay, -⟩ := h
    obtain rfl := prepareFee_noFee hprepare
    obtain rfl := convertFee_noFee hconvert
    refine ⟨⟨0, by rw [hfee]; exact hprepare⟩, heval, fun hearly ↦ ?_, s', hcount⟩
    rw [whenever, if_pos hearly, ← ForwardCall.result_eq_ok, result_payFee, Checked.bind_eq_ok] at hpay
    obtain ⟨u, hu, -⟩ := hpay
    exact ⟨u, hu⟩

theorem SellsAll.of_counted {op : LimitOrderCreateOperation} (hs : SellsAll op s)
    (h : s.modifyStatistics op.seller (·.enterOrders op.amountToSell) = .ok s') :
    SellsAll op s' ∧ s'.nextOrderId = s.nextOrderId := by
  simp only [MarketState.modifyStatistics, MarketState.modifyAccount, Checked.bind_eq_ok,
    Checked.pure_eq_ok] at h
  obtain ⟨_, -, _, -, rfl⟩ := h
  exact ⟨⟨hs.balance, hs.lt, hs.assets⟩, rfl⟩

/-- From an accepted creation on, the database is another. -/
theorem lt_of_accepted {op : LimitOrderCreateOperation} (hfee : op.fee = ⟨0, coreAsset⟩)
    (hs : SellsAll op s) (haccepts : Accepts op s) :
    s.nextOrderId < (endState ((limitOrderCreate op).run s)).nextOrderId := by
  obtain ⟨deferredFee, t, haccept⟩ := (accepts_iff hfee).mp haccepts
  obtain ⟨ht, hnext⟩ := hs.of_counted (acceptOrder_ok hfee haccept).2
  have hplaced := lt_of_placeOrder ht deferredFee
  unfold limitOrderCreate
  rw [ForwardCall.run_bind_of_ok haccept, ForwardCall.run_bind]
  unfold EStateM.bind
  cases hplace : (placeOrder op deferredFee).run t with
  | error e u =>
      rw [hplace] at hplaced
      exact hnext ▸ hplaced
  | ok orderId u =>
      rw [hplace] at hplaced
      exact (hnext ▸ hplaced).trans_le (ForwardCall.forward _ u)

theorem buybackAttempt_accepted {account : AccountId} {sell : Asset} {buy : AssetId}
    (hs : SellsAll (buybackOrder account sell buy) s)
    (haccepts : Accepts (buybackOrder account sell buy) s) :
    s.nextOrderId < (endState ((buybackAttempt account sell buy).run s)).nextOrderId := by
  have hcreated := lt_of_accepted rfl hs haccepts
  unfold buybackAttempt
  rw [ForwardCall.run_bind]
  unfold EStateM.bind
  cases hcreate : (limitOrderCreate (buybackOrder account sell buy)).run s with
  | error e t =>
      rw [hcreate] at hcreated
      exact hcreated
  | ok orderId t =>
      rw [hcreate] at hcreated
      exact hcreated.trans_le (ForwardCall.forward _ t)

theorem buybackAttempt_refused {account : AccountId} {sell : Asset} {buy : AssetId}
    (hrefused : ¬Accepts (buybackOrder account sell buy) s) :
    ∃ e, (buybackAttempt account sell buy).run s = .error e s := by
  cases haccept : (acceptOrder (buybackOrder account sell buy)).run s with
  | ok deferredFee t => exact absurd ((accepts_iff rfl).mpr ⟨deferredFee, t, haccept⟩) hrefused
  | error e t =>
      obtain rfl := acceptOrder_error rfl haccept
      refine ⟨e, ?_⟩
      unfold buybackAttempt limitOrderCreate
      rw [ForwardCall.bind_eq_error, ForwardCall.bind_eq_error]
      exact .inl (.inl haccept)

end MarketCall

/-! ## The loops -/

/-- A buyback account, the asset that it buys and those that it may hold. -/
structure Buyback where
  account : AccountId
  assetToBuy : AssetId
  allowedAssets : Finset AssetId

/-- Instances of object ids have 48 bits. -/
def instanceEnd : ℕ := 2 ^ 48

namespace Buyback

variable {b : Buyback} {s t : MarketState} {next assetToSell : AssetId}

/-- `lower_bound` among the balances of an account. -/
def nextAsset (b : Buyback) (next : AssetId) (s : MarketState) : Option AssetId :=
  ((s.balances.filter fun balance ↦ balance.owner = b.account ∧ next ≤ balance.assetType ∧
    balance.assetType < instanceEnd).map (·.assetType)).min?

theorem le_of_nextAsset (h : b.nextAsset next s = some assetToSell) :
    next ≤ assetToSell ∧ assetToSell < instanceEnd := by
  have hmem := List.min?_mem h
  obtain ⟨balance, hbalance, rfl⟩ := List.mem_map.mp hmem
  simp only [List.mem_filter, decide_eq_true_eq] at hbalance
  exact hbalance.2.2

/-- What is tried with a balance. -/
def attempt (b : Buyback) (assetToSell : AssetId) (s : MarketState) : MarketCall Unit :=
  MarketCall.buybackAttempt b.account (s.getBalance b.account assetToSell) b.assetToBuy

/-- One turn of the loop over the balances.  The handler swallows what the attempt throws. -/
def turn (b : Buyback) (assetToSell : AssetId) (s : MarketState) : MarketState :=
  if assetToSell = b.assetToBuy then s
  else if (s.getBalance b.account assetToSell).amount = 0 then s
  else if assetToSell ∉ b.allowedAssets then s
  else endState ((b.attempt assetToSell s).run s)

/-- The loop over the balances. -/
def sellBalances (b : Buyback) (next : AssetId) (s : MarketState) : MarketState :=
  match h : b.nextAsset next s with
  | none => s
  | some assetToSell => b.sellBalances (assetToSell + 1) (b.turn assetToSell s)
termination_by instanceEnd - next
decreasing_by
  obtain ⟨hle, hlt⟩ := le_of_nextAsset h
  exact Nat.sub_lt_sub_left (hle.trans_lt hlt) (Nat.lt_succ_of_le hle)

/-- The loop makes an attempt with the balance. -/
structure Offers (b : Buyback) (assetToSell : AssetId) (s : MarketState) : Prop where
  assets : assetToSell ≠ b.assetToBuy
  amount : (s.getBalance b.account assetToSell).amount ≠ 0
  lt : (s.getBalance b.account assetToSell).amount < shareEnd
  allowed : assetToSell ∈ b.allowedAssets

theorem turn_of_offers (h : b.Offers assetToSell s) :
    b.turn assetToSell s = endState ((b.attempt assetToSell s).run s) := by
  rw [turn, if_neg h.assets, if_neg h.amount, if_neg (not_not.mpr h.allowed)]

theorem sellBalances_of_next (h : b.nextAsset next s = some assetToSell) :
    b.sellBalances next s = b.sellBalances (assetToSell + 1) (b.turn assetToSell s) := by
  rw [sellBalances]
  split
  · next hnone => cases hnone.symm.trans h
  · next hsome => rw [Option.some.inj (hsome.symm.trans h)]

/-- An attempt that throws leaves the database as it was exactly if no attempt that throws was
accepted; the loop goes on with the next balance in any case. -/
theorem turn_restores_iff (h : b.Offers assetToSell s) :
    ((∀ e t, (b.attempt assetToSell s).run s = .error e t → b.turn assetToSell s = s) ↔
      (MarketCall.Accepts (MarketCall.buybackOrder b.account (s.getBalance b.account assetToSell)
        b.assetToBuy) s → ∀ e t, (b.attempt assetToSell s).run s ≠ .error e t)) ∧
    ∀ next e t, b.nextAsset next s = some assetToSell →
      (b.attempt assetToSell s).run s = .error e t →
        b.sellBalances next s = b.sellBalances (assetToSell + 1) t := by
  have hturn : ∀ e t, (b.attempt assetToSell s).run s = .error e t → b.turn assetToSell s = t :=
    fun e t hrun ↦ by rw [turn_of_offers h, hrun]; rfl
  refine ⟨⟨fun hrestores haccepts e t hrun ↦ ?_, fun hcompletes e t hrun ↦ ?_⟩,
    fun next e t hnext hrun ↦ by rw [sellBalances_of_next hnext, hturn e t hrun]⟩
  · have hsells : MarketCall.SellsAll (MarketCall.buybackOrder b.account
        (s.getBalance b.account assetToSell) b.assetToBuy) s := ⟨rfl, h.lt, h.assets⟩
    have hlt := MarketCall.buybackAttempt_accepted hsells haccepts
    rw [← attempt, ← turn_of_offers h, hrestores e t hrun] at hlt
    exact hlt.false
  · have hrefused := fun haccepts ↦ hcompletes haccepts e t hrun
    obtain ⟨e', hsame⟩ := MarketCall.buybackAttempt_refused hrefused
    exact hturn e' s hsame

/-- Account 7 buys back the market-issued asset 1 and has 100 CORE. -/
def market (shortBackingAsset : AssetId) (coreOptions : AssetOptions) : MarketState where
  balances := [⟨7, 0, 100⟩]
  accounts := ⟨8, [(3, {}), (7, { allowedAssets := some {0, 1} })], by simp, by simp⟩
  assets := ⟨2, [(0, { options := coreOptions }), (1, {
    issuer := 3
    buybackAccount := some 7
    bitassetData := some {
      options := { shortBackingAsset }
      currentFeed := { settlementPrice := ⟨⟨1, 1⟩, ⟨1, 0⟩⟩ } } })],
    by simp, by simp [-Order.lt_two_iff]⟩
  headBlockTime := hardforkCore216Time + 1

def buyer : Buyback := ⟨7, 1, {0, 1}⟩

/-- CORE may not be traded for asset 1: the creation is refused. -/
theorem turn_restores_iff_refused :
    (∀ e t, (buyer.attempt 0 (market 1 { blacklistMarkets := {1} })).run
      (market 1 { blacklistMarkets := {1} }) = .error e t →
        buyer.turn 0 (market 1 { blacklistMarkets := {1} }) = market 1 { blacklistMarkets := {1} }) ∧
    ∃ e, (buyer.attempt 0 (market 1 { blacklistMarkets := {1} })).result
      (market 1 { blacklistMarkets := {1} }) = .error e := by
  refine ⟨(turn_restores_iff ⟨by decide, by decide, by decide, by decide⟩).1.mpr fun h ↦ ?_, ?_⟩
  · exact absurd h.evaluated (by decide +kernel)
  · exact ⟨_, rfl⟩

/-- Asset 1 is backed by itself, and the check of its call orders throws: the 100 CORE have been
taken, and the order that was to be cancelled stays. -/
theorem turn_leaves_order : (∃ e t, (buyer.attempt 0 (market 1 {})).run (market 1 {}) = .error e t) ∧
    (buyer.turn 0 (market 1 {})).getBalance 7 0 = ⟨0, 0⟩ ∧
    (buyer.turn 0 (market 1 {})).limitOrders.find 0 ≠ none ∧
    buyer.turn 0 (market 1 {}) ≠ market 1 {} := by
  have hbalance : (buyer.turn 0 (market 1 {})).getBalance 7 0 = ⟨0, 0⟩ := by decide +kernel
  refine ⟨⟨_, ForwardCall.result_eq_error.mp rfl⟩, hbalance, by decide +kernel, fun h ↦ ?_⟩
  rw [h] at hbalance
  cases hbalance

end Buyback

/-- The loop over the buyback objects, given by the assets to buy. -/
def createBuybackOrders : List AssetId → MarketState → Checked MarketState
  | [], s => return s
  | assetToBuy :: buybacks, s => do
    let asset ← get (s.assets.find assetToBuy)
    let account ← deref asset.buybackAccount
    let buybackAccount ← get (s.accounts.find account)
    match buybackAccount.allowedAssets with
    | none => createBuybackOrders buybacks s
    | some allowedAssets =>
        createBuybackOrders buybacks (Buyback.sellBalances { account, assetToBuy, allowedAssets } 0 s)

end KarmaCore.Market
