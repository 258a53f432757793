import Mathlib
import KarmaCore.Market.MarketCall

/-!
# What returning calls do

A call that returns leaves the state that the function of the same name computes,
and it throws where that function does.
-/

namespace KarmaCore.Market.MarketCall

open Transfer (get)
open ForwardCall (read check write result_bind result_check result_ite result_pure result_read)
open MarketState (MarginMatch MarginTurn highestBid marginAmounts matchedAmounts seizedCollateral)

variable {s : MarketState} {id : ℕ} {pays receives : Asset} {price : Price}

/-! ## Single writes -/

@[simp] theorem result_modifyStatistics {f : AccountStatistics → Checked AccountStatistics} :
    (modifyStatistics id f).result s = do return ((), ← s.modifyStatistics id f) := result_update

@[simp] theorem result_modifyDynamicData {f : AssetDynamicData → Checked AssetDynamicData} :
    (modifyDynamicData id f).result s = do return ((), ← s.modifyDynamicData id f) := result_update

@[simp] theorem result_modifyBitassetData {f : AssetBitassetData → Checked AssetBitassetData} :
    (modifyBitassetData id f).result s = do return ((), ← s.modifyBitassetData id f) := result_update

@[simp] theorem result_adjustBalance {delta : Asset} :
    (adjustBalance id delta).result s = do return ((), ← s.adjustBalance id delta) := result_update

@[simp] theorem result_createLimitOrder {order : LimitOrderObject} : (createLimitOrder order).result s =
    pure ((), { s with limitOrders := s.limitOrders.create order }) := result_update

@[simp] theorem result_setLimitOrder {order : LimitOrderObject} : (setLimitOrder id order).result s =
    pure ((), { s with limitOrders := s.limitOrders.set id order }) := result_update

@[simp] theorem result_removeLimitOrder : (removeLimitOrder id).result s =
    pure ((), { s with limitOrders := s.limitOrders.remove id }) := result_update

@[simp] theorem result_setCallOrder {order : CallOrderObject} : (setCallOrder id order).result s =
    pure ((), { s with callOrders := s.callOrders.set id order }) := result_update

@[simp] theorem result_removeCallOrder : (removeCallOrder id).result s =
    pure ((), { s with callOrders := s.callOrders.remove id }) := result_update

@[simp] theorem result_pushAppliedOperation {op : FillOrderOperation} :
    (pushAppliedOperation op).result s = pure ((), s.pushAppliedOperation op) := result_update

@[simp] theorem result_payMarketFees :
    (payMarketFees id receives).result s = s.payMarketFees id receives := ForwardCall.result_write

@[simp] theorem ok_bind {α β : Type} {a : α} {f : α → Checked β} : (.ok a >>= f) = f a := rfl

theorem ite_bind {α β : Type} {condition : Prop} [Decidable condition] {x y : Checked α}
    {f : α → Checked β} :
    ((if condition then x else y) >>= f) = if condition then x >>= f else y >>= f := by
  split_ifs <;> rfl

theorem result_whenever {condition : Prop} [Decidable condition] {x : MarketCall Unit}
    {f : MarketState → Checked MarketState} (h : x.result s = do return ((), ← f s)) :
    (whenever condition x).result s = do return ((), ← KarmaCore.whenever condition f s) := by
  unfold whenever KarmaCore.whenever
  split_ifs
  · exact h
  · rfl

/-! ## Filling and cancelling -/

@[simp] theorem result_payOrder : (payOrder id receives pays).result s =
    do return ((), ← s.payOrder id receives pays) := by
  simp [-bind_pure_comp, payOrder, MarketState.payOrder]

@[simp] theorem result_cancelLimitOrder :
    (cancelLimitOrder id).result s = do return ((), ← s.cancelLimitOrder id) := by
  simp [-bind_pure_comp, cancelLimitOrder, MarketState.cancelLimitOrder]

@[simp] theorem result_maybeCullSmallOrder :
    (maybeCullSmallOrder id).result s = s.maybeCullSmallOrder id := by
  simp [-bind_pure_comp, maybeCullSmallOrder, MarketState.maybeCullSmallOrder]

@[simp] theorem result_reduceLimitOrder {order : LimitOrderObject} {cull : Bool} :
    (reduceLimitOrder id order pays cull).result s = s.reduceLimitOrder id order pays cull := by
  simp [-bind_pure_comp, reduceLimitOrder, MarketState.reduceLimitOrder]

@[simp] theorem result_fillLimitOrder {cull isMaker : Bool} :
    (fillLimitOrder id pays receives cull price isMaker).result s =
      s.fillLimitOrder id pays receives cull price isMaker := by
  have hfee : ∀ (order : LimitOrderObject) (s : MarketState), (whenever (0 < order.deferredFee) (do
      let s ← read
      modifyStatistics order.seller
        (·.payFee order.deferredFee s.parameters.cashbackVestingThreshold))).result s =
      do return ((), ← KarmaCore.whenever (0 < order.deferredFee) (MarketState.modifyStatistics
        order.seller (·.payFee order.deferredFee s.parameters.cashbackVestingThreshold)) s) :=
    fun order s ↦ result_whenever (by simp [-bind_pure_comp])
  simp [-bind_pure_comp, fillLimitOrder, MarketState.fillLimitOrder, hfee]

@[simp] theorem result_payBorrower {freed : Option Asset} :
    (payBorrower id freed).result s = do return ((), ← s.payBorrower id freed) := by
  cases freed <;> simp [-bind_pure_comp, payBorrower, MarketState.payBorrower]

@[simp] theorem result_fillCallOrder {isMaker : Bool} :
    (fillCallOrder id pays receives price isMaker).result s =
      s.fillCallOrder id pays receives price isMaker := by
  have hpay : ∀ (order : CallOrderObject) (freed : Option Asset) (s : MarketState),
      (whenever (freed.isSome ∨ pays.assetId = coreAsset) (do
        payBorrower order.borrower freed
        modifyStatistics order.borrower fun b ↦ do
          let b ← b.freeCollateral freed
          b.leaveOrders pays)).result s =
      do return ((), ← KarmaCore.whenever (freed.isSome ∨ pays.assetId = coreAsset) (fun s ↦ do
        let s ← s.payBorrower order.borrower freed
        s.modifyStatistics order.borrower fun b ↦ do
          let b ← b.freeCollateral freed
          b.leaveOrders pays) s) :=
    fun order freed s ↦ result_whenever (by simp [-bind_pure_comp])
  simp only [fillCallOrder, MarketState.fillCallOrder, result_bind, result_read, result_check, result_ite,
    result_pure, result_setCallOrder, result_removeCallOrder, result_modifyDynamicData,
    result_pushAppliedOperation, hpay, bind_assoc, pure_bind]

@[simp] theorem result_matchLimitOrders {core : ℕ} :
    (matchLimitOrders id core price).result s = s.matchLimitOrders id core price := by
  simp [-bind_pure_comp, matchLimitOrders, MarketState.matchLimitOrders]

/-! ## Margin calls -/

@[simp] theorem result_closeCallOrders {calls : List ℕ} {gathered : Asset} :
    (closeCallOrders price calls gathered).result s = s.closeCallOrders price calls gathered := by
  induction calls generalizing gathered s with
  | nil => rfl
  | cons call calls ih =>
      simp [-bind_pure_comp, closeCallOrders, MarketState.closeCallOrders, ih]

@[simp] theorem result_globallySettleAsset :
    (globallySettleAsset id price).result s = do return ((), ← s.globallySettleAsset id price) := by
  simp [-bind_pure_comp, globallySettleAsset, MarketState.globallySettleAsset]

@[simp] theorem result_checkLeastCollateral {bitasset : AssetBitassetData} {swan : Bool} :
    (checkLeastCollateral id bitasset swan).result s = s.checkLeastCollateral id bitasset swan := by
  simp only [checkLeastCollateral, MarketState.checkLeastCollateral, result_bind, result_read,
    result_check, bind_assoc, pure_bind]
  refine bind_congr fun highest ↦ bind_congr fun lowest ↦ bind_congr fun callMin ↦
    bind_congr fun callMax ↦ ?_
  cases s.callsBetween callMin callMax with
  | nil => rfl
  | cons call calls =>
      simp only [result_bind, result_check, result_ite, result_pure, result_globallySettleAsset,
        bind_assoc, pure_bind]

@[simp] theorem result_checkForBlackswan {swan : Bool} :
    (checkForBlackswan id swan).result s = s.checkForBlackswan id swan := by
  simp [-bind_pure_comp, checkForBlackswan, MarketState.checkForBlackswan]

/-- A turn and the state after it. -/
def Turn.ofMargin : MarginTurn → Turn × MarketState
  | .stop marginCalled s => (.stop marginCalled, s)
  | .filled m s => (.filled m, s)

@[simp] theorem result_marginCall {swan forNew called : Bool} {call limit : ℕ} :
    (marginCall id price swan forNew called call limit).result s =
      do return Turn.ofMargin (← s.marginCall id price swan forNew called call limit) := by
  simp only [marginCall, MarketState.marginCall, result_bind, result_read, result_check, result_ite,
    result_pure, result_fillCallOrder, result_fillLimitOrder, result_globallySettleAsset, Turn.ofMargin,
    ite_bind, bind_assoc, pure_bind]

theorem result_andThen {next : Bool → List ℕ → MarketCall Bool} {again : Bool → MarketCall Bool}
    {next' : Bool → List ℕ → MarketState → Checked (Bool × MarketState)}
    {again' : Bool → MarketState → Checked (Bool × MarketState)}
    (hnext : ∀ b l s, (next b l).result s = next' b l s) (hagain : ∀ b s, (again b).result s = again' b s)
    {filledLimit : Bool} {limit : ℕ} {limits : List ℕ} (turn : MarginTurn) :
    ((Turn.ofMargin turn).1.andThen next again filledLimit limit limits).result
        (Turn.ofMargin turn).2 = turn.andThen next' again' filledLimit limit limits := by
  cases turn with
  | stop called s => rfl
  | filled m s => simp [Turn.ofMargin, Turn.andThen, MarginTurn.andThen, hnext, hagain]

theorem result_marginCallOrder {swan forNew : Bool} {call : ℕ} {next : Bool → List ℕ → MarketCall Bool}
    {next' : Bool → List ℕ → MarketState → Checked (Bool × MarketState)}
    (hnext : ∀ b l s, (next b l).result s = next' b l s) {limits : List ℕ} {called filledLimit : Bool} :
    (marginCallOrder id price swan forNew call next limits called filledLimit).result s =
      MarketState.marginCallOrder id price swan forNew call next' limits called filledLimit s := by
  induction limits generalizing called filledLimit s with
  | nil => simp [-bind_pure_comp, marginCallOrder, MarketState.marginCallOrder]
  | cons limit limits ih =>
      simp only [marginCallOrder, MarketState.marginCallOrder, result_bind, result_checkForBlackswan,
        result_ite, result_pure, result_marginCall, bind_assoc, pure_bind]
      simp only [result_andThen hnext fun _ _ ↦ ih]

@[simp] theorem result_marginCallLoop {swan forNew : Bool} {calls limits : List ℕ}
    {called filledLimit : Bool} :
    (marginCallLoop id price swan forNew calls limits called filledLimit).result s =
      MarketState.marginCallLoop id price swan forNew calls limits called filledLimit s := by
  induction calls generalizing limits called filledLimit s with
  | nil => simp [-bind_pure_comp, marginCallLoop, MarketState.marginCallLoop]
  | cons call calls ih => exact result_marginCallOrder fun _ _ _ ↦ ih

@[simp] theorem result_callMargins {swan forNew : Bool} :
    (callMargins id swan forNew).result s = s.callMargins id swan forNew := by
  simp only [callMargins, MarketState.callMargins, result_bind, result_read, result_check, result_ite,
    result_pure, result_marginCallLoop, bind_assoc, pure_bind]

@[simp] theorem result_checkCallOrders {swan forNew : Bool} :
    (checkCallOrders id swan forNew).result s = s.checkCallOrders id swan forNew := by
  simp only [checkCallOrders, MarketState.checkCallOrders, result_bind, result_read, result_check,
    result_ite, result_pure, result_checkForBlackswan, result_callMargins, bind_assoc, pure_bind]

/-! ## A new limit order -/

@[simp] theorem result_matchOldOrders {olds : List ℕ} :
    (matchOldOrders id olds).result s = do return ((), ← s.matchOldOrders id olds) := by
  induction olds generalizing s with
  | nil => rfl
  | cons old olds ih =>
      simp only [matchOldOrders, MarketState.matchOldOrders, result_bind, result_read, result_check,
        result_ite, result_pure, result_matchLimitOrders, ih, ite_bind, bind_assoc, pure_bind]

@[simp] theorem result_matchNewOrder {swan : Bool} :
    (matchNewOrder id price swan).result s = s.matchNewOrder id price swan := by
  simp only [matchNewOrder, MarketState.matchNewOrder, result_bind, result_read, result_check, result_ite,
    result_pure, result_matchOldOrders, result_checkCallOrders, result_maybeCullSmallOrder, bind_assoc,
    pure_bind]

@[simp] theorem result_applyOrder {swan : Bool} :
    (applyOrder id swan).result s = s.applyOrder id swan := by
  simp only [applyOrder, MarketState.applyOrder, result_bind, result_read, result_check, result_ite,
    result_pure, result_checkCallOrders, result_matchNewOrder, bind_assoc, pure_bind]

end KarmaCore.Market.MarketCall
