import Mathlib
import KarmaCore.Market.Trade

/-!
# Fills and cancellations are trades

A fill enters in the books what an order receives less what it pays, whatever
market fees, deferred fees and statistics it moves on the way.  A cancellation
enters nothing.
-/

namespace KarmaCore.Market

open Transfer (get get_eq_ok)
open Books ObjectIndex

/-! ## Statistics -/

namespace AccountStatistics

variable {b b' : AccountStatistics} {amount : Asset} (acct : AccountId)

theorem books_of_totalCoreInOrders {x : ℤ} : ({ b with totalCoreInOrders := x } :
    AccountStatistics).books acct = b.books acct + counted acct (x - b.totalCoreInOrders) := by
  simp only [books, map_sub]
  abel

theorem leaveOrders_books (h : b.leaveOrders amount = .ok b') :
    b'.books acct = b.books acct + -inOrders acct amount.assetId amount.amount := by
  rcases whenever_eq_ok.mp h with ⟨hcore, h⟩ | ⟨hne, rfl⟩
  · simp only [Checked.bind_eq_ok, Checked.pure_eq_ok, checkedShare_eq_ok] at h
    obtain ⟨_, ⟨-, rfl⟩, rfl⟩ := h
    rw [books_of_totalCoreInOrders, hcore, inOrders_core, sub_sub_cancel_left, map_neg]
  · simp [inOrders_of_ne hne]

theorem enterOrders_books (h : b.enterOrders amount = .ok b') :
    b'.books acct = b.books acct + inOrders acct amount.assetId amount.amount := by
  rcases whenever_eq_ok.mp h with ⟨hcore, h⟩ | ⟨hne, rfl⟩
  · simp only [Checked.bind_eq_ok, Checked.pure_eq_ok, checkedShare_eq_ok] at h
    obtain ⟨_, ⟨-, rfl⟩, rfl⟩ := h
    rw [books_of_totalCoreInOrders, hcore, inOrders_core, add_sub_cancel_left]
  · simp [inOrders_of_ne hne]

theorem freeCollateral_books {freed : Asset} (h : b.freeCollateral (some freed) = .ok b') :
    b'.books acct = b.books acct + -counted acct (max freed.amount 0) := by
  simp only [freeCollateral, whenever_eq_ok] at h
  rcases h with ⟨hpos, h⟩ | ⟨hpos, rfl⟩
  · simp only [Checked.bind_eq_ok, Checked.pure_eq_ok, checkedShare_eq_ok] at h
    obtain ⟨_, ⟨-, rfl⟩, rfl⟩ := h
    rw [books_of_totalCoreInOrders, max_eq_left hpos.le, sub_sub_cancel_left, map_neg]
  · rw [max_eq_right (not_lt.mp hpos)]
    simp

theorem payFee_books {coreFee threshold : ℤ} (h : b.payFee coreFee threshold = .ok b') :
    b'.books acct = b.books acct + held coreAsset coreFee := by
  unfold payFee at h
  split_ifs at h <;>
  · simp only [Checked.bind_eq_ok, Checked.pure_eq_ok, checkedShare_eq_ok] at h
    obtain ⟨_, ⟨-, rfl⟩, rfl⟩ := h
    simp only [books, map_add]
    abel

end AccountStatistics

/-! ## Payments -/

theorem AssetObject.calculateMarketFee_nonneg {a : AssetObject} {id : AssetId} {receives : Asset}
    (h : 0 ≤ a.options.maxMarketFee) : 0 ≤ (a.calculateMarketFee id receives).amount := by
  have hpercent : 0 ≤ mul128 receives.amount a.options.marketFeePercent / percent100 :=
    Int.ediv_nonneg (mul128_nonneg _ _) (Int.natCast_nonneg _)
  unfold calculateMarketFee
  split_ifs
  · simp
  · dsimp only
    split_ifs
    exacts [h, hpercent]
  · simp

theorem AssetObject.calculateMarketFee_assetId (a : AssetObject) (id : AssetId) (receives : Asset) :
    (a.calculateMarketFee id receives).assetId = id := by
  unfold calculateMarketFee
  split_ifs <;> rfl

theorem CallOrderObject.part_getDebt (c : CallOrderObject) (key : AssetId) :
    c.getDebt.part key = if key = c.debtType then c.debt else 0 := by
  simp only [Asset.part, CallOrderObject.getDebt]
  grind

namespace MarketState

/-- No asset gives a market fee back. -/
def FeesNonneg (s : MarketState) : Prop :=
  ∀ id a, s.assets.find id = some a → 0 ≤ a.options.maxMarketFee

variable {s s' : MarketState} {acct : AccountId} {pays receives fees : Asset} {id : ℕ}
  {filled : Bool}

theorem payment_of_payMarketFees {recvAsset : AssetId} (hs : s.FeesNonneg)
    (h : s.payMarketFees recvAsset receives = .ok (fees, s')) :
    fees.assetId = recvAsset ∧ Payment (held recvAsset fees.amount) s s' := by
  simp only [payMarketFees, Checked.bind_eq_ok, Checked.pure_eq_ok, get_eq_ok] at h
  obtain ⟨a, ha, s₁, hpay, heq⟩ := h
  obtain ⟨rfl, rfl⟩ := Prod.mk.inj heq
  have hnonneg : 0 ≤ (a.calculateMarketFee recvAsset receives).amount :=
    AssetObject.calculateMarketFee_nonneg (hs _ a ha)
  set fee := a.calculateMarketFee recvAsset receives
  refine ⟨a.calculateMarketFee_assetId _ _, payment_of_whenever (fun s' hpos h ↦ ?_) (fun hpos ↦ ?_)
    hpay⟩
  · refine payment_of_modifyDynamicData h fun a' d _ hd ↦ ?_
    simp only [Checked.bind_eq_ok, Checked.pure_eq_ok, checkedShare_eq_ok] at hd
    obtain ⟨_, ⟨-, rfl⟩, rfl⟩ := hd
    refine ⟨rfl, fun hold ↦ add_nonneg hold hnonneg, fun _ ↦ rfl, ?_⟩
    simp only [AssetDynamicData.books, map_add, map_sub]
    abel
  · rw [le_antisymm (not_lt.mp hpos) hnonneg, map_zero]

theorem payment_of_payOrder (h : s.payOrder acct receives pays = .ok s') :
    Payment (held receives.assetId receives.amount - inOrders acct pays.assetId pays.amount) s s' := by
  simp only [payOrder, Checked.bind_eq_ok] at h
  obtain ⟨s₁, hstats, hbalance⟩ := h
  refine ((payment_of_modifyStatistics (fun b b' hb ↦ ?_) hstats).trans
    (payment_of_adjustBalance hbalance)).congr (neg_add_eq_sub _ _)
  exact AccountStatistics.leaveOrders_books acct hb

theorem payment_of_payFee {coreFee : ℤ} (h : s.payFee acct coreFee = .ok s') :
    Payment (held coreAsset coreFee) s s' :=
  payment_of_modifyStatistics (fun _ _ hb ↦ AccountStatistics.payFee_books acct hb) h

/-! ## Cancelling -/

/-- What is known of the limit orders once one of them was taken out or reduced. -/
structure LimitTrade (id : ℕ) (gone : Prop) (d : Books) (s s' : MarketState) : Prop
    extends Trade d s s' where
  find_self : gone → s'.limitOrders.find id = none
  find_other : ∀ key, key ≠ id → s'.limitOrders.find key = s.limitOrders.find key

theorem trade_of_cancelLimitOrder (h : s.cancelLimitOrder id = .ok s') :
    LimitTrade id True 0 s s' := by
  simp only [cancelLimitOrder, Checked.bind_eq_ok, Checked.pure_eq_ok, deref_eq_ok] at h
  obtain ⟨o, ho, s₁, hstats, s₂, hrefund, s₃, hfee, rfl⟩ := h
  have hpaid := ((payment_of_modifyStatistics
    (fun b b' hb ↦ AccountStatistics.leaveOrders_books o.seller hb) hstats).trans
    (payment_of_adjustBalance hrefund)).trans (payment_of_adjustBalance hfee)
  have ho' : s₃.limitOrders.find id = some o := hpaid.limitOrders ▸ ho
  refine ⟨(hpaid.toTrade.trans (trade_of_removeLimitOrder ho')).congr ?_, fun _ ↦ ?_,
    fun key hkey ↦ ?_⟩
  · simp only [LimitOrderObject.books, LimitOrderObject.amountForSale]
    abel
  · simp [find_remove]
  · simp [find_remove, hkey, hpaid.limitOrders]

theorem trade_of_cancelSettlement (h : s.cancelSettlement id = .ok s') : Trade 0 s s' := by
  simp only [cancelSettlement, Checked.bind_eq_ok, Checked.pure_eq_ok, deref_eq_ok] at h
  obtain ⟨o, ho, s₁, hbalance, rfl⟩ := h
  have hpaid := payment_of_adjustBalance hbalance
  have ho' : s₁.forceSettlements.find id = some o := hpaid.forceSettlements ▸ ho
  exact (hpaid.toTrade.trans (trade_of_removeSettlement ho')).congr (add_neg_cancel _)

theorem trade_of_cancelBid (h : s.cancelBid id = .ok s') :
    Trade 0 s s' ∧ s'.collateralBids = s.collateralBids.remove id := by
  simp only [cancelBid, Checked.bind_eq_ok, Checked.pure_eq_ok, deref_eq_ok] at h
  obtain ⟨b, hb, s₁, hbalance, rfl⟩ := h
  have hpaid := payment_of_adjustBalance hbalance
  have hb' : s₁.collateralBids.find id = some b := hpaid.collateralBids ▸ hb
  refine ⟨(hpaid.toTrade.trans (trade_of_removeBid hb')).congr (add_neg_cancel _), ?_⟩
  dsimp only
  rw [hpaid.collateralBids]

theorem trade_of_maybeCullSmallOrder (h : s.maybeCullSmallOrder id = .ok (filled, s')) :
    LimitTrade id (filled = true) 0 s s' := by
  simp only [maybeCullSmallOrder, Checked.bind_eq_ok] at h
  obtain ⟨o, -, toReceive, -, h⟩ := h
  split_ifs at h with hzero
  · simp only [Checked.bind_eq_ok, Checked.pure_eq_ok] at h
    obtain ⟨s₁, hcancel, heq⟩ := h
    obtain ⟨-, rfl⟩ := Prod.mk.inj heq
    have hcancelled := trade_of_cancelLimitOrder hcancel
    exact ⟨hcancelled.toTrade, fun _ ↦ hcancelled.find_self trivial, hcancelled.find_other⟩
  · obtain ⟨rfl, rfl⟩ := Prod.mk.inj (Checked.pure_eq_ok.mp h)
    exact ⟨.refl _, by simp, fun _ _ ↦ rfl⟩

/-! ## Filling a limit order -/

theorem trade_of_reduceLimitOrder {o : LimitOrderObject} {cull : Bool}
    (ho : s.limitOrders.find id = some o) (hasset : o.amountForSale.assetId = pays.assetId)
    (hpays : 0 ≤ pays.amount) (hle : pays.amount ≤ o.forSale)
    (h : s.reduceLimitOrder id o pays cull = .ok (filled, s')) :
    LimitTrade id (filled = true) (inOrders o.seller pays.assetId pays.amount -
      held pays.assetId pays.amount - held coreAsset o.deferredFee) s s' ∧
    (pays = o.amountForSale → filled = true) := by
  unfold reduceLimitOrder at h
  split_ifs at h with hall hcull
  · obtain ⟨rfl, rfl⟩ := Prod.mk.inj (Checked.pure_eq_ok.mp h)
    refine ⟨⟨(trade_of_removeLimitOrder ho).congr ?_, fun _ ↦ by simp [find_remove],
      fun key hkey ↦ by simp [find_remove, hkey]⟩, fun _ ↦ rfl⟩
    rw [hall]
    simp only [LimitOrderObject.books, LimitOrderObject.amountForSale]
    abel
  all_goals
    have hlt : pays.amount < o.forSale := by
      refine lt_of_le_of_ne hle fun heq ↦ hall ?_
      exact congrArg₂ Asset.mk heq hasset.symm
    simp only [Checked.bind_eq_ok, checkedShare_eq_ok] at h
    obtain ⟨_, ⟨-, rfl⟩, h⟩ := h
    have hred : o.Reduces { o with forSale := o.forSale - pays.amount, deferredFee := 0 } :=
      ⟨rfl, by simpa using hpays, fun _ ↦ sub_pos.mpr hlt, fun _ ↦ le_rfl⟩
    have hset := trade_of_setLimitOrder ho hred
    have hset' : Trade (inOrders o.seller pays.assetId pays.amount -
        held pays.assetId pays.amount - held coreAsset o.deferredFee) s _ := hset.congr (by
      simp only [LimitOrderObject.amountForSale] at hasset
      simp only [LimitOrderObject.books, hasset, map_sub, map_zero]
      abel)
  · have hculled := trade_of_maybeCullSmallOrder h
    refine ⟨⟨(hset'.trans hculled.toTrade).congr (add_zero _), hculled.find_self,
      fun key hkey ↦ ?_⟩, fun heq ↦ absurd heq hall⟩
    rw [hculled.find_other key hkey]
    simp [find_set ho, hkey]
  · obtain ⟨rfl, rfl⟩ := Prod.mk.inj (Checked.pure_eq_ok.mp h)
    exact ⟨⟨hset', by simp, fun key hkey ↦ by simp [find_set ho, hkey]⟩, fun heq ↦ absurd heq hall⟩

theorem trade_of_fillLimitOrder {cull maker : Bool} {price : Price} (hs : s.FeesNonneg)
    (hpays : ∀ o, s.limitOrders.find id = some o →
      0 ≤ o.deferredFee ∧ 0 ≤ pays.amount ∧ pays.amount ≤ o.forSale)
    (h : s.fillLimitOrder id pays receives cull price maker = .ok (filled, s')) :
    LimitTrade id (filled = true)
      (held receives.assetId receives.amount - held pays.assetId pays.amount) s s' ∧
    ∀ o, s.limitOrders.find id = some o → pays = o.amountForSale → filled = true := by
  simp only [fillLimitOrder, Checked.bind_eq_ok, deref_eq_ok, require_eq_ok, get_eq_ok] at h
  obtain ⟨o, ho, -, hasset, -, -, -, -, ⟨fees, s₁⟩, hfees, net, hnet, s₂, hpay, s₃, hdeferred,
    h⟩ := h
  obtain ⟨hdeferred0, hpays0, hle⟩ := hpays o ho
  obtain ⟨hfeesAsset, hfeesPaid⟩ := payment_of_payMarketFees hs hfees
  have hdeferredPaid := payment_of_whenever (d := held coreAsset o.deferredFee)
    (fun s' _ h ↦ payment_of_modifyStatistics
      (fun _ _ hb ↦ AccountStatistics.payFee_books o.seller hb) h)
    (fun hpos ↦ by rw [le_antisymm (not_lt.mp hpos) hdeferred0, map_zero]) hdeferred
  have hpaid := ((hfeesPaid.trans (payment_of_payOrder hpay)).trans
    (payment_of_pushAppliedOperation _ _)).trans hdeferredPaid
  have ho₃ : s₃.limitOrders.find id = some o := hpaid.limitOrders ▸ ho
  obtain ⟨hreduced, hall⟩ := trade_of_reduceLimitOrder ho₃ hasset hpays0 hle h
  refine ⟨⟨(hpaid.toTrade.trans hreduced.toTrade).congr ?_, hreduced.find_self,
    fun key hkey ↦ (hreduced.find_other key hkey).trans (by rw [hpaid.limitOrders])⟩,
    fun o' ho' heq ↦ hall ?_⟩
  · obtain ⟨hid, -, rfl⟩ := Asset.sub_eq_ok.mp hnet
    simp only [FillOrderOperation.stray, map_sub]
    rw [← hfeesAsset, ← hid]
    abel
  · rw [heq, Option.some.inj (ho.symm.trans ho')]

/-! ## Filling a call order -/

theorem payment_of_payBorrower {freed : Option Asset}
    (h : s.payBorrower acct freed = .ok s') :
    Payment (freed.elim 0 fun f ↦ held f.assetId f.amount) s s' := by
  cases freed with
  | none =>
      obtain rfl := Except.ok.inj h
      exact .refl s
  | some f => exact payment_of_adjustBalance h

theorem Payment.currentSupply {d : Books} (h : Payment d s s') {key : AssetId}
    (hkey : s.IsMarketIssued key) : s'.currentSupply key = s.currentSupply key := by
  have hdebt := h.frame.totalDebt key hkey
  have hsame : s'.totalDebt key = s.totalDebt key := by rw [totalDebt, totalDebt, h.callOrders]
  omega

section cover

variable {mia : AssetId} {a : AssetObject} {covered : ℤ} {d : Books}
  {ix ix' : ObjectIndex CallOrderObject}

/-- The asset with the supply that is left when some debt in it is covered. -/
def coveredAsset (covered : ℤ) (a : AssetObject) : AssetObject :=
  { a with dynamicData := { a.dynamicData with
    currentSupply := a.dynamicData.currentSupply - covered } }

theorem terms_setCovered (ha : s.assets.find mia = some a) (key : AssetId) :
    ((s.assets.set mia (coveredAsset covered a)).find key).map AssetObject.terms =
      (s.assets.find key).map AssetObject.terms := by
  rw [find_set ha]
  split_ifs with heq
  · rw [heq, ha]
    rfl
  · rfl

theorem currentSupply_of_cover (ha : s.assets.find mia = some a)
    (hpaid : Payment d { s with
      callOrders := ix, assets := s.assets.set mia (coveredAsset covered a) } s')
    {key : AssetId} (hkey : s.IsMarketIssued key) :
    s'.currentSupply key = s.currentSupply key - if key = mia then covered else 0 := by
  rw [hpaid.currentSupply (isMarketIssued_of_terms (terms_setCovered ha key) hkey),
    MarketState.currentSupply, find_set ha]
  split_ifs with heq
  · rw [heq, currentSupply_of_find ha]
    rfl
  · rw [sub_zero]
    rfl

/-- Covering debt is a frame when the debt and the supply fall together. -/
theorem frame_of_cover (ha : s.assets.find mia = some a) (hcovered : 0 ≤ covered)
    (hcalls : s.HasCallOrders mia)
    (hpaid : Payment d { s with
      callOrders := ix, assets := s.assets.set mia (coveredAsset covered a) } s')
    (hshrinks : s.callOrders.Shrinks CallOrderObject.Reduces ix')
    (hdebt : ∀ key, ix'.total (fun _ c ↦ c.getDebt.part key) =
      s.totalDebt key - if key = mia then covered else 0) :
    Frame s { s' with callOrders := ix' } where
  headBlockTime := hpaid.frame.headBlockTime
  accounts := hpaid.frame.accounts
  assets key := (hpaid.frame.assets key).trans (terms_setCovered ha key)
  accumulatedFees key hkey := hpaid.frame.accumulatedFees key <| by
    rw [MarketState.accumulatedFees, find_set ha]
    split_ifs with heq
    · subst heq
      rw [accumulatedFees_of_find ha] at hkey
      exact hkey
    · exact hkey
  currentSupply key hkey hnone := by
    have hne : key ≠ mia := by
      rintro rfl
      exact hnone hcalls
    change s'.currentSupply key = _
    rw [currentSupply_of_cover ha hpaid hkey, if_neg hne, sub_zero]
  totalDebt key hkey := by
    rw [totalDebt, hdebt key]
    change _ - s'.currentSupply key = _
    rw [currentSupply_of_cover ha hpaid hkey]
    omega
  supplyLe key hkey := by
    change s'.currentSupply key ≤ _
    rw [currentSupply_of_cover ha hpaid hkey]
    split_ifs <;> omega
  limitOrders := hpaid.frame.limitOrders
  callOrders := hshrinks
  forceSettlements := hpaid.frame.forceSettlements
  collateralBids := hpaid.frame.collateralBids
  vestingBalances := hpaid.frame.vestingBalances

end cover

/-- The payments of a fill to the borrower and out of the statistics. -/
theorem payment_of_settleBorrower {c : CallOrderObject} {freed : Option Asset}
    (hfreed : ∀ f ∈ freed, f = ⟨c.collateral - pays.amount, c.collateralType⟩)
    (hle : pays.amount ≤ c.collateral)
    (h : whenever (freed.isSome ∨ pays.assetId = coreAsset) (fun s ↦ do
      let s ← s.payBorrower c.borrower freed
      s.modifyStatistics c.borrower fun b ↦ do
        let b ← b.freeCollateral freed
        b.leaveOrders pays) s = .ok s') :
    Payment (freed.elim 0 (fun _ ↦ held c.collateralType (c.collateral - pays.amount) -
      counted c.borrower (c.collateral - pays.amount)) -
        inOrders c.borrower pays.assetId pays.amount) s s' := by
  refine payment_of_whenever (fun s' _ h ↦ ?_) (fun hno ↦ ?_) h
  · simp only [Checked.bind_eq_ok] at h
    obtain ⟨s₁, hborrower, hstats⟩ := h
    cases freed with
    | none =>
        refine ((payment_of_payBorrower hborrower).trans (payment_of_modifyStatistics
          (d := -inOrders c.borrower pays.assetId pays.amount) (fun b b' hb ↦ ?_) hstats)).congr ?_
        · simp only [AccountStatistics.freeCollateral, Checked.bind_eq_ok] at hb
          obtain ⟨b₁, hfree, hleave⟩ := hb
          obtain rfl := Except.ok.inj hfree
          exact AccountStatistics.leaveOrders_books _ hleave
        · simp
    | some f =>
        obtain rfl := hfreed f rfl
        refine ((payment_of_payBorrower hborrower).trans (payment_of_modifyStatistics
          (d := -counted c.borrower (c.collateral - pays.amount) +
            -inOrders c.borrower pays.assetId pays.amount) (fun b b' hb ↦ ?_) hstats)).congr ?_
        · simp only [Checked.bind_eq_ok] at hb
          obtain ⟨b₁, hfree, hleave⟩ := hb
          rw [AccountStatistics.leaveOrders_books _ hleave,
            AccountStatistics.freeCollateral_books _ hfree, max_eq_left (sub_nonneg.mpr hle),
            add_assoc]
        · simp only [Option.elim_some]
          abel
  · obtain ⟨hnone, hcore⟩ := not_or.mp hno
    rw [Option.not_isSome_iff_eq_none.mp hnone, inOrders_of_ne hcore]
    simp

/-- A call order after a fill, which takes all of the collateral out of a covered one. -/
def reducedCall (pays receives : Asset) (c : CallOrderObject) : CallOrderObject :=
  let debt := c.debt - receives.amount
  { c with debt, collateral := if debt = 0 then 0 else c.collateral - pays.amount }

/-- What a fill enters in the books beside the call order and the supply. -/
def fillEntry (pays receives : Asset) (c : CallOrderObject) : Books :=
  (if c.debt - receives.amount = 0 then held c.collateralType (c.collateral - pays.amount) -
    counted c.borrower (c.collateral - pays.amount) else 0) -
      inOrders c.borrower pays.assetId pays.amount +
  if c.collateralType ≠ coreAsset ∧ c.debt = receives.amount ∧ pays.amount < c.collateral then
    counted c.borrower (c.collateral - pays.amount) else 0

theorem fillCallOrder_cases {maker : Bool} {price : Price}
    (h : s.fillCallOrder id pays receives price maker = .ok (filled, s')) : ∃ c a t,
      s.callOrders.find id = some c ∧ c.debtType = receives.assetId ∧
      c.collateralType = pays.assetId ∧ pays.amount ≤ c.collateral ∧
      s.assets.find receives.assetId = some a ∧
      Payment (fillEntry pays receives c) { s with
        callOrders := s.callOrders.set id (reducedCall pays receives c)
        assets := s.assets.set receives.assetId (coveredAsset receives.amount a) } t ∧
      if c.debt - receives.amount = 0 then
        filled = true ∧ s' = { t with callOrders := t.callOrders.remove id }
      else filled = false ∧ s' = t := by
  simp only [fillCallOrder, Checked.bind_eq_ok, deref_eq_ok, require_eq_ok, get_eq_ok,
    checkedShare_eq_ok] at h
  obtain ⟨c, hc, -, hdebtType, -, hcollateralType, -, hbacked, _, ⟨-, rfl⟩, _, ⟨-, rfl⟩, s₁, hsupply,
    -, -, s₂, hborrower, h⟩ := h
  obtain ⟨a, x, ha, hx, rfl⟩ := modifyDynamicData_cases hsupply
  simp only [AssetDynamicData.subSupply, Checked.bind_eq_ok, Checked.pure_eq_ok,
    checkedShare_eq_ok] at hx
  obtain ⟨_, ⟨-, rfl⟩, rfl⟩ := hx
  have hpaid := (payment_of_settleBorrower (fun f hf ↦ by grind) hbacked hborrower).trans
    (payment_of_pushAppliedOperation
      ⟨id, .call c, pays, receives, ⟨0, pays.assetId⟩, price, maker⟩ s₂)
  refine ⟨c, a, _, hc, hdebtType, hcollateralType, hbacked, ha, hpaid.congr ?_, ?_⟩
  · simp only [fillEntry, FillOrderOperation.stray]
    congr 2
    split_ifs <;> rfl
  · split_ifs at h ⊢ with hclosed
    · obtain ⟨rfl, rfl⟩ := Prod.mk.inj (Checked.pure_eq_ok.mp h)
      exact ⟨rfl, rfl⟩
    · obtain ⟨rfl, rfl⟩ := Prod.mk.inj (Checked.pure_eq_ok.mp h)
      exact ⟨rfl, rfl⟩

theorem books_setCallOrders (ix : ObjectIndex CallOrderObject) :
    ({ s with callOrders := ix } : MarketState).books =
      s.books + (ix.total (fun _ c ↦ c.books) - s.callOrders.total fun _ c ↦ c.books) := by
  simp only [books]
  abel

theorem coveredAsset_books (a : AssetObject) (covered : ℤ) :
    (coveredAsset covered a).books id - a.books id = held id covered := by
  simp only [AssetObject.books, AssetObject.fund, coveredAsset, AssetDynamicData.books, map_add,
    map_sub]
  abel

theorem books_of_cover {a : AssetObject} {mia : AssetId} {covered : ℤ} {d : Books}
    {ix ix' : ObjectIndex CallOrderObject} (ha : s.assets.find mia = some a)
    (hpaid : Payment d { s with
      callOrders := ix, assets := s.assets.set mia (coveredAsset covered a) } s') :
    ({ s' with callOrders := ix' } : MarketState).books = s.books + (held mia covered + d +
      (ix'.total (fun _ c ↦ c.books) - s.callOrders.total fun _ c ↦ c.books)) := by
  rw [books_setCallOrders, hpaid.books, hpaid.callOrders]
  have hs : ({ s with callOrders := ix, assets := s.assets.set mia (coveredAsset covered a) } :
      MarketState) = { ({ s with assets := s.assets.set mia (coveredAsset covered a) } :
        MarketState) with callOrders := ix } := rfl
  rw [hs, books_setCallOrders, books_setAsset ha, coveredAsset_books]
  abel

/-- What is known once a call order was filled. -/
structure CallTrade (id : ℕ) (filled : Bool) (pays receives : Asset) (s s' : MarketState) : Prop
    extends Trade (held receives.assetId receives.amount - held pays.assetId pays.amount) s s' where
  currentSupply : s.IsMarketIssued receives.assetId →
    s'.currentSupply receives.assetId = s.currentSupply receives.assetId - receives.amount
  find_self : filled = true → s'.callOrders.find id = none
  limitOrders : s'.limitOrders = s.limitOrders
  forceSettlements : s'.forceSettlements = s.forceSettlements

theorem trade_of_fillCallOrder {maker : Bool} {price : Price} (hpays : 0 ≤ pays.amount)
    (hreceives : 0 ≤ receives.amount)
    (hle : ∀ c, s.callOrders.find id = some c → receives.amount ≤ c.debt)
    (h : s.fillCallOrder id pays receives price maker = .ok (filled, s')) :
    CallTrade id filled pays receives s s' := by
  obtain ⟨c, a, t, hc, hdebtType, hcollateralType, hbacked, ha, hpaid, hend⟩ :=
    fillCallOrder_cases h
  have hdebt := hle c hc
  have hcalls : s.HasCallOrders receives.assetId := ⟨id, c, hc, hdebtType⟩
  have hsupply : s.IsMarketIssued receives.assetId → t.currentSupply receives.assetId =
      s.currentSupply receives.assetId - receives.amount := fun hkey ↦ by
    rw [currentSupply_of_cover (s := s) ha hpaid hkey, if_pos rfl]
  have hset : t.callOrders = s.callOrders.set id (reducedCall pays receives c) := hpaid.callOrders
  have hpart : ∀ key, (reducedCall pays receives c).getDebt.part key =
      c.getDebt.part key - if key = receives.assetId then receives.amount else 0 := fun key ↦ by
    rw [CallOrderObject.part_getDebt, CallOrderObject.part_getDebt, ← hdebtType]
    change (if key = c.debtType then c.debt - receives.amount else 0) = _
    split_ifs <;> ring
  split_ifs at hend with hclosed
  · obtain ⟨rfl, rfl⟩ := hend
    rw [hset, remove_set]
    refine ⟨⟨?_, ?_⟩, hsupply, fun _ ↦ by simp [find_remove], hpaid.limitOrders,
      hpaid.forceSettlements⟩
    · rw [books_of_cover ha hpaid, total_remove hc]
      have hcovered : c.debt = receives.amount := sub_eq_zero.mp hclosed
      simp only [fillEntry, if_pos hclosed, CallOrderObject.books, ← hcollateralType]
      by_cases hcore : c.collateralType = coreAsset
      · simp only [hcore, inOrders_core, map_sub, ne_eq, not_true_eq_false, false_and, if_false]
        abel
      · have hfreed : (if c.collateralType ≠ coreAsset ∧ c.debt = receives.amount ∧
            pays.amount < c.collateral then counted c.borrower (c.collateral - pays.amount) else 0) =
              counted c.borrower (c.collateral - pays.amount) := by
          split_ifs with hstray
          · rfl
          · have heq : c.collateral - pays.amount = 0 := by
              have hnot : ¬pays.amount < c.collateral := fun hlt ↦ hstray ⟨hcore, hcovered, hlt⟩
              omega
            rw [heq, map_zero]
        rw [hfreed, inOrders_of_ne hcore]
        simp only [map_sub, AddMonoidHom.zero_apply]
        abel
    · refine frame_of_cover ha hreceives hcalls hpaid (shrinks_remove .refl _ _) fun key ↦ ?_
      rw [total_remove hc, totalDebt, CallOrderObject.part_getDebt, ← hdebtType]
      split_ifs <;> omega
  · obtain ⟨rfl, rfl⟩ := hend
    have hsame : s' = { s' with callOrders := s.callOrders.set id (reducedCall pays receives c) } := by
      rw [← hset]
    refine ⟨?_, hsupply, by simp, hpaid.limitOrders, hpaid.forceSettlements⟩
    rw [hsame]
    refine ⟨?_, ?_⟩
    · rw [books_of_cover ha hpaid, total_set hc]
      have hopen : ¬c.debt = receives.amount := fun heq ↦ hclosed (sub_eq_zero.mpr heq)
      have htype : (reducedCall pays receives c).collateralType = c.collateralType := rfl
      simp only [fillEntry, if_neg hclosed, CallOrderObject.books, ← hcollateralType, htype]
      simp only [reducedCall, if_neg hclosed, hopen, false_and, and_false, if_false, map_sub]
      abel
    · refine frame_of_cover ha hreceives hcalls hpaid (shrinks_set .refl hc ?_) fun key ↦ ?_
      · refine ⟨rfl, sub_le_self _ hreceives, fun _ ↦ ?_, ?_, ?_⟩
        · simp only [reducedCall]
          omega
        · simp only [reducedCall, if_neg hclosed]
          omega
        · simp only [reducedCall, if_neg hclosed]
          omega
      · rw [total_set hc, totalDebt, hpart key]
        ring

/-! ## Filling a force settlement -/

theorem trade_of_takeSettlement {o : ForceSettlementObject} {isPart : Bool}
    (ho : s.forceSettlements.find id = some o) (hpart : pays.lt o.balance = .ok isPart)
    (h : whenever (isPart = true) (fun s ↦ do
      let balance ← o.balance.sub pays
      return { s with forceSettlements := s.forceSettlements.set id { o with balance } }) s = .ok s') :
    Trade (if isPart then -held pays.assetId pays.amount else 0) s s' ∧
      (isPart = false → s' = s) := by
  obtain ⟨hasset, hlt⟩ := Asset.lt_eq_ok.mp hpart
  rcases whenever_eq_ok.mp h with ⟨hpart, h⟩ | ⟨hwhole, rfl⟩
  · simp only [Checked.bind_eq_ok, Checked.pure_eq_ok] at h
    obtain ⟨balance, hsub, rfl⟩ := h
    obtain ⟨-, -, rfl⟩ := Asset.sub_eq_ok.mp hsub
    subst hpart
    have hless : pays.amount < o.balance.amount := of_decide_eq_true hlt
    refine ⟨(trade_of_setSettlement ho ⟨rfl, fun _ ↦ ?_⟩).congr ?_, by simp⟩
    · dsimp only
      omega
    · simp only [hasset, map_sub, if_true]
      abel
  · rw [Bool.not_eq_true] at hwhole
    subst hwhole
    exact ⟨.refl _, fun _ ↦ rfl⟩

theorem trade_of_fillSettlement {maker : Bool} {price : Price} (hs : s.FeesNonneg)
    (hle : ∀ o, s.forceSettlements.find id = some o → pays.amount ≤ o.balance.amount)
    (h : s.fillSettlement id pays receives price maker = .ok (filled, s')) :
    Trade (held receives.assetId receives.amount - held pays.assetId pays.amount) s s' := by
  simp only [fillSettlement, Checked.bind_eq_ok, deref_eq_ok] at h
  obtain ⟨o, ho, ⟨fees, s₁⟩, hfees, isPart, hpart, s₂, htake, net, hnet, s₃, hpay, h⟩ := h
  obtain ⟨hfeesAsset, hfeesPaid⟩ := payment_of_payMarketFees hs hfees
  have ho₁ : s₁.forceSettlements.find id = some o := hfeesPaid.forceSettlements ▸ ho
  obtain ⟨htaken, hsame⟩ := trade_of_takeSettlement ho₁ hpart htake
  have hgiven := (payment_of_adjustBalance hpay).trans (payment_of_pushAppliedOperation
    ⟨id, .settlement o, pays, receives, fees, price, maker⟩ s₃)
  obtain ⟨hid, -, rfl⟩ := Asset.sub_eq_ok.mp hnet
  obtain ⟨hasset, hlt⟩ := Asset.lt_eq_ok.mp hpart
  have hfilled := (hfeesPaid.toTrade.trans htaken).trans hgiven.toTrade
  split_ifs at h with hisPart
  · obtain ⟨-, rfl⟩ := Prod.mk.inj (Checked.pure_eq_ok.mp h)
    refine hfilled.congr ?_
    simp only [hisPart, if_true, FillOrderOperation.stray, map_sub, ← hfeesAsset]
    abel
  · obtain ⟨-, rfl⟩ := Prod.mk.inj (Checked.pure_eq_ok.mp h)
    rw [Bool.not_eq_true] at hisPart
    subst hisPart
    obtain rfl := hsame rfl
    have ho₂ := hgiven.forceSettlements ▸ ho₁
    have hall : pays.amount = o.balance.amount :=
      le_antisymm (hle o ho) (not_lt.mp (of_decide_eq_false hlt))
    refine (hfilled.trans (trade_of_removeSettlement ho₂)).congr ?_
    simp only [Bool.false_eq_true, if_false, FillOrderOperation.stray, map_sub, ← hfeesAsset, hasset,
      hall]
    abel

end MarketState

end KarmaCore.Market
