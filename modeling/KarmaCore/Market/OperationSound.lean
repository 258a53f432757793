import Mathlib
import KarmaCore.Market.Redemption

/-!
# Operations keep the market sound

The fee of an operation and what its evaluator applies together add nothing to
the books.  What the evaluation of an operation checked is still there once its
fee was put aside.
-/

namespace KarmaCore.Market

open Transfer (get get_eq_ok)
open Books ObjectIndex

namespace MarketState

variable {s s' s'' : MarketState} {inHand : AssetId → Prop} {mia id : AssetId} {d d' : Books}

/-- A step that leaves the market sound and adds `d` to its books. -/
structure Adds (d : Books) (s s' : MarketState) : Prop where
  books : s'.books = s.books + d
  sound : s'.AllSound

theorem Adds.refl (hs : s.AllSound) : Adds 0 s s := ⟨(add_zero _).symm, hs⟩

theorem Adds.trans (h : Adds d s s') (h' : Adds d' s' s'') : Adds (d + d') s s'' :=
  ⟨by rw [h'.books, h.books, add_assoc], h'.sound⟩

theorem Adds.congr (h : Adds d s s') (hd : d = d') : Adds d' s s' := hd ▸ h

theorem Trade.adds (h : Trade d s s') (hs : s.AllSound) : Adds d s s' :=
  ⟨h.books, hs.of_frame h.frame⟩

theorem Upholds.adds (h : Upholds s s') : Adds 0 s s' := ⟨by rw [h.books, add_zero], h.sound⟩

/-! ## Fees -/

theorem prepareFee_spec {payer : AccountId} {fee : Asset} {coreFee : ℤ}
    (h : s.prepareFee payer fee = .ok coreFee) :
    0 ≤ fee.amount ∧ 0 ≤ coreFee ∧ (fee.assetId = coreAsset → coreFee = fee.amount) := by
  simp only [prepareFee, Checked.bind_eq_ok, require_eq_ok] at h
  obtain ⟨-, hfee, _, -, _, -, _, -, -, -, h⟩ := h
  split_ifs at h with hcore
  · obtain rfl := Checked.pure_eq_ok.mp h
    exact ⟨hfee, hfee, fun _ ↦ rfl⟩
  · simp only [Checked.bind_eq_ok, require_eq_ok, Checked.pure_eq_ok] at h
    obtain ⟨pool, hpool, -, -, -, -, rfl⟩ := h
    exact ⟨hfee, times_nonneg hpool, fun heq ↦ absurd heq hcore⟩

theorem payment_of_convertFee {fee : Asset} {coreFee : ℤ} (hfee : 0 ≤ fee.amount)
    (hcore : fee.assetId = coreAsset → coreFee = fee.amount)
    (h : s.convertFee fee coreFee = .ok s') :
    Payment (held fee.assetId fee.amount - held coreAsset coreFee) s s' := by
  refine payment_of_whenever (fun s' _ h ↦ ?_) (fun heq ↦ ?_) h
  · refine payment_of_modifyDynamicData h fun a x _ hx ↦ ?_
    simp only [Checked.bind_eq_ok, Checked.pure_eq_ok, checkedShare_eq_ok] at hx
    obtain ⟨_, ⟨-, rfl⟩, _, ⟨-, rfl⟩, rfl⟩ := hx
    refine ⟨rfl, fun hold ↦ add_nonneg hold hfee, fun _ ↦ rfl, ?_⟩
    simp only [AssetDynamicData.books, map_add, map_sub]
    abel
  · rw [not_not] at heq
    rw [hcore heq, heq, sub_self]

theorem payment_of_setFba {fba fba' : FbaAccumulatorObject}
    (hfba : s.fbaAccumulators.find id = some fba) :
    Payment (held coreAsset (fba'.accumulatedFbaFees - fba.accumulatedFbaFees)) s
      { s with fbaAccumulators := s.fbaAccumulators.set id fba' } := by
  refine ⟨⟨?_, { Frame.refl s with }⟩, rfl, rfl, rfl, rfl⟩
  simp only [books, total_set hfba, map_sub]
  abel

theorem payment_of_payFbaFee {payer : AccountId} {coreFee : ℤ}
    (h : s.payFbaFee id payer coreFee = .ok s') : Payment (held coreAsset coreFee) s s' := by
  simp only [payFbaFee, Checked.bind_eq_ok, get_eq_ok] at h
  obtain ⟨fba, hfba, h⟩ := h
  split_ifs at h
  · simp only [Checked.bind_eq_ok, Checked.pure_eq_ok, checkedShare_eq_ok] at h
    obtain ⟨_, ⟨-, rfl⟩, rfl⟩ := h
    exact (payment_of_setFba hfba).congr (by rw [add_sub_cancel_left])
  · exact payment_of_payFee h

end MarketState

/-- The part of the fee that the evaluator's `pay_fee` puts aside; the operation keeps the
rest of it in what it creates. -/
def MarketOperation.paidFee (coreFeePaid : ℤ) (s : MarketState) : MarketOperation → ℤ
  | limitOrderCreate _ => if s.headBlockTime ≤ hardfork445Time then coreFeePaid else 0
  | assetCreate _ => AssetCreateOperation.poolFee coreFeePaid
  | _ => coreFeePaid

namespace MarketState

variable {s s' t : MarketState} {mia id : AssetId} {d : Books} {coreFee : ℤ}

theorem payment_of_operationFee {op : MarketOperation} (h : op.payFee coreFee s = .ok s') :
    Payment (held coreAsset (op.paidFee coreFee s)) s s' := by
  cases op with
  | limitOrderCreate op =>
      simp only [MarketOperation.payFee, MarketOperation.paidFee] at h ⊢
      split_ifs at h ⊢
      · exact payment_of_payFee h
      · obtain rfl := Except.ok.inj h
        exact (Payment.refl s).congr (map_zero _).symm
  | feeOnly op =>
      simp only [MarketOperation.payFee] at h
      split at h
      · exact payment_of_payFbaFee h
      · exact payment_of_payFee h
  | _ => exact payment_of_payFee h

/-- What an operation finds of an asset after its fee was put aside. -/
theorem Payment.find_asset (h : Payment d s t) {a : AssetObject} (ha : s.assets.find id = some a) :
    ∃ a', t.assets.find id = some a' ∧ a'.terms = a.terms ∧
      (a.isMarketIssued → a'.dynamicData.currentSupply = a.dynamicData.currentSupply) := by
  obtain ⟨a', ha', hterms⟩ := h.frame.find_asset' ha
  refine ⟨a', ha', hterms, fun hmarket ↦ ?_⟩
  have hsupply := h.currentSupply ((isMarketIssued_of_find ha).mpr hmarket)
  rwa [currentSupply_of_find ha, currentSupply_of_find ha'] at hsupply

/-! ## Single writes -/

theorem BitassetSound.of_callOrders {supply : ℤ} {b : AssetBitassetData}
    (h : s.BitassetSound mia supply b) (hcalls : t.callOrders = s.callOrders) :
    t.BitassetSound mia supply b where
  supply_lt := h.supply_lt
  fund := h.fund
  debt hset := by
    rw [totalDebt, hcalls]
    exact h.debt hset
  solvent := h.solvent
  noCallOrders hset := by
    rw [HasCallOrders, hcalls]
    exact h.noCallOrders hset

theorem payment_of_addSupply {x : ℤ}
    (hid : ∀ a, s.assets.find id = some a → ¬a.isMarketIssued)
    (h : s.modifyDynamicData id (·.addSupply x) = .ok s') : Payment (-held id x) s s' := by
  refine payment_of_modifyDynamicData h fun a y ha hy ↦ ?_
  simp only [AssetDynamicData.addSupply, Checked.bind_eq_ok, Checked.pure_eq_ok,
    checkedShare_eq_ok] at hy
  obtain ⟨_, ⟨-, rfl⟩, rfl⟩ := hy
  refine ⟨rfl, fun hold ↦ hold, fun hmarket ↦ absurd hmarket (hid a ha), ?_⟩
  simp only [AssetDynamicData.books, map_add, map_sub]
  abel

theorem payment_of_subSupply {x : ℤ}
    (hid : ∀ a, s.assets.find id = some a → ¬a.isMarketIssued)
    (h : s.modifyDynamicData id (·.subSupply x) = .ok s') : Payment (held id x) s s' := by
  refine payment_of_modifyDynamicData h fun a y ha hy ↦ ?_
  simp only [AssetDynamicData.subSupply, Checked.bind_eq_ok, Checked.pure_eq_ok,
    checkedShare_eq_ok] at hy
  obtain ⟨_, ⟨-, rfl⟩, rfl⟩ := hy
  refine ⟨rfl, fun hold ↦ hold, fun hmarket ↦ absurd hmarket (hid a ha), ?_⟩
  simp only [AssetDynamicData.books, map_add, map_sub]
  abel

theorem Sound.core_not_marketIssued {inHand : AssetId → Prop} (hs : s.Sound inHand) (a : AssetObject)
    (ha : s.assets.find coreAsset = some a) : ¬a.isMarketIssued := by
  obtain ⟨x, hx, hnone⟩ := hs.core
  rw [Option.some.inj (ha.symm.trans hx), AssetObject.isMarketIssued, hnone]
  exact Bool.false_ne_true

theorem Sound.createLimitOrder {inHand : AssetId → Prop} (hs : s.Sound inHand)
    {o : LimitOrderObject} (ho : o.Sound) :
    ({ s with limitOrders := s.limitOrders.create o } : MarketState).Sound inHand :=
  { hs with
    limitOrders := fun key o' ho' ↦ by
      rw [find_create] at ho'
      split_ifs at ho'
      · exact Option.some.inj ho' ▸ ho
      · exact hs.limitOrders key o' ho'
    bitassets := fun mia a b hhand ha hb ↦ (hs.bitassets mia a b hhand ha hb).of_callOrders rfl }

theorem books_createLimitOrder (o : LimitOrderObject) :
    ({ s with limitOrders := s.limitOrders.create o } : MarketState).books = s.books + o.books := by
  simp only [books, total_create]
  abel

theorem Sound.createSettlement {inHand : AssetId → Prop} (hs : s.Sound inHand)
    {o : ForceSettlementObject} (ho : 0 ≤ o.balance.amount) :
    ({ s with forceSettlements := s.forceSettlements.create o } : MarketState).Sound inHand :=
  { hs with
    forceSettlements := fun key o' ho' ↦ by
      rw [find_create] at ho'
      split_ifs at ho'
      · exact Option.some.inj ho' ▸ ho
      · exact hs.forceSettlements key o' ho'
    bitassets := fun mia a b hhand ha hb ↦ (hs.bitassets mia a b hhand ha hb).of_callOrders rfl }

theorem books_createSettlement (o : ForceSettlementObject) :
    ({ s with forceSettlements := s.forceSettlements.create o } : MarketState).books =
      s.books + held o.balance.assetId o.balance.amount := by
  simp only [books, total_create]
  abel

/-- A new asset without a supply, fees or a settlement. -/
theorem Sound.createAsset (hs : s.AllSound) {a : AssetObject} (hfee : 0 ≤ a.options.maxMarketFee)
    (hsupply : a.dynamicData.currentSupply = 0) (haccumulated : a.dynamicData.accumulatedFees = 0)
    (hconfidential : a.dynamicData.confidentialSupply = 0)
    (hbitasset : ∀ b, a.bitassetData = some b →
      b.FeedsSound ∧ ¬b.HasSettlement ∧ b.settlementFund = 0) :
    ({ s with assets := s.assets.create a } : MarketState).AllSound := by
  have hold : ∀ key x, s.assets.find key = some x → (s.assets.create a).find key = some x := by
    intro key x hx
    rw [find_create, if_neg (lt_nextId hx).ne, hx]
  have hcases : ∀ key x, (s.assets.create a).find key = some x →
      key = s.assets.nextId ∧ x = a ∨ s.assets.find key = some x := by
    intro key x hx
    rw [find_create] at hx
    split_ifs at hx with hkey
    · exact .inl ⟨hkey, (Option.some.inj hx).symm⟩
    · exact .inr hx
  exact {
    core := by
      obtain ⟨x, hx, hnone⟩ := hs.core
      exact ⟨x, hold _ x hx, hnone⟩
    feesNonneg := fun key x hx ↦ by
      rcases hcases key x hx with ⟨-, rfl⟩ | hx
      · exact hfee
      · exact hs.feesNonneg key x hx
    limitOrders := hs.limitOrders
    callOrders := fun key c hc ↦ by
      have hsound := hs.callOrders key c hc
      obtain ⟨x, b, hx, hb, hbacking⟩ := hsound.backing
      exact { hsound with backing := ⟨x, b, hold _ x hx, hb, hbacking⟩ }
    forceSettlements := hs.forceSettlements
    collateralBids := hs.collateralBids
    vestingBalances := hs.vestingBalances
    accumulatedFees := fun key hkey ↦ by
      rw [MarketState.accumulatedFees, find_create]
      split_ifs
      · exact haccumulated.ge
      · exact hs.accumulatedFees key hkey
    confidentialSupply := fun key x hx ↦ by
      rcases hcases key x hx with ⟨-, rfl⟩ | hx
      · exact hconfidential.ge
      · exact hs.confidentialSupply key x hx
    feeds := fun key x b hx hb ↦ by
      rcases hcases key x hx with ⟨-, rfl⟩ | hx
      · exact (hbitasset b hb).1
      · exact hs.feeds key x b hx hb
    bitassets := fun key x b hhand hx hb ↦ by
      rcases hcases key x hx with ⟨rfl, rfl⟩ | hx
      · obtain ⟨-, hset, hfund⟩ := hbitasset b hb
        have hnone : ¬s.HasCallOrders s.assets.nextId := by
          rintro ⟨_, c, hc, hmia⟩
          obtain ⟨x, -, hx, -⟩ := (hs.callOrders _ c hc).backing
          rw [hmia, find_nextId] at hx
          cases hx
        rw [hsupply]
        exact ⟨by decide, fun _ ↦ hfund, fun _ ↦ totalDebt_eq_zero hnone,
          fun hset' ↦ absurd hset' hset, fun _ ↦ hnone⟩
      · exact (hs.bitassets key x b hhand hx hb).of_callOrders rfl }

theorem AssetObject.books_of_new {a : AssetObject} (hsupply : a.dynamicData.currentSupply = 0)
    (haccumulated : a.dynamicData.accumulatedFees = 0)
    (hconfidential : a.dynamicData.confidentialSupply = 0)
    (hfund : ∀ b, a.bitassetData = some b → b.settlementFund = 0) :
    a.books id = held coreAsset a.dynamicData.feePool := by
  have hzero : a.fund = 0 := by
    unfold AssetObject.fund
    split
    · next b hb => rw [hfund b hb, map_zero]
    · rfl
  simp [AssetObject.books, AssetDynamicData.books, hsupply, haccumulated, hconfidential, hzero]

theorem books_createAsset (a : AssetObject) :
    ({ s with assets := s.assets.create a } : MarketState).books =
      s.books + a.books s.assets.nextId := by
  simp only [books, total_create]
  abel

/-! ## Orders -/

theorem payment_of_transfer {op : Transfer.TransferOperation} {view : Transfer.TransferDatabase}
    (h : op.doApply (MarketOperation.transferView s) = .ok view) :
    Payment 0 s { s with balances := view.ledger.balances } := by
  simp only [Transfer.TransferOperation.doApply, Checked.bind_eq_ok, Checked.pure_eq_ok] at h
  obtain ⟨ledger, htransfer, rfl⟩ := h
  have htotal := (Ledger.moves_of_transfer htransfer).total
  have hbalances : balanceBooks ledger.balances = balanceBooks s.balances := by
    ext x
    · have heq := htotal x
      simp only [netOf_cons, netOf_nil, Movement.effect, Ledger.total] at heq
      change (totalOf x ledger.balances : ℤ) = totalOf x s.balances
      simp only [MarketOperation.transferView] at heq
      omega
    · rfl
  refine ⟨⟨?_, { Frame.refl s with }⟩, rfl, rfl, rfl, rfl⟩
  simp only [books, hbalances, add_zero]

theorem payment_of_takeBalance {acct : AccountId} {amount delta : Asset}
    (hdelta : amount.neg = .ok delta) (h : s.adjustBalance acct delta = .ok s') :
    Payment (-held amount.assetId amount.amount) s s' := by
  obtain ⟨-, rfl⟩ := Asset.neg_eq_ok.mp hdelta
  exact (payment_of_adjustBalance h).congr (map_neg _ _)

end MarketState

section orders

variable {s s' : MarketState}

open MarketState

theorem LimitOrderCreateOperation.adds_of_doApply {op : LimitOrderCreateOperation} {deferred : ℤ}
    (hs : s.AllSound) (hvalid : op.validate = .ok ())
    (htyped : (MarketOperation.limitOrderCreate op).WellTyped) (hdeferred : 0 ≤ deferred)
    (h : op.doApply deferred s = .ok s') : Adds (held coreAsset deferred) s s' := by
  simp only [validate, Checked.bind_eq_ok, require_eq_ok] at hvalid
  obtain ⟨-, -, -, -, -, hsell, hreceive⟩ := hvalid
  simp only [doApply, getPrice, Checked.bind_eq_ok, Checked.pure_eq_ok, per_eq_ok] at h
  obtain ⟨s₁, hstats, delta, hdelta, s₂, htake, price, ⟨hne, rfl⟩, ⟨filled, s₃⟩, happly, -, -, rfl⟩ :=
    h
  have hpaid := (payment_of_modifyStatistics
    (fun _ _ hb ↦ AccountStatistics.enterOrders_books op.seller hb) hstats).trans
    (payment_of_takeBalance hdelta htake)
  have hsellTyped : InShareRange op.amountToSell.amount :=
    htyped _ (List.mem_cons_of_mem _ List.mem_cons_self)
  have hreceiveTyped : InShareRange op.minToReceive.amount :=
    htyped _ (List.mem_cons_of_mem _ (List.mem_cons_of_mem _ List.mem_cons_self))
  have hcreated := (hs.of_frame hpaid.frame).createLimitOrder
    (o := { op with
      forSale := op.amountToSell.amount
      sellPrice := ⟨op.amountToSell, op.minToReceive⟩
      deferredFee := deferred })
    ⟨hsell, le_rfl, hsellTyped.2, hreceive, hreceiveTyped.2, hne, hdeferred⟩
  have hmatched := (walks_of_applyOrder hcreated happly).1
  refine ⟨?_, hmatched.sound⟩
  rw [hmatched.books, books_createLimitOrder, hpaid.books]
  simp only [LimitOrderObject.books]
  abel

theorem LimitOrderCancelOperation.upholds_of_doApply {op : LimitOrderCancelOperation}
    (hs : s.AllSound) (h : op.doApply s = .ok s') : Upholds s s' := by
  simp only [doApply, Checked.bind_eq_ok, Checked.pure_eq_ok, Prod.exists] at h
  obtain ⟨o, -, s₁, hcancel, called, s₂, hcheck, called', s₃, hcheck', rfl⟩ := h
  have hcancelled := (trade_of_cancelLimitOrder hcancel).toTrade.keeps hs
  have hfirst := hcancelled.trans (walks_of_checkCallOrders hcancelled.sound hcheck).1
  exact (hfirst.trans (walks_of_checkCallOrders hfirst.sound hcheck').1).toUpholds

theorem BidCollateralOperation.trade_of_cancelOldBid {op : BidCollateralOperation}
    (h : op.cancelOldBid s = .ok s') : Trade 0 s s' := by
  unfold cancelOldBid at h
  split at h
  · exact (trade_of_cancelBid h).1
  · obtain rfl := Except.ok.inj h
    exact .refl s

theorem BidCollateralOperation.adds_of_doApply {op : BidCollateralOperation} (hs : s.AllSound)
    (hvalid : op.validate = .ok ()) (hbidder : (s.accounts.find op.bidder).isSome)
    (h : op.doApply s = .ok s') : Adds 0 s s' := by
  simp only [validate, Checked.bind_eq_ok, require_eq_ok] at hvalid
  obtain ⟨-, -, hamounts⟩ := hvalid
  simp only [doApply, Checked.bind_eq_ok] at h
  obtain ⟨s₁, hold, h⟩ := h
  have hcancelled := trade_of_cancelOldBid hold
  have hsound := hs.of_frame hcancelled.frame
  split_ifs at h with hzero
  · obtain rfl := Checked.pure_eq_ok.mp h
    exact hcancelled.adds hs
  · simp only [placeBid, Checked.bind_eq_ok, Checked.pure_eq_ok, per_eq_ok, Prod.exists] at h
    obtain ⟨delta, hdelta, s₂, htake, price, ⟨hne, rfl⟩, id, s₃, hcreate, rfl⟩ := h
    obtain ⟨-, rfl⟩ := createCollateralBid_eq_ok hcreate
    obtain ⟨hdebt, hcollateral⟩ := hamounts.resolve_left hzero
    have hpaid := payment_of_takeBalance hdelta htake
    refine ⟨?_, (hsound.of_frame hpaid.frame).createBid fun _ ↦ ⟨hcollateral, hdebt, hne, ?_⟩⟩
    · rw [books_createBid, hpaid.books, hcancelled.books]
      abel
    · exact hpaid.frame.accounts _ (hcancelled.frame.accounts _ hbidder)

/-! ## Assets -/

theorem AssetOptions.maxMarketFee_nonneg {o : AssetOptions} (h : o.validate = .ok ()) :
    0 ≤ o.maxMarketFee := by
  simp only [validate, Checked.bind_eq_ok, require_eq_ok] at h
  obtain ⟨-, -, -, -, -, -, -, hfee, -⟩ := h
  exact hfee.1

theorem AssetCreateOperation.adds_of_doApply {op : AssetCreateOperation} {coreFee : ℤ}
    (hs : s.AllSound) (hvalid : op.validate = .ok ()) (hfee : 0 ≤ coreFee)
    (h : op.doApply coreFee s = .ok s') :
    Adds (held coreAsset (coreFee - poolFee coreFee)) s s' := by
  simp only [validate, Checked.bind_eq_ok, require_eq_ok] at hvalid
  obtain ⟨-, -, ⟨⟩, hoptions, -⟩ := hvalid
  simp only [doApply, Checked.bind_eq_ok, Checked.pure_eq_ok, checkedShare_eq_ok] at h
  obtain ⟨_, ⟨-, rfl⟩, s₁, hodd, rfl⟩ := h
  have hminted : Payment (-held coreAsset (if coreFee % 2 = 1 ∧
      ¬(coreFee % 2 = 1 ∧ hardforkCore429Time < s.headBlockTime) then 1 else 0)) s s₁ := by
    refine payment_of_whenever (fun s' hodd h ↦ ?_) (fun hodd ↦ ?_) hodd
    · rw [if_pos hodd]
      exact payment_of_addSupply hs.core_not_marketIssued h
    · rw [if_neg hodd, map_zero, neg_zero]
  have hmarketFee : 0 ≤ op.commonOptions.maxMarketFee := AssetOptions.maxMarketFee_nonneg hoptions
  refine ⟨?_, (hs.of_frame hminted.frame).createAsset hmarketFee rfl rfl rfl fun b hb ↦ ?_⟩
  · have hhalf : coreFee.tdiv 2 = coreFee / 2 := Int.tdiv_eq_ediv_of_nonneg hfee
    have hamount : (poolFee coreFee - if coreFee % 2 = 1 ∧ hardforkCore429Time < s.headBlockTime
        then 1 else 0) - (if coreFee % 2 = 1 ∧
          ¬(coreFee % 2 = 1 ∧ hardforkCore429Time < s.headBlockTime) then 1 else 0) =
        coreFee - poolFee coreFee := by
      simp only [poolFee, hhalf]
      split_ifs <;> omega
    rw [books_createAsset, hminted.books, AssetObject.books_of_new rfl rfl rfl fun b hb ↦ ?_,
      ← hamount]
    · simp only [map_sub]
      abel
    · obtain ⟨o, -, rfl⟩ := Option.map_eq_some_iff.mp hb
      rfl
  · obtain ⟨o, -, rfl⟩ := Option.map_eq_some_iff.mp hb
    exact ⟨⟨PriceFeed.ratiosSound_default, by simp⟩, not_hasSettlement_null rfl, rfl⟩

theorem AssetUpdateOperation.adds_of_doApply {op : AssetUpdateOperation} (hs : s.AllSound)
    (hvalid : op.validate = .ok ()) (h : op.doApply s = .ok s') : Adds 0 s s' := by
  simp only [validate, Checked.bind_eq_ok, require_eq_ok] at hvalid
  obtain ⟨-, -, -, -, ⟨⟩, hoptions, -⟩ := hvalid
  exact (keeps_of_doApply hs (AssetOptions.maxMarketFee_nonneg hoptions) h).toUpholds.adds

theorem AssetPublishFeedOperation.adds_of_doApply {op : AssetPublishFeedOperation} (hs : s.AllSound)
    (hvalid : op.validate = .ok ()) (h : op.doApply s = .ok s') : Adds 0 s s' := by
  simp only [validate, Checked.bind_eq_ok] at hvalid
  obtain ⟨-, -, ⟨⟩, hfeed, -⟩ := hvalid
  exact (upholds_of_doApply hs (PriceFeed.ratiosSound_of_validate hfeed) h).adds

theorem AssetIssueOperation.adds_of_doApply {op : AssetIssueOperation} (hs : s.AllSound)
    (hplain : ∀ a, s.assets.find op.assetToIssue.assetId = some a → ¬a.isMarketIssued)
    (h : op.doApply s = .ok s') : Adds 0 s s' := by
  simp only [doApply, Checked.bind_eq_ok] at h
  obtain ⟨s₁, hbalance, hsupply⟩ := h
  have hgiven := payment_of_adjustBalance hbalance
  refine ((hgiven.trans (payment_of_addSupply (fun a' ha' ↦ ?_) hsupply)).congr
    (add_neg_cancel _)).toTrade.adds hs
  obtain ⟨a, ha, hterms⟩ := hgiven.frame.find_asset ha'
  rw [AssetObject.isMarketIssued, AssetObject.bitassetData_of_terms hterms]
  exact hplain a ha

theorem AssetReserveOperation.adds_of_doApply {op : AssetReserveOperation} (hs : s.AllSound)
    (hplain : ∀ a, s.assets.find op.amountToReserve.assetId = some a → ¬a.isMarketIssued)
    (h : op.doApply s = .ok s') : Adds 0 s s' := by
  simp only [doApply, Checked.bind_eq_ok] at h
  obtain ⟨delta, hdelta, s₁, hbalance, hsupply⟩ := h
  have htaken := payment_of_takeBalance hdelta hbalance
  refine ((htaken.trans (payment_of_subSupply (fun a' ha' ↦ ?_) hsupply)).congr
    (neg_add_cancel _)).toTrade.adds hs
  obtain ⟨a, ha, hterms⟩ := htaken.frame.find_asset ha'
  rw [AssetObject.isMarketIssued, AssetObject.bitassetData_of_terms hterms]
  exact hplain a ha

theorem AssetFundFeePoolOperation.adds_of_doApply {op : AssetFundFeePoolOperation} (hs : s.AllSound)
    (h : op.doApply s = .ok s') : Adds 0 s s' := by
  simp only [doApply, Checked.bind_eq_ok, checkedShare_eq_ok] at h
  obtain ⟨_, ⟨-, rfl⟩, s₁, hbalance, hpool⟩ := h
  have hfunded : Payment (held coreAsset op.amount) s₁ s' := by
    refine payment_of_modifyDynamicData hpool fun a x _ hx ↦ ?_
    simp only [Checked.bind_eq_ok, Checked.pure_eq_ok, checkedShare_eq_ok] at hx
    obtain ⟨_, ⟨-, rfl⟩, rfl⟩ := hx
    refine ⟨rfl, fun hold ↦ hold, fun _ ↦ rfl, ?_⟩
    simp only [AssetDynamicData.books, map_add, map_sub]
    abel
  refine (((payment_of_adjustBalance hbalance).trans hfunded).congr ?_).toTrade.adds hs
  rw [map_neg, neg_add_cancel]

theorem AssetClaimFeesOperation.adds_of_doApply {op : AssetClaimFeesOperation} (hs : s.AllSound)
    (h : op.doApply s = .ok s') : Adds 0 s s' := by
  simp only [doApply, Checked.bind_eq_ok] at h
  obtain ⟨s₁, hclaim, hbalance⟩ := h
  have hclaimed : Payment (-held op.amountToClaim.assetId op.amountToClaim.amount) s s₁ := by
    refine payment_of_modifyDynamicData hclaim fun a x _ hx ↦ ?_
    simp only [Checked.bind_eq_ok, Checked.pure_eq_ok, checkedShare_eq_ok, require_eq_ok] at hx
    obtain ⟨-, hle, _, ⟨-, rfl⟩, rfl⟩ := hx
    refine ⟨rfl, fun _ ↦ sub_nonneg.mpr hle, fun _ ↦ rfl, ?_⟩
    simp only [AssetDynamicData.books, map_add, map_sub]
    abel
  exact ((hclaimed.trans (payment_of_adjustBalance hbalance)).congr
    (neg_add_cancel _)).toTrade.adds hs

/-! ## Settlement -/

theorem AssetSettleOperation.adds_of_doApply {op : AssetSettleOperation} (hs : s.AllSound)
    (hvalid : op.validate = .ok ())
    (hsupply : ∀ a, s.assets.find op.amount.assetId = some a → a.isMarketIssued →
      op.amount.amount ≤ a.dynamicData.currentSupply)
    (h : op.doApply s = .ok s') : Adds 0 s s' := by
  simp only [validate, Checked.bind_eq_ok, require_eq_ok] at hvalid
  obtain ⟨-, -, hamount⟩ := hvalid
  simp only [doApply, Checked.bind_eq_ok, get_eq_ok, getBitassetData_eq_ok] at h
  obtain ⟨delta, hdelta, s₁, htake, a, ha, b, hb, h⟩ := h
  have htaken := payment_of_takeBalance hdelta htake
  have hsound := hs.of_frame htaken.frame
  obtain ⟨a₀, ha₀, hterms⟩ := htaken.frame.find_asset ha
  have hmarket : a₀.isMarketIssued := by
    rw [AssetObject.isMarketIssued, ← AssetObject.bitassetData_of_terms hterms, hb, Option.isSome_some]
  split_ifs at h with hset
  · have hle : op.amount.amount ≤ a.dynamicData.currentSupply := by
      obtain ⟨a', ha', -, hsame⟩ := htaken.find_asset ha₀
      obtain rfl := Option.some.inj (ha.symm.trans ha')
      rw [hsame hmarket]
      exact hsupply a₀ ha₀ hmarket
    obtain ⟨hbooks, hredeemed, -⟩ := keeps_of_redeem hsound ⟨ha, hb, hset⟩ hamount hle h
    refine ⟨?_, hredeemed⟩
    rw [hbooks, htaken.books]
    abel
  · obtain rfl := Checked.pure_eq_ok.mp h
    refine ⟨?_, hsound.createSettlement hamount⟩
    rw [books_createSettlement, htaken.books]
    abel

theorem AssetGlobalSettleOperation.adds_of_doApply {op : AssetGlobalSettleOperation}
    (hs : s.AllSound) (hsupply : 0 < s.currentSupply op.assetToSettle)
    (h : op.doApply s = .ok s') : Adds 0 s s' :=
  (keeps_of_globallySettleAsset hs hsupply h).toUpholds.adds

end orders

end KarmaCore.Market
