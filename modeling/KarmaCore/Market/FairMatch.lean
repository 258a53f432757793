import Mathlib
import KarmaCore.Market.GlobalSettlement

/-!
# What two matched orders give each other

The history of fills tells what each order of a match paid and received.  Two
crossing orders pay each other, each at its own price or better, and one of them
leaves the book.
-/

namespace KarmaCore.Market

open Transfer (get get_eq_ok)
open ObjectIndex

namespace MarketState

variable {s s' s'' : MarketState} {id : ℕ} {filled : Bool}

/-! ## The history of fills -/

/-- Neither the limit orders nor the history of fills changes. -/
structure Quiet (s s' : MarketState) : Prop where
  limitOrders : s'.limitOrders = s.limitOrders
  fills : s'.fills = s.fills

theorem Quiet.refl (s : MarketState) : Quiet s s := ⟨rfl, rfl⟩

theorem Quiet.trans (h : Quiet s s') (h' : Quiet s' s'') : Quiet s s'' :=
  ⟨h'.limitOrders.trans h.limitOrders, h'.fills.trans h.fills⟩

theorem quiet_of_whenever {c : Prop} [Decidable c] {f : MarketState → Checked MarketState}
    (hf : ∀ s', f s = .ok s' → Quiet s s') (h : whenever c f s = .ok s') : Quiet s s' := by
  rcases whenever_eq_ok.mp h with ⟨-, h⟩ | ⟨-, rfl⟩
  · exact hf s' h
  · exact .refl s

theorem quiet_of_adjustBalance {account : AccountId} {delta : Asset}
    (h : s.adjustBalance account delta = .ok s') : Quiet s s' := by
  simp only [adjustBalance, Checked.bind_eq_ok, Checked.pure_eq_ok] at h
  obtain ⟨balances, -, rfl⟩ := h
  exact ⟨rfl, rfl⟩

theorem quiet_of_modifyStatistics {account : AccountId}
    {f : AccountStatistics → Checked AccountStatistics}
    (h : s.modifyStatistics account f = .ok s') : Quiet s s' := by
  simp only [modifyStatistics, modifyAccount, Checked.bind_eq_ok, Checked.pure_eq_ok] at h
  obtain ⟨a, -, a', -, rfl⟩ := h
  exact ⟨rfl, rfl⟩

theorem quiet_of_modifyDynamicData {asset : AssetId}
    {f : AssetDynamicData → Checked AssetDynamicData}
    (h : s.modifyDynamicData asset f = .ok s') : Quiet s s' := by
  simp only [modifyDynamicData, modifyAsset, Checked.bind_eq_ok, Checked.pure_eq_ok] at h
  obtain ⟨a, -, a', -, rfl⟩ := h
  exact ⟨rfl, rfl⟩

theorem quiet_of_payMarketFees {asset : AssetId} {receives fees : Asset}
    (h : s.payMarketFees asset receives = .ok (fees, s')) : Quiet s s' := by
  simp only [payMarketFees, Checked.bind_eq_ok, Checked.pure_eq_ok] at h
  obtain ⟨a, -, s₁, hpay, heq⟩ := h
  obtain ⟨-, rfl⟩ := Prod.mk.inj heq
  exact quiet_of_whenever (fun _ h ↦ quiet_of_modifyDynamicData h) hpay

theorem quiet_of_payOrder {account : AccountId} {receives pays : Asset}
    (h : s.payOrder account receives pays = .ok s') : Quiet s s' := by
  simp only [payOrder, Checked.bind_eq_ok] at h
  obtain ⟨s₁, hstats, hbalance⟩ := h
  exact (quiet_of_modifyStatistics hstats).trans (quiet_of_adjustBalance hbalance)

/-- How the book and the history stand once one limit order was taken out or reduced. -/
structure Reduced (id : ℕ) (filled : Bool) (s s' : MarketState) : Prop where
  fills : s'.fills = s.fills
  find_self : filled = true → s'.limitOrders.find id = none
  find_other : ∀ key, key ≠ id → s'.limitOrders.find key = s.limitOrders.find key

theorem reduced_of_cancelLimitOrder (h : s.cancelLimitOrder id = .ok s') :
    Reduced id true s s' := by
  simp only [cancelLimitOrder, Checked.bind_eq_ok, Checked.pure_eq_ok] at h
  obtain ⟨o, -, s₁, hstats, s₂, hrefund, s₃, hfee, rfl⟩ := h
  have hquiet := ((quiet_of_modifyStatistics hstats).trans
    (quiet_of_adjustBalance hrefund)).trans (quiet_of_adjustBalance hfee)
  refine ⟨hquiet.fills, fun _ ↦ by simp [find_remove], fun key hkey ↦ ?_⟩
  simp [find_remove, hkey, hquiet.limitOrders]

theorem reduced_of_maybeCullSmallOrder (h : s.maybeCullSmallOrder id = .ok (filled, s')) :
    Reduced id filled s s' := by
  simp only [maybeCullSmallOrder, Checked.bind_eq_ok] at h
  obtain ⟨o, -, toReceive, -, h⟩ := h
  split_ifs at h with hzero
  · simp only [Checked.bind_eq_ok, Checked.pure_eq_ok] at h
    obtain ⟨s₁, hcancel, heq⟩ := h
    obtain ⟨rfl, rfl⟩ := Prod.mk.inj heq
    exact reduced_of_cancelLimitOrder hcancel
  · obtain ⟨rfl, rfl⟩ := Prod.mk.inj (Checked.pure_eq_ok.mp h)
    exact ⟨rfl, by simp, fun _ _ ↦ rfl⟩

theorem reduced_of_reduceLimitOrder {o : LimitOrderObject} {pays : Asset} {cull : Bool}
    (ho : s.limitOrders.find id = some o)
    (h : s.reduceLimitOrder id o pays cull = .ok (filled, s')) :
    Reduced id filled s s' ∧ (pays = o.amountForSale → filled = true) := by
  unfold reduceLimitOrder at h
  split_ifs at h with hall hcull
  · obtain ⟨rfl, rfl⟩ := Prod.mk.inj (Checked.pure_eq_ok.mp h)
    refine ⟨⟨rfl, fun _ ↦ by simp [find_remove], fun key hkey ↦ ?_⟩, fun _ ↦ rfl⟩
    simp [find_remove, hkey]
  · simp only [Checked.bind_eq_ok] at h
    obtain ⟨forSale, -, h⟩ := h
    have hculled := reduced_of_maybeCullSmallOrder h
    refine ⟨⟨hculled.fills, hculled.find_self, fun key hkey ↦ ?_⟩, fun heq ↦ absurd heq hall⟩
    rw [hculled.find_other key hkey]
    simp [find_set ho, hkey]
  · simp only [Checked.bind_eq_ok] at h
    obtain ⟨forSale, -, h⟩ := h
    obtain ⟨rfl, rfl⟩ := Prod.mk.inj (Checked.pure_eq_ok.mp h)
    refine ⟨⟨rfl, by simp, fun key hkey ↦ ?_⟩, fun heq ↦ absurd heq hall⟩
    simp [find_set ho, hkey]

/-- The one entry that a fill of a limit order adds to the history, and what it leaves. -/
theorem fills_of_fillLimitOrder {pays receives : Asset} {cull maker : Bool} {price : Price}
    (h : s.fillLimitOrder id pays receives cull price maker = .ok (filled, s')) :
    ∃ o fee, s.limitOrders.find id = some o ∧
      s'.fills = s.fills ++ [⟨id, .limit o, pays, receives, fee, price, maker⟩] ∧
      (pays = o.amountForSale → filled = true) ∧
      (filled = true → s'.limitOrders.find id = none) ∧
      ∀ key, key ≠ id → s'.limitOrders.find key = s.limitOrders.find key := by
  simp only [fillLimitOrder, Checked.bind_eq_ok, deref_eq_ok] at h
  obtain ⟨o, ho, -, -, -, -, _, -, ⟨fee, s₁⟩, hfees, net, -, s₂, hpay, s₃, hdeferred, h⟩ := h
  have hbefore := (quiet_of_payMarketFees hfees).trans (quiet_of_payOrder hpay)
  have hafter := quiet_of_whenever (fun _ h ↦ quiet_of_modifyStatistics h) hdeferred
  have hbook : s₃.limitOrders = s.limitOrders := hafter.limitOrders.trans hbefore.limitOrders
  obtain ⟨hreduced, hall⟩ := reduced_of_reduceLimitOrder (hbook ▸ ho) h
  refine ⟨o, fee, ho, ?_, hall, hreduced.find_self, fun key hkey ↦ ?_⟩
  · rw [hreduced.fills, hafter.fills]
    simp [pushAppliedOperation, hbefore.fills]
  · rw [hreduced.find_other key hkey, hbook]

end MarketState

/-! ## Crossing orders -/

/-- Shares above zero at a price of shares above zero of two assets. -/
structure LimitOrderObject.Tradable (o : LimitOrderObject) : Prop where
  forSale : 0 < o.forSale
  forSale_lt : o.forSale < shareEnd
  price : o.sellPrice.Proper

theorem LimitOrderObject.Sound.tradable {o : LimitOrderObject} (h : o.Sound) : o.Tradable :=
  ⟨h.forSale, h.le_base.trans_lt h.base_lt, h.proper⟩

/-- The new order is for the assets of the old one, and the old one's price lies in the range
that `apply_order` walks over. -/
structure LimitOrderObject.Crosses (usd core : LimitOrderObject) : Prop where
  sells : usd.sellPrice.base.assetId = core.sellPrice.quote.assetId
  buys : usd.sellPrice.quote.assetId = core.sellPrice.base.assetId
  price : ¬usd.sellPrice.inverse.Gt core.sellPrice

/-- What the order asks for an amount it sells, in whole units. -/
def LimitOrderObject.value (o : LimitOrderObject) (amount : ℤ) : ℤ :=
  amount * o.sellPrice.quote.amount / o.sellPrice.base.amount

/-- What the order gives for an amount it buys, in whole units. -/
def LimitOrderObject.gives (o : LimitOrderObject) (amount : ℤ) : ℤ :=
  amount * o.sellPrice.base.amount / o.sellPrice.quote.amount

/-- The old order gives the new one at least the new one's own price. -/
theorem LimitOrderObject.Crosses.cross_le {usd core : LimitOrderObject} (h : usd.Crosses core)
    (husd : usd.sellPrice.Proper) (hcore : core.sellPrice.Proper) :
    core.sellPrice.quote.amount * usd.sellPrice.quote.amount ≤
      usd.sellPrice.base.amount * core.sellPrice.base.amount := by
  have hle : usd.sellPrice.inverse.Le core.sellPrice := not_not.mp h.price
  rw [← mul128_eq hcore.quote.le hcore.quote_lt husd.quote.le husd.quote_lt,
    ← mul128_eq husd.base.le husd.base_lt hcore.base.le hcore.base_lt]
  rcases hle with ⟨-, -, hsame⟩ | hbase | ⟨-, hquote | ⟨-, hlt⟩⟩
  · exact hsame.le
  · exact absurd h.buys hbase.ne
  · exact absurd h.sells hquote.ne
  · exact hlt.le

/-! ## The amounts of a match -/

section Times

variable {o : LimitOrderObject} {amount : ℤ} {b : Asset}

theorem LimitOrderObject.times_base_eq_ok (ho : o.sellPrice.Proper) (h : 0 ≤ amount)
    (h' : amount < shareEnd) : times ⟨amount, o.sellPrice.base.assetId⟩ o.sellPrice = .ok b ↔
      o.value amount ≤ maxShareSupply ∧ b = ⟨o.value amount, o.sellPrice.quote.assetId⟩ := by
  rw [times_eq_ok]
  simp only [mul128_eq h h' ho.quote.le ho.quote_lt, ho.base, LimitOrderObject.value]
  grind

theorem LimitOrderObject.times_quote_eq_ok (ho : o.sellPrice.Proper) (h : 0 ≤ amount)
    (h' : amount < shareEnd) : times ⟨amount, o.sellPrice.quote.assetId⟩ o.sellPrice = .ok b ↔
      o.gives amount ≤ maxShareSupply ∧ b = ⟨o.gives amount, o.sellPrice.base.assetId⟩ := by
  have hne := ho.assets.symm
  rw [times_eq_ok]
  simp only [mul128_eq h h' ho.base.le ho.base_lt, ho.quote, LimitOrderObject.gives]
  grind

end Times

section Amounts

variable {usd core : LimitOrderObject} {usdReceives coreReceives : Asset}

/-- Neither product of a match with the price of the old order exceeds the largest supply. -/
def LimitOrderObject.Fits (usd core : LimitOrderObject) : Prop :=
  core.value core.forSale ≤ maxShareSupply ∧
    (usd.forSale ≤ core.value core.forSale → core.gives usd.forSale ≤ maxShareSupply)

/-- The new order is used up when the old one asks for as much, and the old one otherwise. -/
theorem matchedAmounts_eq_ok (husd : usd.Tradable) (hcore : core.Tradable)
    (hsells : usd.sellPrice.base.assetId = core.sellPrice.quote.assetId) :
    MarketState.matchedAmounts usd.amountForSale core.amountForSale core.sellPrice =
        .ok (usdReceives, coreReceives) ↔
      usd.Fits core ∧ (usdReceives, coreReceives) =
        if usd.forSale ≤ core.value core.forSale then
          (⟨core.gives usd.forSale, core.sellPrice.base.assetId⟩, usd.amountForSale)
        else (core.amountForSale, ⟨core.value core.forSale, core.sellPrice.quote.assetId⟩) := by
  have hpays : usd.amountForSale = ⟨usd.forSale, core.sellPrice.quote.assetId⟩ :=
    congrArg (Asset.mk usd.forSale) hsells
  have hvalue := fun b ↦ LimitOrderObject.times_base_eq_ok (b := b) hcore.price hcore.forSale.le
    hcore.forSale_lt
  have hgives := fun b ↦ LimitOrderObject.times_quote_eq_ok (b := b) hcore.price husd.forSale.le
    husd.forSale_lt
  have hsale : core.amountForSale = ⟨core.forSale, core.sellPrice.base.assetId⟩ := rfl
  rw [hpays, hsale]
  simp only [MarketState.matchedAmounts, Checked.bind_eq_ok, LimitOrderObject.Fits, hvalue,
    Asset.le_eq_ok, and_assoc, exists_and_left, exists_eq_left, exists_eq_left', true_and]
  by_cases hle : usd.forSale ≤ core.value core.forSale
  · simp only [hle, decide_true, if_true, Checked.bind_eq_ok, hgives, Checked.pure_eq_ok,
      and_assoc, exists_and_left, exists_eq_left, forall_true_left]
    rw [eq_comm]
  · simp only [hle, decide_false, Bool.false_eq_true, if_false, Checked.bind_eq_ok, hvalue,
      Checked.pure_eq_ok, and_assoc, exists_and_left, exists_eq_left, false_imp_iff, true_and]
    rw [eq_comm]
    exact ⟨fun h ↦ h.2, fun h ↦ ⟨h.1, h⟩⟩

/-- Amounts are found for orders that sell what the other one buys only. -/
theorem sells_of_matchedAmounts (hcore : core.Tradable)
    (h : MarketState.matchedAmounts usd.amountForSale core.amountForSale core.sellPrice =
      .ok (usdReceives, coreReceives)) :
    usd.sellPrice.base.assetId = core.sellPrice.quote.assetId := by
  simp only [MarketState.matchedAmounts, Checked.bind_eq_ok] at h
  obtain ⟨value, hvalue, takerFills, hle, -⟩ := h
  obtain ⟨-, rfl⟩ := (LimitOrderObject.times_base_eq_ok hcore.price hcore.forSale.le
    hcore.forSale_lt).mp hvalue
  exact (Asset.le_eq_ok.mp hle).1

/-- Rounding down twice never brings back more than went in. -/
theorem LimitOrderObject.gives_le {o : LimitOrderObject} {amount x : ℤ} (ho : o.sellPrice.Proper)
    (h : x ≤ o.value amount) : o.gives x ≤ amount :=
  ediv_back_le ho.base ho.quote h

theorem LimitOrderObject.value_le {o : LimitOrderObject} {amount x : ℤ} (ho : o.sellPrice.Proper)
    (h : x ≤ o.gives amount) : o.value x ≤ amount :=
  ediv_back_le ho.quote ho.base h

/-- The old order gives at least what the new one asks. -/
theorem LimitOrderObject.Crosses.value_le_gives (hcross : usd.Crosses core)
    (husd : usd.sellPrice.Proper) (hcore : core.sellPrice.Proper) {amount : ℤ} (h : 0 ≤ amount) :
    usd.value amount ≤ core.gives amount := by
  apply (Int.le_ediv_iff_mul_le hcore.quote).mpr
  have hasked : usd.value amount * usd.sellPrice.base.amount ≤
      amount * usd.sellPrice.quote.amount := Int.ediv_mul_le _ husd.base.ne'
  have hbetter := hcross.cross_le husd hcore
  refine le_of_mul_le_mul_right ?_ husd.base
  calc usd.value amount * core.sellPrice.quote.amount * usd.sellPrice.base.amount
      = usd.value amount * usd.sellPrice.base.amount * core.sellPrice.quote.amount := by ring
    _ ≤ amount * usd.sellPrice.quote.amount * core.sellPrice.quote.amount :=
        mul_le_mul_of_nonneg_right hasked hcore.quote.le
    _ = amount * (core.sellPrice.quote.amount * usd.sellPrice.quote.amount) := by ring
    _ ≤ amount * (usd.sellPrice.base.amount * core.sellPrice.base.amount) :=
        mul_le_mul_of_nonneg_left hbetter h
    _ = amount * core.sellPrice.base.amount * usd.sellPrice.base.amount := by ring

/-- What two orders pay each other is within what they have, and at least what each asks. -/
structure FairAmounts (usd core : LimitOrderObject) (usdPays corePays : Asset) : Prop where
  usdAsset : usdPays.assetId = usd.sellPrice.base.assetId
  coreAsset : corePays.assetId = core.sellPrice.base.assetId
  usd_nonneg : 0 ≤ usdPays.amount
  core_nonneg : 0 ≤ corePays.amount
  usd_le : usdPays.amount ≤ usd.forSale
  core_le : corePays.amount ≤ core.forSale
  usd_receives : usd.value usdPays.amount ≤ corePays.amount
  core_receives : core.value corePays.amount ≤ usdPays.amount
  full : usdPays = usd.amountForSale ∨ corePays = core.amountForSale

theorem fairAmounts_of_matchedAmounts (husd : usd.Tradable) (hcore : core.Tradable)
    (hcross : usd.Crosses core)
    (h : MarketState.matchedAmounts usd.amountForSale core.amountForSale core.sellPrice =
      .ok (usdReceives, coreReceives)) : FairAmounts usd core coreReceives usdReceives := by
  obtain ⟨-, heq⟩ := (matchedAmounts_eq_ok husd hcore hcross.sells).mp h
  split_ifs at heq with hle
  · obtain ⟨rfl, rfl⟩ := Prod.mk.inj heq
    have hgives : 0 ≤ core.gives usd.forSale :=
      Int.ediv_nonneg (mul_nonneg husd.forSale.le hcore.price.base.le) hcore.price.quote.le
    exact {
      usdAsset := rfl
      coreAsset := rfl
      usd_nonneg := husd.forSale.le
      core_nonneg := hgives
      usd_le := le_rfl
      core_le := core.gives_le hcore.price hle
      usd_receives := hcross.value_le_gives husd.price hcore.price husd.forSale.le
      core_receives := core.value_le hcore.price le_rfl
      full := .inl rfl }
  · obtain ⟨rfl, rfl⟩ := Prod.mk.inj heq
    have hvalue : 0 ≤ core.value core.forSale :=
      Int.ediv_nonneg (mul_nonneg hcore.forSale.le hcore.price.quote.le) hcore.price.base.le
    exact {
      usdAsset := hcross.sells.symm
      coreAsset := rfl
      usd_nonneg := hvalue
      core_nonneg := hcore.forSale.le
      usd_le := (not_le.mp hle).le
      core_le := le_rfl
      usd_receives := (hcross.value_le_gives husd.price hcore.price hvalue).trans
        (core.gives_le hcore.price le_rfl)
      core_receives := le_rfl
      full := .inr rfl }

/-- Every order that `apply_order` let into the book fits. -/
theorem LimitOrderObject.fits_of_le (hcore : core.Tradable)
    (hsale : core.forSale ≤ core.sellPrice.base.amount)
    (hbase : core.sellPrice.base.amount ≤ maxShareSupply)
    (hquote : core.sellPrice.quote.amount ≤ maxShareSupply) : usd.Fits core := by
  refine ⟨(Int.ediv_le_of_le_mul hcore.price.base ?_).trans hquote, fun hle ↦ ?_⟩
  · rw [mul_comm]
    exact mul_le_mul_of_nonneg_left hsale hcore.price.quote.le
  · exact (core.gives_le hcore.price hle).trans (hsale.trans hbase)

end Amounts

/-! ## A match -/

namespace MarketState

/-- The two entries of a match in the history, and what it leaves in the book. -/
structure FairMatch (usd core : ℕ) (taker maker : LimitOrderObject) (result : ℕ)
    (s s' : MarketState) : Prop where
  fills : ∃ usdPays corePays fee fee', FairAmounts taker maker usdPays corePays ∧
    s'.fills = s.fills ++
      [⟨usd, .limit taker, usdPays, corePays, fee, maker.sellPrice, false⟩,
        ⟨core, .limit maker, corePays, usdPays, fee', maker.sellPrice, true⟩]
  result_ne : result ≠ 0
  gone : s'.limitOrders.find usd = none ∨ s'.limitOrders.find core = none

variable {s s' : MarketState} {usd core : ℕ} {taker maker : LimitOrderObject}

/-- A match amounts to two fills with the amounts of the match. -/
theorem matchLimitOrders_eq_ok {price : Price} {result : ℕ}
    (husd : s.limitOrders.find usd = some taker) (hcore : s.limitOrders.find core = some maker) :
    s.matchLimitOrders usd core price = .ok (result, s') ↔
      ∃ usdReceives coreReceives usdFilled coreFilled mid,
        matchedAmounts taker.amountForSale maker.amountForSale price =
          .ok (usdReceives, coreReceives) ∧
        s.fillLimitOrder usd coreReceives usdReceives false price false = .ok (usdFilled, mid) ∧
        mid.fillLimitOrder core usdReceives coreReceives true price true = .ok (coreFilled, s') ∧
        usdFilled.toNat + 2 * coreFilled.toNat = result := by
  simp only [matchLimitOrders, Checked.bind_eq_ok, deref_eq_ok, husd, hcore, Option.some.injEq,
    exists_eq_left', Checked.pure_eq_ok, Prod.exists, Prod.mk.injEq]
  grind

theorem fairMatch_of_matchLimitOrders {result : ℕ} (husd : s.limitOrders.find usd = some taker)
    (hcore : s.limitOrders.find core = some maker) (htaker : taker.Tradable)
    (hmaker : maker.Tradable) (hcross : taker.Crosses maker)
    (h : s.matchLimitOrders usd core maker.sellPrice = .ok (result, s')) :
    FairMatch usd core taker maker result s s' := by
  obtain ⟨usdReceives, coreReceives, usdFilled, coreFilled, mid, hamounts, hfill, hfill', rfl⟩ :=
    (matchLimitOrders_eq_ok husd hcore).mp h
  have hfair := fairAmounts_of_matchedAmounts htaker hmaker hcross hamounts
  have hne : core ≠ usd := by
    rintro rfl
    obtain rfl := Option.some.inj (husd.symm.trans hcore)
    exact htaker.price.assets hcross.sells
  obtain ⟨o, fee, ho, hfills, hall, hgone, hother⟩ := fills_of_fillLimitOrder hfill
  obtain rfl := Option.some.inj (husd.symm.trans ho)
  obtain ⟨o', fee', ho', hfills', hall', hgone', hother'⟩ := fills_of_fillLimitOrder hfill'
  obtain rfl := Option.some.inj (hcore.symm.trans ((hother core hne).symm.trans ho'))
  have hend : usdFilled.toNat + 2 * coreFilled.toNat ≠ 0 ∧
      (s'.limitOrders.find usd = none ∨ s'.limitOrders.find core = none) := by
    rcases hfair.full with heq | heq
    · have hfilled := hall heq
      refine ⟨by simp [hfilled], .inl ?_⟩
      rw [hother' usd hne.symm]
      exact hgone hfilled
    · have hfilled := hall' heq
      exact ⟨by simp [hfilled], .inr (hgone' hfilled)⟩
  refine ⟨⟨coreReceives, usdReceives, fee, fee', hfair, ?_⟩, hend.1, hend.2⟩
  rw [hfills', hfills]
  simp

def firstMaker : LimitOrderObject := ⟨0, 10, 1, ⟨⟨1, 0⟩, ⟨10, 5⟩⟩, 0⟩

def secondMaker : LimitOrderObject := ⟨0, 10, 5, ⟨⟨5, 0⟩, ⟨50, 5⟩⟩, 0⟩

def newTaker : LimitOrderObject := ⟨0, 11, 11, ⟨⟨11, 5⟩, ⟨1, 0⟩⟩, 0⟩

def elevenBook : MarketState where
  accounts := ⟨12, [(10, { statistics := { totalCoreInOrders := 6 } }), (11, {})], by decide, by simp⟩
  assets := ⟨6, [(0, {}), (5, {})], by decide, by simp⟩
  limitOrders := ⟨4, [(1, firstMaker), (2, secondMaker), (3, newTaker)], by decide, by simp⟩
  headBlockTime := hardfork555Time + 1

def wideMaker : LimitOrderObject := ⟨0, 10, 1000, ⟨⟨1000, 0⟩, ⟨10 ^ 18, 5⟩⟩, 0⟩

def wideTaker : LimitOrderObject := ⟨0, 11, 10 ^ 15, ⟨⟨10 ^ 15, 5⟩, ⟨1, 0⟩⟩, 0⟩

/-- Both sellers hold shares of the two assets, and the two orders are in the book. -/
def wideBook : MarketState where
  accounts := ⟨12, [(10, {}), (11, {})], by decide, by simp⟩
  assets := ⟨6, [(0, {}), (5, {})], by decide, by simp⟩
  limitOrders := ⟨3, [(1, wideMaker), (2, wideTaker)], by decide, by simp⟩
  headBlockTime := hardfork555Time + 1

end MarketState

end KarmaCore.Market
