import Mathlib
import KarmaCore.Market.Soundness

/-!
# Matches are even trades

What the two sides of a match receive and pay is the same, and neither pays more
than it has for sale: an amount that is taken to the other side of a price and
back is never larger than it was.
-/

namespace KarmaCore.Market

open Transfer (get get_eq_ok)
open Books ObjectIndex

/-- A price whose sides are shares above zero of two assets. -/
structure Price.Proper (p : Price) : Prop where
  base : 0 < p.base.amount
  base_lt : p.base.amount < shareEnd
  quote : 0 < p.quote.amount
  quote_lt : p.quote.amount < shareEnd
  assets : p.base.assetId ≠ p.quote.assetId

theorem LimitOrderObject.Sound.proper {o : LimitOrderObject} (h : o.Sound) : o.sellPrice.Proper :=
  ⟨h.forSale.trans_le h.le_base, h.base_lt, h.quote, h.quote_lt, h.assets⟩

/-- The product of an amount with a price, in shares that do not wrap around. -/
theorem Price.Proper.times_eq {p : Price} (hp : p.Proper) {a b : Asset} (ha : 0 ≤ a.amount)
    (ha' : a.amount < shareEnd) (h : times a p = .ok b) :
    (a.assetId = p.base.assetId ∧ b.assetId = p.quote.assetId ∧
      b.amount = a.amount * p.quote.amount / p.base.amount) ∨
    (a.assetId = p.quote.assetId ∧ b.assetId = p.base.assetId ∧
      b.amount = a.amount * p.base.amount / p.quote.amount) := by
  rcases times_eq_ok.mp h with ⟨hid, -, -, rfl⟩ | ⟨-, hid, -, -, rfl⟩
  · exact .inl ⟨hid, rfl, by rw [mul128_eq ha ha' hp.quote.le hp.quote_lt]⟩
  · exact .inr ⟨hid, rfl, by rw [mul128_eq ha ha' hp.base.le hp.base_lt]⟩

theorem ediv_back_le {a x p q : ℤ} (hp : 0 < p) (hq : 0 < q) (hle : x ≤ a * q / p) :
    x * p / q ≤ a := by
  have hmul : x * p ≤ a * q := (Int.le_ediv_iff_mul_le hp).mp hle
  exact Int.ediv_le_of_le_mul hq hmul

theorem times_le_max {a b : Asset} {p : Price} (h : times a p = .ok b) :
    b.amount ≤ maxShareSupply := by
  rcases times_eq_ok.mp h with ⟨-, -, hle, rfl⟩ | ⟨-, -, -, hle, rfl⟩ <;> exact hle

theorem maxShareSupply_lt : maxShareSupply < shareEnd := by decide

/-- Part of a product, taken back over the price, is at most what was multiplied. -/
theorem Price.Proper.times_back_le {p : Price} (hp : p.Proper) {a v x w : Asset}
    (ha : 0 ≤ a.amount) (ha' : a.amount < shareEnd) (hv : times a p = .ok v)
    (hid : x.assetId = v.assetId) (hx : 0 ≤ x.amount) (hle : x.amount ≤ v.amount)
    (hw : times x p = .ok w) : w.amount ≤ a.amount := by
  have hx' : x.amount < shareEnd := (hle.trans (times_le_max hv)).trans_lt maxShareSupply_lt
  rcases hp.times_eq ha ha' hv with ⟨-, hvid, hvamount⟩ | ⟨-, hvid, hvamount⟩ <;>
    rcases hp.times_eq hx hx' hw with ⟨hxid, -, hwamount⟩ | ⟨hxid, -, hwamount⟩
  · exact absurd (hxid.symm.trans (hid.trans hvid)) hp.assets
  · rw [hwamount]
    exact ediv_back_le hp.base hp.quote (hvamount ▸ hle)
  · rw [hwamount]
    exact ediv_back_le hp.quote hp.base (hvamount ▸ hle)
  · exact absurd (hvid.symm.trans (hid.symm.trans hxid)) hp.assets

/-! ## Limit orders -/

namespace MarketState

/-- Neither side of a match pays more than it has for sale, and one of them pays it all. -/
theorem matchedAmounts_spec {usdForSale coreForSale usdReceives coreReceives : Asset} {p : Price}
    (hp : p.Proper) (husd : 0 ≤ usdForSale.amount) (hcore : 0 ≤ coreForSale.amount)
    (hcore' : coreForSale.amount < shareEnd)
    (h : matchedAmounts usdForSale coreForSale p = .ok (usdReceives, coreReceives)) :
    0 ≤ coreReceives.amount ∧ coreReceives.amount ≤ usdForSale.amount ∧
      0 ≤ usdReceives.amount ∧ usdReceives.amount ≤ coreForSale.amount ∧
      (coreReceives = usdForSale ∨ usdReceives = coreForSale) := by
  simp only [matchedAmounts, Checked.bind_eq_ok] at h
  obtain ⟨coreValue, hvalue, takerFills, hle, h⟩ := h
  obtain ⟨hid, hle⟩ := Asset.le_eq_ok.mp hle
  split_ifs at h with hfills <;>
    simp only [Checked.bind_eq_ok, Checked.pure_eq_ok, Prod.mk.injEq] at h
  · obtain ⟨received, hreceived, rfl, rfl⟩ := h
    subst hfills
    exact ⟨husd, le_rfl, times_nonneg hreceived,
      hp.times_back_le hcore hcore' hvalue hid husd (of_decide_eq_true hle) hreceived, .inl rfl⟩
  · obtain ⟨received, hreceived, rfl, rfl⟩ := h
    obtain rfl : coreValue = received := Except.ok.inj (hvalue.symm.trans hreceived)
    rw [Bool.not_eq_true] at hfills
    subst hfills
    exact ⟨times_nonneg hvalue, (not_le.mp (of_decide_eq_false hle)).le, hcore, le_rfl, .inr rfl⟩

variable {s s' : MarketState} {inHand : AssetId → Prop}

/-- How a match of a new order with an old one ends. -/
structure Matched (usd core result : ℕ) (s s' : MarketState) : Prop extends Trade 0 s s' where
  usd_gone : result ≠ 2 → s'.limitOrders.find usd = none
  core_gone : result = 2 → s'.limitOrders.find core = none

theorem matched_of_matchLimitOrders {usd core result : ℕ} {price : Price} (hs : s.Sound inHand)
    (hprice : price.Proper) (hne : usd ≠ core)
    (h : s.matchLimitOrders usd core price = .ok (result, s')) : Matched usd core result s s' := by
  simp only [matchLimitOrders, Checked.bind_eq_ok, deref_eq_ok] at h
  obtain ⟨usdOrder, husd, coreOrder, hcore, ⟨usdReceives, coreReceives⟩, hamounts,
    ⟨usdFilled, s₁⟩, hfillUsd, ⟨coreFilled, s₂⟩, hfillCore, h⟩ := h
  obtain ⟨rfl, rfl⟩ := Prod.mk.inj (Checked.pure_eq_ok.mp h)
  have hsoundUsd := hs.limitOrders _ _ husd
  have hsoundCore := hs.limitOrders _ _ hcore
  obtain ⟨husdPays0, husdPays, hcorePays0, hcorePays, hfull⟩ := matchedAmounts_spec hprice
    hsoundUsd.forSale.le hsoundCore.forSale.le (hsoundCore.le_base.trans_lt hsoundCore.base_lt)
    hamounts
  have hfind : ∀ {key o o'}, s.limitOrders.find key = some o → s.limitOrders.find key = some o' →
      o' = o := fun h h' ↦ Option.some.inj (h'.symm.trans h)
  obtain ⟨husdTrade, husdAll⟩ := trade_of_fillLimitOrder hs.feesNonneg (fun o ho ↦ by
    rw [hfind husd ho]
    exact ⟨hsoundUsd.deferredFee, husdPays0, husdPays⟩) hfillUsd
  have hcore₁ : s₁.limitOrders.find core = some coreOrder :=
    (husdTrade.find_other core hne.symm).trans hcore
  obtain ⟨hcoreTrade, hcoreAll⟩ := trade_of_fillLimitOrder
    (hs.of_frame husdTrade.frame).feesNonneg (fun o ho ↦ by
      rw [Option.some.inj (ho.symm.trans hcore₁)]
      exact ⟨hsoundCore.deferredFee, hcorePays0, hcorePays⟩) hfillCore
  refine ⟨(husdTrade.toTrade.trans hcoreTrade.toTrade).congr (by abel), fun hresult ↦ ?_,
    fun hresult ↦ hcoreTrade.find_self ?_⟩
  · rw [hcoreTrade.find_other usd hne]
    apply husdTrade.find_self
    rcases hfull with heq | heq
    · exact husdAll _ husd heq
    · have hfilled := hcoreAll _ hcore₁ heq
      cases usdFilled <;> simp_all
  · cases usdFilled <;> cases coreFilled <;> simp_all

/-! ## Force settlements -/

theorem trade_of_matchSettlement {call settle : ℕ} {price : Price} {maxSettlement amount : Asset}
    (hs : s.Sound inHand) (hmax : 0 ≤ maxSettlement.amount)
    (h : s.matchSettlement call settle price maxSettlement = .ok (amount, s')) : Trade 0 s s' := by
  simp only [matchSettlement, Checked.bind_eq_ok, deref_eq_ok, require_eq_ok, demand_eq_ok] at h
  obtain ⟨c, hc, o, ho, -, -, -, ⟨hdebt, -, hbalance⟩, capped, hcapped, covered, hcovered, callPays,
    hpays, -, -, -, -, ⟨_, s₁⟩, hfillCall, ⟨_, s₂⟩, hfillSettle, h⟩ := h
  obtain ⟨-, rfl⟩ := Prod.mk.inj (Checked.pure_eq_ok.mp h)
  obtain ⟨-, hcapped⟩ := Asset.lt_eq_ok.mp hcapped
  obtain ⟨-, hcovered⟩ := Asset.lt_eq_ok.mp hcovered
  set forSale := if capped = true then maxSettlement else o.balance with hforSale
  have hforSale0 : 0 ≤ forSale.amount := by
    rw [hforSale]
    split_ifs
    exacts [hmax, hbalance.le]
  have hforSaleLe : forSale.amount ≤ o.balance.amount := by
    rw [hforSale]
    split_ifs with hcap
    · subst hcap
      exact (of_decide_eq_true hcapped).le
    · exact le_rfl
  set receives := if covered = true then c.getDebt else forSale with hreceives
  have hreceives0 : 0 ≤ receives.amount := by
    rw [hreceives]
    split_ifs
    exacts [hdebt.le, hforSale0]
  have hreceivesLe : receives.amount ≤ c.debt ∧ receives.amount ≤ forSale.amount := by
    rw [hreceives]
    split_ifs with hcover
    · subst hcover
      exact ⟨le_rfl, (of_decide_eq_true hcovered).le⟩
    · rw [Bool.not_eq_true] at hcover
      subst hcover
      exact ⟨not_lt.mp (of_decide_eq_false hcovered), le_rfl⟩
  have hcall := trade_of_fillCallOrder (times_nonneg hpays) hreceives0 (fun c' hc' ↦ by
    rw [Option.some.inj (hc'.symm.trans hc)]
    exact hreceivesLe.1) hfillCall
  have hsettle := trade_of_fillSettlement (hs.of_frame hcall.frame).feesNonneg (fun o' ho' ↦ by
    rw [hcall.forceSettlements] at ho'
    rw [Option.some.inj (ho'.symm.trans ho)]
    exact hreceivesLe.2.trans hforSaleLe) hfillSettle
  exact (hcall.toTrade.trans hsettle).congr (by abel)

end MarketState

end KarmaCore.Market
