import Mathlib
import KarmaCore.Lib.IndexRange
import KarmaCore.Market.FairMatch
import KarmaCore.Market.MarginSound

/-!
# The two books of a margin call

The call orders of an asset by their call prices and the limit orders that sell
it by their prices, and what the fills of a margin call leave of both books.
-/

namespace KarmaCore.Market

open Transfer (get get_eq_ok)
open ObjectIndex

/-! ## Prices of one pair by their ratios -/

namespace Price

variable {p q r : Price}

def rate (p : Price) : ℚ := p.base.amount / p.quote.amount

def OfPair (base quote : AssetId) (p : Price) : Prop :=
  p.base.assetId = base ∧ p.quote.assetId = quote

instance (base quote : AssetId) (p : Price) : Decidable (p.OfPair base quote) :=
  inferInstanceAs (Decidable (_ ∧ _))

theorem lt_irrefl (p : Price) : ¬p.Lt p := by
  simp [Lt]

theorem gt_irrefl (p : Price) : ¬p.Gt p := fun h ↦ h (.inl ⟨rfl, rfl, rfl⟩)

/-- The sides of a price are shares, and it can be divided by the second one. -/
structure Comparable (p : Price) : Prop where
  base : 0 ≤ p.base.amount
  base_lt : p.base.amount < shareEnd
  quote : 0 < p.quote.amount
  quote_lt : p.quote.amount < shareEnd

theorem Proper.comparable (hp : p.Proper) : p.Comparable :=
  ⟨hp.base.le, hp.base_lt, hp.quote, hp.quote_lt⟩

theorem Comparable.rate_lt_iff (hp : p.Comparable) (hq : q.Comparable) :
    p.rate < q.rate ↔ p.base.amount * q.quote.amount < q.base.amount * p.quote.amount := by
  have hppos : (0 : ℚ) < p.quote.amount := by exact_mod_cast hp.quote
  have hqpos : (0 : ℚ) < q.quote.amount := by exact_mod_cast hq.quote
  rw [rate, rate, div_lt_div_iff₀ hppos hqpos]
  exact_mod_cast Iff.rfl

theorem Comparable.rate_eq_iff (hp : p.Comparable) (hq : q.Comparable) :
    p.rate = q.rate ↔ p.base.amount * q.quote.amount = q.base.amount * p.quote.amount := by
  have hpne : (p.quote.amount : ℚ) ≠ 0 := by exact_mod_cast hp.quote.ne'
  have hqne : (q.quote.amount : ℚ) ≠ 0 := by exact_mod_cast hq.quote.ne'
  rw [rate, rate, div_eq_div_iff hpne hqne]
  exact_mod_cast Iff.rfl

/-- Prices are ordered by their base, by their quote and then by their ratio. -/
def rank (p : Price) : AssetId ×ₗ AssetId ×ₗ ℚ :=
  toLex (p.base.assetId, toLex (p.quote.assetId, p.rate))

theorem Comparable.products_eq (hp : p.Comparable) (hq : q.Comparable) :
    mul128 q.quote.amount p.base.amount = p.base.amount * q.quote.amount ∧
      mul128 p.quote.amount q.base.amount = q.base.amount * p.quote.amount := by
  rw [mul128_eq hq.quote.le hq.quote_lt hp.base hp.base_lt,
    mul128_eq hp.quote.le hp.quote_lt hq.base hq.base_lt]
  exact ⟨mul_comm _ _, mul_comm _ _⟩

theorem Comparable.lt_iff (hp : p.Comparable) (hq : q.Comparable) : p.Lt q ↔ p.rank < q.rank := by
  obtain ⟨hleft, hright⟩ := hp.products_eq hq
  rw [Lt, hleft, hright, ← hp.rate_lt_iff hq, rank, rank, Prod.Lex.toLex_lt_toLex,
    Prod.Lex.toLex_lt_toLex]

theorem Comparable.same_iff (hp : p.Comparable) (hq : q.Comparable) :
    p.Same q ↔ p.rank = q.rank := by
  obtain ⟨hleft, hright⟩ := hp.products_eq hq
  rw [Same, hleft, hright, ← hp.rate_eq_iff hq, rank, rank, toLex_inj, Prod.mk.injEq, toLex_inj,
    Prod.mk.injEq]

theorem Comparable.gt_iff (hp : p.Comparable) (hq : q.Comparable) : p.Gt q ↔ q.rank < p.rank := by
  rw [Gt, Le, hp.same_iff hq, hp.lt_iff hq, ← le_iff_eq_or_lt, not_le]

theorem Proper.inverse (hp : p.Proper) : p.inverse.Proper :=
  ⟨hp.quote, hp.quote_lt, hp.base, hp.base_lt, hp.assets.symm⟩

theorem rate_inverse (p : Price) : p.inverse.rate = p.rate⁻¹ := (inv_div _ _).symm

theorem Proper.rate_pos (hp : p.Proper) : 0 < p.rate := by
  have hbase : (0 : ℚ) < p.base.amount := by exact_mod_cast hp.base
  have hquote : (0 : ℚ) < p.quote.amount := by exact_mod_cast hp.quote
  exact div_pos hbase hquote

theorem Bounded.proper (h : p.Bounded) (hne : p.base.assetId ≠ p.quote.assetId) : p.Proper :=
  ⟨h.base, h.lt_shareEnd.1, h.quote, h.lt_shareEnd.2, hne⟩

theorem Proper.inverse_le {base quote : AssetId} (hp : p.Proper) (hq : q.Proper)
    (hpair : p.OfPair base quote) (hpair' : q.OfPair base quote) (hnot : ¬q.Lt p) :
    q.inverse.rank ≤ p.inverse.rank := by
  rw [hq.comparable.lt_iff hp.comparable, not_lt, rank, rank, hpair.1, hpair.2, hpair'.1, hpair'.2,
    Prod.Lex.toLex_le_toLex, Prod.Lex.toLex_le_toLex] at hnot
  simp only [lt_self_iff_false, false_or, true_and] at hnot
  have hbase : q.inverse.base.assetId = p.inverse.base.assetId := hpair'.2.trans hpair.2.symm
  have hquote : q.inverse.quote.assetId = p.inverse.quote.assetId := hpair'.1.trans hpair.1.symm
  rw [rank, rank, hbase, hquote, Prod.Lex.toLex_le_toLex, Prod.Lex.toLex_le_toLex, rate_inverse,
    rate_inverse]
  exact .inr ⟨rfl, .inr ⟨rfl, inv_anti₀ hp.rate_pos hnot⟩⟩

/-- A price above the inverse of one is above the inverses of all that are not below it. -/
theorem Comparable.gt_inverse_of_not_lt {base quote : AssetId} (hp : p.Comparable) (hq : q.Proper)
    (hr : r.Proper) (hpair : q.OfPair base quote) (hpair' : r.OfPair base quote)
    (hgt : p.Gt q.inverse) (hnot : ¬r.Lt q) : p.Gt r.inverse := by
  rw [hp.gt_iff hq.inverse.comparable] at hgt
  rw [hp.gt_iff hr.inverse.comparable]
  exact (hq.inverse_le hr hpair hpair' hnot).trans_lt hgt

end Price

namespace MarketState

variable {s s' s'' : MarketState} {id : ℕ} {pays receives : Asset} {filled maker : Bool}
  {price : Price}

/-! ## What a fill leaves of the books -/

/-- Neither book of orders changes. -/
structure SameBooks (s s' : MarketState) : Prop where
  callOrders : s'.callOrders = s.callOrders
  limitOrders : s'.limitOrders = s.limitOrders

theorem SameBooks.refl (s : MarketState) : SameBooks s s := ⟨rfl, rfl⟩

theorem SameBooks.trans (h : SameBooks s s') (h' : SameBooks s' s'') : SameBooks s s'' :=
  ⟨h'.callOrders.trans h.callOrders, h'.limitOrders.trans h.limitOrders⟩

theorem sameBooks_of_whenever {c : Prop} [Decidable c] {f : MarketState → Checked MarketState}
    (hf : ∀ s', f s = .ok s' → SameBooks s s') (h : whenever c f s = .ok s') : SameBooks s s' := by
  rcases whenever_eq_ok.mp h with ⟨-, h⟩ | ⟨-, rfl⟩
  · exact hf s' h
  · exact .refl s

theorem sameBooks_of_adjustBalance {account : AccountId} {delta : Asset}
    (h : s.adjustBalance account delta = .ok s') : SameBooks s s' := by
  simp only [adjustBalance, Checked.bind_eq_ok, Checked.pure_eq_ok] at h
  obtain ⟨balances, -, rfl⟩ := h
  exact ⟨rfl, rfl⟩

theorem sameBooks_of_modifyStatistics {account : AccountId}
    {f : AccountStatistics → Checked AccountStatistics}
    (h : s.modifyStatistics account f = .ok s') : SameBooks s s' := by
  simp only [modifyStatistics, modifyAccount, Checked.bind_eq_ok, Checked.pure_eq_ok] at h
  obtain ⟨a, -, a', -, rfl⟩ := h
  exact ⟨rfl, rfl⟩

theorem sameBooks_of_payMarketFees {asset : AssetId} {fees : Asset}
    (h : s.payMarketFees asset receives = .ok (fees, s')) : SameBooks s s' := by
  simp only [payMarketFees, Checked.bind_eq_ok, Checked.pure_eq_ok] at h
  obtain ⟨a, -, s₁, hpay, heq⟩ := h
  obtain ⟨-, rfl⟩ := Prod.mk.inj heq
  refine sameBooks_of_whenever (fun s₂ h ↦ ?_) hpay
  obtain ⟨a', d, -, -, rfl⟩ := modifyDynamicData_cases h
  exact ⟨rfl, rfl⟩

theorem sameBooks_of_payOrder {account : AccountId}
    (h : s.payOrder account receives pays = .ok s') : SameBooks s s' := by
  simp only [payOrder, Checked.bind_eq_ok] at h
  obtain ⟨s₁, hstats, hbalance⟩ := h
  exact (sameBooks_of_modifyStatistics hstats).trans (sameBooks_of_adjustBalance hbalance)

/-- A limit order after a fill of a part of it. -/
def reducedLimit (pays : Asset) (o : LimitOrderObject) : LimitOrderObject :=
  { o with forSale := o.forSale - pays.amount, deferredFee := 0 }

theorem limitOrders_of_cancelLimitOrder (h : s.cancelLimitOrder id = .ok s') :
    s'.callOrders = s.callOrders ∧ s'.limitOrders = s.limitOrders.remove id := by
  simp only [cancelLimitOrder, Checked.bind_eq_ok, Checked.pure_eq_ok] at h
  obtain ⟨o, -, s₁, hstats, s₂, hrefund, s₃, hfee, rfl⟩ := h
  have hsame := ((sameBooks_of_modifyStatistics hstats).trans
    (sameBooks_of_adjustBalance hrefund)).trans (sameBooks_of_adjustBalance hfee)
  exact ⟨hsame.callOrders, by rw [hsame.limitOrders]⟩

/-- An order that is filled in part leaves the book when its rest asks for nothing. -/
theorem books_of_reduceLimitOrder {o : LimitOrderObject} (ho : s.limitOrders.find id = some o)
    (h : s.reduceLimitOrder id o pays true = .ok (filled, s')) :
    s'.callOrders = s.callOrders ∧
      if pays = o.amountForSale then s'.limitOrders = s.limitOrders.remove id
      else ∃ v, (reducedLimit pays o).amountToReceive = .ok v ∧ s'.limitOrders =
        if v.amount = 0 then s.limitOrders.remove id
        else s.limitOrders.set id (reducedLimit pays o) := by
  unfold reduceLimitOrder at h
  split_ifs at h ⊢ with hall hcull
  · obtain ⟨rfl, rfl⟩ := Prod.mk.inj (Checked.pure_eq_ok.mp h)
    exact ⟨rfl, rfl⟩
  · simp only [Checked.bind_eq_ok, checkedShare_eq_ok, maybeCullSmallOrder, deref_eq_ok] at h
    obtain ⟨_, ⟨-, rfl⟩, o', ho', v, hv, h⟩ := h
    have hset : o' = reducedLimit pays o := by
      rw [find_set ho, if_pos rfl] at ho'
      exact (Option.some.inj ho').symm
    subst hset
    split_ifs at h with hzero
    · simp only [Checked.bind_eq_ok, Checked.pure_eq_ok] at h
      obtain ⟨s₁, hcancel, heq⟩ := h
      obtain ⟨-, rfl⟩ := Prod.mk.inj heq
      obtain ⟨hcalls, hlimits⟩ := limitOrders_of_cancelLimitOrder hcancel
      refine ⟨hcalls, v, hv, ?_⟩
      rw [hlimits, if_pos hzero]
      exact remove_set
    · obtain ⟨-, rfl⟩ := Prod.mk.inj (Checked.pure_eq_ok.mp h)
      exact ⟨rfl, v, hv, (if_neg hzero).symm⟩
  · exact absurd rfl hcull

theorem books_of_fillLimitOrder
    (h : s.fillLimitOrder id pays receives true price maker = .ok (filled, s')) :
    ∃ o, s.limitOrders.find id = some o ∧ o.amountForSale.assetId = pays.assetId ∧
      s'.callOrders = s.callOrders ∧
      if pays = o.amountForSale then s'.limitOrders = s.limitOrders.remove id
      else ∃ v, (reducedLimit pays o).amountToReceive = .ok v ∧ s'.limitOrders =
        if v.amount = 0 then s.limitOrders.remove id
        else s.limitOrders.set id (reducedLimit pays o) := by
  simp only [fillLimitOrder, Checked.bind_eq_ok, deref_eq_ok, require_eq_ok, Bool.true_or] at h
  obtain ⟨o, ho, _, hasset, _, -, _, -, ⟨fee, s₁⟩, hfees, net, -, s₂, hpay, s₃, hdeferred, h⟩ := h
  have hbefore := (sameBooks_of_payMarketFees hfees).trans (sameBooks_of_payOrder hpay)
  have hpushed : SameBooks s (s₂.pushAppliedOperation
      ⟨id, .limit o, pays, receives, fee, price, maker⟩) := ⟨hbefore.callOrders, hbefore.limitOrders⟩
  have hsame := hpushed.trans
    (sameBooks_of_whenever (fun _ h ↦ sameBooks_of_modifyStatistics h) hdeferred)
  obtain ⟨hcalls, hlimits⟩ := books_of_reduceLimitOrder (hsame.limitOrders ▸ ho) h
  rw [hsame.limitOrders] at hlimits
  exact ⟨o, ho, hasset, hcalls.trans hsame.callOrders, hlimits⟩

/-- What is left of a limit order asks for nothing when it is worth less than one share. -/
theorem culled_iff {o : LimitOrderObject} {v : Asset} (ho : o.Sound) (hpays : 0 ≤ pays.amount)
    (hle : pays.amount ≤ o.forSale) (hv : (reducedLimit pays o).amountToReceive = .ok v) :
    v.amount = 0 ↔
      (o.forSale - pays.amount) * o.sellPrice.quote.amount < o.sellPrice.base.amount := by
  have hlow : 0 ≤ (reducedLimit pays o).amountForSale.amount := sub_nonneg.mpr hle
  have hhigh : (reducedLimit pays o).amountForSale.amount < shareEnd := by
    have hbase := ho.le_base.trans_lt ho.base_lt
    change o.forSale - pays.amount < shareEnd
    omega
  have hbase := ho.proper.base
  rcases ho.proper.times_eq hlow hhigh hv with ⟨-, -, hamount⟩ | ⟨hid, -, -⟩
  · rw [hamount]
    change (o.forSale - pays.amount) * o.sellPrice.quote.amount / o.sellPrice.base.amount = 0 ↔ _
    have hnonneg : 0 ≤ (o.forSale - pays.amount) * o.sellPrice.quote.amount :=
      mul_nonneg (sub_nonneg.mpr hle) ho.quote.le
    constructor
    · intro hzero
      by_contra hnot
      have hone := (Int.le_ediv_iff_mul_le hbase).mpr ((one_mul _).trans_le (not_lt.mp hnot))
      omega
    · exact fun hlt ↦ Int.ediv_eq_zero_of_lt hnonneg hlt
  · exact absurd hid ho.assets

/-! ## What a margin call leaves of the books -/

/-- The rest of a limit order after it filled a debt buys less than one share. -/
def RestCulled (debt : ℤ) (o : LimitOrderObject) : Prop :=
  (o.forSale - debt) * o.sellPrice.quote.amount < o.sellPrice.base.amount

instance (debt : ℤ) (o : LimitOrderObject) : Decidable (RestCulled debt o) :=
  inferInstanceAs (Decidable (_ < _))

/-- Both books once a call order was filled with a limit order. -/
structure CallFilled (call limit : ℕ) (c : CallOrderObject) (o : LimitOrderObject)
    (m : MarginMatch) (s s' : MarketState) : Prop where
  filledCall : m.filledCall = decide (c.debt ≤ o.forSale)
  filledLimit : m.filledLimit = decide (o.forSale ≤ c.debt)
  callOrders_filled : c.debt ≤ o.forSale → s'.callOrders = s.callOrders.remove call
  callOrders_part : o.forSale < c.debt → ∃ c', c'.callPrice = c.callPrice ∧
    c'.debt = c.debt - o.forSale ∧ s'.callOrders = s.callOrders.set call c'
  limitOrders_filled : o.forSale ≤ c.debt → s'.limitOrders = s.limitOrders.remove limit
  limitOrders_part : c.debt < o.forSale → s'.limitOrders =
    if RestCulled c.debt o then s.limitOrders.remove limit
    else s.limitOrders.set limit (reducedLimit c.getDebt o)

theorem marginAmounts_cases {usdToBuy usdForSale : Asset} {m : MarginMatch}
    (h : marginAmounts usdToBuy usdForSale price = .ok m) :
    usdToBuy.assetId = usdForSale.assetId ∧
      m.callReceives = (if usdToBuy.amount < usdForSale.amount then usdToBuy else usdForSale) ∧
      m.filledCall = decide (usdToBuy.amount ≤ usdForSale.amount) ∧
      m.filledLimit = decide (usdForSale.amount ≤ usdToBuy.amount) := by
  simp only [marginAmounts, Checked.bind_eq_ok] at h
  obtain ⟨less, hless, h⟩ := h
  obtain ⟨hid, rfl⟩ := Asset.lt_eq_ok.mp hless
  refine ⟨hid, ?_⟩
  split_ifs at h with hcover <;> simp only [Checked.bind_eq_ok, Checked.pure_eq_ok] at h
  · obtain ⟨pays, -, rfl⟩ := h
    have hlt := of_decide_eq_true hcover
    exact ⟨(if_pos hlt).symm, (decide_eq_true hlt.le).symm,
      (decide_eq_false (not_le.mpr hlt)).symm⟩
  · obtain ⟨pays, -, rfl⟩ := h
    have hnot : ¬usdToBuy.amount < usdForSale.amount := fun hlt ↦ hcover (decide_eq_true hlt)
    have heq : usdToBuy = usdForSale ↔ usdToBuy.amount ≤ usdForSale.amount := by
      constructor
      · rintro rfl
        exact le_rfl
      · intro hle
        cases usdToBuy
        cases usdForSale
        simp_all only [Asset.mk.injEq]
        exact ⟨le_antisymm hle (not_lt.mp hnot), trivial⟩
    exact ⟨(if_neg hnot).symm, decide_eq_decide.mpr heq,
      (decide_eq_true (not_lt.mp hnot)).symm⟩

theorem callFilled_of_marginCall {mia : AssetId} {feedPrice : Price} {enable forNew called : Bool}
    {call limit : ℕ} {c : CallOrderObject} {o : LimitOrderObject} {m : MarginMatch}
    (hc : s.callOrders.find call = some c) (ho : s.limitOrders.find limit = some o)
    (hdebt : 0 < c.debt) (hsound : o.Sound)
    (h : s.marginCall mia feedPrice enable forNew called call limit = .ok (.filled m s')) :
    CallFilled call limit c o m s s' := by
  simp only [marginCall, Checked.bind_eq_ok, deref_eq_ok] at h
  obtain ⟨o', ho', -, -, c', hc', h⟩ := h
  obtain rfl := Option.some.inj (ho.symm.trans ho')
  obtain rfl := Option.some.inj (hc.symm.trans hc')
  split_ifs at h <;> simp only [Checked.bind_eq_ok, Checked.pure_eq_ok, reduceCtorEq] at h
  obtain ⟨value, -, backed, -, h⟩ := h
  split_ifs at h <;>
    simp only [Checked.bind_eq_ok, Checked.pure_eq_ok, reduceCtorEq, and_false, exists_false] at h
  obtain ⟨m', hm, ⟨filledCall, s₁⟩, hfillCall, ⟨filledLimit, s₂⟩, hfillLimit, heq⟩ := h
  obtain ⟨rfl, rfl⟩ := MarginTurn.filled.inj heq
  obtain ⟨hid, hreceives, hcall, hlimit⟩ := marginAmounts_cases hm
  obtain ⟨c', a, t, hc', -, -, -, -, hpaid, hend⟩ := fillCallOrder_cases hfillCall
  obtain rfl := Option.some.inj (hc.symm.trans hc')
  have hset : t.callOrders = s.callOrders.set call (reducedCall m'.callPays m'.callReceives c) :=
    hpaid.callOrders
  have hlimits₁ : s₁.limitOrders = s.limitOrders := by
    split_ifs at hend
    · obtain ⟨-, rfl⟩ := hend
      exact hpaid.limitOrders
    · obtain ⟨-, rfl⟩ := hend
      exact hpaid.limitOrders
  obtain ⟨o', ho', -, hcalls, hlimits⟩ := books_of_fillLimitOrder hfillLimit
  rw [hlimits₁] at ho' hlimits
  obtain rfl := Option.some.inj (ho.symm.trans ho')
  have hdebtAmount : c.getDebt.amount = c.debt := rfl
  have hsaleAmount : o.amountForSale.amount = o.forSale := rfl
  rw [hdebtAmount, hsaleAmount] at hreceives hcall hlimit
  refine ⟨hcall, hlimit, fun hle ↦ ?_, fun hlt ↦ ?_, fun hle ↦ ?_, fun hlt ↦ ?_⟩
  · -- the whole debt is bought
    have hzero : c.debt - m'.callReceives.amount = 0 := by
      rw [hreceives]
      split_ifs with hless
      · rw [hdebtAmount, sub_self]
      · rw [hsaleAmount, le_antisymm hle (not_lt.mp hless), sub_self]
    rw [if_pos hzero] at hend
    obtain ⟨-, rfl⟩ := hend
    rw [hcalls]
    change t.callOrders.remove call = _
    rw [hset, remove_set]
  · have hpart : m'.callReceives = o.amountForSale := by rw [hreceives, if_neg (not_lt.mpr hlt.le)]
    have hrest : ¬c.debt - m'.callReceives.amount = 0 := by
      rw [hpart, hsaleAmount]
      omega
    rw [if_neg hrest] at hend
    obtain ⟨-, rfl⟩ := hend
    refine ⟨reducedCall m'.callPays m'.callReceives c, rfl, ?_, hcalls.trans hset⟩
    change c.debt - m'.callReceives.amount = _
    rw [hpart, hsaleAmount]
  · have hall : m'.callReceives = o.amountForSale := by rw [hreceives, if_neg (not_lt.mpr hle)]
    rwa [if_pos hall] at hlimits
  · have hpart : m'.callReceives = c.getDebt := by rw [hreceives, if_pos hlt]
    have hne : ¬m'.callReceives = o.amountForSale := by
      intro heq
      have hamount := congrArg Asset.amount (hpart.symm.trans heq)
      rw [hdebtAmount, hsaleAmount] at hamount
      omega
    rw [if_neg hne, hpart] at hlimits
    obtain ⟨v, hv, hlimits⟩ := hlimits
    have hculled : v.amount = 0 ↔ RestCulled c.debt o := culled_iff hsound hdebt.le hlt.le hv
    simpa only [hculled] using hlimits

end MarketState

end KarmaCore.Market
