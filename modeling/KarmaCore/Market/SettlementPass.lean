import Mathlib
import KarmaCore.Market.BookOrder
import KarmaCore.Market.Maintenance

/-!
# The pass over the force settlements

The loop of `clear_expired_orders` seeks its place again in every turn: a turn
takes a settlement out of the index, moves on to a later asset, or reaches the
volume of its asset, with which the next turn moves on.
-/

namespace KarmaCore.Market

open Transfer (get get_eq_ok)
open ObjectIndex

namespace MarketState

variable {s s' s'' : MarketState} {mia key : AssetId} {id : ℕ} {pays receives : Asset}
  {filled maker : Bool} {price : Price}

/-! ## What a settlement leaves of the assets -/

def bitassetOf (key : AssetId) (s : MarketState) : Option AssetBitassetData :=
  (s.assets.find key).bind AssetObject.bitassetData

/-- Only the supply of one asset changes. -/
structure CoversOnly (mia : AssetId) (s s' : MarketState) : Prop where
  bitasset : ∀ key, s'.bitassetOf key = s.bitassetOf key
  supply : ∀ key, key ≠ mia → s'.currentSupply key = s.currentSupply key

theorem CoversOnly.of_assets (h : s'.assets = s.assets) : CoversOnly mia s s' :=
  ⟨fun key ↦ by rw [bitassetOf, bitassetOf, h], fun key _ ↦ by rw [currentSupply, currentSupply, h]⟩

theorem CoversOnly.trans (h : CoversOnly mia s s') (h' : CoversOnly mia s' s'') :
    CoversOnly mia s s'' :=
  ⟨fun key ↦ (h'.bitasset key).trans (h.bitasset key),
    fun key hkey ↦ (h'.supply key hkey).trans (h.supply key hkey)⟩

theorem coversOnly_of_whenever {c : Prop} [Decidable c] {f : MarketState → Checked MarketState}
    (hf : ∀ s', f s = .ok s' → CoversOnly mia s s') (h : whenever c f s = .ok s') :
    CoversOnly mia s s' := by
  rcases whenever_eq_ok.mp h with ⟨-, h⟩ | ⟨-, rfl⟩
  · exact hf s' h
  · exact .of_assets rfl

theorem coversOnly_of_adjustBalance {account : AccountId} {delta : Asset}
    (h : s.adjustBalance account delta = .ok s') : CoversOnly mia s s' := by
  simp only [adjustBalance, Checked.bind_eq_ok, Checked.pure_eq_ok] at h
  obtain ⟨balances, -, rfl⟩ := h
  exact .of_assets rfl

theorem coversOnly_of_modifyStatistics {account : AccountId}
    {f : AccountStatistics → Checked AccountStatistics}
    (h : s.modifyStatistics account f = .ok s') : CoversOnly mia s s' := by
  simp only [modifyStatistics, modifyAccount, Checked.bind_eq_ok, Checked.pure_eq_ok] at h
  obtain ⟨a, -, a', -, rfl⟩ := h
  exact .of_assets rfl

theorem coversOnly_of_modifyDynamicData {f : AssetDynamicData → Checked AssetDynamicData}
    (hf : ∀ d d', key ≠ mia → f d = .ok d' → d'.currentSupply = d.currentSupply)
    (h : s.modifyDynamicData key f = .ok s') : CoversOnly mia s s' := by
  obtain ⟨a, d, ha, hd, rfl⟩ := modifyDynamicData_cases h
  constructor
  · intro other
    rw [bitassetOf, bitassetOf, find_setAsset ha]
    split_ifs with hother
    · rw [hother, ha]
      rfl
    · rfl
  · intro other hmia
    rw [currentSupply_setAsset ha]
    split_ifs with hother
    · rw [hother, currentSupply_of_find ha]
      exact hf _ _ (hother ▸ hmia) hd
    · rfl

theorem coversOnly_of_payMarketFees {asset : AssetId} {fees : Asset}
    (h : s.payMarketFees asset receives = .ok (fees, s')) : CoversOnly mia s s' := by
  simp only [payMarketFees, Checked.bind_eq_ok, Checked.pure_eq_ok] at h
  obtain ⟨a, -, s₁, hpay, heq⟩ := h
  obtain ⟨-, rfl⟩ := Prod.mk.inj heq
  refine coversOnly_of_whenever (fun s₂ h ↦ coversOnly_of_modifyDynamicData ?_ h) hpay
  intro d d' _ hd
  simp only [Checked.bind_eq_ok, Checked.pure_eq_ok] at hd
  obtain ⟨x, -, rfl⟩ := hd
  rfl

theorem coversOnly_of_fillCallOrder
    (h : s.fillCallOrder id pays receives price maker = .ok (filled, s')) :
    CoversOnly receives.assetId s s' := by
  simp only [fillCallOrder, Checked.bind_eq_ok, deref_eq_ok, require_eq_ok] at h
  obtain ⟨c, -, -, -, -, -, -, -, debt, -, collateral, -, s₁, hsupply, -, -, s₂, hborrower, h⟩ := h
  have hcover : CoversOnly receives.assetId _ s₁ := coversOnly_of_modifyDynamicData
    (fun _ _ hne _ ↦ absurd rfl hne) hsupply
  have hpaid : CoversOnly receives.assetId s₁ s₂ := by
    refine coversOnly_of_whenever (fun s₃ h ↦ ?_) hborrower
    simp only [Checked.bind_eq_ok] at h
    obtain ⟨s₄, hfreed, hstats⟩ := h
    have hfreed : CoversOnly receives.assetId s₁ s₄ := by
      unfold payBorrower at hfreed
      split at hfreed
      · exact coversOnly_of_adjustBalance hfreed
      · obtain rfl := Except.ok.inj hfreed
        exact .of_assets rfl
    exact hfreed.trans (coversOnly_of_modifyStatistics hstats)
  have hstart : CoversOnly receives.assetId s { s with
      callOrders := s.callOrders.set id { c with debt, collateral := if debt = 0 then 0 else collateral } } :=
    .of_assets rfl
  split_ifs at h
  all_goals
    obtain ⟨-, rfl⟩ := Prod.mk.inj (Checked.pure_eq_ok.mp h)
    exact (hstart.trans (hcover.trans hpaid)).trans (.of_assets rfl)

theorem payMarketFees_cases {asset : AssetId} {fees : Asset}
    (h : s.payMarketFees asset receives = .ok (fees, s')) : ∃ assets, s' = { s with assets } := by
  simp only [payMarketFees, Checked.bind_eq_ok, Checked.pure_eq_ok] at h
  obtain ⟨a, -, s₁, hpay, heq⟩ := h
  obtain ⟨-, rfl⟩ := Prod.mk.inj heq
  rcases whenever_eq_ok.mp hpay with ⟨-, hpay⟩ | ⟨-, rfl⟩
  · obtain ⟨a', d, -, -, rfl⟩ := modifyDynamicData_cases hpay
    exact ⟨_, rfl⟩
  · exact ⟨_, rfl⟩

/-- A settlement that was filled is gone or keeps its asset. -/
structure SettlementFilled (id : ℕ) (pays : Asset) (s s' : MarketState) : Prop where
  covers : ∀ mia, CoversOnly mia s s'
  callOrders : s'.callOrders = s.callOrders
  settlements : ∃ o, s.forceSettlements.find id = some o ∧ o.balance.assetId = pays.assetId ∧
    (s'.forceSettlements = s.forceSettlements.remove id ∨ pays.amount < o.balance.amount ∧
      ∃ o', o'.balance.assetId = o.balance.assetId ∧
        s'.forceSettlements = s.forceSettlements.set id o')

theorem settlementFilled_of_fillSettlement
    (h : s.fillSettlement id pays receives price maker = .ok (filled, s')) :
    SettlementFilled id pays s s' := by
  simp only [fillSettlement, Checked.bind_eq_ok, deref_eq_ok] at h
  obtain ⟨o, ho, ⟨fees, s₁⟩, hfees, isPart, hpart, s₂, hreduce, net, -, s₃, hpay, h⟩ := h
  obtain ⟨hid, rfl⟩ := Asset.lt_eq_ok.mp hpart
  have hcoversFees : ∀ mia, CoversOnly mia s s₁ := fun mia ↦ coversOnly_of_payMarketFees hfees
  obtain ⟨assets, rfl⟩ := payMarketFees_cases hfees
  simp only [adjustBalance, Checked.bind_eq_ok, Checked.pure_eq_ok] at hpay
  obtain ⟨balances, -, rfl⟩ := hpay
  rcases whenever_eq_ok.mp hreduce with ⟨hlt, hreduce⟩ | ⟨hnot, rfl⟩
  · simp only [Checked.bind_eq_ok, Checked.pure_eq_ok, Asset.sub_eq_ok] at hreduce
    obtain ⟨_, ⟨-, -, rfl⟩, rfl⟩ := hreduce
    rw [if_pos hlt] at h
    obtain ⟨-, rfl⟩ := Prod.mk.inj (Checked.pure_eq_ok.mp h)
    exact ⟨fun mia ↦ (hcoversFees mia).trans (.of_assets rfl), rfl, o, ho, hid.symm,
      .inr ⟨of_decide_eq_true hlt,
        { o with balance := ⟨o.balance.amount - pays.amount, o.balance.assetId⟩ }, rfl, rfl⟩⟩
  · rw [if_neg hnot] at h
    obtain ⟨-, rfl⟩ := Prod.mk.inj (Checked.pure_eq_ok.mp h)
    exact ⟨fun mia ↦ (hcoversFees mia).trans (.of_assets rfl), rfl, o, ho, hid.symm, .inl rfl⟩

/-- One match of a settlement with a call order. -/
structure Settles (mia : AssetId) (call id : ℕ) (room : ℤ) (amount : Asset) (s s' : MarketState) :
    Prop where
  nonneg : 0 < room → 0 ≤ amount.amount
  le_room : amount.amount ≤ room
  covers : CoversOnly mia s s'
  calls : ∃ c, s.callOrders.find call = some c ∧ c.debtType = mia ∧ amount.amount ≤ c.debt ∧
    (amount.amount = c.debt ∧ s'.callOrders = s.callOrders.remove call ∨
      amount.amount < c.debt ∧ ∃ pays, 0 ≤ pays ∧ pays ≤ c.collateral ∧
        s'.callOrders = s.callOrders.set call
          { c with debt := c.debt - amount.amount, collateral := c.collateral - pays })
  settlements : s'.forceSettlements = s.forceSettlements.remove id ∨
    ∃ o o', s.forceSettlements.find id = some o ∧ o'.balance.assetId = o.balance.assetId ∧
      s'.forceSettlements = s.forceSettlements.set id o'
  ends : s'.callOrders = s.callOrders.remove call ∨
    s'.forceSettlements = s.forceSettlements.remove id ∨ amount.amount = room

theorem settles_of_matchSettlement {call : ℕ} {room : ℤ} {amount : Asset}
    {o : ForceSettlementObject} (ho : s.forceSettlements.find id = some o)
    (hmia : o.balance.assetId = mia)
    (h : s.matchSettlement call id price ⟨room, mia⟩ = .ok (amount, s')) :
    Settles mia call id room amount s s' := by
  simp only [matchSettlement, Checked.bind_eq_ok, deref_eq_ok, require_eq_ok, demand_eq_ok] at h
  obtain ⟨c, hc, o', ho', -, hdebtType, -, ⟨hdebt, -, hbalance⟩, capped, hcapped, covered, hcovered,
    callPays, hpays, -, -, -, -, ⟨filledCall, s₁⟩, hfillCall, ⟨filledSettle, s₂⟩, hfillSettle, h⟩ := h
  obtain ⟨rfl, rfl⟩ := Prod.mk.inj (Checked.pure_eq_ok.mp h)
  obtain rfl := Option.some.inj (ho.symm.trans ho')
  obtain ⟨-, hcapped⟩ := Asset.lt_eq_ok.mp hcapped
  obtain ⟨-, hcovered⟩ := Asset.lt_eq_ok.mp hcovered
  set forSale : Asset := if capped = true then ⟨room, mia⟩ else o.balance with hforSale
  set amount : Asset := if covered = true then c.getDebt else forSale with hamount
  have hforSale_asset : forSale.assetId = mia := by
    rw [hforSale]
    split_ifs
    · rfl
    · exact hmia
  have hforSale_le : forSale.amount ≤ room := by
    rw [hforSale]
    split_ifs with hcap
    · exact le_rfl
    · rw [Bool.not_eq_true] at hcap
      rw [hcap] at hcapped
      exact not_lt.mp (of_decide_eq_false hcapped)
  have hforSale_nonneg : 0 < room → 0 ≤ forSale.amount := fun hroom ↦ by
    rw [hforSale]
    split_ifs
    · exact hroom.le
    · exact hbalance.le
  have hdebt_asset : c.debtType = mia := hdebtType.trans hmia
  have hamount_asset : amount.assetId = mia := by
    rw [hamount]
    split_ifs
    · exact hdebt_asset
    · exact hforSale_asset
  have hamount_le : amount.amount ≤ c.debt ∧ amount.amount ≤ forSale.amount := by
    rw [hamount]
    split_ifs with hcover
    · rw [hcover] at hcovered
      exact ⟨le_rfl, (of_decide_eq_true hcovered).le⟩
    · rw [Bool.not_eq_true] at hcover
      rw [hcover] at hcovered
      exact ⟨not_lt.mp (of_decide_eq_false hcovered), le_rfl⟩
  have hamount_nonneg : 0 < room → 0 ≤ amount.amount := fun hroom ↦ by
    rw [hamount]
    split_ifs
    · exact hdebt.le
    · exact hforSale_nonneg hroom
  have hcoversCall : CoversOnly mia s s₁ := hamount_asset ▸ coversOnly_of_fillCallOrder hfillCall
  obtain ⟨c', a, t, hc', -, -, hbacked, -, hpaid, hend⟩ := fillCallOrder_cases hfillCall
  obtain rfl := Option.some.inj (hc.symm.trans hc')
  obtain ⟨hcoversSettle, hcallsSame, o', ho', -, hsettlements⟩ :=
    settlementFilled_of_fillSettlement hfillSettle
  have hset : t.callOrders = s.callOrders.set call (reducedCall callPays amount c) := hpaid.callOrders
  have hsettle₁ : s₁.forceSettlements = s.forceSettlements := by
    split_ifs at hend
    · obtain ⟨-, rfl⟩ := hend
      exact hpaid.forceSettlements
    · obtain ⟨-, rfl⟩ := hend
      exact hpaid.forceSettlements
  rw [hsettle₁] at ho' hsettlements
  obtain rfl := Option.some.inj (ho.symm.trans ho')
  have hcalls : amount.amount = c.debt ∧ s₂.callOrders = s.callOrders.remove call ∨
      amount.amount < c.debt ∧ ∃ pays, 0 ≤ pays ∧ pays ≤ c.collateral ∧
        s₂.callOrders = s.callOrders.set call
          { c with debt := c.debt - amount.amount, collateral := c.collateral - pays } := by
    split_ifs at hend with hzero
    · obtain ⟨-, rfl⟩ := hend
      refine .inl ⟨by omega, hcallsSame.trans ?_⟩
      change t.callOrders.remove call = _
      rw [hset, remove_set]
    · obtain ⟨-, rfl⟩ := hend
      refine .inr ⟨by omega, callPays.amount, times_nonneg hpays, hbacked, ?_⟩
      rw [hcallsSame, hset, reducedCall]
      simp only [if_neg hzero]
  refine ⟨hamount_nonneg, hamount_le.2.trans hforSale_le, hcoversCall.trans (hcoversSettle mia),
    ⟨c, hc, hdebt_asset, hamount_le.1, hcalls⟩, ?_, ?_⟩
  · rcases hsettlements with hgone | ⟨-, o', hasset, hset⟩
    · exact .inl hgone
    · exact .inr ⟨o, o', ho, hasset, hset⟩
  · rcases hcalls with ⟨-, hgone⟩ | ⟨hpart, -⟩
    · exact .inl hgone
    · -- the debt was not covered, so that all that was for sale was taken
      have hnot : ¬covered = true := by
        intro hcover
        rw [hamount, if_pos hcover] at hpart
        exact lt_irrefl _ hpart
      rcases hsettlements with hgone | ⟨hless, -⟩
      · exact .inr (.inl hgone)
      · rw [hamount, if_neg hnot] at hless ⊢
        rw [hforSale] at hless ⊢
        split_ifs at hless ⊢
        · exact .inr (.inr rfl)
        · exact absurd hless (lt_irrefl _)

/-! ## The least collateralized call order -/

/-- The collateral of a call order by its debt. -/
def ratio (c : CallOrderObject) : Price := ⟨c.getCollateral, c.getDebt⟩

/-- The amounts of the call orders are shares, and each bears debt. -/
def CallsTyped (s : MarketState) : Prop :=
  ∀ id c, s.callOrders.find id = some c →
    0 < c.debt ∧ c.debt < shareEnd ∧ 0 ≤ c.collateral ∧ c.collateral < shareEnd

/-- The order is at `lower_bound(lowest)`: none from there on has less collateral for its debt. -/
def LeastBacked (lowest : Price) (call : ℕ) (s : MarketState) : Prop :=
  ∃ c, s.callOrders.find call = some c ∧ ¬(ratio c).Lt lowest ∧
    ∀ id c', s.callOrders.find id = some c' → ¬(ratio c').Lt lowest → ¬(ratio c').Lt (ratio c)

/-- The call orders the loop has before it, the least collateralized first. -/
abbrev ListsCalls (lowest : Price) (calls : List ℕ) (s : MarketState) : Prop :=
  Lists ratio (fun p ↦ ¬p.Lt lowest) (fun p q ↦ q.Lt p) s.callOrders calls

theorem listsCalls_of_typed {lowest : Price} (hs : s.CallsTyped) :
    s.ListsCalls lowest ((s.callsByCollateral lowest).map Prod.fst) := by
  have hratio : ∀ {id c}, s.callOrders.find id = some c → (ratio c).Comparable := fun hc ↦ by
    obtain ⟨hdebt, hdebt', hcollateral, hcollateral'⟩ := hs _ _ hc
    exact ⟨hcollateral, hcollateral', hdebt, hdebt'⟩
  refine lists_select ratio (fun p ↦ ¬p.Lt lowest) (fun p q ↦ q.Lt p) s.callOrders
    (fun i c j c' hc hc' _ _ hless ↦ ?_) fun i c j c' k c'' hc hc' hc'' _ _ _ hnot hnot' ↦ ?_
  · rw [(hratio hc').lt_iff (hratio hc)] at hless
    rw [(hratio hc).lt_iff (hratio hc')]
    exact hless.le.not_gt
  · rw [(hratio hc').lt_iff (hratio hc), not_lt] at hnot
    rw [(hratio hc'').lt_iff (hratio hc'), not_lt] at hnot'
    rw [(hratio hc'').lt_iff (hratio hc), not_lt]
    exact hnot.trans hnot'

theorem leastBacked_of_lists {lowest : Price} {call : ℕ} {calls : List ℕ}
    (h : s.ListsCalls lowest (call :: calls)) : LeastBacked lowest call s := by
  obtain ⟨c, hc, hrange, hfirst⟩ := h.head
  refine ⟨c, hc, hrange, fun id c' hc' hrange' ↦ ?_⟩
  by_cases hid : id = call
  · rw [hid, hc] at hc'
    rw [← Option.some.inj hc']
    exact Price.lt_irrefl _
  · exact hfirst id c' hid hc' hrange'

theorem Settles.callsTyped {call : ℕ} {room : ℤ} {amount : Asset} (hs : s.CallsTyped)
    (hroom : 0 < room) (h : Settles mia call id room amount s s') : s'.CallsTyped := by
  obtain ⟨c, hc, -, -, hcalls⟩ := h.calls
  intro key c' hc'
  rcases hcalls with ⟨-, hgone⟩ | ⟨hpart, pays, hpays, hbacked, hset⟩
  · rw [hgone, find_remove] at hc'
    split_ifs at hc'
    exact hs key c' hc'
  · rw [hset, find_set hc] at hc'
    split_ifs at hc'
    · obtain ⟨hdebt, hdebt', hcollateral, hcollateral'⟩ := hs call c hc
      have hnonneg := h.nonneg hroom
      rw [← Option.some.inj hc']
      dsimp only
      omega
    · exact hs key c' hc'

/-! ## Settling one order -/

/-- What settling one order may do to the index: the order stays as it is, it is reduced, or it
leaves. -/
inductive OnlySettles (id : ℕ) (s s' : MarketState) : Prop
  | same (h : s'.forceSettlements = s.forceSettlements)
  | reduced (o o' : ForceSettlementObject) (ho : s.forceSettlements.find id = some o)
      (hasset : o'.balance.assetId = o.balance.assetId)
      (h : s'.forceSettlements = s.forceSettlements.set id o')
  | gone (o : ForceSettlementObject) (ho : s.forceSettlements.find id = some o)
      (h : s'.forceSettlements = s.forceSettlements.remove id)

theorem OnlySettles.trans (h : OnlySettles id s s') (h' : OnlySettles id s' s'') :
    OnlySettles id s s'' := by
  rcases h with hsame | ⟨o, o₁, ho, hasset, hset⟩ | ⟨o, ho, hgone⟩
  · rcases h' with hsame' | ⟨o', o₂, ho', hasset', hset'⟩ | ⟨o', ho', hgone'⟩
    · exact .same (hsame'.trans hsame)
    · exact .reduced o' o₂ (hsame ▸ ho') hasset' (hsame ▸ hset')
    · exact .gone o' (hsame ▸ ho') (hsame ▸ hgone')
  · have hfind : s'.forceSettlements.find id = some o₁ := by
      rw [hset, find_set ho, if_pos rfl]
    rcases h' with hsame' | ⟨o', o₂, ho', hasset', hset'⟩ | ⟨o', ho', hgone'⟩
    · exact .reduced o o₁ ho hasset (hsame'.trans hset)
    · obtain rfl := Option.some.inj (hfind.symm.trans ho')
      exact .reduced o o₂ ho (hasset'.trans hasset) (by rw [hset', hset, set_set])
    · exact .gone o ho (by rw [hgone', hset, remove_set])
  · have hfind : s'.forceSettlements.find id = none := by
      rw [hgone, find_remove, if_pos rfl]
    rcases h' with hsame' | ⟨o', o₂, ho', -, -⟩ | ⟨o', ho', -⟩
    · exact .gone o ho (hsame'.trans hgone)
    · exact absurd (hfind.symm.trans ho') (by simp)
    · exact absurd (hfind.symm.trans ho') (by simp)

theorem OnlySettles.asset_eq {o o' : ForceSettlementObject} (h : OnlySettles id s s')
    (ho : s.forceSettlements.find id = some o) (ho' : s'.forceSettlements.find id = some o') :
    o'.balance.assetId = o.balance.assetId := by
  rcases h with hsame | ⟨o₁, o₂, ho₁, hasset, hset⟩ | ⟨o₁, ho₁, hgone⟩
  · rw [hsame, ho] at ho'
    rw [Option.some.inj ho']
  · rw [hset, find_set ho₁, if_pos rfl] at ho'
    rw [← Option.some.inj ho', hasset, Option.some.inj (ho.symm.trans ho₁)]
  · rw [hgone, find_remove, if_pos rfl] at ho'
    cases ho'

theorem OnlySettles.gone_of_find {o : ForceSettlementObject} (h : OnlySettles id s s')
    (ho : s.forceSettlements.find id = some o) (hnone : s'.forceSettlements.find id = none) :
    s'.forceSettlements = s.forceSettlements.remove id := by
  rcases h with hsame | ⟨o₁, o₂, ho₁, -, hset⟩ | ⟨o₁, ho₁, hgone⟩
  · rw [hsame, ho] at hnone
    cases hnone
  · rw [hset, find_set ho₁, if_pos rfl] at hnone
    cases hnone
  · exact hgone

theorem onlySettles_of_cancelSettlement (h : s.cancelSettlement id = .ok s') :
    (∃ o, s.forceSettlements.find id = some o) ∧
      s'.forceSettlements = s.forceSettlements.remove id ∧ s'.assets = s.assets ∧
      s'.callOrders = s.callOrders := by
  simp only [cancelSettlement, Checked.bind_eq_ok, Checked.pure_eq_ok, deref_eq_ok, adjustBalance] at h
  obtain ⟨o, ho, s₁, ⟨balances, -, rfl⟩, rfl⟩ := h
  exact ⟨⟨o, ho⟩, rfl, rfl, rfl⟩

/-- The turns of the inner loop: each takes from the call order that is the least collateralized
one at that moment. -/
inductive SettleRun (mia : AssetId) (id : ℕ) (price : Price) (maxVolume : ℤ) (lowest : Price) :
    ℤ → MarketState → ℤ → MarketState → Prop
  | ends (settled : ℤ) (s : MarketState)
      (h : s.forceSettlements.find id = none ∨ maxVolume ≤ settled) :
      SettleRun mia id price maxVolume lowest settled s settled s
  | cancels (settled : ℤ) (s s' : MarketState) (h : s.cancelSettlement id = .ok s') :
      SettleRun mia id price maxVolume lowest settled s settled s'
  | takes (call : ℕ) (amount : Asset) (settled settled' : ℤ) (s s₁ s' : MarketState)
      (hroom : settled < maxVolume) (hleast : LeastBacked lowest call s)
      (hmatch : s.matchSettlement call id price ⟨maxVolume - settled, mia⟩ = .ok (amount, s₁))
      (hrest : SettleRun mia id price maxVolume lowest (settled + amount.amount) s₁ settled' s') :
      SettleRun mia id price maxVolume lowest settled s settled' s'

theorem settleOrder_ends {maxVolume settled : ℤ} {calls : List ℕ}
    (h : s.forceSettlements.find id = none ∨ maxVolume ≤ settled) :
    settleOrder mia id price maxVolume calls settled s = .ok (settled, s) := by
  cases calls <;> rw [settleOrder] <;> rcases hfind : s.forceSettlements.find id with _ | o
  all_goals first
    | rfl
    | rcases h with hnone | hle
      · exact absurd (hfind.symm.trans hnone) (by simp)
      · dsimp only
        rw [if_neg (not_lt.mpr hle)]

theorem settleRun_of_settleOrder {maxVolume settled settled' : ℤ} {lowest : Price}
    {calls : List ℕ} (hs : s.CallsTyped)
    (hasset : ∀ o, s.forceSettlements.find id = some o → o.balance.assetId = mia)
    (hlists : s.ListsCalls lowest calls)
    (h : settleOrder mia id price maxVolume calls settled s = .ok (settled', s')) :
    SettleRun mia id price maxVolume lowest settled s settled' s' := by
  induction calls generalizing settled s with
  | nil =>
      rw [settleOrder] at h
      split at h
      · rename_i hfind
        obtain ⟨rfl, rfl⟩ := Prod.mk.inj (Except.ok.inj h)
        exact .ends settled s (.inl hfind)
      · split_ifs at h with hroom
        obtain ⟨rfl, rfl⟩ := Prod.mk.inj (Except.ok.inj h)
        exact .ends settled s (.inr (not_lt.mp hroom))
  | cons call calls ih =>
      rw [settleOrder] at h
      split at h
      · rename_i hfind
        obtain ⟨rfl, rfl⟩ := Prod.mk.inj (Except.ok.inj h)
        exact .ends settled s (.inl hfind)
      · rename_i o hfind
        split_ifs at h with hroom hzero
        · simp only [Checked.bind_eq_ok, Checked.pure_eq_ok] at h
          obtain ⟨t, hcancel, heq⟩ := h
          obtain ⟨rfl, rfl⟩ := Prod.mk.inj heq
          exact .cancels settled s t hcancel
        · dsimp only at h
          split at h
          · rename_i amount t hmatch
            simp only [Checked.bind_eq_ok, checkedShare_eq_ok] at h
            obtain ⟨_, ⟨-, rfl⟩, h⟩ := h
            have hsettles := settles_of_matchSettlement hfind (hasset o hfind) hmatch
            refine .takes call amount settled settled' s t s' hroom (leastBacked_of_lists hlists) hmatch
              ?_
            rcases hsettles.ends with hcalls | hgone | hall
            · refine ih (hsettles.callsTyped hs (sub_pos.mpr hroom)) (fun o' ho' ↦ ?_) ?_ h
              · rcases hsettles.settlements with hgone | ⟨o₁, o₂, ho₁, hsame, hset⟩
                · rw [hgone, find_remove, if_pos rfl] at ho'
                  cases ho'
                · rw [hset, find_set ho₁, if_pos rfl] at ho'
                  rw [← Option.some.inj ho', hsame]
                  exact hasset o₁ ho₁
              · unfold ListsCalls
                rw [hcalls]
                exact hlists.remove_head
            · have hfind' : t.forceSettlements.find id = none := by
                rw [hgone, find_remove, if_pos rfl]
              rw [settleOrder_ends (.inl hfind')] at h
              obtain ⟨rfl, rfl⟩ := Prod.mk.inj (Except.ok.inj h)
              exact .ends _ _ (.inl hfind')
            · have hfull : maxVolume ≤ settled + amount.amount := by omega
              rw [settleOrder_ends (.inr hfull)] at h
              obtain ⟨rfl, rfl⟩ := Prod.mk.inj (Except.ok.inj h)
              exact .ends _ _ (.inr hfull)
          · simp only [Checked.bind_eq_ok, Checked.pure_eq_ok] at h
            obtain ⟨t, hcancel, heq⟩ := h
            obtain ⟨rfl, rfl⟩ := Prod.mk.inj heq
            exact .cancels settled s t hcancel
          · cases h
        · obtain ⟨rfl, rfl⟩ := Prod.mk.inj (Except.ok.inj h)
          exact .ends settled s (.inr (not_lt.mp hroom))

/-- What a run of the inner loop leaves. -/
structure SettleEnd (mia : AssetId) (id : ℕ) (maxVolume settled settled' : ℤ) (s s' : MarketState) :
    Prop where
  volume : settled ≤ maxVolume → settled' ≤ maxVolume
  grows : settled ≤ settled'
  covers : CoversOnly mia s s'
  typed : s'.CallsTyped
  only : OnlySettles id s s'
  ends : s'.forceSettlements.find id = none ∨ maxVolume ≤ settled'

theorem SettleRun.settleEnd {maxVolume settled settled' : ℤ} {lowest : Price} (hs : s.CallsTyped)
    (hasset : ∀ o, s.forceSettlements.find id = some o → o.balance.assetId = mia)
    (h : SettleRun mia id price maxVolume lowest settled s settled' s') :
    SettleEnd mia id maxVolume settled settled' s s' := by
  induction h with
  | ends settled s hend => exact ⟨fun h ↦ h, le_rfl, .of_assets rfl, hs, .same rfl, hend⟩
  | cancels settled s s' hcancel =>
      obtain ⟨⟨o, ho⟩, hgone, hassets, hcalls⟩ := onlySettles_of_cancelSettlement hcancel
      refine ⟨fun h ↦ h, le_rfl, .of_assets hassets, ?_, .gone o ho hgone, .inl ?_⟩
      · intro key c hc
        exact hs key c (hcalls ▸ hc)
      · rw [hgone, find_remove, if_pos rfl]
  | takes call amount settled settled' s s₁ s' hroom hleast hmatch hrest ih =>
      have hfound : ∃ o, s.forceSettlements.find id = some o := by
        simp only [matchSettlement, Checked.bind_eq_ok, deref_eq_ok] at hmatch
        obtain ⟨-, -, o, ho, -⟩ := hmatch
        exact ⟨o, ho⟩
      obtain ⟨o, ho⟩ := hfound
      have hsettles := settles_of_matchSettlement ho (hasset o ho) hmatch
      have honly : OnlySettles id s s₁ := by
        rcases hsettles.settlements with hgone | ⟨o₁, o₂, ho₁, hsame, hset⟩
        · exact .gone o ho hgone
        · exact .reduced o₁ o₂ ho₁ hsame hset
      have hrest := ih (hsettles.callsTyped hs (sub_pos.mpr hroom)) fun o' ho' ↦ by
        rcases hsettles.settlements with hgone | ⟨o₁, o₂, ho₁, hsame, hset⟩
        · rw [hgone, find_remove, if_pos rfl] at ho'
          cases ho'
        · rw [hset, find_set ho₁, if_pos rfl] at ho'
          rw [← Option.some.inj ho', hsame]
          exact hasset o₁ ho₁
      have hroom' := hsettles.le_room
      have hnonneg := hsettles.nonneg (sub_pos.mpr hroom)
      exact ⟨fun _ ↦ hrest.volume (by omega), by have := hrest.grows; omega,
        hsettles.covers.trans hrest.covers, hrest.typed, honly.trans hrest.only, hrest.ends⟩

/-! ## A due order -/

theorem bitassetOf_of_find {a : AssetObject} (ha : s.assets.find key = some a) :
    s.bitassetOf key = a.bitassetData := by
  rw [bitassetOf, ha]
  rfl

/-- What settling a due order leaves. -/
structure DueSettled (mia : AssetId) (id : ℕ) (b : AssetBitassetData) (maxVolume : ℤ)
    (s s' : MarketState) : Prop where
  run : ∃ price lowest settled t, Price.lowest b.options.shortBackingAsset mia = .ok lowest ∧
    SettleRun mia id price maxVolume lowest b.forceSettledVolume s settled t ∧
    whenever (b.forceSettledVolume ≠ settled)
      (modifyBitassetData mia fun b ↦ .ok { b with forceSettledVolume := settled }) t = .ok s'
  volume : ∃ settled, s'.bitassetOf mia = some { b with forceSettledVolume := settled } ∧
    settled ≤ maxVolume ∧ (s'.forceSettlements.find id = none ∨ maxVolume ≤ settled)
  bitasset : ∀ key, key ≠ mia → s'.bitassetOf key = s.bitassetOf key
  supply : ∀ key, key ≠ mia → s'.currentSupply key = s.currentSupply key
  typed : s'.CallsTyped
  only : OnlySettles id s s'

theorem dueSettled_of_settleDue {o : ForceSettlementObject} {b : AssetBitassetData} {maxVolume : ℤ}
    (hs : s.CallsTyped) (ho : s.forceSettlements.find id = some o) (hmia : o.balance.assetId = mia)
    (hb : s.bitassetOf mia = some b) (hroom : b.forceSettledVolume < maxVolume)
    (h : s.settleDue mia id o b maxVolume = .ok s') : DueSettled mia id b maxVolume s s' := by
  simp only [settleDue, Checked.bind_eq_ok] at h
  obtain ⟨value, -, price, -, lowest, hlowest, ⟨settled, t⟩, hsettle, h⟩ := h
  have hasset : ∀ o', s.forceSettlements.find id = some o' → o'.balance.assetId = mia := by
    intro o' ho'
    rw [← Option.some.inj (ho.symm.trans ho'), hmia]
  have hrun := settleRun_of_settleOrder hs hasset (listsCalls_of_typed hs) hsettle
  have hend := hrun.settleEnd hs hasset
  have hdata : t.bitassetOf mia = some b := (hend.covers.bitasset mia).trans hb
  have hvolume := hend.volume hroom.le
  have hrecorded := h
  rcases whenever_eq_ok.mp h with ⟨-, h⟩ | ⟨hsame, rfl⟩
  · obtain ⟨a, b', _, ha, hb', heq, rfl⟩ := modifyBitassetData_cases h
    obtain rfl := Except.ok.inj heq
    obtain rfl : b' = b := by
      rw [bitassetOf_of_find ha, hb'] at hdata
      exact Option.some.inj hdata
    refine ⟨⟨price, lowest, settled, t, hlowest, hrun, hrecorded⟩, ⟨settled, ?_, hvolume, hend.ends⟩,
      fun key hkey ↦ ?_, fun key hkey ↦ ?_, hend.typed, hend.only.trans (.same rfl)⟩
    · rw [bitassetOf, find_setAsset ha, if_pos rfl]
      rfl
    · rw [← hend.covers.bitasset key, bitassetOf, find_setAsset ha, if_neg hkey]
      rfl
    · rw [currentSupply_setAsset ha, if_neg hkey]
      exact hend.covers.supply key hkey
  · obtain rfl : b.forceSettledVolume = settled := not_not.mp hsame
    exact ⟨⟨price, lowest, _, _, hlowest, hrun, hrecorded⟩, ⟨_, hdata, hvolume, hend.ends⟩,
      fun key _ ↦ hend.covers.bitasset key, hend.covers.supply, hend.typed, hend.only⟩

end MarketState

/-! ## The turns of the pass -/

/-- Where the pass stands: the asset it seeks from and the volume it found last. -/
structure PassHead where
  current : AssetId
  known : Asset
  market : MarketState

namespace PassHead

open MarketState

variable {h h' start : PassHead} {s : MarketState}

/-- One turn of the loop. -/
def turn (h : PassHead) : Checked (Option PassHead) :=
  match h.market.firstSettlement h.current with
  | none => .ok none
  | some (id, order) => do
      let mia := order.balance.assetId
      let (goOn, known, s) ← h.market.clearSettlement mia id h.known
      if goOn then return some ⟨mia, known, s⟩
      else return (s.nextAsset mia).map fun next ↦ ⟨next, known, s⟩

def Turns (h h' : PassHead) : Prop := h.turn = .ok (some h')

/-- The volume for the supply of an asset. -/
def VolumeAt (s : MarketState) (key : AssetId) (volume : ℤ) : Prop :=
  ∃ b, s.bitassetOf key = some b ∧ b.maxForceSettlementVolume (s.currentSupply key) = .ok volume

/-- What one turn does. -/
inductive PassTurn (h : PassHead) : Option PassHead → Prop
  | finished (hnone : h.market.firstSettlement h.current = none) : PassTurn h none
  | cancels (id : ℕ) (o : ForceSettlementObject) (s : MarketState)
      (hfirst : h.market.firstSettlement h.current = some (id, o))
      (hcancel : h.market.cancelSettlement id = .ok s) :
      PassTurn h (some ⟨o.balance.assetId, h.known, s⟩)
  | moves (id : ℕ) (o : ForceSettlementObject) (b : AssetBitassetData) (known : Asset)
      (hfirst : h.market.firstSettlement h.current = some (id, o))
      (hb : h.market.bitassetOf o.balance.assetId = some b)
      (hknown : known = h.known ∨ known.assetId = o.balance.assetId ∧
        (known = h.known ∨ h.known.assetId ≠ o.balance.assetId ∧
          b.maxForceSettlementVolume (h.market.currentSupply o.balance.assetId) = .ok known.amount)) :
      PassTurn h ((h.market.nextAsset o.balance.assetId).map fun next ↦ ⟨next, known, h.market⟩)
  | settles (id : ℕ) (o : ForceSettlementObject) (b : AssetBitassetData) (volume : Asset)
      (s : MarketState) (hfirst : h.market.firstSettlement h.current = some (id, o))
      (hdate : o.settlementDate ≤ h.market.headBlockTime)
      (hb : h.market.bitassetOf o.balance.assetId = some b)
      (hvolume : volume.assetId = o.balance.assetId ∧
        (volume = h.known ∨ h.known.assetId ≠ o.balance.assetId ∧
          b.maxForceSettlementVolume (h.market.currentSupply o.balance.assetId) = .ok volume.amount))
      (hroom : b.forceSettledVolume < volume.amount)
      (hsettle : h.market.settleDue o.balance.assetId id o b volume.amount = .ok s) :
      PassTurn h (some ⟨o.balance.assetId, volume, s⟩)

theorem volumeFor_cases {mia : AssetId} {a : AssetObject} {b : AssetBitassetData}
    {known volume : Asset} (hvolume : volumeFor mia a b known = .ok volume) :
    volume.assetId = mia ∧ (volume = known ∨ known.assetId ≠ mia ∧
      b.maxForceSettlementVolume a.dynamicData.currentSupply = .ok volume.amount) := by
  unfold volumeFor at hvolume
  split_ifs at hvolume with hknown
  · obtain rfl := Except.ok.inj hvolume
    exact ⟨hknown, .inl rfl⟩
  · simp only [Checked.bind_eq_ok, Checked.pure_eq_ok] at hvolume
    obtain ⟨amount, hamount, rfl⟩ := hvolume
    exact ⟨rfl, .inr ⟨hknown, hamount⟩⟩

theorem find_of_firstSettlement {current : AssetId} {id : ℕ} {o : ForceSettlementObject}
    (hfirst : s.firstSettlement current = some (id, o)) :
    s.forceSettlements.find id = some o ∧ current ≤ o.balance.assetId := by
  have hmem := List.mem_of_mem_head? (Option.mem_def.mpr hfirst)
  exact mem_select.mp hmem

theorem lt_of_nextAsset {current later : AssetId} (hnext : s.nextAsset current = some later) :
    current < later := by
  obtain ⟨o, ho, rfl⟩ := Option.map_eq_some_iff.mp hnext
  exact (mem_select.mp (List.mem_of_mem_head? (Option.mem_def.mpr ho))).2

theorem passTurn_of_turn {next : Option PassHead} (hturn : h.turn = .ok next) : PassTurn h next := by
  unfold turn at hturn
  split at hturn
  · rename_i hnone
    obtain rfl := Except.ok.inj hturn
    exact .finished hnone
  · rename_i id o hfirst
    obtain ⟨hfind, -⟩ := find_of_firstSettlement hfirst
    simp only [Checked.bind_eq_ok] at hturn
    obtain ⟨⟨goOn, known, s⟩, hclear, hturn⟩ := hturn
    simp only [clearSettlement, Checked.bind_eq_ok, deref_eq_ok, get_eq_ok,
      getBitassetData_eq_ok] at hclear
    obtain ⟨o', ho', a, ha, b, hb, hclear⟩ := hclear
    obtain rfl := Option.some.inj (hfind.symm.trans ho')
    have hdata : h.market.bitassetOf o.balance.assetId = some b := (bitassetOf_of_find ha).trans hb
    have hsupply := currentSupply_of_find ha
    split_ifs at hclear with hset hdate hnull
    · simp only [Checked.bind_eq_ok, Checked.pure_eq_ok] at hclear
      obtain ⟨s₁, hcancel, heq⟩ := hclear
      obtain ⟨rfl, rfl, rfl⟩ := heq
      obtain rfl := Checked.pure_eq_ok.mp hturn
      exact .cancels id o _ hfirst hcancel
    · obtain ⟨rfl, rfl, rfl⟩ := Checked.pure_eq_ok.mp hclear
      obtain rfl := Checked.pure_eq_ok.mp hturn
      exact .moves id o b h.known hfirst hdata (.inl rfl)
    · simp only [Checked.bind_eq_ok, Checked.pure_eq_ok] at hclear
      obtain ⟨s₁, hcancel, heq⟩ := hclear
      obtain ⟨rfl, rfl, rfl⟩ := heq
      obtain rfl := Checked.pure_eq_ok.mp hturn
      exact .cancels id o _ hfirst hcancel
    · simp only [Checked.bind_eq_ok] at hclear
      obtain ⟨volume, hvolume, hclear⟩ := hclear
      have hcases := volumeFor_cases hvolume
      rw [← hsupply] at hcases
      split_ifs at hclear with hfull
      · obtain ⟨rfl, rfl, rfl⟩ := Checked.pure_eq_ok.mp hclear
        obtain rfl := Checked.pure_eq_ok.mp hturn
        exact .moves id o b _ hfirst hdata (.inr hcases)
      · simp only [Checked.bind_eq_ok, Checked.pure_eq_ok] at hclear
        obtain ⟨s₁, hsettle, heq⟩ := hclear
        obtain ⟨rfl, rfl, rfl⟩ := heq
        obtain rfl := Checked.pure_eq_ok.mp hturn
        exact .settles id o b _ _ hfirst (not_lt.mp hdate) hdata hcases (not_le.mp hfull) hsettle

/-! ## The pass ends -/

/-- How many settlements are in assets from one on. -/
def pending (current : AssetId) (s : MarketState) : ℤ :=
  s.forceSettlements.total fun _ o ↦ if current ≤ o.balance.assetId then 1 else 0

theorem weight_nonneg (current : AssetId) (o : ForceSettlementObject) :
    (0 : ℤ) ≤ if current ≤ o.balance.assetId then 1 else 0 := by
  split_ifs
  · exact zero_le_one
  · exact le_rfl

theorem pending_nonneg (current : AssetId) (s : MarketState) : 0 ≤ pending current s :=
  total_nonneg fun _ o _ ↦ weight_nonneg current o

theorem one_le_pending {current : AssetId} {id : ℕ} {o : ForceSettlementObject}
    (ho : s.forceSettlements.find id = some o) (hle : current ≤ o.balance.assetId) :
    1 ≤ pending current s := by
  have hone := le_total (fun _ o _ ↦ weight_nonneg current o) ho
  rwa [if_pos hle] at hone

/-- Seeking from a later asset passes the settlements over that are in between. -/
theorem pending_mono {current later : AssetId} (hle : current ≤ later) (s : MarketState) :
    pending later s ≤ pending current s := by
  refine List.sum_le_sum fun o _ ↦ ?_
  dsimp only
  split_ifs with hlater hcurrent
  · exact le_rfl
  · exact absurd (hle.trans hlater) hcurrent
  · exact zero_le_one
  · exact le_rfl

theorem pending_lt {current later : AssetId} {id : ℕ} {o : ForceSettlementObject}
    (ho : s.forceSettlements.find id = some o) (hle : current ≤ o.balance.assetId)
    (hlt : o.balance.assetId < later) : pending later s < pending current s := by
  have hgone := pending_mono (hle.trans hlt.le) { s with
    forceSettlements := s.forceSettlements.remove id }
  simp only [pending] at hgone ⊢
  rw [total_remove ho, total_remove ho, if_pos hle, if_neg (not_le.mpr hlt)] at hgone
  omega

theorem pending_of_only {s' : MarketState} {current : AssetId} {id : ℕ} (h : OnlySettles id s s') :
    pending current s' ≤ pending current s := by
  unfold pending
  rcases h with hsame | ⟨o, o', ho, hasset, hset⟩ | ⟨o, ho, hgone⟩
  · rw [hsame]
  · rw [hset, total_set ho, hasset]
    omega
  · have := weight_nonneg current o
    rw [hgone, total_remove ho]
    omega

theorem pending_of_gone {s' : MarketState} {current : AssetId} {id : ℕ} {o : ForceSettlementObject}
    (ho : s.forceSettlements.find id = some o) (hle : current ≤ o.balance.assetId)
    (hgone : s'.forceSettlements = s.forceSettlements.remove id) :
    pending current s' < pending current s := by
  rw [pending, hgone, total_remove ho, if_pos hle, pending]
  omega

theorem firstSettlement_of_find {id : ℕ} {o : ForceSettlementObject}
    (ho : s.forceSettlements.find id = some o) :
    ∃ first, s.firstSettlement o.balance.assetId = some first ∧
      first.2.balance.assetId = o.balance.assetId := by
  have hlists : Lists (fun x : ForceSettlementObject ↦ x)
      (fun x ↦ o.balance.assetId ≤ x.balance.assetId) FollowsSettlement s.forceSettlements
      ((s.forceSettlements.select (fun _ x ↦ o.balance.assetId ≤ x.balance.assetId)
        FollowsSettlement).map Prod.fst) := by
    refine lists_select _ _ FollowsSettlement _ (fun _ x _ y _ _ _ _ hfollows ↦ ?_)
      fun _ x _ y _ z _ _ _ _ _ _ hnot hnot' ↦ ?_
    · simp only [FollowsSettlement] at hfollows ⊢
      grind
    · simp only [FollowsSettlement] at hnot hnot' ⊢
      grind
  rcases hselect : s.forceSettlements.select (fun _ x ↦ o.balance.assetId ≤ x.balance.assetId)
      FollowsSettlement with _ | ⟨first, rest⟩
  · rw [hselect] at hlists
    exact absurd le_rfl (hlists.nil ho)
  · refine ⟨first, by rw [firstSettlement, hselect, List.head?_cons], ?_⟩
    have hmem : first ∈ s.forceSettlements.select
        (fun _ x ↦ o.balance.assetId ≤ x.balance.assetId) FollowsSettlement :=
      hselect ▸ List.mem_cons_self
    obtain ⟨hfirst, hle⟩ := mem_select.mp hmem
    rw [hselect, List.map_cons] at hlists
    obtain ⟨a, ha, -, hleast⟩ := hlists.head
    obtain rfl := Option.some.inj (hfirst.symm.trans ha)
    by_cases hid : id = first.1
    · rw [hid, hfirst] at ho
      rw [Option.some.inj ho]
    · have hnot := hleast id o hid ho le_rfl
      simp only [FollowsSettlement, not_or, not_lt] at hnot
      exact le_antisymm hnot.1 hle

/-- The next turn finds the volume of its asset reached. -/
def Full (h : PassHead) : Prop :=
  h.known.assetId = h.current ∧ (∃ b, h.market.bitassetOf h.current = some b ∧
    h.known.amount ≤ b.forceSettledVolume) ∧
    ∃ id o, h.market.firstSettlement h.current = some (id, o) ∧ o.balance.assetId = h.current

/-- A turn leaves fewer settlements before it or, once, reaches the volume. -/
theorem progress_of_passTurn (hs : h.market.CallsTyped) (hturn : PassTurn h (some h')) :
    pending h'.current h'.market < pending h.current h.market ∨
      pending h'.current h'.market ≤ pending h.current h.market ∧ h'.Full ∧ ¬h.Full := by
  generalize hnext : some h' = next at hturn
  cases hturn with
  | finished _ => cases hnext
  | cancels id o s hfirst hcancel =>
      obtain rfl := Option.some.inj hnext
      obtain ⟨ho, hle⟩ := find_of_firstSettlement hfirst
      obtain ⟨-, hgone, -, -⟩ := onlySettles_of_cancelSettlement hcancel
      have hless := pending_of_gone ho hle hgone
      exact .inl ((pending_mono hle s).trans_lt hless)
  | moves id o b known hfirst hb hknown =>
      obtain ⟨ho, hle⟩ := find_of_firstSettlement hfirst
      rcases hafter : h.market.nextAsset o.balance.assetId with _ | later
      · rw [hafter] at hnext
        cases hnext
      · rw [hafter] at hnext
        obtain rfl := Option.some.inj hnext
        exact .inl (pending_lt ho hle (lt_of_nextAsset hafter))
  | settles id o b volume s hfirst hdate hb hvolume hroom hsettle =>
      obtain rfl := Option.some.inj hnext
      obtain ⟨ho, hle⟩ := find_of_firstSettlement hfirst
      have hdue := dueSettled_of_settleDue hs ho rfl hb hroom hsettle
      obtain ⟨settled, hdata, -, hend⟩ := hdue.volume
      have hstays : ∀ o', s.forceSettlements.find id = some o' →
          o'.balance.assetId = o.balance.assetId := fun o' ho' ↦ hdue.only.asset_eq ho ho'
      rcases hfind : s.forceSettlements.find id with _ | o'
      · have hgone := hdue.only.gone_of_find ho hfind
        exact .inl ((pending_mono hle s).trans_lt (pending_of_gone ho hle hgone))
      · have hfull : volume.amount ≤ settled := hend.resolve_left (by simp [hfind])
        have hasset := hstays o' hfind
        obtain ⟨⟨id₁, o₁⟩, hfirst₁, hasset₁⟩ := firstSettlement_of_find hfind
        rw [hasset] at hfirst₁ hasset₁
        refine .inr ⟨(pending_mono hle s).trans (pending_of_only hdue.only),
          ⟨hvolume.1, ⟨_, hdata, hfull⟩, id₁, o₁, hfirst₁, hasset₁⟩, ?_⟩
        rintro ⟨hknown, ⟨b', hb', hreached⟩, id₂, o₂, hfirst₂, hasset₂⟩
        obtain ⟨rfl, rfl⟩ := Prod.mk.inj (Option.some.inj (hfirst.symm.trans hfirst₂))
        rw [← hasset₂] at hb' hknown
        obtain rfl := Option.some.inj (hb.symm.trans hb')
        rcases hvolume.2 with rfl | ⟨hother, -⟩
        · exact absurd hreached (not_le.mpr hroom)
        · exact hother hknown

theorem typed_of_passTurn (hs : h.market.CallsTyped) (hturn : PassTurn h (some h')) :
    h'.market.CallsTyped := by
  generalize hnext : some h' = next at hturn
  cases hturn with
  | finished _ => cases hnext
  | cancels id o s hfirst hcancel =>
      obtain rfl := Option.some.inj hnext
      obtain ⟨-, -, -, hcalls⟩ := onlySettles_of_cancelSettlement hcancel
      exact fun key c hc ↦ hs key c (hcalls ▸ hc)
  | moves id o b known hfirst hb hknown =>
      obtain ⟨later, -, rfl⟩ := Option.map_eq_some_iff.mp hnext.symm
      exact hs
  | settles id o b volume s hfirst hdate hb hvolume hroom hsettle =>
      obtain rfl := Option.some.inj hnext
      obtain ⟨ho, -⟩ := find_of_firstSettlement hfirst
      exact (dueSettled_of_settleDue hs ho rfl hb hroom hsettle).typed

theorem market_of_moves {s' : MarketState} {mia : AssetId} {id : ℕ} {known known' : Asset}
    (hclear : s.clearSettlement mia id known = .ok (false, known', s')) : s' = s := by
  simp only [clearSettlement, Checked.bind_eq_ok] at hclear
  obtain ⟨o, -, a, -, b, -, hclear⟩ := hclear
  split_ifs at hclear
  · simp only [Checked.bind_eq_ok, Checked.pure_eq_ok] at hclear
    obtain ⟨_, -, heq⟩ := hclear
    cases heq
  · exact (Prod.mk.inj (Prod.mk.inj (Checked.pure_eq_ok.mp hclear)).2).2.symm
  · simp only [Checked.bind_eq_ok, Checked.pure_eq_ok] at hclear
    obtain ⟨_, -, heq⟩ := hclear
    cases heq
  · simp only [Checked.bind_eq_ok] at hclear
    obtain ⟨volume, -, hclear⟩ := hclear
    split_ifs at hclear
    · exact (Prod.mk.inj (Prod.mk.inj (Checked.pure_eq_ok.mp hclear)).2).2.symm
    · simp only [Checked.bind_eq_ok, Checked.pure_eq_ok] at hclear
      obtain ⟨_, -, heq⟩ := hclear
      cases heq

/-- The loop is the iteration of its turns. -/
theorem clearSettlements_succ (fuel : ℕ) (h : PassHead) :
    clearSettlements (fuel + 1) h.current h.known h.market =
      match h.turn with
      | .error e => .error e
      | .ok none => .ok h.market
      | .ok (some h') => clearSettlements fuel h'.current h'.known h'.market := by
  rw [clearSettlements, turn]
  rcases h.market.firstSettlement h.current with _ | ⟨id, o⟩
  · rfl
  · rcases hclear : h.market.clearSettlement o.balance.assetId id h.known with e | ⟨goOn, known, s⟩
    · simp only [hclear]
      rfl
    · simp only [hclear]
      cases goOn with
      | true => rfl
      | false =>
          obtain rfl := market_of_moves hclear
          rcases hafter : h.market.nextAsset o.balance.assetId with _ | later
          · simp only [bind, Except.bind, hafter]
            rfl
          · simp only [bind, Except.bind, hafter]
            rfl

/-- The turns allowed for are enough: the pass ends by itself or with an error. -/
theorem ends_of_fuel (hs : h.market.CallsTyped) {fuel : ℕ}
    (hfuel : 2 * pending h.current h.market < fuel ∨
      h.Full ∧ 2 * pending h.current h.market ≤ fuel) :
    ∃ last, Relation.ReflTransGen Turns h last ∧
      (last.turn = .ok none ∧
          clearSettlements fuel h.current h.known h.market = .ok last.market ∨
        ∃ e, last.turn = .error e ∧
          clearSettlements fuel h.current h.known h.market = .error e) := by
  induction fuel generalizing h with
  | zero =>
      have hnonneg := pending_nonneg h.current h.market
      rcases hfuel with hless | ⟨⟨-, -, id, o, hfirst, -⟩, hle⟩
      · simp only [Nat.cast_zero] at hless
        omega
      · obtain ⟨ho, hle'⟩ := find_of_firstSettlement hfirst
        have hone := one_le_pending ho hle'
        simp only [Nat.cast_zero] at hle
        omega
  | succ fuel ih =>
      rw [clearSettlements_succ]
      rcases hturn : h.turn with e | _ | h'
      · exact ⟨h, .refl, .inr ⟨e, hturn, rfl⟩⟩
      · exact ⟨h, .refl, .inl ⟨hturn, rfl⟩⟩
      · have hpass := passTurn_of_turn hturn
        have hfuel' : 2 * pending h'.current h'.market < (fuel : ℤ) ∨
            h'.Full ∧ 2 * pending h'.current h'.market ≤ (fuel : ℤ) := by
          rw [Nat.cast_succ] at hfuel
          rcases progress_of_passTurn hs hpass with hless | ⟨hle, hfull, hnot⟩
          · left
            rcases hfuel with hfuel | ⟨-, hfuel⟩ <;> omega
          · right
            rcases hfuel with hfuel | ⟨hfull', -⟩
            · exact ⟨hfull, by omega⟩
            · exact absurd hfull' hnot
        obtain ⟨last, hreach, hlast⟩ := ih (typed_of_passTurn hs hpass) hfuel'
        exact ⟨last, .head hturn hreach, hlast⟩

theorem pending_le_length (current : AssetId) (s : MarketState) :
    pending current s ≤ s.forceSettlements.objects.length := by
  have hle : pending current s ≤ (s.forceSettlements.objects.map fun _ ↦ (1 : ℤ)).sum := by
    refine List.sum_le_sum fun o _ ↦ ?_
    dsimp only
    split_ifs
    · exact le_rfl
    · exact zero_le_one
  simpa using hle

/-! ## The volumes -/

/-- What has become of one asset since the start of the pass. -/
inductive VolumeKept (s : MarketState) (h : PassHead) (key : AssetId) : Prop
  | same (hb : h.market.bitassetOf key = s.bitassetOf key)
      (hsupply : h.market.currentSupply key = s.currentSupply key)
  | settled (b : AssetBitassetData) (v cap : ℤ) (hb : s.bitassetOf key = some b)
      (hv : h.market.bitassetOf key = some { b with forceSettledVolume := v })
      (hcap : VolumeAt s key cap) (hle : v ≤ cap) (hpassed : key ≤ h.current)
      (hknown : key = h.current → h.known = ⟨cap, key⟩)

/-- The volume found last is that of its asset at the start, and every asset is as it was or has
settled no more than its volume. -/
structure PassSound (s : MarketState) (h : PassHead) : Prop where
  typed : h.market.CallsTyped
  known : h.known = ⟨0, coreAsset⟩ ∨ VolumeAt s h.known.assetId h.known.amount
  each : ∀ key, VolumeKept s h key

/-- A volume that a turn finds is the one at the start of the pass. -/
theorem PassSound.volumeAt (hsound : PassSound s h) (hcore : s.bitassetOf coreAsset = none)
    {mia : AssetId} {b : AssetBitassetData} {volume : Asset} (hmia : h.current ≤ mia)
    (hb : h.market.bitassetOf mia = some b)
    (hvolume : volume.assetId = mia ∧ (volume = h.known ∨ h.known.assetId ≠ mia ∧
      b.maxForceSettlementVolume (h.market.currentSupply mia) = .ok volume.amount)) :
    VolumeAt s mia volume.amount := by
  obtain ⟨rfl, hvolume⟩ := hvolume
  rcases hvolume with rfl | ⟨hother, hvolume⟩
  · rcases hsound.known with hnull | hat
    · -- the core asset is not market-issued
      rw [hnull] at hb
      rcases hsound.each coreAsset with ⟨hsame, -⟩ | ⟨b₀, _, _, hb₀, -⟩
      · rw [hsame, hcore] at hb
        cases hb
      · rw [hcore] at hb₀
        cases hb₀
    · exact hat
  · rcases hsound.each volume.assetId with ⟨hsame, hsupply⟩ | ⟨_, _, cap, -, -, -, -, hpassed, hknown⟩
    · exact ⟨b, hsame ▸ hb, hsupply ▸ hvolume⟩
    · have hcurrent := le_antisymm hpassed hmia
      exact absurd (congrArg Asset.assetId (hknown hcurrent)) hother

theorem VolumeKept.later {current : AssetId} {known : Asset} {key : AssetId}
    (hkept : VolumeKept s h key) (hle : h.current ≤ current)
    (hknown : current = h.current → known = h.known) :
    VolumeKept s ⟨current, known, h.market⟩ key := by
  rcases hkept with ⟨hb, hsupply⟩ | ⟨b, v, cap, hb, hv, hcap, hle', hpassed, hcurrent⟩
  · exact .same hb hsupply
  · refine .settled b v cap hb hv hcap hle' (hpassed.trans hle) fun hkey ↦ ?_
    change key = current at hkey
    have hsame : current = h.current := le_antisymm (hkey ▸ hpassed) hle
    rw [hknown hsame]
    exact hcurrent (hkey.trans hsame)

theorem PassSound.turn (hsound : PassSound s h) (hcore : s.bitassetOf coreAsset = none)
    (hturn : PassTurn h (some h')) : PassSound s h' := by
  have htyped := typed_of_passTurn hsound.typed hturn
  generalize hnext : some h' = next at hturn
  cases hturn with
  | finished _ => cases hnext
  | cancels id o t hfirst hcancel =>
      obtain rfl := Option.some.inj hnext
      obtain ⟨-, hle⟩ := find_of_firstSettlement hfirst
      obtain ⟨-, -, hassets, -⟩ := onlySettles_of_cancelSettlement hcancel
      refine ⟨htyped, hsound.known, fun key ↦ ?_⟩
      have hcovers : CoversOnly coreAsset h.market t := .of_assets hassets
      have hsupply : t.currentSupply key = h.market.currentSupply key := by
        rw [currentSupply, currentSupply, hassets]
      have hlater : VolumeKept s ⟨o.balance.assetId, h.known, h.market⟩ key :=
        (hsound.each key).later hle fun _ ↦ rfl
      rcases hlater with ⟨hb, hs⟩ | ⟨b, v, cap, hb, hv, hcap, hle', hpassed, hcurrent⟩
      · exact .same ((hcovers.bitasset key).trans hb) (hsupply.trans hs)
      · exact .settled b v cap hb ((hcovers.bitasset key).trans hv) hcap hle' hpassed hcurrent
  | moves id o b known hfirst hb hknown =>
      obtain ⟨later, hafter, rfl⟩ := Option.map_eq_some_iff.mp hnext.symm
      obtain ⟨-, hle⟩ := find_of_firstSettlement hfirst
      have hlt := hle.trans_lt (lt_of_nextAsset hafter)
      refine ⟨htyped, ?_, fun key ↦ (hsound.each key).later hlt.le fun heq ↦ absurd heq hlt.ne'⟩
      rcases hknown with rfl | hfound
      · exact hsound.known
      · have hat := hsound.volumeAt hcore hle hb hfound
        exact .inr (hfound.1 ▸ hat)
  | settles id o b volume t hfirst hdate hb hvolume hroom hsettle =>
      obtain rfl := Option.some.inj hnext
      obtain ⟨ho, hle⟩ := find_of_firstSettlement hfirst
      have hat := hsound.volumeAt hcore hle hb hvolume
      have hdue := dueSettled_of_settleDue hsound.typed ho rfl hb hroom hsettle
      obtain ⟨settled, hdata, hsettled, -⟩ := hdue.volume
      refine ⟨htyped, .inr (hvolume.1 ▸ hat), fun key ↦ ?_⟩
      by_cases hkey : key = o.balance.assetId
      · subst hkey
        have hvolume' : volume = ⟨volume.amount, o.balance.assetId⟩ := by
          rw [← hvolume.1]
        rcases hsound.each o.balance.assetId with ⟨hsame, -⟩ | ⟨b₀, v, _, hb₀, hv, -⟩
        · exact .settled b settled volume.amount (hsame ▸ hb) hdata hat hsettled le_rfl fun _ ↦ hvolume'
        · obtain rfl := Option.some.inj (hb.symm.trans hv)
          exact .settled b₀ settled volume.amount hb₀ hdata hat hsettled le_rfl fun _ ↦ hvolume'
      · rcases hsound.each key with ⟨hsame, hsupply⟩ | ⟨b₀, v, cap, hb₀, hv, hcap, hle', hpassed, -⟩
        · exact .same ((hdue.bitasset key hkey).trans hsame) ((hdue.supply key hkey).trans hsupply)
        · refine .settled b₀ v cap hb₀ ((hdue.bitasset key hkey).trans hv) hcap hle'
            (hpassed.trans hle) fun heq ↦ absurd heq hkey

/-! ## The whole pass -/

/-- A turn cancels a settlement, leaves the market as it is, or settles an order that is due, each
time with the call order that is the least collateralized one at that moment. -/
inductive DueTurn (s : MarketState) (h h' : PassHead) : Prop
  | cancels (id : ℕ) (hcancel : h.market.cancelSettlement id = .ok h'.market)
  | moves (hsame : h'.market = h.market)
  | settles (id : ℕ) (o : ForceSettlementObject) (b : AssetBitassetData) (price lowest : Price)
      (volume settled : ℤ) (t : MarketState)
      (ho : h.market.forceSettlements.find id = some o)
      (hdate : o.settlementDate ≤ h.market.headBlockTime)
      (hb : h.market.bitassetOf o.balance.assetId = some b)
      (hlowest : Price.lowest b.options.shortBackingAsset o.balance.assetId = .ok lowest)
      (hvolume : VolumeAt s o.balance.assetId volume)
      (hrun : SettleRun o.balance.assetId id price volume lowest b.forceSettledVolume h.market
        settled t)
      (hrecorded : whenever (b.forceSettledVolume ≠ settled) (modifyBitassetData o.balance.assetId
        fun b ↦ .ok { b with forceSettledVolume := settled }) t = .ok h'.market)

theorem dueTurn_of_turns (hsound : PassSound s h) (hcore : s.bitassetOf coreAsset = none)
    (hturns : Turns h h') : DueTurn s h h' := by
  have hturn := passTurn_of_turn hturns
  generalize hnext : some h' = next at hturn
  cases hturn with
  | finished _ => cases hnext
  | cancels id o t hfirst hcancel =>
      obtain rfl := Option.some.inj hnext
      exact .cancels id hcancel
  | moves id o b known hfirst hb hknown =>
      obtain ⟨later, -, rfl⟩ := Option.map_eq_some_iff.mp hnext.symm
      exact .moves rfl
  | settles id o b volume t hfirst hdate hb hvolume hroom hsettle =>
      obtain rfl := Option.some.inj hnext
      obtain ⟨ho, hle⟩ := find_of_firstSettlement hfirst
      have hat := hsound.volumeAt hcore hle hb hvolume
      have hdue := dueSettled_of_settleDue hsound.typed ho rfl hb hroom hsettle
      obtain ⟨price, lowest, settled, t', hlowest, hrun, hrecorded⟩ := hdue.run
      exact .settles id o b price lowest volume.amount settled t' ho hdate hb hlowest hat hrun hrecorded

/-- The pass ends within its turns, settles no asset beyond its volume, no order before its date and
nothing but with the least collateralized call order. -/
theorem clearDueSettlements_pass (hs : s.CallsTyped) (hcore : s.bitassetOf coreAsset = none) :
    (s.firstSettlement 0 = none → s.clearDueSettlements = .ok s) ∧
    ∀ first start, s.firstSettlement 0 = some first →
      start = PassHead.mk first.2.balance.assetId ⟨0, coreAsset⟩ s →
      (∃ last, Relation.ReflTransGen Turns start last ∧
        (last.turn = .ok none ∧ s.clearDueSettlements = .ok last.market ∨
          ∃ e, last.turn = .error e ∧ s.clearDueSettlements = .error e)) ∧
      ∀ h, Relation.ReflTransGen Turns start h →
        (∀ key b, h.market.bitassetOf key = some b → ∃ b₀, s.bitassetOf key = some b₀ ∧
          (b = b₀ ∨ ∃ cap, VolumeAt s key cap ∧ b.forceSettledVolume ≤ cap)) ∧
        ∀ h', Turns h h' → DueTurn s h h' := by
  refine ⟨fun hnone ↦ by rw [clearDueSettlements, hnone], ?_⟩
  rintro first start hfirst rfl
  constructor
  · have hfuel : 2 * pending first.2.balance.assetId s < (s.settlementTurns : ℤ) := by
      have hle := pending_le_length first.2.balance.assetId s
      rw [settlementTurns]
      push_cast
      omega
    rw [clearDueSettlements, hfirst]
    exact ends_of_fuel (h := ⟨first.2.balance.assetId, ⟨0, coreAsset⟩, s⟩) hs (.inl hfuel)
  · intro h hrun
    have hsound : PassSound s h := by
      induction hrun with
      | refl => exact ⟨hs, .inl rfl, fun key ↦ .same rfl rfl⟩
      | tail _ hturns ih => exact ih.turn hcore (passTurn_of_turn hturns)
    refine ⟨fun key b hb ↦ ?_, fun h' hturns ↦ dueTurn_of_turns hsound hcore hturns⟩
    rcases hsound.each key with ⟨hsame, -⟩ | ⟨b₀, v, cap, hb₀, hv, hcap, hle, -⟩
    · exact ⟨b, hsame ▸ hb, .inl rfl⟩
    · obtain rfl := Option.some.inj (hb.symm.trans hv)
      exact ⟨b₀, hb₀, .inr ⟨cap, hcap, hle⟩⟩

end PassHead

/-! ## A volume above the one for the supply -/

/-- A position of 300 and a settlement of 50 that is due, after a volume was settled. -/
def dueMarket (settled : ℤ) : MarketState where
  accounts := ⟨13, [(10, {}), (11, {}), (12, {})], sorted_threeAccounts, fresh_threeAccounts⟩
  assets := ⟨2, [(0, {}), (1, {
      issuer := 10
      dynamicData := { currentSupply := 300 }
      bitassetData := some {
        currentFeed := { settlementPrice := ⟨⟨1000, 1⟩, ⟨1000, 0⟩⟩ }
        forceSettledVolume := settled } })],
    by simp, by simp [-Order.lt_two_iff]⟩
  callOrders := ⟨1, [(0, ⟨11, 1000, 300, ⟨⟨40, 0⟩, ⟨7, 1⟩⟩⟩)], by decide, by simp⟩
  forceSettlements := ⟨1, [(0, ⟨12, ⟨50, 1⟩, 0⟩)], by decide, by simp⟩
  headBlockTime := hardforkCore216Time + 1

theorem dueMarket_typed (settled : ℤ) : (dueMarket settled).CallsTyped := by
  intro id c hc
  have hall : ∀ p ∈ (dueMarket settled).callOrders.objects, 0 < p.2.debt ∧ p.2.debt < shareEnd ∧
      0 ≤ p.2.collateral ∧ p.2.collateral < shareEnd := by
    simp only [dueMarket, List.forall_mem_cons, List.not_mem_nil, false_imp_iff, implies_true,
      and_true]
    decide
  exact hall _ (find_eq_some.mp hc)

theorem clearDueSettlements_pass_due : ∃ last,
    Relation.ReflTransGen PassHead.Turns ⟨1, ⟨0, coreAsset⟩, dueMarket 0⟩ last ∧
    (dueMarket 0).clearDueSettlements = .ok last.market ∧
    ∃ b, last.market.bitassetOf 1 = some b ∧ b.forceSettledVolume = 50 ∧
      ∃ cap, PassHead.VolumeAt (dueMarket 0) 1 cap ∧ b.forceSettledVolume ≤ cap := by
  have hcleared : ∃ s, (dueMarket 0).clearDueSettlements = .ok s ∧
      (s.bitassetOf 1).map (·.forceSettledVolume) = some 50 := by
    decide +kernel
  obtain ⟨s, hs, hvolume⟩ := hcleared
  obtain ⟨b, hb, hsettled⟩ := Option.map_eq_some_iff.mp hvolume
  have hfirst : (dueMarket 0).firstSettlement 0 = some (0, ⟨12, ⟨50, 1⟩, 0⟩) := by decide +kernel
  obtain ⟨⟨last, hreach, hend⟩, hpass⟩ := (PassHead.clearDueSettlements_pass (dueMarket_typed 0)
    (by decide +kernel)).2 _ _ hfirst rfl
  have hlast : last.market = s := by
    rcases hend with ⟨-, hok⟩ | ⟨e, -, herror⟩
    · exact Except.ok.inj (hok.symm.trans hs)
    · rw [hs] at herror
      cases herror
  subst hlast
  obtain ⟨b₀, hb₀, hcases⟩ := (hpass last hreach).1 1 b hb
  refine ⟨last, hreach, hs, b, hb, hsettled, ?_⟩
  rcases hcases with rfl | hcap
  · -- at the start nothing was settled
    have hzero : ((dueMarket 0).bitassetOf 1).map (·.forceSettledVolume) = some 0 := by
      decide +kernel
    rw [hb₀, Option.map_some, hsettled] at hzero
    cases hzero
  · exact hcap

/-- What was settled before the supply fell stays above the volume for the supply. -/
theorem dueMarket_exceeds : ¬∀ s, (dueMarket 200).clearDueSettlements = .ok s →
    ∀ key b cap, s.bitassetOf key = some b → PassHead.VolumeAt (dueMarket 200) key cap →
      b.forceSettledVolume ≤ cap := by
  intro hnever
  have hcleared : ∃ s, (dueMarket 200).clearDueSettlements = .ok s ∧
      (s.bitassetOf 1).map (·.forceSettledVolume) = some 200 := by
    decide +kernel
  obtain ⟨s, hs, hvolume⟩ := hcleared
  obtain ⟨b, hb, hsettled⟩ := Option.map_eq_some_iff.mp hvolume
  have hcap : ∃ v, AssetBitassetData.maxForceSettlementVolume 300 {
        currentFeed := { settlementPrice := ⟨⟨1000, 1⟩, ⟨1000, 0⟩⟩ }
        forceSettledVolume := 200 } = .ok v ∧ v = 100 := by
    decide +kernel
  obtain ⟨_, hcap, rfl⟩ := hcap
  have hle := hnever s hs 1 b 100 hb ⟨_, rfl, hcap⟩
  omega

end KarmaCore.Market
