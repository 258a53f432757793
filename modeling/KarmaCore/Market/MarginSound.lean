import Mathlib
import KarmaCore.Market.GlobalSettlement

/-!
# Margin calls keep the market sound

Every turn of the margin call loop is an even trade or a global settlement.
-/

namespace KarmaCore.Market

open Transfer (get get_eq_ok)
open Books ObjectIndex

namespace MarketState

variable {s s' : MarketState} {mia : AssetId} {enable forNew called called' : Bool}

/-! ## Black swans -/

theorem keeps_of_checkForBlackswan {swan : Bool} (hs : s.AllSound)
    (h : s.checkForBlackswan mia enable = .ok (swan, s')) : Keeps s s' := by
  simp only [checkForBlackswan, Checked.bind_eq_ok, get_eq_ok] at h
  obtain ⟨a, ha, h⟩ := h
  split_ifs at h with hmarket
  · simp only [Checked.bind_eq_ok, getBitassetData_eq_ok] at h
    obtain ⟨b, hb, h⟩ := h
    split_ifs at h
    · obtain ⟨-, rfl⟩ := Prod.mk.inj (Checked.pure_eq_ok.mp h)
      exact .refl hs
    · obtain ⟨-, rfl⟩ := Prod.mk.inj (Checked.pure_eq_ok.mp h)
      exact .refl hs
    · simp only [checkLeastCollateral, Checked.bind_eq_ok] at h
      obtain ⟨highest, -, lowest, -, callMin, hmin, callMax, hmax, h⟩ := h
      split at h
      · obtain ⟨-, rfl⟩ := Prod.mk.inj (Checked.pure_eq_ok.mp h)
        exact .refl hs
      · rename_i call _ hcalls
        have hmem : call ∈ s.callsBetween callMin callMax := hcalls ▸ List.mem_cons_self
        obtain ⟨hcall, hmia⟩ := (mem_callsBetween hs ha hb hmin hmax).mp hmem
        simp only [Checked.bind_eq_ok] at h
        obtain ⟨least, -, h⟩ := h
        split_ifs at h
        · simp only [Checked.bind_eq_ok, Checked.pure_eq_ok] at h
          obtain ⟨-, -, s₁, hsettle, heq⟩ := h
          obtain ⟨-, rfl⟩ := Prod.mk.inj heq
          exact keeps_of_swan hs ⟨call.1, call.2, hcall, hmia⟩ hsettle
        · obtain ⟨-, rfl⟩ := Prod.mk.inj (Checked.pure_eq_ok.mp h)
          exact .refl hs
  · obtain ⟨-, rfl⟩ := Prod.mk.inj (Checked.pure_eq_ok.mp h)
    exact .refl hs

/-! ## Margin calls -/

/-- A margin call gives neither order more than it can take. -/
theorem marginAmounts_spec {usdToBuy usdForSale : Asset} {price : Price} {m : MarginMatch}
    (hbuy : 0 ≤ usdToBuy.amount) (hsale : 0 ≤ usdForSale.amount)
    (h : marginAmounts usdToBuy usdForSale price = .ok m) :
    0 ≤ m.callReceives.amount ∧ m.callReceives.amount ≤ usdToBuy.amount ∧
      m.callReceives.amount ≤ usdForSale.amount ∧ 0 ≤ m.callPays.amount := by
  simp only [marginAmounts, Checked.bind_eq_ok] at h
  obtain ⟨less, hless, h⟩ := h
  obtain ⟨-, hless⟩ := Asset.lt_eq_ok.mp hless
  split_ifs at h with hcover <;> simp only [Checked.bind_eq_ok, Checked.pure_eq_ok] at h
  · obtain ⟨pays, hpays, rfl⟩ := h
    subst hcover
    exact ⟨hbuy, le_rfl, (of_decide_eq_true hless).le, times_nonneg hpays⟩
  · obtain ⟨pays, hpays, rfl⟩ := h
    rw [Bool.not_eq_true] at hcover
    subst hcover
    exact ⟨hsale, not_lt.mp (of_decide_eq_false hless), le_rfl, times_nonneg hpays⟩

def MarginTurn.state : MarginTurn → MarketState
  | .stop _ s => s
  | .filled _ s => s

/-- The call orders under some ids are in one asset. -/
def CallsIn (mia : AssetId) (ids : List ℕ) (s : MarketState) : Prop :=
  ∀ id ∈ ids, ∀ c, s.callOrders.find id = some c → c.debtType = mia

theorem CallsIn.of_keeps {ids : List ℕ} (h : s.CallsIn mia ids) (hk : Keeps s s') :
    s'.CallsIn mia ids := by
  intro id hid c' hc'
  obtain ⟨c, hc, hred⟩ := hk.callOrders id c' hc'
  exact hred.debtType.trans (h id hid c hc)

theorem keeps_of_marginCall {feedPrice : Price} {call limit : ℕ} {turn : MarginTurn}
    (hs : s.AllSound) (hcall : s.CallsIn mia [call])
    (h : s.marginCall mia feedPrice enable forNew called call limit = .ok turn) :
    Keeps s turn.state := by
  simp only [marginCall, Checked.bind_eq_ok, deref_eq_ok] at h
  obtain ⟨o, ho, -, -, c, hc, h⟩ := h
  have hlimit := hs.limitOrders limit o ho
  have hsound := hs.callOrders call c hc
  split_ifs at h
  · obtain rfl := Checked.pure_eq_ok.mp h
    exact .refl hs
  · obtain rfl := Checked.pure_eq_ok.mp h
    exact .refl hs
  · simp only [Checked.bind_eq_ok] at h
    obtain ⟨value, -, backed, -, h⟩ := h
    split_ifs at h <;> simp only [Checked.bind_eq_ok, Checked.pure_eq_ok] at h
    · obtain ⟨m, hm, ⟨_, s₁⟩, hfillCall, ⟨_, s₂⟩, hfillLimit, rfl⟩ := h
      obtain ⟨hreceives0, hreceivesDebt, hreceivesSale, hpays0⟩ :=
        marginAmounts_spec hsound.debt.le hlimit.forSale.le hm
      have hcallTrade := trade_of_fillCallOrder hpays0 hreceives0 (fun c' hc' ↦ by
        rw [Option.some.inj (hc'.symm.trans hc)]
        exact hreceivesDebt) hfillCall
      obtain ⟨hlimitTrade, -⟩ := trade_of_fillLimitOrder (hs.of_frame hcallTrade.frame).feesNonneg
        (fun o' ho' ↦ by
          rw [hcallTrade.limitOrders] at ho'
          rw [Option.some.inj (ho'.symm.trans ho)]
          exact ⟨hlimit.deferredFee, hreceives0, hreceivesSale⟩) hfillLimit
      exact ((hcallTrade.toTrade.trans hlimitTrade.toTrade).congr (by abel)).keeps hs
    · obtain ⟨-, -, s₁, hsettle, rfl⟩ := h
      exact keeps_of_swan hs ⟨call, c, hc, hcall call List.mem_cons_self c hc⟩ hsettle

/-! ## A new order -/

/-- The orders a new one is matched with are on the other side of its book. -/
theorem mem_limitsBetween {highest lowest : Price} {base quote : AssetId}
    (hhighest : Price.highest base quote = .ok highest) (hbase : lowest.base.assetId = base)
    (hquote : lowest.quote.assetId = quote) {o : ℕ × LimitOrderObject}
    (ho : o ∈ s.limitsBetween highest lowest) :
    s.limitOrders.find o.1 = some o.2 ∧ o.2.sellPrice.base.assetId = base ∧
      o.2.sellPrice.quote.assetId = quote := by
  obtain ⟨-, rfl⟩ := per_eq_ok.mp hhighest
  obtain ⟨hfind, hhigh, hlow⟩ := mem_select.mp ho
  have hbase' : o.2.sellPrice.base.assetId = base :=
    le_antisymm (not_not.mp hhigh).base_le (hbase ▸ (not_not.mp hlow).base_le)
  refine ⟨hfind, hbase', le_antisymm ((not_not.mp hhigh).quote_le hbase') ?_⟩
  exact hquote ▸ (not_not.mp hlow).quote_le (hbase.trans hbase'.symm)

end MarketState

end KarmaCore.Market
