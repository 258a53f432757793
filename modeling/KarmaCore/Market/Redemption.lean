import Mathlib
import KarmaCore.Market.AssetSound

/-!
# Redeeming a settled asset

A redemption pays no more than the recorded price out of the settlement fund,
and the last one what the fund has left, so that the fund covers the supply
after it as it did before.
-/

namespace KarmaCore.Market

open Transfer (get get_eq_ok)
open Books ObjectIndex

namespace AssetSettleOperation

variable {op : AssetSettleOperation} {supply : ℤ} {b : AssetBitassetData} {settled : Asset}

/-- What a redemption pays. -/
structure Redeems (amount supply : ℤ) (b : AssetBitassetData) (settled : Asset) : Prop where
  assetId : settled.assetId = b.options.shortBackingAsset
  nonneg : 0 ≤ settled.amount
  le_fund : settled.amount ≤ b.settlementFund
  last : amount = supply → settled.amount = b.settlementFund
  le_price : amount ≠ supply → settled.amount * b.settlementPrice.base.amount ≤
    amount * b.settlementPrice.quote.amount

theorem redeems_of_settledAmount (hb : b.Solvent op.amount.assetId supply)
    (hamount : 0 ≤ op.amount.amount) (h : op.settledAmount supply b = .ok settled) :
    Redeems op.amount.amount supply b settled := by
  simp only [settledAmount, Checked.bind_eq_ok] at h
  obtain ⟨value, hvalue, h⟩ := h
  obtain ⟨hid, hnonneg, hle⟩ := MarketState.fundShare_spec hb rfl hamount hvalue
  split_ifs at h with hlast
  · obtain rfl := Checked.pure_eq_ok.mp h
    exact ⟨hid, hb.fund_nonneg, le_rfl, fun _ ↦ rfl, fun hne ↦ absurd hlast hne⟩
  · simp only [Checked.bind_eq_ok, require_eq_ok, Checked.pure_eq_ok] at h
    obtain ⟨-, hfund, rfl⟩ := h
    exact ⟨hid, hnonneg, hfund, fun heq ↦ absurd heq hlast, fun _ ↦ hle⟩

/-- The fund that a redemption leaves covers the supply that it leaves. -/
theorem Redeems.solvent {mia : AssetId} {amount : ℤ} (h : Redeems amount supply b settled)
    (hb : b.Solvent mia supply) (hle : amount ≤ supply) :
    AssetBitassetData.Solvent mia (supply - amount)
      { b with settlementFund := b.settlementFund - settled.amount } where
  base := hb.base
  quote := hb.quote
  base_pos := hb.base_pos
  quote_nonneg := hb.quote_nonneg
  quote_lt := hb.quote_lt
  supply_nonneg := sub_nonneg.mpr hle
  covers := by
    rcases eq_or_ne amount supply with heq | hne
    · rw [heq, h.last heq]
      simp
    · have hcovers := hb.covers
      have hpaid := h.le_price hne
      simp only [sub_mul]
      omega
  exhausted hzero := by
    dsimp only
    rw [h.last (by omega), sub_self]

end AssetSettleOperation

namespace MarketState

variable {s s' : MarketState} {mia : AssetId} {a : AssetObject} {b : AssetBitassetData}

/-- The asset with some of its settlement fund paid out. -/
def paidFund (paid : ℤ) (b : AssetBitassetData) (a : AssetObject) : AssetObject :=
  { a with bitassetData := some { b with settlementFund := b.settlementFund - paid } }

/-- A redemption as one write of the asset, beside the balances it moves. -/
theorem redeem_cases {op : AssetSettleOperation} {supply : ℤ}
    (h : op.redeem supply b s = .ok s') : ∃ settled a₁ b₁ a₂ t,
      op.settledAmount supply b = .ok settled ∧ s.assets.find op.amount.assetId = some a₁ ∧
      a₁.bitassetData = some b₁ ∧
      Payment (held settled.assetId settled.amount) { s with
        assets := s.assets.set op.amount.assetId (paidFund settled.amount b₁ a₁) } t ∧
      t.assets.find op.amount.assetId = some a₂ ∧
      s' = { t with
        assets := t.assets.set op.amount.assetId (coveredAsset op.amount.amount a₂) } := by
  simp only [AssetSettleOperation.redeem, Checked.bind_eq_ok] at h
  obtain ⟨settled, hsettled, s₁, hfund, t, hbalance, hsupply⟩ := h
  obtain ⟨a₁, b₁, b', ha₁, hb₁, hb', rfl⟩ := modifyBitassetData_cases hfund
  simp only [Checked.bind_eq_ok, Checked.pure_eq_ok, checkedShare_eq_ok] at hb'
  obtain ⟨_, ⟨-, rfl⟩, rfl⟩ := hb'
  obtain ⟨a₂, d, ha₂, hd, rfl⟩ := modifyDynamicData_cases hsupply
  simp only [AssetDynamicData.subSupply, Checked.bind_eq_ok, Checked.pure_eq_ok,
    checkedShare_eq_ok] at hd
  obtain ⟨_, ⟨-, rfl⟩, rfl⟩ := hd
  exact ⟨settled, a₁, b₁, a₂, t, hsettled, ha₁, hb₁, payment_of_adjustBalance hbalance, ha₂, rfl⟩

theorem paidFund_books {paid : ℤ} (hb : a.bitassetData = some b) :
    (paidFund paid b a).books mia - a.books mia = -held b.options.shortBackingAsset paid := by
  simp only [AssetObject.books, paidFund, AssetObject.fund, hb, map_sub]
  abel

theorem assetKept_paidFund (hs : s.AllSound) (ha : s.assets.find mia = some a)
    (hb : a.bitassetData = some b) (paid : ℤ) : AssetKept mia a (paidFund paid b a) s :=
  { hs.assetKept ha with
    core := fun hid ↦ absurd hid (hs.ne_core ha hb)
    feeds := fun b' hb' ↦ by
      obtain rfl := Option.some.inj hb'
      exact ⟨(hs.feeds mia a b ha hb).currentFeed, (hs.feeds mia a b ha hb).feeds⟩
    backing := fun _ b' hb' ↦ by
      obtain rfl := Option.some.inj (hb.symm.trans hb')
      exact ⟨_, rfl, rfl⟩ }

theorem keeps_of_redeem {op : AssetSettleOperation} (hs : s.AllSound)
    (hset : s.Settled op.amount.assetId a b) (hamount : 0 ≤ op.amount.amount)
    (hle : op.amount.amount ≤ a.dynamicData.currentSupply)
    (h : op.redeem a.dynamicData.currentSupply b s = .ok s') :
    s'.books = s.books + held op.amount.assetId op.amount.amount ∧ s'.AllSound ∧
      s'.headBlockTime = s.headBlockTime ∧ s'.limitOrders = s.limitOrders ∧
      s'.callOrders = s.callOrders := by
  obtain ⟨settled, a₁, b₁, a₂, t, hsettled, ha₁, hb₁, hpaid, ha₂, rfl⟩ := redeem_cases h
  obtain rfl := Option.some.inj (ha₁.symm.trans hset.find)
  obtain rfl := Option.some.inj (hb₁.symm.trans hset.bitassetData)
  have hsolvent := hset.solvent hs
  have hredeems := AssetSettleOperation.redeems_of_settledAmount hsolvent hamount hsettled
  refine ⟨?_, ?_, hpaid.frame.headBlockTime, hpaid.limitOrders, hpaid.callOrders⟩
  · rw [books_setAsset ha₂, coveredAsset_books, hpaid.books, books_setAsset ha₁, paidFund_books hb₁,
      hredeems.assetId]
    abel
  · have hin : (s.Sound (· = op.amount.assetId)) := hs.mono fun _ ↦ False.elim
    have hpart := (hin.setAsset ha₁ (assetKept_paidFund hs ha₁ hb₁ settled.amount) fun hhand ↦
      absurd rfl hhand).of_frame hpaid.frame
    obtain ⟨x, hx, hterms⟩ := hpaid.frame.find_asset ha₂
    rw [find_set ha₁, if_pos rfl] at hx
    obtain rfl := Option.some.inj hx
    have hbitasset := AssetObject.bitassetData_of_terms hterms
    have hsupply : t.currentSupply op.amount.assetId = _ := hpaid.currentSupply
      ⟨paidFund settled.amount b₁ a₁, by rw [find_set ha₁, if_pos rfl], rfl⟩
    rw [currentSupply_of_find ha₂, currentSupply_setAsset ha₁, if_pos rfl] at hsupply
    have hkept := hpart.assetKept ha₂
    refine Sound.release op.amount.assetId ?_ (fun key bid _ hbid ↦ ?_)
      (fun y b' hy hb' ↦ ?_)
    · have hcovered : AssetKept op.amount.assetId a₂ (coveredAsset op.amount.amount a₂) t :=
        ⟨hkept.core, hkept.maxMarketFee, hkept.accumulatedFees, hkept.confidentialSupply,
          hkept.feeds, hkept.backing⟩
      exact (hpart.setAsset ha₂ hcovered fun hhand ↦ absurd rfl hhand).mono fun _ ↦ .inr
    · have hbid' : s.collateralBids.find key = some bid := hpaid.collateralBids ▸ hbid
      have hold := hs.collateralBids key bid not_false hbid'
      exact { hold with bidder := hpaid.frame.accounts _ hold.bidder }
    · rw [find_setAsset ha₂, if_pos rfl] at hy
      obtain rfl := Option.some.inj hy
      obtain rfl := Option.some.inj (hb'.symm.trans hbitasset)
      have hset' : AssetBitassetData.HasSettlement
          { b₁ with settlementFund := b₁.settlementFund - settled.amount } := hset.hasSettlement
      have hold := hset.bitassetSound hs
      have hnone : ¬t.HasCallOrders op.amount.assetId := by
        rw [HasCallOrders, hpaid.callOrders]
        exact hold.noCallOrders hset.hasSettlement
      have heq : (coveredAsset op.amount.amount a₂).dynamicData.currentSupply =
          a₁.dynamicData.currentSupply - op.amount.amount := congrArg (· - op.amount.amount) hsupply
      rw [heq]
      exact ⟨(sub_le_self _ hamount).trans_lt hold.supply_lt, fun hnot ↦ absurd hset' hnot,
        fun hnot ↦ absurd hset' hnot, fun _ ↦ hredeems.solvent hsolvent hle, fun _ ↦ hnone⟩

end MarketState

end KarmaCore.Market
