import Mathlib
import KarmaCore.Market.FillTrade

/-!
# Sound states of the market

What holds of the orders, the bids and the assets between any two steps: the
debt in an asset that was not globally settled is its supply, and the fund of
one that was covers its supply at the recorded price.  A set of assets may be
left out while a step has them in hand.
-/

namespace KarmaCore.Market

open Transfer (get get_eq_ok)
open Books ObjectIndex

structure LimitOrderObject.Sound (o : LimitOrderObject) : Prop where
  forSale : 0 < o.forSale
  le_base : o.forSale ≤ o.sellPrice.base.amount
  base_lt : o.sellPrice.base.amount < shareEnd
  quote : 0 < o.sellPrice.quote.amount
  quote_lt : o.sellPrice.quote.amount < shareEnd
  assets : o.sellPrice.base.assetId ≠ o.sellPrice.quote.assetId
  deferredFee : 0 ≤ o.deferredFee

/-- Both amounts of a price lie between one share and the largest supply. -/
structure Price.Bounded (p : Price) : Prop where
  base : 0 < p.base.amount
  base_le : p.base.amount ≤ maxShareSupply
  quote : 0 < p.quote.amount
  quote_le : p.quote.amount ≤ maxShareSupply

/-- A position that bears debt in a market-issued asset, with its backing as collateral. -/
structure CallOrderObject.Sound (assets : ObjectIndex AssetObject) (c : CallOrderObject) : Prop where
  debt : 0 < c.debt
  collateral : 0 ≤ c.collateral
  callPrice : c.callPrice.Bounded
  backing : ∃ a b, assets.find c.debtType = some a ∧ a.bitassetData = some b ∧
    b.options.shortBackingAsset = c.collateralType

structure CollateralBidObject.Sound (accounts : ObjectIndex AccountObject) (b : CollateralBidObject) :
    Prop where
  base : 0 < b.invSwanPrice.base.amount
  quote : 0 < b.invSwanPrice.quote.amount
  assets : b.invSwanPrice.base.assetId ≠ b.invSwanPrice.quote.assetId
  bidder : (accounts.find b.bidder).isSome

/-- The ratios a feed may give. -/
def PriceFeed.RatiosSound (f : PriceFeed) : Prop :=
  0 < f.maintenanceCollateralRatio ∧ f.maintenanceCollateralRatio < 2 ^ 16

structure AssetBitassetData.FeedsSound (b : AssetBitassetData) : Prop where
  currentFeed : b.currentFeed.RatiosSound
  feeds : ∀ f ∈ b.feeds, f.2.2.RatiosSound

/-- The fund of a settled asset covers its supply at the recorded price. -/
structure AssetBitassetData.Solvent (mia : AssetId) (supply : ℤ) (b : AssetBitassetData) : Prop where
  base : b.settlementPrice.base.assetId = mia
  quote : b.settlementPrice.quote.assetId = b.options.shortBackingAsset
  base_pos : 0 < b.settlementPrice.base.amount
  quote_nonneg : 0 ≤ b.settlementPrice.quote.amount
  quote_lt : b.settlementPrice.quote.amount < shareEnd
  supply_nonneg : 0 ≤ supply
  covers : supply * b.settlementPrice.quote.amount ≤ b.settlementFund * b.settlementPrice.base.amount
  exhausted : supply = 0 → b.settlementFund = 0

theorem AssetBitassetData.Solvent.fund_nonneg {mia : AssetId} {supply : ℤ} {b : AssetBitassetData}
    (h : b.Solvent mia supply) : 0 ≤ b.settlementFund := by
  have hcovers := (mul_nonneg h.supply_nonneg h.quote_nonneg).trans h.covers
  exact nonneg_of_mul_nonneg_left hcovers h.base_pos

namespace MarketState

/-- What holds of one market-issued asset. -/
structure BitassetSound (mia : AssetId) (supply : ℤ) (b : AssetBitassetData) (s : MarketState) :
    Prop where
  supply_lt : supply < shareEnd
  fund : ¬b.HasSettlement → b.settlementFund = 0
  debt : ¬b.HasSettlement → s.totalDebt mia = supply
  solvent : b.HasSettlement → b.Solvent mia supply
  noCallOrders : b.HasSettlement → ¬s.HasCallOrders mia

/-- The assets in `inHand` are in the middle of a step. -/
structure Sound (inHand : AssetId → Prop) (s : MarketState) : Prop where
  core : ∃ a, s.assets.find coreAsset = some a ∧ a.bitassetData = none
  feesNonneg : s.FeesNonneg
  limitOrders : ∀ id o, s.limitOrders.find id = some o → o.Sound
  callOrders : ∀ id c, s.callOrders.find id = some c → c.Sound s.assets
  forceSettlements : ∀ id o, s.forceSettlements.find id = some o → 0 ≤ o.balance.amount
  collateralBids : ∀ id b, ¬inHand b.debtType → s.collateralBids.find id = some b →
    b.Sound s.accounts
  vestingBalances : ∀ id v, s.vestingBalances.find id = some v →
    v.balance.assetId ≠ coreAsset → 0 ≤ v.balance.amount
  accumulatedFees : ∀ id, id ≠ coreAsset → 0 ≤ s.accumulatedFees id
  confidentialSupply : ∀ id a, s.assets.find id = some a → 0 ≤ a.dynamicData.confidentialSupply
  feeds : ∀ id a b, s.assets.find id = some a → a.bitassetData = some b → b.FeedsSound
  bitassets : ∀ mia a b, ¬inHand mia → s.assets.find mia = some a → a.bitassetData = some b →
    s.BitassetSound mia a.dynamicData.currentSupply b

/-- No asset is in the middle of a step. -/
abbrev AllSound (s : MarketState) : Prop := s.Sound fun _ ↦ False

end MarketState

/-! ## Along a frame -/

theorem LimitOrderObject.Sound.of_reduces {o o' : LimitOrderObject} (h : o.Sound)
    (hred : o.Reduces o') : o'.Sound := by
  have hprice : o'.sellPrice = o.sellPrice := by rw [hred.terms]
  exact {
    forSale := hred.forSalePos h.forSale
    le_base := hprice ▸ hred.forSale.trans h.le_base
    base_lt := hprice ▸ h.base_lt
    quote := hprice ▸ h.quote
    quote_lt := hprice ▸ h.quote_lt
    assets := hprice ▸ h.assets
    deferredFee := hred.deferredFee h.deferredFee }

namespace MarketState

variable {s s' : MarketState} {inHand : AssetId → Prop}

theorem Frame.find_asset (h : s.Frame s') {id : AssetId} {a' : AssetObject}
    (ha' : s'.assets.find id = some a') :
    ∃ a, s.assets.find id = some a ∧ a'.terms = a.terms := by
  have hterms := h.assets id
  rw [ha', Option.map_some, eq_comm, Option.map_eq_some_iff] at hterms
  obtain ⟨a, ha, heq⟩ := hterms
  exact ⟨a, ha, heq.symm⟩

theorem Frame.find_asset' (h : s.Frame s') {id : AssetId} {a : AssetObject}
    (ha : s.assets.find id = some a) :
    ∃ a', s'.assets.find id = some a' ∧ a'.terms = a.terms := by
  have hterms := h.assets id
  rw [ha, Option.map_some, Option.map_eq_some_iff] at hterms
  exact hterms

theorem callOrder_sound_of_frame (h : s.Frame s') {c c' : CallOrderObject} (hc : c.Sound s.assets)
    (hred : c.Reduces c') : c'.Sound s'.assets := by
  have hprice : c'.callPrice = c.callPrice := by rw [hred.terms]
  obtain ⟨a, b, ha, hb, hbacking⟩ := hc.backing
  obtain ⟨a', ha', hterms⟩ := h.find_asset' ha
  exact {
    debt := hred.debtPos hc.debt
    collateral := hred.collateralNonneg hc.collateral
    callPrice := hprice ▸ hc.callPrice
    backing := ⟨a', b, hred.debtType ▸ ha', (AssetObject.bitassetData_of_terms hterms).trans hb,
      hbacking.trans (by rw [CallOrderObject.collateralType, CallOrderObject.collateralType, hprice])⟩ }

/-- Sound states stay sound around trades. -/
theorem Sound.of_frame (hs : s.Sound inHand) (h : s.Frame s') : s'.Sound inHand where
  core := by
    obtain ⟨a, ha, hnone⟩ := hs.core
    obtain ⟨a', ha', hterms⟩ := h.find_asset' ha
    exact ⟨a', ha', (AssetObject.bitassetData_of_terms hterms).trans hnone⟩
  feesNonneg id a' ha' := by
    obtain ⟨a, ha, hterms⟩ := h.find_asset ha'
    have hoptions : a'.options = a.options := by
      change a'.terms.options = a.terms.options
      rw [hterms]
    exact hoptions ▸ hs.feesNonneg id a ha
  limitOrders id o' ho' := by
    obtain ⟨o, ho, hred⟩ := h.limitOrders id o' ho'
    exact (hs.limitOrders id o ho).of_reduces hred
  callOrders id c' hc' := by
    obtain ⟨c, hc, hred⟩ := h.callOrders id c' hc'
    exact callOrder_sound_of_frame h (hs.callOrders id c hc) hred
  forceSettlements id o' ho' := by
    obtain ⟨o, ho, hred⟩ := h.forceSettlements id o' ho'
    exact hred.balance (hs.forceSettlements id o ho)
  collateralBids id b hhand hb := by
    obtain ⟨b₀, hb₀, rfl⟩ := h.collateralBids id b hb
    have hbid := hs.collateralBids id b₀ hhand hb₀
    exact { hbid with bidder := h.accounts _ hbid.bidder }
  vestingBalances := h.vestingBalances ▸ hs.vestingBalances
  accumulatedFees id hid := h.accumulatedFees id (hs.accumulatedFees id hid)
  confidentialSupply id a' ha' := by
    obtain ⟨a, ha, hterms⟩ := h.find_asset ha'
    have hsame : a'.dynamicData.confidentialSupply = a.dynamicData.confidentialSupply := by
      change a'.terms.dynamicData.confidentialSupply = a.terms.dynamicData.confidentialSupply
      rw [hterms]
    exact hsame ▸ hs.confidentialSupply id a ha
  feeds id a' b ha' hb := by
    obtain ⟨a, ha, hterms⟩ := h.find_asset ha'
    exact hs.feeds id a b ha (AssetObject.bitassetData_of_terms hterms ▸ hb)
  bitassets mia a' b hhand ha' hb := by
    obtain ⟨a, ha, hterms⟩ := h.find_asset ha'
    have hb₀ : a.bitassetData = some b := AssetObject.bitassetData_of_terms hterms ▸ hb
    have hold := hs.bitassets mia a b hhand ha hb₀
    have hmarket : s.IsMarketIssued mia :=
      (isMarketIssued_of_find ha).mpr (by rw [AssetObject.isMarketIssued, hb₀, Option.isSome_some])
    have hdebt := h.totalDebt mia hmarket
    rw [currentSupply_of_find ha, currentSupply_of_find ha'] at hdebt
    have hsupply : b.HasSettlement → a'.dynamicData.currentSupply = a.dynamicData.currentSupply :=
      fun hset ↦ by
        have hsame := h.currentSupply mia hmarket (hold.noCallOrders hset)
        rwa [currentSupply_of_find ha, currentSupply_of_find ha'] at hsame
    have hle := h.supplyLe mia hmarket
    rw [currentSupply_of_find ha, currentSupply_of_find ha'] at hle
    exact {
      supply_lt := hle.trans_lt hold.supply_lt
      fund := hold.fund
      debt := fun hset ↦ by
        have heq := hold.debt hset
        omega
      solvent := fun hset ↦ (hsupply hset).symm ▸ hold.solvent hset
      noCallOrders := fun hset ↦ not_hasCallOrders_of_shrinks h.callOrders (hold.noCallOrders hset) }

/-! ## Changing an asset -/

theorem Sound.mono {inHand' : AssetId → Prop} (hs : s.Sound inHand)
    (h : ∀ id, inHand id → inHand' id) : s.Sound inHand' :=
  { hs with
    collateralBids := fun id b hhand ↦ hs.collateralBids id b fun h' ↦ hhand (h _ h')
    bitassets := fun mia a b hhand ↦ hs.bitassets mia a b fun h' ↦ hhand (h mia h') }

/-- An asset and its bids that were seen to be sound are no longer in hand. -/
theorem Sound.release (id : AssetId) (hs : s.Sound fun x ↦ inHand x ∨ x = id)
    (hbids : ∀ key b, b.debtType = id → s.collateralBids.find key = some b → b.Sound s.accounts)
    (hbitasset : ∀ a b, s.assets.find id = some a → a.bitassetData = some b →
      s.BitassetSound id a.dynamicData.currentSupply b) : s.Sound inHand :=
  { hs with
    collateralBids := fun key b hhand hb ↦ by
      by_cases hid : b.debtType = id
      · exact hbids key b hid hb
      · exact hs.collateralBids key b (by simp [hhand, hid]) hb
    bitassets := fun mia a b hhand ha hb ↦ by
      by_cases hid : mia = id
      · subst hid
        exact hbitasset a b ha hb
      · exact hs.bitassets mia a b (by simp [hhand, hid]) ha hb }

/-- What a new version of an asset must keep. -/
structure AssetKept (id : AssetId) (a a' : AssetObject) (s : MarketState) : Prop where
  core : id = coreAsset → a'.bitassetData = none
  maxMarketFee : 0 ≤ a'.options.maxMarketFee
  accumulatedFees : id ≠ coreAsset → 0 ≤ a'.dynamicData.accumulatedFees
  confidentialSupply : 0 ≤ a'.dynamicData.confidentialSupply
  feeds : ∀ b', a'.bitassetData = some b' → b'.FeedsSound
  backing : s.HasCallOrders id → ∀ b, a.bitassetData = some b → ∃ b', a'.bitassetData = some b' ∧
    b'.options.shortBackingAsset = b.options.shortBackingAsset

/-- A new version of an asset leaves a sound state sound when it is sound itself. -/
theorem Sound.setAsset {id : AssetId} {a a' : AssetObject} (hs : s.Sound inHand) (ha : s.assets.find id = some a)
    (hkept : AssetKept id a a' s)
    (hbitasset : ¬inHand id → ∀ b', a'.bitassetData = some b' →
      s.BitassetSound id a'.dynamicData.currentSupply b') :
    ({ s with assets := s.assets.set id a' } : MarketState).Sound inHand := by
  have hfind : ∀ key x, (s.assets.set id a').find key = some x →
      key = id ∧ x = a' ∨ key ≠ id ∧ s.assets.find key = some x := by
    intro key x hx
    rw [find_set ha] at hx
    split_ifs at hx with hkey
    · exact .inl ⟨hkey, (Option.some.inj hx).symm⟩
    · exact .inr ⟨hkey, hx⟩
  exact {
    core := by
      obtain ⟨x, hx, hnone⟩ := hs.core
      by_cases hcore : coreAsset = id
      · exact ⟨a', by simp [find_set ha, hcore], hkept.core hcore.symm⟩
      · exact ⟨x, by simpa [find_set ha, hcore] using hx, hnone⟩
    feesNonneg := fun key x hx ↦ by
      rcases hfind key x hx with ⟨rfl, rfl⟩ | ⟨-, hx⟩
      · exact hkept.maxMarketFee
      · exact hs.feesNonneg key x hx
    limitOrders := hs.limitOrders
    callOrders := fun key c hc ↦ by
      have hsound := hs.callOrders key c hc
      obtain ⟨x, b, hx, hb, hbacking⟩ := hsound.backing
      refine { hsound with backing := ?_ }
      by_cases hkey : c.debtType = id
      · obtain rfl := Option.some.inj (ha.symm.trans (hkey ▸ hx))
        obtain ⟨b', hb', hsame⟩ := hkept.backing ⟨key, c, hc, hkey⟩ b hb
        exact ⟨a', b', by simp [find_set ha, hkey], hb', hsame.trans hbacking⟩
      · exact ⟨x, b, by simpa [find_set ha, hkey] using hx, hb, hbacking⟩
    forceSettlements := hs.forceSettlements
    collateralBids := hs.collateralBids
    vestingBalances := hs.vestingBalances
    accumulatedFees := fun key hkey ↦ by
      rw [accumulatedFees_setAsset ha]
      split_ifs with heq
      · exact hkept.accumulatedFees (heq ▸ hkey)
      · exact hs.accumulatedFees key hkey
    confidentialSupply := fun key x hx ↦ by
      rcases hfind key x hx with ⟨-, rfl⟩ | ⟨-, hx⟩
      · exact hkept.confidentialSupply
      · exact hs.confidentialSupply key x hx
    feeds := fun key x b hx hb ↦ by
      rcases hfind key x hx with ⟨-, rfl⟩ | ⟨-, hx⟩
      · exact hkept.feeds b hb
      · exact hs.feeds key x b hx hb
    bitassets := fun key x b hhand hx hb ↦ by
      rcases hfind key x hx with ⟨rfl, rfl⟩ | ⟨hkey, hx⟩
      · have hsound := hbitasset hhand b hb
        exact ⟨hsound.supply_lt, hsound.fund, hsound.debt, hsound.solvent, hsound.noCallOrders⟩
      · have hsound := hs.bitassets key x b hhand hx hb
        exact ⟨hsound.supply_lt, hsound.fund, hsound.debt, hsound.solvent, hsound.noCallOrders⟩ }

/-- The version of an asset there is keeps what must be kept. -/
theorem Sound.assetKept (hs : s.Sound inHand) {id : AssetId} {a : AssetObject}
    (ha : s.assets.find id = some a) : AssetKept id a a s where
  core hid := by
    obtain ⟨x, hx, hnone⟩ := hs.core
    rwa [Option.some.inj (ha.symm.trans (hid ▸ hx))]
  maxMarketFee := hs.feesNonneg id a ha
  accumulatedFees hid := accumulatedFees_of_find ha ▸ hs.accumulatedFees id hid
  confidentialSupply := hs.confidentialSupply id a ha
  feeds b hb := hs.feeds id a b ha hb
  backing _ b hb := ⟨b, hb, rfl⟩

/-- New call orders leave a sound state sound when they are sound and only in assets in hand. -/
theorem Sound.setCallOrders (hs : s.Sound inHand) {ix : ObjectIndex CallOrderObject}
    (hcalls : ∀ id c, ix.find id = some c → c.Sound s.assets)
    (hdebt : ∀ mia, ¬inHand mia →
      ix.total (fun _ c ↦ c.getDebt.part mia) = s.totalDebt mia ∧
      ((∃ id c, ix.find id = some c ∧ c.debtType = mia) → s.HasCallOrders mia)) :
    ({ s with callOrders := ix } : MarketState).Sound inHand :=
  { hs with
    callOrders := hcalls
    bitassets := fun mia a b hhand ha hb ↦ by
      obtain ⟨htotal, hhas⟩ := hdebt mia hhand
      have hsound := hs.bitassets mia a b hhand ha hb
      exact ⟨hsound.supply_lt, hsound.fund, fun hset ↦ htotal.trans (hsound.debt hset), hsound.solvent,
        fun hset h ↦ hsound.noCallOrders hset (hhas h)⟩ }

end MarketState

end KarmaCore.Market
