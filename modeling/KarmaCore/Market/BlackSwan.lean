import Mathlib
import KarmaCore.Market.MarketRun
import KarmaCore.Market.GlobalSettlement

/-!
# When a black swan is seen

`check_for_blackswan` looks at the call order with the lowest call price.  That
price is the one of the order's last update: fills and new collateral ratios
change which order is the least collateralized one without it.
-/

namespace KarmaCore.Market

open Transfer (get get_eq_ok)
open ObjectIndex

namespace MarketState

variable {s s' : MarketState} {mia : AssetId} {a : AssetObject} {b : AssetBitassetData}

/-- The call orders of an asset by their call prices, from least to greatest. -/
def callBook (mia backing : AssetId) (s : MarketState) : List (ℕ × CallOrderObject) :=
  s.callsBetween ⟨⟨1, backing⟩, ⟨maxShareSupply, mia⟩⟩ ⟨⟨maxShareSupply, backing⟩, ⟨1, mia⟩⟩

/-- The bids for the backing asset, best first. -/
def bidBook (mia backing : AssetId) (s : MarketState) : List (ℕ × LimitOrderObject) :=
  s.limitsBetween ⟨⟨maxShareSupply, mia⟩, ⟨1, backing⟩⟩ ⟨⟨1, mia⟩, ⟨maxShareSupply, backing⟩⟩

/-- The larger of the best bid and the feed is at or below the debt of an order
by its collateral. -/
def UnderWater (mia : AssetId) (b : AssetBitassetData) (s : MarketState) (o : CallOrderObject) :
    Prop :=
  Price.Ge ⟨o.getDebt, o.getCollateral⟩
    (highestBid b.currentFeed.settlementPrice (s.bidBook mia b.options.shortBackingAsset))

instance (mia : AssetId) (b : AssetBitassetData) (s : MarketState) (o : CallOrderObject) :
    Decidable (UnderWater mia b s o) := inferInstanceAs (Decidable (Price.Ge _ _))

/-- No order has less collateral for its debt. -/
def LeastCollateralized (book : List (ℕ × CallOrderObject)) (o : ℕ × CallOrderObject) : Prop :=
  o ∈ book ∧ ∀ o' ∈ book, o.2.collateral * o'.2.debt ≤ o'.2.collateral * o.2.debt

instance (book : List (ℕ × CallOrderObject)) (o : ℕ × CallOrderObject) :
    Decidable (LeastCollateralized book o) := inferInstanceAs (Decidable (_ ∧ _))

/-- The check settles the asset, or where it may not reports a black swan. -/
structure SwanTriggered (mia : AssetId) (s : MarketState) : Prop where
  settles : ∃ price, s.checkForBlackswan mia true = (do
    let s ← s.globallySettleAsset mia price
    return (true, s))
  reports : s.checkForBlackswan mia false = .error (.assertion
    "Black swan was detected during a margin update which is not allowed to trigger a blackswan")

/-- The check leaves everything as it is. -/
def SwanUnseen (mia : AssetId) (s : MarketState) : Prop :=
  ∀ enable, s.checkForBlackswan mia enable = .ok (false, s)

theorem SwanUnseen.not_triggered (h : s.SwanUnseen mia) : ¬s.SwanTriggered mia := by
  intro htriggered
  have hreports := htriggered.reports
  rw [h false] at hreports
  cases hreports

/-- What is asked of an asset before its book is looked at. -/
structure SwanWatched (mia : AssetId) (b : AssetBitassetData) (s : MarketState) : Prop where
  asset : ∃ a, s.assets.find mia = some a ∧ a.bitassetData = some b
  unsettled : ¬b.HasSettlement
  feed : ¬b.currentFeed.settlementPrice.IsNull
  backing : b.options.shortBackingAsset ≠ mia

theorem checkForBlackswan_of_watched (h : s.SwanWatched mia b) (enable : Bool) :
    s.checkForBlackswan mia enable = s.checkLeastCollateral mia b enable := by
  obtain ⟨a, ha, hb⟩ := h.asset
  have hmarket : a.isMarketIssued := by rw [AssetObject.isMarketIssued, hb, Option.isSome_some]
  have hdata : a.getBitassetData = .ok b := getBitassetData_eq_ok.mpr hb
  rw [checkForBlackswan, get_eq_ok.mpr ha]
  change (if ¬a.isMarketIssued then _ else _) = _
  rw [if_neg (not_not.mpr hmarket), hdata]
  change (if b.HasSettlement then _ else _) = _
  rw [if_neg h.unsettled, if_neg h.feed]

theorem per_of_ne {base quote : Asset} (h : base.assetId ≠ quote.assetId) :
    per base quote = .ok ⟨base, quote⟩ := per_eq_ok.mpr ⟨h, rfl⟩

theorem pair_of_mem_callBook {backing : AssetId} {o : ℕ × CallOrderObject}
    (hbacking : backing ≠ mia) (ho : o ∈ s.callBook mia backing) :
    o.2.debtType = mia ∧ o.2.collateralType = backing := by
  rw [callBook, callsBetween, mem_select] at ho
  obtain ⟨-, hlow, hhigh⟩ := ho
  obtain ⟨hbase, hquote⟩ :=
    Price.pair_of_between (per_of_ne hbacking) (per_of_ne hbacking) hlow hhigh
  exact ⟨hquote, hbase⟩

/-- The check looks at the first order of the book and at no other. -/
theorem checkForBlackswan_of_first {first : ℕ × CallOrderObject} {rest : List (ℕ × CallOrderObject)}
    (h : s.SwanWatched mia b) (hbook : s.callBook mia b.options.shortBackingAsset = first :: rest)
    (enable : Bool) :
    s.checkForBlackswan mia enable =
      if UnderWater mia b s first.2 then do
        require (enable = true) ("Black swan was detected during a margin update which " ++
          "is not allowed to trigger a blackswan")
        let s ← s.globallySettleAsset mia ⟨first.2.getDebt, first.2.getCollateral⟩
        return (true, s)
      else .ok (false, s) := by
  have hbacking := h.backing
  have hmem : first ∈ s.callBook mia b.options.shortBackingAsset := hbook ▸ List.mem_cons_self
  obtain ⟨hdebt, hcollateral⟩ := pair_of_mem_callBook hbacking hmem
  have hleast : first.2.collateralization = .ok ⟨first.2.getCollateral, first.2.getDebt⟩ := by
    refine per_of_ne ?_
    change first.2.collateralType ≠ first.2.debtType
    rw [hdebt, hcollateral]
    exact hbacking
  have hbids : Price.highest mia b.options.shortBackingAsset =
      .ok ⟨⟨maxShareSupply, mia⟩, ⟨1, b.options.shortBackingAsset⟩⟩ := per_of_ne hbacking.symm
  have hasks : Price.lowest mia b.options.shortBackingAsset =
      .ok ⟨⟨1, mia⟩, ⟨maxShareSupply, b.options.shortBackingAsset⟩⟩ := per_of_ne hbacking.symm
  have hmin : Price.lowest b.options.shortBackingAsset mia =
      .ok ⟨⟨1, b.options.shortBackingAsset⟩, ⟨maxShareSupply, mia⟩⟩ := per_of_ne hbacking
  have hmax : Price.highest b.options.shortBackingAsset mia =
      .ok ⟨⟨maxShareSupply, b.options.shortBackingAsset⟩, ⟨1, mia⟩⟩ := per_of_ne hbacking
  have hcalls : s.callsBetween ⟨⟨1, b.options.shortBackingAsset⟩, ⟨maxShareSupply, mia⟩⟩
      ⟨⟨maxShareSupply, b.options.shortBackingAsset⟩, ⟨1, mia⟩⟩ = first :: rest := hbook
  rw [checkForBlackswan_of_watched h, checkLeastCollateral, hbids, hasks, hmin, hmax]
  simp only [bind, Except.bind, hcalls, hleast]
  rfl

theorem swanTriggered_iff {first : ℕ × CallOrderObject} {rest : List (ℕ × CallOrderObject)}
    (h : s.SwanWatched mia b)
    (hbook : s.callBook mia b.options.shortBackingAsset = first :: rest) :
    (s.SwanTriggered mia ↔ UnderWater mia b s first.2) ∧
      (¬s.SwanTriggered mia → s.SwanUnseen mia) := by
  have hcheck := checkForBlackswan_of_first h hbook
  by_cases hwater : UnderWater mia b s first.2
  · have htriggered : s.SwanTriggered mia := by
      refine ⟨⟨⟨first.2.getDebt, first.2.getCollateral⟩, ?_⟩, ?_⟩
      · rw [hcheck, if_pos hwater]
        rfl
      · rw [hcheck, if_pos hwater]
        rfl
    exact ⟨iff_of_true htriggered hwater, fun hnot ↦ absurd htriggered hnot⟩
  · have hunseen : s.SwanUnseen mia := fun enable ↦ by rw [hcheck, if_neg hwater]
    exact ⟨iff_of_false hunseen.not_triggered hwater, fun _ ↦ hunseen⟩

/-! ## The least collateralized order -/

/-- The amounts compared are shares, and no order is without debt. -/
structure SwanTyped (mia : AssetId) (b : AssetBitassetData) (s : MarketState) : Prop where
  debt : ∀ o ∈ s.callBook mia b.options.shortBackingAsset, 0 < o.2.debt ∧ o.2.debt < shareEnd
  collateral : ∀ o ∈ s.callBook mia b.options.shortBackingAsset,
    0 ≤ o.2.collateral ∧ o.2.collateral < shareEnd
  feed : 0 ≤ b.currentFeed.settlementPrice.base.amount ∧
    b.currentFeed.settlementPrice.base.amount < shareEnd ∧
    0 ≤ b.currentFeed.settlementPrice.quote.amount ∧
    b.currentFeed.settlementPrice.quote.amount < shareEnd
  bids : ∀ o ∈ s.bidBook mia b.options.shortBackingAsset, 0 ≤ o.2.sellPrice.base.amount ∧
    o.2.sellPrice.base.amount < shareEnd ∧ 0 ≤ o.2.sellPrice.quote.amount ∧
    o.2.sellPrice.quote.amount < shareEnd

theorem SwanTyped.highestBid (h : s.SwanTyped mia b) :
    let p := highestBid b.currentFeed.settlementPrice (s.bidBook mia b.options.shortBackingAsset)
    0 ≤ p.base.amount ∧ p.base.amount < shareEnd ∧ 0 ≤ p.quote.amount ∧
      p.quote.amount < shareEnd := by
  rcases hbids : s.bidBook mia b.options.shortBackingAsset with _ | ⟨o, rest⟩
  · exact h.feed
  · simp only [MarketState.highestBid]
    split_ifs
    · exact h.feed
    · exact h.bids o (hbids ▸ List.mem_cons_self)

/-- Where an order is under water, one with less collateral for its debt is as well. -/
theorem UnderWater.of_less {o o' : ℕ × CallOrderObject} (h : s.SwanTyped mia b)
    (ho : o ∈ s.callBook mia b.options.shortBackingAsset)
    (ho' : o' ∈ s.callBook mia b.options.shortBackingAsset)
    (hbacking : b.options.shortBackingAsset ≠ mia)
    (hless : o'.2.collateral * o.2.debt ≤ o.2.collateral * o'.2.debt)
    (hwater : UnderWater mia b s o.2) : UnderWater mia b s o'.2 := by
  obtain ⟨hdebt, hcollateral⟩ := pair_of_mem_callBook hbacking ho
  obtain ⟨hdebt', hcollateral'⟩ := pair_of_mem_callBook hbacking ho'
  obtain ⟨hpos, hlt⟩ := h.debt o ho
  obtain ⟨hpos', hlt'⟩ := h.debt o' ho'
  obtain ⟨hc, hclt⟩ := h.collateral o ho
  obtain ⟨hc', hclt'⟩ := h.collateral o' ho'
  have hbid := h.highestBid
  unfold UnderWater at hwater ⊢
  set p := MarketState.highestBid b.currentFeed.settlementPrice
    (s.bidBook mia b.options.shortBackingAsset)
  obtain ⟨hb, hblt, hq, hqlt⟩ := hbid
  simp only [Price.Ge, Price.Lt, CallOrderObject.getDebt, CallOrderObject.getCollateral, hdebt,
    hdebt', hcollateral, hcollateral', not_or, not_and, not_lt] at hwater ⊢
  refine ⟨hwater.1, fun hbase ↦ ⟨(hwater.2 hbase).1, fun hquote ↦ ?_⟩⟩
  have hwater := (hwater.2 hbase).2 hquote
  rw [mul128_eq hc hclt hb hblt, mul128_eq hq hqlt hpos.le hlt] at hwater
  rw [mul128_eq hc' hclt' hb hblt, mul128_eq hq hqlt hpos'.le hlt']
  -- both sides by the positive debt of the first order
  refine le_of_mul_le_mul_right ?_ hpos
  calc o'.2.collateral * p.base.amount * o.2.debt
      = o'.2.collateral * o.2.debt * p.base.amount := by ring
    _ ≤ o.2.collateral * o'.2.debt * p.base.amount := mul_le_mul_of_nonneg_right hless hb
    _ = o.2.collateral * p.base.amount * o'.2.debt := by ring
    _ ≤ p.quote.amount * o.2.debt * o'.2.debt := mul_le_mul_of_nonneg_right hwater hpos'.le
    _ = p.quote.amount * o'.2.debt * o.2.debt := by ring

/-- A market-issued asset with one feed producer and two accounts with core. -/
def borrowMarket : MarketState where
  balances := [⟨11, 0, 2000⟩, ⟨12, 0, 1900⟩]
  accounts := ⟨13, [(10, {}), (11, {}), (12, {})], by decide, by simp⟩
  assets := ⟨2, [(0, {}), (1, { issuer := 10, bitassetData := some { feeds := [(10, 0, {})] } })],
    by decide, by simp⟩
  headBlockTime := hardforkCore216Time + 1

def quoteFeed (core maintenanceCollateralRatio : ℕ) : AssetPublishFeedOperation where
  publisher := 10
  assetId := 1
  feed := {
    settlementPrice := ⟨⟨1000, 1⟩, ⟨core, 0⟩⟩
    coreExchangeRate := ⟨⟨1000, 1⟩, ⟨1000, 0⟩⟩
    maintenanceCollateralRatio
    maximumShortSqueezeRatio := 1001 }

def borrow (account : AccountId) (collateral : ℤ) : CallOrderUpdateOperation where
  fundingAccount := account
  deltaCollateral := ⟨collateral, 0⟩
  deltaDebt := ⟨1000, 1⟩

/-- One position at the ratio of 1750. -/
def firstBorrowed : MarketState :=
  (borrowMarket.step (fun _ ↦ 0) (.operation (.assetPublishFeed (quoteFeed 1000 1750)) (by decide))).step
    (fun _ ↦ 0) (.operation (.callOrderUpdate (borrow 11 2000)) (by decide))

/-- Another with less collateral at the ratio of 1001, and the feed falls between the two. -/
def secondBorrowed : MarketState :=
  ((firstBorrowed.step (fun _ ↦ 0) (.operation (.assetPublishFeed (quoteFeed 1000 1001))
    (by decide))).step (fun _ ↦ 0) (.operation (.callOrderUpdate (borrow 12 1900)) (by decide))).step
    (fun _ ↦ 0) (.operation (.assetPublishFeed (quoteFeed 1950 1001)) (by decide))

def firstPosition : CallOrderObject := ⟨11, 2000, 1000, ⟨⟨8, 0⟩, ⟨7, 1⟩⟩⟩

def secondPosition : CallOrderObject := ⟨12, 1900, 1000, ⟨⟨1900, 0⟩, ⟨1001, 1⟩⟩⟩

theorem swanWatched_of_getBitassetData (hb : s.getBitassetData mia = .ok b)
    (hset : ¬b.HasSettlement) (hfeed : ¬b.currentFeed.settlementPrice.IsNull)
    (hbacking : b.options.shortBackingAsset ≠ mia) : s.SwanWatched mia b := by
  simp only [getBitassetData, Checked.bind_eq_ok, get_eq_ok, getBitassetData_eq_ok] at hb
  exact ⟨hb, hset, hfeed, hbacking⟩

end MarketState

end KarmaCore.Market
