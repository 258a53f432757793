import Mathlib
import KarmaCore.Market.BidSound
import KarmaCore.Market.FillsGive
import KarmaCore.Market.Operation

/-!
# Asset operations keep the market sound

New options, feeds and supplies of an asset are entries in its own objects, and
leave the settlement and the backing of its positions as they are.
-/

namespace KarmaCore.Market

open Transfer (get get_eq_ok)
open Books ObjectIndex

/-! ## Feeds -/

theorem medianOf_mem {α : Type} {before : α → α → Prop} [∀ a b, Decidable (before a b)] {xs : List α}
    {default : α} (h : xs ≠ []) : medianOf before xs default ∈ xs := by
  have hsorted : (xs.insertionSort fun a b ↦ ¬before b a).length = xs.length :=
    (List.perm_insertionSort _ xs).length_eq
  have hlt : xs.length / 2 < (xs.insertionSort fun a b ↦ ¬before b a).length := by
    have := List.length_pos_iff.mpr h
    omega
  rw [medianOf, List.getElem?_eq_getElem hlt, Option.getD_some]
  exact (List.mem_insertionSort _).mp (List.getElem_mem hlt)

theorem PriceFeed.ratiosSound_default : PriceFeed.RatiosSound {} := ⟨by decide, by decide⟩

namespace AssetBitassetData

variable {b : AssetBitassetData}

theorem medianFeed_ratiosSound {feeds : List PriceFeed} (h : ∀ f ∈ feeds, f.RatiosSound) :
    (medianFeed feeds).RatiosSound := by
  rcases eq_or_ne feeds [] with rfl | hne
  · exact PriceFeed.ratiosSound_default
  · have hmem : (medianFeed feeds).maintenanceCollateralRatio ∈
        feeds.map (·.maintenanceCollateralRatio) := medianOf_mem (by simpa using hne)
    obtain ⟨f, hf, heq⟩ := List.mem_map.mp hmem
    rw [PriceFeed.RatiosSound, ← heq]
    exact h f hf

theorem FeedsSound.updateMedianFeeds (h : b.FeedsSound) (now : ℕ) :
    (b.updateMedianFeeds now).FeedsSound := by
  have hmem : ∀ f ∈ b.currentFeeds now, f.2.RatiosSound := by
    intro f hf
    obtain ⟨p, hp, rfl⟩ := List.mem_map.mp (List.mem_of_mem_filter hf)
    exact h.feeds p hp
  unfold AssetBitassetData.updateMedianFeeds
  dsimp only
  split_ifs
  · exact ⟨PriceFeed.ratiosSound_default, h.feeds⟩
  · split
    · rename_i f heq
      exact ⟨hmem f (by rw [heq]; exact List.mem_singleton_self f), h.feeds⟩
    · refine ⟨medianFeed_ratiosSound fun f hf ↦ ?_, h.feeds⟩
      obtain ⟨p, hp, rfl⟩ := List.mem_map.mp hf
      exact hmem p hp

theorem FeedsSound.setFeed (h : b.FeedsSound) (publisher : AccountId) (now : ℕ) {feed : PriceFeed}
    (hfeed : feed.RatiosSound) : (b.setFeed publisher now feed).FeedsSound := by
  refine ⟨h.currentFeed, fun f hf ↦ ?_⟩
  rcases (List.mem_orderedInsert _).mp hf with rfl | hf
  · exact hfeed
  · exact h.feeds f (List.mem_of_mem_filter hf)

theorem FeedsSound.setFeedProducers (h : b.FeedsSound) (producers : List AccountId) :
    (b.setFeedProducers producers).FeedsSound := by
  refine ⟨h.currentFeed, fun f hf ↦ ?_⟩
  rcases List.mem_append.mp ((List.mem_insertionSort _).mp hf) with hf | hf
  · exact h.feeds f (List.mem_of_mem_filter hf)
  · obtain ⟨p, -, rfl⟩ := List.mem_map.mp hf
    exact PriceFeed.ratiosSound_default

end AssetBitassetData

namespace MarketState

variable {s s' : MarketState} {mia id : AssetId} {a a' : AssetObject} {b b' : AssetBitassetData}

/-! ## Writes to an asset -/

/-- New bitasset data may name another backing asset while the asset has no supply. -/
structure BitassetKept (supply : ℤ) (b b' : AssetBitassetData) : Prop where
  settlementPrice : b'.settlementPrice = b.settlementPrice
  settlementFund : b'.settlementFund = b.settlementFund
  backing : b'.options.shortBackingAsset = b.options.shortBackingAsset ∨
    ¬b.HasSettlement ∧ supply = 0
  feeds : b'.FeedsSound

theorem updateMedianFeeds_eq (b : AssetBitassetData) (now : ℕ) : ∃ feed time,
    b.updateMedianFeeds now = { b with
      currentFeed := feed, currentFeedPublicationTime := time } := by
  unfold AssetBitassetData.updateMedianFeeds
  dsimp only
  split_ifs
  · exact ⟨_, _, rfl⟩
  · split
    · exact ⟨_, _, rfl⟩
    · exact ⟨_, _, rfl⟩

theorem BitassetKept.updateMedianFeeds {supply : ℤ} (h : BitassetKept supply b b') (now : ℕ) :
    BitassetKept supply b (b'.updateMedianFeeds now) := by
  have hfeeds := h.feeds.updateMedianFeeds now
  obtain ⟨feed, time, heq⟩ := updateMedianFeeds_eq b' now
  rw [heq] at hfeeds ⊢
  exact ⟨h.settlementPrice, h.settlementFund, h.backing, hfeeds⟩

theorem BitassetKept.bitassetSound {supply : ℤ} (hkept : BitassetKept supply b b')
    (h : s.BitassetSound mia supply b) : s.BitassetSound mia supply b' := by
  have hsame : b'.HasSettlement ↔ b.HasSettlement := by
    rw [AssetBitassetData.HasSettlement, hkept.settlementPrice, AssetBitassetData.HasSettlement]
  refine ⟨h.supply_lt, fun hset ↦ ?_, fun hset ↦ h.debt (mt hsame.mpr hset), fun hset ↦ ?_,
    fun hset ↦ h.noCallOrders (hsame.mp hset)⟩
  · rw [hkept.settlementFund]
    exact h.fund (mt hsame.mpr hset)
  · have hold := h.solvent (hsame.mp hset)
    have hbacking := hkept.backing.resolve_right fun hnot ↦ hnot.1 (hsame.mp hset)
    exact {
      base := hkept.settlementPrice ▸ hold.base
      quote := by rw [hkept.settlementPrice, hbacking, hold.quote]
      base_pos := hkept.settlementPrice ▸ hold.base_pos
      quote_nonneg := hkept.settlementPrice ▸ hold.quote_nonneg
      quote_lt := hkept.settlementPrice ▸ hold.quote_lt
      supply_nonneg := hold.supply_nonneg
      covers := by rw [hkept.settlementPrice, hkept.settlementFund]; exact hold.covers
      exhausted := fun hzero ↦ hkept.settlementFund.trans (hold.exhausted hzero) }

theorem keeps_of_setBitasset (hs : s.AllSound) (ha : s.assets.find mia = some a)
    (hb : a.bitassetData = some b) (hkept : BitassetKept a.dynamicData.currentSupply b b') :
    Keeps s { s with assets := s.assets.set mia { a with bitassetData := some b' } } := by
  have hold := hs.bitassets mia a b not_false ha hb
  refine ⟨⟨?_, ?_, rfl, .refl .refl _⟩, .refl .refl _⟩
  · have hfund : AssetObject.fund { a with bitassetData := some b' } = a.fund := by
      simp only [AssetObject.fund, hb, hkept.settlementFund]
      rcases hkept.backing with hbacking | ⟨hset, -⟩
      · rw [hbacking]
      · rw [hold.fund hset, map_zero, map_zero]
    rw [books_setAsset ha]
    simp only [AssetObject.books, hfund]
    abel
  · refine hs.setAsset ha { hs.assetKept ha with
      core := fun hid ↦ absurd hid (hs.ne_core ha hb)
      feeds := fun _ heq ↦ Option.some.inj heq ▸ hkept.feeds
      backing := fun hcalls b₀ hb₀ ↦ ⟨b', rfl, ?_⟩ } fun _ b₀ hb₀ ↦
        Option.some.inj hb₀ ▸ hkept.bitassetSound hold
    obtain rfl := Option.some.inj (hb.symm.trans hb₀)
    refine hkept.backing.resolve_right fun hnot ↦ ?_
    have hpos := hs.currentSupply_pos ha hb hnot.1 hcalls
    rw [currentSupply_of_find ha, hnot.2] at hpos
    exact lt_irrefl _ hpos

theorem keeps_of_modifyBitassetData {f : AssetBitassetData → Checked AssetBitassetData}
    (hs : s.AllSound) (h : s.modifyBitassetData mia f = .ok s')
    (hf : ∀ a b b', s.assets.find mia = some a → a.bitassetData = some b → f b = .ok b' →
      b.FeedsSound → BitassetKept a.dynamicData.currentSupply b b') : Keeps s s' := by
  obtain ⟨a, b, b', ha, hb, hb', rfl⟩ := modifyBitassetData_cases h
  exact keeps_of_setBitasset hs ha hb (hf a b b' ha hb hb' (hs.feeds mia a b ha hb))

/-- An asset may change its issuer, its options and its buyback account. -/
theorem keeps_of_setOptions (hs : s.AllSound) (ha : s.assets.find id = some a)
    (hdynamic : a'.dynamicData = a.dynamicData) (hbitasset : a'.bitassetData = a.bitassetData)
    (hfee : 0 ≤ a'.options.maxMarketFee) :
    Keeps s { s with assets := s.assets.set id a' } := by
  have hkept := hs.assetKept ha
  refine ⟨⟨?_, ?_, rfl, .refl .refl _⟩, .refl .refl _⟩
  · rw [books_setAsset ha]
    simp only [AssetObject.books, AssetObject.fund, hdynamic, hbitasset]
    abel
  · refine hs.setAsset ha ⟨fun hid ↦ hbitasset.trans (hkept.core hid), hfee,
      hdynamic ▸ hkept.accumulatedFees, hdynamic ▸ hkept.confidentialSupply,
      hbitasset ▸ hkept.feeds, fun _ b hb ↦ ⟨b, hbitasset.trans hb, rfl⟩⟩ fun _ b hb ↦ ?_
    rw [hdynamic]
    exact hs.bitassets id a b not_false ha (hbitasset ▸ hb)

theorem modifyAsset_cases {f : AssetObject → Checked AssetObject} (h : s.modifyAsset id f = .ok s') :
    ∃ a a', s.assets.find id = some a ∧ f a = .ok a' ∧
      s' = { s with assets := s.assets.set id a' } := by
  simp only [modifyAsset, Checked.bind_eq_ok, Checked.pure_eq_ok, get_eq_ok] at h
  obtain ⟨a, ha, a', ha', rfl⟩ := h
  exact ⟨a, a', ha, ha', rfl⟩

theorem Keeps.upholds_trans {t : MarketState} (h : Keeps s t) (h' : Upholds t s') : Upholds s s' :=
  h.toUpholds.trans h'

end MarketState

/-! ## Options and feeds -/

open MarketState

variable {s s' : MarketState}

theorem AssetUpdateOperation.trade_of_cancelSettlements {ids : List ℕ}
    (h : cancelSettlements ids s = .ok s') : Trade 0 s s' := by
  induction ids generalizing s with
  | nil =>
      obtain rfl := Except.ok.inj h
      exact .refl s
  | cons id ids ih =>
      simp only [cancelSettlements, Checked.bind_eq_ok] at h
      obtain ⟨s₁, hcancel, h⟩ := h
      exact ((trade_of_cancelSettlement hcancel).trans (ih h)).congr (add_zero _)

theorem AssetUpdateOperation.keeps_of_doApply {op : AssetUpdateOperation} (hs : s.AllSound)
    (hfee : 0 ≤ op.newOptions.maxMarketFee) (h : op.doApply s = .ok s') : Keeps s s' := by
  simp only [doApply, Checked.bind_eq_ok, get_eq_ok] at h
  obtain ⟨a, -, s₁, hcancel, hmodify⟩ := h
  have hk : Keeps s s₁ := by
    rcases whenever_eq_ok.mp hcancel with ⟨-, hcancel⟩ | ⟨-, rfl⟩
    · exact (trade_of_cancelSettlements hcancel).keeps hs
    · exact .refl hs
  obtain ⟨a₁, a', ha₁, heq, rfl⟩ := modifyAsset_cases hmodify
  obtain rfl := Except.ok.inj heq
  exact hk.trans (keeps_of_setOptions hk.sound ha₁ rfl rfl hfee)

theorem AssetUpdateBitassetOperation.keeps_of_doApply {op : AssetUpdateBitassetOperation}
    (hs : s.AllSound)
    (hbacking : ∀ a b, s.assets.find op.assetToUpdate = some a → a.bitassetData = some b →
      op.newOptions.shortBackingAsset = b.options.shortBackingAsset ∨
        ¬b.HasSettlement ∧ a.dynamicData.currentSupply = 0)
    (h : op.doApply s = .ok s') : Keeps s s' := by
  refine keeps_of_modifyBitassetData hs h fun a b b' ha hb hb' hfeeds ↦ ?_
  have hkept : BitassetKept a.dynamicData.currentSupply b { b with options := op.newOptions } :=
    ⟨rfl, rfl, hbacking a b ha hb, ⟨hfeeds.currentFeed, hfeeds.feeds⟩⟩
  obtain rfl := Except.ok.inj hb'
  split_ifs
  · exact hkept.updateMedianFeeds _
  · exact hkept

theorem AssetUpdateFeedProducersOperation.keeps_of_doApply {op : AssetUpdateFeedProducersOperation}
    (hs : s.AllSound) (h : op.doApply s = .ok s') : Keeps s s' := by
  simp only [doApply, Checked.bind_eq_ok, Checked.pure_eq_ok, Prod.exists] at h
  obtain ⟨s₁, hmodify, called, t, hcheck, rfl⟩ := h
  have hk := keeps_of_modifyBitassetData hs hmodify fun a b b' ha hb hb' hfeeds ↦ by
    obtain rfl := Except.ok.inj hb'
    have hset : BitassetKept a.dynamicData.currentSupply b
        (b.setFeedProducers op.newFeedProducers) :=
      ⟨rfl, rfl, .inl rfl, hfeeds.setFeedProducers _⟩
    exact hset.updateMedianFeeds _
  exact hk.trans ((walks_of_checkCallOrders hk.sound hcheck).1)

theorem AssetPublishFeedOperation.upholds_of_reviveIfCollateralized {op : AssetPublishFeedOperation}
    {b : AssetBitassetData} (hs : s.AllSound) (h : op.reviveIfCollateralized b s = .ok s') :
    Upholds s s' := by
  unfold reviveIfCollateralized at h
  split_ifs at h
  · obtain rfl := Except.ok.inj h
    exact .refl hs
  · simp only [Checked.bind_eq_ok] at h
    obtain ⟨_, -, _, -, h⟩ := h
    rcases whenever_eq_ok.mp h with ⟨-, h⟩ | ⟨-, rfl⟩
    · exact upholds_of_reviveBitasset hs h
    · exact .refl hs

theorem PriceFeed.ratiosSound_of_validate {f : PriceFeed} (h : f.validate = .ok ()) :
    f.RatiosSound := by
  simp only [PriceFeed.validate, Checked.bind_eq_ok, require_eq_ok] at h
  obtain ⟨-, -, -, -, -, -, -, hmin, -, hmax, -⟩ := h
  simp only [PriceFeed.minCollateralRatio, PriceFeed.maxCollateralRatio] at hmin hmax
  exact ⟨by omega, by omega⟩

theorem AssetPublishFeedOperation.upholds_of_doApply {op : AssetPublishFeedOperation}
    (hs : s.AllSound) (hfeed : op.feed.RatiosSound) (h : op.doApply s = .ok s') : Upholds s s' := by
  simp only [doApply, getBitassetData, Checked.bind_eq_ok, get_eq_ok, getBitassetData_eq_ok] at h
  obtain ⟨old, ⟨x, hx, hold⟩, s₁, hmodify, h⟩ := h
  have hk := keeps_of_modifyBitassetData hs hmodify fun a b b' ha hb hb' hfeeds ↦ by
    obtain rfl := Except.ok.inj hb'
    obtain rfl := Option.some.inj (ha.symm.trans hx)
    obtain rfl := Option.some.inj (hb.symm.trans hold)
    have hset : BitassetKept a.dynamicData.currentSupply b
        (b.setFeed op.publisher s.headBlockTime op.feed) :=
      ⟨rfl, rfl, .inl rfl, hfeeds.setFeed _ _ hfeed⟩
    exact hset.updateMedianFeeds _
  split_ifs at h
  · obtain rfl := Checked.pure_eq_ok.mp h
    exact hk.toUpholds
  · simp only [Checked.bind_eq_ok, Checked.pure_eq_ok, Prod.exists] at h
    obtain ⟨s₂, hrevive, called, s₃, hcheck, rfl⟩ := h
    have hrevived : Upholds s₁ s₂ := by
      rcases whenever_eq_ok.mp hrevive with ⟨-, hrevive⟩ | ⟨-, rfl⟩
      · exact upholds_of_reviveIfCollateralized hk.sound hrevive
      · exact .refl hk.sound
    exact hk.upholds_trans (hrevived.trans (walks_of_checkCallOrders hrevived.sound hcheck).1.toUpholds)

end KarmaCore.Market
