import Mathlib
import KarmaCore.Market.MarginSound

/-!
# Feeds in the backing asset

Every feed of an asset quotes a price in its backing asset.  Single writes keep it
so, and the median of feeds is one of them.
-/

namespace KarmaCore.Market

open Transfer (get get_eq_ok)
open ObjectIndex

/-! ## Prices in the backing asset -/

/-- A price of an asset in its backing asset, unless it is null. -/
def Price.Quotes (mia backing : AssetId) (p : Price) : Prop :=
  p.IsNull ∨ p.base.assetId = mia ∧ p.quote.assetId = backing

theorem Price.quotes_null {mia backing : AssetId} : ({} : Price).Quotes mia backing :=
  .inl (by decide)

/-- Every feed of an asset, and the current one, is in its present backing asset. -/
structure AssetBitassetData.FeedsQuote (mia : AssetId) (b : AssetBitassetData) : Prop where
  feeds : ∀ f ∈ b.feeds, f.2.2.settlementPrice.Quotes mia b.options.shortBackingAsset
  currentFeed : b.currentFeed.settlementPrice.Quotes mia b.options.shortBackingAsset

/-! ## Medians -/

theorem medianOf_mem_or {α : Type} (before : α → α → Prop) [∀ a b, Decidable (before a b)]
    (xs : List α) (d : α) : medianOf before xs d ∈ xs ∨ medianOf before xs d = d := by
  unfold medianOf
  cases h : (xs.insertionSort fun a b ↦ ¬before b a)[xs.length / 2]? with
  | none => exact .inr rfl
  | some x => exact .inl ((List.mem_insertionSort _).mp (List.mem_of_getElem? h))

namespace AssetBitassetData

variable {b : AssetBitassetData} {mia : AssetId} {now : ℕ}

theorem FeedsQuote.updateMedianFeeds (h : b.FeedsQuote mia) :
    (b.updateMedianFeeds now).FeedsQuote mia := by
  have hcurrent : ∀ f ∈ b.currentFeeds now,
      f.2.settlementPrice.Quotes mia b.options.shortBackingAsset := by
    intro f hf
    obtain ⟨g, hg, rfl⟩ := List.mem_map.mp (List.mem_of_mem_filter hf)
    exact h.feeds g hg
  simp only [AssetBitassetData.updateMedianFeeds]
  split_ifs
  · exact ⟨h.feeds, Price.quotes_null⟩
  · split
    · next f hfeeds => exact ⟨h.feeds, hcurrent f (by rw [hfeeds]; exact List.mem_cons_self)⟩
    · refine ⟨h.feeds, ?_⟩
      simp only [medianFeed]
      rcases medianOf_mem_or Price.Lt (((b.currentFeeds now).map Prod.snd).map (·.settlementPrice)) {}
        with hmem | hnull
      · rw [List.map_map] at hmem
        obtain ⟨f, hf, heq⟩ := List.mem_map.mp hmem
        rw [List.map_map, ← heq]
        exact hcurrent f hf
      · rw [hnull]
        exact Price.quotes_null

theorem FeedsQuote.setFeed {publisher : AccountId} {feed : PriceFeed} (h : b.FeedsQuote mia)
    (hfeed : feed.settlementPrice.Quotes mia b.options.shortBackingAsset) :
    (b.setFeed publisher now feed).FeedsQuote mia := by
  refine ⟨fun f hf ↦ ?_, h.currentFeed⟩
  rcases (List.mem_orderedInsert _).mp hf with rfl | hf
  · exact hfeed
  · exact h.feeds f (List.mem_of_mem_filter hf)

theorem FeedsQuote.setFeedProducers {producers : List AccountId} (h : b.FeedsQuote mia) :
    (b.setFeedProducers producers).FeedsQuote mia := by
  refine ⟨fun f hf ↦ ?_, h.currentFeed⟩
  rcases List.mem_append.mp ((List.mem_insertionSort _).mp hf) with hf | hf
  · exact h.feeds f (List.mem_of_mem_filter hf)
  · obtain ⟨p, -, rfl⟩ := List.mem_map.mp hf
    exact Price.quotes_null

end AssetBitassetData

namespace MarketState

/-- What holds of the data of every market-issued asset. -/
def EachBitasset (P : AssetId → AssetBitassetData → Prop) (s : MarketState) : Prop :=
  ∀ id a b, s.assets.find id = some a → a.bitassetData = some b → P id b

def FeedsQuote (s : MarketState) : Prop := s.EachBitasset AssetBitassetData.FeedsQuote

variable {s s' : MarketState}

theorem findBitassetData_eq_ok {id : AssetId} {b : AssetBitassetData} :
    s.getBitassetData id = .ok b ↔ ∃ a, s.assets.find id = some a ∧ a.bitassetData = some b := by
  simp only [getBitassetData, Checked.bind_eq_ok, get_eq_ok, getBitassetData_eq_ok]

/-! ## Single writes -/

section writes

variable {P : AssetId → AssetBitassetData → Prop} {id : ℕ}

theorem eachBitasset_of_modifyAsset {f : AssetObject → Checked AssetObject} (hs : s.EachBitasset P)
    (hf : ∀ a a' b', f a = .ok a' → a'.bitassetData = some b' →
      (∀ b, a.bitassetData = some b → s.getBitassetData id = .ok b ∧ P id b) → P id b')
    (h : s.modifyAsset id f = .ok s') : s'.EachBitasset P := by
  simp only [modifyAsset, Checked.bind_eq_ok, Checked.pure_eq_ok, get_eq_ok] at h
  obtain ⟨a, ha, a', ha', rfl⟩ := h
  intro key x b hx hb
  rw [find_setAsset ha] at hx
  split_ifs at hx with hkey
  · obtain rfl := Option.some.inj hx
    rw [hkey]
    exact hf a a' b ha' hb fun b hb ↦ ⟨findBitassetData_eq_ok.mpr ⟨a, ha, hb⟩, hs id a b ha hb⟩
  · exact hs key x b hx hb

/-- A write that leaves the bitasset data of the asset as it is. -/
theorem eachBitasset_of_modifyRest {f : AssetObject → AssetObject} (hs : s.EachBitasset P)
    (hf : ∀ a, (f a).bitassetData = a.bitassetData)
    (h : s.modifyAsset id (fun a ↦ .ok (f a)) = .ok s') : s'.EachBitasset P := by
  refine eachBitasset_of_modifyAsset hs ?_ h
  rintro a _ b' ⟨⟩ hb' hold
  rw [hf] at hb'
  exact (hold b' hb').2

theorem eachBitasset_of_modifyDynamicData {f : AssetDynamicData → Checked AssetDynamicData}
    (hs : s.EachBitasset P) (h : s.modifyDynamicData id f = .ok s') : s'.EachBitasset P := by
  refine eachBitasset_of_modifyAsset hs ?_ h
  intro a a' b' ha' hb' hold
  simp only [Checked.bind_eq_ok, Checked.pure_eq_ok] at ha'
  obtain ⟨d, -, rfl⟩ := ha'
  exact (hold b' hb').2

theorem eachBitasset_of_modifyBitassetData {f : AssetBitassetData → Checked AssetBitassetData}
    (hs : s.EachBitasset P)
    (hf : ∀ b b', s.getBitassetData id = .ok b → f b = .ok b' → P id b → P id b')
    (h : s.modifyBitassetData id f = .ok s') : s'.EachBitasset P := by
  refine eachBitasset_of_modifyAsset hs ?_ h
  intro a a' b' ha' hb' hold
  simp only [Checked.bind_eq_ok, Checked.pure_eq_ok, getBitassetData_eq_ok] at ha'
  obtain ⟨b, hb, b₁, hb₁, rfl⟩ := ha'
  obtain rfl := Option.some.inj hb'
  exact hf b b₁ (hold b hb).1 hb₁ (hold b hb).2

theorem eachBitasset_of_modifyAccount {f : AccountObject → Checked AccountObject}
    (hs : s.EachBitasset P) (h : s.modifyAccount id f = .ok s') : s'.EachBitasset P := by
  simp only [modifyAccount, Checked.bind_eq_ok, Checked.pure_eq_ok] at h
  obtain ⟨_, _, _, _, rfl⟩ := h
  exact hs

theorem eachBitasset_of_adjustBalance {acct : AccountId} {delta : Asset} (hs : s.EachBitasset P)
    (h : s.adjustBalance acct delta = .ok s') : s'.EachBitasset P := by
  simp only [adjustBalance, Checked.bind_eq_ok, Checked.pure_eq_ok] at h
  obtain ⟨_, _, rfl⟩ := h
  exact hs

end writes

/-! ## Fees -/

section fees

variable {acct : AccountId} {id : ℕ} {pays : Asset} {amount : ℤ}

theorem eachBitasset_of_convertFee {P : AssetId → AssetBitassetData → Prop} (hs : s.EachBitasset P)
    (h : s.convertFee pays amount = .ok s') : s'.EachBitasset P := by
  rcases whenever_eq_ok.mp h with ⟨-, h⟩ | ⟨-, rfl⟩
  · exact eachBitasset_of_modifyDynamicData hs h
  · exact hs

theorem eachBitasset_of_payFbaFee {P : AssetId → AssetBitassetData → Prop} (hs : s.EachBitasset P)
    (h : s.payFbaFee id acct amount = .ok s') : s'.EachBitasset P := by
  simp only [payFbaFee, Checked.bind_eq_ok] at h
  obtain ⟨_, -, h⟩ := h
  split_ifs at h
  · simp only [Checked.bind_eq_ok, Checked.pure_eq_ok] at h
    obtain ⟨_, -, rfl⟩ := h
    exact hs
  · exact eachBitasset_of_modifyAccount hs h

end fees

end MarketState

end KarmaCore.Market
