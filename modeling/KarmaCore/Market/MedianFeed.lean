import Mathlib
import KarmaCore.Lib.NthElement
import KarmaCore.Lib.Run
import KarmaCore.Market.Maintenance
import KarmaCore.Market.PriceOrder

/-!
# The median of the published feeds

`update_median_feeds` calls `std::nth_element` on one vector for every field in
turn.  What the calls leave open is left open here too, and `updateMedianFeeds` is
one of the results.
-/

namespace KarmaCore.Market

open NthElement

variable {α : Type} {field : PriceFeed → α} {before : α → α → Prop} {now : ℕ}
  {b b' : AssetBitassetData} {feeds feeds' : List PriceFeed}

/-! ## `CALCULATE_MEDIAN_VALUE` -/

/-- One call of `nth_element`: the vector it leaves and the value it finds. -/
def CalculatesMedianValue (field : PriceFeed → α) (before : α → α → Prop)
    (feeds feeds' : List PriceFeed) (value : α) : Prop :=
  ∃ f, Selects (fun a b ↦ before (field a) (field b)) (feeds.length / 2) feeds feeds' f ∧
    field f = value

/-- The calls for `GRAPHENE_PRICE_FEED_FIELDS`, each on the vector the one before leaves. -/
def CalculatesMedians (feeds : List PriceFeed) (medianFeed : PriceFeed) : Prop :=
  ∃ v₁ v₂ v₃ v₄,
    CalculatesMedianValue (·.settlementPrice) Price.Lt feeds v₁ medianFeed.settlementPrice ∧
    CalculatesMedianValue (·.maintenanceCollateralRatio) (· < ·) v₁ v₂
      medianFeed.maintenanceCollateralRatio ∧
    CalculatesMedianValue (·.maximumShortSqueezeRatio) (· < ·) v₂ v₃
      medianFeed.maximumShortSqueezeRatio ∧
    CalculatesMedianValue (·.coreExchangeRate) Price.Lt v₃ v₄ medianFeed.coreExchangeRate

/-- What the feed is computed from, and what it is. -/
def ComputesFeed (feeds : List PriceFeed) (currentFeed : PriceFeed) : Prop :=
  match feeds with
  | [f] => currentFeed = f
  | feeds => CalculatesMedians feeds currentFeed

/-- `update_median_feeds`. -/
def AssetBitassetData.UpdatesMedianFeeds (now : ℕ) (b b' : AssetBitassetData) : Prop :=
  if (b.currentFeeds now).length < b.options.minimumFeeds then
    b' = { b with currentFeed := {}, currentFeedPublicationTime := now }
  else
    ∃ currentFeed, ComputesFeed ((b.currentFeeds now).map Prod.snd) currentFeed ∧
      b' = { b with
        currentFeed
        currentFeedPublicationTime := (b.currentFeeds now).foldl (fun t f ↦ min t f.1) now }

/-! ## The feeds that can be published -/

/-- Every feed that was published has prices of positive amounts. -/
structure AssetBitassetData.Published (b : AssetBitassetData) : Prop where
  settlementPrice : ∀ f ∈ b.feeds, f.2.1 ≠ 0 → f.2.2.settlementPrice.Positive
  coreExchangeRate : ∀ f ∈ b.feeds, f.2.1 ≠ 0 → f.2.2.coreExchangeRate.Positive

/-- What happens to the feeds of an asset. -/
inductive FeedEvent
  | publish (now : ℕ) (op : AssetPublishFeedOperation)
  | setFeedProducers (producers : List AccountId)
  | setOptions (options : BitassetOptions)

/-- The amounts of a price are shares. -/
def Price.InRange (p : Price) : Prop := InShareRange p.base.amount ∧ InShareRange p.quote.amount

/-- A published feed passes `validate`, and so do new options. -/
def FeedEvent.Valid : FeedEvent → Prop
  | .publish _ op =>
      op.validate = .ok () ∧ op.feed.settlementPrice.InRange ∧ op.feed.coreExchangeRate.InRange
  | .setFeedProducers _ => True
  | .setOptions options => 0 < options.minimumFeeds

def AssetBitassetData.feedStep (b : AssetBitassetData) : FeedEvent → AssetBitassetData
  | .publish now op => b.setFeed op.publisher now op.feed
  | .setFeedProducers producers => b.setFeedProducers producers
  | .setOptions options => { b with options }

theorem Price.validate_positive {p : Price} (h : p.validate = .ok ()) (hrange : p.InRange) :
    p.Positive := by
  simp only [Price.validate, Checked.bind_eq_ok, require_eq_ok] at h
  obtain ⟨-, hbase, -, hquote, -⟩ := h
  exact ⟨hbase, hrange.1.2, hquote, hrange.2.2⟩

theorem validate_prices {op : AssetPublishFeedOperation} (h : op.validate = .ok ()) :
    op.feed.settlementPrice.validate = .ok () ∧ op.feed.coreExchangeRate.validate = .ok () := by
  simp only [AssetPublishFeedOperation.validate, PriceFeed.validate, Checked.bind_eq_ok,
    require_eq_ok, whenever_eq_ok] at h
  obtain ⟨-, -, -, ⟨_, hsettlement, -⟩, _, hcore, -, -, -, hset, -, hset', -⟩ := h
  refine ⟨?_, ?_⟩
  · rcases hsettlement with ⟨-, hprice⟩ | ⟨hnull, -⟩
    · exact hprice
    · exact absurd hset hnull
  · rcases hcore with ⟨-, hprice⟩ | ⟨hnull, -⟩
    · exact hprice
    · exact absurd hset' hnull

theorem published_setFeed {op : AssetPublishFeedOperation} (hb : b.Published)
    (h : op.validate = .ok ()) (hprice : op.feed.settlementPrice.InRange)
    (hrate : op.feed.coreExchangeRate.InRange) :
    (b.setFeed op.publisher now op.feed).Published := by
  obtain ⟨hsettlement, hcore⟩ := validate_prices h
  have hmem {f : AccountId × ℕ × PriceFeed} (hf : f ∈ (b.setFeed op.publisher now op.feed).feeds) :
      f = (op.publisher, now, op.feed) ∨ f ∈ b.feeds := by
    rcases (List.mem_orderedInsert _).mp hf with hnew | hold
    · exact .inl hnew
    · exact .inr (List.mem_filter.mp hold).1
  constructor
  · intro f hf hpublished
    rcases hmem hf with rfl | hold
    · exact Price.validate_positive hsettlement hprice
    · exact hb.settlementPrice f hold hpublished
  · intro f hf hpublished
    rcases hmem hf with rfl | hold
    · exact Price.validate_positive hcore hrate
    · exact hb.coreExchangeRate f hold hpublished

theorem published_setFeedProducers (hb : b.Published) (producers : List AccountId) :
    (b.setFeedProducers producers).Published := by
  have hmem {f : AccountId × ℕ × PriceFeed} (hf : f ∈ (b.setFeedProducers producers).feeds)
      (hpublished : f.2.1 ≠ 0) : f ∈ b.feeds := by
    rw [AssetBitassetData.setFeedProducers, List.mem_insertionSort, List.mem_append] at hf
    rcases hf with hkept | hadded
    · exact (List.mem_filter.mp hkept).1
    · obtain ⟨p, -, rfl⟩ := List.mem_map.mp hadded
      exact absurd rfl hpublished
  exact ⟨fun f hf hpublished ↦ hb.settlementPrice f (hmem hf hpublished) hpublished,
    fun f hf hpublished ↦ hb.coreExchangeRate f (hmem hf hpublished) hpublished⟩

/-- The feeds and options an asset can come to have. -/
def AssetBitassetData.FeedsReached (b : AssetBitassetData) : Prop :=
  Run.Reaches AssetBitassetData.feedStep (fun _ event ↦ event.Valid) {} b

theorem AssetBitassetData.FeedsReached.published (h : b.FeedsReached) :
    b.Published ∧ 0 < b.options.minimumFeeds := by
  apply Run.Reaches.invariant (fun b ↦ b.Published ∧ 0 < b.options.minimumFeeds) h
  · exact ⟨⟨fun _ hf ↦ (nomatch hf), fun _ hf ↦ (nomatch hf)⟩, one_pos⟩
  · rintro b event ⟨hb, hmin⟩ hvalid
    cases event with
    | publish now op => exact ⟨published_setFeed hb hvalid.1 hvalid.2.1 hvalid.2.2, hmin⟩
    | setFeedProducers producers => exact ⟨published_setFeedProducers hb producers, hmin⟩
    | setOptions options => exact ⟨⟨hb.settlementPrice, hb.coreExchangeRate⟩, hvalid⟩

/-! ## The median of a field -/

/-- The upper median of the values, which is one of them, and the same in whatever order the
values come. -/
structure IsMedian (before same : α → α → Prop) [∀ a b, Decidable (before a b)] (values : List α)
    (m : α) : Prop where
  isNth : IsNth before (values.length / 2) values m
  unique : ∀ values' m', values'.Perm values → IsNth before (values'.length / 2) values' m' →
    same m m'

theorem IsMedian.of_isNth {β : Type*} [LinearOrder β] {same : α → α → Prop}
    [∀ a b, Decidable (before a b)] {values : List α} {m : α} (rank : α → β)
    (hrank : ∀ x ∈ values, ∀ y ∈ values, before x y ↔ rank x < rank y)
    (hsame : ∀ x ∈ values, ∀ y ∈ values, rank x = rank y → same x y)
    (h : IsNth before (values.length / 2) values m) : IsMedian before same values m where
  isNth := h
  unique values' m' hperm h' := by
    have hnth := h'.of_perm hperm
    rw [hperm.length_eq] at hnth
    exact hsame m h.mem m' hnth.mem (h.unique hrank hnth)

/-- What is found in a rearranged vector is found in the vector itself. -/
theorem CalculatesMedianValue.isNth [∀ a b, Decidable (before a b)] {value : α}
    {published : List PriceFeed} (h : CalculatesMedianValue field before feeds feeds' value)
    (hperm : feeds.Perm published) :
    feeds'.Perm published ∧
      IsNth before ((published.map field).length / 2) (published.map field) value := by
  obtain ⟨f, hselects, rfl⟩ := h
  refine ⟨hselects.perm.trans hperm, ?_⟩
  rw [List.length_map, ← hperm.length_eq]
  exact hselects.isNth.map.of_perm (hperm.map field)

/-- One feed is its own median. -/
theorem isNth_singleton [∀ a b, Decidable (before a b)] {x : α} (hx : ¬before x x) :
    IsNth before ([x].length / 2) [x] x where
  mem := List.mem_singleton_self x
  countP_before := by simp [hx]
  countP_after := by simp [hx]

/-! ## The unexpired feeds -/

theorem mem_currentFeeds {f : ℕ × PriceFeed} : f ∈ b.currentFeeds now ↔
    (∃ publisher, (publisher, f) ∈ b.feeds) ∧ now < f.1 + b.options.feedLifetimeSec ∧ f.1 ≠ 0 := by
  simp only [AssetBitassetData.currentFeeds, List.mem_filter, List.mem_map, decide_eq_true_eq]
  constructor
  · rintro ⟨⟨⟨publisher, f⟩, hf, rfl⟩, hlifetime, hset⟩
    exact ⟨⟨publisher, hf⟩, by omega, hset⟩
  · rintro ⟨⟨publisher, hf⟩, hlifetime, hset⟩
    exact ⟨⟨_, hf, rfl⟩, by omega, hset⟩

theorem AssetBitassetData.Published.currentFeeds (hb : b.Published) :
    ∀ f ∈ (b.currentFeeds now).map Prod.snd,
      f.settlementPrice.Positive ∧ f.coreExchangeRate.Positive := by
  intro f hf
  obtain ⟨⟨time, f⟩, hcurrent, rfl⟩ := List.mem_map.mp hf
  obtain ⟨⟨publisher, hmem⟩, -, hset⟩ := mem_currentFeeds.mp hcurrent
  exact ⟨hb.settlementPrice _ hmem hset, hb.coreExchangeRate _ hmem hset⟩

/-! ## One of the results -/

/-- Sorting the feeds by a field finds the median that sorting the field finds. -/
theorem calculatesMedianValue_medianOf {β : Type*} [LinearOrder β] (field : PriceFeed → α)
    (before : α → α → Prop) [∀ a b, Decidable (before a b)] {default : α} (rank : α → β)
    (hne : feeds ≠ [])
    (hrank : ∀ x ∈ feeds.map field, ∀ y ∈ feeds.map field, before x y ↔ rank x < rank y)
    (hperm : feeds.Perm feeds') :
    ∃ sorted, feeds.Perm sorted ∧ CalculatesMedianValue field before feeds' sorted
      (medianOf before (feeds.map field) default) := by
  have hrank' : ∀ f ∈ feeds, ∀ g ∈ feeds,
      before (field f) (field g) ↔ rank (field f) < rank (field g) := fun f hf g hg ↦
    hrank _ (List.mem_map_of_mem hf) _ (List.mem_map_of_mem hg)
  have hsorted := List.perm_insertionSort (fun f g ↦ ¬before (field g) (field f)) feeds
  have hhalf : feeds.length / 2 <
      (feeds.insertionSort fun f g ↦ ¬before (field g) (field f)).length := by
    rw [List.length_insertionSort]
    exact Nat.div_lt_self (List.length_pos_iff.mpr hne) one_lt_two
  obtain ⟨f, hf⟩ : ∃ f, (feeds.insertionSort fun f g ↦ ¬before (field g) (field f))[
      feeds.length / 2]? = some f := ⟨_, List.getElem?_eq_getElem hhalf⟩
  have hselects := (selects_insertionSort hrank' hf).of_perm hperm
  rw [hperm.length_eq] at hselects
  refine ⟨_, hsorted.symm, f, hselects, ?_⟩
  rw [medianOf, ← List.map_insertionSort (r := fun f g ↦ ¬before (field g) (field f)),
    List.length_map, List.getElem?_map, hf]
  · rfl
  · exact fun _ _ _ _ ↦ Iff.rfl

theorem price_lt_iff_rank {values : List Price} (hvalues : ∀ p ∈ values, p.Positive) :
    ∀ p ∈ values, ∀ q ∈ values, p.Lt q ↔ p.rank < q.rank := fun p hp q hq ↦
  (hvalues p hp).comparable.lt_iff (hvalues q hq).comparable

theorem calculatesMedians_medianFeed (hne : feeds ≠ [])
    (hprices : ∀ f ∈ feeds, f.settlementPrice.Positive ∧ f.coreExchangeRate.Positive) :
    CalculatesMedians feeds (AssetBitassetData.medianFeed feeds) := by
  have hsettlement := price_lt_iff_rank (List.forall_mem_map.mpr fun f hf ↦ (hprices f hf).1)
  have hcore := price_lt_iff_rank (List.forall_mem_map.mpr fun f hf ↦ (hprices f hf).2)
  obtain ⟨v₁, hperm₁, h₁⟩ := calculatesMedianValue_medianOf (·.settlementPrice) Price.Lt
    Price.rank hne hsettlement (List.Perm.refl feeds)
  obtain ⟨v₂, hperm₂, h₂⟩ := calculatesMedianValue_medianOf (·.maintenanceCollateralRatio)
    (· < ·) id hne (fun _ _ _ _ ↦ Iff.rfl) hperm₁
  obtain ⟨v₃, hperm₃, h₃⟩ := calculatesMedianValue_medianOf (·.maximumShortSqueezeRatio)
    (· < ·) id hne (fun _ _ _ _ ↦ Iff.rfl) hperm₂
  obtain ⟨v₄, -, h₄⟩ := calculatesMedianValue_medianOf (·.coreExchangeRate) Price.Lt
    Price.rank hne hcore hperm₃
  exact ⟨v₁, v₂, v₃, v₄, h₁, h₂, h₃, h₄⟩

/-- `updateMedianFeeds` is a result of `update_median_feeds`. -/
theorem updatesMedianFeeds_updateMedianFeeds (hb : b.FeedsReached) :
    b.UpdatesMedianFeeds now (b.updateMedianFeeds now) := by
  obtain ⟨hpublished, hmin⟩ := hb.published
  rw [AssetBitassetData.UpdatesMedianFeeds, AssetBitassetData.updateMedianFeeds]
  by_cases hfew : (b.currentFeeds now).length < b.options.minimumFeeds
  · rw [if_pos hfew, if_pos hfew]
  · rw [if_neg hfew, if_neg hfew]
    have hne : b.currentFeeds now ≠ [] := by
      intro hnil
      rw [hnil] at hfew
      exact hfew hmin
    have hmedians := calculatesMedians_medianFeed (mt List.map_eq_nil_iff.mp hne)
      hpublished.currentFeeds
    match hcurrent : b.currentFeeds now, hmedians with
    | [], _ => exact absurd hcurrent hne
    | [f], _ => exact ⟨f.2, rfl, rfl⟩
    | _ :: _ :: _, hmedians => exact ⟨_, hmedians, rfl⟩

/-! ## The current feed -/

/-- Every field is the median of that field. -/
structure IsMedianFeed (feeds : List PriceFeed) (currentFeed : PriceFeed) : Prop where
  settlementPrice :
    IsMedian Price.Lt Price.Same (feeds.map (·.settlementPrice)) currentFeed.settlementPrice
  maintenanceCollateralRatio : IsMedian (· < ·) (· = ·)
    (feeds.map (·.maintenanceCollateralRatio)) currentFeed.maintenanceCollateralRatio
  maximumShortSqueezeRatio : IsMedian (· < ·) (· = ·)
    (feeds.map (·.maximumShortSqueezeRatio)) currentFeed.maximumShortSqueezeRatio
  coreExchangeRate :
    IsMedian Price.Lt Price.Same (feeds.map (·.coreExchangeRate)) currentFeed.coreExchangeRate

theorem isMedian_price {values : List Price} {m : Price} (hvalues : ∀ p ∈ values, p.Positive)
    (h : IsNth Price.Lt (values.length / 2) values m) : IsMedian Price.Lt Price.Same values m :=
  .of_isNth Price.rank
    (fun p hp q hq ↦ (hvalues p hp).comparable.lt_iff (hvalues q hq).comparable)
    (fun p hp q hq ↦ ((hvalues p hp).comparable.same_iff (hvalues q hq).comparable).mpr) h

theorem isMedian_nat {values : List ℕ} {m : ℕ} (h : IsNth (· < ·) (values.length / 2) values m) :
    IsMedian (· < ·) (· = ·) values m :=
  .of_isNth id (fun _ _ _ _ ↦ Iff.rfl) (fun _ _ _ _ ↦ id) h

/-- The vector was rearranged before, which no median depends on. -/
theorem isMedianFeed_of_isNth {currentFeed : PriceFeed}
    (hprices : ∀ f ∈ feeds, f.settlementPrice.Positive ∧ f.coreExchangeRate.Positive)
    (hsettlement : IsNth Price.Lt ((feeds.map (·.settlementPrice)).length / 2)
      (feeds.map (·.settlementPrice)) currentFeed.settlementPrice)
    (hmaintenance : IsNth (· < ·) ((feeds.map (·.maintenanceCollateralRatio)).length / 2)
      (feeds.map (·.maintenanceCollateralRatio)) currentFeed.maintenanceCollateralRatio)
    (hsqueeze : IsNth (· < ·) ((feeds.map (·.maximumShortSqueezeRatio)).length / 2)
      (feeds.map (·.maximumShortSqueezeRatio)) currentFeed.maximumShortSqueezeRatio)
    (hcore : IsNth Price.Lt ((feeds.map (·.coreExchangeRate)).length / 2)
      (feeds.map (·.coreExchangeRate)) currentFeed.coreExchangeRate) :
    IsMedianFeed feeds currentFeed where
  settlementPrice := isMedian_price (List.forall_mem_map.mpr fun f hf ↦ (hprices f hf).1) hsettlement
  maintenanceCollateralRatio := isMedian_nat hmaintenance
  maximumShortSqueezeRatio := isMedian_nat hsqueeze
  coreExchangeRate := isMedian_price (List.forall_mem_map.mpr fun f hf ↦ (hprices f hf).2) hcore

theorem CalculatesMedians.isMedianFeed {currentFeed : PriceFeed}
    (hprices : ∀ f ∈ feeds, f.settlementPrice.Positive ∧ f.coreExchangeRate.Positive)
    (h : CalculatesMedians feeds currentFeed) : IsMedianFeed feeds currentFeed := by
  obtain ⟨v₁, v₂, v₃, v₄, h₁, h₂, h₃, h₄⟩ := h
  obtain ⟨hperm₁, hsettlement⟩ := h₁.isNth (List.Perm.refl feeds)
  obtain ⟨hperm₂, hmaintenance⟩ := h₂.isNth hperm₁
  obtain ⟨hperm₃, hsqueeze⟩ := h₃.isNth hperm₂
  exact isMedianFeed_of_isNth hprices hsettlement hmaintenance hsqueeze (h₄.isNth hperm₃).2

theorem ComputesFeed.isMedianFeed {currentFeed : PriceFeed}
    (hprices : ∀ f ∈ feeds, f.settlementPrice.Positive ∧ f.coreExchangeRate.Positive)
    (h : ComputesFeed feeds currentFeed) : IsMedianFeed feeds currentFeed := by
  match feeds, h with
  | [f], h =>
      obtain rfl : currentFeed = f := h
      have hpositive := hprices currentFeed List.mem_cons_self
      have hirrefl {p : Price} (hp : p.Positive) : ¬p.Lt p := fun hlt ↦
        lt_irrefl _ ((hp.comparable.lt_iff hp.comparable).mp hlt)
      exact isMedianFeed_of_isNth hprices (isNth_singleton (hirrefl hpositive.1))
        (isNth_singleton (lt_irrefl _)) (isNth_singleton (lt_irrefl _))
        (isNth_singleton (hirrefl hpositive.2))
  | [], h => exact CalculatesMedians.isMedianFeed hprices h
  | _ :: _ :: _, h => exact CalculatesMedians.isMedianFeed hprices h

/-- The feeds that are not expired are enough for a median. -/
def AssetBitassetData.EnoughFeeds (now : ℕ) (b : AssetBitassetData) : Prop :=
  b.options.minimumFeeds ≤ (b.currentFeeds now).length

/-- `feed_is_expired`, with the end of the lifetime in 32 bits. -/
def AssetBitassetData.FeedExpired (t : ℕ) (b : AssetBitassetData) : Prop :=
  b.feedExpirationTime % 2 ^ 32 ≤ t

/-- What `update_median_feeds` makes of the feeds, and how long it stays true. -/
structure CurrentFeedRight (now : ℕ) (b b' : AssetBitassetData) : Prop where
  feeds : b'.feeds = b.feeds ∧ b'.options = b.options
  null : ¬b.EnoughFeeds now → b'.currentFeed = {}
  median : b.EnoughFeeds now → IsMedianFeed ((b.currentFeeds now).map Prod.snd) b'.currentFeed
  unexpired : b.EnoughFeeds now → ∀ t, ¬b'.FeedExpired t → b.currentFeeds now ⊆ b'.currentFeeds t
  still_null : ¬b.EnoughFeeds now → ∀ t, now ≤ t → ¬b'.EnoughFeeds t

theorem foldl_min_le (feeds : List (ℕ × PriceFeed)) (t : ℕ) :
    feeds.foldl (fun t f ↦ min t f.1) t ≤ t ∧
      ∀ f ∈ feeds, feeds.foldl (fun t f ↦ min t f.1) t ≤ f.1 := by
  induction feeds generalizing t with
  | nil => exact ⟨le_rfl, fun f hf ↦ nomatch hf⟩
  | cons f feeds ih =>
      obtain ⟨hle, hrest⟩ := ih (min t f.1)
      refine ⟨hle.trans (min_le_left t f.1), ?_⟩
      intro g hg
      rcases List.mem_cons.mp hg with rfl | hg
      · exact hle.trans (min_le_right t g.1)
      · exact hrest g hg

/-- What is not expired later is not expired now. -/
theorem currentFeeds_length_le {t : ℕ} (h : now ≤ t) :
    (b.currentFeeds t).length ≤ (b.currentFeeds now).length := by
  rw [AssetBitassetData.currentFeeds, AssetBitassetData.currentFeeds, ← List.countP_eq_length_filter,
    ← List.countP_eq_length_filter]
  apply List.countP_mono_left
  intro f _ hf
  simp only [decide_eq_true_eq] at hf ⊢
  exact ⟨by omega, hf.2⟩

/-- The current feed after `update_median_feeds` is the median of the unexpired feeds, or null,
and stays right while it is not expired. -/
theorem currentFeedRight (hb : b.FeedsReached) (h : b.UpdatesMedianFeeds now b') :
    CurrentFeedRight now b b' := by
  obtain ⟨hpublished, hmin⟩ := hb.published
  rw [AssetBitassetData.UpdatesMedianFeeds] at h
  by_cases hfew : (b.currentFeeds now).length < b.options.minimumFeeds
  · rw [if_pos hfew] at h
    subst h
    refine ⟨⟨rfl, rfl⟩, fun _ ↦ rfl, fun henough ↦ absurd henough hfew.not_ge,
      fun henough ↦ absurd henough hfew.not_ge, ?_⟩
    intro _ t ht henough
    exact absurd (henough.trans (currentFeeds_length_le (b := b) ht)) hfew.not_ge
  · rw [if_neg hfew] at h
    obtain ⟨currentFeed, hcomputes, rfl⟩ := h
    have henough : b.EnoughFeeds now := not_lt.mp hfew
    refine ⟨⟨rfl, rfl⟩, fun hnot ↦ absurd henough hnot, fun _ ↦ ?_, ?_,
      fun hnot ↦ absurd henough hnot⟩
    · exact hcomputes.isMedianFeed hpublished.currentFeeds
    · intro _ t hexpired f hf
      obtain ⟨hmem, -, hset⟩ := mem_currentFeeds.mp hf
      refine mem_currentFeeds.mpr ⟨hmem, ?_, hset⟩
      have holdest := (foldl_min_le (b.currentFeeds now) now).2 f hf
      have hwrap := Nat.mod_le ((b.currentFeeds now).foldl (fun t f ↦ min t f.1) now +
        b.options.feedLifetimeSec) (2 ^ 32)
      simp only [AssetBitassetData.FeedExpired, AssetBitassetData.feedExpirationTime, not_le]
        at hexpired
      simp only
      omega

/-- A feed that quotes `price` units for one of the core asset. -/
def quotedFeed (price : ℤ) : PriceFeed where
  settlementPrice := ⟨⟨price, 1⟩, ⟨1, coreAsset⟩⟩
  coreExchangeRate := ⟨⟨price, 1⟩, ⟨1, coreAsset⟩⟩

/-- Three publishers, one after the other. -/
def threeFeeds : List FeedEvent :=
  [.publish 10 { publisher := 7, assetId := 1, feed := quotedFeed 30 },
    .publish 20 { publisher := 5, assetId := 1, feed := quotedFeed 20 },
    .publish 30 { publisher := 6, assetId := 1, feed := quotedFeed 40 }]

/-- The median of three feeds. -/
theorem currentFeedRight_threeFeeds :
    CurrentFeedRight 40 (threeFeeds.foldl AssetBitassetData.feedStep {})
      ((threeFeeds.foldl AssetBitassetData.feedStep {}).updateMedianFeeds 40) := by
  have hone : InShareRange 1 := by decide
  have hreached : (threeFeeds.foldl AssetBitassetData.feedStep {}).FeedsReached := by
    apply Run.reaches_foldl
    have hvalid (time : ℕ) (publisher : AccountId) (price : ℤ)
        (h : AssetPublishFeedOperation.validate
          { publisher, assetId := 1, feed := quotedFeed price } = .ok ())
        (hrange : InShareRange price) :
        (FeedEvent.publish time
          { publisher, assetId := 1, feed := quotedFeed price }).Valid :=
      ⟨h, ⟨hrange, hone⟩, hrange, hone⟩
    exact ⟨hvalid 10 7 30 (by decide +kernel) (by decide), hvalid 20 5 20 (by decide +kernel)
      (by decide), hvalid 30 6 40 (by decide +kernel) (by decide), trivial⟩
  exact currentFeedRight hreached (updatesMedianFeeds_updateMedianFeeds hreached)

end KarmaCore.Market
