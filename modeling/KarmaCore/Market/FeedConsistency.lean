import Mathlib
import KarmaCore.Market.MarketInvariant
import KarmaCore.Market.MarketRun
import KarmaCore.Market.OperationSound

/-!
# Feeds in the backing asset

Publishing a feed checks that it is quoted in the backing asset, and the median
of feeds is one of them.  A change of the backing asset keeps the feeds that are
stored, so the current feed stays in the backing asset in those runs where the
backing asset changes for assets without feeds only.
-/

set_option mvcgen.warning false

namespace KarmaCore.Market

open Transfer (get get_eq_ok)
open ObjectIndex Std.Do Except

namespace AssetBitassetData

variable {b : AssetBitassetData} {mia : AssetId}

/-- Whether an asset has no feed but null ones. -/
structure NoFeeds (b : AssetBitassetData) : Prop where
  feeds : ∀ f ∈ b.feeds, f.2.2.settlementPrice.IsNull
  currentFeed : b.currentFeed.settlementPrice.IsNull

theorem NoFeeds.feedsQuote (h : b.NoFeeds) : b.FeedsQuote mia :=
  ⟨fun f hf ↦ .inl (h.feeds f hf), .inl h.currentFeed⟩

end AssetBitassetData

/-! ## The operations on feeds and options -/

/-- A new backing asset is for an asset that has no feeds. -/
def AssetUpdateBitassetOperation.FeedsFit (op : AssetUpdateBitassetOperation) (id : AssetId)
    (b : AssetBitassetData) : Prop :=
  id = op.assetToUpdate → op.newOptions.shortBackingAsset ≠ b.options.shortBackingAsset → b.NoFeeds

/-- A published feed is quoted in the backing asset. -/
def AssetPublishFeedOperation.FeedsFit (op : AssetPublishFeedOperation) (id : AssetId)
    (b : AssetBitassetData) : Prop :=
  id = op.assetId → op.feed.settlementPrice.Quotes id b.options.shortBackingAsset

namespace MarketState

variable {s s' : MarketState} {mia : AssetId} {id : ℕ} {ids : List ℕ} {amount : ℤ}

/-- Feeds in the backing asset are an invariant of the market. -/
def feeds : MarketInvariant where
  Holds f := ∀ id a b, f.assets.find id = some a → a.bitassetData = some b → b.FeedsQuote id
  modifyStatistics _ hs h := eachBitasset_of_modifyAccount hs h
  modifyDynamicData _ hs h := eachBitasset_of_modifyDynamicData hs h
  modifyBitassetData hf hs h := eachBitasset_of_modifyBitassetData hs (fun b b' _ hb ↦ hf b b' hb _) h
  modifyRest hf hs h := eachBitasset_of_modifyRest hs (fun a ↦ (hf a).2) h
  createAsset _ _ hb hs id a b ha hdata := by
    rw [MarketState.funds, find_create] at ha
    split_ifs at ha
    · obtain rfl := Option.some.inj ha
      exact hb b hdata id
    · exact hs id a b ha hdata
  removeLimitOrder hs := hs
  setLimitOrder _ hs := hs
  createLimitOrder _ hs := hs
  setFbaAccumulator _ hs := hs

theorem feedsQuote_of_updateBitasset {op : AssetUpdateBitassetOperation} (hs : s.FeedsQuote)
    (hop : s.EachBitasset op.FeedsFit) (h : op.doApply s = .ok s') : s'.FeedsQuote := by
  refine eachBitasset_of_modifyBitassetData hs ?_ h
  rintro b _ hb ⟨⟩ hquote
  obtain ⟨a, ha, hb⟩ := findBitassetData_eq_ok.mp hb
  have hupdated : ({ b with options := op.newOptions } : AssetBitassetData).FeedsQuote
      op.assetToUpdate := by
    by_cases hbacking : op.newOptions.shortBackingAsset = b.options.shortBackingAsset
    · exact ⟨hbacking ▸ hquote.feeds, hbacking ▸ hquote.currentFeed⟩
    · obtain ⟨hfeeds, hcurrent⟩ := hop _ a b ha hb rfl hbacking
      exact ⟨fun f hf ↦ .inl (hfeeds f hf), .inl hcurrent⟩
  split_ifs
  · exact hupdated.updateMedianFeeds
  · exact hupdated

theorem feedsQuote_of_publishFeed {op : AssetPublishFeedOperation} (hs : s.FeedsQuote)
    (hop : s.EachBitasset op.FeedsFit) (h : op.doApply s = .ok s') : s'.FeedsQuote := by
  simp only [AssetPublishFeedOperation.doApply, Checked.bind_eq_ok] at h
  obtain ⟨old, hold, t, ht, h⟩ := h
  have hpublished : t.FeedsQuote := by
    refine eachBitasset_of_modifyBitassetData hs ?_ ht
    rintro b _ hb ⟨⟩ hquote
    obtain rfl := Except.ok.inj (hold.symm.trans hb)
    obtain ⟨a, ha, hb⟩ := findBitassetData_eq_ok.mp hb
    exact (hquote.setFeed (hop _ a _ ha hb rfl)).updateMedianFeeds
  split_ifs at h
  · obtain rfl := Checked.pure_eq_ok.mp h
    exact hpublished
  · simp only [Checked.bind_eq_ok] at h
    obtain ⟨t', ht', ⟨_, t''⟩, ht'', h⟩ := h
    obtain rfl := Checked.pure_eq_ok.mp h
    have hrevived : t'.FeedsQuote := by
      rcases whenever_eq_ok.mp ht' with ⟨-, ht'⟩ | ⟨-, rfl⟩
      · exact triple_iff.mp (@reviveIfCollateralized_holds t feeds op _) hpublished _ ht'
      · exact hpublished
    exact triple_iff.mp (@checkCallOrders_holds t' _ feeds _ _) hrevived _ ht''

/-! ## Applying an operation -/

/-- What the operations on feeds and backing assets need of the asset they are about. -/
def FeedsFit (op : MarketOperation) (s : MarketState) : Prop :=
  match op with
  | .assetUpdateBitasset op => s.EachBitasset op.FeedsFit
  | .assetPublishFeed op => s.EachBitasset op.FeedsFit
  | _ => True

theorem feedsQuote_of_fundFeePool {op : AssetFundFeePoolOperation} (hs : s.FeedsQuote)
    (h : op.doApply s = .ok s') : s'.FeedsQuote := by
  simp only [AssetFundFeePoolOperation.doApply, Checked.bind_eq_ok] at h
  obtain ⟨_, -, t, ht, h⟩ := h
  exact eachBitasset_of_modifyDynamicData (eachBitasset_of_adjustBalance hs ht) h

theorem feedsQuote_of_doApply {op : MarketOperation} (hs : s.FeedsQuote) (hamount : 0 ≤ amount)
    (hop : FeedsFit op s) (h : op.doApply amount s = .ok s') : s'.FeedsQuote := by
  suffices hspec : ⦃⌜feeds.Holds s.funds⌝⦄ op.doApply amount s ⦃⇓? s' => ⌜feeds.Holds s'.funds⌝⦄ from
    triple_iff.mp hspec hs _ h
  cases op with
  | assetUpdateBitasset op => exact triple_iff.mpr fun hs _ ↦ feedsQuote_of_updateBitasset hs hop
  | assetPublishFeed op => exact triple_iff.mpr fun hs _ ↦ feedsQuote_of_publishFeed hs hop
  | assetFundFeePool op => exact triple_iff.mpr fun hs _ ↦ feedsQuote_of_fundFeePool hs
  | limitOrderCreate op =>
      mvcgen [MarketOperation.doApply]
      exact fun _ ↦ deferredFee_nonneg hamount
  | assetCreate op =>
      mvcgen [MarketOperation.doApply]
      exact fun _ ↦ hamount
  | _ => mvcgen [MarketOperation.doApply]

theorem eachBitasset_of_payFee {P : AssetId → AssetBitassetData → Prop} {op : MarketOperation}
    (hs : s.EachBitasset P) (h : op.payFee amount s = .ok s') : s'.EachBitasset P := by
  unfold MarketOperation.payFee at h
  split at h
  · split_ifs at h
    · exact eachBitasset_of_modifyAccount hs h
    · obtain rfl := Except.ok.inj h
      exact hs
  · exact eachBitasset_of_modifyAccount hs h
  · split at h
    · exact eachBitasset_of_payFbaFee hs h
    · exact eachBitasset_of_modifyAccount hs h
  · exact eachBitasset_of_modifyAccount hs h

theorem feedsFit_of_payFee {op op' : MarketOperation} {fee : Asset} {t : MarketState}
    (hop : FeedsFit op s) (hconvert : s.convertFee fee amount = .ok t)
    (hpay : op'.payFee amount t = .ok s') : FeedsFit op s' := by
  unfold FeedsFit at hop ⊢
  split
  · exact eachBitasset_of_payFee (eachBitasset_of_convertFee hop hconvert) hpay
  · exact eachBitasset_of_payFee (eachBitasset_of_convertFee hop hconvert) hpay
  · trivial

theorem feedsQuote_of_evaluateAndApply {op : MarketOperation} {requiredFee : Option ℤ}
    (hs : s.FeedsQuote) (hop : op.doEvaluate s = .ok () → FeedsFit op s)
    (h : s.evaluateAndApply op requiredFee = .ok s') : s'.FeedsQuote := by
  simp only [evaluateAndApply, Checked.bind_eq_ok] at h
  obtain ⟨fee, hfee, ⟨⟩, -, ⟨⟩, heval, s₁, hconvert, s₂, hpay, s₃, happly, _, -, hadjust⟩ := h
  obtain ⟨-, hcore, -⟩ := prepareFee_spec hfee
  have hpaid : s₂.FeedsQuote := eachBitasset_of_payFee (eachBitasset_of_convertFee hs hconvert) hpay
  have hfit : FeedsFit op s₂ := feedsFit_of_payFee (hop heval) hconvert hpay
  exact eachBitasset_of_adjustBalance (feedsQuote_of_doApply hpaid hcore hfit happly) hadjust

/-- A valid feed that passes its evaluation is quoted in the backing asset. -/
theorem feedsFit_of_publishFeed {op : AssetPublishFeedOperation} (hvalid : op.validate = .ok ())
    (heval : op.doEvaluate s = .ok ()) : s.EachBitasset op.FeedsFit := by
  rintro _ a b ha hb rfl
  simp only [AssetPublishFeedOperation.validate, Checked.bind_eq_ok, require_eq_ok] at hvalid
  obtain ⟨-, -, -, -, -, -, -, -, -, hnull, -, -, hfor⟩ := hvalid
  simp only [AssetPublishFeedOperation.doEvaluate, Checked.bind_eq_ok, require_eq_ok,
    get_eq_ok, getBitassetData_eq_ok] at heval
  obtain ⟨a', ha', -, -, b', hb', -, -, -, hquote, -⟩ := heval
  obtain rfl := Option.some.inj (ha.symm.trans ha')
  obtain rfl := Option.some.inj (hb.symm.trans hb')
  exact .inr ⟨hfor.1 hnull, hquote⟩

/-! ## Fees -/

section fees

variable {acct : AccountId} {vbid : Option ℕ} {seconds : ℕ}

@[spec] theorem modifyAccount_feeds {f : AccountObject → Checked AccountObject} :
    ⦃⌜feeds.Holds s.funds⌝⦄ s.modifyAccount id f ⦃⇓? s' => ⌜feeds.Holds s'.funds⌝⦄ :=
  triple_iff.mpr fun hs _ ↦ eachBitasset_of_modifyAccount hs

/-- Feeds do not ask what becomes of the fees. -/
theorem modifyDynamicData_feeds {f : AssetDynamicData → Checked AssetDynamicData} :
    ⦃⌜feeds.Holds s.funds⌝⦄ s.modifyDynamicData id f ⦃⇓? s' => ⌜feeds.Holds s'.funds⌝⦄ :=
  triple_iff.mpr fun hs _ ↦ eachBitasset_of_modifyDynamicData hs

theorem modifyStatistics_feeds {f : AccountStatistics → Checked AccountStatistics} :
    ⦃⌜feeds.Holds s.funds⌝⦄ s.modifyStatistics id f ⦃⇓? s' => ⌜feeds.Holds s'.funds⌝⦄ :=
  triple_iff.mpr fun hs _ ↦ eachBitasset_of_modifyAccount hs

@[spec] theorem depositVesting_feeds {vbo : VestingBalanceObject} :
    ⦃⌜feeds.Holds s.funds⌝⦄ s.depositVesting id vbo amount ⦃⇓? s' => ⌜feeds.Holds s'.funds⌝⦄ := by
  mvcgen [depositVesting]

@[spec] theorem depositLazyVesting_feeds :
    ⦃⌜feeds.Holds s.funds⌝⦄ s.depositLazyVesting vbid amount seconds acct ⦃⇓? r => ⌜feeds.Holds r.2.funds⌝⦄ := by
  mvcgen [depositLazyVesting]

@[spec] theorem setCashbackVb_feeds :
    ⦃⌜feeds.Holds s.funds⌝⦄ s.setCashbackVb acct vbid ⦃⇓? s' => ⌜feeds.Holds s'.funds⌝⦄ := by
  mvcgen [setCashbackVb]

@[spec] theorem depositCashback_feeds :
    ⦃⌜feeds.Holds s.funds⌝⦄ s.depositCashback acct amount ⦃⇓? s' => ⌜feeds.Holds s'.funds⌝⦄ := by
  mvcgen [depositCashback, -modifyDynamicData_holds, modifyDynamicData_feeds]

@[spec] theorem updateReferrer_feeds :
    ⦃⌜feeds.Holds s.funds⌝⦄ s.updateReferrer acct ⦃⇓? s' => ⌜feeds.Holds s'.funds⌝⦄ := by
  mvcgen [updateReferrer, whenever]

@[spec] theorem payOutFees_feeds :
    ⦃⌜feeds.Holds s.funds⌝⦄ s.payOutFees acct amount ⦃⇓? s' => ⌜feeds.Holds s'.funds⌝⦄ := by
  mvcgen [payOutFees, -modifyDynamicData_holds, modifyDynamicData_feeds]

@[spec] theorem processFees_feeds :
    ⦃⌜feeds.Holds s.funds⌝⦄ s.processFees acct ⦃⇓? s' => ⌜feeds.Holds s'.funds⌝⦄ := by
  mvcgen [processFees, -modifyStatistics_holds, modifyStatistics_feeds]

end fees

/-! ## Passes -/

section passes

variable {price : Price} {seconds : ℕ} {n : ℤ}

@[spec] theorem cancelExpiredOrder_feeds {fee : ℕ} :
    ⦃⌜feeds.Holds s.funds⌝⦄ s.cancelExpiredOrder fee id ⦃⇓? s' => ⌜feeds.Holds s'.funds⌝⦄ := by
  refine triple_iff.mpr fun hs s' h ↦ ?_
  unfold cancelExpiredOrder at h
  split at h
  · refine feedsQuote_of_evaluateAndApply hs (fun _ ↦ ?_) h
    trivial
  · obtain rfl := Except.ok.inj h
    exact hs

@[spec] theorem cancelExpiredOrders_feeds {fee : ℕ} :
    ⦃⌜feeds.Holds s.funds⌝⦄ cancelExpiredOrders fee ids s ⦃⇓? s' => ⌜feeds.Holds s'.funds⌝⦄ := by
  induction ids generalizing s with
  | nil => mvcgen [cancelExpiredOrders]
  | cons id ids ih => mvcgen [cancelExpiredOrders, ih]

@[spec] theorem clearExpiredOrders_feeds {fee : ℕ} :
    ⦃⌜feeds.Holds s.funds⌝⦄ s.clearExpiredOrders fee ⦃⇓? s' => ⌜feeds.Holds s'.funds⌝⦄ := by
  mvcgen [clearExpiredOrders]

@[spec] theorem processAllFees_feeds :
    ⦃⌜feeds.Holds s.funds⌝⦄ processAllFees ids s ⦃⇓? s' => ⌜feeds.Holds s'.funds⌝⦄ := by
  induction ids generalizing s with
  | nil => mvcgen [processAllFees]
  | cons acct accts ih => mvcgen [processAllFees, ih]

@[spec] theorem initializeBudgetRecord_any :
    ⦃⌜True⌝⦄ s.initializeBudgetRecord ⦃⇓? _ => ⌜True⌝⦄ := triple_any _

@[spec] theorem requestedPay_any {worker : WorkerObject} :
    ⦃⌜True⌝⦄ s.requestedPay worker ⦃⇓? _ => ⌜True⌝⦄ := triple_any _

@[spec] theorem workerBudget_any : ⦃⌜True⌝⦄ s.workerBudget n ⦃⇓? _ => ⌜True⌝⦄ := triple_any _

@[spec] theorem payWorker_feeds {worker : WorkerObject} :
    ⦃⌜feeds.Holds s.funds⌝⦄ s.payWorker id worker n ⦃⇓? s' => ⌜feeds.Holds s'.funds⌝⦄ := by
  mvcgen [payWorker, -modifyDynamicData_holds, modifyDynamicData_feeds]

@[spec] theorem payActiveWorkers_feeds {workers : List (ℕ × WorkerObject)} :
    ⦃⌜feeds.Holds s.funds⌝⦄ payActiveWorkers workers n s ⦃⇓? r => ⌜feeds.Holds r.2.funds⌝⦄ := by
  induction workers generalizing n s with
  | nil => mvcgen [payActiveWorkers]
  | cons worker workers ih => mvcgen [payActiveWorkers, ih]

@[spec] theorem processBudget_feeds :
    ⦃⌜feeds.Holds s.funds⌝⦄ s.processBudget ⦃⇓? s' => ⌜feeds.Holds s'.funds⌝⦄ := by
  mvcgen [processBudget, payWorkers, -modifyDynamicData_holds, modifyDynamicData_feeds]

theorem feedsQuote_updateWorkerVotes {votes : ℕ → ℤ × ℤ} {workers : List (ℕ × WorkerObject)}
    (hs : s.FeedsQuote) : (updateWorkerVotes votes workers s).FeedsQuote := by
  induction workers generalizing s with
  | nil => exact hs
  | cons worker workers ih => exact ih hs

theorem feedsQuote_updateMaintenanceTime (hs : s.FeedsQuote) :
    s.updateMaintenanceTime.FeedsQuote := by
  unfold updateMaintenanceTime
  split_ifs <;> exact hs

@[spec] theorem performChainMaintenance_feeds {votes : ℕ → ℤ × ℤ} :
    ⦃⌜feeds.Holds s.funds⌝⦄ s.performChainMaintenance ids votes ⦃⇓? s' => ⌜feeds.Holds s'.funds⌝⦄ := by
  mvcgen [performChainMaintenance]
  next h => exact feedsQuote_updateMaintenanceTime (feedsQuote_updateWorkerVotes h)

@[spec] theorem updateSigningWitness_feeds :
    ⦃⌜feeds.Holds s.funds⌝⦄ s.updateSigningWitness id ⦃⇓? s' => ⌜feeds.Holds s'.funds⌝⦄ := by
  mvcgen [updateSigningWitness]
  split <;> assumption

@[spec] theorem registerAccount_feeds {account : AccountObject} {assetToBuy : Option AssetId} :
    ⦃⌜feeds.Holds s.funds⌝⦄ s.registerAccount account assetToBuy ⦃⇓? s' => ⌜feeds.Holds s'.funds⌝⦄ := by
  refine triple_iff.mpr fun hs s' h ↦ ?_
  simp only [registerAccount] at h
  split at h
  · have hcreated : ({ s with accounts := s.accounts.create { account with statistics := {} } } :
        MarketState).FeedsQuote := hs
    refine eachBitasset_of_modifyRest hcreated ?_ h
    exact fun _ ↦ rfl
  · obtain rfl := Checked.pure_eq_ok.mp h
    exact hs

@[spec] theorem createVesting_feeds {creator owner : AccountId} {amount : Asset}
    {cddVestingSeconds : Option ℕ} :
    ⦃⌜feeds.Holds s.funds⌝⦄
    s.createVesting creator owner amount cddVestingSeconds
    ⦃⇓? s' => ⌜feeds.Holds s'.funds⌝⦄ := by
  mvcgen [createVesting]

@[spec] theorem withdrawVesting_feeds {vb amount : ℕ} :
    ⦃⌜feeds.Holds s.funds⌝⦄ s.withdrawVesting vb amount ⦃⇓? s' => ⌜feeds.Holds s'.funds⌝⦄ := by
  mvcgen [withdrawVesting]

end passes

/-! ## Runs -/

/-- A change of the backing asset of an asset that has feeds is the event that leaves them
behind in the old one. -/
def BackingFits (s : MarketState) : MarketEvent → Prop
  | .operation (.assetUpdateBitasset op) _ => s.EachBitasset op.FeedsFit
  | _ => True

theorem feedsQuote_of_applyOperation {calculateFee : MarketOperation → ℤ} {op : MarketOperation}
    {typed : op.WellTyped} (hs : s.FeedsQuote) (hop : s.BackingFits (.operation op typed))
    (h : s.applyOperation calculateFee op = .ok s') : s'.FeedsQuote := by
  simp only [applyOperation, Checked.bind_eq_ok] at h
  obtain ⟨⟨⟩, hvalid, h⟩ := h
  refine feedsQuote_of_evaluateAndApply hs (fun heval ↦ ?_) h
  cases op with
  | assetUpdateBitasset op => exact hop
  | assetPublishFeed op => exact feedsFit_of_publishFeed hvalid heval
  | _ => trivial

theorem feedsQuote_of_applyEvent {calculateFee : MarketOperation → ℤ} {event : MarketEvent}
    (hs : s.FeedsQuote) (hevent : s.BackingFits event)
    (h : s.applyEvent calculateFee event = .ok s') : s'.FeedsQuote := by
  suffices hspec : ⦃⌜feeds.Holds s.funds⌝⦄ s.applyEvent calculateFee event ⦃⇓? s' => ⌜feeds.Holds s'.funds⌝⦄ from
    triple_iff.mp hspec hs _ h
  cases event with
  | operation op typed => exact triple_iff.mpr fun hs _ ↦ feedsQuote_of_applyOperation hs hevent
  | _ => mvcgen [applyEvent, updateExpiredFeeds]

theorem feedsQuote_step {calculateFee : MarketOperation → ℤ} {event : MarketEvent}
    (hs : s.FeedsQuote) (hevent : s.BackingFits event) : (s.step calculateFee event).FeedsQuote := by
  unfold step
  split
  · next h => exact feedsQuote_of_applyEvent hs hevent h
  · exact hs

/-- Where the current feed of an asset is not null, it is a price in the backing asset. -/
def FeedsConsistent (s : MarketState) : Prop :=
  ∀ id b, s.getBitassetData id = .ok b → ¬b.currentFeed.settlementPrice.IsNull →
    b.currentFeed.settlementPrice.base.assetId = id ∧
      b.currentFeed.settlementPrice.quote.assetId = b.options.shortBackingAsset

theorem FeedsQuote.feedsConsistent (hs : s.FeedsQuote) : s.FeedsConsistent := by
  intro id b hb hnull
  obtain ⟨a, ha, hb⟩ := findBitassetData_eq_ok.mp hb
  exact (hs id a b ha hb).currentFeed.resolve_left hnull

/-- The prices that borrowing and margin calls compare are prices of the same two assets. -/
structure ComparesOneBacking (s : MarketState) : Prop where
  borrowing : ∀ (op : CallOrderUpdateOperation) b, op.doEvaluate s = .ok () →
    s.getBitassetData op.deltaDebt.assetId = .ok b → ¬b.currentFeed.settlementPrice.IsNull →
    b.currentFeed.settlementPrice.base.assetId = op.deltaDebt.assetId ∧
      b.currentFeed.settlementPrice.quote.assetId = op.deltaCollateral.assetId
  marginCalls : ∀ mia b lowest highest, s.getBitassetData mia = .ok b →
    ¬b.currentFeed.settlementPrice.IsNull →
    Price.lowest b.options.shortBackingAsset mia = .ok lowest →
    Price.highest b.options.shortBackingAsset mia = .ok highest →
    ∀ call ∈ s.callsBetween lowest highest,
      call.2.callPrice.inverse.base.assetId = b.currentFeed.settlementPrice.base.assetId ∧
      call.2.callPrice.inverse.quote.assetId = b.currentFeed.settlementPrice.quote.assetId

theorem FeedsConsistent.comparesOneBacking (hs : s.FeedsConsistent) : s.ComparesOneBacking := by
  refine ⟨fun op b heval hb hnull ↦ ?_, fun mia b lowest highest hb hnull hlow hhigh call hcall ↦ ?_⟩
  · obtain ⟨hbase, hquote⟩ := hs _ b hb hnull
    refine ⟨hbase, hquote.trans ?_⟩
    obtain ⟨a, ha, hdata⟩ := findBitassetData_eq_ok.mp hb
    simp only [CallOrderUpdateOperation.doEvaluate, Checked.bind_eq_ok, require_eq_ok, get_eq_ok,
      getBitassetData_eq_ok] at heval
    obtain ⟨-, -, a', ha', -, -, b', hb', -, -, -, hbacking, -⟩ := heval
    obtain rfl := Option.some.inj (ha.symm.trans ha')
    obtain rfl := Option.some.inj (hdata.symm.trans hb')
    exact hbacking.symm
  · obtain ⟨hbase, hquote⟩ := hs mia b hb hnull
    obtain ⟨-, hfrom, hto⟩ := ObjectIndex.mem_select.mp hcall
    obtain ⟨hcallBase, hcallQuote⟩ := Price.pair_of_between hlow hhigh hfrom hto
    exact ⟨hcallQuote.trans hbase.symm, hcallBase.trans hquote.symm⟩

/-- In a run in which the backing asset changes only for assets without feeds, no comparison
is between prices in different backing assets. -/
theorem feedsConsistent_of_reaches (calculateFee : MarketOperation → ℤ) {start s : MarketState}
    (hstart : start.EachBitasset fun _ b ↦ b.NoFeeds)
    (hs : Run.Reaches (step calculateFee) BackingFits start s) :
    s.FeedsConsistent ∧ s.ComparesOneBacking := by
  have hquote : s.FeedsQuote := by
    refine hs.invariant FeedsQuote (fun id a b ha hb ↦ (hstart id a b ha hb).feedsQuote) ?_
    exact fun _ _ ↦ feedsQuote_step
  exact ⟨hquote.feedsConsistent, hquote.feedsConsistent.comparesOneBacking⟩

/-! A feed in core for an asset that is then backed by another one. -/

def fedMarket : MarketState where
  accounts := ⟨12, [(10, {})], by decide, by simp⟩
  assets := ⟨3, [(0, {}), (1, { issuer := 10, bitassetData := some { feeds := [(10, 0, {})] } }),
    (2, {})], by decide, by simp⟩
  headBlockTime := hardforkCore216Time + 1

def coreFeed : AssetPublishFeedOperation where
  publisher := 10
  assetId := 1
  feed := {
    settlementPrice := ⟨⟨1, 1⟩, ⟨1, 0⟩⟩
    coreExchangeRate := ⟨⟨1, 1⟩, ⟨1, 0⟩⟩ }

def newBacking : AssetUpdateBitassetOperation where
  issuer := 10
  assetToUpdate := 1
  newOptions := { shortBackingAsset := 2 }

def publishCoreFeed : MarketEvent := .operation (.assetPublishFeed coreFeed) (by decide)

def changeBacking : MarketEvent := .operation (.assetUpdateBitasset newBacking) (by decide)

theorem fedMarket_noFeeds : fedMarket.EachBitasset fun _ b ↦ b.NoFeeds := by
  intro id a b ha hb
  have hmem := ObjectIndex.find_eq_some.mp ha
  simp only [fedMarket, List.mem_cons, List.not_mem_nil, or_false, Prod.mk.injEq] at hmem
  rcases hmem with ⟨-, rfl⟩ | ⟨-, rfl⟩ | ⟨-, rfl⟩
  · cases hb
  · obtain rfl := Option.some.inj hb
    exact ⟨by decide, by decide⟩
  · cases hb

theorem feedsConsistent_coreFeed :
    (fedMarket.step (fun _ ↦ 0) publishCoreFeed).FeedsConsistent ∧
      (fedMarket.step (fun _ ↦ 0) publishCoreFeed).ComparesOneBacking ∧
      ∃ b, (fedMarket.step (fun _ ↦ 0) publishCoreFeed).getBitassetData 1 = .ok b ∧
        b.currentFeed = coreFeed.feed := by
  obtain ⟨hconsistent, hcompares⟩ := feedsConsistent_of_reaches (fun _ ↦ 0) fedMarket_noFeeds
    (.next publishCoreFeed .refl trivial)
  exact ⟨hconsistent, hcompares, _, rfl, by decide⟩

theorem feeds_inconsistent : fedMarket.EachBitasset (fun _ b ↦ b.NoFeeds) ∧
    ∃ s, Run.Reaches (step fun _ ↦ 0) (fun _ _ ↦ True) fedMarket s ∧ ¬s.FeedsConsistent := by
  refine ⟨fedMarket_noFeeds, _, .next changeBacking (.next publishCoreFeed .refl trivial) trivial, ?_⟩
  intro hconsistent
  obtain ⟨b, hb, hnull, hquote⟩ : ∃ b, ((fedMarket.step (fun _ ↦ 0) publishCoreFeed).step
      (fun _ ↦ 0) changeBacking).getBitassetData 1 = .ok b ∧
      ¬b.currentFeed.settlementPrice.IsNull ∧
      b.currentFeed.settlementPrice.quote.assetId ≠ b.options.shortBackingAsset :=
    ⟨_, rfl, by decide, by decide⟩
  exact hquote (hconsistent 1 b hb hnull).2

end MarketState

end KarmaCore.Market
