import Mathlib
import KarmaCore.Lib.ExceptTriple
import KarmaCore.Market.FeedFrame
import KarmaCore.Market.Maintenance

/-!
# Invariants of the market

What fills, cancels and matches orders leaves alone the feeds, the fees that were
put aside and the vesting balances, or adds to the fees.  An invariant of these
survives every function that trades, one triple for each.
-/

set_option mvcgen.warning false

namespace KarmaCore.Market

open Transfer (get get_eq_ok)
open ObjectIndex Std.Do Except

/-! ## Invariants -/

/-- What an invariant of the market reads. -/
structure Funds where
  accounts : ObjectIndex AccountObject
  assets : ObjectIndex AssetObject
  limitOrders : ObjectIndex LimitOrderObject
  vestingBalances : ObjectIndex VestingBalanceObject
  fbaAccumulators : ObjectIndex FbaAccumulatorObject
  workers : ObjectIndex WorkerObject
  parameters : ChainParameters
  headBlockTime : ℕ
  witnessBudget : ℤ

def MarketState.funds (s : MarketState) : Funds :=
  ⟨s.accounts, s.assets, s.limitOrders, s.vestingBalances, s.fbaAccumulators, s.workers, s.parameters,
    s.headBlockTime, s.witnessBudget⟩

/-- Pending fees that were not negative are not negative now. -/
def AccountStatistics.KeepsPending (b b' : AccountStatistics) : Prop :=
  0 ≤ b.pendingFees ∧ 0 ≤ b.pendingVestedFees → 0 ≤ b'.pendingFees ∧ 0 ≤ b'.pendingVestedFees

/-- Accumulated fees and a fee pool that were not negative are not negative now. -/
def AssetDynamicData.KeepsFees (d d' : AssetDynamicData) : Prop :=
  0 ≤ d.accumulatedFees ∧ 0 ≤ d.feePool → 0 ≤ d'.accumulatedFees ∧ 0 ≤ d'.feePool

/-- Feeds that were in the backing asset are in it now. -/
def AssetBitassetData.KeepsFeeds (b b' : AssetBitassetData) : Prop :=
  ∀ mia, b.FeedsQuote mia → b'.FeedsQuote mia

/-- A property of the funds that the writes of a trade keep. -/
structure MarketInvariant where
  Holds : Funds → Prop
  modifyStatistics : ∀ {s s' : MarketState} {id : AccountId}
    {f : AccountStatistics → Checked AccountStatistics}, (∀ b b', f b = .ok b' → b.KeepsPending b') →
    Holds s.funds → s.modifyStatistics id f = .ok s' → Holds s'.funds
  modifyDynamicData : ∀ {s s' : MarketState} {id : AssetId}
    {f : AssetDynamicData → Checked AssetDynamicData}, (∀ d d', f d = .ok d' → d.KeepsFees d') →
    Holds s.funds → s.modifyDynamicData id f = .ok s' → Holds s'.funds
  modifyBitassetData : ∀ {s s' : MarketState} {id : AssetId}
    {f : AssetBitassetData → Checked AssetBitassetData}, (∀ b b', f b = .ok b' → b.KeepsFeeds b') →
    Holds s.funds → s.modifyBitassetData id f = .ok s' → Holds s'.funds
  modifyRest : ∀ {s s' : MarketState} {id : AssetId} {f : AssetObject → AssetObject},
    (∀ a, (f a).dynamicData = a.dynamicData ∧ (f a).bitassetData = a.bitassetData) →
    Holds s.funds → s.modifyAsset id (fun a ↦ .ok (f a)) = .ok s' → Holds s'.funds
  createAsset : ∀ {s : MarketState} {a : AssetObject},
    a.dynamicData.accumulatedFees = 0 → 0 ≤ a.dynamicData.feePool →
    (∀ b, a.bitassetData = some b → ∀ mia, b.FeedsQuote mia) → Holds s.funds →
    Holds { s with assets := s.assets.create a }.funds
  removeLimitOrder : ∀ {s : MarketState} {id : ℕ}, Holds s.funds →
    Holds { s with limitOrders := s.limitOrders.remove id }.funds
  setLimitOrder : ∀ {s : MarketState} {id : ℕ} {o : LimitOrderObject}, 0 ≤ o.deferredFee →
    Holds s.funds → Holds { s with limitOrders := s.limitOrders.set id o }.funds
  createLimitOrder : ∀ {s : MarketState} {o : LimitOrderObject}, 0 ≤ o.deferredFee →
    Holds s.funds → Holds { s with limitOrders := s.limitOrders.create o }.funds
  setFbaAccumulator : ∀ {s : MarketState} {id : ℕ} {f : FbaAccumulatorObject},
    0 ≤ f.accumulatedFbaFees → Holds s.funds →
    Holds { s with fbaAccumulators := s.fbaAccumulators.set id f }.funds

/-! ## What statistics and dynamic data keep -/

namespace AccountStatistics

variable {b b' : AccountStatistics} {amount : Asset}

theorem keepsPending_of_leaveOrders (h : b.leaveOrders amount = .ok b') : b.KeepsPending b' := by
  rcases whenever_eq_ok.mp h with ⟨-, h⟩ | ⟨-, rfl⟩
  · simp only [Checked.bind_eq_ok, Checked.pure_eq_ok] at h
    obtain ⟨_, -, rfl⟩ := h
    exact id
  · exact id

theorem keepsPending_of_enterOrders (h : b.enterOrders amount = .ok b') : b.KeepsPending b' := by
  rcases whenever_eq_ok.mp h with ⟨-, h⟩ | ⟨-, rfl⟩
  · simp only [Checked.bind_eq_ok, Checked.pure_eq_ok] at h
    obtain ⟨_, -, rfl⟩ := h
    exact id
  · exact id

theorem keepsPending_of_freeCollateral {freed : Option Asset}
    (h : b.freeCollateral freed = .ok b') : b.KeepsPending b' := by
  cases freed with
  | none =>
      obtain rfl := Except.ok.inj h
      exact id
  | some freed =>
      unfold freeCollateral at h
      rcases whenever_eq_ok.mp h with ⟨-, h⟩ | ⟨-, rfl⟩
      · simp only [Checked.bind_eq_ok, Checked.pure_eq_ok] at h
        obtain ⟨_, -, rfl⟩ := h
        exact id
      · exact id

theorem keepsPending_of_payFee {coreFee threshold : ℤ} (hfee : 0 ≤ coreFee)
    (h : b.payFee coreFee threshold = .ok b') : b.KeepsPending b' := by
  rintro ⟨hpending, hvested⟩
  unfold payFee at h
  split_ifs at h
  · simp only [Checked.bind_eq_ok, Checked.pure_eq_ok, checkedShare_eq_ok] at h
    obtain ⟨_, ⟨-, rfl⟩, rfl⟩ := h
    exact ⟨add_nonneg hpending hfee, hvested⟩
  · simp only [Checked.bind_eq_ok, Checked.pure_eq_ok, checkedShare_eq_ok] at h
    obtain ⟨_, ⟨-, rfl⟩, rfl⟩ := h
    exact ⟨hpending, add_nonneg hvested hfee⟩

end AccountStatistics

namespace AssetDynamicData

variable {d d' : AssetDynamicData} {amount : ℤ}

theorem keepsFees_of_addSupply (h : d.addSupply amount = .ok d') : d.KeepsFees d' := by
  simp only [addSupply, Checked.bind_eq_ok, Checked.pure_eq_ok] at h
  obtain ⟨_, -, rfl⟩ := h
  exact id

theorem keepsFees_of_subSupply (h : d.subSupply amount = .ok d') : d.KeepsFees d' := by
  simp only [subSupply, Checked.bind_eq_ok, Checked.pure_eq_ok] at h
  obtain ⟨_, -, rfl⟩ := h
  exact id

end AssetDynamicData

namespace MarketState

variable {s s' : MarketState}

/-! ## Results that are no states -/

@[spec] theorem get_any {α : Type} {o : Option α} : ⦃⌜True⌝⦄ get o ⦃⇓? _ => ⌜True⌝⦄ := triple_any _

@[spec] theorem deref_any {α : Type} {o : Option α} : ⦃⌜True⌝⦄ deref o ⦃⇓? _ => ⌜True⌝⦄ := triple_any _

@[spec] theorem require_any {condition : Prop} [Decidable condition] {message : String} :
    ⦃⌜True⌝⦄ require condition message ⦃⇓? _ => ⌜True⌝⦄ := triple_any _

@[spec] theorem demand_any {condition : Prop} [Decidable condition] {error : ChainError} :
    ⦃⌜True⌝⦄ demand condition error ⦃⇓? _ => ⌜True⌝⦄ := triple_any _

@[spec] theorem checkedShare_any {x : ℤ} : ⦃⌜True⌝⦄ checkedShare x ⦃⇓? _ => ⌜True⌝⦄ := triple_any _

section results

variable {a b : Asset} {p : Price} {call : CallOrderObject} {bad : AssetBitassetData}

@[spec] theorem add_any : ⦃⌜True⌝⦄ a.add b ⦃⇓? _ => ⌜True⌝⦄ := triple_any _

@[spec] theorem sub_any : ⦃⌜True⌝⦄ a.sub b ⦃⇓? _ => ⌜True⌝⦄ := triple_any _

@[spec] theorem lt_any : ⦃⌜True⌝⦄ a.lt b ⦃⇓? _ => ⌜True⌝⦄ := triple_any _

@[spec] theorem le_any : ⦃⌜True⌝⦄ a.le b ⦃⇓? _ => ⌜True⌝⦄ := triple_any _

@[spec] theorem neg_any : ⦃⌜True⌝⦄ a.neg ⦃⇓? _ => ⌜True⌝⦄ := triple_any _

@[spec] theorem times_any : ⦃⌜True⌝⦄ times a p ⦃⇓? _ => ⌜True⌝⦄ := triple_any _

@[spec] theorem per_any : ⦃⌜True⌝⦄ per a b ⦃⇓? _ => ⌜True⌝⦄ := triple_any _

@[spec] theorem validate_any : ⦃⌜True⌝⦄ p.validate ⦃⇓? _ => ⌜True⌝⦄ := triple_any _

@[spec] theorem lowest_any {base quote : AssetId} :
    ⦃⌜True⌝⦄ Price.lowest base quote ⦃⇓? _ => ⌜True⌝⦄ := triple_any _

@[spec] theorem highest_any {base quote : AssetId} :
    ⦃⌜True⌝⦄ Price.highest base quote ⦃⇓? _ => ⌜True⌝⦄ := triple_any _

@[spec] theorem callPrice_any {ratio : ℕ} :
    ⦃⌜True⌝⦄ Price.callPrice a b ratio ⦃⇓? _ => ⌜True⌝⦄ := triple_any _

@[spec] theorem collateralization_any : ⦃⌜True⌝⦄ call.collateralization ⦃⇓? _ => ⌜True⌝⦄ := triple_any _

@[spec] theorem maxShortSqueezePrice_any {feed : PriceFeed} :
    ⦃⌜True⌝⦄ feed.maxShortSqueezePrice ⦃⇓? _ => ⌜True⌝⦄ := triple_any _

@[spec] theorem newCallPrice_any {feed : PriceFeed} :
    ⦃⌜True⌝⦄ CallOrderUpdateOperation.newCallPrice feed call ⦃⇓? _ => ⌜True⌝⦄ := triple_any _

@[spec] theorem amountToReceive_any {order : LimitOrderObject} :
    ⦃⌜True⌝⦄ order.amountToReceive ⦃⇓? _ => ⌜True⌝⦄ := triple_any _

@[spec] theorem matchedAmounts_any : ⦃⌜True⌝⦄ matchedAmounts a b p ⦃⇓? _ => ⌜True⌝⦄ := triple_any _

@[spec] theorem marginAmounts_any : ⦃⌜True⌝⦄ marginAmounts a b p ⦃⇓? _ => ⌜True⌝⦄ := triple_any _

@[spec] theorem seizedCollateral_any : ⦃⌜True⌝⦄ seizedCollateral call p ⦃⇓? _ => ⌜True⌝⦄ := triple_any _

@[spec] theorem bitassetData_any {asset : AssetObject} :
    ⦃⌜True⌝⦄ asset.getBitassetData ⦃⇓? _ => ⌜True⌝⦄ := triple_any _

@[spec] theorem getBitassetData_any {id : AssetId} :
    ⦃⌜True⌝⦄ s.getBitassetData id ⦃⇓? _ => ⌜True⌝⦄ := triple_any _

@[spec] theorem coverSupply_any {supply covered : ℤ} {bids : List (ℕ × CollateralBidObject)} :
    ⦃⌜True⌝⦄ coverSupply bad supply bids covered ⦃⇓? _ => ⌜True⌝⦄ := triple_any _

@[spec] theorem bidShare_any {bid : CollateralBidObject} {toCover fund : ℤ} :
    ⦃⌜True⌝⦄ bidShare bad bid toCover fund ⦃⇓? _ => ⌜True⌝⦄ := triple_any _

@[spec] theorem settledAmount_any {op : AssetSettleOperation} {supply : ℤ} :
    ⦃⌜True⌝⦄ op.settledAmount supply bad ⦃⇓? _ => ⌜True⌝⦄ := triple_any _

@[spec] theorem lazyVestingTarget_any {vbid : Option ℕ} {seconds : ℕ} {owner : AccountId} :
    ⦃⌜True⌝⦄ s.lazyVestingTarget vbid seconds owner ⦃⇓? _ => ⌜True⌝⦄ := triple_any _

end results

/-! ## Filling, cancelling and matching -/

variable {acct : AccountId} {mia : AssetId} {id : ℕ} {ids : List ℕ} {pays receives : Asset}
  {price : Price} {amount : ℤ} {I : MarketInvariant}

@[spec] theorem adjustBalance_holds :
    ⦃⌜I.Holds s.funds⌝⦄ s.adjustBalance acct pays ⦃⇓? s' => ⌜I.Holds s'.funds⌝⦄ := by
  refine triple_iff.mpr fun hs s' h ↦ ?_
  simp only [adjustBalance, Checked.bind_eq_ok, Checked.pure_eq_ok] at h
  obtain ⟨_, -, rfl⟩ := h
  exact hs

@[spec] theorem modifyStatistics_holds {f : AccountStatistics → Checked AccountStatistics}
    (hf : ∀ b b', f b = .ok b' → b.KeepsPending b') :
    ⦃⌜I.Holds s.funds⌝⦄ s.modifyStatistics id f ⦃⇓? s' => ⌜I.Holds s'.funds⌝⦄ :=
  triple_iff.mpr fun hs _ ↦ I.modifyStatistics hf hs

@[spec] theorem modifyDynamicData_holds {f : AssetDynamicData → Checked AssetDynamicData}
    (hf : ∀ d d', f d = .ok d' → d.KeepsFees d') :
    ⦃⌜I.Holds s.funds⌝⦄ s.modifyDynamicData id f ⦃⇓? s' => ⌜I.Holds s'.funds⌝⦄ :=
  triple_iff.mpr fun hs _ ↦ I.modifyDynamicData hf hs

@[spec] theorem modifyBitassetData_holds {f : AssetBitassetData → Checked AssetBitassetData}
    (hf : ∀ b b', f b = .ok b' → b.KeepsFeeds b') :
    ⦃⌜I.Holds s.funds⌝⦄ s.modifyBitassetData id f ⦃⇓? s' => ⌜I.Holds s'.funds⌝⦄ :=
  triple_iff.mpr fun hs _ ↦ I.modifyBitassetData hf hs

@[spec] theorem payMarketFees_holds :
    ⦃⌜I.Holds s.funds⌝⦄ s.payMarketFees mia receives ⦃⇓? r => ⌜I.Holds r.2.funds⌝⦄ := by
  mvcgen [payMarketFees, whenever]
  next hfees =>
    simp only [Checked.bind_eq_ok, Checked.pure_eq_ok, checkedShare_eq_ok]
    rintro d _ ⟨_, ⟨-, rfl⟩, rfl⟩ ⟨haccumulated, hpool⟩
    exact ⟨add_nonneg haccumulated hfees.le, hpool⟩

@[spec] theorem payOrder_holds :
    ⦃⌜I.Holds s.funds⌝⦄ s.payOrder acct receives pays ⦃⇓? s' => ⌜I.Holds s'.funds⌝⦄ := by
  mvcgen [payOrder]
  exact fun _ _ ↦ AccountStatistics.keepsPending_of_leaveOrders

@[spec] theorem cancelLimitOrder_holds :
    ⦃⌜I.Holds s.funds⌝⦄ s.cancelLimitOrder id ⦃⇓? s' => ⌜I.Holds s'.funds⌝⦄ := by
  mvcgen [cancelLimitOrder]
  · exact fun _ _ ↦ AccountStatistics.keepsPending_of_leaveOrders
  · exact I.removeLimitOrder ‹_›

@[spec] theorem cancelSettlement_holds :
    ⦃⌜I.Holds s.funds⌝⦄ s.cancelSettlement id ⦃⇓? s' => ⌜I.Holds s'.funds⌝⦄ := by
  mvcgen [cancelSettlement]

@[spec] theorem cancelBid_holds : ⦃⌜I.Holds s.funds⌝⦄ s.cancelBid id ⦃⇓? s' => ⌜I.Holds s'.funds⌝⦄ := by
  mvcgen [cancelBid]

@[spec] theorem maybeCullSmallOrder_holds :
    ⦃⌜I.Holds s.funds⌝⦄ s.maybeCullSmallOrder id ⦃⇓? r => ⌜I.Holds r.2.funds⌝⦄ := by
  mvcgen [maybeCullSmallOrder]

@[spec] theorem reduceLimitOrder_holds {order : LimitOrderObject} {cull : Bool} :
    ⦃⌜I.Holds s.funds⌝⦄ s.reduceLimitOrder id order pays cull ⦃⇓? r => ⌜I.Holds r.2.funds⌝⦄ := by
  mvcgen [reduceLimitOrder]
  · exact I.removeLimitOrder ‹_›
  · exact I.setLimitOrder le_rfl ‹_›
  · exact I.setLimitOrder le_rfl ‹_›

@[spec] theorem fillLimitOrder_holds {cull isMaker : Bool} :
    ⦃⌜I.Holds s.funds⌝⦄
    s.fillLimitOrder id pays receives cull price isMaker
    ⦃⇓? r => ⌜I.Holds r.2.funds⌝⦄ := by
  mvcgen [fillLimitOrder, whenever]
  next hdeferred => exact fun _ _ ↦ AccountStatistics.keepsPending_of_payFee hdeferred.le

@[spec] theorem payBorrower_holds {freed : Option Asset} :
    ⦃⌜I.Holds s.funds⌝⦄ s.payBorrower acct freed ⦃⇓? s' => ⌜I.Holds s'.funds⌝⦄ := by
  mvcgen [payBorrower]

@[spec] theorem fillCallOrder_holds {isMaker : Bool} :
    ⦃⌜I.Holds s.funds⌝⦄ s.fillCallOrder id pays receives price isMaker ⦃⇓? r => ⌜I.Holds r.2.funds⌝⦄ := by
  mvcgen [fillCallOrder, whenever]
  · exact fun _ _ ↦ AssetDynamicData.keepsFees_of_subSupply
  · intro _ b b' h
    simp only [Checked.bind_eq_ok] at h
    obtain ⟨_, hfree, hleave⟩ := h
    exact AccountStatistics.keepsPending_of_leaveOrders hleave ∘
      AccountStatistics.keepsPending_of_freeCollateral hfree

@[spec] theorem fillSettlement_holds {isMaker : Bool} :
    ⦃⌜I.Holds s.funds⌝⦄
    s.fillSettlement id pays receives price isMaker
    ⦃⇓? r => ⌜I.Holds r.2.funds⌝⦄ := by
  mvcgen [fillSettlement, whenever]

@[spec] theorem matchLimitOrders_holds {usd core : ℕ} :
    ⦃⌜I.Holds s.funds⌝⦄ s.matchLimitOrders usd core price ⦃⇓? r => ⌜I.Holds r.2.funds⌝⦄ := by
  mvcgen [matchLimitOrders]

@[spec] theorem matchSettlement_holds {call settle : ℕ} :
    ⦃⌜I.Holds s.funds⌝⦄ s.matchSettlement call settle price pays ⦃⇓? r => ⌜I.Holds r.2.funds⌝⦄ := by
  mvcgen [matchSettlement]

@[spec] theorem closeCallOrders_holds :
    ⦃⌜I.Holds s.funds⌝⦄ closeCallOrders price ids pays s ⦃⇓? r => ⌜I.Holds r.2.funds⌝⦄ := by
  induction ids generalizing pays s with
  | nil => mvcgen [closeCallOrders]
  | cons id ids ih => mvcgen [closeCallOrders, ih]

@[spec] theorem globallySettleAsset_holds :
    ⦃⌜I.Holds s.funds⌝⦄ s.globallySettleAsset mia price ⦃⇓? s' => ⌜I.Holds s'.funds⌝⦄ := by
  mvcgen [globallySettleAsset]
  · rintro b _ ⟨⟩ mia h
    exact { h with }
  · rintro - d _ ⟨⟩
    exact id

/-! ## Margin calls -/

section margins

variable {enable forNew called filled : Bool} {limits : List ℕ}
  {next : Bool → List ℕ → MarketState → Checked (Bool × MarketState)}

@[spec] theorem checkLeastCollateral_holds {b : AssetBitassetData} :
    ⦃⌜I.Holds s.funds⌝⦄ s.checkLeastCollateral mia b enable ⦃⇓? r => ⌜I.Holds r.2.funds⌝⦄ := by
  refine triple_iff.mpr fun hs r h ↦ ?_
  simp only [checkLeastCollateral, Checked.bind_eq_ok] at h
  obtain ⟨_, -, _, -, _, -, _, -, h⟩ := h
  split at h
  · obtain rfl := Checked.pure_eq_ok.mp h
    exact hs
  · simp only [Checked.bind_eq_ok] at h
    obtain ⟨_, -, h⟩ := h
    split_ifs at h
    · simp only [Checked.bind_eq_ok] at h
      obtain ⟨_, -, t, ht, h⟩ := h
      obtain rfl := Checked.pure_eq_ok.mp h
      exact triple_iff.mp globallySettleAsset_holds hs _ ht
    · obtain rfl := Checked.pure_eq_ok.mp h
      exact hs

@[spec] theorem checkForBlackswan_holds :
    ⦃⌜I.Holds s.funds⌝⦄ s.checkForBlackswan mia enable ⦃⇓? r => ⌜I.Holds r.2.funds⌝⦄ := by
  mvcgen [checkForBlackswan]

@[spec] theorem marginCall_holds {call limit : ℕ} :
    ⦃⌜I.Holds s.funds⌝⦄
    s.marginCall mia price enable forNew called call limit
    ⦃⇓? turn => ⌜I.Holds turn.state.funds⌝⦄ := by
  mvcgen [marginCall]

@[spec] theorem andThen_holds {again : Bool → MarketState → Checked (Bool × MarketState)}
    {limit : ℕ} {turn : MarginTurn}
    (hnext : ∀ filled limits s, ⦃⌜I.Holds s.funds⌝⦄ next filled limits s ⦃⇓? r => ⌜I.Holds r.2.funds⌝⦄)
    (hagain : ∀ filled s, ⦃⌜I.Holds s.funds⌝⦄ again filled s ⦃⇓? r => ⌜I.Holds r.2.funds⌝⦄) :
    ⦃⌜I.Holds turn.state.funds⌝⦄
    turn.andThen next again filled limit limits
    ⦃⇓? r => ⌜I.Holds r.2.funds⌝⦄ := by
  mvcgen [MarginTurn.andThen, hnext, hagain]

@[spec] theorem marginCallOrder_holds {call : ℕ}
    (hnext : ∀ filled limits s, ⦃⌜I.Holds s.funds⌝⦄ next filled limits s ⦃⇓? r => ⌜I.Holds r.2.funds⌝⦄) :
    ⦃⌜I.Holds s.funds⌝⦄
    marginCallOrder mia price enable forNew call next limits called filled s
    ⦃⇓? r => ⌜I.Holds r.2.funds⌝⦄ := by
  induction limits generalizing called filled s with
  | nil => mvcgen [marginCallOrder]
  | cons limit limits ih => mvcgen [marginCallOrder, hnext, ih]

@[spec] theorem marginCallLoop_holds {calls : List ℕ} :
    ⦃⌜I.Holds s.funds⌝⦄
    marginCallLoop mia price enable forNew calls limits called filled s
    ⦃⇓? r => ⌜I.Holds r.2.funds⌝⦄ := by
  induction calls generalizing limits called filled s with
  | nil => mvcgen [marginCallLoop]
  | cons call calls ih => mvcgen [marginCallLoop, ih]

@[spec] theorem callMargins_holds :
    ⦃⌜I.Holds s.funds⌝⦄ s.callMargins mia enable forNew ⦃⇓? r => ⌜I.Holds r.2.funds⌝⦄ := by
  mvcgen [callMargins]

@[spec] theorem checkCallOrders_holds :
    ⦃⌜I.Holds s.funds⌝⦄ s.checkCallOrders mia enable forNew ⦃⇓? r => ⌜I.Holds r.2.funds⌝⦄ := by
  mvcgen [checkCallOrders]

@[spec] theorem matchOldOrders_holds {new : ℕ} :
    ⦃⌜I.Holds s.funds⌝⦄ matchOldOrders new ids s ⦃⇓? s' => ⌜I.Holds s'.funds⌝⦄ := by
  induction ids generalizing s with
  | nil => mvcgen [matchOldOrders]
  | cons old olds ih => mvcgen [matchOldOrders, ih]

@[spec] theorem matchNewOrder_holds :
    ⦃⌜I.Holds s.funds⌝⦄ s.matchNewOrder id price enable ⦃⇓? r => ⌜I.Holds r.2.funds⌝⦄ := by
  mvcgen [matchNewOrder]

@[spec] theorem applyOrder_holds :
    ⦃⌜I.Holds s.funds⌝⦄ s.applyOrder id enable ⦃⇓? r => ⌜I.Holds r.2.funds⌝⦄ := by
  mvcgen [applyOrder]

end margins

/-! ## Collateral bids -/

section bids

variable {bad : AssetBitassetData} {debt collateral : ℤ}

@[spec] theorem createCallOrder_holds {call : CallOrderObject} :
    ⦃⌜I.Holds s.funds⌝⦄ s.createCallOrder call ⦃⇓? s' => ⌜I.Holds s'.funds⌝⦄ := by
  mvcgen [createCallOrder]

@[spec] theorem createCollateralBid_holds {bid : CollateralBidObject} :
    ⦃⌜I.Holds s.funds⌝⦄ s.createCollateralBid bid ⦃⇓? r => ⌜I.Holds r.2.funds⌝⦄ := by
  mvcgen [createCollateralBid]

@[spec] theorem executeBid_holds {feed : PriceFeed} :
    ⦃⌜I.Holds s.funds⌝⦄ s.executeBid id debt collateral feed ⦃⇓? s' => ⌜I.Holds s'.funds⌝⦄ := by
  mvcgen [executeBid, whenever]
  exact fun _ _ ↦ AccountStatistics.keepsPending_of_enterOrders

@[spec] theorem cancelBids_holds :
    ⦃⌜I.Holds s.funds⌝⦄ cancelBids ids s ⦃⇓? s' => ⌜I.Holds s'.funds⌝⦄ := by
  induction ids generalizing s with
  | nil => mvcgen [cancelBids]
  | cons id ids ih => mvcgen [cancelBids, ih]

@[spec] theorem cancelBidsAndReviveMpa_holds :
    ⦃⌜I.Holds s.funds⌝⦄ s.cancelBidsAndReviveMpa mia ⦃⇓? s' => ⌜I.Holds s'.funds⌝⦄ := by
  mvcgen [cancelBidsAndReviveMpa]
  rintro - b _ ⟨⟩ mia h
  exact { h with }

@[spec] theorem executePseudoBid_holds {asset : AssetObject} :
    ⦃⌜I.Holds s.funds⌝⦄ s.executePseudoBid mia asset bad ⦃⇓? s' => ⌜I.Holds s'.funds⌝⦄ := by
  mvcgen [executePseudoBid]

@[spec] theorem reviveBitasset_holds :
    ⦃⌜I.Holds s.funds⌝⦄ s.reviveBitasset mia ⦃⇓? s' => ⌜I.Holds s'.funds⌝⦄ := by
  mvcgen [reviveBitasset, whenever]

@[spec] theorem executeBids_holds :
    ⦃⌜I.Holds s.funds⌝⦄ executeBids bad ids debt collateral s ⦃⇓? r => ⌜I.Holds r.2.2.funds⌝⦄ := by
  induction ids generalizing debt collateral s with
  | nil => mvcgen [executeBids]
  | cons id ids ih => mvcgen [executeBids, ih]

@[spec] theorem coverWithBids_holds :
    ⦃⌜I.Holds s.funds⌝⦄ s.coverWithBids bad ⦃⇓? s' => ⌜I.Holds s'.funds⌝⦄ := by
  mvcgen [coverWithBids]

@[spec] theorem processBids_holds :
    ⦃⌜I.Holds s.funds⌝⦄ s.processBids bad ⦃⇓? s' => ⌜I.Holds s'.funds⌝⦄ := by
  mvcgen [processBids]

end bids

/-! ## Evaluators of market operations -/

section evaluators

@[spec] theorem limitOrderCreate_holds {op : LimitOrderCreateOperation} (hamount : 0 ≤ amount) :
    ⦃⌜I.Holds s.funds⌝⦄ op.doApply amount s ⦃⇓? s' => ⌜I.Holds s'.funds⌝⦄ := by
  mvcgen [LimitOrderCreateOperation.doApply, LimitOrderCreateOperation.getPrice]
  · exact fun _ _ ↦ AccountStatistics.keepsPending_of_enterOrders
  · exact I.createLimitOrder hamount ‹_›

@[spec] theorem limitOrderCancel_holds {op : LimitOrderCancelOperation} :
    ⦃⌜I.Holds s.funds⌝⦄ op.doApply s ⦃⇓? s' => ⌜I.Holds s'.funds⌝⦄ := by
  mvcgen [LimitOrderCancelOperation.doApply]

section callOrderUpdate

variable {op : CallOrderUpdateOperation} {feed : PriceFeed}

open CallOrderUpdateOperation

@[spec] theorem applyDebt_holds : ⦃⌜I.Holds s.funds⌝⦄ op.applyDebt s ⦃⇓? s' => ⌜I.Holds s'.funds⌝⦄ := by
  mvcgen [applyDebt]
  exact fun _ _ _ ↦ AssetDynamicData.keepsFees_of_addSupply

@[spec] theorem applyCollateral_holds :
    ⦃⌜I.Holds s.funds⌝⦄ op.applyCollateral s ⦃⇓? s' => ⌜I.Holds s'.funds⌝⦄ := by
  mvcgen [applyCollateral]
  exact fun _ _ _ ↦ AccountStatistics.keepsPending_of_enterOrders

@[spec] theorem openCallOrder_holds :
    ⦃⌜I.Holds s.funds⌝⦄ op.openCallOrder feed s ⦃⇓? r => ⌜I.Holds r.2.funds⌝⦄ := by
  mvcgen [openCallOrder]

@[spec] theorem changeCallOrder_holds {call : CallOrderObject} :
    ⦃⌜I.Holds s.funds⌝⦄ op.changeCallOrder feed id call s ⦃⇓? r => ⌜I.Holds r.2.funds⌝⦄ := by
  mvcgen [changeCallOrder]

@[spec] theorem updateCallOrder_holds :
    ⦃⌜I.Holds s.funds⌝⦄ op.updateCallOrder feed s ⦃⇓? r => ⌜I.Holds r.2.funds⌝⦄ := by
  mvcgen [updateCallOrder]

@[spec] theorem checkMarginCall_holds :
    ⦃⌜I.Holds s.funds⌝⦄ op.checkMarginCall feed id s ⦃⇓? s' => ⌜I.Holds s'.funds⌝⦄ := by
  mvcgen [checkMarginCall]

@[spec] theorem settleCallOrder_holds {b : AssetBitassetData} :
    ⦃⌜I.Holds s.funds⌝⦄ op.settleCallOrder b id s ⦃⇓? s' => ⌜I.Holds s'.funds⌝⦄ := by
  mvcgen [settleCallOrder]

@[spec] theorem callOrderUpdate_holds :
    ⦃⌜I.Holds s.funds⌝⦄ op.doApply s ⦃⇓? s' => ⌜I.Holds s'.funds⌝⦄ := by
  mvcgen [CallOrderUpdateOperation.doApply, whenever]

end callOrderUpdate

section bidCollateral

variable {op : BidCollateralOperation}

open BidCollateralOperation

@[spec] theorem placeBid_holds : ⦃⌜I.Holds s.funds⌝⦄ op.placeBid s ⦃⇓? s' => ⌜I.Holds s'.funds⌝⦄ := by
  mvcgen [placeBid]

@[spec] theorem cancelOldBid_holds :
    ⦃⌜I.Holds s.funds⌝⦄ op.cancelOldBid s ⦃⇓? s' => ⌜I.Holds s'.funds⌝⦄ := by
  mvcgen [cancelOldBid]

@[spec] theorem bidCollateral_holds : ⦃⌜I.Holds s.funds⌝⦄ op.doApply s ⦃⇓? s' => ⌜I.Holds s'.funds⌝⦄ := by
  mvcgen [BidCollateralOperation.doApply]

end bidCollateral

/-! ## Evaluators of asset operations -/

open AssetUpdateOperation in
@[spec] theorem cancelSettlements_holds :
    ⦃⌜I.Holds s.funds⌝⦄ cancelSettlements ids s ⦃⇓? s' => ⌜I.Holds s'.funds⌝⦄ := by
  induction ids generalizing s with
  | nil => mvcgen [cancelSettlements]
  | cons id ids ih => mvcgen [cancelSettlements, ih]

theorem deferredFee_nonneg (hamount : 0 ≤ amount) : 0 ≤ MarketOperation.deferredFee amount s := by
  unfold MarketOperation.deferredFee
  split_ifs
  exacts [le_rfl, hamount]

/-- The fee pool of a new asset gets half of the fee. -/
theorem poolFee_nonneg (hamount : 0 ≤ amount) (hodd : Prop) [Decidable hodd] :
    0 ≤ AssetCreateOperation.poolFee amount - if amount % 2 = 1 ∧ hodd then 1 else 0 := by
  have hhalf : amount.tdiv 2 = amount / 2 := Int.tdiv_eq_ediv_of_nonneg hamount
  unfold AssetCreateOperation.poolFee
  rw [hhalf]
  split_ifs <;> omega

@[spec] theorem assetCreate_holds {op : AssetCreateOperation} (hamount : 0 ≤ amount) :
    ⦃⌜I.Holds s.funds⌝⦄ op.doApply amount s ⦃⇓? s' => ⌜I.Holds s'.funds⌝⦄ := by
  refine triple_iff.mpr fun hs s' h ↦ ?_
  simp only [AssetCreateOperation.doApply, Checked.bind_eq_ok, Checked.pure_eq_ok,
    checkedShare_eq_ok] at h
  obtain ⟨_, ⟨-, rfl⟩, t, ht, rfl⟩ := h
  have hpaid : I.Holds t.funds := by
    rcases whenever_eq_ok.mp ht with ⟨-, ht⟩ | ⟨-, rfl⟩
    · exact I.modifyDynamicData (fun _ _ ↦ AssetDynamicData.keepsFees_of_addSupply) hs ht
    · exact hs
  refine I.createAsset rfl (poolFee_nonneg hamount _) ?_ hpaid
  intro b hb mia
  obtain ⟨o, -, rfl⟩ := Option.map_eq_some_iff.mp hb
  exact ⟨by simp, Price.quotes_null⟩

@[spec] theorem assetUpdate_holds {op : AssetUpdateOperation} :
    ⦃⌜I.Holds s.funds⌝⦄ op.doApply s ⦃⇓? s' => ⌜I.Holds s'.funds⌝⦄ := by
  refine triple_iff.mpr fun hs s' h ↦ ?_
  simp only [AssetUpdateOperation.doApply, Checked.bind_eq_ok] at h
  obtain ⟨a, -, t, ht, h⟩ := h
  have hcancelled : I.Holds t.funds := by
    rcases whenever_eq_ok.mp ht with ⟨-, ht⟩ | ⟨-, rfl⟩
    · exact triple_iff.mp cancelSettlements_holds hs _ ht
    · exact hs
  refine I.modifyRest ?_ hcancelled h
  exact fun _ ↦ ⟨rfl, rfl⟩

@[spec] theorem assetUpdateFeedProducers_holds {op : AssetUpdateFeedProducersOperation} :
    ⦃⌜I.Holds s.funds⌝⦄ op.doApply s ⦃⇓? s' => ⌜I.Holds s'.funds⌝⦄ := by
  mvcgen [AssetUpdateFeedProducersOperation.doApply]
  rintro b _ ⟨⟩ mia h
  exact h.setFeedProducers.updateMedianFeeds

@[spec] theorem assetGlobalSettle_holds {op : AssetGlobalSettleOperation} :
    ⦃⌜I.Holds s.funds⌝⦄ op.doApply s ⦃⇓? s' => ⌜I.Holds s'.funds⌝⦄ := by
  mvcgen [AssetGlobalSettleOperation.doApply]

@[spec] theorem redeem_holds {op : AssetSettleOperation} {b : AssetBitassetData} :
    ⦃⌜I.Holds s.funds⌝⦄ op.redeem amount b s ⦃⇓? s' => ⌜I.Holds s'.funds⌝⦄ := by
  mvcgen [AssetSettleOperation.redeem]
  · simp only [Checked.bind_eq_ok, Checked.pure_eq_ok]
    rintro b _ ⟨_, -, rfl⟩ mia h
    exact { h with }
  · exact fun _ _ _ ↦ AssetDynamicData.keepsFees_of_subSupply

@[spec] theorem assetSettle_holds {op : AssetSettleOperation} :
    ⦃⌜I.Holds s.funds⌝⦄ op.doApply s ⦃⇓? s' => ⌜I.Holds s'.funds⌝⦄ := by
  mvcgen [AssetSettleOperation.doApply]

@[spec] theorem assetIssue_holds {op : AssetIssueOperation} :
    ⦃⌜I.Holds s.funds⌝⦄ op.doApply s ⦃⇓? s' => ⌜I.Holds s'.funds⌝⦄ := by
  mvcgen [AssetIssueOperation.doApply]
  exact fun _ _ _ ↦ AssetDynamicData.keepsFees_of_addSupply

@[spec] theorem assetReserve_holds {op : AssetReserveOperation} :
    ⦃⌜I.Holds s.funds⌝⦄ op.doApply s ⦃⇓? s' => ⌜I.Holds s'.funds⌝⦄ := by
  mvcgen [AssetReserveOperation.doApply]
  exact fun _ _ _ ↦ AssetDynamicData.keepsFees_of_subSupply

@[spec] theorem assetFundFeePool_holds {op : AssetFundFeePoolOperation} (hamount : 0 ≤ op.amount) :
    ⦃⌜I.Holds s.funds⌝⦄ op.doApply s ⦃⇓? s' => ⌜I.Holds s'.funds⌝⦄ := by
  mvcgen [AssetFundFeePoolOperation.doApply]
  simp only [Checked.bind_eq_ok, Checked.pure_eq_ok, checkedShare_eq_ok]
  rintro - d _ ⟨_, ⟨-, rfl⟩, rfl⟩ ⟨haccumulated, hpool⟩
  exact ⟨haccumulated, add_nonneg hpool hamount⟩

@[spec] theorem assetClaimFees_holds {op : AssetClaimFeesOperation} :
    ⦃⌜I.Holds s.funds⌝⦄ op.doApply s ⦃⇓? s' => ⌜I.Holds s'.funds⌝⦄ := by
  mvcgen [AssetClaimFeesOperation.doApply]
  simp only [Checked.bind_eq_ok, Checked.pure_eq_ok, checkedShare_eq_ok, require_eq_ok]
  rintro d _ ⟨-, hle, _, ⟨-, rfl⟩, rfl⟩ ⟨-, hpool⟩
  exact ⟨sub_nonneg.mpr hle, hpool⟩

@[spec] theorem fundCollateralizes_any {supply : ℤ} {b : AssetBitassetData} :
    ⦃⌜True⌝⦄ AssetPublishFeedOperation.fundCollateralizes mia supply b ⦃⇓? _ => ⌜True⌝⦄ :=
  triple_any _

@[spec] theorem reviveIfCollateralized_holds {op : AssetPublishFeedOperation}
    {b : AssetBitassetData} :
    ⦃⌜I.Holds s.funds⌝⦄ op.reviveIfCollateralized b s ⦃⇓? s' => ⌜I.Holds s'.funds⌝⦄ := by
  mvcgen [AssetPublishFeedOperation.reviveIfCollateralized, whenever]

@[spec] theorem transfer_any {op : Transfer.TransferOperation} {d : Transfer.TransferDatabase} :
    ⦃⌜True⌝⦄ op.doApply d ⦃⇓? _ => ⌜True⌝⦄ := triple_any _

end evaluators

/-! ## Passes -/

section passes

variable {n : ℤ}

@[spec] theorem settleOrder_holds {maxVolume settled : ℤ} {calls : List ℕ} :
    ⦃⌜I.Holds s.funds⌝⦄
    settleOrder mia id price maxVolume calls settled s
    ⦃⇓? r => ⌜I.Holds r.2.funds⌝⦄ := by
  induction calls generalizing settled s with
  | nil =>
      rw [settleOrder]
      mvcgen
  | cons call calls ih =>
      refine triple_iff.mpr fun hs r h ↦ ?_
      rw [settleOrder] at h
      split at h
      · obtain rfl := Except.ok.inj h
        exact hs
      · split_ifs at h with hroom hamount
        · simp only [Checked.bind_eq_ok] at h
          obtain ⟨t, ht, h⟩ := h
          obtain rfl := Checked.pure_eq_ok.mp h
          exact triple_iff.mp cancelSettlement_holds hs _ ht
        · dsimp only at h
          split at h
          · next amount t ht =>
              simp only [Checked.bind_eq_ok] at h
              obtain ⟨_, -, h⟩ := h
              exact triple_iff.mp ih (triple_iff.mp matchSettlement_holds hs _ ht) _ h
          · simp only [Checked.bind_eq_ok] at h
            obtain ⟨t, ht, h⟩ := h
            obtain rfl := Checked.pure_eq_ok.mp h
            exact triple_iff.mp cancelSettlement_holds hs _ ht
          · cases h
        · obtain rfl := Except.ok.inj h
          exact hs

@[spec] theorem settleDue_holds {order : ForceSettlementObject} {b : AssetBitassetData} :
    ⦃⌜I.Holds s.funds⌝⦄ s.settleDue mia id order b n ⦃⇓? s' => ⌜I.Holds s'.funds⌝⦄ := by
  mvcgen [settleDue, whenever]
  rintro - b _ ⟨⟩ mia h
  exact { h with }

@[spec] theorem volumeFor_any {asset : AssetObject} {b : AssetBitassetData} {known : Asset} :
    ⦃⌜True⌝⦄ volumeFor mia asset b known ⦃⇓? _ => ⌜True⌝⦄ := triple_any _

@[spec] theorem clearSettlement_holds {known : Asset} :
    ⦃⌜I.Holds s.funds⌝⦄ s.clearSettlement mia id known ⦃⇓? r => ⌜I.Holds r.2.2.funds⌝⦄ := by
  mvcgen [clearSettlement]

@[spec] theorem clearSettlements_holds {fuel : ℕ} {current : AssetId} {known : Asset} :
    ⦃⌜I.Holds s.funds⌝⦄ clearSettlements fuel current known s ⦃⇓? s' => ⌜I.Holds s'.funds⌝⦄ := by
  induction fuel generalizing current known s with
  | zero => mvcgen [clearSettlements]
  | succ fuel ih => mvcgen [clearSettlements, ih]

@[spec] theorem clearDueSettlements_holds :
    ⦃⌜I.Holds s.funds⌝⦄ s.clearDueSettlements ⦃⇓? s' => ⌜I.Holds s'.funds⌝⦄ := by
  mvcgen [clearDueSettlements]

@[spec] theorem refreshFeed_holds :
    ⦃⌜I.Holds s.funds⌝⦄ s.refreshFeed mia ⦃⇓? s' => ⌜I.Holds s'.funds⌝⦄ := by
  mvcgen [refreshFeed]
  rintro b _ ⟨⟩ mia h
  exact h.updateMedianFeeds

@[spec] theorem adoptExchangeRate_holds :
    ⦃⌜I.Holds s.funds⌝⦄ s.adoptExchangeRate mia ⦃⇓? s' => ⌜I.Holds s'.funds⌝⦄ := by
  refine triple_iff.mpr fun hs s' h ↦ ?_
  simp only [adoptExchangeRate, Checked.bind_eq_ok] at h
  obtain ⟨a, -, b, -, h⟩ := h
  rcases whenever_eq_ok.mp h with ⟨-, h⟩ | ⟨-, rfl⟩
  · refine I.modifyRest ?_ hs h
    exact fun _ ↦ ⟨rfl, rfl⟩
  · exact hs

@[spec] theorem updateExpiredFeed_holds :
    ⦃⌜I.Holds s.funds⌝⦄ s.updateExpiredFeed mia ⦃⇓? s' => ⌜I.Holds s'.funds⌝⦄ := by
  mvcgen [updateExpiredFeed, whenever]

@[spec] theorem updateFeeds_holds :
    ⦃⌜I.Holds s.funds⌝⦄ updateFeeds ids s ⦃⇓? s' => ⌜I.Holds s'.funds⌝⦄ := by
  induction ids generalizing s with
  | nil => mvcgen [updateFeeds]
  | cons id ids ih => mvcgen [updateFeeds, ih]

@[spec] theorem toUint64_any {x : ℤ} : ⦃⌜True⌝⦄ toUint64 x ⦃⇓? _ => ⌜True⌝⦄ := triple_any _

@[spec] theorem clearFba_holds :
    ⦃⌜I.Holds s.funds⌝⦄ s.clearFba id ⦃⇓? s' => ⌜I.Holds s'.funds⌝⦄ := by
  mvcgen [clearFba]
  exact I.setFbaAccumulator le_rfl ‹_›

@[spec] theorem distributeFba_holds {buybackPct issuerPct : ℕ} :
    ⦃⌜I.Holds s.funds⌝⦄ s.distributeFba n buybackPct issuerPct mia ⦃⇓? s' => ⌜I.Holds s'.funds⌝⦄ := by
  mvcgen [distributeFba, whenever]
  exact fun _ _ ↦ AssetDynamicData.keepsFees_of_subSupply

@[spec] theorem splitFbaBalance_holds {networkPct buybackPct issuerPct : ℕ} :
    ⦃⌜I.Holds s.funds⌝⦄
    s.splitFbaBalance id networkPct buybackPct issuerPct
    ⦃⇓? s' => ⌜I.Holds s'.funds⌝⦄ := by
  mvcgen [splitFbaBalance]
  exact fun _ _ ↦ AssetDynamicData.keepsFees_of_subSupply

@[spec] theorem distributeFbaBalances_holds :
    ⦃⌜I.Holds s.funds⌝⦄ s.distributeFbaBalances ⦃⇓? s' => ⌜I.Holds s'.funds⌝⦄ := by
  mvcgen [distributeFbaBalances]

@[spec] theorem renewBitasset_holds :
    ⦃⌜I.Holds s.funds⌝⦄ s.renewBitasset mia ⦃⇓? s' => ⌜I.Holds s'.funds⌝⦄ := by
  mvcgen [renewBitasset, whenever]
  rintro b _ ⟨⟩ mia h
  exact { h with }

@[spec] theorem renewBitassets_holds :
    ⦃⌜I.Holds s.funds⌝⦄ renewBitassets ids s ⦃⇓? s' => ⌜I.Holds s'.funds⌝⦄ := by
  induction ids generalizing s with
  | nil => mvcgen [renewBitassets]
  | cons id ids ih => mvcgen [renewBitassets, ih]

theorem updateMaintenanceTime_holds (hs : I.Holds s.funds) :
    I.Holds s.updateMaintenanceTime.funds := by
  unfold updateMaintenanceTime
  split_ifs <;> exact hs

end passes

end MarketState

end KarmaCore.Market
