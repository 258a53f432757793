import Mathlib
import KarmaCore.Market.SettlementPass
import KarmaCore.Market.SupplyRun

/-!
# The first call order of an asset

A global settlement and the pass over the force settlements read the call order
at `lower_bound( price::min )` and take it for one of their asset.  It is one
unless the asset has no positions or all of them are below the bound.
-/

namespace KarmaCore.Market

open Transfer (get get_eq_ok)
open ObjectIndex

/-! ## Prices by their pairs -/

namespace Price

variable {p q : Price}

def pair (p : Price) : AssetId ×ₗ AssetId := toLex (p.base.assetId, p.quote.assetId)

theorem lt_of_pair_lt (h : p.pair < q.pair) : p.Lt q := by
  rw [pair, pair, Prod.Lex.toLex_lt_toLex] at h
  rcases h with hbase | ⟨hbase, hquote⟩
  · exact .inl hbase
  · exact .inr ⟨hbase, .inl hquote⟩

theorem Lt.pair_le (h : p.Lt q) : p.pair ≤ q.pair := by
  rw [pair, pair, Prod.Lex.toLex_le_toLex]
  rcases h with hbase | ⟨hbase, hquote | ⟨hquote, -⟩⟩
  · exact .inl hbase
  · exact .inr ⟨hbase, hquote.le⟩
  · exact .inr ⟨hbase, hquote.le⟩

theorem pair_le_of_not_lt (h : ¬q.Lt p) : p.pair ≤ q.pair :=
  not_lt.mp fun hlt ↦ h (lt_of_pair_lt hlt)

theorem lowest_eq_ok {base quote : AssetId} :
    lowest base quote = .ok p ↔ base ≠ quote ∧ ⟨⟨1, base⟩, ⟨maxShareSupply, quote⟩⟩ = p := per_eq_ok

end Price

namespace MarketState

variable {s s' start : MarketState} {mia backing : AssetId} {lowest : Price}

/-! ## The bound -/

/-- What is at `lower_bound(lowest)` of the index by collateral is a call order in the asset. -/
def FindsCall (lowest : Price) (mia : AssetId) (s : MarketState) : Prop :=
  ∃ call c, (s.callsByCollateral lowest).head? = some (call, c) ∧ c.debtType = mia

/-- Every position in the asset has less collateral for its debt than the bound. -/
def AllBelow (lowest : Price) (mia : AssetId) (s : MarketState) : Prop :=
  ∀ id c, s.callOrders.find id = some c → c.debtType = mia → (ratio c).Lt lowest

/-- A position is below `price::min` when it owes more than the largest supply for each share of
its collateral. -/
theorem ratio_lt_lowest_iff {c : CallOrderObject} (hc : (ratio c).Comparable)
    (hbacking : c.collateralType = backing) (hmia : c.debtType = mia)
    (hlowest : Price.lowest backing mia = .ok lowest) :
    (ratio c).Lt lowest ↔ c.collateral * maxShareSupply < c.debt := by
  obtain ⟨-, rfl⟩ := Price.lowest_eq_ok.mp hlowest
  have hbound : Price.Comparable ⟨⟨1, backing⟩, ⟨maxShareSupply, mia⟩⟩ :=
    ⟨zero_le_one, (by decide : (1 : ℤ) < shareEnd), (by decide : 0 < maxShareSupply),
      maxShareSupply_lt⟩
  obtain ⟨hleft, hright⟩ := hc.products_eq hbound
  rw [Price.Lt, hleft, hright]
  simp only [ratio, CallOrderObject.getCollateral, CallOrderObject.getDebt, hbacking, hmia,
    lt_self_iff_false, false_or, true_and, one_mul]

/-- The index by collateral is sorted by the assets of a position first. -/
theorem pairs_callsByCollateral (lowest : Price) (s : MarketState) :
    (s.callsByCollateral lowest).Pairwise fun o o' ↦ (ratio o.2).pair ≤ (ratio o'.2).pair := by
  let key : ℕ × CallOrderObject → AssetId ×ₗ AssetId := fun o ↦ (ratio o.2).pair
  change (s.callsByCollateral lowest).Pairwise fun o o' ↦ key o ≤ key o'
  apply keys_insertionSort
  · intro o o' hnot
    exact Price.pair_le_of_not_lt hnot
  · intro o o' hlt
    exact Price.Lt.pair_le (not_not.mp hlt)

/-- The bound is the first price of its pair, so that the first call order from there on is in
the asset as soon as one is. -/
theorem findsCall_iff (hlowest : Price.lowest backing mia = .ok lowest)
    (hcalls : ∀ id c, s.callOrders.find id = some c → c.debtType = mia → c.collateralType = backing) :
    s.FindsCall lowest mia ↔ ¬s.AllBelow lowest mia := by
  constructor
  · rintro ⟨call, c, hhead, hmia⟩ hbelow
    obtain ⟨hc, hrange⟩ := mem_select.mp (List.mem_of_mem_head? (Option.mem_def.mpr hhead))
    exact hrange (hbelow call c hc hmia)
  · intro hnot
    simp only [AllBelow, not_forall] at hnot
    obtain ⟨id, c, hc, hmia, hrange⟩ := hnot
    have hmem : (id, c) ∈ s.callsByCollateral lowest := mem_select.mpr ⟨hc, hrange⟩
    obtain ⟨first, rest, hlist⟩ := List.exists_cons_of_ne_nil (List.ne_nil_of_mem hmem)
    have hsorted := s.pairs_callsByCollateral lowest
    have hfirst : first ∈ s.callsByCollateral lowest := hlist ▸ List.mem_cons_self
    refine ⟨first.1, first.2, by rw [hlist, List.head?_cons], ?_⟩
    obtain ⟨-, rfl⟩ := Price.lowest_eq_ok.mp hlowest
    have hbound := Price.pair_le_of_not_lt (mem_select.mp hfirst).2
    have hle : (ratio first.2).pair ≤ (ratio c).pair := by
      rw [hlist] at hmem hsorted
      rcases List.mem_cons.mp hmem with heq | hmem
      · rw [← heq]
      · exact (List.pairwise_cons.mp hsorted).1 _ hmem
    have hpair : (ratio c).pair = toLex (backing, mia) := by
      rw [← hcalls id c hc hmia, ← hmia]
      rfl
    have hsame : (ratio first.2).pair = toLex (backing, mia) := le_antisymm (hle.trans hpair.le) hbound
    exact congrArg (fun p ↦ (ofLex p).2) hsame

/-- The positions in an asset have its backing as collateral. -/
theorem Sound.collateralType_eq (hs : s.AllSound) {a : AssetObject} {b : AssetBitassetData}
    (ha : s.assets.find mia = some a) (hb : a.bitassetData = some b) {id : ℕ} {c : CallOrderObject}
    (hc : s.callOrders.find id = some c) (hmia : c.debtType = mia) :
    c.collateralType = b.options.shortBackingAsset := by
  obtain ⟨a', b', ha', hb', hbacking⟩ := (hs.callOrders id c hc).backing
  rw [hmia, ha] at ha'
  obtain rfl := Option.some.inj ha'
  obtain rfl := Option.some.inj (hb.symm.trans hb')
  exact hbacking.symm

theorem Sound.findsCall_iff (hs : s.AllSound) {a : AssetObject} {b : AssetBitassetData}
    (ha : s.assets.find mia = some a) (hb : a.bitassetData = some b)
    (hlowest : Price.lowest b.options.shortBackingAsset mia = .ok lowest) :
    s.FindsCall lowest mia ↔ ¬s.AllBelow lowest mia :=
  MarketState.findsCall_iff hlowest fun _ _ hc hmia ↦ hs.collateralType_eq ha hb hc hmia

theorem hasCallOrders_of_totalDebt (h : 0 < s.totalDebt mia) : s.HasCallOrders mia := by
  by_contra hnone
  refine h.ne' (total_eq_zero fun id c hc ↦ if_neg fun hmia ↦ ?_)
  exact hnone ⟨id, c, hc, hmia⟩

end MarketState

/-! ## A global settlement -/

namespace AssetGlobalSettleOperation

variable {op : AssetGlobalSettleOperation} {s : MarketState} {a : AssetObject}
  {b : AssetBitassetData} {lowest : Price}

/-- The checks that come before the call order is read. -/
structure ReadsCall (op : AssetGlobalSettleOperation) (s : MarketState) (a : AssetObject)
    (b : AssetBitassetData) (lowest : Price) : Prop where
  find : s.assets.find op.assetToSettle = some a
  isMarketIssued : a.isMarketIssued
  canGlobalSettle : a.canGlobalSettle
  issuer : a.issuer = op.issuer
  currentSupply : 0 < a.dynamicData.currentSupply
  bitassetData : a.bitassetData = some b
  lowest : Price.lowest b.options.shortBackingAsset op.assetToSettle = .ok lowest

/-- Past these checks the evaluator compares the position at the bound with the price. -/
theorem ReadsCall.doEvaluate_eq (h : op.ReadsCall s a b lowest) : op.doEvaluate s = (do
    let least ← deref (s.callsByCollateral lowest).head?
    let pays ← times least.2.getDebt op.settlePrice
    let backed ← pays.le least.2.getCollateral
    require (backed = true) ("Cannot force settle at supplied price: " ++
      "least collateralized short lacks sufficient collateral to settle.")) := by
  have hasset : get (s.assets.find op.assetToSettle) = .ok a := get_eq_ok.mpr h.find
  have hdata : a.getBitassetData = .ok b := MarketState.getBitassetData_eq_ok.mpr h.bitassetData
  simp only [doEvaluate, hasset, hdata, h.lowest, require, if_pos h.isMarketIssued,
    if_pos h.canGlobalSettle, if_pos h.issuer, if_pos h.currentSupply, bind, Except.bind]

end AssetGlobalSettleOperation

/-! ## The pass over the force settlements -/

/-- Where the loop that settles one order stands. -/
structure SettleHead where
  calls : List ℕ
  settled : ℤ
  market : MarketState

namespace SettleHead

open MarketState

variable {mia : AssetId} {id : ℕ} {price : Price} {maxVolume : ℤ} {p p' : SettleHead}

/-- The order is matched with the first call order, and the loop goes on. -/
def Turns (mia : AssetId) (id : ℕ) (price : Price) (maxVolume : ℤ) (p p' : SettleHead) : Prop :=
  ∃ order call amount, p.market.forceSettlements.find id = some order ∧ p.settled < maxVolume ∧
    p.calls = call :: p'.calls ∧ order.balance.amount ≠ 0 ∧
    p.market.matchSettlement call id price ⟨maxVolume - p.settled, mia⟩ = .ok (amount, p'.market) ∧
    checkedShare (p.settled + amount.amount) = .ok p'.settled

/-- The loop is the iteration of its turns. -/
theorem settleOrder_of_turns (h : Turns mia id price maxVolume p p') :
    settleOrder mia id price maxVolume p.calls p.settled p.market =
      settleOrder mia id price maxVolume p'.calls p'.settled p'.market := by
  obtain ⟨order, call, amount, horder, hroom, hcalls, hbalance, hmatch, hsettled⟩ := h
  rw [hcalls, settleOrder]
  simp only [horder, if_pos hroom, if_neg hbalance, hmatch, hsettled, bind, Except.bind]

theorem trade_of_turns (hs : p.market.AllSound) (h : Turns mia id price maxVolume p p') :
    Trade 0 p.market p'.market := by
  obtain ⟨order, call, amount, -, hroom, -, -, hmatch, -⟩ := h
  exact trade_of_matchSettlement hs (sub_nonneg.mpr hroom.le) hmatch

theorem trade_of_run (hs : p.market.AllSound)
    (h : Relation.ReflTransGen (Turns mia id price maxVolume) p p') :
    Trade 0 p.market p'.market := by
  induction h with
  | refl => exact .refl _
  | tail _ hturn ih =>
      exact (ih.trans (trade_of_turns (hs.of_frame ih.frame) hturn)).congr (add_zero 0)

end SettleHead

namespace PassHead

open MarketState

variable {h h' : PassHead}

/-- The pass settles the order it has come to. -/
structure Settles (h : PassHead) (id : ℕ) (o : ForceSettlementObject) (a : AssetObject)
    (b : AssetBitassetData) (volume : Asset) (price lowest : Price) : Prop where
  firstSettlement : h.market.firstSettlement h.current = some (id, o)
  find : h.market.assets.find o.balance.assetId = some a
  bitassetData : a.bitassetData = some b
  notSettled : ¬b.HasSettlement
  settlementDate : o.settlementDate ≤ h.market.headBlockTime
  feed : ¬b.currentFeed.settlementPrice.IsNull
  volumeFor : volumeFor o.balance.assetId a b h.known = .ok volume
  room : b.forceSettledVolume < volume.amount
  price : ∃ value, times o.balance b.currentFeed.settlementPrice = .ok value ∧
    per o.balance ⟨mul128 value.amount (percent100 - b.options.forceSettlementOffsetPercent : ℕ) /
      percent100, value.assetId⟩ = .ok price
  lowest : Price.lowest b.options.shortBackingAsset o.balance.assetId = .ok lowest

/-- The state in which the loop begins. -/
def settleHead (h : PassHead) (b : AssetBitassetData) (lowest : Price) : SettleHead :=
  ⟨(h.market.callsByCollateral lowest).map Prod.fst, b.forceSettledVolume, h.market⟩

/-- What the turn does with such an order. -/
theorem Settles.clearSettlement_eq {id : ℕ} {o : ForceSettlementObject} {a : AssetObject}
    {b : AssetBitassetData} {volume : Asset} {price lowest : Price}
    (hsettles : h.Settles id o a b volume price lowest) :
    h.market.clearSettlement o.balance.assetId id h.known = (do
      let start := h.settleHead b lowest
      let (settled, s) ← start.market.settleOrder o.balance.assetId id price volume.amount
        start.calls start.settled
      let s ← whenever (b.forceSettledVolume ≠ settled) (modifyBitassetData o.balance.assetId
        fun b ↦ .ok { b with forceSettledVolume := settled }) s
      return (true, volume, s)) := by
  obtain ⟨ho, -⟩ := find_of_firstSettlement hsettles.firstSettlement
  obtain ⟨value, hvalue, hprice⟩ := hsettles.price
  have horder : deref (h.market.forceSettlements.find id) = .ok o := deref_eq_ok.mpr ho
  have hasset : get (h.market.assets.find o.balance.assetId) = .ok a := get_eq_ok.mpr hsettles.find
  have hdata : a.getBitassetData = .ok b := getBitassetData_eq_ok.mpr hsettles.bitassetData
  simp only [clearSettlement, horder, hasset, hdata, if_neg hsettles.notSettled,
    if_neg (not_lt.mpr hsettles.settlementDate), if_neg hsettles.feed, hsettles.volumeFor,
    if_neg (not_le.mpr hsettles.room), settleDue, hvalue, hprice, hsettles.lowest, settleHead, bind,
    Except.bind]
  cases settleOrder o.balance.assetId id price volume.amount
    ((h.market.callsByCollateral lowest).map Prod.fst) b.forceSettledVolume h.market <;> rfl

theorem sound_of_turns (hs : h.market.AllSound) (hturns : Turns h h') : h'.market.AllSound := by
  unfold Turns turn at hturns
  split at hturns
  · cases hturns
  · next id o hfirst =>
      simp only [Checked.bind_eq_ok] at hturns
      obtain ⟨⟨goOn, known, s⟩, hclear, hturns⟩ := hturns
      have hcleared := adds_of_clearSettlement hs hclear
      split_ifs at hturns
      · obtain rfl := Option.some.inj (Checked.pure_eq_ok.mp hturns)
        exact hcleared.sound
      · obtain ⟨next, -, rfl⟩ := Option.map_eq_some_iff.mp (Checked.pure_eq_ok.mp hturns)
        exact hcleared.sound

theorem sound_of_run (hs : h.market.AllSound) (hrun : Relation.ReflTransGen Turns h h') :
    h'.market.AllSound := by
  induction hrun with
  | refl => exact hs
  | tail _ hturns ih => exact sound_of_turns ih hturns

end PassHead

/-! ## Along a run -/

namespace MarketState

variable {start s : MarketState}

/-- In every state of the loop the positions in the asset bear its supply. -/
theorem findsCall_of_settles {h : PassHead} {id : ℕ} {o : ForceSettlementObject} {a : AssetObject}
    {b : AssetBitassetData} {volume : Asset} {price lowest : Price} {p : SettleHead}
    (hs : h.market.AllSound) (hsettles : h.Settles id o a b volume price lowest)
    (hrun : Relation.ReflTransGen (SettleHead.Turns o.balance.assetId id price volume.amount)
      (h.settleHead b lowest) p) :
    p.market.totalDebt o.balance.assetId = p.market.currentSupply o.balance.assetId ∧
      (p.market.FindsCall lowest o.balance.assetId ↔
        ¬p.market.AllBelow lowest o.balance.assetId) := by
  have hframe : h.market.Frame p.market :=
    (SettleHead.trade_of_run (p := h.settleHead b lowest) hs hrun).frame
  have hsound := hs.of_frame hframe
  obtain ⟨a', ha', hterms⟩ := hframe.find_asset' hsettles.find
  have hb' : a'.bitassetData = some b :=
    (AssetObject.bitassetData_of_terms hterms).trans hsettles.bitassetData
  refine ⟨?_, hsound.findsCall_iff ha' hb' hsettles.lowest⟩
  rw [currentSupply_of_find ha']
  exact (hsound.bitassets _ a' b not_false ha' hb').debt hsettles.notSettled

/-- The borrower asks for forty, and a day passes. -/
def agedMarket : MarketState :=
  step (fun _ ↦ 0) (step (fun _ ↦ 0) borrowedMarket
    (.operation (.assetSettle partSettle) (by decide))) (.nextBlock 86400)

theorem reaches_agedMarket : Run.Reaches (step fun _ ↦ 0) (fun _ _ ↦ True) firstMarket agedMarket :=
  .next _ (.next _ reaches_borrowedMarket trivial) trivial

/-- `price::min` of the borrowed asset. -/
def lowestBorrowed : Price := ⟨⟨1, 1⟩, ⟨maxShareSupply, 2⟩⟩

theorem readsCall_borrowedMarket : ∃ a b,
    evenSettle.ReadsCall borrowedMarket a b lowestBorrowed ∧ ¬b.HasSettlement :=
  ⟨(borrowedMarket.assets.find 2).get (by decide +kernel),
    ((borrowedMarket.assets.find 2).get (by decide +kernel)).bitassetData.get (by decide +kernel),
    { find := (Option.some_get _).symm
      isMarketIssued := by decide +kernel
      canGlobalSettle := by decide +kernel
      issuer := by decide +kernel
      currentSupply := by decide +kernel
      bitassetData := (Option.some_get _).symm
      lowest := by rw [Price.lowest_eq_ok]; decide +kernel }, by decide +kernel⟩

theorem settles_agedMarket : ∃ first, agedMarket.firstSettlement 0 = some first ∧
    first.2.balance.assetId = 2 ∧ ∃ a b volume price,
      PassHead.Settles ⟨first.2.balance.assetId, ⟨0, coreAsset⟩, agedMarket⟩ first.1 first.2 a b volume
        price lowestBorrowed := by
  refine ⟨(agedMarket.firstSettlement 0).get (by decide +kernel), (Option.some_get _).symm,
    by decide +kernel, (agedMarket.assets.find 2).get (by decide +kernel),
    ((agedMarket.assets.find 2).get (by decide +kernel)).bitassetData.get (by decide +kernel),
    ⟨20, 2⟩, ⟨⟨40, 2⟩, ⟨40, 1⟩⟩, ?_⟩
  exact {
    firstSettlement := by decide +kernel
    find := (congrArg agedMarket.assets.find (by decide +kernel)).trans (Option.some_get _).symm
    bitassetData := (Option.some_get _).symm
    notSettled := by decide +kernel
    settlementDate := by decide +kernel
    feed := by decide +kernel
    volumeFor := by decide +kernel
    room := by decide +kernel
    price := ⟨⟨40, 1⟩, by decide +kernel, by decide +kernel⟩
    lowest := by decide +kernel }

theorem not_allBelow_borrowedMarket : ¬borrowedMarket.AllBelow lowestBorrowed 2 := fun hbelow ↦
  absurd (hbelow 0 ((borrowedMarket.callOrders.find 0).get (by decide +kernel))
    (Option.some_get _).symm (by decide +kernel)) (by decide +kernel)

theorem not_allBelow_agedMarket : ¬agedMarket.AllBelow lowestBorrowed 2 := fun hbelow ↦
  absurd (hbelow 0 ((agedMarket.callOrders.find 0).get (by decide +kernel))
    (Option.some_get _).symm (by decide +kernel)) (by decide +kernel)

end MarketState

end KarmaCore.Market
