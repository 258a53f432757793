import Mathlib
import KarmaCore.Market.CallPrice
import KarmaCore.Market.GlobalSettlement

/-!
# Revivals keep the market sound

A bid that is executed turns its collateral and a part of the settlement fund
into the collateral of a new position.  Once the bids, or the issuer in their
place, took over the whole supply, the asset is no longer settled.
-/

namespace KarmaCore.Market

open Transfer (get get_eq_ok)
open Books ObjectIndex

namespace MarketState

variable {s s' : MarketState} {mia : AssetId} {inHand : AssetId → Prop}

/-! ## Executing a bid -/

theorem createCallOrder_eq_ok {c : CallOrderObject} (h : s.createCallOrder c = .ok s') :
    s' = { s with callOrders := s.callOrders.create c } := by
  simp only [createCallOrder, Checked.bind_eq_ok, Checked.pure_eq_ok] at h
  obtain ⟨-, -, rfl⟩ := h
  rfl

theorem executeBid_cases {id : ℕ} {debt fromFund : ℤ} {feed : PriceFeed}
    (h : s.executeBid id debt fromFund feed = .ok s') : ∃ bid p t,
      s.collateralBids.find id = some bid ∧
      InShareRange (bid.invSwanPrice.base.amount + fromFund) ∧
      Price.callPrice ⟨debt, bid.debtType⟩
        ⟨bid.invSwanPrice.base.amount + fromFund, bid.invSwanPrice.base.assetId⟩
        feed.maintenanceCollateralRatio = .ok p ∧
      Payment (inOrders bid.bidder bid.invSwanPrice.base.assetId
        (bid.invSwanPrice.base.amount + fromFund)) { s with
          callOrders := s.callOrders.create
            ⟨bid.bidder, bid.invSwanPrice.base.amount + fromFund, debt, p⟩ } t ∧
      s' = { t with collateralBids := t.collateralBids.remove id } := by
  simp only [executeBid, Checked.bind_eq_ok, Checked.pure_eq_ok, deref_eq_ok,
    checkedShare_eq_ok] at h
  obtain ⟨bid, hbid, _, ⟨hrange, rfl⟩, p, hp, s₁, hcreate, s₂, hstats, rfl⟩ := h
  obtain rfl := createCallOrder_eq_ok hcreate
  refine ⟨bid, p, s₂, hbid, hrange, hp, ?_, rfl⟩
  refine payment_of_whenever (fun s' hcore h ↦ ?_) (fun hcore ↦ ?_) hstats
  · exact payment_of_modifyStatistics (fun _ _ hb ↦ AccountStatistics.enterOrders_books _ hb) h
  · rw [inOrders_of_ne hcore, AddMonoidHom.zero_apply]

/-- What is known once bids took over some debt of an asset in hand. -/
structure Taken (mia backing : AssetId) (debt collateral : ℤ) (s s' : MarketState) : Prop where
  books : s'.books = s.books + held backing collateral
  sound : s'.Sound (· = mia)
  totalDebt : s'.totalDebt mia = s.totalDebt mia + debt
  headBlockTime : s'.headBlockTime = s.headBlockTime
  limitOrders : s'.limitOrders = s.limitOrders
  accounts : ∀ id, (s.accounts.find id).isSome → (s'.accounts.find id).isSome
  assets : ∀ a, s.assets.find mia = some a → a.isMarketIssued → ∃ a', s'.assets.find mia = some a' ∧
    a'.bitassetData = a.bitassetData ∧ a'.dynamicData.currentSupply = a.dynamicData.currentSupply

theorem Taken.refl (hs : s.Sound (· = mia)) (backing : AssetId) : Taken mia backing 0 0 s s where
  books := by simp
  sound := hs
  totalDebt := (add_zero _).symm
  headBlockTime := rfl
  limitOrders := rfl
  accounts _ := id
  assets a ha _ := ⟨a, ha, rfl, rfl⟩

theorem Taken.trans {s'' : MarketState} {backing : AssetId} {debt debt' collateral collateral' : ℤ}
    (h : Taken mia backing debt collateral s s') (h' : Taken mia backing debt' collateral' s' s'') :
    Taken mia backing (debt + debt') (collateral + collateral') s s'' where
  books := by rw [h'.books, h.books, map_add, add_assoc]
  sound := h'.sound
  totalDebt := by rw [h'.totalDebt, h.totalDebt, add_assoc]
  headBlockTime := h'.headBlockTime.trans h.headBlockTime
  limitOrders := h'.limitOrders.trans h.limitOrders
  accounts id := h'.accounts id ∘ h.accounts id
  assets a ha hmarket := by
    obtain ⟨a', ha', hb', hsupply'⟩ := h.assets a ha hmarket
    have hmarket' : a'.isMarketIssued := by rwa [AssetObject.isMarketIssued, hb']
    obtain ⟨a'', ha'', hb'', hsupply''⟩ := h'.assets a' ha' hmarket'
    exact ⟨a'', ha'', hb''.trans hb', hsupply''.trans hsupply'⟩

/-- A new position in an asset in hand leaves a sound state sound. -/
theorem Sound.createCallOrder (hs : s.Sound inHand) {c : CallOrderObject} (hc : c.Sound s.assets)
    (hhand : inHand c.debtType) :
    ({ s with callOrders := s.callOrders.create c } : MarketState).Sound inHand := by
  refine hs.setCallOrders (fun id c' hc' ↦ ?_) fun mia hmia ↦ ⟨?_, ?_⟩
  · rw [find_create] at hc'
    split_ifs at hc'
    · exact Option.some.inj hc' ▸ hc
    · exact hs.callOrders id c' hc'
  · rw [total_create, CallOrderObject.part_getDebt, if_neg (by rintro rfl; exact hmia hhand),
      add_zero, totalDebt]
  · rintro ⟨id, c', hc', rfl⟩
    rw [find_create] at hc'
    split_ifs at hc'
    · obtain rfl := Option.some.inj hc'
      exact absurd hhand hmia
    · exact ⟨id, c', hc', rfl⟩

/-- A bid whose debt and collateral are positive takes them over. -/
theorem taken_of_executeBid {id : ℕ} {debt fromFund : ℤ} {feed : PriceFeed} {a : AssetObject}
    {b : AssetBitassetData} (hs : s.Sound (· = mia)) (ha : s.assets.find mia = some a)
    (hb : a.bitassetData = some b) (hfeed : feed.RatiosSound) (hdebt : 0 < debt)
    (hdebt' : debt < shareEnd)
    (hbid : ∀ bid, s.collateralBids.find id = some bid → bid.debtType = mia ∧
      bid.invSwanPrice.base.assetId = b.options.shortBackingAsset ∧
      0 < bid.invSwanPrice.base.amount + fromFund)
    (h : s.executeBid id debt fromFund feed = .ok s') :
    Taken mia b.options.shortBackingAsset debt fromFund s s' ∧
      s'.collateralBids = s.collateralBids.remove id := by
  obtain ⟨bid, p, t, hfind, hrange, hp, hpaid, rfl⟩ := executeBid_cases h
  obtain ⟨hmia, hbacking, hpos⟩ := hbid bid hfind
  obtain ⟨hbounded, hbase, hquote⟩ :=
    callPrice_bounded hdebt hdebt' hpos hrange.2 hfeed.1 hfeed.2 hp
  set c : CallOrderObject := ⟨bid.bidder, bid.invSwanPrice.base.amount + fromFund, debt, p⟩ with hc
  have hdebtType : c.debtType = mia := hquote.trans hmia
  have hcollateralType : c.collateralType = b.options.shortBackingAsset := hbase.trans hbacking
  have hcreated := hs.createCallOrder (c := c) ⟨hdebt, hpos.le, hbounded,
    ⟨a, b, hdebtType.symm ▸ ha, hb, hcollateralType.symm⟩⟩ hdebtType
  have hfind' : t.collateralBids.find id = some bid := hpaid.collateralBids ▸ hfind
  have hremoved := trade_of_removeBid hfind'
  refine ⟨?_, by simp only [hpaid.collateralBids]⟩
  exact {
    books := by
      rw [hremoved.books, hpaid.books, books_setCallOrders, total_create]
      simp only [CallOrderObject.books, hcollateralType, ← hbacking]
      simp only [hc, map_add]
      abel
    sound := (hcreated.of_frame hpaid.frame).of_frame hremoved.frame
    totalDebt := by
      change t.callOrders.total _ = _
      rw [hpaid.callOrders, total_create, CallOrderObject.part_getDebt, if_pos hdebtType.symm,
        totalDebt]
    headBlockTime := hpaid.frame.headBlockTime
    limitOrders := hpaid.limitOrders
    accounts := hpaid.frame.accounts
    assets := fun x hx hmarket ↦ by
      obtain ⟨x', hx', hterms⟩ := hpaid.frame.find_asset' hx
      refine ⟨x', hx', AssetObject.bitassetData_of_terms hterms, ?_⟩
      have hsupply : t.currentSupply mia = _ := hpaid.currentSupply ⟨x, hx, hmarket⟩
      rwa [currentSupply_of_find hx', currentSupply, hx] at hsupply }

/-! ## Reviving an asset -/

theorem trade_of_cancelBids {ids : List ℕ} (h : cancelBids ids s = .ok s') : Trade 0 s s' := by
  induction ids generalizing s with
  | nil =>
      obtain rfl := Except.ok.inj h
      exact .refl s
  | cons id ids ih =>
      simp only [cancelBids, Checked.bind_eq_ok] at h
      obtain ⟨s₁, hcancel, h⟩ := h
      exact ((trade_of_cancelBid hcancel).1.trans (ih h)).congr (add_zero _)

/-- The asset with its fund handed out and no settlement price. -/
def revivedAsset (b : AssetBitassetData) (a : AssetObject) : AssetObject :=
  { a with bitassetData := some { b with settlementPrice := {}, settlementFund := 0 } }

theorem cancelBidsAndReviveMpa_cases (h : s.cancelBidsAndReviveMpa mia = .ok s') :
    ∃ t a b, Trade 0 s t ∧ t.assets.find mia = some a ∧ a.bitassetData = some b ∧
      s' = { t with assets := t.assets.set mia (revivedAsset b a) } := by
  simp only [cancelBidsAndReviveMpa, Checked.bind_eq_ok] at h
  obtain ⟨_, -, -, -, _, -, -, -, -, -, _, -, t, hcancel, hrevive⟩ := h
  obtain ⟨a, b, _, ha, hb, heq, rfl⟩ := modifyBitassetData_cases hrevive
  obtain rfl := Except.ok.inj heq
  exact ⟨t, a, b, trade_of_cancelBids hcancel, ha, hb, rfl⟩

theorem revivedAsset_books {a : AssetObject} {b : AssetBitassetData} (hb : a.bitassetData = some b) :
    (revivedAsset b a).books mia - a.books mia =
      -held b.options.shortBackingAsset b.settlementFund := by
  simp only [AssetObject.books, revivedAsset, AssetObject.fund, hb, map_zero]
  abel

theorem not_hasSettlement_null {b : AssetBitassetData} (h : b.settlementPrice = {}) :
    ¬b.HasSettlement := by
  rw [AssetBitassetData.HasSettlement, h]
  decide

/-- The asset is sound again when its call orders bear its whole supply as debt. -/
theorem upholds_of_cancelBidsAndReviveMpa {a : AssetObject} {b : AssetBitassetData}
    (hs : s.Sound (· = mia)) (ha : s.assets.find mia = some a) (hb : a.bitassetData = some b)
    (hbids : ∀ key bid, bid.debtType = mia → s.collateralBids.find key = some bid →
      bid.Sound s.accounts)
    (hlt : a.dynamicData.currentSupply < shareEnd)
    (hdebt : s.totalDebt mia = a.dynamicData.currentSupply)
    (h : s.cancelBidsAndReviveMpa mia = .ok s') :
    s'.books = s.books - held b.options.shortBackingAsset b.settlementFund ∧ s'.AllSound ∧
      s'.headBlockTime = s.headBlockTime ∧
      s.limitOrders.Shrinks LimitOrderObject.Reduces s'.limitOrders := by
  obtain ⟨t, a₁, b₁, htrade, ha₁, hb₁, rfl⟩ := cancelBidsAndReviveMpa_cases h
  obtain ⟨x, hx, hterms⟩ := htrade.frame.find_asset ha₁
  obtain rfl := Option.some.inj (ha.symm.trans hx)
  obtain rfl : b₁ = b := Option.some.inj
    (hb₁.symm.trans ((AssetObject.bitassetData_of_terms hterms).trans hb))
  have ht := hs.of_frame htrade.frame
  have hmarket : s.IsMarketIssued mia :=
    (isMarketIssued_of_find ha).mpr (by rw [AssetObject.isMarketIssued, hb, Option.isSome_some])
  have hkept := htrade.frame.totalDebt mia hmarket
  have hle := htrade.frame.supplyLe mia hmarket
  rw [currentSupply_of_find ha, currentSupply_of_find ha₁] at hkept hle
  refine ⟨?_, ?_, htrade.frame.headBlockTime, htrade.frame.limitOrders⟩
  · rw [books_setAsset ha₁, htrade.books, revivedAsset_books hb₁]
    abel
  · refine Sound.release mia ?_ (fun key bid hmia hbid ↦ ?_) (fun x bx hx hbx ↦ ?_)
    · refine ((ht.setAsset ha₁ ?_ fun hhand ↦ absurd rfl hhand).mono fun id hid ↦ Or.inr hid)
      exact { ht.assetKept ha₁ with
        core := fun hid ↦ absurd hid (hs.ne_core ha hb)
        feeds := fun b' hb' ↦ by
          obtain rfl := Option.some.inj hb'
          exact ⟨(ht.feeds mia a₁ b₁ ha₁ hb₁).currentFeed, (ht.feeds mia a₁ b₁ ha₁ hb₁).feeds⟩
        backing := fun _ b' hb' ↦ by
          obtain rfl := Option.some.inj (hb₁.symm.trans hb')
          exact ⟨_, rfl, rfl⟩ }
    · obtain ⟨bid₀, hbid₀, rfl⟩ := htrade.frame.collateralBids key bid hbid
      have hsound := hbids key bid₀ hmia hbid₀
      exact { hsound with bidder := htrade.frame.accounts _ hsound.bidder }
    · rw [find_setAsset ha₁, if_pos rfl] at hx
      obtain rfl := Option.some.inj hx
      obtain rfl := Option.some.inj hbx
      have hnot : ¬AssetBitassetData.HasSettlement { b₁ with
          settlementPrice := {}, settlementFund := 0 } := not_hasSettlement_null rfl
      refine ⟨hle.trans_lt hlt, fun _ ↦ rfl, fun _ ↦ ?_, fun hset ↦ absurd hset hnot,
        fun hset ↦ absurd hset hnot⟩
      change t.totalDebt mia = a₁.dynamicData.currentSupply
      omega

theorem Sound.createBid (hs : s.Sound inHand) {bid : CollateralBidObject}
    (hbid : ¬inHand bid.debtType → bid.Sound s.accounts) :
    ({ s with collateralBids := s.collateralBids.create bid } : MarketState).Sound inHand :=
  { hs with
    collateralBids := fun key b hhand hb ↦ by
      rw [find_create] at hb
      split_ifs at hb
      · obtain rfl := Option.some.inj hb
        exact hbid hhand
      · exact hs.collateralBids key b hhand hb
    bitassets := fun mia a b hhand ha hb ↦
      have hsound := hs.bitassets mia a b hhand ha hb
      ⟨hsound.supply_lt, hsound.fund, hsound.debt, hsound.solvent, hsound.noCallOrders⟩ }

theorem books_createBid (bid : CollateralBidObject) :
    ({ s with collateralBids := s.collateralBids.create bid } : MarketState).books =
      s.books + held bid.invSwanPrice.base.assetId bid.invSwanPrice.base.amount := by
  simp only [books, total_create]
  abel

theorem createCollateralBid_eq_ok {bid : CollateralBidObject} {id : ℕ}
    (h : s.createCollateralBid bid = .ok (id, s')) : id = s.collateralBids.nextId ∧
      s' = { s with collateralBids := s.collateralBids.create bid } := by
  simp only [createCollateralBid, Checked.bind_eq_ok, Checked.pure_eq_ok] at h
  obtain ⟨-, -, heq⟩ := h
  obtain ⟨rfl, rfl⟩ := Prod.mk.inj heq
  exact ⟨rfl, rfl⟩

theorem totalDebt_eq_zero (h : ¬s.HasCallOrders mia) : s.totalDebt mia = 0 := by
  refine total_eq_zero fun id c hc ↦ ?_
  rw [CallOrderObject.part_getDebt, if_neg]
  rintro rfl
  exact h ⟨id, c, hc, rfl⟩

/-- What a revival starts from. -/
structure Settled (mia : AssetId) (a : AssetObject) (b : AssetBitassetData) (s : MarketState) :
    Prop where
  find : s.assets.find mia = some a
  bitassetData : a.bitassetData = some b
  hasSettlement : b.HasSettlement

namespace Settled

variable {a : AssetObject} {b : AssetBitassetData}

theorem isMarketIssued (h : s.Settled mia a b) : a.isMarketIssued := by
  rw [AssetObject.isMarketIssued, h.bitassetData, Option.isSome_some]

theorem bitassetSound (h : s.Settled mia a b) (hs : s.AllSound) :
    s.BitassetSound mia a.dynamicData.currentSupply b :=
  hs.bitassets mia a b not_false h.find h.bitassetData

theorem solvent (h : s.Settled mia a b) (hs : s.AllSound) :
    b.Solvent mia a.dynamicData.currentSupply := (h.bitassetSound hs).solvent h.hasSettlement

theorem totalDebt (h : s.Settled mia a b) (hs : s.AllSound) : s.totalDebt mia = 0 :=
  totalDebt_eq_zero ((h.bitassetSound hs).noCallOrders h.hasSettlement)

end Settled

/-- When the whole supply was taken over for the whole fund, the revival is sound. -/
theorem upholds_of_taken {a : AssetObject} {b : AssetBitassetData} {t : MarketState}
    (hs : s.AllSound) (hset : s.Settled mia a b)
    (htaken : Taken mia b.options.shortBackingAsset a.dynamicData.currentSupply b.settlementFund s t)
    (hbids : s.collateralBids.Shrinks (· = ·) t.collateralBids)
    (h : t.cancelBidsAndReviveMpa mia = .ok s') : Upholds s s' := by
  obtain ⟨a', ha', hb', hsupply⟩ := htaken.assets a hset.find hset.isMarketIssued
  obtain ⟨hbooks, hsound, htime, horders⟩ := upholds_of_cancelBidsAndReviveMpa htaken.sound ha'
    (hb'.trans hset.bitassetData) (fun key bid _ hbid ↦ by
      obtain ⟨bid₀, hbid₀, rfl⟩ := hbids key bid hbid
      have hold := hs.collateralBids key bid₀ not_false hbid₀
      exact { hold with bidder := htaken.accounts _ hold.bidder })
    (hsupply ▸ (hset.bitassetSound hs).supply_lt)
    (by rw [htaken.totalDebt, hset.totalDebt hs, zero_add, hsupply]) h
  exact ⟨by rw [hbooks, htaken.books, add_sub_cancel_right], hsound,
    htime.trans htaken.headBlockTime, htaken.limitOrders ▸ horders⟩

theorem taken_of_executePseudoBid {a : AssetObject} {b : AssetBitassetData} (hs : s.AllSound)
    (hset : s.Settled mia a b) (hpos : 0 < a.dynamicData.currentSupply)
    (h : executePseudoBid mia a b s = .ok s') :
    Taken mia b.options.shortBackingAsset a.dynamicData.currentSupply b.settlementFund s s' ∧
      s.collateralBids.Shrinks (· = ·) s'.collateralBids := by
  simp only [executePseudoBid, Checked.bind_eq_ok, per_eq_ok] at h
  obtain ⟨_, ⟨-, rfl⟩, ⟨id, s₁⟩, hcreate, h⟩ := h
  obtain ⟨rfl, rfl⟩ := createCollateralBid_eq_ok hcreate
  set bid : CollateralBidObject := ⟨a.issuer, ⟨⟨0, b.options.shortBackingAsset⟩,
    ⟨a.dynamicData.currentSupply, mia⟩⟩⟩ with hbid
  have hsound : ({ s with collateralBids := s.collateralBids.create bid } : MarketState).Sound
      (· = mia) := (hs.mono fun _ ↦ False.elim).createBid fun hhand ↦ absurd rfl hhand
  have hsolvent := hset.solvent hs
  have hfund : 0 < b.settlementFund := by
    refine hsolvent.fund_nonneg.lt_of_ne' fun hzero ↦ ?_
    have hcall := executeBid_cases h
    obtain ⟨bid', p, -, hfind, -, hp, -⟩ := hcall
    rw [find_create, if_pos rfl] at hfind
    obtain rfl := Option.some.inj hfind
    simp only [Price.callPrice, Checked.bind_eq_ok, demand_eq_ok] at hp
    obtain ⟨-, hne, -⟩ := hp
    exact hne (by simp [hbid, hzero])
  obtain ⟨htaken, hbids⟩ := taken_of_executeBid hsound hset.find hset.bitassetData
    (hs.feeds mia a b hset.find hset.bitassetData).currentFeed hpos (hset.bitassetSound hs).supply_lt
    (fun bid' hfind ↦ by
      rw [find_create, if_pos rfl] at hfind
      obtain rfl := Option.some.inj hfind
      exact ⟨rfl, rfl, by simpa [hbid] using hfund⟩) h
  refine ⟨{ htaken with books := ?_ }, fun key bid' hfind ↦ ?_⟩
  · rw [htaken.books, books_createBid]
    simp [hbid]
  · rw [hbids, find_remove, find_create] at hfind
    split_ifs at hfind
    exact ⟨bid', hfind, rfl⟩

theorem upholds_of_reviveBitasset (hs : s.AllSound) (h : s.reviveBitasset mia = .ok s') :
    Upholds s s' := by
  simp only [reviveBitasset, Checked.bind_eq_ok, get_eq_ok, getBitassetData_eq_ok,
    require_eq_ok] at h
  obtain ⟨a, ha, -, -, b, hb, -, hset, -, -, -, -, -, hempty, s₁, hbid, h⟩ := h
  have hsettled : s.Settled mia a b := ⟨ha, hb, hset⟩
  rcases whenever_eq_ok.mp hbid with ⟨hpos, hbid⟩ | ⟨hpos, rfl⟩
  · obtain ⟨htaken, hbids⟩ := taken_of_executePseudoBid hs hsettled hpos hbid
    exact upholds_of_taken hs hsettled htaken hbids h
  · have hzero : a.dynamicData.currentSupply = 0 :=
      le_antisymm (not_lt.mp hpos) (hsettled.solvent hs).supply_nonneg
    refine upholds_of_taken hs hsettled ?_ (.refl (fun _ ↦ rfl) _) h
    rw [hzero, hempty hzero.le]
    exact .refl (hs.mono fun _ ↦ False.elim) _

/-! ## Bids at maintenance -/

theorem fundShare_spec {b : AssetBitassetData} {supply : ℤ} {quote share : Asset}
    (hb : b.Solvent mia supply) (hquote : quote.assetId = mia) (hquote0 : 0 ≤ quote.amount)
    (h : times quote b.settlementPrice = .ok share) :
    share.assetId = b.options.shortBackingAsset ∧ 0 ≤ share.amount ∧
      share.amount * b.settlementPrice.base.amount ≤
        quote.amount * b.settlementPrice.quote.amount := by
  refine ⟨?_, times_nonneg h, ?_⟩
  · rcases times_eq_ok.mp h with ⟨-, -, -, rfl⟩ | ⟨hne, -⟩
    · exact hb.quote
    · exact absurd (hquote.trans hb.base.symm) hne
  · rcases times_eq_ok.mp h with ⟨-, -, -, rfl⟩ | ⟨hne, -⟩
    · refine (Int.ediv_mul_le _ hb.base_pos.ne').trans ?_
      exact mul128_le (mul_nonneg hquote0 hb.quote_nonneg)
    · exact absurd (hquote.trans hb.base.symm) hne

theorem bidIsCollateralized_backing {b : AssetBitassetData} {supply : ℤ} {bid : CollateralBidObject}
    {enough : Bool} (hb : b.Solvent mia supply) (hmia : bid.debtType = mia)
    (hquote : 0 ≤ bid.invSwanPrice.quote.amount) (h : bidIsCollateralized b bid = .ok enough) :
    bid.invSwanPrice.base.assetId = b.options.shortBackingAsset := by
  simp only [bidIsCollateralized, Checked.bind_eq_ok] at h
  obtain ⟨share, hshare, total, htotal, -⟩ := h
  exact (Asset.add_eq_ok.mp htotal).1.symm.trans (fundShare_spec hb hmia hquote hshare).1

/-- A bid takes over no more debt than is left, and leaves a fund that covers the rest. -/
theorem bidShare_spec {b : AssetBitassetData} {supply toCover fund debt collateral : ℤ}
    {bid : CollateralBidObject} (hb : b.Solvent mia supply) (hmia : bid.debtType = mia)
    (hquote : 0 < bid.invSwanPrice.quote.amount) (hcover : 0 < toCover)
    (hfund : toCover * b.settlementPrice.quote.amount ≤ fund * b.settlementPrice.base.amount)
    (h : bidShare b bid toCover fund = .ok (debt, collateral)) :
    0 < debt ∧ debt ≤ toCover ∧ 0 ≤ collateral ∧
      (toCover - debt) * b.settlementPrice.quote.amount ≤
        (fund - collateral) * b.settlementPrice.base.amount ∧
      (toCover ≤ bid.invSwanPrice.quote.amount ∨ debt = bid.invSwanPrice.quote.amount) := by
  simp only [bidShare, Checked.bind_eq_ok, Checked.pure_eq_ok] at h
  obtain ⟨share, hshare, heq⟩ := h
  obtain ⟨-, hshare0, hshareLe⟩ := fundShare_spec hb hmia hquote.le hshare
  split_ifs at heq with hlast
  · obtain ⟨rfl, rfl⟩ := Prod.mk.inj heq
    have hfund0 := (mul_nonneg hcover.le hb.quote_nonneg).trans hfund
    exact ⟨hcover, le_rfl, nonneg_of_mul_nonneg_left hfund0 hb.base_pos, by simp, .inl hlast⟩
  · obtain ⟨rfl, rfl⟩ := Prod.mk.inj heq
    refine ⟨hquote, (not_le.mp hlast).le, hshare0, ?_, .inr rfl⟩
    rw [sub_mul, sub_mul]
    omega

/-- A bid for the asset whose terms are those it was placed with. -/
structure BidFor (mia : AssetId) (o : ℕ × CollateralBidObject) (s : MarketState) : Prop where
  find : s.collateralBids.find o.1 = some o.2
  debtType : o.2.debtType = mia
  base : 0 < o.2.invSwanPrice.base.amount
  quote : 0 < o.2.invSwanPrice.quote.amount

theorem taken_of_executeBids_nil {b : AssetBitassetData} {toCover fund toCover' fund' : ℤ}
    (hs : s.Sound (· = mia)) (backing : AssetId)
    (h : executeBids b [] toCover fund s = .ok (toCover', fund', s')) :
    Taken mia backing (toCover - toCover') (fund - fund') s s' ∧
      s.collateralBids.Shrinks (· = ·) s'.collateralBids := by
  obtain ⟨rfl, heq⟩ := Prod.mk.inj (Except.ok.inj h)
  obtain ⟨rfl, rfl⟩ := Prod.mk.inj heq
  rw [sub_self, sub_self]
  exact ⟨.refl hs _, .refl (fun _ ↦ rfl) _⟩

theorem taken_of_executeBids {b : AssetBitassetData} {supply toCover fund toCover' fund' : ℤ}
    {bids : List (ℕ × CollateralBidObject)} {ids : List ℕ} {covered covered' : ℤ}
    (hb : b.Solvent mia supply) (hfeed : b.currentFeed.RatiosSound) (hsupply : supply < shareEnd)
    (hs : s.Sound (· = mia))
    (hasset : ∃ a, s.assets.find mia = some a ∧ a.bitassetData = some b)
    (hbids : ∀ o ∈ bids, s.BidFor mia o) (hnodup : (bids.map Prod.fst).Nodup)
    (hcovered : 0 ≤ covered) (hleft : covered < supply → toCover = supply - covered)
    (hfund : toCover * b.settlementPrice.quote.amount ≤ fund * b.settlementPrice.base.amount)
    (hcover : coverSupply b supply bids covered = .ok (ids, covered'))
    (h : executeBids b ids toCover fund s = .ok (toCover', fund', s')) :
    Taken mia b.options.shortBackingAsset (toCover - toCover') (fund - fund') s s' ∧
      s.collateralBids.Shrinks (· = ·) s'.collateralBids := by
  induction bids generalizing covered toCover fund ids s with
  | nil =>
      obtain ⟨rfl, -⟩ := Prod.mk.inj (Except.ok.inj hcover)
      exact taken_of_executeBids_nil hs _ h
  | cons o bids ih =>
      simp only [coverSupply] at hcover
      split_ifs at hcover with hless
      swap
      · obtain ⟨rfl, -⟩ := Prod.mk.inj (Except.ok.inj hcover)
        exact taken_of_executeBids_nil hs _ h
      simp only [Checked.bind_eq_ok] at hcover
      obtain ⟨enough, henough, hcover⟩ := hcover
      split_ifs at hcover with hyes
      swap
      · obtain ⟨rfl, -⟩ := Prod.mk.inj (Checked.pure_eq_ok.mp hcover)
        exact taken_of_executeBids_nil hs _ h
      simp only [Checked.bind_eq_ok, Checked.pure_eq_ok, checkedShare_eq_ok] at hcover
      obtain ⟨_, ⟨-, rfl⟩, ⟨ids', covered₁⟩, hcover, heq⟩ := hcover
      obtain ⟨rfl, rfl⟩ := Prod.mk.inj heq
      have hbid := hbids o List.mem_cons_self
      have hbacking := bidIsCollateralized_backing hb hbid.debtType hbid.quote.le henough
      simp only [executeBids, Checked.bind_eq_ok, deref_eq_ok, checkedShare_eq_ok] at h
      obtain ⟨bid, hfind, ⟨debt, collateral⟩, hshare, _, ⟨-, rfl⟩, _, ⟨-, rfl⟩, s₁, hexecute, h⟩ := h
      obtain rfl := Option.some.inj (hfind.symm.trans hbid.find)
      have hleft := hleft hless
      obtain ⟨hdebt, hdebtLe, hcollateral, hfund₁, hend⟩ :=
        bidShare_spec hb hbid.debtType hbid.quote (by omega) hfund hshare
      obtain ⟨a, ha, hba⟩ := hasset
      have hmarket : a.isMarketIssued := by rw [AssetObject.isMarketIssued, hba, Option.isSome_some]
      obtain ⟨hfirst, hremove⟩ := taken_of_executeBid hs ha hba hfeed hdebt (by omega)
        (fun bid hbid' ↦ by
          obtain rfl := Option.some.inj (hfind.symm.trans hbid')
          exact ⟨hbid.debtType, hbacking, by have := hbid.base; omega⟩) hexecute
      rw [List.map_cons, List.nodup_cons] at hnodup
      obtain ⟨a', ha', hba', -⟩ := hfirst.assets a ha hmarket
      obtain ⟨hrest, hshrinks⟩ := ih hfirst.sound ⟨a', ha', hba'.trans hba⟩ (fun p hp ↦ by
          have hold := hbids p (List.mem_cons_of_mem _ hp)
          refine { hold with find := ?_ }
          rw [hremove, find_remove, if_neg]
          · exact hold.find
          · rintro heq
            exact hnodup.1 (heq ▸ List.mem_map_of_mem hp)) hnodup.2
        (by have := hbid.quote; omega) (fun hmore ↦ by omega) hfund₁ hcover h
      have hboth := hfirst.trans hrest
      have hgone : s.collateralBids.Shrinks (· = ·) s₁.collateralBids :=
        hremove ▸ shrinks_remove (fun _ ↦ rfl) _ _
      refine ⟨?_, hgone.trans (fun _ _ _ h h' ↦ h.trans h') hshrinks⟩
      convert hboth using 1 <;> ring

theorem upholds_of_coverWithBids {a : AssetObject} {b : AssetBitassetData} (hs : s.AllSound)
    (hset : s.Settled mia a b) (h : s.coverWithBids b = .ok s') : Upholds s s' := by
  have hsolvent := hset.solvent hs
  simp only [coverWithBids, Checked.bind_eq_ok, get_eq_ok, Prod.exists] at h
  obtain ⟨unit, hunit, a', ha', highest, hhighest, ids, covered, hcover, h⟩ := h
  have hmia : unit.assetId = mia := by
    rcases times_eq_ok.mp hunit with ⟨hsame, -, -, rfl⟩ | ⟨-, -, -, -, rfl⟩
    · exact hsolvent.quote.trans (hsame.trans hsolvent.base)
    · exact hsolvent.base
  rw [hmia] at ha' hhighest hcover h
  obtain rfl := Option.some.inj (ha'.symm.trans hset.find)
  split_ifs at h with hless
  · obtain rfl := Checked.pure_eq_ok.mp h
    exact .refl hs
  · simp only [Checked.bind_eq_ok, require_eq_ok, Prod.exists] at h
    obtain ⟨toCover, fund, t, hexecute, -, rfl, -, rfl, h⟩ := h
    obtain ⟨htaken, hbids⟩ := taken_of_executeBids hsolvent
      (hs.feeds mia a' b hset.find hset.bitassetData).currentFeed (hset.bitassetSound hs).supply_lt
      (hs.mono fun _ ↦ False.elim) ⟨a', hset.find, hset.bitassetData⟩ (fun o ho ↦ by
        obtain ⟨hfind, hdebt, -⟩ := mem_select.mp ho
        have hsound := hs.collateralBids _ _ not_false hfind
        exact ⟨hfind, hdebt, hsound.base, hsound.quote⟩)
      nodup_select le_rfl (fun _ ↦ (sub_zero _).symm) hsolvent.covers hcover hexecute
    rw [sub_zero, sub_zero] at htaken
    exact upholds_of_taken hs hset htaken hbids h

theorem upholds_of_processBids {a : AssetObject} {b : AssetBitassetData} (hs : s.AllSound)
    (hset : s.Settled mia a b) (h : s.processBids b = .ok s') : Upholds s s' := by
  unfold processBids at h
  split_ifs at h
  · obtain rfl := Except.ok.inj h
    exact .refl hs
  · exact upholds_of_coverWithBids hs hset h

end MarketState

end KarmaCore.Market
