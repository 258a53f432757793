import Mathlib
import KarmaCore.Market.OperationSound

/-!
# Changing a position keeps the market sound

Borrowing and covering change the supply of an asset before its position, so the
asset is in hand until the position bears the new debt.  A position on which
neither debt nor collateral is left is closed.
-/

namespace KarmaCore.Market

open Transfer (get get_eq_ok)
open Books ObjectIndex

namespace MarketState

variable {s s' t : MarketState} {mia : AssetId} {id : ℕ} {d d' : Books} {supply debt : ℤ}
  {a : AssetObject} {b : AssetBitassetData} {ix ix' : ObjectIndex CallOrderObject}
  {c c' : CallOrderObject}

/-- Only positions in one asset changed, and bear `debt` more of it. -/
structure CallsChanged (mia : AssetId) (debt : ℤ) (d : Books) (ix ix' : ObjectIndex CallOrderObject) :
    Prop where
  total : ∀ key, ix'.total (fun _ c ↦ c.getDebt.part key) =
    ix.total (fun _ c ↦ c.getDebt.part key) + if key = mia then debt else 0
  books : ix'.total (fun _ c ↦ c.books) = ix.total (fun _ c ↦ c.books) + d
  other : ∀ id c, ix'.find id = some c → c.debtType ≠ mia → ix.find id = some c

theorem callsChanged_create (hc : c.debtType = mia) :
    CallsChanged mia c.debt c.books ix (ix.create c) where
  total key := by
    rw [total_create, CallOrderObject.part_getDebt]
    simp only [hc]
  books := total_create
  other key c' hc' hne := by
    rw [find_create] at hc'
    split_ifs at hc'
    · exact absurd (Option.some.inj hc' ▸ hc) hne
    · exact hc'

theorem callsChanged_set (hid : ix.find id = some c) (hc : c.debtType = mia)
    (hc' : c'.debtType = mia) :
    CallsChanged mia (c'.debt - c.debt) (c'.books - c.books) ix (ix.set id c') where
  total key := by
    rw [total_set hid, CallOrderObject.part_getDebt, CallOrderObject.part_getDebt, hc, hc']
    split_ifs <;> ring
  books := by
    rw [total_set hid]
    abel
  other key x hx hne := by
    rw [find_set hid] at hx
    split_ifs at hx
    · exact absurd (Option.some.inj hx ▸ hc') hne
    · exact hx

theorem callsChanged_remove (hid : ix.find id = some c) (hc : c.debtType = mia) :
    CallsChanged mia (-c.debt) (-c.books) ix (ix.remove id) where
  total key := by
    rw [total_remove hid, CallOrderObject.part_getDebt, hc]
    split_ifs <;> ring
  books := by
    rw [total_remove hid]
    abel
  other key x hx _ := by
    rw [find_remove] at hx
    split_ifs at hx
    exact hx

/-- An asset in hand whose supply changed before its positions did. -/
structure Borrowed (mia : AssetId) (b : AssetBitassetData) (supply : ℤ) (d : Books)
    (s s' : MarketState) : Prop where
  books : s'.books = s.books + d
  sound : s'.Sound (· = mia)
  asset : ∃ a, s'.assets.find mia = some a ∧ a.bitassetData = some b ∧
    a.dynamicData.currentSupply = supply
  supply_lt : supply < shareEnd
  callOrders : s'.callOrders = s.callOrders
  collateralBids : s'.collateralBids = s.collateralBids
  accounts : ∀ id, (s.accounts.find id).isSome → (s'.accounts.find id).isSome

theorem Borrowed.pay (h : Borrowed mia b supply d s t) (hpaid : Payment d' t s') :
    Borrowed mia b supply (d + d') s s' where
  books := by rw [hpaid.books, h.books, add_assoc]
  sound := h.sound.of_frame hpaid.frame
  asset := by
    obtain ⟨a, ha, hb, hsupply⟩ := h.asset
    obtain ⟨a', ha', hterms, hsame⟩ := hpaid.find_asset ha
    have hmarket : a.isMarketIssued := by rw [AssetObject.isMarketIssued, hb, Option.isSome_some]
    exact ⟨a', ha', (AssetObject.bitassetData_of_terms hterms).trans hb,
      (hsame hmarket).trans hsupply⟩
  supply_lt := h.supply_lt
  callOrders := hpaid.callOrders.trans h.callOrders
  collateralBids := hpaid.collateralBids.trans h.collateralBids
  accounts id := hpaid.frame.accounts id ∘ h.accounts id

theorem Borrowed.refl (hs : s.AllSound) (ha : s.assets.find mia = some a)
    (hb : a.bitassetData = some b) : Borrowed mia b a.dynamicData.currentSupply 0 s s where
  books := (add_zero _).symm
  sound := hs.mono fun _ ↦ False.elim
  asset := ⟨a, ha, hb, rfl⟩
  supply_lt := (hs.bitassets mia a b not_false ha hb).supply_lt
  callOrders := rfl
  collateralBids := rfl
  accounts _ := fun h ↦ h

/-- More supply of an asset in hand. -/
theorem Borrowed.addSupply {x : ℤ} (h : Borrowed mia b supply d s t)
    (hsupply : t.modifyDynamicData mia (·.addSupply x) = .ok s') :
    Borrowed mia b (supply + x) (d - held mia x) s s' := by
  obtain ⟨a, ha, hb, hold⟩ := h.asset
  obtain ⟨a', y, ha', hy, rfl⟩ := modifyDynamicData_cases hsupply
  obtain rfl := Option.some.inj (ha.symm.trans ha')
  simp only [AssetDynamicData.addSupply, Checked.bind_eq_ok, Checked.pure_eq_ok,
    checkedShare_eq_ok] at hy
  obtain ⟨_, ⟨hrange, rfl⟩, rfl⟩ := hy
  have hkept := h.sound.assetKept ha
  refine ⟨?_, ?_, ⟨_, (find_set ha).trans (if_pos rfl), hb, congrArg (· + x) hold⟩,
    hold ▸ hrange.2, h.callOrders, h.collateralBids, h.accounts⟩
  · rw [books_setAsset ha, h.books]
    simp only [AssetObject.books, AssetDynamicData.books, AssetObject.fund, map_add, map_sub]
    abel
  · refine h.sound.setAsset ha ?_ fun hhand ↦ absurd rfl hhand
    exact ⟨hkept.core, hkept.maxMarketFee, hkept.accumulatedFees, hkept.confidentialSupply,
      hkept.feeds, hkept.backing⟩

/-- The asset is sound again once its positions bear the new supply. -/
theorem Borrowed.adds (h : Borrowed mia b supply d s t) (hs : s.AllSound)
    (ha : s.assets.find mia = some a) (hb : a.bitassetData = some b) (hset : ¬b.HasSettlement)
    (hsupply : supply = a.dynamicData.currentSupply + debt)
    (hchanged : CallsChanged mia debt d' t.callOrders ix)
    (hcalls : ∀ id c, ix.find id = some c → c.debtType = mia → c.Sound t.assets) :
    Adds (d + d') s { t with callOrders := ix } := by
  refine ⟨?_, ?_⟩
  · rw [books_setCallOrders, hchanged.books, h.books]
    abel
  · refine Sound.release mia ((h.sound.setCallOrders (fun id c hc ↦ ?_)
      fun key hkey ↦ ⟨?_, ?_⟩).mono fun _ ↦ .inr) (fun key bid _ hbid ↦ ?_) fun x b' hx hb' ↦ ?_
    · by_cases hmia : c.debtType = mia
      · exact hcalls id c hc hmia
      · exact h.sound.callOrders id c (hchanged.other id c hc hmia)
    · rw [hchanged.total, if_neg hkey, add_zero, totalDebt]
    · rintro ⟨id, c, hc, rfl⟩
      exact ⟨id, c, hchanged.other id c hc hkey, rfl⟩
    · have hold := hs.collateralBids key bid not_false (h.collateralBids ▸ hbid)
      exact { hold with bidder := h.accounts _ hold.bidder }
    · obtain ⟨a', ha', hba', hsupply'⟩ := h.asset
      obtain rfl := Option.some.inj (ha'.symm.trans hx)
      obtain rfl := Option.some.inj (hba'.symm.trans hb')
      have hold := hs.bitassets mia a b not_false ha hb
      refine ⟨hsupply' ▸ h.supply_lt, hold.fund, fun _ ↦ ?_, fun hset' ↦ absurd hset' hset,
        fun hset' ↦ absurd hset' hset⟩
      have hdebt := hold.debt hset
      change ix.total _ = _
      rw [hchanged.total, if_pos rfl, h.callOrders, hsupply', hsupply, ← hdebt, totalDebt]

end MarketState

namespace CallOrderUpdateOperation

variable {op : CallOrderUpdateOperation} {s s' t : MarketState} {a : AssetObject}
  {b : AssetBitassetData} {supply : ℤ} {d : Books} {id : ℕ}

open MarketState

/-- What a change of a position relies on in the debt asset. -/
structure Lends (op : CallOrderUpdateOperation) (a : AssetObject) (b : AssetBitassetData)
    (s : MarketState) : Prop where
  find : s.assets.find op.deltaDebt.assetId = some a
  bitassetData : a.bitassetData = some b
  hasNoSettlement : ¬b.HasSettlement
  backing : op.deltaCollateral.assetId = b.options.shortBackingAsset

theorem borrowed_of_applyDebt (hs : s.AllSound) (hlends : op.Lends a b s)
    (h : whenever (op.deltaDebt.amount ≠ 0) op.applyDebt s = .ok s') :
    Borrowed op.deltaDebt.assetId b (a.dynamicData.currentSupply + op.deltaDebt.amount) 0 s s' := by
  have hstart := Borrowed.refl hs hlends.find hlends.bitassetData
  rcases whenever_eq_ok.mp h with ⟨-, h⟩ | ⟨hzero, rfl⟩
  · simp only [applyDebt, Checked.bind_eq_ok] at h
    obtain ⟨s₁, hbalance, hsupply⟩ := h
    have hboth := (hstart.pay (payment_of_adjustBalance hbalance)).addSupply hsupply
    rwa [zero_add, sub_self] at hboth
  · rw [not_not] at hzero
    rwa [hzero, add_zero]

theorem payment_of_applyCollateral
    (h : whenever (op.deltaCollateral.amount ≠ 0) op.applyCollateral s = .ok s') :
    Payment (-held op.deltaCollateral.assetId op.deltaCollateral.amount +
      inOrders op.fundingAccount op.deltaCollateral.assetId op.deltaCollateral.amount) s s' := by
  refine payment_of_whenever (fun s' _ h ↦ ?_) (fun hzero ↦ ?_) h
  · simp only [applyCollateral, Checked.bind_eq_ok] at h
    obtain ⟨delta, hdelta, s₁, htake, hstats⟩ := h
    exact (payment_of_takeBalance hdelta htake).trans (payment_of_modifyStatistics
      (fun _ _ hb ↦ AccountStatistics.enterOrders_books _ hb) hstats)
  · rw [not_not] at hzero
    simp [hzero]

theorem upholds_of_checkMarginCall {feed : PriceFeed} (hs : s.AllSound)
    (h : op.checkMarginCall feed id s = .ok s') : Upholds s s' := by
  simp only [checkMarginCall, Checked.bind_eq_ok, Prod.exists] at h
  obtain ⟨called, s₁, hcheck, h⟩ := h
  have hk := (walks_of_checkCallOrders hs hcheck).1.toUpholds
  split_ifs at h
  · simp only [Checked.bind_eq_ok, Checked.pure_eq_ok] at h
    obtain ⟨-, -, rfl⟩ := h
    exact hk
  · split at h
    · cases h
    · simp only [Checked.bind_eq_ok, Checked.pure_eq_ok] at h
      obtain ⟨-, -, rfl⟩ := h
      exact hk

/-- A position that bears debt is checked; one without debt or collateral is closed. -/
theorem settleCallOrder_cases (call : CallOrderObject) (hid : s.callOrders.find id = some call)
    (h : op.settleCallOrder b id s = .ok s') :
    call.debt = 0 ∧ call.collateral = 0 ∧ s' = { s with callOrders := s.callOrders.remove id } ∨
      0 < call.debt ∧ 0 < call.collateral ∧ (s.AllSound → Upholds s s') := by
  simp only [settleCallOrder, Checked.bind_eq_ok, deref_eq_ok] at h
  obtain ⟨call', hcall', h⟩ := h
  obtain rfl := Option.some.inj (hid.symm.trans hcall')
  split_ifs at h with hdebt hmarket
  · simp only [Checked.bind_eq_ok, require_eq_ok, Checked.pure_eq_ok] at h
    obtain ⟨-, hcollateral, rfl⟩ := h
    exact .inl ⟨hdebt, hcollateral, rfl⟩
  · simp only [Checked.bind_eq_ok, require_eq_ok, Checked.pure_eq_ok] at h
    obtain ⟨-, ⟨hcollateral, hpos⟩, rfl⟩ := h
    exact .inr ⟨hpos, hcollateral, .refl⟩
  · simp only [Checked.bind_eq_ok, require_eq_ok] at h
    obtain ⟨-, ⟨hcollateral, hpos⟩, h⟩ := h
    exact .inr ⟨hpos, hcollateral, fun hs ↦ upholds_of_checkMarginCall hs h⟩

/-- The funds of a position are on their way from the balances to it. -/
abbrev Funded (op : CallOrderUpdateOperation) (a : AssetObject) (b : AssetBitassetData)
    (s t : MarketState) : Prop :=
  Borrowed op.deltaDebt.assetId b (a.dynamicData.currentSupply + op.deltaDebt.amount)
    (-held op.deltaCollateral.assetId op.deltaCollateral.amount +
      inOrders op.fundingAccount op.deltaCollateral.assetId op.deltaCollateral.amount) s t

theorem adds_of_openCallOrder {feed : PriceFeed} (hs : s.AllSound) (hlends : op.Lends a b s)
    (hfeed : feed.RatiosSound) (htyped : (MarketOperation.callOrderUpdate op).WellTyped)
    (hfunded : op.Funded a b s t) (hopen : op.openCallOrder feed t = .ok (id, s'))
    {s'' : MarketState} (h : op.settleCallOrder b id s' = .ok s'') : Adds 0 s s'' := by
  simp only [openCallOrder, Checked.bind_eq_ok, require_eq_ok, Checked.pure_eq_ok] at hopen
  obtain ⟨-, hcollateral, -, hdebt, p, hp, s₁, hcreate, heq⟩ := hopen
  obtain ⟨rfl, rfl⟩ := Prod.mk.inj heq
  obtain rfl := createCallOrder_eq_ok hcreate
  have hcollateralTyped : InShareRange op.deltaCollateral.amount :=
    htyped _ (List.mem_cons_of_mem _ List.mem_cons_self)
  have hdebtTyped : InShareRange op.deltaDebt.amount :=
    htyped _ (List.mem_cons_of_mem _ (List.mem_cons_of_mem _ List.mem_cons_self))
  obtain ⟨hbounded, hbase, hquote⟩ :=
    callPrice_bounded hdebt hdebtTyped.2 hcollateral hcollateralTyped.2 hfeed.1 hfeed.2 hp
  set c : CallOrderObject :=
    ⟨op.fundingAccount, op.deltaCollateral.amount, op.deltaDebt.amount, p⟩ with hc
  have hmia : c.debtType = op.deltaDebt.assetId := hquote
  have hopened : Adds 0 s { t with callOrders := t.callOrders.create c } := by
    refine (hfunded.adds hs hlends.find hlends.bitassetData hlends.hasNoSettlement rfl
      (callsChanged_create hmia) fun key c' hc' _ ↦ ?_).congr ?_
    · rw [find_create] at hc'
      split_ifs at hc'
      · obtain rfl := Option.some.inj hc'
        obtain ⟨a', ha', hb', -⟩ := hfunded.asset
        exact ⟨hdebt, hcollateral.le, hbounded, a', b, hmia ▸ ha', hb',
          hlends.backing.symm.trans hbase.symm⟩
      · exact hfunded.sound.callOrders key c' hc'
    · have htype : c.collateralType = op.deltaCollateral.assetId := hbase
      simp only [CallOrderObject.books, htype]
      simp only [hc]
      abel
  rcases settleCallOrder_cases c (by rw [find_create, if_pos rfl]) h with
    ⟨hzero, -⟩ | ⟨-, -, hk⟩
  · exact absurd hzero hdebt.ne'
  · exact (hopened.trans (hk hopened.sound).adds).congr (add_zero 0)

theorem adds_of_changeCallOrder {feed : PriceFeed} {call : CallOrderObject} {key : ℕ}
    (hs : s.AllSound) (hlends : op.Lends a b s) (hfeed : feed.RatiosSound)
    (hcall : t.callOrders.find key = some call) (hmia : call.debtType = op.deltaDebt.assetId)
    (hborrower : call.borrower = op.fundingAccount) (hfunded : op.Funded a b s t)
    (hchange : op.changeCallOrder feed key call t = .ok (id, s'))
    {s'' : MarketState} (h : op.settleCallOrder b id s' = .ok s'') : Adds 0 s s'' := by
  simp only [changeCallOrder, Checked.bind_eq_ok, Checked.pure_eq_ok, checkedShare_eq_ok] at hchange
  obtain ⟨_, ⟨hcollateralRange, rfl⟩, _, ⟨hdebtRange, rfl⟩, p, hp, heq⟩ := hchange
  obtain ⟨rfl, rfl⟩ := Prod.mk.inj heq
  set c : CallOrderObject := { call with
    collateral := call.collateral + op.deltaCollateral.amount
    debt := call.debt + op.deltaDebt.amount
    callPrice := p } with hc
  have hsound := hfunded.sound.callOrders key call hcall
  have hbacking : call.collateralType = op.deltaCollateral.assetId := by
    obtain ⟨a₀, b₀, ha₀, hb₀, hbacking⟩ := hsound.backing
    obtain ⟨a', ha', hb', -⟩ := hfunded.asset
    obtain rfl := Option.some.inj (ha'.symm.trans (hmia ▸ ha₀))
    obtain rfl := Option.some.inj (hb'.symm.trans hb₀)
    exact hbacking.symm.trans hlends.backing.symm
  have hset : (t.callOrders.set key c).find key = some c := by rw [find_set hcall, if_pos rfl]
  rcases settleCallOrder_cases c hset h with ⟨hdebt, hcollateral, rfl⟩ | ⟨hdebt, hcollateral, hk⟩
  · -- the position is gone, so nothing is left of the price it had on the way
    simp only [remove_set]
    refine (hfunded.adds hs hlends.find hlends.bitassetData hlends.hasNoSettlement ?_
      (callsChanged_remove hcall hmia) fun other c' hc' _ ↦ ?_).congr ?_
    · have hdebt' : call.debt + op.deltaDebt.amount = 0 := hdebt
      omega
    · rw [find_remove] at hc'
      split_ifs at hc'
      exact hfunded.sound.callOrders other c' hc'
    · have hcollateral' : call.collateral = -op.deltaCollateral.amount :=
        eq_neg_of_add_eq_zero_left hcollateral
      simp only [CallOrderObject.books, hbacking, hborrower, hcollateral', map_neg]
      abel
  · have hprice : Price.callPrice ⟨call.debt + op.deltaDebt.amount, call.debtType⟩
        ⟨call.collateral + op.deltaCollateral.amount, call.collateralType⟩
        feed.maintenanceCollateralRatio = .ok p := by
      rwa [newCallPrice, if_pos hdebt] at hp
    obtain ⟨hbounded, hbase, hquote⟩ := callPrice_bounded hdebt hdebtRange.2 hcollateral
      hcollateralRange.2 hfeed.1 hfeed.2 hprice
    have hmia' : c.debtType = op.deltaDebt.assetId := hquote.trans hmia
    have hbacking' : c.collateralType = op.deltaCollateral.assetId := hbase.trans hbacking
    have hchanged : Adds 0 s { t with callOrders := t.callOrders.set key c } := by
      refine (hfunded.adds hs hlends.find hlends.bitassetData hlends.hasNoSettlement ?_
        (callsChanged_set hcall hmia hmia') fun other c' hc' _ ↦ ?_).congr ?_
      · simp only [hc]
        ring
      · rw [find_set hcall] at hc'
        split_ifs at hc'
        · obtain rfl := Option.some.inj hc'
          obtain ⟨a', ha', hb', -⟩ := hfunded.asset
          exact ⟨hdebt, hcollateral.le, hbounded, a', b, hmia' ▸ ha', hb',
            hlends.backing.symm.trans hbacking'.symm⟩
        · exact hfunded.sound.callOrders other c' hc'
      · simp only [CallOrderObject.books, hbacking, hbacking']
        simp only [hc, hborrower, map_add]
        abel
    exact (hchanged.trans (hk hchanged.sound).adds).congr (add_zero 0)

theorem findCallOrder_spec {key : ℕ} {call : CallOrderObject}
    (h : op.findCallOrder s = some (key, call)) : s.callOrders.find key = some call ∧
      call.borrower = op.fundingAccount ∧ call.debtType = op.deltaDebt.assetId := by
  have hmem := List.mem_of_find?_eq_some h
  have hkey := List.find?_some h
  simp only [decide_eq_true_eq] at hkey
  exact ⟨find_eq_some.mpr hmem, hkey⟩

theorem adds_of_doApply (hs : s.AllSound) (hlends : op.Lends a b s)
    (htyped : (MarketOperation.callOrderUpdate op).WellTyped) (h : op.doApply s = .ok s') :
    Adds 0 s s' := by
  simp only [doApply, getBitassetData, Checked.bind_eq_ok, get_eq_ok, getBitassetData_eq_ok,
    Prod.exists] at h
  obtain ⟨b', ⟨a', ha', hb'⟩, s₁, hdebt, s₂, hcollateral, id, s₃, hupdate, h⟩ := h
  obtain rfl := Option.some.inj (hlends.find.symm.trans ha')
  obtain rfl := Option.some.inj (hlends.bitassetData.symm.trans hb')
  have hfunded : op.Funded a b s s₂ := by
    have hpaid := (borrowed_of_applyDebt hs hlends hdebt).pay (payment_of_applyCollateral hcollateral)
    rwa [zero_add] at hpaid
  have hfeed := (hs.feeds _ a b hlends.find hlends.bitassetData).currentFeed
  unfold updateCallOrder at hupdate
  split at hupdate
  · exact adds_of_openCallOrder hs hlends hfeed htyped hfunded hupdate h
  · next key call hfind =>
      obtain ⟨hcall, hborrower, hmia⟩ := findCallOrder_spec hfind
      exact adds_of_changeCallOrder hs hlends hfeed hcall hmia hborrower hfunded hupdate h

end CallOrderUpdateOperation

end KarmaCore.Market
