import Mathlib
import KarmaCore.Market.Books

/-!
# What filling and cancelling orders does

A trade shrinks the books of orders, leaves the terms of every asset alone, and
enters in the market's books what the step gave less what it took.
-/

namespace KarmaCore.Market

open Transfer (get get_eq_ok)
open Books ObjectIndex

/-! ## Reduced orders -/

structure LimitOrderObject.Reduces (o o' : LimitOrderObject) : Prop where
  terms : o' = { o with forSale := o'.forSale, deferredFee := o'.deferredFee }
  forSale : o'.forSale ≤ o.forSale
  forSalePos : 0 < o.forSale → 0 < o'.forSale
  deferredFee : 0 ≤ o.deferredFee → 0 ≤ o'.deferredFee

structure CallOrderObject.Reduces (c c' : CallOrderObject) : Prop where
  terms : c' = { c with debt := c'.debt, collateral := c'.collateral }
  debt : c'.debt ≤ c.debt
  debtPos : 0 < c.debt → 0 < c'.debt
  collateral : c'.collateral ≤ c.collateral
  collateralNonneg : 0 ≤ c.collateral → 0 ≤ c'.collateral

structure ForceSettlementObject.Reduces (o o' : ForceSettlementObject) : Prop where
  terms : o' = { o with balance := ⟨o'.balance.amount, o.balance.assetId⟩ }
  balance : 0 ≤ o.balance.amount → 0 ≤ o'.balance.amount

theorem LimitOrderObject.Reduces.refl (o : LimitOrderObject) : o.Reduces o :=
  ⟨rfl, le_rfl, id, id⟩

theorem LimitOrderObject.Reduces.trans {a b c : LimitOrderObject} (h : a.Reduces b)
    (h' : b.Reduces c) : a.Reduces c where
  terms := by rw [h'.terms, h.terms]
  forSale := h'.forSale.trans h.forSale
  forSalePos := h'.forSalePos ∘ h.forSalePos
  deferredFee := h'.deferredFee ∘ h.deferredFee

theorem CallOrderObject.Reduces.refl (c : CallOrderObject) : c.Reduces c :=
  ⟨rfl, le_rfl, id, le_rfl, id⟩

theorem CallOrderObject.Reduces.trans {a b c : CallOrderObject} (h : a.Reduces b)
    (h' : b.Reduces c) : a.Reduces c where
  terms := by rw [h'.terms, h.terms]
  debt := h'.debt.trans h.debt
  debtPos := h'.debtPos ∘ h.debtPos
  collateral := h'.collateral.trans h.collateral
  collateralNonneg := h'.collateralNonneg ∘ h.collateralNonneg

theorem CallOrderObject.Reduces.debtType {c c' : CallOrderObject} (h : c.Reduces c') :
    c'.debtType = c.debtType := by
  rw [h.terms]
  rfl

theorem ForceSettlementObject.Reduces.refl (o : ForceSettlementObject) : o.Reduces o := ⟨rfl, id⟩

theorem ForceSettlementObject.Reduces.trans {a b c : ForceSettlementObject} (h : a.Reduces b)
    (h' : b.Reduces c) : a.Reduces c where
  terms := by rw [h'.terms, h.terms]
  balance := h'.balance ∘ h.balance

/-! ## Frames -/

/-- An asset without what is in its dynamic data but the confidential supply. -/
def AssetObject.terms (a : AssetObject) : AssetObject :=
  { a with dynamicData := { confidentialSupply := a.dynamicData.confidentialSupply } }

theorem AssetObject.bitassetData_of_terms {a a' : AssetObject} (h : a'.terms = a.terms) :
    a'.bitassetData = a.bitassetData := by
  change a'.terms.bitassetData = a.terms.bitassetData
  rw [h]

namespace MarketState

def currentSupply (id : AssetId) (s : MarketState) : ℤ :=
  ((s.assets.find id).map (·.dynamicData.currentSupply)).getD 0

def accumulatedFees (id : AssetId) (s : MarketState) : ℤ :=
  ((s.assets.find id).map (·.dynamicData.accumulatedFees)).getD 0

/-- The debt of all call orders in an asset. -/
def totalDebt (mia : AssetId) (s : MarketState) : ℤ :=
  s.callOrders.total fun _ c ↦ c.getDebt.part mia

def HasCallOrders (mia : AssetId) (s : MarketState) : Prop :=
  ∃ id c, s.callOrders.find id = some c ∧ c.debtType = mia

def IsMarketIssued (id : AssetId) (s : MarketState) : Prop :=
  ∃ a, s.assets.find id = some a ∧ a.isMarketIssued

/-- What stays as it was around a trade. -/
structure Frame (s s' : MarketState) : Prop where
  headBlockTime : s'.headBlockTime = s.headBlockTime
  accounts : ∀ id, (s.accounts.find id).isSome → (s'.accounts.find id).isSome
  assets : ∀ id, (s'.assets.find id).map AssetObject.terms = (s.assets.find id).map AssetObject.terms
  accumulatedFees : ∀ id, 0 ≤ s.accumulatedFees id → 0 ≤ s'.accumulatedFees id
  currentSupply : ∀ id, s.IsMarketIssued id → ¬s.HasCallOrders id →
    s'.currentSupply id = s.currentSupply id
  totalDebt : ∀ id, s.IsMarketIssued id →
    s'.totalDebt id - s'.currentSupply id = s.totalDebt id - s.currentSupply id
  supplyLe : ∀ id, s.IsMarketIssued id → s'.currentSupply id ≤ s.currentSupply id
  limitOrders : s.limitOrders.Shrinks LimitOrderObject.Reduces s'.limitOrders
  callOrders : s.callOrders.Shrinks CallOrderObject.Reduces s'.callOrders
  forceSettlements : s.forceSettlements.Shrinks ForceSettlementObject.Reduces s'.forceSettlements
  collateralBids : s.collateralBids.Shrinks (· = ·) s'.collateralBids
  vestingBalances : s'.vestingBalances = s.vestingBalances

variable {s s' s'' : MarketState}

theorem isMarketIssued_of_terms {id : AssetId}
    (h : (s'.assets.find id).map AssetObject.terms = (s.assets.find id).map AssetObject.terms)
    (hid : s.IsMarketIssued id) : s'.IsMarketIssued id := by
  obtain ⟨a, ha, hmarket⟩ := hid
  rw [ha, Option.map_some, Option.map_eq_some_iff] at h
  obtain ⟨a', ha', hterms⟩ := h
  exact ⟨a', ha', by rwa [AssetObject.isMarketIssued, AssetObject.bitassetData_of_terms hterms]⟩

theorem not_hasCallOrders_of_shrinks {mia : AssetId}
    (h : s.callOrders.Shrinks CallOrderObject.Reduces s'.callOrders)
    (hmia : ¬s.HasCallOrders mia) : ¬s'.HasCallOrders mia := by
  rintro ⟨id, c', hc', htype⟩
  obtain ⟨c, hc, hred⟩ := h id c' hc'
  exact hmia ⟨id, c, hc, hred.debtType ▸ htype⟩

theorem Frame.refl (s : MarketState) : s.Frame s where
  headBlockTime := rfl
  accounts _ := id
  assets _ := rfl
  accumulatedFees _ := id
  currentSupply _ _ _ := rfl
  totalDebt _ _ := rfl
  supplyLe _ _ := le_rfl
  limitOrders := .refl .refl _
  callOrders := .refl .refl _
  forceSettlements := .refl .refl _
  collateralBids := .refl (fun _ ↦ rfl) _
  vestingBalances := rfl

theorem Frame.trans (h : s.Frame s') (h' : s'.Frame s'') : s.Frame s'' where
  headBlockTime := h'.headBlockTime.trans h.headBlockTime
  accounts id := h'.accounts id ∘ h.accounts id
  assets id := (h'.assets id).trans (h.assets id)
  accumulatedFees id := h'.accumulatedFees id ∘ h.accumulatedFees id
  currentSupply id hid hcalls :=
    (h'.currentSupply id (isMarketIssued_of_terms (h.assets id) hid)
      (not_hasCallOrders_of_shrinks h.callOrders hcalls)).trans (h.currentSupply id hid hcalls)
  totalDebt id hid :=
    (h'.totalDebt id (isMarketIssued_of_terms (h.assets id) hid)).trans (h.totalDebt id hid)
  supplyLe id hid :=
    (h'.supplyLe id (isMarketIssued_of_terms (h.assets id) hid)).trans (h.supplyLe id hid)
  limitOrders := h.limitOrders.trans (fun _ _ _ ↦ .trans) h'.limitOrders
  callOrders := h.callOrders.trans (fun _ _ _ ↦ .trans) h'.callOrders
  forceSettlements := h.forceSettlements.trans (fun _ _ _ ↦ .trans) h'.forceSettlements
  collateralBids := h.collateralBids.trans (fun _ _ _ ↦ .trans) h'.collateralBids
  vestingBalances := h'.vestingBalances.trans h.vestingBalances

/-- A step that adds `d` to the books inside a frame. -/
structure Trade (d : Books) (s s' : MarketState) : Prop where
  books : s'.books = s.books + d
  frame : s.Frame s'

theorem Trade.refl (s : MarketState) : Trade 0 s s := ⟨(add_zero _).symm, .refl s⟩

theorem Trade.trans {d d' : Books} (h : Trade d s s') (h' : Trade d' s' s'') :
    Trade (d + d') s s'' := ⟨by rw [h'.books, h.books, add_assoc], h.frame.trans h'.frame⟩

theorem Trade.congr {d d' : Books} (h : Trade d s s') (hd : d = d') : Trade d' s s' := hd ▸ h

/-- A trade that leaves the orders themselves alone. -/
structure Payment (d : Books) (s s' : MarketState) : Prop extends Trade d s s' where
  limitOrders : s'.limitOrders = s.limitOrders
  callOrders : s'.callOrders = s.callOrders
  forceSettlements : s'.forceSettlements = s.forceSettlements
  collateralBids : s'.collateralBids = s.collateralBids

theorem Payment.refl (s : MarketState) : Payment 0 s s := ⟨.refl s, rfl, rfl, rfl, rfl⟩

theorem Payment.trans {d d' : Books} (h : Payment d s s') (h' : Payment d' s' s'') :
    Payment (d + d') s s'' :=
  ⟨h.toTrade.trans h'.toTrade, h'.limitOrders.trans h.limitOrders,
    h'.callOrders.trans h.callOrders, h'.forceSettlements.trans h.forceSettlements,
    h'.collateralBids.trans h.collateralBids⟩

theorem Payment.congr {d d' : Books} (h : Payment d s s') (hd : d = d') : Payment d' s s' := hd ▸ h

/-- A statement under an `if` is a payment when the one it guards is. -/
theorem payment_of_whenever {c : Prop} [Decidable c] {f : MarketState → Checked MarketState}
    {d : Books} (hf : ∀ s', c → f s = .ok s' → Payment d s s') (hd : ¬c → d = 0)
    (h : whenever c f s = .ok s') : Payment d s s' := by
  rcases whenever_eq_ok.mp h with ⟨hc, h⟩ | ⟨hc, rfl⟩
  · exact hf s' hc h
  · exact (Payment.refl s).congr (hd hc).symm

/-! ## Single writes -/

section writes

variable {acct : AccountId} {delta : Asset} {id : ℕ}

theorem payment_of_adjustBalance (h : s.adjustBalance acct delta = .ok s') :
    Payment (held delta.assetId delta.amount) s s' := by
  simp only [adjustBalance, Checked.bind_eq_ok, Checked.pure_eq_ok] at h
  obtain ⟨bs, hbs, rfl⟩ := h
  have hbalances : balanceBooks bs = balanceBooks s.balances + held delta.assetId delta.amount := by
    ext a
    · simpa [balanceBooks, held_fst] using adjustBalance_totalOf hbs a
    · simp [balanceBooks]
  refine ⟨⟨?_, { Frame.refl s with }⟩, rfl, rfl, rfl, rfl⟩
  simp only [books, hbalances]
  abel

theorem payment_of_setAccount {a a' : AccountObject} (ha : s.accounts.find id = some a) :
    Payment (a'.statistics.books id - a.statistics.books id) s
      { s with accounts := s.accounts.set id a' } := by
  refine ⟨⟨?_, { Frame.refl s with accounts := fun key hkey ↦ ?_ }⟩, rfl, rfl, rfl, rfl⟩
  · simp only [books, total_set ha]
    abel
  · simp only [find_set ha]
    split_ifs
    · rfl
    · exact hkey

theorem payment_of_modifyAccount {f : AccountObject → Checked AccountObject}
    (h : s.modifyAccount id f = .ok s') : ∃ a a', s.accounts.find id = some a ∧ f a = .ok a' ∧
      Payment (a'.statistics.books id - a.statistics.books id) s s' := by
  simp only [modifyAccount, Checked.bind_eq_ok, Checked.pure_eq_ok, get_eq_ok] at h
  obtain ⟨a, ha, a', ha', rfl⟩ := h
  exact ⟨a, a', ha, ha', payment_of_setAccount ha⟩

theorem payment_of_modifyStatistics {f : AccountStatistics → Checked AccountStatistics} {d : Books}
    (hf : ∀ b b', f b = .ok b' → b'.books id = b.books id + d)
    (h : s.modifyStatistics id f = .ok s') : Payment d s s' := by
  obtain ⟨a, a', -, ha', hpayment⟩ := payment_of_modifyAccount h
  simp only [Checked.bind_eq_ok, Checked.pure_eq_ok] at ha'
  obtain ⟨b', hb', rfl⟩ := ha'
  exact hpayment.congr (by rw [hf _ _ hb']; abel)

theorem find_setAsset {a a' : AssetObject} {key : AssetId} (ha : s.assets.find id = some a) :
    ({ s with assets := s.assets.set id a' } : MarketState).assets.find key =
      if key = id then some a' else s.assets.find key := find_set ha

theorem currentSupply_setAsset {a a' : AssetObject} {key : AssetId}
    (ha : s.assets.find id = some a) :
    ({ s with assets := s.assets.set id a' } : MarketState).currentSupply key =
      if key = id then a'.dynamicData.currentSupply else s.currentSupply key := by
  rw [currentSupply, find_setAsset ha]
  split_ifs <;> rfl

theorem accumulatedFees_setAsset {a a' : AssetObject} {key : AssetId}
    (ha : s.assets.find id = some a) :
    ({ s with assets := s.assets.set id a' } : MarketState).accumulatedFees key =
      if key = id then a'.dynamicData.accumulatedFees else s.accumulatedFees key := by
  rw [accumulatedFees, find_setAsset ha]
  split_ifs <;> rfl

theorem currentSupply_of_find {a : AssetObject} (ha : s.assets.find id = some a) :
    s.currentSupply id = a.dynamicData.currentSupply := by simp [currentSupply, ha]

theorem accumulatedFees_of_find {a : AssetObject} (ha : s.assets.find id = some a) :
    s.accumulatedFees id = a.dynamicData.accumulatedFees := by simp [accumulatedFees, ha]

theorem isMarketIssued_of_find {a : AssetObject} (ha : s.assets.find id = some a) :
    s.IsMarketIssued id ↔ a.isMarketIssued := by simp [IsMarketIssued, ha]

theorem books_setAsset {a a' : AssetObject} (ha : s.assets.find id = some a) :
    ({ s with assets := s.assets.set id a' } : MarketState).books =
      s.books + (a'.books id - a.books id) := by
  simp only [books, total_set ha]
  abel

/-- Dynamic data may change around a trade but for the supply of a market-issued asset. -/
theorem payment_of_setDynamicData {a : AssetObject} {d : AssetDynamicData}
    (ha : s.assets.find id = some a)
    (hconfidential : d.confidentialSupply = a.dynamicData.confidentialSupply)
    (hfees : 0 ≤ a.dynamicData.accumulatedFees → 0 ≤ d.accumulatedFees)
    (hsupply : a.isMarketIssued → d.currentSupply = a.dynamicData.currentSupply) :
    Payment (d.books id - a.dynamicData.books id) s
      { s with assets := s.assets.set id { a with dynamicData := d } } := by
  have hkept : ∀ key, s.IsMarketIssued key →
      ({ s with assets := s.assets.set id { a with dynamicData := d } } :
        MarketState).currentSupply key = s.currentSupply key := by
    intro key hkey
    rw [currentSupply_setAsset ha]
    split_ifs with heq
    · subst heq
      rw [hsupply ((isMarketIssued_of_find ha).mp hkey), currentSupply_of_find ha]
    · rfl
  refine ⟨⟨?_, { Frame.refl s with assets := fun key ↦ ?_, accumulatedFees := fun key hkey ↦ ?_,
                                   currentSupply := fun key hkey _ ↦ hkept key hkey,
                                   supplyLe := fun key hkey ↦ (hkept key hkey).le,
                                   totalDebt := fun key hkey ↦ ?_ }⟩, rfl, rfl, rfl, rfl⟩
  · rw [books_setAsset ha]
    simp only [AssetObject.books, AssetObject.fund]
    abel
  · rw [find_setAsset ha]
    split_ifs with heq
    · rw [heq, ha]
      simp [AssetObject.terms, hconfidential]
    · rfl
  · rw [accumulatedFees_setAsset ha]
    split_ifs with heq
    · subst heq
      exact hfees (accumulatedFees_of_find ha ▸ hkey)
    · exact hkey
  · rw [hkept key hkey]
    rfl

theorem modifyDynamicData_cases {f : AssetDynamicData → Checked AssetDynamicData}
    (h : s.modifyDynamicData id f = .ok s') : ∃ a d, s.assets.find id = some a ∧
      f a.dynamicData = .ok d ∧
      s' = { s with assets := s.assets.set id { a with dynamicData := d } } := by
  simp only [modifyDynamicData, modifyAsset, Checked.bind_eq_ok, Checked.pure_eq_ok,
    get_eq_ok] at h
  obtain ⟨a, ha, _, ⟨d, hd, rfl⟩, rfl⟩ := h
  exact ⟨a, d, ha, hd, rfl⟩

theorem payment_of_modifyDynamicData {f : AssetDynamicData → Checked AssetDynamicData} {d : Books}
    (h : s.modifyDynamicData id f = .ok s')
    (hf : ∀ a x, s.assets.find id = some a → f a.dynamicData = .ok x →
      x.confidentialSupply = a.dynamicData.confidentialSupply ∧
      (0 ≤ a.dynamicData.accumulatedFees → 0 ≤ x.accumulatedFees) ∧
      (a.isMarketIssued → x.currentSupply = a.dynamicData.currentSupply) ∧
      x.books id = a.dynamicData.books id + d) : Payment d s s' := by
  obtain ⟨a, x, ha, hx, rfl⟩ := modifyDynamicData_cases h
  obtain ⟨hconfidential, hfees, hsupply, hbooks⟩ := hf a x ha hx
  exact (payment_of_setDynamicData ha hconfidential hfees hsupply).congr (by rw [hbooks]; abel)

theorem trade_of_removeLimitOrder {o : LimitOrderObject} (ho : s.limitOrders.find id = some o) :
    Trade (-o.books) s { s with limitOrders := s.limitOrders.remove id } := by
  refine ⟨?_, { Frame.refl s with limitOrders := shrinks_remove .refl _ _ }⟩
  simp only [books, total_remove ho]
  abel

theorem trade_of_setLimitOrder {o o' : LimitOrderObject} (ho : s.limitOrders.find id = some o)
    (hred : o.Reduces o') :
    Trade (o'.books - o.books) s { s with limitOrders := s.limitOrders.set id o' } := by
  refine ⟨?_, { Frame.refl s with limitOrders := shrinks_set .refl ho hred }⟩
  simp only [books, total_set ho]
  abel

theorem trade_of_removeSettlement {o : ForceSettlementObject}
    (ho : s.forceSettlements.find id = some o) :
    Trade (-held o.balance.assetId o.balance.amount) s
      { s with forceSettlements := s.forceSettlements.remove id } := by
  refine ⟨?_, { Frame.refl s with forceSettlements := shrinks_remove .refl _ _ }⟩
  simp only [books, total_remove ho]
  abel

theorem trade_of_setSettlement {o o' : ForceSettlementObject}
    (ho : s.forceSettlements.find id = some o) (hred : o.Reduces o') :
    Trade (held o'.balance.assetId o'.balance.amount - held o.balance.assetId o.balance.amount) s
      { s with forceSettlements := s.forceSettlements.set id o' } := by
  refine ⟨?_, { Frame.refl s with forceSettlements := shrinks_set .refl ho hred }⟩
  simp only [books, total_set ho]
  abel

theorem trade_of_removeBid {b : CollateralBidObject} (hb : s.collateralBids.find id = some b) :
    Trade (-held b.invSwanPrice.base.assetId b.invSwanPrice.base.amount) s
      { s with collateralBids := s.collateralBids.remove id } := by
  refine ⟨?_, { Frame.refl s with collateralBids := shrinks_remove (fun _ ↦ rfl) _ _ }⟩
  simp only [books, total_remove hb]
  abel

theorem payment_of_pushAppliedOperation (f : FillOrderOperation) (s : MarketState) :
    Payment f.stray s (s.pushAppliedOperation f) := by
  refine ⟨⟨?_, { Frame.refl s with }⟩, rfl, rfl, rfl, rfl⟩
  simp only [books, pushAppliedOperation, List.map_append, List.sum_append, List.map_cons,
    List.map_nil, List.sum_cons, List.sum_nil]
  abel

end writes

end MarketState

end KarmaCore.Market
