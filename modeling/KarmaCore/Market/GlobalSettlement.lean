import Mathlib
import KarmaCore.Market.Matching

/-!
# Global settlement

Settling an asset closes every call order in it, gathers their collateral in the
settlement fund and records the price of the supply in that fund.
-/

namespace KarmaCore.Market

open Transfer (get get_eq_ok)
open Books ObjectIndex

/-! ## The range of a book -/

theorem Price.Bounded.lt_shareEnd {p : Price} (h : p.Bounded) :
    p.base.amount < shareEnd ∧ p.quote.amount < shareEnd :=
  ⟨h.base_le.trans_lt maxShareSupply_lt, h.quote_le.trans_lt maxShareSupply_lt⟩

/-- A bounded price lies between the least and the greatest price of its pair. -/
theorem Price.Bounded.between {p lowest highest : Price} (h : p.Bounded)
    (hlowest : Price.lowest p.base.assetId p.quote.assetId = .ok lowest)
    (hhighest : Price.highest p.base.assetId p.quote.assetId = .ok highest) :
    ¬p.Lt lowest ∧ ¬highest.Lt p := by
  obtain ⟨-, rfl⟩ := per_eq_ok.mp hlowest
  obtain ⟨-, rfl⟩ := per_eq_ok.mp hhighest
  obtain ⟨hbase, hquote⟩ := h.lt_shareEnd
  have hmax : (0 : ℤ) ≤ maxShareSupply := by decide
  have hone : (1 : ℤ) < shareEnd := by decide
  simp only [Price.Lt, lt_self_iff_false, false_or, true_and, not_lt]
  rw [mul128_eq hmax maxShareSupply_lt h.base.le hbase, mul128_eq h.quote.le hquote zero_le_one hone,
    mul128_eq h.quote.le hquote hmax maxShareSupply_lt, mul128_eq zero_le_one hone h.base.le hbase]
  have hbase_pos : 1 ≤ p.base.amount := h.base
  have hquote_pos : 1 ≤ p.quote.amount := h.quote
  have hbase_le := h.base_le
  have hquote_le := h.quote_le
  constructor <;> nlinarith

/-- A price between the least and the greatest price of a pair is a price of that pair. -/
theorem Price.pair_of_between {p lowest highest : Price} {base quote : AssetId}
    (hlowest : Price.lowest base quote = .ok lowest) (hhighest : Price.highest base quote = .ok highest)
    (hlow : ¬p.Lt lowest) (hhigh : ¬highest.Lt p) :
    p.base.assetId = base ∧ p.quote.assetId = quote := by
  obtain ⟨-, rfl⟩ := per_eq_ok.mp hlowest
  obtain ⟨-, rfl⟩ := per_eq_ok.mp hhighest
  simp only [Price.Lt, not_or, not_and, not_lt] at hlow hhigh
  have hbase : p.base.assetId = base := le_antisymm hhigh.1 hlow.1
  exact ⟨hbase, le_antisymm (hhigh.2 hbase.symm).1 (hlow.2 hbase).1⟩

namespace MarketState

variable {s s' : MarketState} {inHand : AssetId → Prop}

/-- The call orders a global settlement walks over are those in the asset. -/
theorem mem_callsBetween (hs : s.Sound inHand) {mia : AssetId} {a : AssetObject}
    {b : AssetBitassetData} {lowest highest : Price} (ha : s.assets.find mia = some a)
    (hb : a.bitassetData = some b)
    (hlowest : Price.lowest b.options.shortBackingAsset mia = .ok lowest)
    (hhighest : Price.highest b.options.shortBackingAsset mia = .ok highest) {o : ℕ × CallOrderObject} :
    o ∈ s.callsBetween lowest highest ↔ s.callOrders.find o.1 = some o.2 ∧ o.2.debtType = mia := by
  rw [callsBetween, mem_select]
  refine and_congr_right fun ho ↦ ?_
  constructor
  · rintro ⟨hlow, hhigh⟩
    exact (Price.pair_of_between hlowest hhighest hlow hhigh).2
  · intro hmia
    have hsound := hs.callOrders _ _ ho
    obtain ⟨a', b', ha', hb', hbacking⟩ := hsound.backing
    obtain rfl := Option.some.inj (ha.symm.trans (hmia ▸ ha'))
    obtain rfl := Option.some.inj (hb.symm.trans hb')
    rw [hbacking, ← hmia] at hlowest hhighest
    exact hsound.callPrice.between hlowest hhighest

/-! ## Closing call orders -/

theorem seizedCollateral_spec {order : CallOrderObject} {price : Price} {pays : Asset}
    (hcollateral : 0 ≤ order.collateral) (h : seizedCollateral order price = .ok pays) :
    pays.assetId = order.collateralType ∧ 0 ≤ pays.amount := by
  simp only [seizedCollateral, Checked.bind_eq_ok, Checked.pure_eq_ok] at h
  obtain ⟨value, hvalue, backed, hle, rfl⟩ := h
  obtain ⟨hid, -⟩ := Asset.le_eq_ok.mp hle
  split_ifs
  · exact ⟨hid, times_nonneg hvalue⟩
  · exact ⟨rfl, hcollateral⟩

/-- What is known once some call orders were closed for a fund. -/
structure Closed (mia : AssetId) (ids : List ℕ) (gathered gathered' : Asset) (covered : ℤ)
    (s s' : MarketState) : Prop extends
    Trade (held mia covered - held gathered.assetId (gathered'.amount - gathered.amount)) s s' where
  currentSupply : s.IsMarketIssued mia → s'.currentSupply mia = s.currentSupply mia - covered
  assetId : gathered'.assetId = gathered.assetId
  le : gathered.amount ≤ gathered'.amount
  lt : gathered.amount < shareEnd → gathered'.amount < shareEnd
  gone : ∀ id ∈ ids, s'.callOrders.find id = none

theorem closed_of_closeCallOrders {mia : AssetId} {price : Price} {ids : List ℕ}
    {gathered gathered' : Asset} (hs : s.Sound inHand)
    (hids : ∀ id ∈ ids, ∀ c, s.callOrders.find id = some c → c.debtType = mia)
    (h : closeCallOrders price ids gathered s = .ok (gathered', s')) :
    ∃ covered, Closed mia ids gathered gathered' covered s s' := by
  induction ids generalizing gathered s with
  | nil =>
      obtain ⟨rfl, rfl⟩ := Prod.mk.inj (Except.ok.inj h)
      exact ⟨0, (Trade.refl s).congr (by simp), by simp, rfl, le_rfl, id, by simp⟩
  | cons id ids ih =>
      simp only [closeCallOrders, Checked.bind_eq_ok, deref_eq_ok, require_eq_ok] at h
      obtain ⟨c, hc, pays, hpays, sum, hsum, ⟨filled, s₁⟩, hfill, -, hfilled, h⟩ := h
      have hsound := hs.callOrders id c hc
      have hmia : c.getDebt.assetId = mia := hids id List.mem_cons_self c hc
      obtain ⟨-, hpays0⟩ := seizedCollateral_spec hsound.collateral hpays
      obtain ⟨hsame, hrange, rfl⟩ := Asset.add_eq_ok.mp hsum
      have hfill := trade_of_fillCallOrder hpays0 hsound.debt.le (fun c' hc' ↦ by
        rw [Option.some.inj (hc'.symm.trans hc)]
        exact le_rfl) hfill
      obtain ⟨covered, hrest⟩ := ih (hs.of_frame hfill.frame) (fun key hkey c' hc' ↦ by
        obtain ⟨c₀, hc₀, hred⟩ := hfill.frame.callOrders key c' hc'
        exact hred.debtType.trans (hids key (List.mem_cons_of_mem _ hkey) c₀ hc₀)) h
      refine ⟨c.debt + covered, (hfill.toTrade.trans hrest.toTrade).congr ?_, fun hmarket ↦ ?_,
        hrest.assetId, ?_, fun _ ↦ hrest.lt hrange.2, fun key hkey ↦ ?_⟩
      · rw [hmia, ← hsame]
        simp only [CallOrderObject.getDebt, map_add, map_sub]
        abel
      · have hfirst := hfill.currentSupply (hmia ▸ hmarket)
        rw [hmia] at hfirst
        rw [hrest.currentSupply (isMarketIssued_of_terms (hfill.frame.assets mia) hmarket), hfirst]
        simp only [CallOrderObject.getDebt]
        ring
      · have hle := hrest.le
        dsimp only at hle
        omega
      · rcases List.mem_cons.mp hkey with rfl | hkey
        · exact hrest.frame.callOrders.find_eq_none (hfill.find_self hfilled)
        · exact hrest.gone key hkey

/-! ## Recording the settlement -/

/-- What holds across the steps that leave the books even and create no limit order. -/
structure Upholds (s s' : MarketState) : Prop where
  books : s'.books = s.books
  sound : s'.AllSound
  headBlockTime : s'.headBlockTime = s.headBlockTime
  limitOrders : s.limitOrders.Shrinks LimitOrderObject.Reduces s'.limitOrders

/-- What holds across those that create no call order either. -/
structure Keeps (s s' : MarketState) : Prop extends Upholds s s' where
  callOrders : s.callOrders.Shrinks CallOrderObject.Reduces s'.callOrders

theorem Upholds.refl (hs : s.AllSound) : Upholds s s := ⟨rfl, hs, rfl, .refl .refl _⟩

theorem Upholds.trans {s'' : MarketState} (h : Upholds s s') (h' : Upholds s' s'') : Upholds s s'' :=
  ⟨h'.books.trans h.books, h'.sound, h'.headBlockTime.trans h.headBlockTime,
    h.limitOrders.trans (fun _ _ _ ↦ .trans) h'.limitOrders⟩

theorem Keeps.refl (hs : s.AllSound) : Keeps s s := ⟨.refl hs, .refl .refl _⟩

theorem Keeps.trans {s'' : MarketState} (h : Keeps s s') (h' : Keeps s' s'') : Keeps s s'' :=
  ⟨h.toUpholds.trans h'.toUpholds, h.callOrders.trans (fun _ _ _ ↦ .trans) h'.callOrders⟩

theorem Trade.keeps (h : Trade 0 s s') (hs : s.AllSound) : Keeps s s' :=
  ⟨⟨by rw [h.books, add_zero], hs.of_frame h.frame, h.frame.headBlockTime, h.frame.limitOrders⟩,
    h.frame.callOrders⟩

theorem getBitassetData_eq_ok {a : AssetObject} {b : AssetBitassetData} :
    a.getBitassetData = .ok b ↔ a.bitassetData = some b := by
  unfold AssetObject.getBitassetData
  split <;> simp_all

theorem modifyBitassetData_cases {id : AssetId} {f : AssetBitassetData → Checked AssetBitassetData}
    (h : s.modifyBitassetData id f = .ok s') : ∃ a b b', s.assets.find id = some a ∧
      a.bitassetData = some b ∧ f b = .ok b' ∧
      s' = { s with assets := s.assets.set id { a with bitassetData := some b' } } := by
  simp only [modifyBitassetData, modifyAsset, Checked.bind_eq_ok, Checked.pure_eq_ok, get_eq_ok,
    getBitassetData_eq_ok] at h
  obtain ⟨a, ha, _, ⟨b, hb, b', hb', rfl⟩, rfl⟩ := h
  exact ⟨a, b, b', ha, hb, hb', rfl⟩

theorem Sound.ne_core (hs : s.Sound inHand) {id : AssetId} {a : AssetObject} {b : AssetBitassetData}
    (ha : s.assets.find id = some a) (hb : a.bitassetData = some b) : id ≠ coreAsset := by
  rintro rfl
  obtain ⟨x, hx, hnone⟩ := hs.core
  rw [Option.some.inj (ha.symm.trans hx), hnone] at hb
  cases hb

theorem hasSettlement_of_base {b : AssetBitassetData} (h : b.settlementPrice.base.assetId ≠ coreAsset) :
    b.HasSettlement := fun hnull ↦ h hnull.1

/-- The version of a settled asset that the settlement writes. -/
def settledAsset (price : Price) (fund supply : ℤ) (b : AssetBitassetData) (a : AssetObject) :
    AssetObject :=
  { a with
    bitassetData := some { b with settlementPrice := price, settlementFund := fund }
    dynamicData := { a.dynamicData with currentSupply := supply } }

theorem globallySettleAsset_cases {mia : AssetId} {price : Price}
    (h : s.globallySettleAsset mia price = .ok s') : ∃ a b t gathered lowest highest,
      s.assets.find mia = some a ∧ a.bitassetData = some b ∧ ¬b.HasSettlement ∧
      Price.lowest b.options.shortBackingAsset mia = .ok lowest ∧
      Price.highest b.options.shortBackingAsset mia = .ok highest ∧
      closeCallOrders price ((s.callsBetween lowest highest).map Prod.fst)
        ⟨0, b.options.shortBackingAsset⟩ s = .ok (gathered, t) ∧
      ∃ a' b', t.assets.find mia = some a' ∧ a'.bitassetData = some b' ∧ s' = { t with
        assets := t.assets.set mia (settledAsset ⟨⟨a.dynamicData.currentSupply, mia⟩, gathered⟩
          gathered.amount a.dynamicData.currentSupply b' a') } := by
  simp only [globallySettleAsset, Checked.bind_eq_ok, get_eq_ok, getBitassetData_eq_ok,
    require_eq_ok, per_eq_ok] at h
  obtain ⟨a, ha, b, hb, -, hset, -, -, lowest, hlowest, highest, hhighest, ⟨gathered, t⟩, hclose, _,
    ⟨-, rfl⟩, s₂, hbitasset, hdynamic⟩ := h
  obtain ⟨a', b', _, ha', hb', hprice, rfl⟩ := modifyBitassetData_cases hbitasset
  obtain rfl := Except.ok.inj hprice
  obtain ⟨a₂, _, ha₂, hsupply, rfl⟩ := modifyDynamicData_cases hdynamic
  obtain rfl := Except.ok.inj hsupply
  have hwritten : a₂ = { a' with bitassetData := some { b' with
      settlementPrice := ⟨⟨a.dynamicData.currentSupply, mia⟩, gathered⟩
      settlementFund := gathered.amount } } := by
    simpa [find_set ha'] using ha₂.symm
  refine ⟨a, b, t, gathered, lowest, highest, ha, hb, hset, hlowest, hhighest, hclose, a', b', ha',
    hb', ?_⟩
  rw [hwritten]
  simp only [set_set]
  rfl

theorem settledAsset_books {a : AssetObject} {b : AssetBitassetData} {id : AssetId} {price : Price}
    {fund supply : ℤ} (hb : a.bitassetData = some b) (hfund : b.settlementFund = 0) :
    (settledAsset price fund supply b a).books id - a.books id =
      held b.options.shortBackingAsset fund - held id (supply - a.dynamicData.currentSupply) := by
  simp only [AssetObject.books, settledAsset, AssetDynamicData.books, AssetObject.fund, hb, hfund,
    map_add, map_sub, map_zero]
  abel

theorem keeps_of_globallySettleAsset {mia : AssetId} {price : Price} (hs : s.AllSound)
    (hpositive : 0 < s.currentSupply mia) (h : s.globallySettleAsset mia price = .ok s') :
    Keeps s s' := by
  obtain ⟨a, b, t, gathered, lowest, highest, ha, hb, hset, hlowest, hhighest, hclose, a', b', ha',
    hb', rfl⟩ := globallySettleAsset_cases h
  have hcalls : ∀ id ∈ (s.callsBetween lowest highest).map Prod.fst, ∀ c,
      s.callOrders.find id = some c → c.debtType = mia := by
    intro id hid c hc
    obtain ⟨o, ho, rfl⟩ := List.mem_map.mp hid
    obtain ⟨ho, hmia⟩ := (mem_callsBetween hs ha hb hlowest hhighest).mp ho
    rwa [Option.some.inj (hc.symm.trans ho)]
  obtain ⟨covered, hclosed⟩ := closed_of_closeCallOrders hs hcalls hclose
  have ht := hs.of_frame hclosed.frame
  obtain ⟨x, hx, hterms⟩ := hclosed.frame.find_asset ha'
  obtain rfl := Option.some.inj (ha.symm.trans hx)
  obtain rfl : b' = b := Option.some.inj
    (hb'.symm.trans ((AssetObject.bitassetData_of_terms hterms).trans hb))
  have hcore := hs.ne_core ha hb
  have hmarket : s.IsMarketIssued mia :=
    (isMarketIssued_of_find ha).mpr (by rw [AssetObject.isMarketIssued, hb, Option.isSome_some])
  have hsupply := hclosed.currentSupply hmarket
  rw [currentSupply_of_find ha, currentSupply_of_find ha'] at hsupply
  rw [currentSupply_of_find ha] at hpositive
  have hnone : ¬t.HasCallOrders mia := by
    rintro ⟨id, c', hc', hmia⟩
    obtain ⟨c, hc, hred⟩ := hclosed.frame.callOrders id c' hc'
    have hmem : id ∈ (s.callsBetween lowest highest).map Prod.fst :=
      List.mem_map.mpr ⟨(id, c), (mem_callsBetween hs ha hb hlowest hhighest).mpr
        ⟨hc, hred.debtType ▸ hmia⟩, rfl⟩
    rw [hclosed.gone id hmem] at hc'
    cases hc'
  have hgathered := hclosed.assetId
  have hle := hclosed.le
  have hlt := hclosed.lt (show (0 : ℤ) < shareEnd by decide)
  dsimp only at hgathered hle hlt
  refine ⟨⟨?_, ?_, hclosed.frame.headBlockTime, hclosed.frame.limitOrders⟩, hclosed.frame.callOrders⟩
  · rw [books_setAsset ha', hclosed.books, settledAsset_books hb'
      ((hs.bitassets mia a b' not_false ha hb).fund hset), hsupply]
    simp only [sub_zero, sub_sub_cancel]
    abel
  · have hkept := ht.assetKept ha'
    refine ht.setAsset ha' { hkept with
      core := fun hid ↦ absurd hid hcore
      feeds := fun _ hb'' ↦ ?_
      backing := fun hcalls ↦ absurd hcalls hnone } fun _ b'' hb'' ↦ ?_
    · obtain rfl := Option.some.inj hb''
      exact ⟨(ht.feeds mia a' b' ha' hb').currentFeed, (ht.feeds mia a' b' ha' hb').feeds⟩
    · obtain rfl := Option.some.inj hb''
      have hsettled : AssetBitassetData.HasSettlement { b' with
          settlementPrice := ⟨⟨a.dynamicData.currentSupply, mia⟩, gathered⟩
          settlementFund := gathered.amount } := hasSettlement_of_base hcore
      refine ⟨(hs.bitassets mia a b' not_false ha hb).supply_lt, fun hnot ↦ absurd hsettled hnot,
        fun hnot ↦ absurd hsettled hnot, fun _ ↦ ?_, fun _ ↦ hnone⟩
      exact {
        base := rfl
        quote := hgathered
        base_pos := hpositive
        quote_nonneg := hle
        quote_lt := hlt
        supply_nonneg := hpositive.le
        covers := (mul_comm _ _).le
        exhausted := fun hzero ↦ absurd hzero hpositive.ne' }

/-- An asset in which a position is open has a supply. -/
theorem Sound.currentSupply_pos (hs : s.AllSound) {mia : AssetId} {a : AssetObject}
    {b : AssetBitassetData} (ha : s.assets.find mia = some a) (hb : a.bitassetData = some b)
    (hset : ¬b.HasSettlement) (hcalls : s.HasCallOrders mia) : 0 < s.currentSupply mia := by
  obtain ⟨id, c, hc, hmia⟩ := hcalls
  have hdebt := (hs.bitassets mia a b not_false ha hb).debt hset
  have hle := le_total (w := fun _ c ↦ c.getDebt.part mia) (fun key c' hc' ↦ by
    rw [CallOrderObject.part_getDebt]
    split_ifs
    exacts [(hs.callOrders key c' hc').debt.le, le_rfl]) hc
  rw [CallOrderObject.part_getDebt, if_pos hmia.symm] at hle
  rw [currentSupply_of_find ha, ← hdebt]
  exact (hs.callOrders id c hc).debt.trans_le hle

theorem keeps_of_swan {mia : AssetId} {price : Price} (hs : s.AllSound)
    (hcalls : s.HasCallOrders mia) (h : s.globallySettleAsset mia price = .ok s') : Keeps s s' := by
  obtain ⟨a, b, t, _, _, _, ha, hb, hset, -⟩ := globallySettleAsset_cases h
  exact keeps_of_globallySettleAsset hs (hs.currentSupply_pos ha hb hset hcalls) h

end MarketState

end KarmaCore.Market
