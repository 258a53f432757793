import Mathlib
import KarmaCore.Market.ApplySound

/-!
# Passes keep the market sound

The passes of a block and of maintenance add nothing to the books: what they take
from an accumulator, from the reserve or from an order they give to someone.
-/

namespace KarmaCore.Market

open Transfer (get get_eq_ok)
open Books ObjectIndex

namespace MarketState

variable {s s' t : MarketState} {mia id : AssetId} {d : Books} {amount : ℤ}

theorem Adds.trans_zero {s'' : MarketState} (h : Adds 0 s s') (h' : Adds 0 s' s'') : Adds 0 s s'' :=
  (h.trans h').congr (add_zero 0)

/-! ## Block passes -/

theorem adds_of_cancelExpiredOrder {cancelFee : ℕ} (hs : s.AllSound)
    (h : s.cancelExpiredOrder cancelFee id = .ok s') : Adds 0 s s' := by
  unfold cancelExpiredOrder at h
  split at h
  · refine adds_of_evaluateAndApply hs (fun _ hpaid _ hdo ↦ ?_) h
    exact .noRest (LimitOrderCancelOperation.upholds_of_doApply (hs.of_frame hpaid.frame) hdo).adds
  · obtain rfl := Except.ok.inj h
    exact .refl hs

theorem adds_of_cancelExpiredOrders {cancelFee : ℕ} {ids : List ℕ} (hs : s.AllSound)
    (h : cancelExpiredOrders cancelFee ids s = .ok s') : Adds 0 s s' := by
  induction ids generalizing s with
  | nil =>
      obtain rfl := Except.ok.inj h
      exact .refl hs
  | cons id ids ih =>
      simp only [cancelExpiredOrders, Checked.bind_eq_ok] at h
      obtain ⟨s₁, hcancel, h⟩ := h
      have hfirst := adds_of_cancelExpiredOrder hs hcancel
      exact hfirst.trans_zero (ih hfirst.sound h)

theorem adds_of_settleOrder {price : Price} {maxVolume settled settled' : ℤ} {calls : List ℕ}
    (hs : s.AllSound) (h : settleOrder mia id price maxVolume calls settled s = .ok (settled', s')) :
    Adds 0 s s' := by
  induction calls generalizing settled s with
  | nil =>
      rw [settleOrder] at h
      split at h
      · obtain ⟨-, rfl⟩ := Prod.mk.inj (Except.ok.inj h)
        exact .refl hs
      · split_ifs at h
        obtain ⟨-, rfl⟩ := Prod.mk.inj (Except.ok.inj h)
        exact .refl hs
  | cons call calls ih =>
      rw [settleOrder] at h
      split at h
      · obtain ⟨-, rfl⟩ := Prod.mk.inj (Except.ok.inj h)
        exact .refl hs
      · split_ifs at h with hroom hamount
        · simp only [Checked.bind_eq_ok, Checked.pure_eq_ok] at h
          obtain ⟨t, hcancel, heq⟩ := h
          obtain ⟨-, rfl⟩ := Prod.mk.inj heq
          exact (trade_of_cancelSettlement hcancel).adds hs
        · dsimp only at h
          split at h
          · next amount t hmatch =>
              simp only [Checked.bind_eq_ok] at h
              obtain ⟨_, -, h⟩ := h
              have hmatched := (trade_of_matchSettlement hs (sub_nonneg.mpr hroom.le) hmatch).adds hs
              exact hmatched.trans_zero (ih hmatched.sound h)
          · simp only [Checked.bind_eq_ok, Checked.pure_eq_ok] at h
            obtain ⟨t, hcancel, heq⟩ := h
            obtain ⟨-, rfl⟩ := Prod.mk.inj heq
            exact (trade_of_cancelSettlement hcancel).adds hs
          · cases h
        · obtain ⟨-, rfl⟩ := Prod.mk.inj (Except.ok.inj h)
          exact .refl hs

/-- Writing the volume that was settled changes nothing else of an asset. -/
theorem adds_of_setVolume {volume : ℤ} (hs : s.AllSound)
    (h : s.modifyBitassetData mia (fun b ↦ .ok { b with forceSettledVolume := volume }) = .ok s') :
    Adds 0 s s' := by
  refine (keeps_of_modifyBitassetData hs h fun a b b' _ _ hb' hfeeds ↦ ?_).toUpholds.adds
  obtain rfl := Except.ok.inj hb'
  exact ⟨rfl, rfl, .inl rfl, ⟨hfeeds.currentFeed, hfeeds.feeds⟩⟩

theorem adds_of_settleDue {order : ForceSettlementObject} {b : AssetBitassetData} {maxVolume : ℤ}
    (hs : s.AllSound) (h : s.settleDue mia id order b maxVolume = .ok s') : Adds 0 s s' := by
  simp only [settleDue, Checked.bind_eq_ok, Prod.exists] at h
  obtain ⟨value, -, price, -, lowest, -, settled, s₁, hsettle, hvolume⟩ := h
  have hsettled := adds_of_settleOrder hs hsettle
  rcases whenever_eq_ok.mp hvolume with ⟨-, hvolume⟩ | ⟨-, rfl⟩
  · exact hsettled.trans_zero (adds_of_setVolume hsettled.sound hvolume)
  · exact hsettled

theorem adds_of_clearSettlement {known known' : Asset} {goOn : Bool} (hs : s.AllSound)
    (h : s.clearSettlement mia id known = .ok (goOn, known', s')) : Adds 0 s s' := by
  simp only [clearSettlement, Checked.bind_eq_ok] at h
  obtain ⟨order, -, asset, -, b, -, h⟩ := h
  have hcancelled : ∀ {known₀ : Asset}, (do
      let s ← s.cancelSettlement id
      return (true, known₀, s) : Checked (Bool × Asset × MarketState)) = .ok (goOn, known', s') →
      Adds 0 s s' := by
    intro known₀ hcancel
    simp only [Checked.bind_eq_ok, Checked.pure_eq_ok] at hcancel
    obtain ⟨s₁, hcancel, heq⟩ := hcancel
    obtain ⟨-, heq⟩ := Prod.mk.inj heq
    obtain ⟨-, rfl⟩ := Prod.mk.inj heq
    exact (trade_of_cancelSettlement hcancel).adds hs
  split_ifs at h
  · exact hcancelled h
  · obtain ⟨-, heq⟩ := Prod.mk.inj (Checked.pure_eq_ok.mp h)
    obtain ⟨-, rfl⟩ := Prod.mk.inj heq
    exact .refl hs
  · exact hcancelled h
  · simp only [Checked.bind_eq_ok] at h
    obtain ⟨volume, -, h⟩ := h
    split_ifs at h
    · obtain ⟨-, heq⟩ := Prod.mk.inj (Checked.pure_eq_ok.mp h)
      obtain ⟨-, rfl⟩ := Prod.mk.inj heq
      exact .refl hs
    · simp only [Checked.bind_eq_ok, Checked.pure_eq_ok] at h
      obtain ⟨s₁, hdue, heq⟩ := h
      obtain ⟨-, heq⟩ := Prod.mk.inj heq
      obtain ⟨-, rfl⟩ := Prod.mk.inj heq
      exact adds_of_settleDue hs hdue

theorem adds_of_clearSettlements {fuel : ℕ} {current : AssetId} {known : Asset} (hs : s.AllSound)
    (h : clearSettlements fuel current known s = .ok s') : Adds 0 s s' := by
  induction fuel generalizing current known s with
  | zero =>
      obtain rfl := Except.ok.inj h
      exact .refl hs
  | succ fuel ih =>
      rw [clearSettlements] at h
      split at h
      · obtain rfl := Except.ok.inj h
        exact .refl hs
      · simp only [Checked.bind_eq_ok, Prod.exists] at h
        obtain ⟨goOn, known', s₁, hclear, h⟩ := h
        have hcleared := adds_of_clearSettlement hs hclear
        split_ifs at h
        · exact hcleared.trans_zero (ih hcleared.sound h)
        · split at h
          · exact hcleared.trans_zero (ih hcleared.sound h)
          · obtain rfl := Checked.pure_eq_ok.mp h
            exact hcleared

theorem adds_of_clearExpiredOrders {cancelFee : ℕ} (hs : s.AllSound)
    (h : s.clearExpiredOrders cancelFee = .ok s') : Adds 0 s s' := by
  simp only [clearExpiredOrders, Checked.bind_eq_ok] at h
  obtain ⟨s₁, hcancel, h⟩ := h
  have hcancelled := adds_of_cancelExpiredOrders hs hcancel
  unfold clearDueSettlements at h
  split at h
  · obtain rfl := Except.ok.inj h
    exact hcancelled
  · exact hcancelled.trans_zero (adds_of_clearSettlements hcancelled.sound h)

theorem adds_of_refreshFeed (hs : s.AllSound) (h : s.refreshFeed mia = .ok s') : Adds 0 s s' := by
  simp only [refreshFeed, Checked.bind_eq_ok, Checked.pure_eq_ok, Prod.exists] at h
  obtain ⟨s₁, hmodify, b, -, called, s₂, hcheck, rfl⟩ := h
  have hk : Keeps s s₁ := by
    refine keeps_of_modifyBitassetData hs hmodify fun a b b' _ _ hb' hfeeds ↦ ?_
    obtain rfl := Except.ok.inj hb'
    have hsame : BitassetKept a.dynamicData.currentSupply b b := ⟨rfl, rfl, .inl rfl, hfeeds⟩
    exact hsame.updateMedianFeeds _
  exact (hk.trans (walks_of_checkCallOrders hk.sound hcheck).1).toUpholds.adds

theorem adds_of_adoptExchangeRate (hs : s.AllSound) (h : s.adoptExchangeRate mia = .ok s') :
    Adds 0 s s' := by
  simp only [adoptExchangeRate, Checked.bind_eq_ok] at h
  obtain ⟨a, -, b, -, h⟩ := h
  rcases whenever_eq_ok.mp h with ⟨-, h⟩ | ⟨-, rfl⟩
  · obtain ⟨a, a', ha, heq, rfl⟩ := modifyAsset_cases h
    obtain rfl := Except.ok.inj heq
    refine Upholds.adds (Keeps.toUpholds (keeps_of_setOptions hs ha ?_ ?_ ?_))
    exacts [rfl, rfl, hs.feesNonneg mia a ha]
  · exact .refl hs

theorem adds_of_updateFeeds {mias : List AssetId} (hs : s.AllSound)
    (h : updateFeeds mias s = .ok s') : Adds 0 s s' := by
  induction mias generalizing s with
  | nil =>
      obtain rfl := Except.ok.inj h
      exact .refl hs
  | cons mia mias ih =>
      simp only [updateFeeds, updateExpiredFeed, Checked.bind_eq_ok] at h
      obtain ⟨t, ⟨b, -, s₁, hrefresh, hadopt⟩, h⟩ := h
      have hrefreshed : Adds 0 s s₁ := by
        rcases whenever_eq_ok.mp hrefresh with ⟨-, hrefresh⟩ | ⟨-, rfl⟩
        · exact adds_of_refreshFeed hs hrefresh
        · exact .refl hs
      have hadopted := hrefreshed.trans_zero (adds_of_adoptExchangeRate hrefreshed.sound hadopt)
      exact hadopted.trans_zero (ih hadopted.sound h)

/-! ## Writes beside assets and orders -/

theorem Sound.setVesting {ix : ObjectIndex VestingBalanceObject} (hs : s.AllSound)
    (h : ∀ id v, ix.find id = some v → v.balance.assetId ≠ coreAsset → 0 ≤ v.balance.amount) :
    ({ s with vestingBalances := ix } : MarketState).AllSound :=
  { hs with
    vestingBalances := h
    bitassets := fun mia a b hhand ha hb ↦ (hs.bitassets mia a b hhand ha hb).of_callOrders rfl }

theorem Sound.setTime (hs : s.AllSound) (time : ℕ) :
    ({ s with headBlockTime := time } : MarketState).AllSound :=
  { hs with
    bitassets := fun mia a b hhand ha hb ↦ (hs.bitassets mia a b hhand ha hb).of_callOrders rfl }

theorem books_setVesting {v v' : VestingBalanceObject} (hv : s.vestingBalances.find id = some v) :
    ({ s with vestingBalances := s.vestingBalances.set id v' } : MarketState).books =
      s.books + (held v'.balance.assetId v'.balance.amount - held v.balance.assetId v.balance.amount) := by
  simp only [books, total_set hv]
  abel

theorem books_createVesting (v : VestingBalanceObject) :
    ({ s with vestingBalances := s.vestingBalances.create v } : MarketState).books =
      s.books + held v.balance.assetId v.balance.amount := by
  simp only [books, total_create]
  abel

theorem adds_of_setVesting {v : VestingBalanceObject} (v' : VestingBalanceObject) (hs : s.AllSound)
    (hv : s.vestingBalances.find id = some v)
    (hnonneg : v'.balance.assetId ≠ coreAsset → 0 ≤ v'.balance.amount) :
    Adds (held v'.balance.assetId v'.balance.amount - held v.balance.assetId v.balance.amount) s
      { s with vestingBalances := s.vestingBalances.set id v' } := by
  refine ⟨books_setVesting hv, hs.setVesting fun key x hx ↦ ?_⟩
  rw [find_set hv] at hx
  split_ifs at hx
  · exact Option.some.inj hx ▸ hnonneg
  · exact hs.vestingBalances key x hx

theorem adds_of_createVesting (v : VestingBalanceObject) (hs : s.AllSound)
    (hnonneg : v.balance.assetId ≠ coreAsset → 0 ≤ v.balance.amount) :
    Adds (held v.balance.assetId v.balance.amount) s
      { s with vestingBalances := s.vestingBalances.create v } := by
  refine ⟨books_createVesting v, hs.setVesting fun key x hx ↦ ?_⟩
  rw [find_create] at hx
  split_ifs at hx
  · exact Option.some.inj hx ▸ hnonneg
  · exact hs.vestingBalances key x hx

/-- The dynamic data of the core asset may change but for its confidential supply. -/
theorem adds_of_modifyCore {f : AssetDynamicData → Checked AssetDynamicData} (hs : s.AllSound)
    (h : s.modifyDynamicData coreAsset f = .ok s')
    (hf : ∀ a x, s.assets.find coreAsset = some a → f a.dynamicData = .ok x →
      x.confidentialSupply = a.dynamicData.confidentialSupply ∧
      x.books coreAsset = a.dynamicData.books coreAsset + d) : Adds d s s' := by
  obtain ⟨a, x, ha, hx, rfl⟩ := modifyDynamicData_cases h
  obtain ⟨hconfidential, hbooks⟩ := hf a x ha hx
  have hkept := hs.assetKept ha
  refine ⟨?_, hs.setAsset ha ⟨hkept.core, hkept.maxMarketFee, fun hne ↦ absurd rfl hne,
    hconfidential ▸ hkept.confidentialSupply, hkept.feeds, hkept.backing⟩ fun _ b hb ↦ ?_⟩
  · rw [books_setAsset ha]
    simp only [AssetObject.books, AssetObject.fund, hbooks]
    abel
  · exact absurd (by rw [AssetObject.isMarketIssued, hb, Option.isSome_some])
      (hs.core_not_marketIssued a ha)

theorem adds_of_burn (hs : s.AllSound)
    (h : s.modifyDynamicData coreAsset (·.subSupply amount) = .ok s') :
    Adds (held coreAsset amount) s s' :=
  (payment_of_subSupply hs.core_not_marketIssued h).toTrade.adds hs

theorem adds_of_adjustBalance {acct : AccountId} {delta : Asset} (hs : s.AllSound)
    (h : s.adjustBalance acct delta = .ok s') : Adds (held delta.assetId delta.amount) s s' :=
  (payment_of_adjustBalance h).toTrade.adds hs

/-! ## FBA fees -/

theorem fbaAccumulators_of_adjustBalance {acct : AccountId} {delta : Asset}
    (h : s.adjustBalance acct delta = .ok s') : s'.fbaAccumulators = s.fbaAccumulators := by
  simp only [adjustBalance, Checked.bind_eq_ok, Checked.pure_eq_ok] at h
  obtain ⟨_, -, rfl⟩ := h
  rfl

theorem adds_of_distributeFba {fees : ℤ} {buybackPct issuerPct : ℕ} (hs : s.AllSound)
    (h : s.distributeFba fees buybackPct issuerPct mia = .ok s') :
    Adds (held coreAsset fees) s s' ∧ s'.fbaAccumulators = s.fbaAccumulators := by
  simp only [distributeFba, Checked.bind_eq_ok, checkedShare_eq_ok, require_eq_ok] at h
  obtain ⟨buybackAmount, -, issuerAmount, -, _, ⟨-, rfl⟩, -, -, _, ⟨-, rfl⟩, asset, -, s₁, hburn,
    buyback, -, s₂, hbuyback, hissuer⟩ := h
  have hburned : Adds (held coreAsset (fees - (buybackAmount + issuerAmount))) s s₁ ∧
      s₁.fbaAccumulators = s.fbaAccumulators := by
    rcases whenever_eq_ok.mp hburn with ⟨-, hburn⟩ | ⟨hzero, rfl⟩
    · refine ⟨adds_of_burn hs hburn, ?_⟩
      obtain ⟨_, _, -, -, rfl⟩ := modifyDynamicData_cases hburn
      rfl
    · rw [not_not] at hzero
      exact ⟨(Adds.refl hs).congr (by rw [hzero, map_zero]), rfl⟩
  have hpaid := hburned.1.trans (adds_of_adjustBalance hburned.1.sound hbuyback)
  refine ⟨(hpaid.trans (adds_of_adjustBalance hpaid.sound hissuer)).congr ?_, ?_⟩
  · simp only [map_sub, map_add]
    abel
  · rw [fbaAccumulators_of_adjustBalance hissuer, fbaAccumulators_of_adjustBalance hbuyback,
      hburned.2]

theorem adds_of_clearFba {fba : FbaAccumulatorObject} (hs : s.AllSound)
    (hfba : s.fbaAccumulators.find id = some fba) (h : s.clearFba id = .ok s') :
    Adds (-held coreAsset fba.accumulatedFbaFees) s s' := by
  simp only [clearFba, Checked.bind_eq_ok, Checked.pure_eq_ok, get_eq_ok] at h
  obtain ⟨fba', hfba', rfl⟩ := h
  obtain rfl := Option.some.inj (hfba.symm.trans hfba')
  exact ((payment_of_setFba hfba).congr (by simp)).toTrade.adds hs

theorem adds_of_splitFbaBalance {networkPct buybackPct issuerPct : ℕ} (hs : s.AllSound)
    (h : s.splitFbaBalance id networkPct buybackPct issuerPct = .ok s') : Adds 0 s s' := by
  simp only [splitFbaBalance, Checked.bind_eq_ok, get_eq_ok] at h
  obtain ⟨-, -, fba, hfba, h⟩ := h
  split_ifs at h
  · obtain rfl := Checked.pure_eq_ok.mp h
    exact .refl hs
  · simp only [Checked.bind_eq_ok] at h
    obtain ⟨mia, -, s₁, hdistribute, hclear⟩ := h
    obtain ⟨hdistributed, hsame⟩ := adds_of_distributeFba hs hdistribute
    exact (hdistributed.trans (adds_of_clearFba hdistributed.sound (hsame ▸ hfba) hclear)).congr
      (add_neg_cancel _)
  · simp only [Checked.bind_eq_ok] at h
    obtain ⟨s₁, hburn, hclear⟩ := h
    have hburned := adds_of_burn hs hburn
    have hsame : s₁.fbaAccumulators = s.fbaAccumulators := by
      obtain ⟨_, _, -, -, rfl⟩ := modifyDynamicData_cases hburn
      rfl
    exact (hburned.trans (adds_of_clearFba hburned.sound (hsame ▸ hfba) hclear)).congr
      (add_neg_cancel _)

theorem adds_of_distributeFbaBalances (hs : s.AllSound) (h : s.distributeFbaBalances = .ok s') :
    Adds 0 s s' := by
  simp only [distributeFbaBalances, Checked.bind_eq_ok] at h
  obtain ⟨s₁, hfirst, s₂, hsecond, hthird⟩ := h
  have h₁ := adds_of_splitFbaBalance hs hfirst
  have h₂ := h₁.trans_zero (adds_of_splitFbaBalance h₁.sound hsecond)
  exact h₂.trans_zero (adds_of_splitFbaBalance h₂.sound hthird)

/-! ## Vesting deposits -/

theorem adds_of_depositVesting {vbo : VestingBalanceObject} (hs : s.AllSound)
    (hvbo : s.vestingBalances.find id = some vbo) (h : s.depositVesting id vbo amount = .ok s') :
    Adds (held coreAsset amount) s s' := by
  simp only [depositVesting, Checked.bind_eq_ok, Checked.pure_eq_ok] at h
  obtain ⟨balance, hbalance, rfl⟩ := h
  obtain ⟨hcore, -, rfl⟩ := Asset.add_eq_ok.mp hbalance
  refine (adds_of_setVesting { vbo with
    balance := ⟨vbo.balance.amount + amount, vbo.balance.assetId⟩ } hs hvbo fun hne ↦
      absurd hcore hne).congr ?_
  dsimp only at hcore ⊢
  rw [hcore, map_add]
  abel

theorem adds_of_depositLazyVesting {vbid created : Option ℕ} {vestingSeconds : ℕ}
    {owner : AccountId} (hs : s.AllSound)
    (h : s.depositLazyVesting vbid amount vestingSeconds owner = .ok (created, s')) :
    Adds (held coreAsset amount) s s' ∧ s'.accounts = s.accounts := by
  unfold depositLazyVesting at h
  split_ifs at h with hzero
  · obtain ⟨-, rfl⟩ := Prod.mk.inj (Except.ok.inj h)
    exact ⟨(Adds.refl hs).congr (by rw [hzero, map_zero]), rfl⟩
  · simp only [Checked.bind_eq_ok] at h
    obtain ⟨target, htarget, h⟩ := h
    split at h
    · next key vbo =>
        have hvbo : s.vestingBalances.find key = some vbo := by
          unfold lazyVestingTarget at htarget
          split at htarget
          · cases htarget
          · simp only [Checked.bind_eq_ok, get_eq_ok, Checked.pure_eq_ok] at htarget
            obtain ⟨vbo', hvbo', heq⟩ := htarget
            split_ifs at heq
            obtain ⟨rfl, rfl⟩ := Prod.mk.inj (Option.some.inj heq)
            exact hvbo'
        simp only [Checked.bind_eq_ok, Checked.pure_eq_ok] at h
        obtain ⟨s₁, hdeposit, heq⟩ := h
        obtain ⟨-, rfl⟩ := Prod.mk.inj heq
        refine ⟨adds_of_depositVesting hs hvbo hdeposit, ?_⟩
        simp only [depositVesting, Checked.bind_eq_ok, Checked.pure_eq_ok] at hdeposit
        obtain ⟨_, -, rfl⟩ := hdeposit
        rfl
    · obtain ⟨-, rfl⟩ := Prod.mk.inj (Except.ok.inj h)
      exact ⟨adds_of_createVesting ⟨owner, ⟨amount, coreAsset⟩, some vestingSeconds⟩ hs fun hne ↦
        absurd rfl hne, rfl⟩

/-- The statistics of all accounts stay as they are. -/
def SameStatistics (s s' : MarketState) : Prop :=
  ∀ id, (s'.accounts.find id).map AccountObject.statistics =
    (s.accounts.find id).map AccountObject.statistics

theorem SameStatistics.of_accounts (h : s'.accounts = s.accounts) : SameStatistics s s' :=
  fun id ↦ by rw [h]

theorem SameStatistics.trans {s'' : MarketState} (h : SameStatistics s s')
    (h' : SameStatistics s' s'') : SameStatistics s s'' := fun id ↦ (h' id).trans (h id)

/-- A change of an account that leaves its statistics as they are. -/
theorem adds_of_modifyAccount {acct : AccountId} (f : AccountObject → AccountObject)
    (hs : s.AllSound) (hf : ∀ a, (f a).statistics = a.statistics)
    (h : s.modifyAccount acct (fun a ↦ .ok (f a)) = .ok s') : Adds 0 s s' ∧ SameStatistics s s' := by
  simp only [modifyAccount, Checked.bind_eq_ok, Checked.pure_eq_ok, get_eq_ok] at h
  obtain ⟨a, ha, a', ha', rfl⟩ := h
  obtain rfl := Except.ok.inj ha'
  refine ⟨((payment_of_setAccount ha).congr ?_).toTrade.adds hs, fun key ↦ ?_⟩
  · rw [hf, sub_self]
  · simp only [find_set ha]
    split_ifs with hkey
    · rw [hkey, ha, Option.map_some, Option.map_some, hf]
    · rfl

theorem adds_of_setCashbackVb {acct : AccountId} {vbid : Option ℕ} (hs : s.AllSound)
    (h : s.setCashbackVb acct vbid = .ok s') : Adds 0 s s' ∧ SameStatistics s s' := by
  unfold setCashbackVb at h
  split at h
  · next id => exact adds_of_modifyAccount (fun a ↦ { a with cashbackVb := some id }) hs (fun _ ↦ rfl) h
  · obtain rfl := Except.ok.inj h
    exact ⟨.refl hs, .of_accounts rfl⟩

theorem adds_of_depositCashback {acct : AccountId} (hs : s.AllSound)
    (h : s.depositCashback acct amount = .ok s') :
    Adds (held coreAsset amount) s s' ∧ SameStatistics s s' := by
  simp only [depositCashback, Checked.bind_eq_ok] at h
  obtain ⟨account, -, h⟩ := h
  split_ifs at h with hzero
  · obtain rfl := Checked.pure_eq_ok.mp h
    exact ⟨(Adds.refl hs).congr (by rw [hzero, map_zero]), .of_accounts rfl⟩
  · refine ⟨adds_of_burn hs h, .of_accounts ?_⟩
    obtain ⟨_, _, -, -, rfl⟩ := modifyDynamicData_cases h
    rfl
  · simp only [Checked.bind_eq_ok, Prod.exists] at h
    obtain ⟨vbid, s₁, hdeposit, hset⟩ := h
    obtain ⟨hdeposited, haccounts⟩ := adds_of_depositLazyVesting hs hdeposit
    obtain ⟨hset, hsame⟩ := adds_of_setCashbackVb hdeposited.sound hset
    exact ⟨(hdeposited.trans hset).congr (add_zero _), (SameStatistics.of_accounts haccounts).trans hsame⟩

/-! ## Collected fees -/

theorem adds_of_updateReferrer {acct : AccountId} (hs : s.AllSound)
    (h : s.updateReferrer acct = .ok s') : Adds 0 s s' ∧ SameStatistics s s' := by
  simp only [updateReferrer, Checked.bind_eq_ok] at h
  obtain ⟨account, -, referrer, -, h⟩ := h
  rcases whenever_eq_ok.mp h with ⟨-, h⟩ | ⟨-, rfl⟩
  · exact adds_of_modifyAccount (fun a ↦ { a with referrer := a.lifetimeReferrer }) hs
      (fun _ ↦ rfl) h
  · exact ⟨.refl hs, .of_accounts rfl⟩

/-- The cuts of the network, the referrers and the registrar are the whole fee. -/
theorem adds_of_payOutFees {acct : AccountId} {coreFeeTotal : ℤ} (hs : s.AllSound)
    (h : s.payOutFees acct coreFeeTotal = .ok s') :
    Adds (held coreAsset coreFeeTotal) s s' ∧ SameStatistics s s' := by
  simp only [payOutFees, Checked.bind_eq_ok, checkedShare_eq_ok] at h
  obtain ⟨s₁, hreferrer, account, -, _, ⟨-, rfl⟩, _, ⟨-, rfl⟩, s₂, hnetwork, _, ⟨-, rfl⟩, s₃, hlifetime,
    s₄, hreferred, hregistrar⟩ := h
  obtain ⟨h₁, hsame₁⟩ := adds_of_updateReferrer hs hreferrer
  have h₂ : Adds (held coreAsset (cutFee coreFeeTotal account.networkFeePercentage)) s₁ s₂ := by
    refine adds_of_modifyCore h₁.sound hnetwork fun a x _ hx ↦ ?_
    simp only [Checked.bind_eq_ok, Checked.pure_eq_ok, checkedShare_eq_ok] at hx
    obtain ⟨_, ⟨-, rfl⟩, rfl⟩ := hx
    refine ⟨rfl, ?_⟩
    simp only [AssetDynamicData.books, map_add, map_sub]
    abel
  have hsame₂ : SameStatistics s₁ s₂ := by
    obtain ⟨_, _, -, -, rfl⟩ := modifyDynamicData_cases hnetwork
    exact .of_accounts rfl
  obtain ⟨h₃, hsame₃⟩ := adds_of_depositCashback h₂.sound hlifetime
  obtain ⟨h₄, hsame₄⟩ := adds_of_depositCashback h₃.sound hreferred
  obtain ⟨h₅, hsame₅⟩ := adds_of_depositCashback h₄.sound hregistrar
  refine ⟨((((h₁.trans h₂).trans h₃).trans h₄).trans h₅).congr ?_,
    (((hsame₁.trans hsame₂).trans hsame₃).trans hsame₄).trans hsame₅⟩
  simp only [map_sub]
  abel

theorem adds_of_processFees {acct : AccountId} (hs : s.AllSound)
    (h : s.processFees acct = .ok s') : Adds 0 s s' := by
  simp only [processFees, Checked.bind_eq_ok, get_eq_ok] at h
  obtain ⟨account, haccount, h⟩ := h
  split_ifs at h
  · simp only [Checked.bind_eq_ok] at h
    obtain ⟨s₁, hpending, s₂, hvested, hclear⟩ := h
    obtain ⟨h₁, hsame₁⟩ := adds_of_payOutFees hs hpending
    obtain ⟨h₂, hsame₂⟩ := adds_of_payOutFees h₁.sound hvested
    have hcleared : Payment (-held coreAsset
        (account.statistics.pendingFees + account.statistics.pendingVestedFees)) s₂ s' := by
      obtain ⟨a, a', ha, ha', hpaid⟩ := payment_of_modifyAccount hclear
      have hstatistics : a.statistics = account.statistics := by
        have hsame := (hsame₁.trans hsame₂) acct
        rw [ha, haccount] at hsame
        exact Option.some.inj hsame
      simp only [Checked.bind_eq_ok, Checked.pure_eq_ok, checkedShare_eq_ok] at ha'
      obtain ⟨_, ⟨_, -, _, ⟨-, rfl⟩, rfl⟩, rfl⟩ := ha'
      refine hpaid.congr ?_
      simp only [AccountStatistics.books, hstatistics, map_add, map_zero]
      abel
    refine ((h₁.trans h₂).trans (hcleared.toTrade.adds h₂.sound)).congr ?_
    rw [map_add]
    abel
  · obtain rfl := Checked.pure_eq_ok.mp h
    exact .refl hs

theorem adds_of_processAllFees {accts : List AccountId} (hs : s.AllSound)
    (h : processAllFees accts s = .ok s') : Adds 0 s s' := by
  induction accts generalizing s with
  | nil =>
      obtain rfl := Except.ok.inj h
      exact .refl hs
  | cons acct accts ih =>
      simp only [processAllFees, Checked.bind_eq_ok] at h
      obtain ⟨s₁, hprocess, h⟩ := h
      have hprocessed := adds_of_processFees hs hprocess
      exact hprocessed.trans_zero (ih hprocessed.sound h)

/-! ## Settled assets -/

theorem adds_of_renewBitasset (hs : s.AllSound) (h : s.renewBitasset mia = .ok s') :
    Adds 0 s s' := by
  simp only [renewBitasset, getBitassetData, Checked.bind_eq_ok, get_eq_ok,
    getBitassetData_eq_ok] at h
  obtain ⟨s₁, hvolume, b, ⟨a, ha, hb⟩, hprocess⟩ := h
  have hwritten := adds_of_setVolume hs hvolume
  rcases whenever_eq_ok.mp hprocess with ⟨hset, hprocess⟩ | ⟨-, rfl⟩
  · exact hwritten.trans_zero (upholds_of_processBids hwritten.sound ⟨ha, hb, hset⟩ hprocess).adds
  · exact hwritten

theorem adds_of_renewBitassets {mias : List AssetId} (hs : s.AllSound)
    (h : renewBitassets mias s = .ok s') : Adds 0 s s' := by
  induction mias generalizing s with
  | nil =>
      obtain rfl := Except.ok.inj h
      exact .refl hs
  | cons mia mias ih =>
      simp only [renewBitassets, Checked.bind_eq_ok] at h
      obtain ⟨s₁, hrenew, h⟩ := h
      have hrenewed := adds_of_renewBitasset hs hrenew
      exact hrenewed.trans_zero (ih hrenewed.sound h)

/-! ## The budget -/

/-- Paying workers touches neither the fees of the core asset nor the witness budget. -/
structure KeepsBudget (s s' : MarketState) : Prop where
  accumulatedFees : s'.accumulatedFees coreAsset = s.accumulatedFees coreAsset
  witnessBudget : s'.witnessBudget = s.witnessBudget

theorem KeepsBudget.refl (s : MarketState) : KeepsBudget s s := ⟨rfl, rfl⟩

theorem KeepsBudget.trans {s'' : MarketState} (h : KeepsBudget s s') (h' : KeepsBudget s' s'') :
    KeepsBudget s s'' :=
  ⟨h'.accumulatedFees.trans h.accumulatedFees, h'.witnessBudget.trans h.witnessBudget⟩

/-- The entry of a worker is no part of the books. -/
theorem adds_of_setWorker (id : ℕ) (worker : WorkerObject) (h : Adds d s t) :
    Adds d s { t with workers := t.workers.set id worker } :=
  ⟨h.books, { h.sound with
    bitassets := fun mia a b hhand ha hb ↦
      (h.sound.bitassets mia a b hhand ha hb).of_callOrders rfl }⟩

theorem adds_of_payWorker {worker : WorkerObject} {pay : ℤ} (hs : s.AllSound)
    (h : s.payWorker id worker pay = .ok s') :
    Adds (held coreAsset pay) s s' ∧ KeepsBudget s s' := by
  unfold payWorker at h
  split at h
  · simp only [Checked.bind_eq_ok, Checked.pure_eq_ok] at h
    obtain ⟨_, -, s₁, hburn, rfl⟩ := h
    refine ⟨adds_of_setWorker _ _ (adds_of_burn hs hburn), ?_⟩
    obtain ⟨a, x, ha, hx, rfl⟩ := modifyDynamicData_cases hburn
    simp only [AssetDynamicData.subSupply, Checked.bind_eq_ok, Checked.pure_eq_ok,
      checkedShare_eq_ok] at hx
    obtain ⟨_, ⟨-, rfl⟩, rfl⟩ := hx
    refine ⟨?_, rfl⟩
    exact (accumulatedFees_setAsset ha).trans ((if_pos rfl).trans (accumulatedFees_of_find ha).symm)
  · simp only [Checked.bind_eq_ok, get_eq_ok] at h
    obtain ⟨vbo, hvbo, hdeposit⟩ := h
    refine ⟨adds_of_depositVesting hs hvbo hdeposit, ?_⟩
    simp only [depositVesting, Checked.bind_eq_ok, Checked.pure_eq_ok] at hdeposit
    obtain ⟨_, -, rfl⟩ := hdeposit
    exact ⟨rfl, rfl⟩
  · simp only [Checked.bind_eq_ok, Checked.pure_eq_ok] at h
    obtain ⟨_, -, s₁, hpay, rfl⟩ := h
    refine ⟨adds_of_setWorker _ _ (adds_of_adjustBalance hs hpay), ?_⟩
    simp only [adjustBalance, Checked.bind_eq_ok, Checked.pure_eq_ok] at hpay
    obtain ⟨_, -, rfl⟩ := hpay
    exact ⟨rfl, rfl⟩

/-- The workers are paid what is gone from the budget. -/
theorem adds_of_payActiveWorkers {workers : List (ℕ × WorkerObject)} {budget left : ℤ}
    (hs : s.AllSound) (h : payActiveWorkers workers budget s = .ok (left, s')) :
    Adds (held coreAsset (budget - left)) s s' ∧ KeepsBudget s s' := by
  induction workers generalizing budget s with
  | nil =>
      obtain ⟨rfl, rfl⟩ := Prod.mk.inj (Except.ok.inj h)
      exact ⟨(Adds.refl hs).congr (by rw [sub_self, map_zero]), .refl s⟩
  | cons o workers ih =>
      obtain ⟨id, worker⟩ := o
      simp only [payActiveWorkers] at h
      split_ifs at h
      · simp only [Checked.bind_eq_ok, checkedShare_eq_ok] at h
        obtain ⟨requested, -, s₁, hpay, _, ⟨-, rfl⟩, h⟩ := h
        obtain ⟨hpaid, hkept⟩ := adds_of_payWorker hs hpay
        obtain ⟨hrest, hkept'⟩ := ih hpaid.sound h
        refine ⟨(hpaid.trans hrest).congr ?_, hkept.trans hkept'⟩
        rw [← map_add]
        ring_nf
      · obtain ⟨rfl, rfl⟩ := Prod.mk.inj (Except.ok.inj h)
        exact ⟨(Adds.refl hs).congr (by rw [sub_self, map_zero]), .refl s⟩

theorem initializeBudgetRecord_spec {record : BudgetRecord}
    (h : s.initializeBudgetRecord = .ok record) :
    record.fromAccumulatedFees = s.accumulatedFees coreAsset ∧
      record.fromUnusedWitnessBudget = s.witnessBudget := by
  simp only [initializeBudgetRecord, Checked.bind_eq_ok, get_eq_ok] at h
  obtain ⟨core, hcore, _, -, h⟩ := h
  rw [accumulatedFees_of_find hcore]
  split_ifs at h
  · obtain rfl := Checked.pure_eq_ok.mp h
    exact ⟨rfl, rfl⟩
  · simp only [Checked.bind_eq_ok, Checked.pure_eq_ok] at h
    obtain ⟨_, -, _, -, _, -, rfl⟩ := h
    exact ⟨rfl, rfl⟩

theorem adds_of_setBudget (budget : ℤ) (time : ℕ) (hs : s.AllSound) :
    Adds (held coreAsset (budget - s.witnessBudget)) s
      { s with witnessBudget := budget, lastBudgetTime := time } := by
  refine ⟨?_, { hs with
    bitassets := fun mia a b hhand ha hb ↦ (hs.bitassets mia a b hhand ha hb).of_callOrders rfl }⟩
  simp only [books, map_sub]
  abel

/-- The new supply is what the budgets take beyond the fees and the unused budget. -/
theorem adds_of_processBudget (hs : s.AllSound) (h : s.processBudget = .ok s') : Adds 0 s s' := by
  simp only [processBudget, payWorkers, Checked.bind_eq_ok, Checked.pure_eq_ok, checkedShare_eq_ok,
    Prod.exists] at h
  obtain ⟨record, hrecord, _, ⟨-, rfl⟩, workerBudget, -, leftover, s₁, hpay, _, ⟨-, rfl⟩, s₂, hsupply,
    rfl⟩ := h
  obtain ⟨hfees, hunused⟩ := initializeBudgetRecord_spec hrecord
  obtain ⟨hpaid, hkept⟩ := adds_of_payActiveWorkers hs hpay
  set budget := min s.requestedWitnessBudget record.totalBudget
  have hadded : Adds (-held coreAsset (budget + workerBudget - leftover -
      record.fromAccumulatedFees - record.fromUnusedWitnessBudget) -
      held coreAsset (s₁.accumulatedFees coreAsset)) s₁ s₂ := by
    refine adds_of_modifyCore hpaid.sound hsupply fun a x ha hx ↦ ?_
    simp only [AssetDynamicData.addSupply, Checked.bind_eq_ok, Checked.pure_eq_ok,
      checkedShare_eq_ok] at hx
    obtain ⟨_, ⟨_, ⟨-, rfl⟩, rfl⟩, rfl⟩ := hx
    refine ⟨rfl, ?_⟩
    rw [accumulatedFees_of_find ha]
    simp only [AssetDynamicData.books, map_add, map_sub, map_zero]
    abel
  have hbudget : s₂.witnessBudget = s₁.witnessBudget := by
    obtain ⟨_, _, -, -, rfl⟩ := modifyDynamicData_cases hsupply
    rfl
  refine ((hpaid.trans hadded).trans (adds_of_setBudget _ _ hadded.sound)).congr ?_
  rw [hbudget, hkept.witnessBudget, hkept.accumulatedFees, hfees, hunused, ← map_neg, ← map_sub,
    ← map_add, ← map_add]
  ring_nf
  exact map_zero _

/-! ## Maintenance -/

theorem adds_updateWorkerVotes (votes : ℕ → ℤ × ℤ) (workers : List (ℕ × WorkerObject))
    (hs : s.AllSound) : Adds 0 s (updateWorkerVotes votes workers s) := by
  induction workers generalizing s with
  | nil => exact .refl hs
  | cons o workers ih =>
      have hset := adds_of_setWorker o.1 { o.2 with
        totalVotesFor := (votes o.1).1, totalVotesAgainst := (votes o.1).2 } (.refl hs)
      exact hset.trans_zero (ih hset.sound)

theorem adds_updateMaintenanceTime (hs : s.AllSound) : Adds 0 s s.updateMaintenanceTime := by
  unfold updateMaintenanceTime
  split_ifs
  · exact ⟨(add_zero _).symm, { hs with
      bitassets := fun mia a b hhand ha hb ↦ (hs.bitassets mia a b hhand ha hb).of_callOrders rfl }⟩
  · exact .refl hs

theorem adds_of_beforeBudget {accounts : List AccountId} {votes : ℕ → ℤ × ℤ}
    (hs : s.AllSound) (h : s.beforeBudget accounts votes = .ok s') : Adds 0 s s' := by
  simp only [beforeBudget, Checked.bind_eq_ok] at h
  obtain ⟨s₁, hfba, s₂, hfees, hrenew⟩ := h
  have h₁ := adds_of_distributeFbaBalances hs hfba
  have h₂ := h₁.trans_zero (adds_of_processAllFees h₁.sound hfees)
  have h₃ := h₂.trans_zero (adds_updateWorkerVotes votes s₂.workers.objects h₂.sound)
  have h₄ := h₃.trans_zero (adds_updateMaintenanceTime h₃.sound)
  exact h₄.trans_zero (adds_of_renewBitassets h₄.sound hrenew)

theorem adds_of_performChainMaintenance {accounts : List AccountId} {votes : ℕ → ℤ × ℤ}
    (hs : s.AllSound) (h : s.performChainMaintenance accounts votes = .ok s') : Adds 0 s s' := by
  obtain ⟨t, ht, hbudget⟩ := performChainMaintenance_eq_ok.mp h
  have hbefore := adds_of_beforeBudget hs ht
  exact hbefore.trans_zero (adds_of_processBudget hbefore.sound hbudget)

theorem adds_of_updateSigningWitness (hs : s.AllSound) (h : s.updateSigningWitness id = .ok s') :
    Adds 0 s s' := by
  simp only [updateSigningWitness, Checked.bind_eq_ok, Checked.pure_eq_ok, checkedShare_eq_ok,
    Prod.exists] at h
  obtain ⟨witness, -, _, ⟨-, rfl⟩, vbid, s₁, hdeposit, rfl⟩ := h
  have htaken := adds_of_setBudget
    (s.witnessBudget - min s.parameters.witnessPayPerBlock s.witnessBudget) s.lastBudgetTime hs
  obtain ⟨hdeposited, -⟩ := adds_of_depositLazyVesting htaken.sound hdeposit
  have hboth : Adds 0 s s₁ := by
    refine (htaken.trans hdeposited).congr ?_
    rw [← map_add]
    ring_nf
    exact map_zero _
  split
  · exact ⟨hboth.books, { hboth.sound with
      bitassets := fun mia a b hhand ha hb ↦
        (hboth.sound.bitassets mia a b hhand ha hb).of_callOrders rfl }⟩
  · exact hboth

end MarketState

end KarmaCore.Market
