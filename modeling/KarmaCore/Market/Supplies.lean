import Mathlib
import KarmaCore.Market.Redemption

/-!
# The supplies of assets

The equation of `verify_asset_supplies`: what is held of an asset, wherever it
is, is its supply.  What an account holds of an asset other than the core is
then no more than the supply.
-/

namespace KarmaCore.Market

open Books ObjectIndex

/-- What the settlement fund of an asset holds. -/
def AssetObject.fundAsset (a : AssetObject) : Asset :=
  match a.bitassetData with
  | some b => ⟨b.settlementFund, b.options.shortBackingAsset⟩
  | none => ⟨0, coreAsset⟩

namespace MarketState

/-- `total_balances` of `verify_asset_supplies`. -/
def totalBalances (key : AssetId) (s : MarketState) : ℤ :=
  totalOf key s.balances +
    s.forceSettlements.total (fun _ o ↦ o.balance.part key) +
    s.collateralBids.total (fun _ b ↦ b.invSwanPrice.base.part key) +
    s.accounts.total (fun _ a ↦
      (Asset.mk (a.statistics.pendingFees + a.statistics.pendingVestedFees) coreAsset).part key) +
    s.limitOrders.total (fun _ o ↦
      o.amountForSale.part key + (Asset.mk o.deferredFee coreAsset).part key) +
    s.callOrders.total (fun _ c ↦ c.getCollateral.part key) +
    s.assets.total (fun id a ↦ (Asset.mk a.dynamicData.accumulatedFees id).part key +
      (Asset.mk a.dynamicData.feePool coreAsset).part key + a.fundAsset.part key +
      (Asset.mk a.dynamicData.confidentialSupply id).part key) +
    s.vestingBalances.total (fun _ v ↦ v.balance.part key) +
    s.fbaAccumulators.total (fun _ f ↦ (Asset.mk f.accumulatedFbaFees coreAsset).part key) +
    (Asset.mk s.witnessBudget coreAsset).part key

/-- The core an account has in its open limit orders and in its call orders. -/
def coreInOrders (acct : AccountId) (s : MarketState) : ℤ :=
  s.limitOrders.total (fun _ o ↦ if o.seller = acct then o.amountForSale.part coreAsset else 0) +
    s.callOrders.total (fun _ c ↦ if c.borrower = acct then c.getCollateral.part coreAsset else 0)

def totalCoreInOrders (acct : AccountId) (s : MarketState) : ℤ :=
  ((s.accounts.find acct).map (·.statistics.totalCoreInOrders)).getD 0

variable {s : MarketState} {key : AssetId} {acct : AccountId}

/-! ## The two books -/

/-- The entry of an asset in the first book. -/
def heldOf (key : AssetId) : Books →+ ℤ :=
  (Pi.evalAddMonoidHom (fun _ : AssetId ↦ ℤ) key).comp (AddMonoidHom.fst _ _)

/-- The entry of an account in the second book. -/
def countedOf (acct : AccountId) : Books →+ ℤ :=
  (Pi.evalAddMonoidHom (fun _ : AccountId ↦ ℤ) acct).comp (AddMonoidHom.snd _ _)

theorem heldOf_apply (x : Books) : heldOf key x = x.1 key := rfl

theorem countedOf_apply (x : Books) : countedOf acct x = x.2 acct := rfl

@[simp] theorem heldOf_held (id : AssetId) (x : ℤ) :
    heldOf key (held id x) = (Asset.mk x id).part key := held_fst id x key

@[simp] theorem heldOf_counted (x : ℤ) : heldOf key (counted acct x) = 0 := counted_fst acct x key

@[simp] theorem heldOf_inOrders (id : AssetId) (x : ℤ) : heldOf key (inOrders acct id x) = 0 := by
  unfold inOrders
  split_ifs
  · exact heldOf_counted x
  · rfl

@[simp] theorem countedOf_held (id : AssetId) (x : ℤ) : countedOf acct (held id x) = 0 :=
  held_snd id x acct

theorem countedOf_counted (other : AccountId) (x : ℤ) :
    countedOf acct (counted other x) = if acct = other then x else 0 := counted_snd other x acct

theorem countedOf_inOrders (other : AccountId) (id : AssetId) (x : ℤ) :
    countedOf acct (inOrders other id x) =
      if other = acct then (Asset.mk x id).part coreAsset else 0 := by
  unfold inOrders
  rw [Asset.part_mk]
  split_ifs with hid hacct hacct
  · rw [countedOf_counted, if_pos hacct.symm]
  · rw [countedOf_counted, if_neg (Ne.symm hacct)]
  · rfl
  · rfl

@[simp] theorem heldOf_stray (f : FillOrderOperation) : heldOf key f.stray = 0 := by
  unfold FillOrderOperation.stray
  split
  · split_ifs
    · exact heldOf_counted _
    · rfl
  · rfl

theorem part_add (id : AssetId) (x y : ℤ) :
    (Asset.mk (x + y) id).part key = (Asset.mk x id).part key + (Asset.mk y id).part key := by
  rw [← heldOf_held, map_add, map_add, heldOf_held, heldOf_held]

theorem heldOf_fund (a : AssetObject) : heldOf key a.fund = a.fundAsset.part key := by
  cases hb : a.bitassetData with
  | none => simp [AssetObject.fund, AssetObject.fundAsset, hb, Asset.part_mk]
  | some b => simp [AssetObject.fund, AssetObject.fundAsset, hb]

/-- A sum over an index with a term at one key only. -/
theorem total_at {α : Type} (ix : ObjectIndex α) (key : ℕ) (f : α → ℤ) :
    ix.total (fun id a ↦ if id = key then f a else 0) = ((ix.find key).map f).getD 0 := by
  cases hfind : ix.find key with
  | none =>
      refine total_eq_zero fun id a ha ↦ if_neg ?_
      rintro rfl
      rw [ha] at hfind
      cases hfind
  | some a =>
      have hrest : (ix.remove key).total (fun id a ↦ if id = key then f a else 0) = 0 := by
        refine total_eq_zero fun id a ha ↦ if_neg ?_
        rintro rfl
        rw [find_remove, if_pos rfl] at ha
        cases ha
      rw [total_remove hfind, if_pos rfl, sub_eq_zero] at hrest
      exact hrest

theorem total_zero {α : Type} (ix : ObjectIndex α) : ix.total (fun _ _ ↦ (0 : ℤ)) = 0 :=
  total_eq_zero fun _ _ _ ↦ rfl

theorem total_add {α : Type} (ix : ObjectIndex α) (w w' : ℕ → α → ℤ) :
    ix.total (fun id a ↦ w id a + w' id a) = ix.total w + ix.total w' := List.sum_map_add

theorem total_sub {α : Type} (ix : ObjectIndex α) (w w' : ℕ → α → ℤ) :
    ix.total (fun id a ↦ w id a - w' id a) = ix.total w - ix.total w' := by
  have h := total_add ix (fun id a ↦ w id a - w' id a) w'
  simp only [sub_add_cancel] at h
  exact eq_sub_of_add_eq h.symm

theorem heldOf_asset (id : AssetId) (a : AssetObject) : heldOf key (a.books id) =
    (Asset.mk a.dynamicData.accumulatedFees id).part key +
      (Asset.mk a.dynamicData.feePool coreAsset).part key + a.fundAsset.part key +
      (Asset.mk a.dynamicData.confidentialSupply id).part key -
      (Asset.mk a.dynamicData.currentSupply id).part key := by
  simp only [AssetObject.books, AssetDynamicData.books, map_add, map_sub, heldOf_held, heldOf_fund]
  ring

/-- The first book is the equation of `verify_asset_supplies`. -/
theorem books_held (s : MarketState) (key : AssetId) :
    s.books.1 key = s.totalBalances key - s.currentSupply key := by
  have hsupply : s.assets.total (fun id a ↦ (Asset.mk a.dynamicData.currentSupply id).part key) =
      s.currentSupply key := total_at s.assets key fun a ↦ a.dynamicData.currentSupply
  have hassets := total_sub s.assets (fun id a ↦
    (Asset.mk a.dynamicData.accumulatedFees id).part key +
      (Asset.mk a.dynamicData.feePool coreAsset).part key + a.fundAsset.part key +
      (Asset.mk a.dynamicData.confidentialSupply id).part key)
    fun id a ↦ (Asset.mk a.dynamicData.currentSupply id).part key
  rw [hsupply] at hassets
  have hstrays : heldOf key (s.fills.map FillOrderOperation.stray).sum = 0 := by
    rw [map_list_sum, List.map_map]
    exact List.sum_eq_zero fun x hx ↦ by
      obtain ⟨f, -, rfl⟩ := List.mem_map.mp hx
      exact heldOf_stray f
  have hbalances : heldOf key (balanceBooks s.balances) = totalOf key s.balances := rfl
  rw [← heldOf_apply]
  simp only [books, map_add, map_total, heldOf_asset, heldOf_held, hstrays, hbalances, hassets,
    AccountStatistics.books, LimitOrderObject.books, CallOrderObject.books, map_sub, heldOf_counted,
    heldOf_inOrders, totalBalances, part_add, LimitOrderObject.amountForSale, CallOrderObject.getCollateral,
    add_zero, sub_zero]
  ring

/-- The second book compares the statistics of an account with its orders. -/
theorem books_counted (s : MarketState) (acct : AccountId) :
    s.books.2 acct = s.totalCoreInOrders acct - s.coreInOrders acct +
      (s.fills.map fun f ↦ countedOf acct f.stray).sum := by
  have hstatistics : s.accounts.total (fun id a ↦ if acct = id then
      a.statistics.totalCoreInOrders else 0) = s.totalCoreInOrders acct := by
    simp only [eq_comm (a := acct)]
    exact total_at s.accounts acct fun a ↦ a.statistics.totalCoreInOrders
  have hassets : s.assets.total (fun id a ↦ countedOf acct (a.books id)) = 0 := by
    refine total_eq_zero fun id a _ ↦ ?_
    cases hb : a.bitassetData <;>
      simp [AssetObject.books, AssetDynamicData.books, AssetObject.fund, hb]
  have horders := total_sub s.limitOrders (fun _ _ ↦ 0) fun _ o ↦
    if o.seller = acct then o.amountForSale.part coreAsset else 0
  have hcalls := total_sub s.callOrders (fun _ _ ↦ 0) fun _ c ↦
    if c.borrower = acct then c.getCollateral.part coreAsset else 0
  have hbalances : countedOf acct (balanceBooks s.balances) = 0 := rfl
  rw [← countedOf_apply]
  have hstrays : countedOf acct (s.fills.map FillOrderOperation.stray).sum =
      (s.fills.map fun f ↦ countedOf acct f.stray).sum := by
    rw [map_list_sum, List.map_map]
    rfl
  simp only [zero_sub, total_zero, LimitOrderObject.amountForSale] at horders
  simp only [zero_sub, total_zero, CallOrderObject.getCollateral] at hcalls
  simp only [books, map_add, map_total, hbalances, hassets, hstrays, AccountStatistics.books,
    LimitOrderObject.books, CallOrderObject.books, map_sub, countedOf_held, countedOf_counted,
    countedOf_inOrders, total_zero, add_zero, zero_add, zero_sub, hstatistics, coreInOrders,
    LimitOrderObject.amountForSale, CallOrderObject.getCollateral, horders, hcalls]
  ring

theorem part_nonneg {a : Asset} (h : a.assetId = key → 0 ≤ a.amount) : 0 ≤ a.part key := by
  unfold Asset.part
  split_ifs with hid
  exacts [h hid, le_rfl]

/-- No order holds less than nothing. -/
theorem Sound.inOrders_nonneg (hs : s.AllSound) (key : AssetId) :
    0 ≤ s.forceSettlements.total (fun _ o ↦ o.balance.part key) +
      s.collateralBids.total (fun _ b ↦ b.invSwanPrice.base.part key) +
      s.limitOrders.total (fun _ o ↦ o.amountForSale.part key) +
      s.callOrders.total (fun _ c ↦ c.getCollateral.part key) := by
  have hsettlements : 0 ≤ s.forceSettlements.total (fun _ o ↦ o.balance.part key) :=
    total_nonneg fun id o ho ↦ part_nonneg fun _ ↦ hs.forceSettlements id o ho
  have hbids : 0 ≤ s.collateralBids.total (fun _ b ↦ b.invSwanPrice.base.part key) :=
    total_nonneg fun id b hb ↦ part_nonneg fun _ ↦ (hs.collateralBids id b not_false hb).base.le
  have horders : 0 ≤ s.limitOrders.total (fun _ o ↦ o.amountForSale.part key) :=
    total_nonneg fun id o ho ↦ part_nonneg fun _ ↦ (hs.limitOrders id o ho).forSale.le
  have hcalls : 0 ≤ s.callOrders.total (fun _ c ↦ c.getCollateral.part key) :=
    total_nonneg fun id c hc ↦ part_nonneg fun _ ↦ (hs.callOrders id c hc).collateral
  omega

theorem Sound.fund_nonneg {id : AssetId} {a : AssetObject} (hs : s.AllSound)
    (ha : s.assets.find id = some a) : 0 ≤ a.fundAsset.part key := by
  refine part_nonneg fun _ ↦ ?_
  unfold AssetObject.fundAsset
  split
  · next b hb =>
      have hsound := hs.bitassets id a b not_false ha hb
      by_cases hset : b.HasSettlement
      · exact (hsound.solvent hset).fund_nonneg
      · exact (hsound.fund hset).ge
  · exact le_rfl

/-- An account holds no more of an asset than its supply. -/
theorem balance_le_supply (hs : s.AllSound) (hkey : key ≠ coreAsset) (hbooks : s.books.1 key = 0)
    (acct : AccountId) : (s.getBalance acct key).amount ≤ s.currentSupply key := by
  have hcore : ∀ x, (Asset.mk x coreAsset).part key = 0 := fun x ↦ if_neg hkey.symm
  have hheld : (totalOf key s.balances : ℤ) ≤ s.totalBalances key := by
    have horders := hs.inOrders_nonneg key
    have hvesting : 0 ≤ s.vestingBalances.total (fun _ v ↦ v.balance.part key) :=
      total_nonneg fun id v hv ↦ part_nonneg fun hid ↦ hs.vestingBalances id v hv (hid ▸ hkey)
    have hassets : 0 ≤ s.assets.total (fun id a ↦ (Asset.mk a.dynamicData.accumulatedFees id).part key +
        a.fundAsset.part key + (Asset.mk a.dynamicData.confidentialSupply id).part key) := by
      refine total_nonneg fun id a ha ↦ add_nonneg (add_nonneg ?_ (hs.fund_nonneg ha)) ?_
      · refine part_nonneg fun hid ↦ ?_
        have hfees := hs.accumulatedFees id (hid.trans_ne hkey)
        rwa [accumulatedFees_of_find ha] at hfees
      · exact part_nonneg fun _ ↦ hs.confidentialSupply id a ha
    simp only [totalBalances, hcore, add_zero, total_zero]
    omega
  have heq := books_held s key
  have hle : (balanceOf acct key s.balances : ℤ) ≤ totalOf key s.balances :=
    Int.ofNat_le.mpr (balanceOf_le_totalOf acct key s.balances)
  rw [hbooks] at heq
  change (balanceOf acct key s.balances : ℤ) ≤ _
  omega

end MarketState

end KarmaCore.Market
