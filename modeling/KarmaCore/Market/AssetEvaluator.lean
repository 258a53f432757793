import Mathlib
import KarmaCore.Market.CollateralBid
import KarmaCore.Market.MarginCall

/-!
# The evaluators of asset operations

Creating and changing assets, their feeds, force and global settlement, and the
fees an asset has collected.  Symbols and precisions are left out.
-/

namespace KarmaCore.Market

open Transfer (get)

/-! ## Median feeds -/

/-- The element `nth_element` puts in the middle. -/
def medianOf {α : Type} (before : α → α → Prop) [∀ a b, Decidable (before a b)] (xs : List α)
    (default : α) : α :=
  ((xs.insertionSort fun a b ↦ ¬before b a)[xs.length / 2]?).getD default

namespace AssetBitassetData

/-- The feeds that are not expired, with the times they were published. -/
def currentFeeds (now : ℕ) (b : AssetBitassetData) : List (ℕ × PriceFeed) :=
  (b.feeds.map Prod.snd).filter fun f ↦
    (now : ℤ) - f.1 < b.options.feedLifetimeSec ∧ f.1 ≠ 0

def medianFeed (feeds : List PriceFeed) : PriceFeed where
  settlementPrice := medianOf Price.Lt (feeds.map (·.settlementPrice)) {}
  maintenanceCollateralRatio := medianOf (· < ·) (feeds.map (·.maintenanceCollateralRatio)) 1750
  maximumShortSqueezeRatio := medianOf (· < ·) (feeds.map (·.maximumShortSqueezeRatio)) 1500
  coreExchangeRate := medianOf Price.Lt (feeds.map (·.coreExchangeRate)) {}

def updateMedianFeeds (now : ℕ) (b : AssetBitassetData) : AssetBitassetData :=
  let feeds := b.currentFeeds now
  let published := feeds.foldl (fun t f ↦ min t f.1) now
  if feeds.length < b.options.minimumFeeds then
    { b with currentFeed := {}, currentFeedPublicationTime := now }
  else
    match feeds with
    | [f] => { b with currentFeed := f.2, currentFeedPublicationTime := published }
    | _ =>
        let currentFeed := medianFeed (feeds.map Prod.snd)
        { b with currentFeed, currentFeedPublicationTime := published }

def setFeed (publisher : AccountId) (now : ℕ) (feed : PriceFeed) (b : AssetBitassetData) :
    AssetBitassetData :=
  let others := b.feeds.filter fun f ↦ f.1 ≠ publisher
  { b with feeds := others.orderedInsert (fun f f' ↦ f.1 ≤ f'.1) (publisher, now, feed) }

/-- Keeps the feeds of publishers who stay and gives new ones an empty feed. -/
def setFeedProducers (producers : List AccountId) (b : AssetBitassetData) : AssetBitassetData :=
  let kept := b.feeds.filter fun f ↦ f.1 ∈ producers
  let added := producers.filter fun p ↦ p ∉ kept.map Prod.fst
  let feeds := kept ++ added.map fun p ↦ (p, 0, ({} : PriceFeed))
  { b with feeds := feeds.insertionSort fun f f' ↦ f.1 ≤ f'.1 }

end AssetBitassetData

/-! ## Options -/

def BitassetOptions.validate (o : BitassetOptions) : Checked Unit := do
  require (0 < o.minimumFeeds) "minimum_feeds > 0"
  require (o.forceSettlementOffsetPercent ≤ percent100)
    "force_settlement_offset_percent <= GRAPHENE_100_PERCENT"
  require (o.maximumForceSettlementVolume ≤ percent100)
    "maximum_force_settlement_volume <= GRAPHENE_100_PERCENT"

def AssetOptions.validate (o : AssetOptions) : Checked Unit := do
  require (0 < o.maxSupply) "max_supply > 0"
  require (o.maxSupply ≤ maxShareSupply) "max_supply <= GRAPHENE_MAX_SHARE_SUPPLY"
  require (o.marketFeePercent ≤ percent100) "market_fee_percent <= GRAPHENE_100_PERCENT"
  require (0 ≤ o.maxMarketFee ∧ o.maxMarketFee ≤ maxShareSupply)
    "max_market_fee >= 0 && max_market_fee <= GRAPHENE_MAX_SHARE_SUPPLY"
  require (o.issuerPermissions &&& assetIssuerPermissionMask = o.issuerPermissions)
    "!(issuer_permissions & ~ASSET_ISSUER_PERMISSION_MASK)"
  require (o.flags &&& globalSettle = 0) "!(flags & global_settle)"
  require (o.flags &&& (witnessFedAsset ||| committeeFedAsset) ≠
      witnessFedAsset ||| committeeFedAsset)
    "(flags & (witness_fed_asset | committee_fed_asset))"
  o.coreExchangeRate.validate
  require (o.coreExchangeRate.base.assetId = coreAsset ∨
      o.coreExchangeRate.quote.assetId = coreAsset)
    "core_exchange_rate.base.asset_id.instance.value == 0 || ..."
  require (o.whitelistAuthorities ≠ ∅ ∨ o.blacklistAuthorities ≠ ∅ →
      o.flags &&& Transfer.whiteList ≠ 0) "flags & white_list"
  require (Disjoint o.whitelistMarkets o.blacklistMarkets)
    "blacklist_markets.find(item) == blacklist_markets.end()"

namespace MarketState

/-- Whether the asset may back an asset of the committee account. -/
def requireCoreBacked (backing : AssetId) (s : MarketState) : Checked Unit := do
  let asset ← get (s.assets.find backing)
  let root := (asset.bitassetData.map (·.options.shortBackingAsset)).getD backing
  require (root = coreAsset)
    "May not create a blockchain-controlled market asset which is not backed by CORE."

/-- An asset that backs another may not be backed by a market-issued one. -/
def requirePlainBacking (backing : AssetObject) (s : MarketState) : Checked Unit :=
  match backing.bitassetData with
  | some b => do
      let backingBacking ← get (s.assets.find b.options.shortBackingAsset)
      require (¬backingBacking.isMarketIssued)
        "May not create a bitasset backed by a bitasset backed by a bitasset."
  | none => .ok ()

def checkAuthorities (o : AssetOptions) (s : MarketState) : Checked Unit := do
  require (o.whitelistAuthorities.card ≤ s.parameters.maximumAssetWhitelistAuthorities)
    "whitelist_authorities.size() <= chain_parameters.maximum_asset_whitelist_authorities"
  require (o.blacklistAuthorities.card ≤ s.parameters.maximumAssetWhitelistAuthorities)
    "blacklist_authorities.size() <= chain_parameters.maximum_asset_whitelist_authorities"
  demand (∀ id ∈ o.whitelistAuthorities ∪ o.blacklistAuthorities, (s.accounts.find id).isSome)
    .unableToFindObject

end MarketState

/-! ## Creating and changing an asset -/

structure AssetCreateOperation where
  fee : Asset := ⟨0, coreAsset⟩
  issuer : AccountId
  commonOptions : AssetOptions
  bitassetOpts : Option BitassetOptions
  isPredictionMarket : Bool := false

namespace AssetCreateOperation

def validateBitasset (op : AssetCreateOperation) : Checked Unit :=
  match op.bitassetOpts with
  | some o => o.validate
  | none => .ok ()

def validate (op : AssetCreateOperation) : Checked Unit := do
  require (0 ≤ op.fee.amount) "fee.amount >= 0"
  op.commonOptions.validate
  require (op.commonOptions.issuerPermissions &&& (disableForceSettle ||| globalSettle) ≠ 0 →
    op.bitassetOpts.isSome) "bitasset_opts.valid()"
  require (op.isPredictionMarket → op.bitassetOpts.isSome)
    "Cannot have a User-Issued Asset implement a prediction market."
  require (op.isPredictionMarket → op.commonOptions.issuerPermissions &&& globalSettle ≠ 0)
    "common_options.issuer_permissions & global_settle"
  op.validateBitasset
  let dummy ← times ⟨1, coreAsset⟩ op.commonOptions.coreExchangeRate
  require (dummy.assetId = 1) "dummy.asset_id == asset_id_type(1)"

def evaluateBitasset (op : AssetCreateOperation) (o : BitassetOptions) (s : MarketState) :
    Checked Unit := do
  let backing ← get (s.assets.find o.shortBackingAsset)
  s.requirePlainBacking backing
  whenever (op.issuer = committeeAccount) (fun _ ↦ s.requireCoreBacked o.shortBackingAsset) ()
  require (s.parameters.blockInterval < o.feedLifetimeSec ∧
      s.parameters.blockInterval < o.forceSettlementDelaySec)
    "op.bitasset_opts->feed_lifetime_sec > chain_parameters.block_interval"

def doEvaluate (op : AssetCreateOperation) (s : MarketState) : Checked Unit := do
  s.checkAuthorities op.commonOptions
  match op.bitassetOpts with
  | some o => op.evaluateBitasset o s
  | none => .ok ()

/-- The core exchange rate with the new asset on the side that is not the core asset. -/
def coreExchangeRate (op : AssetCreateOperation) (nextAssetId : AssetId) : Price :=
  let rate := op.commonOptions.coreExchangeRate
  if rate.base.assetId = coreAsset then { rate with quote := ⟨rate.quote.amount, nextAssetId⟩ }
  else { rate with base := ⟨rate.base.amount, nextAssetId⟩ }

/-- The fee that `pay_fee` leaves to the fee pool of the new asset. -/
def poolFee (coreFeePaid : ℤ) : ℤ := coreFeePaid - coreFeePaid.tdiv 2

def doApply (op : AssetCreateOperation) (coreFeePaid : ℤ) (s : MarketState) :
    Checked MarketState := do
  let feeIsOdd := coreFeePaid % 2 = 1
  let hf429 := feeIsOdd ∧ hardforkCore429Time < s.headBlockTime
  let feePool ← checkedShare (poolFee coreFeePaid - if hf429 then 1 else 0)
  let s ← whenever (feeIsOdd ∧ ¬hf429) (MarketState.modifyDynamicData coreAsset (·.addSupply 1)) s
  let nextAssetId := s.assets.nextId
  let asset : AssetObject := {
    issuer := op.issuer
    options := { op.commonOptions with coreExchangeRate := op.coreExchangeRate nextAssetId }
    dynamicData := { feePool }
    bitassetData := op.bitassetOpts.map fun options ↦
      { options, isPredictionMarket := op.isPredictionMarket } }
  return { s with assets := s.assets.create asset }

end AssetCreateOperation

structure AssetUpdateOperation where
  fee : Asset := ⟨0, coreAsset⟩
  issuer : AccountId
  assetToUpdate : AssetId
  newIssuer : Option AccountId := none
  newOptions : AssetOptions

namespace AssetUpdateOperation

def validate (op : AssetUpdateOperation) : Checked Unit := do
  require (0 ≤ op.fee.amount) "fee.amount >= 0"
  require (∀ issuer ∈ op.newIssuer, op.issuer ≠ issuer) "issuer != *new_issuer"
  op.newOptions.validate
  let dummy ← times ⟨1, op.assetToUpdate⟩ op.newOptions.coreExchangeRate
  require (dummy.assetId = coreAsset) "dummy.asset_id == asset_id_type()"

/-- `asset_object::validate` on a copy with the new options. -/
def validateCopy (op : AssetUpdateOperation) (a : AssetObject) : Checked Unit := do
  require (¬a.isMarketIssued → op.newOptions.flags &&& (disableForceSettle ||| globalSettle) = 0)
    "!(options.flags & disable_force_settle || options.flags & global_settle)"
  require (¬a.isMarketIssued →
      op.newOptions.issuerPermissions &&& (disableForceSettle ||| globalSettle) = 0)
    "!(options.issuer_permissions & disable_force_settle || ...)"

def checkNewIssuer (op : AssetUpdateOperation) (a : AssetObject) (s : MarketState) :
    Checked Unit := do
  require (∀ issuer ∈ op.newIssuer, (s.accounts.find issuer).isSome) "d.find_object(*o.new_issuer)"
  match a.bitassetData with
  | some b =>
      whenever (op.newIssuer = some committeeAccount)
        (fun _ ↦ s.requireCoreBacked b.options.shortBackingAsset) ()
  | none => .ok ()

def doEvaluate (op : AssetUpdateOperation) (s : MarketState) : Checked Unit := do
  let a ← get (s.assets.find op.assetToUpdate)
  op.validateCopy a
  op.checkNewIssuer a s
  require (s.headBlockTime < hardfork572Time ∨ a.dynamicData.currentSupply ≠ 0 →
      op.newOptions.issuerPermissions &&& a.options.issuerPermissions =
        op.newOptions.issuerPermissions)
    "Cannot reinstate previously revoked issuer permissions on an asset."
  require ((op.newOptions.flags ^^^ a.options.flags) &&& a.options.issuerPermissions =
      op.newOptions.flags ^^^ a.options.flags) "Flag change is forbidden by issuer permissions"
  require (op.issuer = a.issuer) "o.issuer == a.issuer"
  s.checkAuthorities op.newOptions

/-- Cancels the force settlements of the asset, the earliest first. -/
def cancelSettlements : List ℕ → MarketState → Checked MarketState
  | [], s => .ok s
  | id :: ids, s => do
      let s ← s.cancelSettlement id
      cancelSettlements ids s

def doApply (op : AssetUpdateOperation) (s : MarketState) : Checked MarketState := do
  let a ← get (s.assets.find op.assetToUpdate)
  let s ← whenever (op.newOptions.flags &&& disableForceSettle ≠ 0 ∧ a.canForceSettle)
    (cancelSettlements ((s.settlementsOf op.assetToUpdate).map Prod.fst)) s
  s.modifyAsset op.assetToUpdate fun a ↦
    .ok { a with issuer := op.newIssuer.getD a.issuer, options := op.newOptions }

end AssetUpdateOperation

structure AssetUpdateBitassetOperation where
  fee : Asset := ⟨0, coreAsset⟩
  issuer : AccountId
  assetToUpdate : AssetId
  newOptions : BitassetOptions

namespace AssetUpdateBitassetOperation

def validate (op : AssetUpdateBitassetOperation) : Checked Unit := do
  require (0 ≤ op.fee.amount) "fee.amount >= 0"
  op.newOptions.validate

def checkNewBacking (op : AssetUpdateBitassetOperation) (a : AssetObject) (b : AssetBitassetData)
    (s : MarketState) : Checked Unit := do
  require (a.dynamicData.currentSupply = 0) "a.dynamic_asset_data_id(d).current_supply == 0"
  require (s.assets.find op.newOptions.shortBackingAsset).isSome
    "d.find_object(o.new_options.short_backing_asset)"
  whenever (a.issuer = committeeAccount)
    (fun _ ↦ s.requireCoreBacked b.options.shortBackingAsset) ()

def doEvaluate (op : AssetUpdateBitassetOperation) (s : MarketState) : Checked Unit := do
  let a ← get (s.assets.find op.assetToUpdate)
  require a.isMarketIssued "Cannot update BitAsset-specific settings on a non-BitAsset."
  let b ← a.getBitassetData
  require (¬b.HasSettlement) "Cannot update a bitasset after a settlement has executed"
  whenever (op.newOptions.shortBackingAsset ≠ b.options.shortBackingAsset)
    (fun _ ↦ op.checkNewBacking a b s) ()
  require (op.issuer = a.issuer) "o.issuer == a.issuer"

def doApply (op : AssetUpdateBitassetOperation) (s : MarketState) : Checked MarketState :=
  s.modifyBitassetData op.assetToUpdate fun b ↦
    let updated := { b with options := op.newOptions }
    .ok (if op.newOptions.minimumFeeds ≠ b.options.minimumFeeds then
      updated.updateMedianFeeds s.headBlockTime else updated)

end AssetUpdateBitassetOperation

/-! ## Feeds -/

structure AssetUpdateFeedProducersOperation where
  fee : Asset := ⟨0, coreAsset⟩
  issuer : AccountId
  assetToUpdate : AssetId
  newFeedProducers : List AccountId

namespace AssetUpdateFeedProducersOperation

def validate (op : AssetUpdateFeedProducersOperation) : Checked Unit :=
  require (0 ≤ op.fee.amount) "fee.amount >= 0"

def doEvaluate (op : AssetUpdateFeedProducersOperation) (s : MarketState) : Checked Unit := do
  require (op.newFeedProducers.length ≤ s.parameters.maximumAssetFeedPublishers)
    "o.new_feed_producers.size() <= maximum_asset_feed_publishers"
  demand (∀ id ∈ op.newFeedProducers, (s.accounts.find id).isSome) .unableToFindObject
  let a ← get (s.assets.find op.assetToUpdate)
  require a.isMarketIssued "Cannot update feed producers on a non-BitAsset."
  require (a.options.flags &&& committeeFedAsset = 0)
    "Cannot set feed producers on a committee-fed asset."
  require (a.options.flags &&& witnessFedAsset = 0)
    "Cannot set feed producers on a witness-fed asset."
  require (a.issuer = op.issuer) "a.issuer == o.issuer"

def doApply (op : AssetUpdateFeedProducersOperation) (s : MarketState) : Checked MarketState := do
  let s ← s.modifyBitassetData op.assetToUpdate fun b ↦
    .ok ((b.setFeedProducers op.newFeedProducers).updateMedianFeeds s.headBlockTime)
  let (_, s) ← s.checkCallOrders op.assetToUpdate true false
  return s

end AssetUpdateFeedProducersOperation

structure AssetPublishFeedOperation where
  fee : Asset := ⟨0, coreAsset⟩
  publisher : AccountId
  assetId : AssetId
  feed : PriceFeed

namespace AssetPublishFeedOperation

def validate (op : AssetPublishFeedOperation) : Checked Unit := do
  require (0 ≤ op.fee.amount) "fee.amount >= 0"
  op.feed.validate
  whenever (¬op.feed.coreExchangeRate.IsNull) (fun _ ↦ op.feed.coreExchangeRate.validate) ()
  require (¬op.feed.settlementPrice.IsNull → ¬op.feed.coreExchangeRate.IsNull →
      op.feed.settlementPrice.base.assetId = op.feed.coreExchangeRate.base.assetId)
    "feed.settlement_price.base.asset_id == feed.core_exchange_rate.base.asset_id"
  require (¬op.feed.settlementPrice.IsNull) "!feed.settlement_price.is_null()"
  require (¬op.feed.coreExchangeRate.IsNull) "!feed.core_exchange_rate.is_null()"
  require (op.feed.IsFor op.assetId) "feed.is_for( asset_id )"

/-- Whether the publisher may publish a feed. -/
def checkPublisher (op : AssetPublishFeedOperation) (base : AssetObject) (b : AssetBitassetData)
    (s : MarketState) : Checked Unit :=
  if base.options.flags &&& witnessFedAsset ≠ 0 then do
    let witnesses ← get (s.accounts.find witnessAccount)
    require (op.publisher ∈ witnesses.activeAccountAuths)
      "d.get(GRAPHENE_WITNESS_ACCOUNT).active.account_auths.count(o.publisher)"
  else if base.options.flags &&& committeeFedAsset ≠ 0 then do
    let committee ← get (s.accounts.find committeeAccount)
    require (op.publisher ∈ committee.activeAccountAuths)
      "d.get(GRAPHENE_COMMITTEE_ACCOUNT).active.account_auths.count(o.publisher)"
  else require (op.publisher ∈ b.feeds.map Prod.fst) "bitasset.feeds.count(o.publisher)"

def doEvaluate (op : AssetPublishFeedOperation) (s : MarketState) : Checked Unit := do
  let base ← get (s.assets.find op.assetId)
  require base.isMarketIssued "base.is_market_issued()"
  let b ← base.getBitassetData
  require (b.isPredictionMarket ∨ s.headBlockTime ≤ hardforkCore216Time → ¬b.HasSettlement)
    "No further feeds may be published after a settlement event"
  require (op.feed.settlementPrice.quote.assetId = b.options.shortBackingAsset)
    "o.feed.settlement_price.quote.asset_id == bitasset.options.short_backing_asset"
  require (hardfork480Time < s.headBlockTime → ¬op.feed.coreExchangeRate.IsNull →
      op.feed.coreExchangeRate.quote.assetId = coreAsset)
    "o.feed.core_exchange_rate.quote.asset_id == asset_id_type()"
  require (s.headBlockTime ≤ hardfork480Time → ¬op.feed.settlementPrice.IsNull →
      ¬op.feed.coreExchangeRate.IsNull →
      op.feed.settlementPrice.quote.assetId = op.feed.coreExchangeRate.quote.assetId)
    "o.feed.settlement_price.quote.asset_id == o.feed.core_exchange_rate.quote.asset_id"
  op.checkPublisher base b s

/-- Whether the settlement fund is collateral enough for the supply at the new feed. -/
def fundCollateralizes (mia : AssetId) (supply : ℤ) (b : AssetBitassetData) : Checked Bool :=
  if supply = 0 then .ok true
  else do
    let callPrice ← Price.callPrice ⟨supply, mia⟩ ⟨b.settlementFund, b.options.shortBackingAsset⟩
      b.currentFeed.maintenanceCollateralRatio
    return callPrice.inverse.Lt b.currentFeed.settlementPrice

def reviveIfCollateralized (op : AssetPublishFeedOperation) (b : AssetBitassetData)
    (s : MarketState) : Checked MarketState :=
  if b.currentFeed.settlementPrice.IsNull then .ok s
  else do
    let base ← get (s.assets.find op.assetId)
    let enough ← fundCollateralizes op.assetId base.dynamicData.currentSupply b
    whenever (enough = true) (MarketState.reviveBitasset op.assetId) s

def doApply (op : AssetPublishFeedOperation) (s : MarketState) : Checked MarketState := do
  let old ← s.getBitassetData op.assetId
  let b := (old.setFeed op.publisher s.headBlockTime op.feed).updateMedianFeeds s.headBlockTime
  let s ← s.modifyBitassetData op.assetId fun _ ↦ .ok b
  if old.currentFeed.Same b.currentFeed then return s
  else do
    let s ← whenever b.HasSettlement (op.reviveIfCollateralized b) s
    let (_, s) ← s.checkCallOrders op.assetId true false
    return s

end AssetPublishFeedOperation

/-! ## Settlement -/

structure AssetGlobalSettleOperation where
  fee : Asset := ⟨0, coreAsset⟩
  issuer : AccountId
  assetToSettle : AssetId
  settlePrice : Price

namespace AssetGlobalSettleOperation

def validate (op : AssetGlobalSettleOperation) : Checked Unit := do
  require (0 ≤ op.fee.amount) "fee.amount >= 0"
  require (op.assetToSettle = op.settlePrice.base.assetId)
    "asset_to_settle == settle_price.base.asset_id"

def doEvaluate (op : AssetGlobalSettleOperation) (s : MarketState) : Checked Unit := do
  let asset ← get (s.assets.find op.assetToSettle)
  require asset.isMarketIssued "asset_to_settle->is_market_issued()"
  require asset.canGlobalSettle "asset_to_settle->can_global_settle()"
  require (asset.issuer = op.issuer) "asset_to_settle->issuer == op.issuer"
  require (0 < asset.dynamicData.currentSupply)
    "asset_to_settle->dynamic_data(d).current_supply > 0"
  let bitasset ← asset.getBitassetData
  let lowest ← Price.lowest bitasset.options.shortBackingAsset op.assetToSettle
  -- without a call order at or after the bound the iterator is at the end
  let least ← deref (s.callsByCollateral lowest).head?
  let pays ← times least.2.getDebt op.settlePrice
  let backed ← pays.le least.2.getCollateral
  require (backed = true) ("Cannot force settle at supplied price: " ++
    "least collateralized short lacks sufficient collateral to settle.")

def doApply (op : AssetGlobalSettleOperation) (s : MarketState) : Checked MarketState :=
  s.globallySettleAsset op.assetToSettle op.settlePrice

end AssetGlobalSettleOperation

structure AssetSettleOperation where
  fee : Asset := ⟨0, coreAsset⟩
  account : AccountId
  amount : Asset

namespace AssetSettleOperation

def validate (op : AssetSettleOperation) : Checked Unit := do
  require (0 ≤ op.fee.amount) "fee.amount >= 0"
  require (0 ≤ op.amount.amount) "amount.amount >= 0"

def doEvaluate (op : AssetSettleOperation) (s : MarketState) : Checked Unit := do
  let asset ← get (s.assets.find op.amount.assetId)
  require asset.isMarketIssued "asset_to_settle->is_market_issued()"
  let bitasset ← asset.getBitassetData
  require (asset.canForceSettle ∨ bitasset.HasSettlement)
    "asset_to_settle->can_force_settle() || bitasset.has_settlement()"
  require (bitasset.isPredictionMarket → bitasset.HasSettlement)
    "global settlement must occur before force settling a prediction market"
  demand (bitasset.isPredictionMarket ∨ ¬bitasset.currentFeed.settlementPrice.IsNull ∨
      hardforkCore216Time < s.headBlockTime ∧ bitasset.HasSettlement) .insufficientFeeds
  let _ ← get (s.accounts.find op.account)
  require (op.amount.amount ≤ (s.getBalance op.account op.amount.assetId).amount)
    "d.get_balance(d.get(op.account), *asset_to_settle) >= op.amount"

/-- The collateral a redemption is paid; the last one takes what the fund has left. -/
def settledAmount (op : AssetSettleOperation) (supply : ℤ) (b : AssetBitassetData) :
    Checked Asset := do
  let settled ← times op.amount b.settlementPrice
  if op.amount.amount = supply then return ⟨b.settlementFund, settled.assetId⟩
  else do
    require (settled.amount ≤ b.settlementFund) "settled_amount.amount <= bitasset.settlement_fund"
    return settled

/-- The redemption of a globally settled asset. -/
def redeem (op : AssetSettleOperation) (supply : ℤ) (b : AssetBitassetData) (s : MarketState) :
    Checked MarketState := do
  let settled ← op.settledAmount supply b
  let s ← s.modifyBitassetData op.amount.assetId fun b ↦ do
    return { b with settlementFund := ← checkedShare (b.settlementFund - settled.amount) }
  let s ← s.adjustBalance op.account settled
  s.modifyDynamicData op.amount.assetId (·.subSupply op.amount.amount)

def doApply (op : AssetSettleOperation) (s : MarketState) : Checked MarketState := do
  let s ← s.adjustBalance op.account (← op.amount.neg)
  let asset ← get (s.assets.find op.amount.assetId)
  let b ← asset.getBitassetData
  if b.HasSettlement then op.redeem asset.dynamicData.currentSupply b s
  else do
    let settlementDate := s.headBlockTime + b.options.forceSettlementDelaySec
    return { s with
      forceSettlements := s.forceSettlements.create ⟨op.account, op.amount, settlementDate⟩ }

end AssetSettleOperation

/-! ## Supply and fees of an asset -/

structure AssetIssueOperation where
  fee : Asset := ⟨0, coreAsset⟩
  issuer : AccountId
  assetToIssue : Asset
  issueToAccount : AccountId

namespace AssetIssueOperation

def validate (op : AssetIssueOperation) : Checked Unit := do
  require (0 ≤ op.fee.amount) "fee.amount >= 0"
  require (op.assetToIssue.amount ≤ maxShareSupply)
    "asset_to_issue.amount.value <= GRAPHENE_MAX_SHARE_SUPPLY"
  require (0 < op.assetToIssue.amount) "asset_to_issue.amount.value > 0"
  require (op.assetToIssue.assetId ≠ coreAsset) "asset_to_issue.asset_id != asset_id_type(0)"

def doEvaluate (op : AssetIssueOperation) (s : MarketState) : Checked Unit := do
  let a ← get (s.assets.find op.assetToIssue.assetId)
  require (op.issuer = a.issuer) "o.issuer == a.issuer"
  require (¬a.isMarketIssued) "Cannot manually issue a market-issued asset."
  let authorized ← s.isAuthorizedAsset op.issueToAccount op.assetToIssue.assetId
  require (authorized = true) "is_authorized_asset( d, *to_account, a )"
  let supply ← checkedShare (a.dynamicData.currentSupply + op.assetToIssue.amount)
  require (supply ≤ a.options.maxSupply)
    "(asset_dyn_data->current_supply + o.asset_to_issue.amount) <= a.options.max_supply"

def doApply (op : AssetIssueOperation) (s : MarketState) : Checked MarketState := do
  let s ← s.adjustBalance op.issueToAccount op.assetToIssue
  s.modifyDynamicData op.assetToIssue.assetId (·.addSupply op.assetToIssue.amount)

end AssetIssueOperation

structure AssetReserveOperation where
  fee : Asset := ⟨0, coreAsset⟩
  payer : AccountId
  amountToReserve : Asset

namespace AssetReserveOperation

def validate (op : AssetReserveOperation) : Checked Unit := do
  require (0 ≤ op.fee.amount) "fee.amount >= 0"
  require (op.amountToReserve.amount ≤ maxShareSupply)
    "amount_to_reserve.amount.value <= GRAPHENE_MAX_SHARE_SUPPLY"
  require (0 < op.amountToReserve.amount) "amount_to_reserve.amount.value > 0"

def doEvaluate (op : AssetReserveOperation) (s : MarketState) : Checked Unit := do
  let a ← get (s.assets.find op.amountToReserve.assetId)
  require (¬a.isMarketIssued) "Cannot reserve ${sym} because it is a market-issued asset"
  let authorized ← s.isAuthorizedAsset op.payer op.amountToReserve.assetId
  require (authorized = true) "is_authorized_asset( d, *from_account, a )"
  let supply ← checkedShare (a.dynamicData.currentSupply - op.amountToReserve.amount)
  require (0 ≤ supply) "(asset_dyn_data->current_supply - o.amount_to_reserve.amount) >= 0"

def doApply (op : AssetReserveOperation) (s : MarketState) : Checked MarketState := do
  let s ← s.adjustBalance op.payer (← op.amountToReserve.neg)
  s.modifyDynamicData op.amountToReserve.assetId (·.subSupply op.amountToReserve.amount)

end AssetReserveOperation

structure AssetFundFeePoolOperation where
  fee : Asset := ⟨0, coreAsset⟩
  fromAccount : AccountId
  assetId : AssetId
  amount : ℤ

namespace AssetFundFeePoolOperation

def validate (op : AssetFundFeePoolOperation) : Checked Unit := do
  require (0 ≤ op.fee.amount) "fee.amount >= 0"
  require (op.fee.assetId = coreAsset) "fee.asset_id == asset_id_type()"
  require (0 < op.amount) "amount > 0"

def doEvaluate (op : AssetFundFeePoolOperation) (s : MarketState) : Checked Unit := do
  let _ ← get (s.assets.find op.assetId)

def doApply (op : AssetFundFeePoolOperation) (s : MarketState) : Checked MarketState := do
  let s ← s.adjustBalance op.fromAccount ⟨← checkedShare (-op.amount), coreAsset⟩
  s.modifyDynamicData op.assetId fun d ↦ do
    return { d with feePool := ← checkedShare (d.feePool + op.amount) }

end AssetFundFeePoolOperation

structure AssetClaimFeesOperation where
  fee : Asset := ⟨0, coreAsset⟩
  issuer : AccountId
  amountToClaim : Asset

namespace AssetClaimFeesOperation

def validate (op : AssetClaimFeesOperation) : Checked Unit := do
  require (0 ≤ op.fee.amount) "fee.amount >= 0"
  require (0 < op.amountToClaim.amount) "amount_to_claim.amount > 0"

def doEvaluate (op : AssetClaimFeesOperation) (s : MarketState) : Checked Unit := do
  require (hardfork413Time < s.headBlockTime) "db().head_block_time() > HARDFORK_413_TIME"
  let a ← get (s.assets.find op.amountToClaim.assetId)
  require (a.issuer = op.issuer) "Asset fees may only be claimed by the issuer"

def doApply (op : AssetClaimFeesOperation) (s : MarketState) : Checked MarketState := do
  let s ← s.modifyDynamicData op.amountToClaim.assetId fun d ↦ do
    require (op.amountToClaim.amount ≤ d.accumulatedFees)
      "Attempt to claim more fees than have accumulated"
    return { d with accumulatedFees := ← checkedShare (d.accumulatedFees - op.amountToClaim.amount) }
  s.adjustBalance op.issuer op.amountToClaim

end AssetClaimFeesOperation

end KarmaCore.Market
