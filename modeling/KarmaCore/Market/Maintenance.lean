import Mathlib
import KarmaCore.Market.Operation

/-!
# Block and maintenance passes

What a block does to the market after its transactions: it clears expired limit
orders and force settlements and updates expired feeds, and at maintenance it
distributes the collected fees, processes the bids for settled assets and pays
the budget of witnesses and workers.
-/

namespace KarmaCore.Market

open Transfer (get)

/-- A share read from the low half of a `uint128_t` whose high half must be zero. -/
def toUint64 (x : ℤ) : Checked ℤ := do
  require (x < 2 ^ 64) "hi == 0"
  return x.bmod (2 ^ 64)

namespace AssetBitassetData

def maxForceSettlementVolume (currentSupply : ℤ) (b : AssetBitassetData) : Checked ℤ :=
  if b.options.maximumForceSettlementVolume = 0 then .ok 0
  else if b.options.maximumForceSettlementVolume = percent100 then
    checkedShare (currentSupply + b.forceSettledVolume)
  else
    toUint64 (mul128 (currentSupply + b.forceSettledVolume) b.options.maximumForceSettlementVolume /
      percent100)

def feedExpirationTime (b : AssetBitassetData) : ℕ :=
  b.currentFeedPublicationTime + b.options.feedLifetimeSec

/-- `feed_is_expired`, or `feed_is_expired_before_hardfork_615`. -/
def FeedIsExpired (now : ℕ) (b : AssetBitassetData) : Prop :=
  if now < hardfork615Time then now ≤ b.feedExpirationTime else b.feedExpirationTime ≤ now

instance (now : ℕ) (b : AssetBitassetData) : Decidable (b.FeedIsExpired now) := by
  unfold FeedIsExpired
  infer_instance

end AssetBitassetData

namespace MarketState

/-! ## Expired limit orders -/

/-- Cancels an order that is still there, for a fee of at most what it deferred. -/
def cancelExpiredOrder (cancelFee : ℕ) (id : ℕ) (s : MarketState) : Checked MarketState :=
  match s.limitOrders.find id with
  | some order =>
      let fee : Asset := ⟨min cancelFee order.deferredFee, coreAsset⟩
      s.evaluateAndApply (.limitOrderCancel ⟨fee, id, order.seller⟩) none
  | none => .ok s

def cancelExpiredOrders (cancelFee : ℕ) : List ℕ → MarketState → Checked MarketState
  | [], s => .ok s
  | id :: ids, s => do
      let s ← s.cancelExpiredOrder cancelFee id
      cancelExpiredOrders cancelFee ids s

/-- The limit orders that have expired, the earliest first. -/
def expiredLimitOrders (s : MarketState) : List (ℕ × LimitOrderObject) :=
  s.limitOrders.select (fun _ o ↦ o.expiration ≤ s.headBlockTime)
    fun o o' ↦ o'.expiration < o.expiration

/-! ## Due force settlements -/

/-- Matches a force settlement with the least collateralized call orders until it is gone or
the volume is reached. -/
def settleOrder (mia : AssetId) (id : ℕ) (settlementPrice : Price) (maxVolume : ℤ) :
    List ℕ → ℤ → MarketState → Checked (ℤ × MarketState)
  | calls, settled, s =>
      match s.forceSettlements.find id with
      | none => .ok (settled, s)
      | some order =>
          if settled < maxVolume then
            match calls with
            | [] => .error .danglingReference
            | call :: calls =>
                if order.balance.amount = 0 then do
                  let s ← s.cancelSettlement id
                  return (settled, s)
                else
                  match s.matchSettlement call id settlementPrice ⟨maxVolume - settled, mia⟩ with
                  | .ok (amount, s) => do
                      let settled ← checkedShare (settled + amount.amount)
                      settleOrder mia id settlementPrice maxVolume calls settled s
                  | .error .blackSwan => do
                      let s ← s.cancelSettlement id
                      return (settled, s)
                  | .error e => .error e
          else .ok (settled, s)

/-- Settles a due order at the feed price less the offset. -/
def settleDue (mia : AssetId) (id : ℕ) (order : ForceSettlementObject) (b : AssetBitassetData)
    (maxVolume : ℤ) (s : MarketState) : Checked MarketState := do
  let value ← times order.balance b.currentFeed.settlementPrice
  let offset := percent100 - b.options.forceSettlementOffsetPercent
  let receives : Asset := ⟨mul128 value.amount offset / percent100, value.assetId⟩
  let settlementPrice ← per order.balance receives
  let lowest ← Price.lowest b.options.shortBackingAsset mia
  let calls := (s.callsByCollateral lowest).map Prod.fst
  let (settled, s) ← s.settleOrder mia id settlementPrice maxVolume calls b.forceSettledVolume
  whenever (b.forceSettledVolume ≠ settled)
    (modifyBitassetData mia fun b ↦ .ok { b with forceSettledVolume := settled }) s

/-- The volume that was found for the asset before, or what it is now. -/
def volumeFor (mia : AssetId) (asset : AssetObject) (b : AssetBitassetData) (known : Asset) :
    Checked Asset :=
  if known.assetId = mia then .ok known
  else do return ⟨← b.maxForceSettlementVolume asset.dynamicData.currentSupply, mia⟩

/-- What the pass does with one force settlement, and whether it goes on to the next one in
the same asset. -/
def clearSettlement (mia : AssetId) (id : ℕ) (known : Asset) (s : MarketState) :
    Checked (Bool × Asset × MarketState) := do
  let order ← deref (s.forceSettlements.find id)
  let asset ← get (s.assets.find mia)
  let b ← asset.getBitassetData
  if b.HasSettlement then do
    let s ← s.cancelSettlement id
    return (true, known, s)
  else if s.headBlockTime < order.settlementDate then return (false, known, s)
  else if b.currentFeed.settlementPrice.IsNull then do
    let s ← s.cancelSettlement id
    return (true, known, s)
  else do
    let volume ← volumeFor mia asset b known
    if volume.amount ≤ b.forceSettledVolume then return (false, volume, s)
    else do
      let s ← s.settleDue mia id order b volume.amount
      return (true, volume, s)

/-- The order of the force settlements by asset and date. -/
def FollowsSettlement (o o' : ForceSettlementObject) : Prop :=
  o'.balance.assetId < o.balance.assetId ∨
    o'.balance.assetId = o.balance.assetId ∧ o'.settlementDate < o.settlementDate

instance (o o' : ForceSettlementObject) : Decidable (FollowsSettlement o o') :=
  inferInstanceAs (Decidable (_ ∨ _))

/-- The force settlement at `lower_bound(current)`. -/
def firstSettlement (current : AssetId) (s : MarketState) : Option (ℕ × ForceSettlementObject) :=
  (s.forceSettlements.select (fun _ o ↦ current ≤ o.balance.assetId) FollowsSettlement).head?

/-- The asset `next_asset` moves on to, at `upper_bound(current)`. -/
def nextAsset (current : AssetId) (s : MarketState) : Option AssetId :=
  (s.forceSettlements.select (fun _ o ↦ current < o.balance.assetId) FollowsSettlement).head?.map
    (·.2.balance.assetId)

/-- The loop over the force settlements, which seeks its place again in every turn. -/
def clearSettlements : ℕ → AssetId → Asset → MarketState → Checked MarketState
  | 0, _, _, s => .ok s
  | fuel + 1, current, known, s =>
      match s.firstSettlement current with
      | none => .ok s
      | some (id, order) => do
          let mia := order.balance.assetId
          let (goOn, known, s) ← s.clearSettlement mia id known
          if goOn then clearSettlements fuel mia known s
          else
            match s.nextAsset mia with
            | some next => clearSettlements fuel next known s
            | none => return s

/-- The turns that the pass takes at most: two for every force settlement. -/
def settlementTurns (s : MarketState) : ℕ := 2 * s.forceSettlements.objects.length + 1

/-- The pass starts with no volume found, at the first of all force settlements. -/
def clearDueSettlements (s : MarketState) : Checked MarketState :=
  match s.firstSettlement 0 with
  | none => .ok s
  | some (_, order) =>
      clearSettlements s.settlementTurns order.balance.assetId ⟨0, coreAsset⟩ s

def clearExpiredOrders (cancelFee : ℕ) (s : MarketState) : Checked MarketState := do
  let s ← cancelExpiredOrders cancelFee (s.expiredLimitOrders.map Prod.fst) s
  s.clearDueSettlements

/-! ## Expired feeds -/

def refreshFeed (mia : AssetId) (s : MarketState) : Checked MarketState := do
  let s ← s.modifyBitassetData mia fun b ↦ .ok (b.updateMedianFeeds s.headBlockTime)
  let b ← s.getBitassetData mia
  let (_, s) ← s.checkCallOrders b.currentFeed.settlementPrice.base.assetId true false
  return s

def adoptExchangeRate (mia : AssetId) (s : MarketState) : Checked MarketState := do
  let asset ← get (s.assets.find mia)
  let b ← asset.getBitassetData
  let rate := b.currentFeed.coreExchangeRate
  whenever (¬rate.IsNull ∧ ¬asset.options.coreExchangeRate.Same rate)
    (modifyAsset mia fun a ↦ .ok { a with options := { a.options with coreExchangeRate := rate } }) s

def updateExpiredFeed (mia : AssetId) (s : MarketState) : Checked MarketState := do
  let b ← s.getBitassetData mia
  let s ← whenever (b.FeedIsExpired s.headBlockTime) (refreshFeed mia) s
  s.adoptExchangeRate mia

def updateFeeds : List AssetId → MarketState → Checked MarketState
  | [], s => .ok s
  | mia :: mias, s => do
      let s ← s.updateExpiredFeed mia
      updateFeeds mias s

/-- The market-issued assets. -/
def marketIssued (s : MarketState) : List AssetId :=
  (s.assets.objects.filter fun a ↦ a.2.isMarketIssued).map Prod.fst

def updateExpiredFeeds (s : MarketState) : Checked MarketState := updateFeeds s.marketIssued s

/-! ## Collected fees -/

def clearFba (fbaId : ℕ) (s : MarketState) : Checked MarketState := do
  let fba ← get (s.fbaAccumulators.find fbaId)
  return { s with
    fbaAccumulators := s.fbaAccumulators.set fbaId { fba with accumulatedFbaFees := 0 } }

/-- The shares of the buyback account and the issuer of the designated asset; the rest is
burned. -/
def distributeFba (fees : ℤ) (buybackPct issuerPct : ℕ) (designatedAsset : AssetId)
    (s : MarketState) : Checked MarketState := do
  let buybackAmount ← toUint64 (mul128 fees buybackPct / percent100)
  let issuerAmount ← toUint64 (mul128 fees issuerPct / percent100)
  let both ← checkedShare (buybackAmount + issuerAmount)
  require (both ≤ fees) "buyback_amount + issuer_amount <= fba.accumulated_fba_fees"
  let networkAmount ← checkedShare (fees - both)
  let asset ← get (s.assets.find designatedAsset)
  let s ← whenever (networkAmount ≠ 0) (modifyDynamicData coreAsset (·.subSupply networkAmount)) s
  let buyback ← deref asset.buybackAccount
  let s ← s.adjustBalance buyback ⟨buybackAmount, coreAsset⟩
  s.adjustBalance asset.issuer ⟨issuerAmount, coreAsset⟩

def splitFbaBalance (fbaId networkPct buybackPct issuerPct : ℕ) (s : MarketState) :
    Checked MarketState := do
  require (networkPct + buybackPct + issuerPct = percent100)
    "uint32_t(network_pct) + ... == GRAPHENE_100_PERCENT"
  let fba ← get (s.fbaAccumulators.find fbaId)
  if fba.accumulatedFbaFees = 0 then return s
  else if ¬s.isConfigured fba then do
    let s ← s.modifyDynamicData coreAsset (·.subSupply fba.accumulatedFbaFees)
    s.clearFba fbaId
  else do
    let designatedAsset ← deref fba.designatedAsset
    let s ← s.distributeFba fba.accumulatedFbaFees buybackPct issuerPct designatedAsset
    s.clearFba fbaId

/-- The accumulators of the three blind transfer operations. -/
def distributeFbaBalances (s : MarketState) : Checked MarketState := do
  let s ← s.splitFbaBalance 0 2000 6000 2000
  let s ← s.splitFbaBalance 1 2000 6000 2000
  s.splitFbaBalance 2 2000 6000 2000

def processAllFees : List AccountId → MarketState → Checked MarketState
  | [], s => .ok s
  | acct :: accts, s => do
      let s ← s.processFees acct
      processAllFees accts s

/-! ## Settled assets -/

/-- Resets the settled volume of an asset and processes its bids. -/
def renewBitasset (mia : AssetId) (s : MarketState) : Checked MarketState := do
  let s ← s.modifyBitassetData mia fun b ↦ .ok { b with forceSettledVolume := 0 }
  let b ← s.getBitassetData mia
  whenever b.HasSettlement (processBids b) s

def renewBitassets : List AssetId → MarketState → Checked MarketState
  | [], s => .ok s
  | mia :: mias, s => do
      let s ← s.renewBitasset mia
      renewBitassets mias s

/-! ## The budget -/

/-- `GRAPHENE_CORE_ASSET_CYCLE_RATE`, over two to the `GRAPHENE_CORE_ASSET_CYCLE_RATE_BITS`. -/
def coreAssetCycleRate : ℕ := 17

structure BudgetRecord where
  fromAccumulatedFees : ℤ
  fromUnusedWitnessBudget : ℤ
  totalBudget : ℤ

/-- The part of a reserve that may be spent after `dt` seconds. -/
def spendable (reserve : ℤ) (dt : ℕ) : Checked ℤ :=
  let budget := (reserve * dt * coreAssetCycleRate + (2 ^ 32 - 1)) % 2 ^ 128 / 2 ^ 32
  if budget < reserve % 2 ^ 128 then toUint64 budget else .ok reserve

def initializeBudgetRecord (s : MarketState) : Checked BudgetRecord := do
  let core ← get (s.assets.find coreAsset)
  let fromInitialReserve ← checkedShare (core.options.maxSupply - core.dynamicData.currentSupply)
  let fees := core.dynamicData.accumulatedFees
  if s.lastBudgetTime = 0 ∨ s.headBlockTime ≤ s.lastBudgetTime then
    return ⟨fees, s.witnessBudget, 0⟩
  else do
    let reserve ← checkedShare (fromInitialReserve + fees)
    let reserve ← checkedShare (reserve + s.witnessBudget)
    let totalBudget ← spendable reserve (s.headBlockTime - s.lastBudgetTime)
    return ⟨fees, s.witnessBudget, totalBudget⟩

/-- `pay_worker`. -/
def payWorker (id : ℕ) (worker : WorkerObject) (pay : ℤ) (s : MarketState) :
    Checked MarketState :=
  match worker.worker with
  | .refund totalBurned => do
      let totalBurned ← checkedShare (totalBurned + pay)
      let s ← s.modifyDynamicData coreAsset (·.subSupply pay)
      return { s with workers := s.workers.set id { worker with worker := .refund totalBurned } }
  | .vestingBalance balance => do
      let vbo ← get (s.vestingBalances.find balance)
      s.depositVesting balance vbo pay
  | .burn totalBurned => do
      let totalBurned ← checkedShare (totalBurned + pay)
      let s ← s.adjustBalance nullAccount ⟨pay, coreAsset⟩
      return { s with workers := s.workers.set id { worker with worker := .burn totalBurned } }

/-- The seconds of a day. -/
def secondsPerDay : ℕ := 86400

/-- What a worker asks for since the last budget. -/
def requestedPay (worker : WorkerObject) (s : MarketState) : Checked ℤ :=
  if s.headBlockTime - s.lastBudgetTime = secondsPerDay then .ok worker.dailyPay
  else toUint64 (mul128 worker.dailyPay (s.headBlockTime - s.lastBudgetTime : ℕ) / secondsPerDay)

def payActiveWorkers : List (ℕ × WorkerObject) → ℤ → MarketState → Checked (ℤ × MarketState)
  | [], budget, s => .ok (budget, s)
  | (id, worker) :: rest, budget, s =>
      if 0 < budget then do
        let requested ← s.requestedPay worker
        let pay := min budget requested
        let s ← s.payWorker id worker pay
        let budget ← checkedShare (budget - pay)
        payActiveWorkers rest budget s
      else .ok (budget, s)

/-- The workers that are paid, those with more votes first. -/
def activeWorkers (s : MarketState) : List (ℕ × WorkerObject) :=
  s.workers.select (fun _ w ↦ w.workBeginDate ≤ s.headBlockTime ∧
      s.headBlockTime ≤ w.workEndDate ∧ 0 < w.totalVotesFor - w.totalVotesAgainst)
    fun w w' ↦ w.totalVotesFor - w.totalVotesAgainst < w'.totalVotesFor - w'.totalVotesAgainst

def payWorkers (budget : ℤ) (s : MarketState) : Checked (ℤ × MarketState) :=
  payActiveWorkers s.activeWorkers budget s

/-- What the witnesses ask for until the next maintenance. -/
def requestedWitnessBudget (s : MarketState) : ℤ :=
  let timeToMaint : ℤ := ((s.nextMaintenanceTime : ℤ) - s.headBlockTime) % 2 ^ 64
  let blocks := (timeToMaint + s.parameters.blockInterval - 1) / s.parameters.blockInterval
  (s.parameters.witnessPayPerBlock * blocks).bmod (2 ^ 64)

/-- What the workers get of the funds that are left until the next maintenance. -/
def workerBudget (availableFunds : ℤ) (s : MarketState) : Checked ℤ :=
  let timeToMaint : ℤ := ((s.nextMaintenanceTime : ℤ) - s.headBlockTime) % 2 ^ 64
  let budget := mul128 s.parameters.workerBudgetPerDay timeToMaint / secondsPerDay
  if availableFunds % 2 ^ 128 ≤ budget then .ok availableFunds else toUint64 budget

def processBudget (s : MarketState) : Checked MarketState := do
  let record ← s.initializeBudgetRecord
  let witnessBudget := min s.requestedWitnessBudget record.totalBudget
  let availableFunds ← checkedShare (record.totalBudget - witnessBudget)
  let workerBudget ← s.workerBudget availableFunds
  let (leftover, s) ← s.payWorkers workerBudget
  let supplyDelta ← checkedShare (witnessBudget + workerBudget - leftover -
    record.fromAccumulatedFees - record.fromUnusedWitnessBudget)
  let s ← s.modifyDynamicData coreAsset fun d ↦ do
    let d ← d.addSupply supplyDelta
    return { d with accumulatedFees := 0 }
  return { s with witnessBudget, lastBudgetTime := s.headBlockTime }

/-! ## Maintenance -/

/-- `update_worker_votes`, for the votes that were tallied for and against each worker. -/
def updateWorkerVotes (votes : ℕ → ℤ × ℤ) : List (ℕ × WorkerObject) → MarketState → MarketState
  | [], s => s
  | (id, w) :: rest, s =>
      let tallied := { w with totalVotesFor := (votes id).1, totalVotesAgainst := (votes id).2 }
      updateWorkerVotes votes rest { s with workers := s.workers.set id tallied }

/-- The next time after the head block that lies whole intervals after the last one. -/
def updateMaintenanceTime (s : MarketState) : MarketState :=
  if s.nextMaintenanceTime ≤ s.headBlockTime then
    let y := (s.headBlockTime - s.nextMaintenanceTime) / s.parameters.maintenanceInterval
    { s with
      nextMaintenanceTime := s.nextMaintenanceTime + (y + 1) * s.parameters.maintenanceInterval }
  else s

/-- `perform_chain_maintenance`, with the accounts in the order of their names and the votes
for the workers. Buyback orders are left out. -/
def performChainMaintenance (accounts : List AccountId) (votes : ℕ → ℤ × ℤ) (s : MarketState) :
    Checked MarketState := do
  let s ← s.distributeFbaBalances
  let s ← processAllFees accounts s
  let s := updateWorkerVotes votes s.workers.objects s
  let s := s.updateMaintenanceTime
  let s ← renewBitassets s.marketIssued s
  s.processBudget

/-- What maintenance does before it processes the budget. -/
def beforeBudget (accounts : List AccountId) (votes : ℕ → ℤ × ℤ) (s : MarketState) :
    Checked MarketState := do
  let s ← s.distributeFbaBalances
  let s ← processAllFees accounts s
  let s := updateWorkerVotes votes s.workers.objects s
  let s := s.updateMaintenanceTime
  renewBitassets s.marketIssued s

theorem performChainMaintenance_eq_ok {accounts : List AccountId} {votes : ℕ → ℤ × ℤ}
    {s s' : MarketState} : s.performChainMaintenance accounts votes = .ok s' ↔
      ∃ t, s.beforeBudget accounts votes = .ok t ∧ t.processBudget = .ok s' := by
  simp only [performChainMaintenance, beforeBudget, Checked.bind_eq_ok]
  constructor
  · rintro ⟨s₁, h₁, s₂, h₂, t, ht, h⟩
    exact ⟨t, ⟨s₁, h₁, s₂, h₂, ht⟩, h⟩
  · rintro ⟨t, ⟨s₁, h₁, s₂, h₂, ht⟩, h⟩
    exact ⟨s₁, h₁, s₂, h₂, t, ht, h⟩

/-- The pay of the witness of a block. -/
def updateSigningWitness (id : ℕ) (s : MarketState) : Checked MarketState := do
  let witness ← get (s.witnesses.find id)
  let witnessPay := min s.parameters.witnessPayPerBlock s.witnessBudget
  let s := { s with witnessBudget := ← checkedShare (s.witnessBudget - witnessPay) }
  let (vbid, s) ← s.depositLazyVesting witness.payVb witnessPay
    s.parameters.witnessPayVestingSeconds witness.witnessAccount
  return match vbid with
    | some vb => { s with witnesses := s.witnesses.set id { witness with payVb := some vb } }
    | none => s

end MarketState

end KarmaCore.Market
