import Mathlib
import KarmaCore.Market.PassSound

/-!
# The supplies along a run

Every event adds nothing to the books, so that from a balanced genesis state the
equation of `verify_asset_supplies` holds in every state a run reaches, and the
debt of every asset that is not settled is its supply.
-/

namespace KarmaCore.Market

open Transfer (get get_eq_ok)
open Books ObjectIndex

/-- A fill that covers a position in full with collateral left over that is not core. -/
def FillOrderOperation.FreesOther (f : FillOrderOperation) : Prop :=
  match f.order with
  | .call c => c.collateralType ≠ coreAsset ∧ c.debt = f.receives.amount ∧ f.pays.amount < c.collateral
  | _ => False

namespace MarketState

variable {s s' start : MarketState} {mia id : AssetId} {acct : AccountId}

/-! ## Events -/

theorem adds_of_registerAccount {account : AccountObject} {assetToBuy : Option AssetId}
    (hs : s.AllSound) (h : s.registerAccount account assetToBuy = .ok s') : Adds 0 s s' := by
  have hcreated : Payment 0 s { s with
      accounts := s.accounts.create { account with statistics := {} } } := by
    refine ⟨⟨?_, { Frame.refl s with accounts := fun key hkey ↦ ?_ }⟩, rfl, rfl, rfl, rfl⟩
    · simp only [books, total_create, AccountStatistics.books, add_zero, map_zero]
    · obtain ⟨a, ha⟩ := Option.isSome_iff_exists.mp hkey
      simp only [find_create]
      rw [if_neg (lt_nextId ha).ne]
      exact hkey
  have hsound := hcreated.toTrade.adds hs
  simp only [registerAccount] at h
  split at h
  · obtain ⟨a, a', ha, heq, rfl⟩ := modifyAsset_cases h
    obtain rfl := Except.ok.inj heq
    refine hsound.trans_zero (Upholds.adds (Keeps.toUpholds (keeps_of_setOptions hsound.sound ha
      ?_ ?_ ?_)))
    exacts [rfl, rfl, hs.feesNonneg _ a ha]
  · obtain rfl := Checked.pure_eq_ok.mp h
    exact hsound

theorem adds_of_createVestingBalance {creator owner : AccountId} {amount : Asset}
    {cddVestingSeconds : Option ℕ} (hs : s.AllSound)
    (h : s.createVesting creator owner amount cddVestingSeconds = .ok s') : Adds 0 s s' := by
  simp only [createVesting, Checked.bind_eq_ok, Checked.pure_eq_ok, require_eq_ok] at h
  obtain ⟨-, hpos, delta, hdelta, s₁, htake, rfl⟩ := h
  have htaken := (payment_of_takeBalance hdelta htake).toTrade.adds hs
  exact (htaken.trans (adds_of_createVesting ⟨owner, amount, cddVestingSeconds⟩ htaken.sound
    fun _ ↦ hpos.le)).congr (neg_add_cancel _)

theorem adds_of_withdrawVesting {amount : ℕ} (hs : s.AllSound)
    (h : s.withdrawVesting id amount = .ok s') : Adds 0 s s' := by
  simp only [withdrawVesting, Checked.bind_eq_ok, get_eq_ok, require_eq_ok] at h
  obtain ⟨vbo, hvbo, -, hle, balance, hbalance, hgive⟩ := h
  obtain ⟨-, -, rfl⟩ := Asset.sub_eq_ok.mp hbalance
  have htaken := adds_of_setVesting { vbo with
    balance := ⟨vbo.balance.amount - amount, vbo.balance.assetId⟩ } hs hvbo fun _ ↦ sub_nonneg.mpr hle
  refine (htaken.trans (adds_of_adjustBalance htaken.sound hgive)).congr ?_
  simp only [map_sub]
  abel

theorem adds_of_applyEvent {calculateFee : MarketOperation → ℤ} {event : MarketEvent}
    (hs : s.AllSound) (heven : s.SuppliesEven)
    (h : s.applyEvent calculateFee event = .ok s') : Adds 0 s s' := by
  cases event with
  | operation op typed => exact adds_of_applyOperation hs heven typed h
  | nextBlock seconds =>
      obtain rfl := Except.ok.inj h
      exact ⟨(add_zero _).symm, hs.setTime _⟩
  | clearExpiredOrders cancelFee => exact adds_of_clearExpiredOrders hs h
  | updateExpiredFeeds => exact adds_of_updateFeeds hs h
  | updateSigningWitness witness => exact adds_of_updateSigningWitness hs h
  | maintenance accounts votes => exact adds_of_performChainMaintenance hs h
  | registerAccount account assetToBuy => exact adds_of_registerAccount hs h
  | updateAccount id account =>
      exact (adds_of_modifyAccount (fun a ↦ { account with statistics := a.statistics }) hs
        (fun _ ↦ rfl) h).1
  | registerWorker worker =>
      obtain rfl := Except.ok.inj h
      exact Trade.adds ⟨(add_zero _).symm, { Frame.refl s with }⟩ hs
  | registerWitness account =>
      obtain rfl := Except.ok.inj h
      exact Trade.adds ⟨(add_zero _).symm, { Frame.refl s with }⟩ hs
  | createVesting creator owner amount cddVestingSeconds => exact adds_of_createVestingBalance hs h
  | withdrawVesting id amount => exact adds_of_withdrawVesting hs h
  | updateParameters parameters =>
      obtain rfl := Except.ok.inj h
      exact Trade.adds ⟨(add_zero _).symm, { Frame.refl s with }⟩ hs

theorem adds_step {calculateFee : MarketOperation → ℤ} {event : MarketEvent} (hs : s.AllSound)
    (heven : s.SuppliesEven) : Adds 0 s (s.step calculateFee event) := by
  unfold step
  split
  · next h => exact adds_of_applyEvent hs heven h
  · exact .refl hs

/-! ## Genesis -/

/-- What `init_genesis` leaves: positions of the initial collateral records, whose debt is the
tallied supply of their asset, and no other orders. -/
structure Genesis (s : MarketState) : Prop where
  core : ∃ a, s.assets.find coreAsset = some a ∧ a.bitassetData = none
  maxMarketFee : ∀ id a, s.assets.find id = some a → 0 ≤ a.options.maxMarketFee
  supply_lt : ∀ id a, s.assets.find id = some a → a.dynamicData.currentSupply < shareEnd
  accumulatedFees : ∀ id a, s.assets.find id = some a → 0 ≤ a.dynamicData.accumulatedFees
  confidentialSupply : ∀ id a, s.assets.find id = some a → 0 ≤ a.dynamicData.confidentialSupply
  bitassets : ∀ id a b, s.assets.find id = some a → a.bitassetData = some b →
    b = { options := b.options } ∧ b.options.shortBackingAsset = coreAsset
  limitOrders : s.limitOrders = .empty
  forceSettlements : s.forceSettlements = .empty
  collateralBids : s.collateralBids = .empty
  collateralRecords : ∀ id c, s.callOrders.find id = some c → 0 < c.debt ∧ c.debt < shareEnd ∧
    0 < c.collateral ∧ c.collateral < shareEnd ∧ s.IsMarketIssued c.debtType ∧
    Price.callPrice c.getDebt ⟨c.collateral, coreAsset⟩ 1750 = .ok c.callPrice
  balanced : ∀ mia, s.IsMarketIssued mia → s.totalDebt mia = s.currentSupply mia
  vestingBalances : ∀ id v, s.vestingBalances.find id = some v → 0 ≤ v.balance.amount
  tallied : ∀ key, s.totalBalances key = s.currentSupply key
  inOrders : ∀ acct, s.totalCoreInOrders acct = s.coreInOrders acct
  fills : s.fills = []

theorem Genesis.allSound (h : s.Genesis) : s.AllSound where
  core := h.core
  feesNonneg := h.maxMarketFee
  limitOrders id o ho := by
    rw [h.limitOrders] at ho
    cases ho
  callOrders id c hc := by
    obtain ⟨hdebt, hdebt', hcollateral, hcollateral', ⟨a, ha, hmarket⟩, hprice⟩ :=
      h.collateralRecords id c hc
    obtain ⟨hbounded, hbase, -⟩ := callPrice_bounded hdebt hdebt' hcollateral hcollateral'
      (by decide) (by decide) hprice
    obtain ⟨b, hb⟩ := Option.isSome_iff_exists.mp hmarket
    exact ⟨hdebt, hcollateral.le, hbounded, a, b, ha, hb,
      (h.bitassets _ a b ha hb).2.trans hbase.symm⟩
  forceSettlements id o ho := by
    rw [h.forceSettlements] at ho
    cases ho
  collateralBids id b _ hb := by
    rw [h.collateralBids] at hb
    cases hb
  vestingBalances id v hv _ := h.vestingBalances id v hv
  accumulatedFees id _ := by
    cases ha : s.assets.find id with
    | none => simp [MarketState.accumulatedFees, ha]
    | some a => exact accumulatedFees_of_find ha ▸ h.accumulatedFees id a ha
  confidentialSupply := h.confidentialSupply
  feeds id a b ha hb := by
    rw [(h.bitassets id a b ha hb).1]
    exact ⟨PriceFeed.ratiosSound_default, by simp⟩
  bitassets mia a b _ ha hb := by
    have hmarket : s.IsMarketIssued mia :=
      (isMarketIssued_of_find ha).mpr (by rw [AssetObject.isMarketIssued, hb, Option.isSome_some])
    have hdebt := h.balanced mia hmarket
    rw [currentSupply_of_find ha] at hdebt
    have hnot : ¬b.HasSettlement := by
      rw [(h.bitassets mia a b ha hb).1]
      exact not_hasSettlement_null rfl
    refine ⟨h.supply_lt mia a ha, fun _ ↦ ?_, fun _ ↦ hdebt, fun hset ↦ absurd hset hnot,
      fun hset ↦ absurd hset hnot⟩
    rw [(h.bitassets mia a b ha hb).1]

theorem Genesis.books (h : s.Genesis) : s.books = 0 := by
  refine Prod.ext (funext fun key ↦ ?_) (funext fun acct ↦ ?_)
  · rw [books_held, h.tallied key, sub_self]
    rfl
  · rw [books_counted, h.inOrders acct, h.fills, sub_self]
    rfl

/-! ## Runs -/

/-- A run from a genesis state stays sound and adds nothing to the books. -/
theorem sound_of_reaches {calculateFee : MarketOperation → ℤ} (hstart : start.Genesis)
    (hs : Run.Reaches (step calculateFee) (fun _ _ ↦ True) start s) : s.AllSound ∧ s.books = 0 := by
  refine hs.invariant (fun s ↦ s.AllSound ∧ s.books = 0) ⟨hstart.allSound, hstart.books⟩ ?_
  rintro s event ⟨hsound, hbooks⟩ -
  have hstep : Adds 0 s (s.step calculateFee event) := adds_step hsound fun key _ ↦ by
    rw [hbooks]
    rfl
  exact ⟨hstep.sound, by rw [hstep.books, hbooks, add_zero]⟩

/-! ## A run -/

/-- Two accounts, the core and a plain asset the second account holds. -/
def firstMarket : MarketState where
  balances := [⟨11, 1, 1000⟩]
  accounts := ⟨12, [(10, {}), (11, {})], sorted_twoAccounts, fresh_twoAccounts⟩
  assets := ⟨2, [(0, {}), (1, { issuer := 10, dynamicData := { currentSupply := 1000 } })],
    by decide, by decide⟩
  headBlockTime := hardforkCore216Time + 1

theorem find_firstMarket {id : AssetId} {a : AssetObject}
    (ha : firstMarket.assets.find id = some a) :
    id = 0 ∧ a = {} ∨ id = 1 ∧ a = { issuer := 10, dynamicData := { currentSupply := 1000 } } := by
  have hmem := ObjectIndex.find_eq_some.mp ha
  simpa only [firstMarket, List.mem_cons, List.not_mem_nil, or_false, Prod.mk.injEq] using hmem

theorem plain_firstMarket {id : AssetId} {a : AssetObject}
    (ha : firstMarket.assets.find id = some a) : a.bitassetData = none := by
  obtain ⟨-, rfl⟩ | ⟨-, rfl⟩ := find_firstMarket ha <;> rfl

theorem currentSupply_firstMarket (key : AssetId) :
    firstMarket.currentSupply key = if 1 = key then 1000 else 0 := by
  cases ha : firstMarket.assets.find key with
  | none =>
      split_ifs with hone
      · subst hone
        cases ha
      · simp [MarketState.currentSupply, ha]
  | some a =>
      rw [currentSupply_of_find ha]
      obtain ⟨rfl, rfl⟩ | ⟨rfl, rfl⟩ := find_firstMarket ha <;> rfl

theorem genesis_firstMarket : firstMarket.Genesis where
  core := ⟨{}, rfl, rfl⟩
  maxMarketFee id a ha := by
    obtain ⟨-, rfl⟩ | ⟨-, rfl⟩ := find_firstMarket ha <;> decide
  supply_lt id a ha := by
    obtain ⟨-, rfl⟩ | ⟨-, rfl⟩ := find_firstMarket ha <;> decide
  accumulatedFees id a ha := by
    obtain ⟨-, rfl⟩ | ⟨-, rfl⟩ := find_firstMarket ha <;> decide
  confidentialSupply id a ha := by
    obtain ⟨-, rfl⟩ | ⟨-, rfl⟩ := find_firstMarket ha <;> decide
  bitassets id a b ha hb := by
    rw [plain_firstMarket ha] at hb
    cases hb
  limitOrders := rfl
  forceSettlements := rfl
  collateralBids := rfl
  collateralRecords id c hc := by cases hc
  balanced mia := by
    rintro ⟨a, ha, hmarket⟩
    rw [AssetObject.isMarketIssued, plain_firstMarket ha] at hmarket
    cases hmarket
  vestingBalances id v hv := by cases hv
  tallied key := by
    rw [currentSupply_firstMarket]
    simp [totalBalances, firstMarket, totalOf, ObjectIndex.total, Asset.part_mk,
      AssetObject.fundAsset, ObjectIndex.empty]
  inOrders acct := by
    change firstMarket.totalCoreInOrders acct = 0
    unfold totalCoreInOrders
    cases ha : firstMarket.accounts.find acct with
    | none => rfl
    | some a =>
        have hmem := ObjectIndex.find_eq_some.mp ha
        simp only [firstMarket, List.mem_cons, List.not_mem_nil, or_false, Prod.mk.injEq] at hmem
        obtain ⟨-, rfl⟩ | ⟨-, rfl⟩ := hmem <;> rfl
  fills := rfl

def otherBacked : AssetCreateOperation where
  issuer := 10
  commonOptions := { issuerPermissions := globalSettle, coreExchangeRate := ⟨⟨1, 0⟩, ⟨1, 1⟩⟩ }
  bitassetOpts := some { shortBackingAsset := 1 }

def producer : AssetUpdateFeedProducersOperation where
  issuer := 10
  assetToUpdate := 2
  newFeedProducers := [10]

def evenFeed : AssetPublishFeedOperation where
  publisher := 10
  assetId := 2
  feed := { settlementPrice := ⟨⟨1, 2⟩, ⟨1, 1⟩⟩, coreExchangeRate := ⟨⟨1, 2⟩, ⟨1, 0⟩⟩ }

def threefoldCollateral : CallOrderUpdateOperation where
  fundingAccount := 11
  deltaCollateral := ⟨300, 1⟩
  deltaDebt := ⟨100, 2⟩

def evenSettle : AssetGlobalSettleOperation where
  issuer := 10
  assetToSettle := 2
  settlePrice := ⟨⟨1, 2⟩, ⟨1, 1⟩⟩

def partSettle : AssetSettleOperation where
  account := 11
  amount := ⟨40, 2⟩

/-- The second account borrows a hundred against three times that of the plain asset. -/
def borrowedMarket : MarketState :=
  [MarketEvent.operation (.assetCreate otherBacked) (by decide),
    .operation (.assetUpdateFeedProducers producer) (by decide),
    .operation (.assetPublishFeed evenFeed) (by decide),
    .operation (.callOrderUpdate threefoldCollateral) (by decide)].foldl (step fun _ ↦ 0) firstMarket

/-- The issuer settles the borrowed asset. -/
def seizedMarket : MarketState :=
  step (fun _ ↦ 0) borrowedMarket (.operation (.assetGlobalSettle evenSettle) (by decide))

theorem reaches_borrowedMarket : Run.Reaches (step fun _ ↦ 0) (fun _ _ ↦ True) firstMarket borrowedMarket :=
  .next _ (.next _ (.next _ (.next _ .refl trivial) trivial) trivial) trivial

theorem reaches_seizedMarket : Run.Reaches (step fun _ ↦ 0) (fun _ _ ↦ True) firstMarket seizedMarket :=
  .next _ reaches_borrowedMarket trivial

/-! ## The supplies -/

theorem stray_nonneg (f : FillOrderOperation) (acct : AccountId) : 0 ≤ countedOf acct f.stray := by
  unfold FillOrderOperation.stray
  split
  · split_ifs with hfrees
    · rw [countedOf_counted]
      split_ifs
      exacts [sub_nonneg.mpr hfrees.2.2.le, le_rfl]
    · exact le_rfl
  · exact le_rfl

/-- A fill strays from the statistics of someone when it frees other collateral than core. -/
theorem stray_eq_zero_iff (f : FillOrderOperation) :
    (∀ acct, countedOf acct f.stray = 0) ↔ ¬f.FreesOther := by
  unfold FillOrderOperation.stray FillOrderOperation.FreesOther
  cases f.order with
  | limit o => exact iff_of_true (fun _ ↦ rfl) not_false
  | settlement o => exact iff_of_true (fun _ ↦ rfl) not_false
  | call c =>
      dsimp only
      split_ifs with hfrees
      · refine iff_of_false (fun hzero ↦ ?_) (not_not.mpr hfrees)
        have hfreed := hzero c.borrower
        rw [countedOf_counted, if_pos rfl, sub_eq_zero] at hfreed
        exact hfrees.2.2.ne' hfreed
      · exact iff_of_true (fun _ ↦ rfl) hfrees

/-- What one redemption does to a settled asset. -/
structure RedeemsAsset (mia : AssetId) (amount supply : ℤ) (b : AssetBitassetData) (settled : Asset)
    (s' : MarketState) : Prop where
  nonneg : 0 ≤ settled.amount
  le_fund : settled.amount ≤ b.settlementFund
  last : amount = supply → settled.amount = b.settlementFund
  le_price : amount ≠ supply → settled.amount * b.settlementPrice.base.amount ≤
    amount * b.settlementPrice.quote.amount
  left : ∃ a', s'.assets.find mia = some a' ∧ a'.dynamicData.currentSupply = supply - amount ∧
    a'.bitassetData = some { b with settlementFund := b.settlementFund - settled.amount }

theorem redeems_of_redeem {op : AssetSettleOperation} {a : AssetObject} {b : AssetBitassetData}
    (hs : s.AllSound) (hset : s.Settled op.amount.assetId a b) (hamount : 0 ≤ op.amount.amount)
    (h : op.redeem a.dynamicData.currentSupply b s = .ok s') : ∃ settled,
      op.settledAmount a.dynamicData.currentSupply b = .ok settled ∧
      RedeemsAsset op.amount.assetId op.amount.amount a.dynamicData.currentSupply b settled s' := by
  obtain ⟨settled, a₁, b₁, a₂, t, hsettled, ha₁, hb₁, hpaid, ha₂, rfl⟩ := redeem_cases h
  obtain rfl := Option.some.inj (ha₁.symm.trans hset.find)
  obtain rfl := Option.some.inj (hb₁.symm.trans hset.bitassetData)
  have hredeems := AssetSettleOperation.redeems_of_settledAmount (hset.solvent hs) hamount hsettled
  obtain ⟨x, hx, hterms, hsupply⟩ := hpaid.find_asset (find_set ha₁ |>.trans (if_pos rfl))
  obtain rfl := Option.some.inj (ha₂.symm.trans hx)
  refine ⟨settled, hsettled, hredeems.nonneg, hredeems.le_fund, hredeems.last, hredeems.le_price,
    coveredAsset op.amount.amount a₂, (find_set ha₂).trans (if_pos rfl), ?_,
    AssetObject.bitassetData_of_terms hterms⟩
  exact congrArg (· - op.amount.amount) (hsupply rfl)

/-- A redemption that is applied finds the asset as it was when it was evaluated. -/
theorem redeems_of_evaluateAndApply {op : AssetSettleOperation} {requiredFee : Option ℤ}
    {a : AssetObject} {b : AssetBitassetData} (hs : s.AllSound)
    (hset : s.Settled op.amount.assetId a b) (hamount : 0 ≤ op.amount.amount)
    (h : s.evaluateAndApply (.assetSettle op) requiredFee = .ok s') : ∃ settled,
      op.settledAmount a.dynamicData.currentSupply b = .ok settled ∧
      RedeemsAsset op.amount.assetId op.amount.amount a.dynamicData.currentSupply b settled s' := by
  simp only [evaluateAndApply, Checked.bind_eq_ok] at h
  obtain ⟨coreFee, hprepare, ⟨⟩, -, ⟨⟩, -, s₁, hconvert, s₂, hpay, s₃, hdo, delta, hdelta, hcharge⟩ :=
    h
  obtain ⟨hfee, -, hcore⟩ := prepareFee_spec hprepare
  simp only [MarketOperation.doApply, AssetSettleOperation.doApply, Checked.bind_eq_ok, get_eq_ok,
    getBitassetData_eq_ok] at hdo
  obtain ⟨taken, htaken, s₄, htake, a₄, ha₄, b₄, hb₄, hdo⟩ := hdo
  have hput := ((payment_of_convertFee hfee hcore hconvert).trans
    (payment_of_operationFee hpay)).trans (payment_of_takeBalance htaken htake)
  obtain ⟨x, hx, hterms, hsupply⟩ := hput.find_asset hset.find
  obtain rfl := Option.some.inj (ha₄.symm.trans hx)
  have hsame := AssetObject.bitassetData_of_terms hterms
  obtain rfl := Option.some.inj (hb₄.symm.trans (hsame.trans hset.bitassetData))
  rw [if_pos hset.hasSettlement, hsupply hset.isMarketIssued] at hdo
  have hset₄ : s₄.Settled op.amount.assetId a₄ b₄ := ⟨ha₄, hb₄, hset.hasSettlement⟩
  rw [← hsupply hset.isMarketIssued] at hdo ⊢
  obtain ⟨settled, hsettled, hredeems⟩ := redeems_of_redeem (hs.of_frame hput.frame) hset₄ hamount hdo
  refine ⟨settled, hsettled, { hredeems with left := ?_ }⟩
  obtain ⟨a', ha', hleft, hfund⟩ := hredeems.left
  obtain ⟨y, hy, hterms', hsupply'⟩ := (payment_of_takeBalance hdelta hcharge).find_asset ha'
  have hmarket : a'.isMarketIssued := by rw [AssetObject.isMarketIssued, hfund, Option.isSome_some]
  exact ⟨y, hy, (hsupply' hmarket).trans hleft,
    (AssetObject.bitassetData_of_terms hterms').trans hfund⟩

theorem settle_nonneg {op : AssetSettleOperation} (h : op.validate = .ok ()) :
    0 ≤ op.amount.amount := by
  simp only [AssetSettleOperation.validate, Checked.bind_eq_ok, require_eq_ok] at h
  obtain ⟨-, -, hamount⟩ := h
  exact hamount

/-- The fund covers the recorded price of everything up to the supply. -/
theorem fundShare_le_fund {b : AssetBitassetData} {supply : ℤ} {quote share : Asset}
    (hb : b.Solvent mia supply) (hmia : quote.assetId = mia) (hquote : 0 ≤ quote.amount)
    (hle : quote.amount ≤ supply) (h : times quote b.settlementPrice = .ok share) :
    share.amount ≤ b.settlementFund := by
  obtain ⟨-, -, hshare⟩ := fundShare_spec hb hmia hquote h
  refine le_of_mul_le_mul_right (hshare.trans (le_trans ?_ hb.covers)) hb.base_pos
  exact mul_le_mul_of_nonneg_right hle hb.quote_nonneg

end MarketState

end KarmaCore.Market
