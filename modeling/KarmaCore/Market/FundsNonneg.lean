import Mathlib
import KarmaCore.Market.FeeSplit
import KarmaCore.Market.MarketInvariant

/-!
# Funds that are never negative

Fees that wait to be paid out, fee pools, vesting balances, the pay of workers and
the witness budget are never negative as long as the parameters ask for no negative
pay of witnesses and the time has 32 bits.  Fees and the witness budget are then no
more than the core supply.
-/

set_option mvcgen.warning false

namespace KarmaCore.Market

open Transfer (get get_eq_ok)
open ObjectIndex Std.Do Except

/-! ## The invariant -/

/-- The percentages leave something for everyone, and no pending fees are negative. -/
structure AccountObject.FundsNonneg (a : AccountObject) : Prop where
  pending : 0 ≤ a.statistics.pendingFees ∧ 0 ≤ a.statistics.pendingVestedFees
  shares : a.networkFeePercentage + a.lifetimeReferrerFeePercentage ≤ percent100
  referrer : a.referrerRewardsPercentage ≤ percent100

def AssetDynamicData.FundsNonneg (d : AssetDynamicData) : Prop :=
  0 ≤ d.accumulatedFees ∧ 0 ≤ d.feePool

structure Funds.Nonneg (f : Funds) : Prop where
  accounts : f.accounts.Each AccountObject.FundsNonneg
  assets : f.assets.Each (·.dynamicData.FundsNonneg)
  limitOrders : f.limitOrders.Each (0 ≤ ·.deferredFee)
  vestingBalances : f.vestingBalances.Each (0 ≤ ·.balance.amount)
  fbaAccumulators : f.fbaAccumulators.Each (0 ≤ ·.accumulatedFbaFees)
  workers : f.workers.Each (0 ≤ ·.dailyPay)
  witnessPay : 0 ≤ f.parameters.witnessPayPerBlock
  headBlockTime : f.headBlockTime < 2 ^ 32
  witnessBudget : 0 ≤ f.witnessBudget

theorem AccountObject.FundsNonneg.splits {a : AccountObject} (h : a.FundsNonneg) {total : ℤ}
    (htotal : 0 ≤ total) : (a.feeParts total).Splits total :=
  AccountObject.splits_of_bounds h.shares h.referrer htotal

namespace MarketState

variable {s s' : MarketState} {acct : AccountId} {mia : AssetId} {id : ℕ} {ids : List ℕ} {amount : ℤ}

theorem nonneg_of_modifyAccount {f : AccountObject → Checked AccountObject} (hs : s.funds.Nonneg)
    (hf : ∀ a a', a.FundsNonneg → f a = .ok a' → a'.FundsNonneg)
    (h : s.modifyAccount acct f = .ok s') : s'.funds.Nonneg := by
  simp only [modifyAccount, Checked.bind_eq_ok, Checked.pure_eq_ok, get_eq_ok] at h
  obtain ⟨a, ha, a', ha', rfl⟩ := h
  exact { hs with accounts := hs.accounts.set (hf a a' (hs.accounts acct a ha) ha') }

theorem nonneg_of_modifyStatistics {f : AccountStatistics → Checked AccountStatistics}
    (hf : ∀ b b', f b = .ok b' → b.KeepsPending b') (hs : s.funds.Nonneg)
    (h : s.modifyStatistics acct f = .ok s') : s'.funds.Nonneg := by
  refine nonneg_of_modifyAccount hs (fun a a' ha ha' ↦ ?_) h
  simp only [Checked.bind_eq_ok, Checked.pure_eq_ok] at ha'
  obtain ⟨b', hb', rfl⟩ := ha'
  exact ⟨hf _ b' hb' ha.pending, ha.shares, ha.referrer⟩

theorem nonneg_of_setAsset {a : AssetObject} (hs : s.funds.Nonneg)
    (ha : a.dynamicData.FundsNonneg) :
    ({ s with assets := s.assets.set id a } : MarketState).funds.Nonneg :=
  { hs with assets := hs.assets.set ha }

theorem nonneg_of_modifyDynamicData {f : AssetDynamicData → Checked AssetDynamicData}
    (hf : ∀ a d, s.assets.find id = some a → f a.dynamicData = .ok d →
      a.dynamicData.FundsNonneg → d.FundsNonneg)
    (hs : s.funds.Nonneg) (h : s.modifyDynamicData id f = .ok s') : s'.funds.Nonneg := by
  obtain ⟨a, d, ha, hd, rfl⟩ := modifyDynamicData_cases h
  exact nonneg_of_setAsset hs (hf a d ha hd (hs.assets id a ha))

theorem nonneg_of_modifyBitassetData {f : AssetBitassetData → Checked AssetBitassetData}
    (hs : s.funds.Nonneg) (h : s.modifyBitassetData id f = .ok s') : s'.funds.Nonneg := by
  obtain ⟨a, a', ha, ha', rfl⟩ := modifyAsset_cases h
  simp only [Checked.bind_eq_ok, Checked.pure_eq_ok] at ha'
  obtain ⟨_, -, _, -, rfl⟩ := ha'
  exact nonneg_of_setAsset hs (hs.assets id a ha)

theorem nonneg_of_modifyRest {f : AssetObject → AssetObject}
    (hf : ∀ a, (f a).dynamicData = a.dynamicData) (hs : s.funds.Nonneg)
    (h : s.modifyAsset id (fun a ↦ .ok (f a)) = .ok s') : s'.funds.Nonneg := by
  obtain ⟨a, a', ha, ha', rfl⟩ := modifyAsset_cases h
  obtain rfl := Except.ok.inj ha'
  exact nonneg_of_setAsset hs (hf a ▸ hs.assets id a ha)

/-- Funds that are not negative are an invariant of the market. -/
def fundsNonneg : MarketInvariant where
  Holds := Funds.Nonneg
  modifyStatistics := nonneg_of_modifyStatistics
  modifyDynamicData hf := nonneg_of_modifyDynamicData fun a d _ ↦ hf a.dynamicData d
  modifyBitassetData _ := nonneg_of_modifyBitassetData
  modifyRest hf := nonneg_of_modifyRest fun a ↦ (hf a).1
  createAsset hfees hpool _ hs := { hs with assets := hs.assets.create ⟨hfees.ge, hpool⟩ }
  removeLimitOrder hs := { hs with limitOrders := hs.limitOrders.remove }
  setLimitOrder ho hs := { hs with limitOrders := hs.limitOrders.set ho }
  createLimitOrder ho hs := { hs with limitOrders := hs.limitOrders.create ho }
  setFbaAccumulator hf hs := { hs with fbaAccumulators := hs.fbaAccumulators.set hf }

/-! ## Paying a fee -/

/-- The pool was seen to hold what the fee is converted to. -/
theorem nonneg_of_convertFee {payer : AccountId} {fee : Asset} {coreFee : ℤ}
    (hprepare : s.prepareFee payer fee = .ok coreFee) (hs : s.funds.Nonneg)
    (h : s.convertFee fee coreFee = .ok s') : s'.funds.Nonneg := by
  rcases whenever_eq_ok.mp h with ⟨hother, h⟩ | ⟨-, rfl⟩
  · refine nonneg_of_modifyDynamicData (fun a d ha hd ↦ ?_) hs h
    simp only [prepareFee, Checked.bind_eq_ok, require_eq_ok, get_eq_ok] at hprepare
    obtain ⟨-, hfee, -, -, a', ha', -, -, -, -, hprepare⟩ := hprepare
    obtain rfl := Option.some.inj (ha.symm.trans ha')
    rw [if_neg hother] at hprepare
    simp only [Checked.bind_eq_ok, Checked.pure_eq_ok, require_eq_ok] at hprepare
    obtain ⟨value, -, -, -, -, hpool, rfl⟩ := hprepare
    simp only [Checked.bind_eq_ok, Checked.pure_eq_ok, checkedShare_eq_ok] at hd
    obtain ⟨_, ⟨-, rfl⟩, _, ⟨-, rfl⟩, rfl⟩ := hd
    rintro ⟨haccumulated, -⟩
    exact ⟨add_nonneg haccumulated hfee, sub_nonneg.mpr hpool⟩
  · exact hs

theorem nonneg_of_payFee (hamount : 0 ≤ amount) (hs : s.funds.Nonneg)
    (h : s.payFee acct amount = .ok s') : s'.funds.Nonneg :=
  nonneg_of_modifyStatistics (fun _ _ ↦ AccountStatistics.keepsPending_of_payFee hamount) hs h

theorem nonneg_of_payFbaFee (hamount : 0 ≤ amount) (hs : s.funds.Nonneg)
    (h : s.payFbaFee id acct amount = .ok s') : s'.funds.Nonneg := by
  simp only [payFbaFee, Checked.bind_eq_ok, get_eq_ok] at h
  obtain ⟨fba, hfba, h⟩ := h
  split_ifs at h
  · simp only [Checked.bind_eq_ok, Checked.pure_eq_ok, checkedShare_eq_ok] at h
    obtain ⟨_, ⟨-, rfl⟩, rfl⟩ := h
    exact fundsNonneg.setFbaAccumulator (add_nonneg (hs.fbaAccumulators id fba hfba) hamount) hs
  · exact nonneg_of_payFee hamount hs h

theorem poolFee_pos (hamount : 0 ≤ amount) : 0 ≤ AssetCreateOperation.poolFee amount := by
  have hpool := poolFee_nonneg hamount False
  simpa using hpool

theorem nonneg_of_operationFee {op : MarketOperation} (hamount : 0 ≤ amount) (hs : s.funds.Nonneg)
    (h : op.payFee amount s = .ok s') : s'.funds.Nonneg := by
  unfold MarketOperation.payFee at h
  split at h
  · split_ifs at h
    · exact nonneg_of_payFee hamount hs h
    · obtain rfl := Except.ok.inj h
      exact hs
  · exact nonneg_of_payFee (poolFee_pos hamount) hs h
  · split at h
    · exact nonneg_of_payFbaFee hamount hs h
    · exact nonneg_of_payFee hamount hs h
  · exact nonneg_of_payFee hamount hs h

/-! ## Applying an operation -/

theorem nonneg_of_publishFeed {op : AssetPublishFeedOperation} (hs : s.funds.Nonneg)
    (h : op.doApply s = .ok s') : s'.funds.Nonneg := by
  simp only [AssetPublishFeedOperation.doApply, Checked.bind_eq_ok] at h
  obtain ⟨old, -, t, ht, h⟩ := h
  have hpublished : fundsNonneg.Holds t.funds := nonneg_of_modifyBitassetData hs ht
  split_ifs at h
  · obtain rfl := Checked.pure_eq_ok.mp h
    exact hpublished
  · simp only [Checked.bind_eq_ok] at h
    obtain ⟨t', ht', ⟨_, t''⟩, ht'', h⟩ := h
    obtain rfl := Checked.pure_eq_ok.mp h
    have hrevived : fundsNonneg.Holds t'.funds := by
      rcases whenever_eq_ok.mp ht' with ⟨-, ht'⟩ | ⟨-, rfl⟩
      · exact triple_iff.mp reviveIfCollateralized_holds hpublished _ ht'
      · exact hpublished
    exact triple_iff.mp checkCallOrders_holds hrevived _ ht''

/-- A fee pool is funded with an amount that is not negative. -/
def FundsPool : MarketOperation → Prop
  | .assetFundFeePool op => 0 ≤ op.amount
  | _ => True

theorem fundsPool_of_validate {op : MarketOperation} (h : op.validate = .ok ()) : FundsPool op := by
  cases op with
  | assetFundFeePool op =>
      simp only [MarketOperation.validate, AssetFundFeePoolOperation.validate, Checked.bind_eq_ok,
        require_eq_ok] at h
      obtain ⟨-, -, -, -, hamount⟩ := h
      exact hamount.le
  | _ => trivial

theorem nonneg_of_doApply {op : MarketOperation} (hamount : 0 ≤ amount) (hpool : FundsPool op)
    (hs : s.funds.Nonneg) (h : op.doApply amount s = .ok s') : s'.funds.Nonneg := by
  suffices hspec : ⦃⌜fundsNonneg.Holds s.funds⌝⦄
      op.doApply amount s
      ⦃⇓? s' => ⌜fundsNonneg.Holds s'.funds⌝⦄ from
    triple_iff.mp hspec hs _ h
  cases op with
  | assetUpdateBitasset op => exact triple_iff.mpr fun hs _ ↦ nonneg_of_modifyBitassetData hs
  | assetPublishFeed op => exact triple_iff.mpr fun hs _ ↦ nonneg_of_publishFeed hs
  | assetFundFeePool op =>
      mvcgen [MarketOperation.doApply]
      exact fun _ ↦ hpool
  | limitOrderCreate op =>
      mvcgen [MarketOperation.doApply]
      exact fun _ ↦ deferredFee_nonneg hamount
  | assetCreate op =>
      mvcgen [MarketOperation.doApply]
      exact fun _ ↦ hamount
  | _ => mvcgen [MarketOperation.doApply]

theorem nonneg_of_adjustBalance {delta : Asset} (hs : s.funds.Nonneg)
    (h : s.adjustBalance acct delta = .ok s') : s'.funds.Nonneg := by
  simp only [adjustBalance, Checked.bind_eq_ok, Checked.pure_eq_ok] at h
  obtain ⟨_, -, rfl⟩ := h
  exact hs

theorem nonneg_of_evaluateAndApply {op : MarketOperation} {requiredFee : Option ℤ}
    (hpool : FundsPool op) (hs : s.funds.Nonneg)
    (h : s.evaluateAndApply op requiredFee = .ok s') : s'.funds.Nonneg := by
  simp only [evaluateAndApply, Checked.bind_eq_ok] at h
  obtain ⟨fee, hfee, -, -, -, -, s₁, hconvert, s₂, hpay, s₃, happly, _, -, hadjust⟩ := h
  obtain ⟨-, hcore, -⟩ := prepareFee_spec hfee
  have h₁ := nonneg_of_convertFee hfee hs hconvert
  have h₂ := nonneg_of_operationFee hcore h₁ hpay
  exact nonneg_of_adjustBalance (nonneg_of_doApply hcore hpool h₂ happly) hadjust

/-! ## Distributing fees -/

theorem nonneg_of_depositVesting {vbo : VestingBalanceObject} (hamount : 0 ≤ amount)
    (hvbo : s.vestingBalances.find id = some vbo) (hs : s.funds.Nonneg)
    (h : s.depositVesting id vbo amount = .ok s') : s'.funds.Nonneg := by
  simp only [depositVesting, Checked.bind_eq_ok, Checked.pure_eq_ok] at h
  obtain ⟨balance, hbalance, rfl⟩ := h
  obtain ⟨-, -, rfl⟩ := Asset.add_eq_ok.mp hbalance
  exact { hs with
    vestingBalances := hs.vestingBalances.set (add_nonneg (hs.vestingBalances id vbo hvbo) hamount) }

theorem lazyVestingTarget_find {vbid : Option ℕ} {seconds : ℕ} {vbo : VestingBalanceObject}
    (h : s.lazyVestingTarget vbid seconds acct = .ok (some (id, vbo))) :
    s.vestingBalances.find id = some vbo := by
  unfold lazyVestingTarget at h
  split at h
  · cases h
  · simp only [Checked.bind_eq_ok, Checked.pure_eq_ok, get_eq_ok] at h
    obtain ⟨found, hfound, heq⟩ := h
    split_ifs at heq
    obtain ⟨rfl, rfl⟩ := Prod.mk.inj (Option.some.inj heq)
    exact hfound

theorem nonneg_of_depositLazyVesting {vbid vb : Option ℕ} {seconds : ℕ} (hamount : 0 ≤ amount)
    (hs : s.funds.Nonneg) (h : s.depositLazyVesting vbid amount seconds acct = .ok (vb, s')) :
    s'.funds.Nonneg := by
  unfold depositLazyVesting at h
  split_ifs at h
  · obtain ⟨-, rfl⟩ := Prod.mk.inj (Except.ok.inj h)
    exact hs
  · simp only [Checked.bind_eq_ok] at h
    obtain ⟨target, htarget, h⟩ := h
    cases target with
    | none =>
        obtain ⟨-, rfl⟩ := Prod.mk.inj (Except.ok.inj h)
        exact { hs with vestingBalances := hs.vestingBalances.create hamount }
    | some target =>
        simp only [Checked.bind_eq_ok, Checked.pure_eq_ok, Prod.mk.injEq] at h
        obtain ⟨t, hdeposit, -, rfl⟩ := h
        exact nonneg_of_depositVesting hamount (lazyVestingTarget_find htarget) hs hdeposit

theorem nonneg_of_setCashbackVb {vb : Option ℕ} (hs : s.funds.Nonneg)
    (h : s.setCashbackVb acct vb = .ok s') : s'.funds.Nonneg := by
  unfold setCashbackVb at h
  split at h
  · refine nonneg_of_modifyAccount hs ?_ h
    rintro a _ ha ⟨⟩
    exact { ha with }
  · obtain rfl := Except.ok.inj h
    exact hs

theorem nonneg_of_burn (hs : s.funds.Nonneg)
    (h : s.modifyDynamicData id (·.subSupply amount) = .ok s') : s'.funds.Nonneg :=
  fundsNonneg.modifyDynamicData (fun _ _ ↦ AssetDynamicData.keepsFees_of_subSupply) hs h

theorem nonneg_of_depositCashback (hamount : 0 ≤ amount) (hs : s.funds.Nonneg)
    (h : s.depositCashback acct amount = .ok s') : s'.funds.Nonneg := by
  simp only [depositCashback, Checked.bind_eq_ok] at h
  obtain ⟨account, -, h⟩ := h
  split_ifs at h
  · obtain rfl := Checked.pure_eq_ok.mp h
    exact hs
  · exact nonneg_of_burn hs h
  · simp only [Checked.bind_eq_ok, Prod.exists] at h
    obtain ⟨vb, t, hdeposit, hset⟩ := h
    exact nonneg_of_setCashbackVb (nonneg_of_depositLazyVesting hamount hs hdeposit) hset

theorem nonneg_of_updateReferrer (hs : s.funds.Nonneg) (h : s.updateReferrer acct = .ok s') :
    s'.funds.Nonneg := by
  simp only [updateReferrer, Checked.bind_eq_ok] at h
  obtain ⟨account, -, referrer, -, h⟩ := h
  rcases whenever_eq_ok.mp h with ⟨-, h⟩ | ⟨-, rfl⟩
  · refine nonneg_of_modifyAccount hs ?_ h
    rintro a _ ha ⟨⟩
    exact { ha with }
  · exact hs

/-- The parts of a fee are not negative, so neither are the funds they go to. -/
theorem nonneg_of_payOutFees (hamount : 0 ≤ amount) (hs : s.funds.Nonneg)
    (h : s.payOutFees acct amount = .ok s') : s'.funds.Nonneg := by
  simp only [payOutFees, Checked.bind_eq_ok, checkedShare_eq_ok, get_eq_ok] at h
  obtain ⟨s₁, hreferrer, account, haccount, _, ⟨-, rfl⟩, _, ⟨-, rfl⟩, s₂, hnetwork, _, ⟨-, rfl⟩, s₃,
    hlifetime, s₄, hreferred, hregistrar⟩ := h
  have h₁ := nonneg_of_updateReferrer hs hreferrer
  have hparts := (h₁.accounts acct account haccount).splits hamount
  have h₂ : s₂.funds.Nonneg := by
    refine nonneg_of_modifyDynamicData (fun a d _ hd ↦ ?_) h₁ hnetwork
    simp only [Checked.bind_eq_ok, Checked.pure_eq_ok, checkedShare_eq_ok] at hd
    obtain ⟨_, ⟨-, rfl⟩, rfl⟩ := hd
    exact fun hold ↦ ⟨add_nonneg hold.1 hparts.network, hold.2⟩
  have h₃ := nonneg_of_depositCashback hparts.lifetime h₂ hlifetime
  have h₄ := nonneg_of_depositCashback hparts.referrer h₃ hreferred
  exact nonneg_of_depositCashback hparts.registrar h₄ hregistrar

theorem nonneg_of_processFees (hs : s.funds.Nonneg) (h : s.processFees acct = .ok s') :
    s'.funds.Nonneg := by
  simp only [processFees, Checked.bind_eq_ok, get_eq_ok] at h
  obtain ⟨account, haccount, h⟩ := h
  obtain ⟨hpending, hvested⟩ := (hs.accounts acct account haccount).pending
  split_ifs at h
  · simp only [Checked.bind_eq_ok] at h
    obtain ⟨s₁, h₁, s₂, h₂, hclear⟩ := h
    have hpaid := nonneg_of_payOutFees hvested (nonneg_of_payOutFees hpending hs h₁) h₂
    refine nonneg_of_modifyStatistics (fun b b' hb ↦ ?_) hpaid hclear
    simp only [Checked.bind_eq_ok, Checked.pure_eq_ok] at hb
    obtain ⟨_, -, _, -, rfl⟩ := hb
    exact fun _ ↦ ⟨le_rfl, le_rfl⟩
  · obtain rfl := Checked.pure_eq_ok.mp h
    exact hs

theorem nonneg_of_processAllFees (hs : s.funds.Nonneg) (h : processAllFees ids s = .ok s') :
    s'.funds.Nonneg := by
  induction ids generalizing s with
  | nil =>
      obtain rfl := Except.ok.inj h
      exact hs
  | cons acct accts ih =>
      simp only [processAllFees, Checked.bind_eq_ok] at h
      obtain ⟨t, ht, h⟩ := h
      exact ih (nonneg_of_processFees hs ht) h

/-! ## Passes -/

theorem nonneg_of_cancelExpiredOrders {cancelFee : ℕ} (hs : s.funds.Nonneg)
    (h : cancelExpiredOrders cancelFee ids s = .ok s') : s'.funds.Nonneg := by
  induction ids generalizing s with
  | nil =>
      obtain rfl := Except.ok.inj h
      exact hs
  | cons id ids ih =>
      simp only [cancelExpiredOrders, cancelExpiredOrder, Checked.bind_eq_ok] at h
      obtain ⟨t, ht, h⟩ := h
      refine ih ?_ h
      split at ht
      · refine nonneg_of_evaluateAndApply ?_ hs ht
        trivial
      · obtain rfl := Except.ok.inj ht
        exact hs

theorem nonneg_of_clearExpiredOrders {cancelFee : ℕ} (hs : s.funds.Nonneg)
    (h : s.clearExpiredOrders cancelFee = .ok s') : s'.funds.Nonneg := by
  simp only [clearExpiredOrders, Checked.bind_eq_ok] at h
  obtain ⟨t, ht, h⟩ := h
  have hcancelled : fundsNonneg.Holds t.funds := nonneg_of_cancelExpiredOrders hs ht
  exact triple_iff.mp clearDueSettlements_holds hcancelled _ h

/-- The witness gets no more than is left of the budget. -/
theorem nonneg_of_updateSigningWitness (hs : s.funds.Nonneg)
    (h : s.updateSigningWitness id = .ok s') : s'.funds.Nonneg := by
  simp only [updateSigningWitness, Checked.bind_eq_ok, Checked.pure_eq_ok, checkedShare_eq_ok,
    Prod.exists] at h
  obtain ⟨witness, -, _, ⟨-, rfl⟩, vb, t, hdeposit, rfl⟩ := h
  have hwitness : 0 ≤ min s.parameters.witnessPayPerBlock s.witnessBudget :=
    le_min hs.witnessPay hs.witnessBudget
  have htaken : ({ s with witnessBudget :=
      s.witnessBudget - min s.parameters.witnessPayPerBlock s.witnessBudget } :
      MarketState).funds.Nonneg :=
    { hs with witnessBudget := sub_nonneg.mpr (min_le_right _ _) }
  have hpaid := nonneg_of_depositLazyVesting hwitness htaken hdeposit
  split
  · exact hpaid
  · exact hpaid

/-! ## What other operations do -/

theorem nonneg_of_registerAccount {account : AccountObject} {assetToBuy : Option AssetId}
    (haccount : account.HasPercentages) (hs : s.funds.Nonneg)
    (h : s.registerAccount account assetToBuy = .ok s') : s'.funds.Nonneg := by
  have hnew : AccountObject.FundsNonneg { account with statistics := {} } :=
    ⟨⟨le_rfl, le_rfl⟩, haccount.bounds.1, haccount.bounds.2⟩
  have hcreated : ({ s with accounts := s.accounts.create { account with statistics := {} } } :
      MarketState).funds.Nonneg :=
    { hs with accounts := hs.accounts.create hnew }
  simp only [registerAccount] at h
  split at h
  · refine nonneg_of_modifyRest ?_ hcreated h
    exact fun _ ↦ rfl
  · obtain rfl := Checked.pure_eq_ok.mp h
    exact hcreated

theorem nonneg_of_updateAccount {account : AccountObject} (haccount : account.HasPercentages)
    (hs : s.funds.Nonneg)
    (h : s.modifyAccount acct (fun a ↦ .ok { account with statistics := a.statistics }) = .ok s') :
    s'.funds.Nonneg := by
  refine nonneg_of_modifyAccount hs ?_ h
  rintro a _ ha ⟨⟩
  exact ⟨ha.pending, haccount.bounds.1, haccount.bounds.2⟩

theorem nonneg_of_createVesting {creator owner : AccountId} {amount : Asset}
    {cddVestingSeconds : Option ℕ} (hs : s.funds.Nonneg)
    (h : s.createVesting creator owner amount cddVestingSeconds = .ok s') : s'.funds.Nonneg := by
  simp only [createVesting, Checked.bind_eq_ok, Checked.pure_eq_ok, require_eq_ok] at h
  obtain ⟨-, hpos, delta, -, t, htake, rfl⟩ := h
  have htaken := nonneg_of_adjustBalance hs htake
  exact { htaken with vestingBalances := htaken.vestingBalances.create hpos.le }

theorem nonneg_of_withdrawVesting {amount : ℕ} (hs : s.funds.Nonneg)
    (h : s.withdrawVesting id amount = .ok s') : s'.funds.Nonneg := by
  simp only [withdrawVesting, Checked.bind_eq_ok, require_eq_ok] at h
  obtain ⟨vbo, -, -, hle, balance, hbalance, hgive⟩ := h
  obtain ⟨-, -, rfl⟩ := Asset.sub_eq_ok.mp hbalance
  have htaken : ({ s with vestingBalances := s.vestingBalances.set id { vbo with
      balance := ⟨vbo.balance.amount - amount, vbo.balance.assetId⟩ } } : MarketState).funds.Nonneg :=
    { hs with vestingBalances := hs.vestingBalances.set (sub_nonneg.mpr hle) }
  exact nonneg_of_adjustBalance htaken hgive

/-! ## What is held of the core -/

theorem accumulatedFees_nonneg (hs : s.funds.Nonneg) (id : AssetId) : 0 ≤ s.accumulatedFees id := by
  cases ha : s.assets.find id with
  | none => simp [accumulatedFees, ha]
  | some a => exact accumulatedFees_of_find ha ▸ (hs.assets id a ha).1

/-- The fees and the witness budget are part of the core supply. -/
theorem fees_add_witnessBudget_le_supply (hs : s.AllSound) (hfunds : s.funds.Nonneg)
    (hbooks : s.books.1 coreAsset = 0) :
    s.accumulatedFees coreAsset + s.witnessBudget ≤ s.currentSupply coreAsset := by
  have horders := hs.inOrders_nonneg coreAsset
  have hpending : 0 ≤ s.accounts.total (fun _ a ↦
      (Asset.mk (a.statistics.pendingFees + a.statistics.pendingVestedFees) coreAsset).part coreAsset) :=
    total_nonneg fun id a ha ↦ part_nonneg fun _ ↦
      add_nonneg (hfunds.accounts id a ha).pending.1 (hfunds.accounts id a ha).pending.2
  have hdeferred : 0 ≤ s.limitOrders.total (fun _ o ↦ (Asset.mk o.deferredFee coreAsset).part coreAsset) :=
    total_nonneg fun id o ho ↦ part_nonneg fun _ ↦ hfunds.limitOrders id o ho
  have hvesting : 0 ≤ s.vestingBalances.total (fun _ v ↦ v.balance.part coreAsset) :=
    total_nonneg fun id v hv ↦ part_nonneg fun _ ↦ hfunds.vestingBalances id v hv
  have hfba : 0 ≤ s.fbaAccumulators.total (fun _ f ↦
      (Asset.mk f.accumulatedFbaFees coreAsset).part coreAsset) :=
    total_nonneg fun id f hf ↦ part_nonneg fun _ ↦ hfunds.fbaAccumulators id f hf
  have hrest : 0 ≤ s.assets.total (fun id a ↦
      (Asset.mk a.dynamicData.feePool coreAsset).part coreAsset + a.fundAsset.part coreAsset +
        (Asset.mk a.dynamicData.confidentialSupply id).part coreAsset) :=
    total_nonneg fun id a ha ↦ add_nonneg
      (add_nonneg (part_nonneg fun _ ↦ (hfunds.assets id a ha).2) (hs.fund_nonneg ha))
      (part_nonneg fun _ ↦ hs.confidentialSupply id a ha)
  have hfees : s.accumulatedFees coreAsset ≤
      s.assets.total (fun id a ↦ (Asset.mk a.dynamicData.accumulatedFees id).part coreAsset) := by
    obtain ⟨a, ha, -⟩ := hs.core
    have hle := le_total
      (w := fun id a ↦ (Asset.mk a.dynamicData.accumulatedFees id).part coreAsset)
      (fun id a ha ↦ part_nonneg fun _ ↦ (hfunds.assets id a ha).1) ha
    rw [accumulatedFees_of_find ha]
    exact hle
  have heq := books_held s coreAsset
  simp only [hbooks, totalBalances, add_assoc, total_add] at heq
  simp only [add_assoc, total_add] at hrest horders
  have hbalances := Int.natCast_nonneg (totalOf coreAsset s.balances)
  have hwitness : (Asset.mk s.witnessBudget coreAsset).part coreAsset = s.witnessBudget := if_pos rfl
  omega

end MarketState

end KarmaCore.Market
