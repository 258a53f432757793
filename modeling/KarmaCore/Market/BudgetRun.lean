import Mathlib
import KarmaCore.Market.Budget

/-!
# Budgets along a run

In a run whose parameters ask for no negative pay of witnesses and whose requests
fit, no funds are ever negative, and every budget stays within its bounds.
-/

namespace KarmaCore.Market

open Transfer (get get_eq_ok)
open ObjectIndex Except

namespace MarketState

variable {s s' : MarketState} {accounts : List AccountId} {votes : ℕ → ℤ × ℤ}

/-! ## Paying workers -/

theorem nonneg_of_setWorker {id : ℕ} {worker : WorkerObject} (hworker : 0 ≤ worker.dailyPay)
    (hs : s.funds.Nonneg) :
    ({ s with workers := s.workers.set id worker } : MarketState).funds.Nonneg :=
  { hs with workers := hs.workers.set hworker }

theorem nonneg_of_payWorker {id : ℕ} {worker : WorkerObject} {pay : ℤ} (hpay : 0 ≤ pay)
    (hworker : 0 ≤ worker.dailyPay) (hs : s.funds.Nonneg)
    (h : s.payWorker id worker pay = .ok s') : s'.funds.Nonneg := by
  unfold payWorker at h
  split at h
  · simp only [Checked.bind_eq_ok, Checked.pure_eq_ok] at h
    obtain ⟨_, -, t, hburn, rfl⟩ := h
    refine nonneg_of_setWorker ?_ (nonneg_of_burn hs hburn)
    exact hworker
  · simp only [Checked.bind_eq_ok, get_eq_ok] at h
    obtain ⟨vbo, hvbo, hdeposit⟩ := h
    exact nonneg_of_depositVesting hpay hvbo hs hdeposit
  · simp only [Checked.bind_eq_ok, Checked.pure_eq_ok] at h
    obtain ⟨_, -, t, hgive, rfl⟩ := h
    refine nonneg_of_setWorker ?_ (nonneg_of_adjustBalance hs hgive)
    exact hworker

theorem nonneg_of_payEach {pays : Payroll} (hpays : ∀ p ∈ pays, 0 ≤ p.2 ∧ 0 ≤ p.1.2.dailyPay)
    (hs : s.funds.Nonneg) (h : payEach pays s = .ok s') : s'.funds.Nonneg := by
  induction pays generalizing s with
  | nil =>
      obtain rfl := Except.ok.inj h
      exact hs
  | cons p pays ih =>
      simp only [payEach, Checked.bind_eq_ok] at h
      obtain ⟨t, ht, h⟩ := h
      obtain ⟨hpay, hworker⟩ := hpays p List.mem_cons_self
      exact ih (fun q hq ↦ hpays q (List.mem_cons_of_mem p hq)) (nonneg_of_payWorker hpay hworker hs ht) h

theorem nonneg_of_processBudget (hfit : s.RequestsFit) (hs : s.funds.Nonneg)
    (h : s.processBudget = .ok s') : s'.funds.Nonneg := by
  obtain ⟨b, t, u, hbudget, hrange, heach, hsupply, rfl⟩ := processBudget_cases h
  have hbounds := Budget.bounds_of_budget hs hfit hrange hbudget
  have hpaid : t.funds.Nonneg := by
    refine nonneg_of_payEach (fun p hp ↦ ⟨(hbounds.pays p hp).1, ?_⟩) hs heach
    have hactive := hbounds.order.subset (List.mem_map_of_mem hp)
    exact hs.workers _ _ (mem_select.mp hactive).1
  have hset : u.funds.Nonneg := by
    refine nonneg_of_modifyDynamicData (fun a d _ hd hold ↦ ?_) hpaid hsupply
    simp only [AssetDynamicData.addSupply, Checked.bind_eq_ok, Checked.pure_eq_ok] at hd
    obtain ⟨_, ⟨_, -, rfl⟩, rfl⟩ := hd
    exact ⟨le_rfl, hold.2⟩
  exact { hset with witnessBudget := hbounds.witnessBudget.1 }

/-! ## Maintenance -/

theorem nonneg_updateWorkerVotes {workers : List (ℕ × WorkerObject)}
    (hworkers : ∀ w ∈ workers, 0 ≤ w.2.dailyPay) (hs : s.funds.Nonneg) :
    (updateWorkerVotes votes workers s).funds.Nonneg := by
  induction workers generalizing s with
  | nil => exact hs
  | cons w workers ih =>
      refine ih (fun v hv ↦ hworkers v (List.mem_cons_of_mem w hv)) (nonneg_of_setWorker ?_ hs)
      exact hworkers w List.mem_cons_self

theorem nonneg_of_beforeBudget (hs : s.funds.Nonneg)
    (h : s.beforeBudget accounts votes = .ok s') : s'.funds.Nonneg := by
  simp only [beforeBudget, Checked.bind_eq_ok] at h
  obtain ⟨s₁, hfba, s₂, hfees, hrenew⟩ := h
  have h₁ : s₁.funds.Nonneg :=
    triple_iff.mp (distributeFbaBalances_holds (I := fundsNonneg)) hs _ hfba
  have h₂ := nonneg_of_processAllFees h₁ hfees
  have hvoted : (updateWorkerVotes votes s₂.workers.objects s₂).funds.Nonneg :=
    nonneg_updateWorkerVotes (fun w hw ↦ h₂.workers w.1 w.2 (find_eq_some.mpr hw)) h₂
  have htimed := updateMaintenanceTime_holds (I := fundsNonneg) hvoted
  exact triple_iff.mp (renewBitassets_holds (I := fundsNonneg)) htimed _ hrenew

/-! ## Events -/

/-- Accounts with percentages they can have, workers that ask for a positive pay, parameters that
offer none that is negative, a time of 32 bits and budgets whose requests fit. -/
def FundsFit (s : MarketState) : MarketEvent → Prop
  | .registerAccount account _ => account.HasPercentages
  | .updateAccount _ account => account.HasPercentages
  | .registerWorker worker => 0 < worker.dailyPay
  | .updateParameters parameters => 0 ≤ parameters.witnessPayPerBlock
  | .nextBlock seconds => s.headBlockTime + seconds < 2 ^ 32
  | .maintenance accounts votes => ∀ t, s.beforeBudget accounts votes = .ok t → t.RequestsFit
  | _ => True

theorem nonneg_of_applyEvent {calculateFee : MarketOperation → ℤ} {event : MarketEvent}
    (hevent : s.FundsFit event) (hs : s.funds.Nonneg)
    (h : s.applyEvent calculateFee event = .ok s') : s'.funds.Nonneg := by
  cases event with
  | operation op typed =>
      simp only [applyEvent, applyOperation, Checked.bind_eq_ok] at h
      obtain ⟨⟨⟩, hvalid, h⟩ := h
      exact nonneg_of_evaluateAndApply (fundsPool_of_validate hvalid) hs h
  | nextBlock seconds =>
      obtain rfl := Except.ok.inj h
      exact { hs with headBlockTime := hevent }
  | clearExpiredOrders cancelFee => exact nonneg_of_clearExpiredOrders hs h
  | updateExpiredFeeds => exact triple_iff.mp (updateFeeds_holds (I := fundsNonneg)) hs _ h
  | updateSigningWitness witness => exact nonneg_of_updateSigningWitness hs h
  | maintenance accounts votes =>
      obtain ⟨t, ht, hbudget⟩ := performChainMaintenance_eq_ok.mp h
      exact nonneg_of_processBudget (hevent t ht) (nonneg_of_beforeBudget hs ht) hbudget
  | registerAccount account assetToBuy => exact nonneg_of_registerAccount hevent hs h
  | updateAccount id account => exact nonneg_of_updateAccount hevent hs h
  | registerWorker worker =>
      obtain rfl := Except.ok.inj h
      exact { hs with workers := hs.workers.create (le_of_lt hevent) }
  | registerWitness account =>
      obtain rfl := Except.ok.inj h
      exact hs
  | createVesting creator owner amount cddVestingSeconds => exact nonneg_of_createVesting hs h
  | withdrawVesting id amount => exact nonneg_of_withdrawVesting hs h
  | updateParameters parameters =>
      obtain rfl := Except.ok.inj h
      exact { hs with witnessPay := hevent }

theorem nonneg_step {calculateFee : MarketOperation → ℤ} {event : MarketEvent}
    (hs : s.funds.Nonneg) (hevent : s.FundsFit event) : (s.step calculateFee event).funds.Nonneg := by
  unfold step
  split
  · next h => exact nonneg_of_applyEvent hevent hs h
  · exact hs

/-- In a run of fitting events no funds are ever negative. -/
theorem nonneg_of_reaches {calculateFee : MarketOperation → ℤ} {start : MarketState}
    (hstart : start.funds.Nonneg) (hs : Run.Reaches (step calculateFee) FundsFit start s) :
    s.funds.Nonneg :=
  hs.invariant (·.funds.Nonneg) hstart fun _ _ ↦ nonneg_step

/-! ## Budgets -/

/-- A budget of a maintenance, within the reserve and its own parts, that is paid out and leaves
the supply between nothing and its maximum. -/
structure Budget.Meets (b : Budget) (s s' : MarketState) : Prop where
  budget : s.budget = .ok b
  reserve : b.record.totalBudget ≤ s.reserve
  bounds : b.Bounds s
  paidOut : b.PaidOut s s'
  supply : 0 ≤ s'.currentSupply coreAsset ∧ s'.currentSupply coreAsset ≤ s'.maxSupply coreAsset

/-- The first market with the accumulators of the three blind transfer operations. -/
def payingMarket : MarketState :=
  { firstMarket with fbaAccumulators := ⟨3, [(0, {}), (1, {}), (2, {})], by decide, by decide⟩ }

theorem genesis_payingMarket : payingMarket.Genesis :=
  { genesis_firstMarket with
    tallied := fun key ↦ by
      refine Eq.trans ?_ (currentSupply_firstMarket key).symm
      simp [totalBalances, payingMarket, firstMarket, totalOf, ObjectIndex.total, Asset.part_mk,
        AssetObject.fundAsset, ObjectIndex.empty] }

theorem nonneg_payingMarket : payingMarket.funds.Nonneg where
  accounts := by
    intro id a ha
    have hmem := find_eq_some.mp ha
    simp only [funds, payingMarket, firstMarket, List.mem_cons, List.not_mem_nil, or_false,
      Prod.mk.injEq] at hmem
    obtain ⟨-, rfl⟩ | ⟨-, rfl⟩ := hmem <;> exact ⟨by decide, by decide, by decide⟩
  assets := by
    intro id a ha
    obtain ⟨-, rfl⟩ | ⟨-, rfl⟩ := find_firstMarket ha <;> exact ⟨by decide, by decide⟩
  limitOrders := fun id o ho ↦ by cases ho
  vestingBalances := fun id v hv ↦ by cases hv
  fbaAccumulators := by
    intro id f hf
    have hmem := find_eq_some.mp hf
    simp only [funds, payingMarket, List.mem_cons, List.not_mem_nil, or_false, Prod.mk.injEq] at hmem
    obtain ⟨-, rfl⟩ | ⟨-, rfl⟩ | ⟨-, rfl⟩ := hmem <;> exact le_rfl
  workers := fun id w hw ↦ by cases hw
  witnessPay := by decide
  headBlockTime := by decide
  witnessBudget := by decide

def refundWorker : WorkerObject where
  dailyPay := 1000
  workBeginDate := 0
  workEndDate := 2 ^ 32 - 1
  worker := .refund 0

/-- Every worker has one vote. -/
def oneVote : ℕ → ℤ × ℤ := fun _ ↦ (1, 0)

/-- The day after the first maintenance with a refund worker. -/
def employedMarket : MarketState :=
  [MarketEvent.registerWorker refundWorker, .maintenance [] oneVote,
    .nextBlock 86400].foldl (step fun _ ↦ 0) payingMarket

instance (s : MarketState) : Decidable s.RequestsFit :=
  decidable_of_iff (s.parameters.witnessPayPerBlock * s.blocksToMaint < 2 ^ 63 ∧
      (s.lastBudgetTime ≠ 0 → ∀ w ∈ s.activeWorkers,
        mul128 w.2.dailyPay (s.headBlockTime - s.lastBudgetTime : ℕ) / secondsPerDay < 2 ^ 63))
    ⟨fun h ↦ ⟨h.1, h.2⟩, fun h ↦ ⟨h.1, h.2⟩⟩

theorem fundsFit_maintenance
    (h : ∃ t, s.beforeBudget accounts votes = .ok t ∧ t.RequestsFit) :
    s.FundsFit (.maintenance accounts votes) := by
  obtain ⟨t, ht, hfit⟩ := h
  intro t' ht'
  exact Except.ok.inj (ht.symm.trans ht') ▸ hfit

theorem reaches_employedMarket : Run.Reaches (step fun _ ↦ 0) FundsFit payingMarket employedMarket := by
  have hworker : payingMarket.FundsFit (.registerWorker refundWorker) := by
    change 0 < refundWorker.dailyPay
    decide
  have hbudget : (payingMarket.step (fun _ ↦ 0) (.registerWorker refundWorker)).FundsFit
      (.maintenance [] oneVote) := fundsFit_maintenance (by decide +kernel)
  refine .next (MarketEvent.nextBlock 86400) (.next (MarketEvent.maintenance [] oneVote)
    (.next (MarketEvent.registerWorker refundWorker) .refl hworker) hbudget) ?_
  change _ + 86400 < 2 ^ 32
  decide +kernel

end MarketState

end KarmaCore.Market
