import Mathlib
import KarmaCore.Market.FundsNonneg

/-!
# The budget of a maintenance

A budget is planned from the state alone: what of the reserve may be spent, what of
it goes to the witnesses and to the workers, and the pay of every worker in the
order of their votes.  `process_budget` pays as planned, and neither the plan nor
the supply it leads to leaves its bounds.
-/

namespace KarmaCore.Market

open Transfer (get get_eq_ok)
open ObjectIndex

/-! ## Plans -/

/-- A refund worker burns what it is paid. -/
def WorkerObject.IsRefund (w : WorkerObject) : Prop :=
  match w.worker with
  | .refund _ => True
  | _ => False

instance (w : WorkerObject) : Decidable w.IsRefund := by
  unfold WorkerObject.IsRefund
  split <;> infer_instance

/-- Workers with their ids and what each of them is paid. -/
abbrev Payroll := List ((ℕ × WorkerObject) × ℤ)

namespace Payroll

def paid (pays : Payroll) : ℤ := (pays.map Prod.snd).sum

def refunded (pays : Payroll) : ℤ := (pays.map fun p ↦ if p.1.2.IsRefund then p.2 else 0).sum

/-- Nobody is paid less than nothing. -/
def Nonneg (pays : Payroll) : Prop := ∀ p ∈ pays, 0 ≤ p.2

theorem paid_cons (p : (ℕ × WorkerObject) × ℤ) (pays : Payroll) :
    paid (p :: pays) = p.2 + pays.paid := by simp [paid]

theorem refunded_cons (p : (ℕ × WorkerObject) × ℤ) (pays : Payroll) :
    refunded (p :: pays) = (if p.1.2.IsRefund then p.2 else 0) + pays.refunded := by simp [refunded]

theorem Nonneg.le_paid {pays : Payroll} (h : pays.Nonneg) {p : (ℕ × WorkerObject) × ℤ} (hp : p ∈ pays) :
    p.2 ≤ pays.paid := by
  refine List.single_le_sum (fun x hx ↦ ?_) _ (List.mem_map_of_mem hp)
  obtain ⟨q, hq, rfl⟩ := List.mem_map.mp hx
  exact h q hq

/-- What is burned is part of what is paid. -/
theorem Nonneg.refunded_bounds {pays : Payroll} (h : pays.Nonneg) :
    0 ≤ pays.refunded ∧ pays.refunded ≤ pays.paid := by
  induction pays with
  | nil => exact ⟨le_rfl, le_rfl⟩
  | cons p pays ih =>
      have hpay : 0 ≤ p.2 := h p List.mem_cons_self
      obtain ⟨hlow, hhigh⟩ := ih fun q hq ↦ h q (List.mem_cons_of_mem p hq)
      rw [refunded_cons, paid_cons]
      split_ifs <;> omega

end Payroll

namespace MarketState

structure Budget where
  record : BudgetRecord
  witnessBudget : ℤ
  workerBudget : ℤ
  pays : Payroll

variable {s s' : MarketState}

/-- The pay of the workers as long as there is a budget. -/
def workerPays : List (ℕ × WorkerObject) → ℤ → MarketState → Checked Payroll
  | [], _, _ => .ok []
  | w :: rest, budget, s =>
      if 0 < budget then do
        let requested ← s.requestedPay w.2
        let pay := min budget requested
        let pays ← workerPays rest (budget - pay) s
        return (w, pay) :: pays
      else .ok []

def budget (s : MarketState) : Checked Budget := do
  let record ← s.initializeBudgetRecord
  let witnessBudget := min s.requestedWitnessBudget record.totalBudget
  let workerBudget ← s.workerBudget (record.totalBudget - witnessBudget)
  let pays ← workerPays s.activeWorkers workerBudget s
  return ⟨record, witnessBudget, workerBudget, pays⟩

/-- Pays each worker its part of a payroll. -/
def payEach : Payroll → MarketState → Checked MarketState
  | [], s => .ok s
  | p :: pays, s => do
      let s ← s.payWorker p.1.1 p.1.2 p.2
      payEach pays s

def maxSupply (id : AssetId) (s : MarketState) : ℤ :=
  ((s.assets.find id).map (·.options.maxSupply)).getD 0

/-! ## Paying workers -/

/-- What the pay of workers leaves as it is, and the core it burns. -/
structure Burns (burned : ℤ) (s s' : MarketState) : Prop where
  headBlockTime : s'.headBlockTime = s.headBlockTime
  lastBudgetTime : s'.lastBudgetTime = s.lastBudgetTime
  currentSupply : s'.currentSupply coreAsset = s.currentSupply coreAsset - burned
  maxSupply : s'.maxSupply coreAsset = s.maxSupply coreAsset

theorem Burns.refl (s : MarketState) : Burns 0 s s := ⟨rfl, rfl, (sub_zero _).symm, rfl⟩

theorem Burns.trans {s'' : MarketState} {burned burned' : ℤ} (h : Burns burned s s')
    (h' : Burns burned' s' s'') : Burns (burned + burned') s s'' where
  headBlockTime := h'.headBlockTime.trans h.headBlockTime
  lastBudgetTime := h'.lastBudgetTime.trans h.lastBudgetTime
  currentSupply := by rw [h'.currentSupply, h.currentSupply, sub_sub]
  maxSupply := h'.maxSupply.trans h.maxSupply

theorem burns_of_payWorker {id : ℕ} {worker : WorkerObject} {pay : ℤ}
    (h : s.payWorker id worker pay = .ok s') :
    Burns (if worker.IsRefund then pay else 0) s s' := by
  unfold payWorker at h
  unfold WorkerObject.IsRefund
  split at h
  · next totalBurned hworker =>
      simp only [Checked.bind_eq_ok, Checked.pure_eq_ok] at h
      obtain ⟨_, -, t, hburn, rfl⟩ := h
      obtain ⟨a, d, ha, hd, rfl⟩ := modifyDynamicData_cases hburn
      simp only [AssetDynamicData.subSupply, Checked.bind_eq_ok, Checked.pure_eq_ok,
        checkedShare_eq_ok] at hd
      obtain ⟨_, ⟨-, rfl⟩, rfl⟩ := hd
      simp only [hworker, if_true]
      refine ⟨rfl, rfl, ?_, ?_⟩
      · exact (currentSupply_setAsset ha).trans
          ((if_pos rfl).trans (by rw [currentSupply_of_find ha]))
      · simp only [MarketState.maxSupply, find_set ha, if_true, ha, Option.map_some]
  · next hworker =>
      simp only [Checked.bind_eq_ok, get_eq_ok, depositVesting, Checked.pure_eq_ok] at h
      obtain ⟨vbo, -, _, -, rfl⟩ := h
      simp only [hworker, if_false]
      exact ⟨rfl, rfl, (sub_zero _).symm, rfl⟩
  · next hworker =>
      simp only [Checked.bind_eq_ok, Checked.pure_eq_ok, adjustBalance] at h
      obtain ⟨_, -, _, ⟨_, -, rfl⟩, rfl⟩ := h
      simp only [hworker, if_false]
      exact ⟨rfl, rfl, (sub_zero _).symm, rfl⟩

theorem burns_of_payEach {pays : Payroll} (h : payEach pays s = .ok s') :
    Burns pays.refunded s s' := by
  induction pays generalizing s with
  | nil =>
      obtain rfl := Except.ok.inj h
      exact .refl s
  | cons p pays ih =>
      simp only [payEach, Checked.bind_eq_ok] at h
      obtain ⟨t, ht, h⟩ := h
      rw [Payroll.refunded_cons]
      exact (burns_of_payWorker ht).trans (ih h)

theorem requestedPay_of_burns {burned : ℤ} (h : Burns burned s s') (worker : WorkerObject) :
    s'.requestedPay worker = s.requestedPay worker := by
  simp only [requestedPay, h.headBlockTime, h.lastBudgetTime]

theorem workerPays_of_burns {burned : ℤ} (h : Burns burned s s') (workers : List (ℕ × WorkerObject))
    (budget : ℤ) : workerPays workers budget s' = workerPays workers budget s := by
  induction workers generalizing budget with
  | nil => rfl
  | cons w workers ih => simp only [workerPays, requestedPay_of_burns h, ih]

/-- The workers are paid as planned. -/
theorem payActiveWorkers_spec {workers : List (ℕ × WorkerObject)} {budget left : ℤ}
    (h : payActiveWorkers workers budget s = .ok (left, s')) :
    ∃ pays, workerPays workers budget s = .ok pays ∧ payEach pays s = .ok s' ∧
      left = budget - pays.paid := by
  induction workers generalizing budget s with
  | nil =>
      obtain ⟨rfl, rfl⟩ := Prod.mk.inj (Except.ok.inj h)
      exact ⟨[], rfl, rfl, (sub_zero _).symm⟩
  | cons w workers ih =>
      simp only [payActiveWorkers] at h
      split_ifs at h with hbudget
      · simp only [Checked.bind_eq_ok, checkedShare_eq_ok] at h
        obtain ⟨requested, hrequested, t, hpay, _, ⟨-, rfl⟩, h⟩ := h
        obtain ⟨pays, hpays, heach, rfl⟩ := ih h
        rw [workerPays_of_burns (burns_of_payWorker hpay)] at hpays
        refine ⟨(w, min budget requested) :: pays, ?_, ?_, ?_⟩
        · rw [workerPays, if_pos hbudget, Checked.bind_eq_ok]
          exact ⟨requested, hrequested, Checked.bind_eq_ok.mpr ⟨pays, hpays, rfl⟩⟩
        · exact Checked.bind_eq_ok.mpr ⟨t, hpay, heach⟩
        · rw [Payroll.paid_cons, sub_sub]
      · obtain ⟨rfl, rfl⟩ := Prod.mk.inj (Except.ok.inj h)
        refine ⟨[], ?_, rfl, (sub_zero _).symm⟩
        simp only [workerPays, hbudget, if_false]

/-! ## What may be spent -/

theorem toUint64_of_lt {x : ℤ} (hnonneg : 0 ≤ x) (hlt : x < 2 ^ 63) : toUint64 x = .ok x := by
  have hsame : x.bmod (2 ^ 64) = x := by
    rw [Int.bmod_def]
    omega
  rw [toUint64, Checked.bind_eq_ok, hsame]
  exact ⟨(), require_eq_ok.mpr (by omega), rfl⟩

theorem mul128_div_nonneg (x y : ℤ) : 0 ≤ mul128 x y / secondsPerDay :=
  Int.ediv_nonneg (Int.emod_nonneg _ (by decide)) (by decide)

/-- What may be spent of a reserve is part of it. -/
theorem spendable_bounds {reserve total : ℤ} {dt : ℕ} (hreserve : 0 ≤ reserve)
    (hlt : reserve < 2 ^ 63) (h : spendable reserve dt = .ok total) :
    0 ≤ total ∧ total ≤ reserve := by
  unfold spendable at h
  set budget := (reserve * dt * coreAssetCycleRate + (2 ^ 32 - 1)) % 2 ^ 128 / 2 ^ 32
  have hbudget : 0 ≤ budget := Int.ediv_nonneg (Int.emod_nonneg _ (by decide)) (by decide)
  have hmod : reserve % 2 ^ 128 = reserve := Int.emod_eq_of_lt hreserve (by omega)
  simp only [hmod] at h
  split_ifs at h with hless
  · rw [toUint64_of_lt hbudget (by omega)] at h
    obtain rfl := Except.ok.inj h
    exact ⟨hbudget, hless.le⟩
  · obtain rfl := Except.ok.inj h
    exact ⟨hreserve, le_rfl⟩

/-- The reserve with the fees and the witness budget that return to it. -/
def reserve (s : MarketState) : ℤ :=
  s.maxSupply coreAsset - s.currentSupply coreAsset + s.accumulatedFees coreAsset + s.witnessBudget

/-- Of a reserve that is gone nothing may be spent. -/
theorem spendable_nonneg {reserve total : ℤ} {dt : ℕ} (hreserve : InShareRange reserve)
    (hdt : dt < 2 ^ 32) (h : spendable reserve dt = .ok total) : 0 ≤ total := by
  rcases le_or_gt 0 reserve with hnonneg | hneg
  · exact (spendable_bounds hnonneg hreserve.2 h).1
  · unfold spendable at h
    set asked := reserve * dt * coreAssetCycleRate + (2 ^ 32 - 1) with hasked
    have hlow : -(2 ^ 63) ≤ reserve := hreserve.1
    have hdt' : (dt : ℤ) ≤ 2 ^ 32 := by exact_mod_cast hdt.le
    have hproduct : -(2 ^ 63) * 2 ^ 32 ≤ reserve * dt := by nlinarith
    have hproduct' : reserve * dt ≤ 0 := mul_nonpos_of_nonpos_of_nonneg hneg.le (Int.natCast_nonneg dt)
    have hrate : (coreAssetCycleRate : ℤ) = 17 := rfl
    rw [hrate] at hasked
    have hmod : reserve % 2 ^ 128 = reserve + 2 ^ 128 := by omega
    simp only [hmod] at h
    have hless : asked % 2 ^ 128 / 2 ^ 32 < reserve + 2 ^ 128 := by omega
    rw [if_pos hless, toUint64, Checked.bind_eq_ok] at h
    obtain ⟨_, hsmall, htotal⟩ := h
    have hfits := require_eq_ok.mp hsmall
    have hzero : asked % 2 ^ 128 / 2 ^ 32 = 0 := by
      rcases le_or_gt 0 asked with hasked' | hwraps
      · rw [Int.emod_eq_of_lt hasked' (by omega)]
        omega
      · -- What wraps around is too large for 64 bits.
        have hwrapped : asked % 2 ^ 128 = asked + 2 ^ 128 := by omega
        rw [hwrapped] at hfits
        omega
    rw [hzero] at htotal
    obtain rfl := Checked.pure_eq_ok.mp htotal
    decide

theorem reserve_eq {core : AssetObject} (hcore : s.assets.find coreAsset = some core) :
    s.reserve = core.options.maxSupply - core.dynamicData.currentSupply +
      core.dynamicData.accumulatedFees + s.witnessBudget := by
  rw [reserve, currentSupply_of_find hcore, accumulatedFees_of_find hcore, MarketState.maxSupply, hcore]
  rfl

theorem initializeBudgetRecord_cases {record : BudgetRecord}
    (h : s.initializeBudgetRecord = .ok record) :
    record.totalBudget = 0 ∧ (s.lastBudgetTime = 0 ∨ s.headBlockTime ≤ s.lastBudgetTime) ∨
      InShareRange s.reserve ∧ s.lastBudgetTime ≠ 0 ∧
        spendable s.reserve (s.headBlockTime - s.lastBudgetTime) = .ok record.totalBudget := by
  simp only [initializeBudgetRecord, Checked.bind_eq_ok, get_eq_ok, checkedShare_eq_ok] at h
  obtain ⟨core, hcore, _, ⟨-, rfl⟩, h⟩ := h
  split_ifs at h with hfirst
  · obtain rfl := Checked.pure_eq_ok.mp h
    exact .inl ⟨rfl, hfirst⟩
  · simp only [Checked.bind_eq_ok, Checked.pure_eq_ok, checkedShare_eq_ok] at h
    obtain ⟨_, ⟨-, rfl⟩, _, ⟨hrange, rfl⟩, total, htotal, rfl⟩ := h
    rw [← reserve_eq hcore] at hrange htotal
    exact .inr ⟨hrange, fun hzero ↦ hfirst (.inl hzero), htotal⟩

theorem totalBudget_nonneg {record : BudgetRecord} (htime : s.headBlockTime < 2 ^ 32)
    (h : s.initializeBudgetRecord = .ok record) : 0 ≤ record.totalBudget := by
  rcases initializeBudgetRecord_cases h with ⟨hzero, -⟩ | ⟨hrange, -, htotal⟩
  · exact hzero.ge
  · exact spendable_nonneg hrange (by omega) htotal

theorem totalBudget_le_reserve {record : BudgetRecord} (hreserve : 0 ≤ s.reserve)
    (h : s.initializeBudgetRecord = .ok record) : record.totalBudget ≤ s.reserve := by
  rcases initializeBudgetRecord_cases h with ⟨hzero, -⟩ | ⟨hrange, -, htotal⟩
  · exact hzero.trans_le hreserve
  · exact (spendable_bounds hreserve hrange.2 htotal).2

theorem workerBudget_bounds {available budget : ℤ} (havailable : 0 ≤ available)
    (hlt : available < 2 ^ 63) (h : s.workerBudget available = .ok budget) :
    0 ≤ budget ∧ budget ≤ available := by
  simp only [workerBudget] at h
  set asked := mul128 s.parameters.workerBudgetPerDay
    (((s.nextMaintenanceTime : ℤ) - s.headBlockTime) % 2 ^ 64) / secondsPerDay
  have hasked : 0 ≤ asked := mul128_div_nonneg _ _
  have hmod : available % 2 ^ 128 = available := Int.emod_eq_of_lt havailable (by omega)
  rw [hmod] at h
  split_ifs at h with hless
  · obtain rfl := Except.ok.inj h
    exact ⟨havailable, le_rfl⟩
  · rw [toUint64_of_lt hasked (by omega)] at h
    obtain rfl := Except.ok.inj h
    omega

/-! ## What is asked for -/

/-- The blocks until the next maintenance. -/
def blocksToMaint (s : MarketState) : ℤ :=
  (((s.nextMaintenanceTime : ℤ) - s.headBlockTime) % 2 ^ 64 + s.parameters.blockInterval - 1) /
    s.parameters.blockInterval

/-- What the witnesses and the workers ask for is in the range of a share. -/
structure RequestsFit (s : MarketState) : Prop where
  witnesses : s.parameters.witnessPayPerBlock * s.blocksToMaint < 2 ^ 63
  workers : s.lastBudgetTime ≠ 0 → ∀ w ∈ s.activeWorkers,
    mul128 w.2.dailyPay (s.headBlockTime - s.lastBudgetTime : ℕ) / secondsPerDay < 2 ^ 63

theorem blocksToMaint_nonneg (s : MarketState) : 0 ≤ s.blocksToMaint := by
  have hseconds : 0 ≤ ((s.nextMaintenanceTime : ℤ) - s.headBlockTime) % 2 ^ 64 :=
    Int.emod_nonneg _ (by decide)
  unfold blocksToMaint
  rcases Nat.eq_zero_or_pos s.parameters.blockInterval with hzero | hpos
  · rw [hzero, Nat.cast_zero, Int.ediv_zero]
  · exact Int.ediv_nonneg (by omega) (by omega)

theorem requestedWitnessBudget_nonneg (hpay : 0 ≤ s.parameters.witnessPayPerBlock)
    (hfit : s.RequestsFit) : 0 ≤ s.requestedWitnessBudget := by
  have hrequested : 0 ≤ s.parameters.witnessPayPerBlock * s.blocksToMaint :=
    mul_nonneg hpay s.blocksToMaint_nonneg
  have hlt := hfit.witnesses
  change 0 ≤ (s.parameters.witnessPayPerBlock * s.blocksToMaint).bmod (2 ^ 64)
  rw [Int.bmod_def]
  omega

theorem requestedPay_nonneg {worker : WorkerObject} {requested : ℤ} (hpay : 0 ≤ worker.dailyPay)
    (hfit : mul128 worker.dailyPay (s.headBlockTime - s.lastBudgetTime : ℕ) / secondsPerDay < 2 ^ 63)
    (h : s.requestedPay worker = .ok requested) : 0 ≤ requested := by
  unfold requestedPay at h
  split_ifs at h
  · obtain rfl := Except.ok.inj h
    exact hpay
  · rw [toUint64_of_lt (mul128_div_nonneg _ _) hfit] at h
    obtain rfl := Except.ok.inj h
    exact mul128_div_nonneg _ _

/-- The workers get parts of their budget, in the order of their votes. -/
theorem workerPays_bounds {workers : List (ℕ × WorkerObject)} {budget : ℤ} {pays : Payroll}
    (hrequested : 0 < budget → ∀ w ∈ workers, ∀ requested, s.requestedPay w.2 = .ok requested →
      0 ≤ requested) (hbudget : 0 ≤ budget) (h : workerPays workers budget s = .ok pays) :
    pays.Nonneg ∧ pays.paid ≤ budget ∧ pays.map Prod.fst <+: workers := by
  induction workers generalizing budget pays with
  | nil =>
      obtain rfl := Except.ok.inj h
      exact ⟨fun _ hp ↦ absurd hp List.not_mem_nil, hbudget, List.prefix_rfl⟩
  | cons w workers ih =>
      rw [workerPays] at h
      split_ifs at h with hpos
      · simp only [Checked.bind_eq_ok, Checked.pure_eq_ok] at h
        obtain ⟨requested, hw, rest, hrest, rfl⟩ := h
        have hpay : 0 ≤ min budget requested :=
          le_min hbudget (hrequested hpos w List.mem_cons_self requested hw)
        obtain ⟨hnonneg, hpaid, horder⟩ := ih
          (fun _ v hv ↦ hrequested hpos v (List.mem_cons_of_mem w hv))
          (sub_nonneg.mpr (min_le_left budget requested)) hrest
        refine ⟨?_, ?_, List.cons_prefix_cons.mpr ⟨rfl, horder⟩⟩
        · rintro p hp
          rcases List.mem_cons.mp hp with rfl | hp
          · exact hpay
          · exact hnonneg p hp
        · rw [Payroll.paid_cons]
          omega
      · obtain rfl := Except.ok.inj h
        exact ⟨fun _ hp ↦ absurd hp List.not_mem_nil, hbudget, List.nil_prefix⟩

/-! ## Paying a budget -/

/-- The parts of a budget are within each other. -/
structure Budget.Bounds (b : Budget) (s : MarketState) : Prop where
  witnessBudget : 0 ≤ b.witnessBudget ∧ b.witnessBudget ≤ b.record.totalBudget
  workerBudget : 0 ≤ b.workerBudget ∧ b.workerBudget ≤ b.record.totalBudget - b.witnessBudget
  pays : ∀ p ∈ b.pays, 0 ≤ p.2 ∧ p.2 ≤ b.workerBudget
  paid : b.pays.paid ≤ b.workerBudget
  order : b.pays.map Prod.fst <+: s.activeWorkers

/-- The workers got their pay, and the supply changed by what the budget adds to it. -/
structure Budget.PaidOut (b : Budget) (s s' : MarketState) : Prop where
  each : ∃ t, payEach b.pays s = .ok t ∧ s'.balances = t.balances ∧
    s'.vestingBalances = t.vestingBalances ∧ s'.workers = t.workers
  witnessBudget : s'.witnessBudget = b.witnessBudget
  accumulatedFees : s'.accumulatedFees coreAsset = 0
  maxSupply : s'.maxSupply coreAsset = s.maxSupply coreAsset
  supply : s'.currentSupply coreAsset - s.currentSupply coreAsset =
    b.witnessBudget + (b.pays.paid - b.pays.refunded) - s.accumulatedFees coreAsset - s.witnessBudget

/-- `process_budget` pays the workers of the planned budget and then sets the supply. -/
theorem processBudget_cases (h : s.processBudget = .ok s') :
    ∃ b t u, s.budget = .ok b ∧ InShareRange (b.record.totalBudget - b.witnessBudget) ∧
      payEach b.pays s = .ok t ∧
      t.modifyDynamicData coreAsset (fun d ↦ do
        let d ← d.addSupply (b.witnessBudget + b.pays.paid - s.accumulatedFees coreAsset -
          s.witnessBudget)
        return { d with accumulatedFees := 0 }) = .ok u ∧
      s' = { u with witnessBudget := b.witnessBudget, lastBudgetTime := u.headBlockTime } := by
  simp only [processBudget, payWorkers, Checked.bind_eq_ok, Checked.pure_eq_ok, Prod.exists] at h
  obtain ⟨record, hrecord, _, htake, workerBudget, hworker, left, t, hpay, delta, hdelta, u, hsupply,
    rfl⟩ := h
  obtain ⟨hrange, rfl⟩ := checkedShare_eq_ok.mp htake
  obtain ⟨-, rfl⟩ := checkedShare_eq_ok.mp hdelta
  obtain ⟨hfees, hunused⟩ := initializeBudgetRecord_spec hrecord
  obtain ⟨pays, hpays, heach, rfl⟩ := payActiveWorkers_spec hpay
  set witnessBudget := min s.requestedWitnessBudget record.totalBudget
  refine ⟨⟨record, witnessBudget, workerBudget, pays⟩, t, u, ?_, hrange, heach, ?_, ?_⟩
  · simp only [budget, Checked.bind_eq_ok, Checked.pure_eq_ok]
    exact ⟨record, hrecord, workerBudget, hworker, pays, hpays, rfl⟩
  · have hsame : witnessBudget + pays.paid - s.accumulatedFees coreAsset - s.witnessBudget =
        witnessBudget + workerBudget - (workerBudget - pays.paid) - record.fromAccumulatedFees -
          record.fromUnusedWitnessBudget := by
      rw [hfees, hunused]
      ring
    dsimp only
    rw [hsame]
    exact hsupply
  · obtain ⟨_, _, -, -, rfl⟩ := modifyDynamicData_cases hsupply
    rfl

theorem processBudget_spec (h : s.processBudget = .ok s') :
    ∃ b, s.budget = .ok b ∧ InShareRange (b.record.totalBudget - b.witnessBudget) ∧
      b.PaidOut s s' := by
  obtain ⟨b, t, u, hbudget, hrange, heach, hsupply, rfl⟩ := processBudget_cases h
  have hburns := burns_of_payEach heach
  obtain ⟨core, d, hcore, hd, rfl⟩ := modifyDynamicData_cases hsupply
  simp only [AssetDynamicData.addSupply, Checked.bind_eq_ok, Checked.pure_eq_ok,
    checkedShare_eq_ok] at hd
  obtain ⟨_, ⟨_, ⟨-, rfl⟩, rfl⟩, rfl⟩ := hd
  refine ⟨b, hbudget, hrange, ⟨t, heach, rfl, rfl, rfl⟩, rfl, ?_, ?_, ?_⟩
  · exact (accumulatedFees_setAsset hcore).trans (if_pos rfl)
  · rw [← hburns.maxSupply]
    simp only [MarketState.maxSupply, find_set hcore, if_true, hcore, Option.map_some]
  · have hpaid := hburns.currentSupply
    rw [currentSupply_of_find hcore] at hpaid
    refine (congrArg (· - _) ((currentSupply_setAsset hcore).trans (if_pos rfl))).trans ?_
    dsimp only
    rw [hpaid]
    ring

/-- Requests that fit ask for no negative parts. -/
theorem Budget.bounds_of_budget {b : Budget} (hfunds : s.funds.Nonneg) (hfit : s.RequestsFit)
    (hrange : InShareRange (b.record.totalBudget - b.witnessBudget)) (h : s.budget = .ok b) :
    b.Bounds s := by
  simp only [budget, Checked.bind_eq_ok, Checked.pure_eq_ok] at h
  obtain ⟨record, hrecord, workerBudget, hworker, pays, hpays, rfl⟩ := h
  have htotal := totalBudget_nonneg hfunds.headBlockTime hrecord
  have hwitness : 0 ≤ min s.requestedWitnessBudget record.totalBudget :=
    le_min (requestedWitnessBudget_nonneg hfunds.witnessPay hfit) htotal
  have hworkerBudget : 0 ≤ workerBudget ∧ workerBudget ≤
      record.totalBudget - min s.requestedWitnessBudget record.totalBudget :=
    workerBudget_bounds (sub_nonneg.mpr (min_le_right _ _)) hrange.2 hworker
  have hrequested : 0 < workerBudget → ∀ w ∈ s.activeWorkers, ∀ requested,
      s.requestedPay w.2 = .ok requested → 0 ≤ requested := by
    intro hpos w hw requested
    rcases initializeBudgetRecord_cases hrecord with ⟨hzero, -⟩ | ⟨-, hlast, -⟩
    · omega
    · exact requestedPay_nonneg (hfunds.workers w.1 w.2 (mem_select.mp hw).1) (hfit.workers hlast w hw)
  obtain ⟨hpay, hpaid, horder⟩ := workerPays_bounds hrequested hworkerBudget.1 hpays
  exact {
    witnessBudget := ⟨hwitness, min_le_right _ _⟩
    workerBudget := hworkerBudget
    pays := fun p hp ↦ ⟨hpay p hp, (hpay.le_paid hp).trans hpaid⟩
    paid := hpaid
    order := horder }

theorem Budget.le_reserve {b : Budget} (hreserve : 0 ≤ s.reserve) (h : s.budget = .ok b) :
    b.record.totalBudget ≤ s.reserve := by
  simp only [budget, Checked.bind_eq_ok, Checked.pure_eq_ok] at h
  obtain ⟨record, hrecord, _, -, _, -, rfl⟩ := h
  exact totalBudget_le_reserve hreserve hrecord

/-- The supply stays between nothing and the maximum. -/
theorem Budget.supply_bounds {b : Budget} (hb : b.Bounds s) (hpaid : b.PaidOut s s')
    (hfees : s.accumulatedFees coreAsset + s.witnessBudget ≤ s.currentSupply coreAsset)
    (hreserve : b.record.totalBudget ≤ s.reserve) :
    0 ≤ s'.currentSupply coreAsset ∧ s'.currentSupply coreAsset ≤ s'.maxSupply coreAsset := by
  obtain ⟨hrefunded, hle⟩ := Payroll.Nonneg.refunded_bounds fun p hp ↦ (hb.pays p hp).1
  have hsupply := hpaid.supply
  have hmax := hpaid.maxSupply
  have hwitness := hb.witnessBudget
  have hworker := hb.workerBudget
  have hpart := hb.paid
  unfold reserve at hreserve
  constructor <;> omega

end MarketState

end KarmaCore.Market
