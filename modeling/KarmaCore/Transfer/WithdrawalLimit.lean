import Mathlib
import KarmaCore.Transfer.WithdrawPermission

/-!
# The withdrawal limit

What a permission lets its holder claim in one period, over any run of claims
under the same terms.
-/

namespace KarmaCore.Transfer

namespace ClaimHistory

variable {h : ClaimHistory} {claim : PermitClaim} {period k : ℕ}

/-- The number of whole periods from the first start to a time. -/
def periodOf (period : ℕ) (h : ClaimHistory) (time : ℕ) : ℕ := (time - h.firstStart) / period

def claimedIn (period k : ℕ) (h : ClaimHistory) : ℤ :=
  ((h.claims.filter (h.periodOf period ·.time = k)).map (·.amount)).sum

@[simp] theorem periodOf_record (time : ℕ) :
    (h.record claim).periodOf period time = h.periodOf period time := rfl

theorem claimedIn_record : (h.record claim).claimedIn period k =
    (if h.periodOf period claim.time = k then claim.amount else 0) + h.claimedIn period k := by
  unfold claimedIn record periodOf
  rw [List.filter_cons]
  split_ifs with hcond hcond' hcond' <;> simp_all

/-- A period that no claim has reached yet. -/
theorem claimedIn_eq_zero (hbefore : ∀ c ∈ h.claims, h.periodOf period c.time < k) :
    h.claimedIn period k = 0 := by
  have hnone : h.claims.filter (h.periodOf period ·.time = k) = [] := by
    rw [List.filter_eq_nil_iff]
    intro c hc
    simpa using (hbefore c hc).ne
  rw [claimedIn, hnone]
  rfl

/-- The period of a time, counted from a start that is `k` periods later. -/
theorem periodOf_of_start {start time : ℕ} (hperiod : 0 < period)
    (hstart : start = h.firstStart + k * period) (htime : start ≤ time) :
    h.periodOf period time = k + (time - start) / period := by
  have hsplit : time - h.firstStart = (time - start) + k * period := by omega
  rw [periodOf, hsplit, Nat.add_mul_div_right _ _ hperiod, add_comm]

end ClaimHistory

/-! ## One permission -/

/-- The promise a permission makes: no period's claims exceed the limit, every claim lies between
the start of the period it was made in and the expiration, and the start moves forward by whole
periods. -/
structure WithdrawMeets (permit : WithdrawPermissionObject) (h : ClaimHistory) : Prop where
  limited : ∀ k, h.claimedIn permit.withdrawalPeriodSec k ≤ permit.withdrawalLimit.amount
  in_time : ∀ c ∈ h.claims, h.firstStart ≤ c.periodStart ∧ c.periodStart ≤ c.time ∧
    c.time < permit.expiration
  forward : (permit.periodStartTime :: (h.claims.map (·.periodStart) ++ [h.firstStart])).IsChain
    fun later earlier ↦ ∃ n, later = earlier + n * permit.withdrawalPeriodSec

/-- The start is that of the `k`th period, the last one with a claim in it, and
`claimed_this_period` is at least what was claimed there. -/
structure HistorySound (permit : WithdrawPermissionObject) (h : ClaimHistory) (k : ℕ) : Prop where
  meets : WithdrawMeets permit h
  period_pos : 0 < permit.withdrawalPeriodSec
  limit_nonneg : 0 ≤ permit.withdrawalLimit.amount
  claimed_nonneg : 0 ≤ permit.claimedThisPeriod
  start : permit.periodStartTime = h.firstStart + k * permit.withdrawalPeriodSec
  last : ∀ c ∈ h.claims, h.periodOf permit.withdrawalPeriodSec c.time ≤ k
  claimed : h.claimedIn permit.withdrawalPeriodSec k ≤ permit.claimedThisPeriod

namespace WithdrawPermissionObject

variable {permit permit' : WithdrawPermissionObject} {now : ℕ} {amount : ℤ}

/-- The whole periods a claim moves the start on by. -/
def passed (permit : WithdrawPermissionObject) (now : ℕ) : ℕ :=
  (now - permit.periodStartTime) / permit.withdrawalPeriodSec

theorem claim_eq_ok (hstart : permit.periodStartTime ≤ now) (hnow : now < 2 ^ 32)
    (h : permit.claim now amount = .ok permit') :
    permit' = { permit with
      periodStartTime := permit.periodStartTime + permit.passed now * permit.withdrawalPeriodSec
      claimedThisPeriod :=
        if permit.passed now = 0 then permit.claimedThisPeriod + amount else amount } := by
  have hperiods : ((now : ℤ) - permit.periodStartTime).tdiv permit.withdrawalPeriodSec =
      (permit.passed now : ℕ) := by
    rw [← Nat.cast_sub hstart, passed]
    exact (Int.ofNat_tdiv _ _).symm
  have hmoved : permit.passed now * permit.withdrawalPeriodSec ≤ now - permit.periodStartTime :=
    Nat.div_mul_le_self _ _
  have hadd : addSeconds permit.periodStartTime
      ((permit.passed now : ℕ) * permit.withdrawalPeriodSec : ℤ) =
      permit.periodStartTime + permit.passed now * permit.withdrawalPeriodSec := by
    rw [← Nat.cast_mul]
    exact addSeconds_of_lt (by omega)
  simp only [claim, hperiods, hadd, Nat.cast_eq_zero] at h
  by_cases hsame : permit.passed now = 0
  · simp only [if_pos hsame, Checked.bind_eq_ok, checkedShare_eq_ok, Checked.pure_eq_ok] at h ⊢
    obtain ⟨claimed, ⟨-, rfl⟩, rfl⟩ := h
    rfl
  · simp only [if_neg hsame, Checked.bind_eq_ok, Except.ok.injEq, Checked.pure_eq_ok] at h ⊢
    obtain ⟨claimed, rfl, rfl⟩ := h
    rfl

theorem availableThisPeriod_amount (hperiod : 0 < permit.withdrawalPeriodSec)
    (hstart : permit.periodStartTime ≤ now)
    (hfits : permit.periodStartTime + permit.withdrawalPeriodSec < 2 ^ 32) :
    (permit.availableThisPeriod now).amount =
      if permit.passed now = 0 then
        max (permit.withdrawalLimit.amount - permit.claimedThisPeriod) 0
      else permit.withdrawalLimit.amount := by
  have hpassed : permit.passed now = 0 ↔
      now < permit.periodStartTime + permit.withdrawalPeriodSec := by
    rw [passed, Nat.div_eq_zero_iff_lt hperiod]
    omega
  unfold availableThisPeriod
  rw [addSeconds_of_lt hfits]
  by_cases hsame : permit.passed now = 0
  · rw [if_pos hsame, if_neg (by omega)]
    simp only [max_def]
    split_ifs <;> omega
  · rw [if_neg hsame, if_pos (by omega)]

end WithdrawPermissionObject

namespace HistorySound

variable {permit permit' : WithdrawPermissionObject} {h : ClaimHistory} {k now : ℕ} {amount : ℤ}

theorem opened (hperiod : 0 < permit.withdrawalPeriodSec) (hlimit : 0 ≤ permit.withdrawalLimit.amount)
    (hclaimed : 0 ≤ permit.claimedThisPeriod) :
    HistorySound permit (.opened permit.periodStartTime) 0 where
  meets :=
    { limited := fun _ ↦ hlimit
      in_time := by simp [ClaimHistory.opened]
      forward := .cons_cons ⟨0, by simp [ClaimHistory.opened]⟩ (.singleton _) }
  period_pos := hperiod
  limit_nonneg := hlimit
  claimed_nonneg := hclaimed
  start := by simp [ClaimHistory.opened]
  last := by simp [ClaimHistory.opened]
  claimed := hclaimed

/-- A claim within the limit goes into the period of the head block, which either is the current
one or has no claims yet. -/
theorem claim (hs : HistorySound permit h k) (hstart : permit.periodStartTime ≤ now)
    (hnow : now < 2 ^ 32)
    (hfits : permit.periodStartTime + permit.withdrawalPeriodSec < 2 ^ 32)
    (hexpiration : now < permit.expiration) (hamount : 0 < amount)
    (havailable : amount ≤ (permit.availableThisPeriod now).amount)
    (hclaim : permit.claim now amount = .ok permit') :
    HistorySound permit' (h.record ⟨now, amount, permit.periodStartTime⟩)
      (k + permit.passed now) := by
  obtain rfl := WithdrawPermissionObject.claim_eq_ok hstart hnow hclaim
  rw [WithdrawPermissionObject.availableThisPeriod_amount hs.period_pos hstart hfits] at havailable
  have hperiod := ClaimHistory.periodOf_of_start hs.period_pos hs.start hstart
  change h.periodOf permit.withdrawalPeriodSec now = k + permit.passed now at hperiod
  have hcurrent : permit.passed now ≠ 0 →
      h.claimedIn permit.withdrawalPeriodSec (k + permit.passed now) = 0 := fun hpassed ↦
    ClaimHistory.claimedIn_eq_zero fun c hc ↦ by
      have := hs.last c hc
      omega
  have hclaimed : amount + h.claimedIn permit.withdrawalPeriodSec (k + permit.passed now) ≤
      if permit.passed now = 0 then permit.claimedThisPeriod + amount else amount := by
    split_ifs with hsame
    · rw [hsame, add_zero]
      linarith [hs.claimed]
    · rw [hcurrent hsame, add_zero]
  have hlimit : (if permit.passed now = 0 then permit.claimedThisPeriod + amount else amount) ≤
      permit.withdrawalLimit.amount := by
    split_ifs at havailable ⊢ <;> omega
  refine ⟨⟨fun j ↦ ?_, ?_, ?_⟩, hs.period_pos, hs.limit_nonneg, ?_, ?_, ?_, ?_⟩
  · rw [ClaimHistory.claimedIn_record, hperiod]
    by_cases hj : k + permit.passed now = j
    · rw [if_pos hj, ← hj]
      exact hclaimed.trans hlimit
    · rw [if_neg hj, zero_add]
      exact hs.meets.limited j
  · intro c hc
    rcases List.mem_cons.mp hc with rfl | hc
    · have := hs.start
      exact ⟨by simp only [ClaimHistory.record]; omega, hstart, hexpiration⟩
    · exact hs.meets.in_time c hc
  · exact .cons_cons ⟨permit.passed now, rfl⟩ hs.meets.forward
  · have := hs.claimed_nonneg
    simp only
    split_ifs <;> omega
  · simp only [hs.start, ClaimHistory.record]
    ring
  · intro c hc
    rcases List.mem_cons.mp hc with rfl | hc
    · exact hperiod.le
    · exact (hs.last c hc).trans (Nat.le_add_right _ _)
  · rw [ClaimHistory.claimedIn_record, hperiod, if_pos rfl]
    exact hclaimed

end HistorySound

/-! ## Runs -/

namespace PermitState

variable {s s' : PermitState} {event : PermitEvent} {id : WithdrawPermissionId}
  {permit : WithdrawPermissionObject}

/-- Everything an event can make of a permission and of its history. -/
inductive Became (s : PermitState) (event : PermitEvent) (id : WithdrawPermissionId) :
    WithdrawPermissionObject → ClaimHistory → Prop
  | kept (permit : WithdrawPermissionObject) (hid : s.db.permits id = some permit) :
      Became s event id permit (s.history id)
  | created (op : WithdrawPermissionCreateOperation) (hperiod : 0 < op.withdrawalPeriodSec)
      (hlimit : 0 < op.withdrawalLimit.amount) :
      Became s event id op.permit (.opened op.periodStartTime)
  | updated (op : WithdrawPermissionUpdateOperation) (permit : WithdrawPermissionObject)
      (hid : s.db.permits id = some permit) (hperiod : 0 < op.withdrawalPeriodSec)
      (hlimit : 0 < op.withdrawalLimit.amount) :
      Became s event id (op.update permit) (.opened op.periodStartTime)
  | claimed (op : WithdrawPermissionClaimOperation) (permit permit' : WithdrawPermissionObject)
      (hevent : event = .claim op) (hop : op.withdrawPermission = id)
      (hid : s.db.permits id = some permit) (hamount : 0 < op.amountToWithdraw.amount)
      (hexpiration : s.db.headBlockTime < permit.expiration)
      (havailable : op.amountToWithdraw.amount ≤
        (permit.availableThisPeriod s.db.headBlockTime).amount)
      (hstarted : hardfork23Time ≤ s.db.headBlockTime →
        permit.periodStartTime ≤ s.db.headBlockTime)
      (hclaim : permit.claim s.db.headBlockTime op.amountToWithdraw.amount = .ok permit') :
      Became s event id permit' ((s.history id).record
        ⟨s.db.headBlockTime, op.amountToWithdraw.amount, permit.periodStartTime⟩)

theorem became_of_eq (hpermits : s'.db.permits id = s.db.permits id)
    (hhistory : s'.history id = s.history id) (hid : s'.db.permits id = some permit) :
    Became s event id permit (s'.history id) := by
  rw [hhistory]
  exact .kept permit (hpermits ▸ hid)

theorem became_of_write {key : WithdrawPermissionId} {written : WithdrawPermissionObject}
    {h : ClaimHistory} (hwritten : Became s event key written h)
    (hid : (s.write key written h).db.permits id = some permit) :
    Became s event id permit ((s.write key written h).history id) := by
  by_cases hkey : id = key
  · subst hkey
    simp only [write, Function.update_self, Option.some.injEq] at hid ⊢
    subst hid
    exact hwritten
  · exact became_of_eq (Function.update_of_ne hkey _ _) (Function.update_of_ne hkey _ _) hid

theorem claim_eq_ok {op : WithdrawPermissionClaimOperation} (h : s.claim op = .ok s') :
    ∃ permit permit', s.db.permits op.withdrawPermission = some permit ∧
      0 < op.amountToWithdraw.amount ∧ s.db.headBlockTime < permit.expiration ∧
      op.amountToWithdraw.amount ≤ (permit.availableThisPeriod s.db.headBlockTime).amount ∧
      (hardfork23Time ≤ s.db.headBlockTime → permit.periodStartTime ≤ s.db.headBlockTime) ∧
      permit.claim s.db.headBlockTime op.amountToWithdraw.amount = .ok permit' ∧
      s'.db.headBlockTime = s.db.headBlockTime ∧
      s'.db.permits = Function.update s.db.permits op.withdrawPermission (some permit') ∧
      s'.history = Function.update s.history op.withdrawPermission
        ((s.history op.withdrawPermission).record
          ⟨s.db.headBlockTime, op.amountToWithdraw.amount, permit.periodStartTime⟩) := by
  simp only [claim, MoveOperation.apply, WithdrawPermissionClaimOperation.validate,
    WithdrawPermissionClaimOperation.doEvaluate, WithdrawPermissionClaimOperation.doApply,
    Checked.bind_eq_ok, Checked.pure_eq_ok, get_eq_ok, require_eq_ok] at h
  obtain ⟨db, ⟨_, ⟨_, -, hamount⟩, _, ⟨permit, hid, _, hexpiration, _, -, _, -, _,
    hstarted, _, -, _, havailable, -⟩, permit₁, hid₁, permit', hclaim, ledger, -, rfl⟩, permit₂, hid₂, rfl⟩ := h
  obtain rfl := Option.some.inj (hid.symm.trans hid₁)
  obtain rfl := Option.some.inj (hid.symm.trans hid₂)
  exact ⟨permit, permit', hid, hamount, hexpiration, havailable, hstarted, hclaim, rfl, rfl, rfl⟩

theorem became_of_applyEvent (h : s.applyEvent event = .ok s')
    (hid : s'.db.permits id = some permit) : Became s event id permit (s'.history id) := by
  cases event with
  | create op =>
      simp only [applyEvent, create, WithdrawPermissionCreateOperation.validate,
        Checked.bind_eq_ok, require_eq_ok, Checked.pure_eq_ok] at h
      obtain ⟨-, ⟨-, -, -, -, -, hlimit, -, hperiod, -⟩, -, -, rfl⟩ := h
      exact became_of_write (.created op hperiod hlimit) hid
  | update op =>
      simp only [applyEvent, update, WithdrawPermissionUpdateOperation.validate,
        WithdrawPermissionUpdateOperation.doApply, Checked.bind_eq_ok, require_eq_ok, get_eq_ok,
        Checked.pure_eq_ok] at h
      obtain ⟨-, ⟨-, hlimit, -, -, -, hperiod, -⟩, -, -, old, hold, rfl⟩ := h
      exact became_of_write (.updated op old hold hperiod hlimit) hid
  | claim op =>
      obtain ⟨old, permit', hold, hamount, hexpiration, havailable, hstarted, hclaim, -, hpermits,
        hhistory⟩ := claim_eq_ok h
      by_cases hkey : id = op.withdrawPermission
      · subst hkey
        rw [hpermits, Function.update_self, Option.some.injEq] at hid
        subst hid
        rw [hhistory, Function.update_self]
        exact .claimed op old permit' rfl rfl hold hamount hexpiration havailable hstarted hclaim
      · refine became_of_eq ?_ ?_ hid
        · rw [hpermits, Function.update_of_ne hkey]
        · rw [hhistory, Function.update_of_ne hkey]
  | delete op =>
      simp only [applyEvent, delete, Checked.bind_eq_ok, Checked.pure_eq_ok] at h
      obtain ⟨-, -, -, -, rfl⟩ := h
      by_cases hkey : id = op.withdrawalPermission
      · subst hkey
        simp [WithdrawPermissionDeleteOperation.doApply] at hid
      · exact became_of_eq (Function.update_of_ne hkey _ _) rfl hid
  | block headBlockTime =>
      simp only [applyEvent, block, Checked.bind_eq_ok, Checked.pure_eq_ok] at h
      obtain ⟨-, -, rfl⟩ := h
      exact .kept permit (Option.filter_eq_some_iff.mp hid).1
  | others accounts assets ledger blockInterval =>
      obtain rfl := Except.ok.inj h
      exact .kept permit hid

theorem headBlockTime_step (hnow : s.db.headBlockTime < 2 ^ 32) :
    (s.step event).db.headBlockTime < 2 ^ 32 := by
  unfold step
  split
  · next s' h =>
      cases event with
      | create op =>
          simp only [applyEvent, create, Checked.bind_eq_ok, Checked.pure_eq_ok] at h
          obtain ⟨-, -, -, -, rfl⟩ := h
          exact hnow
      | update op =>
          simp only [applyEvent, update, WithdrawPermissionUpdateOperation.doApply,
            Checked.bind_eq_ok, Checked.pure_eq_ok] at h
          obtain ⟨-, -, -, -, _, -, rfl⟩ := h
          exact hnow
      | claim op =>
          obtain ⟨_, _, -, -, -, -, -, -, htime, -⟩ := claim_eq_ok h
          rw [htime]
          exact hnow
      | delete op =>
          simp only [applyEvent, delete, Checked.bind_eq_ok, Checked.pure_eq_ok] at h
          obtain ⟨-, -, -, -, rfl⟩ := h
          exact hnow
      | block headBlockTime =>
          simp only [applyEvent, block, Checked.bind_eq_ok, Checked.pure_eq_ok] at h
          obtain ⟨-, -, rfl⟩ := h
          exact headBlockTime.toNat_lt
      | others accounts assets ledger blockInterval =>
          obtain rfl := Except.ok.inj h
          exact hnow
  · exact hnow

/-- The period a claim is made in ends before the 32-bit clock does; up to the hard fork, which
made it a check of the claim, it has also begun. -/
def InPeriod (s : PermitState) : PermitEvent → Prop
  | .claim op => ∀ permit, s.db.permits op.withdrawPermission = some permit →
      (s.db.headBlockTime < hardfork23Time → permit.periodStartTime ≤ s.db.headBlockTime) ∧
      permit.periodStartTime + permit.withdrawalPeriodSec < 2 ^ 32
  | _ => True

/-- Every permission's history is sound for some period. -/
structure PermitsSound (s : PermitState) : Prop where
  now_lt : s.db.headBlockTime < 2 ^ 32
  permits : ∀ id permit, s.db.permits id = some permit → ∃ k, HistorySound permit (s.history id) k

theorem historySound_of_became {h : ClaimHistory} (hs : PermitsSound s) (hguard : InPeriod s event)
    (hbecame : Became s event id permit h) : ∃ k, HistorySound permit h k := by
  cases hbecame with
  | kept permit hid => exact hs.permits id permit hid
  | created op hperiod hlimit => exact ⟨0, .opened hperiod hlimit.le le_rfl⟩
  | updated op old hid hperiod hlimit =>
      obtain ⟨k, hold⟩ := hs.permits id old hid
      exact ⟨0, .opened hperiod hlimit.le hold.claimed_nonneg⟩
  | claimed op old permit hevent hop hid hamount hexpiration havailable hstarted hclaim =>
      obtain ⟨k, hold⟩ := hs.permits id old hid
      subst hevent hop
      obtain ⟨hearly, hfits⟩ := hguard old hid
      have hstart : old.periodStartTime ≤ s.db.headBlockTime :=
        (lt_or_ge s.db.headBlockTime hardfork23Time).elim hearly hstarted
      exact ⟨_, hold.claim hstart hs.now_lt hfits hexpiration hamount havailable hclaim⟩

theorem permitsSound_step (hs : PermitsSound s) (hguard : InPeriod s event) :
    PermitsSound (s.step event) where
  now_lt := headBlockTime_step hs.now_lt
  permits id permit hid := by
    unfold step at hid ⊢
    split at hid
    · next s' h => exact historySound_of_became hs hguard (became_of_applyEvent h hid)
    · exact hs.permits id permit hid

theorem permitsSound_of_reaches {start : PermitState} (hnow : start.db.headBlockTime < 2 ^ 32)
    (hstart : start.db.permits = fun _ ↦ none) (hs : Run.Reaches step InPeriod start s) :
    PermitsSound s := by
  refine hs.invariant PermitsSound ⟨hnow, fun id permit hid ↦ ?_⟩ fun _ _ ↦ permitsSound_step
  rw [hstart] at hid
  cases hid

/-- In a run whose claims are all made in periods that end before the clock does, every permission
keeps its promise in every state. -/
theorem withdrawMeets_of_reaches {start : PermitState} (hnow : start.db.headBlockTime < 2 ^ 32)
    (hstart : start.db.permits = fun _ ↦ none) (hs : Run.Reaches step InPeriod start s)
    (hid : s.db.permits id = some permit) : WithdrawMeets permit (s.history id) := by
  obtain ⟨_, h⟩ := (permitsSound_of_reaches hnow hstart hs).permits id permit hid
  exact h.meets

/-! A holder of two hundred claims fifty twice, after a create with the period in question. -/

def claimant : PermitState where
  db := { listedDatabase with permits := fun _ ↦ none, headBlockTime := 1599999990 }
  nextId := 0
  blockInterval := 5
  history _ := .opened 0

def permitFor (withdrawalPeriodSec : ℕ) : PermitEvent :=
  .create ⟨⟨0, 0⟩, 1, 2, ⟨50, 1⟩, withdrawalPeriodSec, 2, 1600000000⟩

def fifty : PermitEvent := .claim ⟨0, 1, 2, ⟨50, 1⟩⟩

def firstClaim (withdrawalPeriodSec : ℕ) : PermitState :=
  step (step (step claimant (permitFor withdrawalPeriodSec)) (.block 1600000001)) fifty

theorem withdrawMeets_minute : ∃ permit, (firstClaim 60).db.permits 0 = some permit ∧
    ((firstClaim 60).history 0).claims.length = 1 ∧
    WithdrawMeets permit ((firstClaim 60).history 0) := by
  have hopen : (step (step claimant (permitFor 60)) (.block 1600000001)).db.permits 0 =
      some ⟨1, 2, ⟨50, 1⟩, 60, 1600000000, 1600000120, 0⟩ := rfl
  have hreach : Run.Reaches step InPeriod claimant (firstClaim 60) := by
    refine .next _ (.next _ (.next _ .refl trivial) trivial) ?_
    intro permit hid
    obtain rfl := Option.some.inj (hopen.symm.trans hid)
    exact ⟨by decide, by decide⟩
  have hid : (firstClaim 60).db.permits 0 =
      some ⟨1, 2, ⟨50, 1⟩, 60, 1600000000, 1600000120, 50⟩ := rfl
  exact ⟨_, hid, rfl, withdrawMeets_of_reaches (by decide) rfl hreach hid⟩

/-- A period of ninety years ends after the clock does: the limit is there again for every claim. -/
theorem not_withdrawMeets_longPeriod : ∃ permit,
    Run.Reaches step (fun _ _ ↦ True) claimant (step (firstClaim 2847000000) fifty) ∧
      (step (firstClaim 2847000000) fifty).db.permits 0 = some permit ∧
      ¬WithdrawMeets permit ((step (firstClaim 2847000000) fifty).history 0) := by
  have hid : (step (firstClaim 2847000000) fifty).db.permits 0 =
      some ⟨1, 2, ⟨50, 1⟩, 2847000000, 1600000000, 2999032704, 100⟩ := rfl
  refine ⟨_, .next _ (.next _ (.next _ (.next _ .refl trivial) trivial) trivial) trivial, hid, ?_⟩
  intro h
  have hlimited := h.limited 0
  exact absurd hlimited (by decide)

end PermitState

end KarmaCore.Transfer
