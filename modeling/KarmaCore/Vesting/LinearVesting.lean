import Mathlib
import KarmaCore.Vesting.VestingBalance

/-!
# Linear vesting

What one event can do to a vesting balance, and what a linear balance lets its
owner withdraw over any history of withdrawals.
-/

namespace KarmaCore.Vesting

open Transfer (get get_eq_ok)

variable {s s' : VestingState} {event : VestingEvent} {id now : ℕ} {vbo vbo' : VestingBalanceObject}

/-! ## What an event does to a balance -/

/-- Everything an event can do to a balance that is there. -/
inductive Touched (event : VestingEvent) (id now : ℕ) (vbo : VestingBalanceObject) :
    VestingBalanceObject → Prop
  | kept : Touched event id now vbo vbo
  | withdrawn (op : VestingBalanceWithdrawOperation) (vbo' : VestingBalanceObject)
      (hvalid : 0 < op.amount.amount) (hallowed : vbo.isWithdrawAllowed now op.amount = .ok true)
      (h : vbo.withdraw now op.amount = .ok vbo') : Touched event id now vbo vbo'
  | deposited (p : CddVestingPolicy) (amount : ℕ) (vbo' : VestingBalanceObject)
      (hp : vbo.policy = .cdd p) (h : vbo.deposit now ⟨amount, 0⟩ = .ok vbo') :
      Touched event id now vbo vbo'
  | depositedVested (p : CddVestingPolicy) (amount : ℕ) (vbo' : VestingBalanceObject)
      (hevent : event = .depositLazy (some id) amount p.vestingSeconds vbo.owner false)
      (hp : vbo.policy = .cdd p) (h : vbo.depositVested now ⟨amount, 0⟩ = .ok vbo') :
      Touched event id now vbo vbo'

/-- The balances an event can create. -/
inductive Created (event : VestingEvent) (now : ℕ) : VestingBalanceObject → Prop
  | operation (op : VestingBalanceCreateOperation) (hevent : event = .create op)
      (hvalid : 0 < op.amount.amount) : Created event now
        { owner := op.owner, balance := op.amount, policy := op.policy.init op.amount.amount now }
  | lazy (ovbid : Option ℕ) (amount reqVestingSeconds : ℕ) (reqOwner : AccountId)
      (requireVesting : Bool)
      (hevent : event = .depositLazy ovbid amount reqVestingSeconds reqOwner requireVesting) :
      Created event now (VestingState.lazyBalance amount reqVestingSeconds reqOwner requireVesting now)

namespace VestingState

/-- An event touches the balances that are there and creates others. -/
structure Effect (event : VestingEvent) (s s' : VestingState) : Prop where
  touched : ∀ id vbo, s.balances.find id = some vbo →
    ∃ vbo', s'.balances.find id = some vbo' ∧ Touched event id s.now vbo vbo'
  created : ∀ id vbo', s.balances.find id = none → s'.balances.find id = some vbo' →
    Created event s.now vbo'

theorem effect_of_eq (h : s'.balances = s.balances) : Effect event s s' where
  touched id vbo hid := ⟨vbo, h ▸ hid, .kept⟩
  created id vbo' hnone hid := by
    rw [h, hnone] at hid
    cases hid

theorem effect_of_set (hid : s.balances.find id = some vbo)
    (htouched : Touched event id s.now vbo vbo') :
    Effect event s { s with balances := s.balances.set id vbo' } where
  touched key x hkey := by
    simp only [ObjectIndex.find_set hid]
    split_ifs with heq
    · subst heq
      obtain rfl := Option.some.inj (hid.symm.trans hkey)
      exact ⟨vbo', rfl, htouched⟩
    · exact ⟨x, hkey, .kept⟩
  created key x hnone hkey := by
    simp only [ObjectIndex.find_set hid] at hkey
    split_ifs at hkey with heq
    · rw [heq, hid] at hnone
      cases hnone
    · rw [hnone] at hkey
      cases hkey

theorem effect_of_create (hcreated : Created event s.now vbo) :
    Effect event s { s with balances := s.balances.create vbo } where
  touched key x hkey := by
    simp only [ObjectIndex.find_create]
    rw [if_neg (ObjectIndex.lt_nextId hkey).ne]
    exact ⟨x, hkey, .kept⟩
  created key x hnone hkey := by
    simp only [ObjectIndex.find_create] at hkey
    split_ifs at hkey
    · obtain rfl := Option.some.inj hkey
      exact hcreated
    · rw [hnone] at hkey
      cases hkey

theorem reusableBalance_eq_ok {ovbid : Option ℕ} {reqVestingSeconds : ℕ} {reqOwner : AccountId}
    {r : Option (ℕ × VestingBalanceObject)}
    (h : s.reusableBalance ovbid reqVestingSeconds reqOwner = .ok r) :
    r = none ∨ ∃ id vbo, r = some (id, vbo) ∧ ovbid = some id ∧
      s.balances.find id = some vbo ∧ Reusable reqVestingSeconds reqOwner vbo := by
  unfold reusableBalance at h
  split at h
  · exact .inl (Except.ok.inj h).symm
  · simp only [Checked.bind_eq_ok, get_eq_ok, Checked.pure_eq_ok] at h
    obtain ⟨vbo, hvbo, rfl⟩ := h
    split_ifs with hreusable
    · exact .inr ⟨_, vbo, rfl, rfl, hvbo, hreusable⟩
    · exact .inl rfl

theorem reusable_iff {reqVestingSeconds : ℕ} {reqOwner : AccountId} :
    Reusable reqVestingSeconds reqOwner vbo ↔ ∃ p, vbo.policy = .cdd p ∧ vbo.owner = reqOwner ∧
      p.vestingSeconds = reqVestingSeconds := by
  unfold Reusable
  cases vbo.policy <;> simp

theorem effect_of_depositLazyVesting {ovbid : Option ℕ} {amount reqVestingSeconds : ℕ}
    {reqOwner : AccountId} {requireVesting : Bool} {oid : Option ℕ}
    (hevent : event = .depositLazy ovbid amount reqVestingSeconds reqOwner requireVesting)
    (h : s.depositLazyVesting ovbid amount reqVestingSeconds reqOwner requireVesting
      = .ok (oid, s')) : Effect event s s' ∧ s'.now = s.now := by
  unfold depositLazyVesting at h
  split_ifs at h with hzero
  · cases h
    exact ⟨effect_of_eq rfl, rfl⟩
  · simp only [Checked.bind_eq_ok] at h
    obtain ⟨r, hr, h⟩ := h
    obtain rfl | ⟨id, vbo, rfl, hid, hvbo, hreusable⟩ := reusableBalance_eq_ok hr
    · cases h
      exact ⟨effect_of_create (.lazy ovbid amount _ _ _ hevent), rfl⟩
    · simp only [Checked.bind_eq_ok, depositInto, Checked.pure_eq_ok] at h
      obtain ⟨t, ⟨vbo', hdeposit, rfl⟩, h⟩ := h
      cases h
      obtain ⟨p, hp, rfl, rfl⟩ := reusable_iff.mp hreusable
      refine ⟨effect_of_set hvbo ?_, rfl⟩
      unfold VestingBalanceObject.depositEither at hdeposit
      split_ifs at hdeposit with hvesting
      · exact .deposited p amount vbo' hp hdeposit
      · rw [Bool.not_eq_true] at hvesting
        exact .depositedVested p amount vbo' (by rw [hevent, hid, hvesting]) hp hdeposit

theorem effect_of_applyEvent (h : s.applyEvent event = .ok s') : Effect event s s' := by
  cases event with
  | passTime seconds =>
      obtain rfl := Except.ok.inj h
      exact effect_of_eq rfl
  | create op =>
      simp only [applyEvent, create, VestingBalanceCreateOperation.validate, Checked.bind_eq_ok,
        require_eq_ok, Checked.pure_eq_ok] at h
      obtain ⟨-, hvalid, rfl⟩ := h
      exact effect_of_create (.operation op rfl hvalid)
  | withdraw op =>
      simp only [applyEvent, withdraw, VestingBalanceWithdrawOperation.validate,
        Checked.bind_eq_ok, require_eq_ok, get_eq_ok, Checked.pure_eq_ok] at h
      obtain ⟨-, hvalid, vbo, hvbo, -, -, allowed, hallowed, -, htrue, vbo', hwithdraw, rfl⟩ := h
      exact effect_of_set hvbo (.withdrawn op vbo' hvalid (htrue ▸ hallowed) hwithdraw)
  | payWorker id pay =>
      simp only [applyEvent, payWorker, Checked.bind_eq_ok, get_eq_ok, Checked.pure_eq_ok] at h
      obtain ⟨vbo, hvbo, vbo', hdeposit, rfl⟩ := h
      unfold VestingBalanceObject.depositPay at hdeposit
      split at hdeposit
      · next p hp => exact effect_of_set hvbo (.deposited p pay vbo' hp hdeposit)
      · cases hdeposit
  | depositLazy ovbid amount reqVestingSeconds reqOwner requireVesting =>
      simp only [applyEvent, Checked.bind_eq_ok, Checked.pure_eq_ok] at h
      obtain ⟨⟨oid, t⟩, hlazy, rfl⟩ := h
      exact (effect_of_depositLazyVesting rfl hlazy).1

theorem now_of_applyEvent (h : s.applyEvent event = .ok s') : s.now ≤ s'.now := by
  cases event with
  | passTime seconds =>
      obtain rfl := Except.ok.inj h
      exact Nat.le_add_right _ _
  | create op =>
      simp only [applyEvent, create, Checked.bind_eq_ok, Checked.pure_eq_ok] at h
      obtain ⟨-, -, rfl⟩ := h
      exact le_rfl
  | withdraw op =>
      simp only [applyEvent, withdraw, Checked.bind_eq_ok, Checked.pure_eq_ok] at h
      obtain ⟨-, -, vbo, -, -, -, allowed, -, -, -, vbo', -, rfl⟩ := h
      exact le_rfl
  | payWorker id pay =>
      simp only [applyEvent, payWorker, Checked.bind_eq_ok, Checked.pure_eq_ok] at h
      obtain ⟨vbo, -, vbo', -, rfl⟩ := h
      exact le_rfl
  | depositLazy ovbid amount reqVestingSeconds reqOwner requireVesting =>
      simp only [applyEvent, Checked.bind_eq_ok, Checked.pure_eq_ok] at h
      obtain ⟨⟨oid, t⟩, hlazy, rfl⟩ := h
      exact (effect_of_depositLazyVesting rfl hlazy).2.ge

theorem effect_step (s : VestingState) (event : VestingEvent) : Effect event s (s.step event) := by
  unfold step
  split
  · next h => exact effect_of_applyEvent h
  · exact effect_of_eq rfl

theorem now_le_step (s : VestingState) (event : VestingEvent) : s.now ≤ (s.step event).now := by
  unfold step
  split
  · next h => exact now_of_applyEvent h
  · exact le_rfl

end VestingState

/-! ## The vested part -/

namespace LinearVestingPolicy

variable {p : LinearVestingPolicy} {t t' : ℕ}

/-- The part of the first balance that is vested by a time. -/
def vestedBy (p : LinearVestingPolicy) (t : ℕ) : ℤ :=
  if t < p.beginTimestamp then 0
  else if t - p.beginTimestamp < p.vestingDurationSeconds then
    p.beginBalance * (t - p.beginTimestamp : ℕ) / p.vestingDurationSeconds
  else p.beginBalance

theorem vestedBy_nonneg (hbegin : 0 ≤ p.beginBalance) : 0 ≤ p.vestedBy t := by
  unfold vestedBy
  split_ifs
  · exact le_rfl
  · positivity
  · exact hbegin

theorem vestedBy_le (hbegin : 0 ≤ p.beginBalance) : p.vestedBy t ≤ p.beginBalance := by
  unfold vestedBy
  split_ifs with _ hduring
  · exact hbegin
  · have hpos : (0 : ℤ) < p.vestingDurationSeconds := by omega
    refine Int.ediv_le_of_le_mul hpos ?_
    exact mul_le_mul_of_nonneg_left (by exact_mod_cast hduring.le) hbegin
  · exact le_rfl

theorem vestedBy_mono (hbegin : 0 ≤ p.beginBalance) (htt' : t ≤ t') :
    p.vestedBy t ≤ p.vestedBy t' := by
  by_cases hlater : t' - p.beginTimestamp < p.vestingDurationSeconds
  · by_cases hbefore : t < p.beginTimestamp
    · rw [vestedBy, if_pos hbefore]
      exact vestedBy_nonneg hbegin
    · have hpos : (0 : ℤ) < p.vestingDurationSeconds := by omega
      rw [vestedBy, if_neg hbefore, if_pos (by omega), vestedBy, if_neg (by omega), if_pos hlater]
      refine Int.ediv_le_ediv hpos (mul_le_mul_of_nonneg_left ?_ hbegin)
      exact_mod_cast Nat.sub_le_sub_right htt' _
  · by_cases hbefore : t' < p.beginTimestamp
    · rw [vestedBy, if_pos (by omega)]
      exact vestedBy_nonneg hbegin
    · rw [vestedBy.eq_def p t', if_neg hbefore, if_neg hlater]
      exact vestedBy_le hbegin

theorem vestedBy_of_passed (h : p.beginTimestamp + p.vestingDurationSeconds ≤ t) :
    p.vestedBy t = p.beginBalance := by
  unfold vestedBy
  rw [if_neg (by omega), if_neg (by omega)]

/-- The owner may claim once the balance has begun to vest and the cliff is over. -/
def Claimable (p : LinearVestingPolicy) (t : ℕ) : Prop :=
  p.beginTimestamp < t ∧ p.beginTimestamp + p.vestingCliffSeconds ≤ t

instance : DecidablePred p.Claimable := fun _ ↦ inferInstanceAs (Decidable (_ ∧ _))

theorem getAllowedWithdraw_eq (balance : Asset) : p.getAllowedWithdraw balance t =
    ⟨if p.Claimable t then p.vestedBy t - (p.beginBalance - balance.amount) else 0,
      balance.assetId⟩ := by
  by_cases hclaim : p.Claimable t
  · obtain ⟨hbegun, hcliff⟩ := hclaim
    have hvested : p.vestedBy t = if t - p.beginTimestamp < p.vestingDurationSeconds then
        p.beginBalance * (t - p.beginTimestamp : ℕ) / p.vestingDurationSeconds
        else p.beginBalance := by
      rw [vestedBy, if_neg (by omega)]
    rw [if_pos ⟨hbegun, hcliff⟩, hvested, getAllowedWithdraw, if_pos hbegun]
    exact if_pos (by omega)
  · rw [if_neg hclaim, getAllowedWithdraw]
    by_cases hbegun : p.beginTimestamp < t
    · rw [if_pos hbegun]
      exact if_neg fun hcliff ↦ hclaim ⟨hbegun, by omega⟩
    · rw [if_neg hbegun]

end LinearVestingPolicy

/-! ## Histories -/

namespace VestingState

variable {p : LinearVestingPolicy}

/-- What was withdrawn from the balance is vested, and the rest is in the balance. -/
def LinearSound (p : LinearVestingPolicy) (id : ℕ) (s : VestingState) : Prop :=
  ∃ vbo, s.balances.find id = some vbo ∧ vbo.policy = .linear p ∧
    vbo.balance.amount = p.beginBalance - vbo.withdrawn ∧ 0 ≤ vbo.withdrawn ∧
    vbo.withdrawn ≤ p.vestedBy s.now

theorem linearSound_of_touched (hbegin : 0 ≤ p.beginBalance) {t : ℕ} (ht : now ≤ t)
    (hpolicy : vbo.policy = .linear p) (hamount : vbo.balance.amount = p.beginBalance - vbo.withdrawn)
    (hnonneg : 0 ≤ vbo.withdrawn) (hvested : vbo.withdrawn ≤ p.vestedBy now)
    (h : Touched event id now vbo vbo') : vbo'.policy = .linear p ∧
      vbo'.balance.amount = p.beginBalance - vbo'.withdrawn ∧ 0 ≤ vbo'.withdrawn ∧
      vbo'.withdrawn ≤ p.vestedBy t := by
  have hlater := LinearVestingPolicy.vestedBy_mono hbegin ht
  cases h with
  | kept => exact ⟨hpolicy, hamount, hnonneg, hvested.trans hlater⟩
  | deposited q _ _ hq => rw [hpolicy] at hq; cases hq
  | depositedVested q _ _ _ hq => rw [hpolicy] at hq; cases hq
  | withdrawn op vbo' hvalid hallowed h =>
      simp only [VestingBalanceObject.isWithdrawAllowed, hpolicy,
        LinearVestingPolicy.isWithdrawAllowed, LinearVestingPolicy.getAllowedWithdraw_eq] at hallowed
      split_ifs at hallowed with hid hclaim
      · obtain ⟨-, hle⟩ := Asset.le_eq_ok.mp hallowed
        rw [decide_eq_true_eq] at hle
        dsimp only at hle
        simp only [VestingBalanceObject.withdraw, hpolicy, Checked.bind_eq_ok, Asset.sub_eq_ok,
          Checked.pure_eq_ok] at h
        obtain ⟨balance, ⟨-, -, rfl⟩, rfl⟩ := h
        refine ⟨rfl, ?_, ?_, ?_⟩ <;> dsimp only <;> omega
      · obtain ⟨-, hle⟩ := Asset.le_eq_ok.mp hallowed
        rw [decide_eq_true_eq] at hle
        dsimp only at hle
        omega
      · cases hallowed

theorem LinearSound.step (hbegin : 0 ≤ p.beginBalance) (h : LinearSound p id s)
    (event : VestingEvent) : LinearSound p id (s.step event) := by
  obtain ⟨vbo, hid, hpolicy, hamount, hnonneg, hvested⟩ := h
  obtain ⟨vbo', hid', htouched⟩ := (effect_step s event).touched id vbo hid
  exact ⟨vbo', hid', linearSound_of_touched hbegin (now_le_step s event) hpolicy hamount hnonneg
    hvested htouched⟩

/-- What a linear balance promises its owner at the time of the head block. -/
def LinearMeets (p : LinearVestingPolicy) (id : ℕ) (s : VestingState) : Prop :=
  ∃ vbo, s.balances.find id = some vbo ∧ vbo.withdrawn ≤ p.vestedBy s.now ∧
    0 ≤ (vbo.getAllowedWithdraw s.now).amount ∧
    (vbo.getAllowedWithdraw s.now).amount ≤ vbo.balance.amount ∧
    (p.beginTimestamp + p.vestingDurationSeconds ≤ s.now →
      vbo.getAllowedWithdraw s.now = vbo.balance)

theorem LinearSound.meets (hbegin : 0 ≤ p.beginBalance) (h : LinearSound p id s)
    (hclaim : p.beginTimestamp + p.vestingDurationSeconds ≤ s.now → p.Claimable s.now) :
    LinearMeets p id s := by
  obtain ⟨vbo, hid, hpolicy, hamount, hnonneg, hvested⟩ := h
  have hle := LinearVestingPolicy.vestedBy_le (t := s.now) hbegin
  refine ⟨vbo, hid, hvested, ?_⟩
  simp only [VestingBalanceObject.getAllowedWithdraw, hpolicy,
    LinearVestingPolicy.getAllowedWithdraw_eq]
  refine ⟨?_, ?_, fun hpassed ↦ ?_⟩
  · split_ifs <;> omega
  · split_ifs <;> omega
  · rw [if_pos (hclaim hpassed), LinearVestingPolicy.vestedBy_of_passed hpassed, sub_sub_cancel]

/-! ## The condition -/

/-- At the first time since the creation when the vesting duration has passed, if there is one, the
balance has begun to vest and the cliff is over. -/
def CliffInside (p : LinearVestingPolicy) (created : ℕ) : Prop :=
  max created (p.beginTimestamp + p.vestingDurationSeconds) < 2 ^ 32 →
    p.Claimable (max created (p.beginTimestamp + p.vestingDurationSeconds))

instance (created : ℕ) : Decidable (CliffInside p created) := inferInstanceAs (Decidable (_ → _))

/-- The balance an operation creates. -/
def createdBalance (op : VestingBalanceCreateOperation) (now : ℕ) : VestingBalanceObject :=
  { owner := op.owner, balance := op.amount, policy := op.policy.init op.amount.amount now }

theorem step_create {op : VestingBalanceCreateOperation} (hvalid : op.validate = .ok ()) :
    s.step (.create op) =
      { s with balances := s.balances.create (createdBalance op s.now) } := by
  simp only [VestingState.step, applyEvent, create, hvalid]
  rfl

theorem beginBalance_of_init {op : VestingBalanceCreateOperation}
    (hp : op.policy.init op.amount.amount now = .linear p) : p.beginBalance = op.amount.amount := by
  cases hpolicy : op.policy with
  | linear i =>
      rw [hpolicy] at hp
      cases hp
      rfl
  | cdd i =>
      rw [hpolicy] at hp
      cases hp

theorem linearSound_create {op : VestingBalanceCreateOperation} (hvalid : op.validate = .ok ())
    (hp : op.policy.init op.amount.amount s.now = .linear p) (hbegin : 0 ≤ p.beginBalance) :
    LinearSound p s.balances.nextId (s.step (.create op)) := by
  rw [step_create hvalid]
  refine ⟨createdBalance op s.now, ?_, hp, ?_, le_rfl,
    LinearVestingPolicy.vestedBy_nonneg hbegin⟩
  · rw [ObjectIndex.find_create, if_pos rfl]
  · rw [beginBalance_of_init hp]
    exact (sub_zero _).symm

theorem claimable_of_cliffInside {created t : ℕ} (h : CliffInside p created) (hcreated : created ≤ t)
    (ht : t < 2 ^ 32) (hpassed : p.beginTimestamp + p.vestingDurationSeconds ≤ t) :
    p.Claimable t := by
  obtain ⟨hbegun, hcliff⟩ := h (by omega)
  have hdue : max created (p.beginTimestamp + p.vestingDurationSeconds) ≤ t := max_le hcreated hpassed
  exact ⟨hbegun.trans_le hdue, hcliff.trans hdue⟩

/-- A linear balance keeps its promises over every history if and only if its cliff does not
outlast its duration. -/
theorem linearMeets_iff (s : VestingState) {op : VestingBalanceCreateOperation}
    (hvalid : op.validate = .ok ()) (hp : op.policy.init op.amount.amount s.now = .linear p) :
    (∀ t, Run.Reaches VestingState.step (fun _ _ ↦ True) (s.step (.create op)) t →
      t.now < 2 ^ 32 → LinearMeets p s.balances.nextId t) ↔ CliffInside p s.now := by
  have hpos : 0 < p.beginBalance := beginBalance_of_init hp ▸ require_eq_ok.mp hvalid
  constructor
  · intro h hdue
    by_contra hclaim
    have hcreate := step_create (s := s) hvalid
    have hmeets := h _ (.next (.passTime (max s.now (p.beginTimestamp + p.vestingDurationSeconds) -
      s.now)) .refl trivial)
    have hnow : ((s.step (.create op)).step (.passTime
        (max s.now (p.beginTimestamp + p.vestingDurationSeconds) - s.now))).now =
        max s.now (p.beginTimestamp + p.vestingDurationSeconds) := by
      rw [hcreate]
      exact Nat.add_sub_of_le (le_max_left _ _)
    obtain ⟨vbo, hid, -, -, -, hwhole⟩ := hmeets (hnow.trans_lt hdue)
    rw [hnow] at hwhole
    have hfind : ((s.step (.create op)).step (.passTime
        (max s.now (p.beginTimestamp + p.vestingDurationSeconds) - s.now))).balances.find
        s.balances.nextId = some (createdBalance op s.now) := by
      rw [hcreate]
      exact ObjectIndex.find_create.trans (if_pos rfl)
    obtain rfl := Option.some.inj (hfind.symm.trans hid)
    have hallowed := hwhole (le_max_right _ _)
    simp only [VestingBalanceObject.getAllowedWithdraw, createdBalance, hp,
      LinearVestingPolicy.getAllowedWithdraw_eq, if_neg hclaim] at hallowed
    have hzero := congrArg Asset.amount hallowed
    rw [beginBalance_of_init hp] at hpos
    exact hpos.ne hzero
  · intro hcliff t ht hlt
    have hinvariant : s.now ≤ t.now ∧ LinearSound p s.balances.nextId t := by
      refine ht.invariant (fun t ↦ s.now ≤ t.now ∧ LinearSound p s.balances.nextId t)
        ⟨now_le_step s _, linearSound_create hvalid hp hpos.le⟩ ?_
      rintro t event ⟨hle, hsound⟩ -
      exact ⟨hle.trans (now_le_step t event), hsound.step hpos.le event⟩
    exact hinvariant.2.meets hpos.le (claimable_of_cliffInside hcliff hinvariant.1 hlt)

def longDuration : VestingBalanceCreateOperation where
  creator := 7
  owner := 8
  amount := ⟨50, 0⟩
  policy := .linear ⟨1000, 100, 200⟩

theorem linearMeets_longDuration : LinearMeets ⟨1000, 100, 200, 50⟩ 0
    ((step ⟨900, .empty⟩ (.create longDuration)).step (.passTime 300)) :=
  (linearMeets_iff ⟨900, .empty⟩ rfl rfl).mpr (by decide) _ (.next _ .refl trivial) (by decide)

/-- The cliff is longer than the vesting duration. -/
def longCliff : VestingBalanceCreateOperation where
  creator := 7
  owner := 8
  amount := ⟨50, 0⟩
  policy := .linear ⟨1000, 200, 100⟩

/-- When the duration has passed, nothing of the fully vested balance can be withdrawn. -/
theorem not_linearMeets_longCliff : longCliff.validate = .ok () ∧
    ¬LinearMeets ⟨1000, 200, 100, 50⟩ 0
      ((step ⟨900, .empty⟩ (.create longCliff)).step (.passTime 200)) := by
  refine ⟨rfl, ?_⟩
  rintro ⟨vbo, hid, -, -, -, hwhole⟩
  have hfind : ((step ⟨900, .empty⟩ (.create longCliff)).step (.passTime 200)).balances.find 0 =
      some (createdBalance longCliff 900) := rfl
  obtain rfl := Option.some.inj (hfind.symm.trans hid)
  exact absurd (hwhole (by decide)) (by decide)

end VestingState

end KarmaCore.Vesting
