import Mathlib
import KarmaCore.Vesting.LinearVesting

/-!
# Coin-days vesting

The coin seconds of a balance never exceed what its amount earns in full, as
long as the 64-bit products of the vested deposits are exact.
-/

namespace KarmaCore.Vesting

open Transfer (get get_eq_ok)

theorem uint128_of_mem {x : ℤ} (hx : 0 ≤ x) (hlt : x < 2 ^ 128) : uint128 x = x :=
  Int.emod_eq_of_lt hx hlt

theorem int64_of_mem {x : ℤ} (hx : 0 ≤ x) (hlt : x < 2 ^ 63) : int64 x = x := by
  unfold int64
  rw [Int.bmod_def, if_pos] <;> omega

/-- The earned coin seconds of a balance are at most those of the full time to maturity, and all
numbers fit their types. -/
structure CddSound (now : ℕ) (balance : Asset) (p : CddVestingPolicy) : Prop where
  amount_nonneg : 0 ≤ balance.amount
  amount_lt : balance.amount < 2 ^ 63
  maturity_le : p.maturity ≤ 2 ^ 32
  earned_nonneg : 0 ≤ p.coinSecondsEarned
  earned_le : p.coinSecondsEarned ≤ balance.amount * p.maturity
  updated : p.coinSecondsEarnedLastUpdate ≤ now

namespace CddVestingPolicy

variable {p : CddVestingPolicy} {balance amount : Asset} {now t : ℕ}

theorem maturity_pos (p : CddVestingPolicy) : 0 < p.maturity := lt_max_of_lt_right one_pos

/-- No 128-bit number wraps around. -/
theorem computeCoinSecondsEarned_eq (h : CddSound now balance p) (hnow : now ≤ t)
    (ht : t < 2 ^ 32) : p.computeCoinSecondsEarned balance t =
      min (p.coinSecondsEarned + balance.amount * (t - p.coinSecondsEarnedLastUpdate))
        (balance.amount * p.maturity) := by
  obtain ⟨hnonneg, hlt, hmaturity, hearned, hearnedLe, hupdated⟩ := h
  have hdelta : (0 : ℤ) ≤ t - p.coinSecondsEarnedLastUpdate := by omega
  have hdelta' : (t - p.coinSecondsEarnedLastUpdate : ℤ) ≤ 2 ^ 32 := by omega
  have hmaturity' : (p.maturity : ℤ) ≤ 2 ^ 32 := by exact_mod_cast hmaturity
  have hgrown : balance.amount * (t - p.coinSecondsEarnedLastUpdate) ≤ 2 ^ 63 * 2 ^ 32 :=
    mul_le_mul hlt.le hdelta' hdelta (by norm_num)
  have hgrown0 := mul_nonneg hnonneg hdelta
  have hcap : balance.amount * p.maturity ≤ 2 ^ 63 * 2 ^ 32 :=
    mul_le_mul hlt.le hmaturity' (Int.natCast_nonneg _) (by norm_num)
  have hcap0 : 0 ≤ balance.amount * p.maturity := mul_nonneg hnonneg (Int.natCast_nonneg _)
  unfold computeCoinSecondsEarned
  dsimp only
  rw [uint128_of_mem hnonneg (by omega), uint128_of_mem hdelta (by omega),
    uint128_of_mem hgrown0 (by omega), uint128_of_mem hcap0 (by omega),
    uint128_of_mem (by omega) (by omega)]

theorem compute_bounds (h : CddSound now balance p) (hnow : now ≤ t) (ht : t < 2 ^ 32) :
    0 ≤ p.computeCoinSecondsEarned balance t ∧
      p.coinSecondsEarned ≤ p.computeCoinSecondsEarned balance t ∧
      p.computeCoinSecondsEarned balance t ≤ balance.amount * p.maturity := by
  have hgrown : 0 ≤ balance.amount * (t - p.coinSecondsEarnedLastUpdate : ℤ) :=
    mul_nonneg h.amount_nonneg (by have hle := h.updated; omega)
  rw [computeCoinSecondsEarned_eq h hnow ht]
  have hle := h.earned_le
  have hearned := h.earned_nonneg
  exact ⟨le_min (by omega) (by omega), le_min (by omega) hle, min_le_right _ _⟩

theorem getAllowedWithdraw_eq_div (h : CddSound now balance p) (hnow : now ≤ t) (ht : t < 2 ^ 32)
    (hclaim : p.startClaim < t) : p.getAllowedWithdraw balance t =
      ⟨p.computeCoinSecondsEarned balance t / p.maturity, balance.assetId⟩ := by
  obtain ⟨hnonneg, -, hle⟩ := compute_bounds h hnow ht
  have hpos : (0 : ℤ) < p.maturity := by exact_mod_cast p.maturity_pos
  have hdiv := Int.ediv_le_of_le_mul hpos hle
  unfold getAllowedWithdraw
  rw [if_neg (by omega)]
  dsimp only
  rw [int64_of_mem (Int.ediv_nonneg hnonneg hpos.le) (hdiv.trans_lt h.amount_lt)]

theorem getAllowedWithdraw_bounds (h : CddSound now balance p) (hnow : now ≤ t) (ht : t < 2 ^ 32) :
    0 ≤ (p.getAllowedWithdraw balance t).amount ∧
      (p.getAllowedWithdraw balance t).amount ≤ balance.amount := by
  by_cases hclaim : p.startClaim < t
  · obtain ⟨hnonneg, -, hle⟩ := compute_bounds h hnow ht
    have hpos : (0 : ℤ) < p.maturity := by exact_mod_cast p.maturity_pos
    rw [getAllowedWithdraw_eq_div h hnow ht hclaim]
    exact ⟨Int.ediv_nonneg hnonneg hpos.le, Int.ediv_le_of_le_mul hpos hle⟩
  · rw [getAllowedWithdraw, if_pos (by omega)]
    exact ⟨le_rfl, h.amount_nonneg⟩

/-! ## Updates -/

theorem cddSound_onDeposit (h : CddSound now balance p) (hnow : now ≤ t) (ht : t < 2 ^ 32)
    {total : ℤ} (htotal : balance.amount ≤ total) (hlt : total < 2 ^ 63) :
    CddSound t ⟨total, balance.assetId⟩ (p.onDeposit balance t) := by
  obtain ⟨hnonneg, -, hle⟩ := compute_bounds h hnow ht
  exact ⟨h.amount_nonneg.trans htotal, hlt, h.maturity_le, hnonneg,
    hle.trans (mul_le_mul_of_nonneg_right htotal (Int.natCast_nonneg _)), le_rfl⟩

/-- The coin seconds after a vested deposit, when the product fits. -/
theorem onDepositVested_eq (h : CddSound now balance p) (hnow : now ≤ t) (ht : t < 2 ^ 32)
    (hamount : 0 ≤ amount.amount) (hfits : amount.amount * p.maturity < 2 ^ 63) :
    p.onDepositVested balance t amount = { p.onDeposit balance t with
      coinSecondsEarned := p.computeCoinSecondsEarned balance t + amount.amount * p.maturity } := by
  obtain ⟨hnonneg, -, hle⟩ := compute_bounds h hnow ht
  have hmaturity' : (p.maturity : ℤ) ≤ 2 ^ 32 := by exact_mod_cast h.maturity_le
  have hcap : balance.amount * p.maturity ≤ 2 ^ 63 * 2 ^ 32 :=
    mul_le_mul h.amount_lt.le hmaturity' (Int.natCast_nonneg _) (by norm_num)
  have hproduct : 0 ≤ amount.amount * p.maturity := mul_nonneg hamount (Int.natCast_nonneg _)
  have hsame : (p.onDeposit balance t).maturity = p.maturity := rfl
  have hearned : (p.onDeposit balance t).coinSecondsEarned = p.computeCoinSecondsEarned balance t :=
    rfl
  unfold onDepositVested
  dsimp only
  rw [hsame, hearned, int64_of_mem hproduct hfits, uint128_of_mem (by omega) (by omega)]

theorem cddSound_onDepositVested (h : CddSound now balance p) (hnow : now ≤ t) (ht : t < 2 ^ 32)
    (hamount : 0 ≤ amount.amount) (hfits : amount.amount * p.maturity < 2 ^ 63)
    (hlt : balance.amount + amount.amount < 2 ^ 63) :
    CddSound t ⟨balance.amount + amount.amount, balance.assetId⟩
      (p.onDepositVested balance t amount) := by
  obtain ⟨hnonneg, -, hle⟩ := compute_bounds h hnow ht
  have hproduct : 0 ≤ amount.amount * p.maturity := mul_nonneg hamount (Int.natCast_nonneg _)
  rw [onDepositVested_eq h hnow ht hamount hfits]
  refine ⟨add_nonneg h.amount_nonneg hamount, hlt, h.maturity_le, add_nonneg hnonneg hproduct, ?_,
    le_rfl⟩
  exact (add_le_add_left hle _).trans (add_mul _ _ _).ge

theorem cddSound_onWithdraw (h : CddSound now balance p) (hnow : now ≤ t) (ht : t < 2 ^ 32)
    (hamount : 0 < amount.amount) (hle : amount.amount ≤ (p.getAllowedWithdraw balance t).amount) :
    CddSound t ⟨balance.amount - amount.amount, balance.assetId⟩
      (p.onWithdraw balance t amount) := by
  obtain ⟨hnonneg, -, hcap⟩ := compute_bounds h hnow ht
  have hpos : (0 : ℤ) < p.maturity := by exact_mod_cast p.maturity_pos
  have hallowed := (getAllowedWithdraw_bounds h hnow ht).2
  have hclaim : p.startClaim < t := by
    by_contra hnot
    rw [getAllowedWithdraw, if_pos (not_lt.mp hnot)] at hle
    exact hamount.not_ge hle
  rw [getAllowedWithdraw_eq_div h hnow ht hclaim] at hle
  have hneeded : amount.amount * p.maturity ≤ p.computeCoinSecondsEarned balance t :=
    (Int.le_ediv_iff_mul_le hpos).mp hle
  have hneeded0 : 0 ≤ amount.amount * p.maturity := mul_nonneg hamount.le hpos.le
  have hmaturity : (p.maturity : ℤ) ≤ 2 ^ 32 := by exact_mod_cast h.maturity_le
  have hbound : balance.amount * p.maturity ≤ 2 ^ 63 * 2 ^ 32 :=
    mul_le_mul h.amount_lt.le hmaturity hpos.le (by norm_num)
  have hlt := h.amount_lt
  have hamountLe : amount.amount ≤ balance.amount := by
    rw [getAllowedWithdraw_eq_div h hnow ht hclaim] at hallowed
    exact hle.trans hallowed
  have hearned : (p.onWithdraw balance t amount).coinSecondsEarned =
      p.computeCoinSecondsEarned balance t - amount.amount * p.maturity := by
    change uint128 (p.computeCoinSecondsEarned balance t -
      uint128 (uint128 amount.amount * p.maturity)) = _
    rw [uint128_of_mem hamount.le (by omega), uint128_of_mem hneeded0 (by omega),
      uint128_of_mem (by omega) (by omega)]
  refine ⟨sub_nonneg.mpr hamountLe, by dsimp only; omega, h.maturity_le, ?_, ?_, le_rfl⟩
  · rw [hearned]
    exact sub_nonneg.mpr hneeded
  · rw [hearned]
    exact (sub_le_sub_right hcap _).trans (sub_mul _ _ _).ge

end CddVestingPolicy

/-! ## Balances -/

/-- A balance with a coin-days policy is sound. -/
def VestingBalanceObject.Sound (now : ℕ) (vbo : VestingBalanceObject) : Prop :=
  ∀ p, vbo.policy = .cdd p → CddSound now vbo.balance p

/-- The amounts and times of an event are of their types. -/
def VestingEvent.WellTyped : VestingEvent → Prop
  | .create op => InShareRange op.amount.amount ∧ ∀ i, op.policy = .cdd i → i.vestingSeconds < 2 ^ 32
  | .depositLazy _ amount reqVestingSeconds _ _ => InShareRange amount ∧ reqVestingSeconds < 2 ^ 32
  | _ => True

namespace VestingState

variable {s s' start : VestingState} {event : VestingEvent} {id now t : ℕ}
  {vbo vbo' : VestingBalanceObject}

/-- The product of a vested deposit is one of `int64_t`, and a vested deposit that matures at once
finds the balance it goes to. -/
def FitsIn (s : VestingState) : VestingEvent → Prop
  | .depositLazy ovbid amount reqVestingSeconds reqOwner false =>
      (amount : ℤ) * (max reqVestingSeconds 1 : ℕ) < 2 ^ 63 ∧
        (reqVestingSeconds = 0 → amount = 0 ∨ ∃ id vbo, ovbid = some id ∧
          s.balances.find id = some vbo ∧ Reusable reqVestingSeconds reqOwner vbo)
  | _ => True

theorem product_of_fitsIn {ovbid : Option ℕ} {amount reqVestingSeconds : ℕ} {reqOwner : AccountId}
    (h : s.FitsIn (.depositLazy ovbid amount reqVestingSeconds reqOwner false)) :
    (amount : ℤ) * (max reqVestingSeconds 1 : ℕ) < 2 ^ 63 := h.1

theorem sound_of_touched (hsound : vbo.Sound now) (hnow : now ≤ s.now) (ht : s.now < 2 ^ 32)
    (hfits : s.FitsIn event) (h : Touched event id s.now vbo vbo') : vbo'.Sound s.now := by
  intro p hp
  cases h with
  | kept =>
      obtain ⟨hnonneg, hlt, hmaturity, hearned, hearnedLe, hupdated⟩ := hsound p hp
      exact ⟨hnonneg, hlt, hmaturity, hearned, hearnedLe, hupdated.trans hnow⟩
  | withdrawn op vbo' hvalid hallowed h =>
      cases hq : vbo.policy with
      | linear q =>
          simp only [VestingBalanceObject.withdraw, hq, Checked.bind_eq_ok, Checked.pure_eq_ok] at h
          obtain ⟨balance, -, rfl⟩ := h
          cases hp
      | cdd q =>
          simp only [VestingBalanceObject.isWithdrawAllowed, hq,
            CddVestingPolicy.isWithdrawAllowed] at hallowed
          obtain ⟨-, hle⟩ := Asset.le_eq_ok.mp hallowed
          rw [decide_eq_true_eq] at hle
          simp only [VestingBalanceObject.withdraw, hq, Checked.bind_eq_ok, Asset.sub_eq_ok,
            Checked.pure_eq_ok] at h
          obtain ⟨balance, ⟨-, -, rfl⟩, rfl⟩ := h
          cases hp
          exact CddVestingPolicy.cddSound_onWithdraw (hsound q hq) hnow ht hvalid hle
  | deposited q amount vbo' hq h =>
      simp only [VestingBalanceObject.deposit, hq, Checked.bind_eq_ok, Asset.add_eq_ok,
        Checked.pure_eq_ok] at h
      obtain ⟨balance, ⟨-, hrange, rfl⟩, rfl⟩ := h
      cases hp
      exact CddVestingPolicy.cddSound_onDeposit (hsound q hq) hnow ht (by simp) hrange.2
  | depositedVested q amount vbo' hevent hq h =>
      rw [hevent] at hfits
      simp only [VestingBalanceObject.depositVested, hq, Checked.bind_eq_ok, Asset.add_eq_ok,
        Checked.pure_eq_ok, Except.ok.injEq] at h
      obtain ⟨policy, rfl, balance, ⟨-, hrange, rfl⟩, rfl⟩ := h
      cases hp
      have hamount : 0 ≤ (Asset.mk (amount : ℤ) 0).amount := Int.natCast_nonneg amount
      exact CddVestingPolicy.cddSound_onDepositVested (hsound q hq) hnow ht hamount
        (product_of_fitsIn hfits) hrange.2

theorem mul_le_mul_maturity (amount seconds : ℕ) :
    (amount : ℤ) * seconds ≤ amount * (max seconds 1 : ℕ) :=
  mul_le_mul_of_nonneg_left (by exact_mod_cast le_max_left _ _) (Int.natCast_nonneg _)

/-- The coin seconds of a balance that is created for a deposit. -/
theorem lazyEarned_eq {ovbid : Option ℕ} {amount reqVestingSeconds : ℕ} {reqOwner : AccountId}
    {requireVesting : Bool}
    (h : s.FitsIn (.depositLazy ovbid amount reqVestingSeconds reqOwner requireVesting)) :
    (if requireVesting then 0 else uint128 (int64 (amount * reqVestingSeconds))) =
      if requireVesting then 0 else (amount * reqVestingSeconds : ℤ) := by
  have hnonneg : (0 : ℤ) ≤ amount * reqVestingSeconds := by positivity
  cases requireVesting with
  | true => rw [if_pos rfl, if_pos rfl]
  | false =>
      have hlt := (mul_le_mul_maturity amount reqVestingSeconds).trans_lt (product_of_fitsIn h)
      rw [if_neg Bool.false_ne_true, if_neg Bool.false_ne_true, int64_of_mem hnonneg hlt,
        uint128_of_mem hnonneg (by omega)]

theorem maturity_le_of_lt {seconds : ℕ} (h : seconds < 2 ^ 32) : max seconds 1 ≤ 2 ^ 32 :=
  max_le h.le (by norm_num)

theorem sound_of_created (htyped : event.WellTyped) (hfits : s.FitsIn event)
    (h : Created event s.now vbo) : vbo.Sound s.now := by
  intro p hp
  cases h with
  | operation op hevent hvalid =>
      rw [hevent] at htyped
      obtain ⟨hrange, hseconds⟩ := htyped
      cases hpolicy : op.policy with
      | linear i =>
          rw [hpolicy] at hp
          cases hp
      | cdd i =>
          rw [hpolicy] at hp
          cases hp
          exact ⟨hvalid.le, hrange.2, maturity_le_of_lt (hseconds i hpolicy), le_rfl,
            mul_nonneg hvalid.le (Int.natCast_nonneg _), le_rfl⟩
  | lazy ovbid amount reqVestingSeconds reqOwner requireVesting hevent =>
      rw [hevent] at htyped hfits
      obtain ⟨hrange, hseconds⟩ := htyped
      cases hp
      have hproduct := mul_le_mul_maturity amount reqVestingSeconds
      have hnonneg : (0 : ℤ) ≤ amount * reqVestingSeconds := by positivity
      have hearned := lazyEarned_eq hfits
      refine ⟨Int.natCast_nonneg _, hrange.2, maturity_le_of_lt hseconds, ?_, ?_, le_rfl⟩
      · dsimp only
        rw [hearned]
        split_ifs
        exacts [le_rfl, hnonneg]
      · dsimp only
        rw [hearned]
        split_ifs
        exacts [hnonneg.trans hproduct, hproduct]

/-- What the steps of a run have to meet. -/
def InBounds (s : VestingState) (event : VestingEvent) : Prop :=
  event.WellTyped ∧ (s.step event).now < 2 ^ 32 ∧ s.FitsIn event

theorem sound_step (hsound : ∀ id vbo, s.balances.find id = some vbo → vbo.Sound s.now)
    (hbounds : s.InBounds event) (id : ℕ) (vbo : VestingBalanceObject)
    (hid : (s.step event).balances.find id = some vbo) : vbo.Sound (s.step event).now := by
  obtain ⟨htyped, hlt, hfits⟩ := hbounds
  have hle := now_le_step s event
  have heffect := effect_step s event
  have hsame : vbo.Sound s.now := by
    cases hfind : s.balances.find id with
    | none => exact sound_of_created htyped hfits (heffect.created id vbo hfind hid)
    | some x =>
        obtain ⟨y, hy, htouched⟩ := heffect.touched id x hfind
        obtain rfl := Option.some.inj (hy.symm.trans hid)
        exact sound_of_touched (hsound id x hfind) le_rfl (hle.trans_lt hlt) hfits htouched
  intro p hp
  obtain ⟨hnonneg, hlt, hmaturity, hearned, hearnedLe, hupdated⟩ := hsame p hp
  exact ⟨hnonneg, hlt, hmaturity, hearned, hearnedLe, hupdated.trans hle⟩

theorem sound_of_reaches (hstart : start.balances = .empty)
    (hs : Run.Reaches VestingState.step InBounds start s) (id : ℕ) (vbo : VestingBalanceObject)
    (hid : s.balances.find id = some vbo) : vbo.Sound s.now := by
  revert id vbo
  refine hs.invariant
    (fun s ↦ ∀ id vbo, s.balances.find id = some vbo → VestingBalanceObject.Sound s.now vbo) ?_ ?_
  · intro id vbo hid
    rw [hstart] at hid
    cases hid
  · intro s event hsound hbounds
    exact sound_step hsound hbounds

/-! ## What the deposits promise -/

theorem le_getAllowedWithdraw {p : CddVestingPolicy} {balance : Asset} {amount : ℤ}
    (h : CddSound now balance p) (hnow : now ≤ t) (ht : t < 2 ^ 32) (hclaim : p.startClaim < t)
    (hearned : amount * p.maturity ≤ p.coinSecondsEarned) :
    amount ≤ (p.getAllowedWithdraw balance t).amount := by
  have hpos : (0 : ℤ) < p.maturity := by exact_mod_cast p.maturity_pos
  rw [CddVestingPolicy.getAllowedWithdraw_eq_div h hnow ht hclaim]
  exact (Int.le_ediv_iff_mul_le hpos).mpr
    (hearned.trans (CddVestingPolicy.compute_bounds h hnow ht).2.1)

/-- A lazy deposit goes into the balance that can be reused, or else creates one. -/
theorem depositLazyVesting_cases {ovbid oid : Option ℕ} {amount reqVestingSeconds : ℕ}
    {reqOwner : AccountId} {requireVesting : Bool} (hamount : 0 < amount)
    (h : s.depositLazyVesting ovbid amount reqVestingSeconds reqOwner requireVesting
      = .ok (oid, s')) :
    (∃ id vbo vbo', ovbid = some id ∧ oid = none ∧ s.balances.find id = some vbo ∧
      Reusable reqVestingSeconds reqOwner vbo ∧
      vbo.depositEither requireVesting s.now ⟨amount, 0⟩ = .ok vbo' ∧
      s' = { s with balances := s.balances.set id vbo' }) ∨
    (oid = some s.balances.nextId ∧
      (∀ id vbo, ovbid = some id → s.balances.find id = some vbo →
        ¬Reusable reqVestingSeconds reqOwner vbo) ∧
      s' = { s with balances := s.balances.create (lazyBalance amount reqVestingSeconds reqOwner
        requireVesting s.now) }) := by
  unfold depositLazyVesting at h
  rw [if_neg (by exact_mod_cast hamount.ne')] at h
  simp only [Checked.bind_eq_ok] at h
  obtain ⟨r, hr, h⟩ := h
  cases r with
  | none =>
      cases h
      refine .inr ⟨rfl, ?_, rfl⟩
      rintro id vbo rfl hid hreusable
      simp only [reusableBalance, Checked.bind_eq_ok, get_eq_ok, Checked.pure_eq_ok] at hr
      obtain ⟨x, hx, hr⟩ := hr
      obtain rfl := Option.some.inj (hid.symm.trans hx)
      rw [if_pos hreusable] at hr
      cases hr
  | some x =>
      obtain ⟨id, vbo⟩ := x
      obtain hnone | ⟨id', vbo₁, heq, hid, hvbo, hreusable⟩ := reusableBalance_eq_ok hr
      · cases hnone
      · cases heq
        simp only [Checked.bind_eq_ok, depositInto, Checked.pure_eq_ok] at h
        obtain ⟨t, ⟨vbo', hdeposit, rfl⟩, h⟩ := h
        cases h
        exact .inl ⟨id, vbo, vbo', hid, rfl, hvbo, hreusable, hdeposit, rfl⟩

/-- What a run that stays in bounds promises the owners of coin-days balances. -/
structure CoinDaysMeets (s : VestingState) : Prop where
  bounded : ∀ id vbo p, s.balances.find id = some vbo → vbo.policy = .cdd p →
    0 ≤ p.coinSecondsEarned ∧
      p.coinSecondsEarned ≤ vbo.balance.amount * (max p.vestingSeconds 1 : ℕ) ∧
      ∀ t, s.now ≤ t → t < 2 ^ 32 → 0 ≤ (vbo.getAllowedWithdraw t).amount ∧
        (vbo.getAllowedWithdraw t).amount ≤ vbo.balance.amount
  vested_at_once : ∀ ovbid oid amount reqVestingSeconds reqOwner s',
    s.InBounds (.depositLazy ovbid amount reqVestingSeconds reqOwner false) → 0 < amount →
    s.depositLazyVesting ovbid amount reqVestingSeconds reqOwner false = .ok (oid, s') →
    ∃ id vbo p, (oid = some id ∨ oid = none ∧ ovbid = some id) ∧
      s'.balances.find id = some vbo ∧ vbo.policy = .cdd p ∧
      (p.startClaim < s'.now → amount ≤ (vbo.getAllowedWithdraw s'.now).amount)
  fresh_as_existing : ∀ id vbo p amount requireVesting s₁ s₂,
    s.balances.find id = some vbo → vbo.policy = .cdd p → vbo.balance = ⟨0, 0⟩ →
    p.startClaim = 0 → 0 < amount →
    s.InBounds (.depositLazy none amount p.vestingSeconds vbo.owner requireVesting) →
    s.depositLazyVesting (some id) amount p.vestingSeconds vbo.owner requireVesting
      = .ok (none, s₁) →
    s.depositLazyVesting none amount p.vestingSeconds vbo.owner requireVesting
      = .ok (some s.balances.nextId, s₂) →
    ∃ reused fresh, s₁.balances.find id = some reused ∧
      s₂.balances.find s.balances.nextId = some fresh ∧
      ∀ t, s.now ≤ t → reused.getAllowedWithdraw t = fresh.getAllowedWithdraw t

theorem vested_at_once (hsound : ∀ id vbo, s.balances.find id = some vbo → vbo.Sound s.now)
    {ovbid oid : Option ℕ} {amount reqVestingSeconds : ℕ} {reqOwner : AccountId}
    (hbounds : s.InBounds (.depositLazy ovbid amount reqVestingSeconds reqOwner false))
    (hamount : 0 < amount)
    (h : s.depositLazyVesting ovbid amount reqVestingSeconds reqOwner false = .ok (oid, s')) :
    ∃ id vbo p, (oid = some id ∨ oid = none ∧ ovbid = some id) ∧
      s'.balances.find id = some vbo ∧ vbo.policy = .cdd p ∧
      (p.startClaim < s'.now → amount ≤ (vbo.getAllowedWithdraw s'.now).amount) := by
  have hstep : s.step (.depositLazy ovbid amount reqVestingSeconds reqOwner false) = s' := by
    simp only [VestingState.step, applyEvent, h]
    rfl
  have hsound' := sound_step hsound hbounds
  obtain ⟨-, hlt, hfits⟩ := hbounds
  rw [hstep] at hsound' hlt
  have hproduct := product_of_fitsIn hfits
  obtain ⟨id, vbo, vbo', rfl, rfl, hid, hreusable, hdeposit, rfl⟩ | ⟨rfl, hnone, rfl⟩ :=
    depositLazyVesting_cases hamount h
  · obtain ⟨p, hp, rfl, rfl⟩ := reusable_iff.mp hreusable
    have hid' : (s.balances.set id vbo').find id = some vbo' := by
      rw [ObjectIndex.find_set hid, if_pos rfl]
    simp only [VestingBalanceObject.depositEither, VestingBalanceObject.depositVested, hp,
      Bool.false_eq_true, if_false, Checked.bind_eq_ok, Asset.add_eq_ok, Checked.pure_eq_ok,
      Except.ok.injEq] at hdeposit
    obtain ⟨policy, rfl, balance, ⟨-, hrange, rfl⟩, rfl⟩ := hdeposit
    refine ⟨id, _, _, .inr ⟨rfl, rfl⟩, hid', rfl, fun hclaim ↦ ?_⟩
    refine le_getAllowedWithdraw (hsound' id _ hid' _ rfl) le_rfl hlt hclaim ?_
    have hold := hsound id vbo hid p hp
    have hamount0 : 0 ≤ (Asset.mk (amount : ℤ) 0).amount := Int.natCast_nonneg amount
    rw [CddVestingPolicy.onDepositVested_eq hold le_rfl hlt hamount0 hproduct]
    exact le_add_of_nonneg_left (CddVestingPolicy.compute_bounds hold le_rfl hlt).1
  · have hid' : (s.balances.create
        (lazyBalance amount reqVestingSeconds reqOwner false s.now)).find s.balances.nextId =
        some (lazyBalance amount reqVestingSeconds reqOwner false s.now) := by
      rw [ObjectIndex.find_create, if_pos rfl]
    refine ⟨s.balances.nextId, _, _, .inl rfl, hid', rfl, fun hclaim ↦ ?_⟩
    refine le_getAllowedWithdraw (hsound' _ _ hid' _ rfl) le_rfl hlt hclaim ?_
    have hseconds : reqVestingSeconds ≠ 0 := by
      intro hzero
      obtain hnothing | ⟨id, vbo, rfl, hid, hreusable⟩ := hfits.2 hzero
      · exact hamount.ne' hnothing
      · exact hnone id vbo rfl hid hreusable
    have hearned := lazyEarned_eq hfits
    rw [if_neg Bool.false_ne_true, if_neg Bool.false_ne_true] at hearned
    have hmaturity : max reqVestingSeconds 1 = reqVestingSeconds :=
      max_eq_left (Nat.one_le_iff_ne_zero.mpr hseconds)
    change (amount : ℤ) * (max reqVestingSeconds 1 : ℕ) ≤
      if false = true then 0 else uint128 (int64 (amount * reqVestingSeconds))
    rw [if_neg Bool.false_ne_true, hearned, hmaturity]

/-- The coin seconds of an empty balance stay at zero. -/
theorem compute_of_empty {p : CddVestingPolicy} {balance : Asset} (h : CddSound now balance p)
    (hempty : balance.amount = 0) (hnow : now ≤ t) (ht : t < 2 ^ 32) :
    p.computeCoinSecondsEarned balance t = 0 := by
  obtain ⟨hnonneg, -, hle⟩ := CddVestingPolicy.compute_bounds h hnow ht
  rw [hempty, zero_mul] at hle
  exact hle.antisymm hnonneg

/-- The policy of an empty balance after a deposit is that of a balance created for it. -/
theorem depositEither_of_empty {p : CddVestingPolicy} {amount : ℕ} {requireVesting : Bool}
    (hsound : vbo.Sound s.now) (hlt : s.now < 2 ^ 32) (hp : vbo.policy = .cdd p)
    (hempty : vbo.balance = ⟨0, 0⟩) (hclaim : p.startClaim = 0) (hamount : 0 < amount)
    (hfits : s.FitsIn (.depositLazy none amount p.vestingSeconds vbo.owner requireVesting))
    (h : vbo.depositEither requireVesting s.now ⟨amount, 0⟩ = .ok vbo') :
    vbo'.policy = (lazyBalance amount p.vestingSeconds vbo.owner requireVesting s.now).policy ∧
      vbo'.balance = ⟨amount, 0⟩ := by
  have hold := hsound p hp
  have hcompute := compute_of_empty hold (by rw [hempty]) le_rfl hlt
  have hearned := lazyEarned_eq hfits
  cases requireVesting with
  | true =>
      simp only [VestingBalanceObject.depositEither, VestingBalanceObject.deposit, hp, if_true,
        Checked.bind_eq_ok, Asset.add_eq_ok, Checked.pure_eq_ok] at h
      obtain ⟨balance, ⟨-, -, rfl⟩, rfl⟩ := h
      constructor
      · simp only [lazyBalance, if_true, CddVestingPolicy.onDeposit,
          CddVestingPolicy.updateCoinSecondsEarned, hcompute, hclaim]
      · simp only [hempty, zero_add]
  | false =>
      have hproduct := product_of_fitsIn hfits
      have hseconds : p.vestingSeconds ≠ 0 := by
        intro hzero
        obtain hnothing | ⟨id, vbo, hnone, -⟩ := hfits.2 hzero
        · exact hamount.ne' hnothing
        · cases hnone
      have hmaturity : p.maturity = p.vestingSeconds :=
        max_eq_left (Nat.one_le_iff_ne_zero.mpr hseconds)
      have hamount0 : 0 ≤ (Asset.mk (amount : ℤ) 0).amount := Int.natCast_nonneg amount
      have hvested := CddVestingPolicy.onDepositVested_eq hold le_rfl hlt hamount0 hproduct
      simp only [VestingBalanceObject.depositEither, VestingBalanceObject.depositVested, hp,
        Bool.false_eq_true, if_false, Checked.bind_eq_ok, Asset.add_eq_ok, Checked.pure_eq_ok,
        Except.ok.injEq] at h
      obtain ⟨policy, rfl, balance, ⟨-, -, rfl⟩, rfl⟩ := h
      rw [if_neg Bool.false_ne_true, if_neg Bool.false_ne_true] at hearned
      constructor
      · simp only [lazyBalance, Bool.false_eq_true, if_false, hvested, hearned,
          CddVestingPolicy.onDeposit, CddVestingPolicy.updateCoinSecondsEarned, hcompute, hclaim,
          hmaturity, zero_add]
      · simp only [hempty, zero_add]

theorem fresh_as_existing (hsound : ∀ id vbo, s.balances.find id = some vbo → vbo.Sound s.now)
    {p : CddVestingPolicy} {amount : ℕ} {requireVesting : Bool} {s₁ s₂ : VestingState}
    (hid : s.balances.find id = some vbo) (hp : vbo.policy = .cdd p)
    (hempty : vbo.balance = ⟨0, 0⟩) (hclaim : p.startClaim = 0) (hamount : 0 < amount)
    (hbounds : s.InBounds (.depositLazy none amount p.vestingSeconds vbo.owner requireVesting))
    (h₁ : s.depositLazyVesting (some id) amount p.vestingSeconds vbo.owner requireVesting
      = .ok (none, s₁))
    (h₂ : s.depositLazyVesting none amount p.vestingSeconds vbo.owner requireVesting
      = .ok (some s.balances.nextId, s₂)) :
    ∃ reused fresh, s₁.balances.find id = some reused ∧
      s₂.balances.find s.balances.nextId = some fresh ∧
      ∀ t, s.now ≤ t → reused.getAllowedWithdraw t = fresh.getAllowedWithdraw t := by
  obtain ⟨-, hlt, hfits⟩ := hbounds
  have hnow := (now_le_step s _).trans_lt hlt
  obtain ⟨key, x, vbo', heq, -, hx, -, hdeposit, rfl⟩ | ⟨hsome, -⟩ :=
    depositLazyVesting_cases hamount h₁
  · obtain rfl := Option.some.inj heq
    obtain rfl := Option.some.inj (hid.symm.trans hx)
    obtain ⟨_, _, _, hnone, -⟩ | ⟨-, -, rfl⟩ := depositLazyVesting_cases hamount h₂
    · cases hnone
    · obtain ⟨hpolicy, hbalance⟩ := depositEither_of_empty (hsound id vbo hid) hnow hp hempty hclaim
        hamount hfits hdeposit
      refine ⟨vbo', lazyBalance amount p.vestingSeconds vbo.owner requireVesting s.now, ?_, ?_, ?_⟩
      · rw [ObjectIndex.find_set hid, if_pos rfl]
      · rw [ObjectIndex.find_create, if_pos rfl]
      · intro t _
        unfold VestingBalanceObject.getAllowedWithdraw
        rw [hpolicy, hbalance]
        rfl
  · cases hsome

/-- As long as no product of a vested deposit overflows and none matures at once in a new balance,
coin-days balances keep their promises in every state of a run. -/
theorem coinDaysMeets_of_reaches (hstart : start.balances = .empty)
    (hs : Run.Reaches VestingState.step InBounds start s) : CoinDaysMeets s where
  bounded id vbo p hid hp := by
    have h := sound_of_reaches hstart hs id vbo hid p hp
    refine ⟨h.earned_nonneg, h.earned_le, fun t ht hlt ↦ ?_⟩
    simp only [VestingBalanceObject.getAllowedWithdraw, hp]
    exact CddVestingPolicy.getAllowedWithdraw_bounds h ht hlt
  vested_at_once ovbid oid amount reqVestingSeconds reqOwner s' hbounds hamount h :=
    vested_at_once (sound_of_reaches hstart hs) hbounds hamount h
  fresh_as_existing id vbo p amount requireVesting s₁ s₂ hid hp hempty hclaim hamount hbounds h₁ h₂ :=
    fresh_as_existing (sound_of_reaches hstart hs) hid hp hempty hclaim hamount hbounds h₁ h₂

theorem coinDaysMeets_deposited :
    CoinDaysMeets (step ⟨100, .empty⟩ (.depositLazy none 50 10 7 false)) :=
  coinDaysMeets_of_reaches rfl (Run.Reaches.next (VestingEvent.depositLazy none 50 10 7 false) .refl
    ⟨⟨by decide, by decide⟩, by decide, by decide, fun h ↦ by cases h⟩)

/-- Four million core of vested cashback, which mature in a year. -/
def largeCashback : VestingState := step ⟨100, .empty⟩ (.depositLazy none 400000000000 31536000 7 false)

/-- The product of the amount and the seconds of a year overflows, and a vested deposit that
matures at once cannot be withdrawn at once. -/
theorem not_coinDaysMeets_largeCashback : ¬CoinDaysMeets largeCashback ∧
    ∃ vbo, (step ⟨100, .empty⟩ (.depositLazy none 50 0 7 false)).balances.find 0 = some vbo ∧
      (vbo.getAllowedWithdraw 100).amount = 0 := by
  constructor
  · intro h
    have hfind : largeCashback.balances.find 0 =
        some (lazyBalance 400000000000 31536000 7 false 100) := by rfl
    obtain ⟨-, hle, -⟩ := h.bounded 0 _ _ hfind rfl
    exact absurd hle (by decide)
  · exact ⟨lazyBalance 50 0 7 false 100, by rfl, by decide⟩

end VestingState

end KarmaCore.Vesting
