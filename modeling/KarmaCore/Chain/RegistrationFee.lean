import Mathlib
import KarmaCore.Chain.GlobalParameters

/-!
# The scaling of the registration fee

Account creation shifts its fee left at every multiple of
`accounts_per_fee_scale`, and the maintenance shifts it right once by the
product of the shift and their number.  The two cancel as long as no bit leaves
the word and every shift is by less than its width.
-/

namespace KarmaCore.Chain

/-! ## Shifts of a word -/

theorem ofNat_shiftLeft {a b : ℕ} (hb : b < 64) :
    UInt64.ofNat a <<< UInt64.ofNat b = UInt64.ofNat (a * 2 ^ b) := by
  apply UInt64.toNat_inj.mp
  rw [UInt64.toNat_shiftLeft, UInt64.toNat_ofNat', UInt64.toNat_ofNat', UInt64.toNat_ofNat',
    Nat.mod_eq_of_lt (by omega : b < 2 ^ 64), Nat.mod_eq_of_lt hb, Nat.shiftLeft_eq, Nat.mod_mul_mod]

/-- The width of the word divides the number of its values. -/
theorem toNat_shiftRight_ofNat (x : UInt64) (c : ℕ) :
    (x >>> UInt64.ofNat c).toNat = x.toNat / 2 ^ (c % 64) := by
  have hc : c % 2 ^ 64 % 64 = c % 64 := Nat.mod_mod_of_dvd c (by norm_num)
  rw [UInt64.toNat_shiftRight, UInt64.toNat_ofNat', hc, Nat.shiftRight_eq_div_pow]

/-! ## The scalings of an interval -/

/-- How many of the first `n` registrations scale the fee.  The counter is a `uint32_t`. -/
def scalings (accountsPerFeeScale n : ℕ) : ℕ :=
  Nat.count (fun i ↦ uint32 (i + 1) % accountsPerFeeScale = 0) n

theorem scalings_succ (k n : ℕ) :
    scalings k (n + 1) = scalings k n + if uint32 (n + 1) % k = 0 then 1 else 0 :=
  Nat.count_succ _ n

theorem scalings_mono (k : ℕ) : Monotone (scalings k) := Nat.count_monotone _

/-- Until the counter wraps, these are the multiples the maintenance divides out. -/
theorem scalings_eq_div {k n : ℕ} (hn : n < 2 ^ 32) : scalings k n = n / k := by
  induction n with
  | zero => simp [scalings]
  | succ n ih =>
      have hcounter : uint32 (n + 1) = n + 1 := Nat.mod_eq_of_lt hn
      rw [scalings_succ, ih (by omega), hcounter, Nat.succ_div]
      simp only [Nat.dvd_iff_mod_eq_zero]

/-- A counter that wraps has scaled the fee by more than a word can hold. -/
theorem lt_scalings_of_wrap {k n : ℕ} (hk : k < 2 ^ 16) (hk0 : k ≠ 0) (hn : 2 ^ 32 ≤ n) :
    64 < scalings k n := by
  have hmono : scalings k (2 ^ 32 - 1) ≤ scalings k n := scalings_mono k (by omega)
  have hdiv : (2 ^ 32 - 1) / (2 ^ 16 - 1) ≤ (2 ^ 32 - 1) / k :=
    Nat.div_le_div_left (by omega) (by omega)
  rw [scalings_eq_div (by norm_num)] at hmono
  omega

namespace ParameterState

/-! ## Registrations -/

def register : ℕ → ParameterState → Dividing ParameterState
  | 0, s => .ok s
  | n + 1, s => do
      let s ← s.register n
      s.createAccount

/-- The state after `n` registrations, the fee as if it had been shifted once. -/
def registered (n : ℕ) (s : ParameterState) : ParameterState :=
  { s with
    accountsRegisteredThisInterval := uint32 n
    parameters.accountCreateBasicFee := UInt64.ofNat (s.parameters.accountCreateBasicFee.toNat *
      2 ^ (s.parameters.accountFeeScaleBitshifts * scalings s.parameters.accountsPerFeeScale n)) }

variable {s : ParameterState} {n : ℕ}

theorem registered_zero (h : s.accountsRegisteredThisInterval = 0) : s.registered 0 = s := by
  have hfee : UInt64.ofNat (s.parameters.accountCreateBasicFee.toNat *
      2 ^ (s.parameters.accountFeeScaleBitshifts * scalings s.parameters.accountsPerFeeScale 0)) =
        s.parameters.accountCreateBasicFee := by
    simp [scalings]
  have hcount : uint32 0 = s.accountsRegisteredThisInterval := h.symm
  rw [registered, hfee, hcount]

/-- If the next registration scales the fee, then by less than its width. -/
def CreationShiftDefined (s : ParameterState) : Prop :=
  uint32 (s.accountsRegisteredThisInterval + 1) % s.parameters.accountsPerFeeScale = 0 →
    s.parameters.accountFeeScaleBitshifts < 64

/-- The maintenance shifts by less than the width of the fee.  The product is a `uint32_t`. -/
def RemovalShiftDefined (s : ParameterState) : Prop :=
  uint32 (s.parameters.accountFeeScaleBitshifts *
    (s.accountsRegisteredThisInterval / s.parameters.accountsPerFeeScale)) < 64

theorem creationShiftDefined_registered :
    (s.registered n).CreationShiftDefined ↔
      (uint32 (n + 1) % s.parameters.accountsPerFeeScale = 0 →
        s.parameters.accountFeeScaleBitshifts < 64) := by
  have hcounter : uint32 (uint32 n + 1) = uint32 (n + 1) := Nat.mod_add_mod n (2 ^ 32) 1
  simp only [CreationShiftDefined, registered, hcounter]

theorem createAccount_registered (hk : s.parameters.accountsPerFeeScale ≠ 0)
    (hshift : (s.registered n).CreationShiftDefined) :
    (s.registered n).createAccount = .ok (s.registered (n + 1)) := by
  have hcounter : uint32 (uint32 n + 1) = uint32 (n + 1) := Nat.mod_add_mod n (2 ^ 32) 1
  rw [creationShiftDefined_registered] at hshift
  simp only [createAccount, registered, remainder, hk, if_false, hcounter, scalings_succ, bind,
    Except.bind, pure, Except.pure]
  by_cases hscale : uint32 (n + 1) % s.parameters.accountsPerFeeScale = 0
  · rw [if_pos hscale, if_pos hscale, ofNat_shiftLeft (hshift hscale), mul_add, pow_add, mul_one,
      mul_assoc]
  · rw [if_neg hscale, if_neg hscale, add_zero]

/-- Registrations whose shifts are defined. -/
theorem register_eq (hk : s.parameters.accountsPerFeeScale ≠ 0)
    (hstart : s.accountsRegisteredThisInterval = 0)
    (hshift : ∀ m < n, (s.registered m).CreationShiftDefined) :
    s.register n = .ok (s.registered n) := by
  induction n with
  | zero => rw [registered_zero hstart, register]
  | succ n ih =>
      have hn := ih fun m hm ↦ hshift m (by omega)
      simp only [register, hn, bind, Except.bind]
      exact createAccount_registered hk (hshift n n.lt_succ_self)

/-- Without a number of accounts the first registration divides by zero. -/
theorem register_succ_of_zero (hk : s.parameters.accountsPerFeeScale = 0) (n : ℕ) :
    s.register (n + 1) = .error .divisionByZero := by
  induction n with
  | zero => simp [register, createAccount, remainder, hk, bind, Except.bind]
  | succ n ih => rw [register, ih, bind]; rfl

/-! ## One interval -/

/-- The fee does not decrease while accounts are registered, and the maintenance
restores the parameters. -/
structure ScalingUndone (n : ℕ) (s : ParameterState) : Prop where
  shifts : ∀ m < n, ∀ t, s.register m = .ok t → t.CreationShiftDefined
  increasing : ∀ l m, l ≤ m → m ≤ n → ∀ t u, s.register l = .ok t → s.register m = .ok u →
    t.parameters.accountCreateBasicFee ≤ u.parameters.accountCreateBasicFee
  restored : ∃ t u, s.register n = .ok t ∧ t.RemovalShiftDefined ∧ t.removeScaling = .ok u ∧
    u.parameters = s.parameters

end ParameterState

/-- No bit of the fee leaves the word, and all shifts are by less than its width. -/
structure GlobalParameters.ScalingCancels (p : GlobalParameters) (n : ℕ) : Prop where
  divides : p.accountsPerFeeScale ≠ 0
  width : scalings p.accountsPerFeeScale n ≠ 0 → p.accountFeeScaleBitshifts < 64
  fits : p.accountCreateBasicFee.toNat *
    2 ^ (p.accountFeeScaleBitshifts * scalings p.accountsPerFeeScale n) < 2 ^ 64
  removal : uint32 (p.accountFeeScaleBitshifts * (uint32 n / p.accountsPerFeeScale)) < 64

/-- A number shifted left in a word and right again is itself as long as it fits. -/
theorem mod_div_two_pow_eq_iff {f c : ℕ} (hc : c ≤ 64) :
    f * 2 ^ c % 2 ^ 64 / 2 ^ c = f ↔ f * 2 ^ c < 2 ^ 64 := by
  constructor
  · intro h
    have hlt : f * 2 ^ c % 2 ^ 64 / 2 ^ c < 2 ^ 64 / 2 ^ c := by
      apply Nat.div_lt_div_of_lt_of_dvd (pow_dvd_pow 2 hc)
      exact Nat.mod_lt _ (by positivity)
    rw [h] at hlt
    rw [mul_comm]
    exact (Nat.lt_div_iff_mul_lt' (pow_dvd_pow 2 hc) f).mp hlt
  · intro h
    rw [Nat.mod_eq_of_lt h, Nat.mul_div_cancel _ (by positivity)]

/-- The shift at maintenance undoes those of the registrations. -/
theorem shifted_back_iff {f b k n : ℕ} (hk : k < 2 ^ 16) (hk0 : k ≠ 0) :
    f * 2 ^ (b * scalings k n) % 2 ^ 64 / 2 ^ (b * (uint32 n / k) % 64) = f ↔
      f * 2 ^ (b * scalings k n) < 2 ^ 64 := by
  rcases Nat.eq_zero_or_pos f with rfl | hpos
  · simp
  rcases Nat.eq_zero_or_pos b with rfl | hb
  · simp
  by_cases hwide : b * scalings k n < 64
  · -- so few scalings that the counter has not wrapped
    have hn : n < 2 ^ 32 := by
      by_contra hwrap
      have := lt_scalings_of_wrap hk hk0 (not_lt.mp hwrap)
      have := Nat.le_mul_of_pos_left (scalings k n) hb
      omega
    have hcounter : uint32 n = n := Nat.mod_eq_of_lt hn
    rw [hcounter, ← scalings_eq_div hn, Nat.mod_eq_of_lt hwide]
    exact mod_div_two_pow_eq_iff hwide.le
  · -- the whole word has been shifted out
    have hout : 2 ^ 64 ∣ f * 2 ^ (b * scalings k n) :=
      (pow_dvd_pow 2 (not_lt.mp hwide)).trans (Nat.dvd_mul_left _ _)
    have hle : 2 ^ 64 ≤ f * 2 ^ (b * scalings k n) :=
      Nat.le_of_dvd (by positivity) hout
    rw [Nat.dvd_iff_mod_eq_zero.mp hout, Nat.zero_div]
    omega

namespace ParameterState

variable {s : ParameterState} {n : ℕ}

theorem removeScaling_registered (hk : s.parameters.accountsPerFeeScale < 2 ^ 16)
    (hk0 : s.parameters.accountsPerFeeScale ≠ 0) :
    ∃ u, (s.registered n).removeScaling = .ok u ∧
      (u.parameters = s.parameters ↔ s.parameters.accountCreateBasicFee.toNat *
        2 ^ (s.parameters.accountFeeScaleBitshifts * scalings s.parameters.accountsPerFeeScale n) <
          2 ^ 64) := by
  let c := s.parameters.accountFeeScaleBitshifts * (uint32 n / s.parameters.accountsPerFeeScale)
  let fee := (s.registered n).parameters.accountCreateBasicFee >>> UInt64.ofNat c
  have hremove : (s.registered n).removeScaling =
      .ok { s.registered n with parameters.accountCreateBasicFee := fee } := by
    have hdivide : divide (s.registered n).accountsRegisteredThisInterval
        (s.registered n).parameters.accountsPerFeeScale =
          .ok (uint32 n / s.parameters.accountsPerFeeScale) := if_neg hk0
    rw [removeScaling, hdivide]
    rfl
  refine ⟨_, hremove, ?_⟩
  have hfee : fee.toNat = s.parameters.accountCreateBasicFee.toNat *
      2 ^ (s.parameters.accountFeeScaleBitshifts * scalings s.parameters.accountsPerFeeScale n) %
        2 ^ 64 / 2 ^ (c % 64) := by
    rw [toNat_shiftRight_ofNat, registered, UInt64.toNat_ofNat']
  rw [← shifted_back_iff hk hk0, ← hfee, UInt64.toNat_inj]
  constructor
  · intro h
    exact congrArg GlobalParameters.accountCreateBasicFee h
  · intro h
    rw [h]
    rfl

/-- The shifts that are defined, by the counts. -/
theorem creationShifts_iff :
    (∀ m < n, (s.registered m).CreationShiftDefined) ↔
      (scalings s.parameters.accountsPerFeeScale n ≠ 0 →
        s.parameters.accountFeeScaleBitshifts < 64) := by
  simp only [creationShiftDefined_registered]
  constructor
  · intro h hpos
    obtain ⟨m, hm, hscale⟩ := Nat.count_ne_iff_exists.mp hpos
    exact h m hm hscale
  · intro h m hm hscale
    exact h (Nat.count_ne_iff_exists.mpr ⟨m, hm, hscale⟩)

theorem ScalingUndone.divides (h : s.ScalingUndone n) : s.parameters.accountsPerFeeScale ≠ 0 := by
  intro hk
  obtain ⟨t, u, hregister, -, hremove, -⟩ := h.restored
  cases n with
  | zero =>
      obtain rfl := Except.ok.inj hregister
      simp [removeScaling, divide, hk, bind, Except.bind] at hremove
  | succ n => simp [register_succ_of_zero hk n] at hregister

/-- Where they are asked for, the registered states are these. -/
theorem ScalingUndone.creationShifts (h : s.ScalingUndone n)
    (hstart : s.accountsRegisteredThisInterval = 0) :
    ∀ m < n, (s.registered m).CreationShiftDefined := by
  intro m
  induction m using Nat.strong_induction_on with
  | _ m ih =>
      intro hm
      apply h.shifts m hm
      exact register_eq h.divides hstart fun l hl ↦ ih l hl (hl.trans hm)

theorem fee_registered_mono {l m : ℕ} (hle : l ≤ m)
    (hfits : s.parameters.accountCreateBasicFee.toNat * 2 ^ (s.parameters.accountFeeScaleBitshifts *
      scalings s.parameters.accountsPerFeeScale m) < 2 ^ 64) :
    (s.registered l).parameters.accountCreateBasicFee ≤
      (s.registered m).parameters.accountCreateBasicFee := by
  have hexponents := Nat.mul_le_mul_left s.parameters.accountFeeScaleBitshifts
    (scalings_mono s.parameters.accountsPerFeeScale hle)
  have hfees := Nat.mul_le_mul_left s.parameters.accountCreateBasicFee.toNat
    (Nat.pow_le_pow_right (by norm_num : 0 < 2) hexponents)
  rw [UInt64.le_iff_toNat_le]
  simp only [registered, UInt64.toNat_ofNat']
  rwa [Nat.mod_eq_of_lt (hfees.trans_lt hfits), Nat.mod_eq_of_lt hfits]

/-- In one interval the scaling is undone exactly if the shifts cancel. -/
theorem scalingUndone_iff (hstart : s.accountsRegisteredThisInterval = 0)
    (hk : s.parameters.accountsPerFeeScale < 2 ^ 16) :
    s.ScalingUndone n ↔ s.parameters.ScalingCancels n := by
  constructor
  · intro h
    have hshifts := h.creationShifts hstart
    obtain ⟨t, u, hregister, hremoval, hremove, hrestored⟩ := h.restored
    rw [register_eq h.divides hstart hshifts] at hregister
    obtain rfl := Except.ok.inj hregister
    obtain ⟨u', hremove', hiff⟩ := removeScaling_registered (n := n) hk h.divides
    obtain rfl := Except.ok.inj (hremove'.symm.trans hremove)
    exact ⟨h.divides, creationShifts_iff.mp hshifts, hiff.mp hrestored, hremoval⟩
  · intro h
    have hshifts := creationShifts_iff.mpr h.width
    have hregister : ∀ m ≤ n, s.register m = .ok (s.registered m) := fun m hm ↦
      register_eq h.divides hstart fun l hl ↦ hshifts l (hl.trans_le hm)
    obtain ⟨u, hremove, hiff⟩ := removeScaling_registered (n := n) hk h.divides
    refine ⟨?_, ?_, s.registered n, u, hregister n le_rfl, h.removal, hremove, hiff.mpr h.fits⟩
    · intro m hm t ht
      obtain rfl := Except.ok.inj ((hregister m hm.le).symm.trans ht)
      exact hshifts m hm
    · intro l m hlm hmn t u' ht hu
      obtain rfl := Except.ok.inj ((hregister l (hlm.trans hmn)).symm.trans ht)
      obtain rfl := Except.ok.inj ((hregister m hmn).symm.trans hu)
      apply fee_registered_mono hlm
      have hexponents := Nat.mul_le_mul_left s.parameters.accountFeeScaleBitshifts
        (scalings_mono s.parameters.accountsPerFeeScale hmn)
      exact (Nat.mul_le_mul_left _ (Nat.pow_le_pow_right (by norm_num) hexponents)).trans_lt h.fits

end ParameterState

/-! ## Runs over intervals -/

/-- The accounts registered in an interval, the parameters its committee leaves
pending, and the block whose maintenance ends it. -/
structure Interval where
  registrations : ℕ
  update : Option GlobalParameters := none
  timestamp : ℕ
  blockNum : ℕ

namespace ParameterState

def propose (update : Option GlobalParameters) (s : ParameterState) : Dividing ParameterState :=
  match update with
  | some newParameters => s.updateGlobalParameters newParameters
  | none => .ok s

def runInterval (i : Interval) (s : ParameterState) : Dividing ParameterState := do
  let s ← s.register i.registrations
  let s ← s.propose i.update
  s.performChainMaintenance i.timestamp i.blockNum

/-- In every interval the scaling is undone, and the maintenance leaves the
parameters of its start or the ones that were pending. -/
def ScalingUndoneThrough : List Interval → ParameterState → Prop
  | [], _ => True
  | i :: intervals, s => s.ScalingUndone i.registrations ∧
      ∃ t, s.runInterval i = .ok t ∧ t.parameters = i.update.getD s.parameters ∧
        t.ScalingUndoneThrough intervals

end ParameterState

/-- The shifts cancel in every interval, each with the parameters then in force. -/
def GlobalParameters.ScalingCancelsThrough : List Interval → GlobalParameters → Prop
  | [], _ => True
  | i :: intervals, p => p.ScalingCancels i.registrations ∧
      (i.update.getD p).ScalingCancelsThrough intervals

/-- Parameters that passed `validate`, their number of accounts a `uint16_t`. -/
structure GlobalParameters.Accepted (p : GlobalParameters) : Prop where
  valid : p.validate = .ok ()
  accountsPerFeeScale : p.accountsPerFeeScale < 2 ^ 16

namespace ParameterState

/-- Nothing has happened yet since the last maintenance. -/
structure IntervalStart (s : ParameterState) : Prop where
  parameters : s.parameters.Accepted
  registered : s.accountsRegisteredThisInterval = 0
  pending : s.pendingParameters = none

variable {s t u : ParameterState} {n : ℕ}

theorem updateMaintenanceTime_start (timestamp blockNum : ℕ) (hp : s.parameters.Accepted)
    (hpending : s.pendingParameters = none) :
    ∃ t, s.updateMaintenanceTime timestamp blockNum = .ok t ∧ t.parameters = s.parameters ∧
      t.accountsRegisteredThisInterval = 0 ∧ t.pendingParameters = none := by
  have hinterval := (ChainParameters.intervals_of_validate hp.valid).2
  unfold updateMaintenanceTime
  dsimp only
  split_ifs
  · simp [divide, hinterval, hpending, bind, Except.bind, pure, Except.pure]
  · simp [divide, hinterval, hpending, bind, Except.bind, pure, Except.pure]
  · simp [hpending, pure, Except.pure]

/-- After the scaling, the maintenance only installs what is pending. -/
theorem performChainMaintenance_start (timestamp blockNum : ℕ) (hremove : s.removeScaling = .ok t)
    (hp : (t.pendingParameters.getD t.parameters).Accepted) :
    ∃ u, s.performChainMaintenance timestamp blockNum = .ok u ∧
      u.parameters = t.pendingParameters.getD t.parameters ∧ u.IntervalStart := by
  have hinstall : t.installParameters.parameters = t.pendingParameters.getD t.parameters ∧
      t.installParameters.pendingParameters = none := by
    unfold installParameters
    cases hpending : t.pendingParameters with
    | none => exact ⟨rfl, hpending⟩
    | some q => exact ⟨rfl, rfl⟩
  rw [← hinstall.1] at hp ⊢
  obtain ⟨v, htime, hparameters, hregistered, hpending⟩ :=
    updateMaintenanceTime_start timestamp blockNum hp hinstall.2
  have hblock := (ChainParameters.intervals_of_validate hp.valid).1
  have hbudget : ∃ pay, v.processBudget = .ok { v with requestedWitnessBudget := pay } := by
    simp [processBudget, divide, hparameters, hblock, bind, Except.bind, pure, Except.pure]
  obtain ⟨pay, hbudget⟩ := hbudget
  refine ⟨{ v with requestedWitnessBudget := pay }, ?_, hparameters, ⟨?_, hregistered, hpending⟩⟩
  · simp only [performChainMaintenance, hremove, htime, hbudget, bind, Except.bind]
  · exact hparameters ▸ hp

theorem removeScaling_pending (hremove : s.removeScaling = .ok t) (q : Option GlobalParameters) :
    { s with pendingParameters := q }.removeScaling = .ok { t with pendingParameters := q } := by
  simp only [removeScaling, Dividing.bind_eq_ok, Dividing.pure_eq_ok] at hremove ⊢
  obtain ⟨k, hk, rfl⟩ := hremove
  exact ⟨k, hk, rfl⟩

theorem propose_eq {update : Option GlobalParameters} (hpending : s.pendingParameters = none)
    (hupdate : ∀ q ∈ update, q.Accepted) :
    s.propose update = .ok { s with pendingParameters := update } := by
  cases update with
  | none => rw [propose, ← hpending]
  | some q => simp only [propose, updateGlobalParameters, (hupdate q rfl).valid]

/-- An interval whose scaling is undone ends in the parameters it began with, or
in those its committee has put in their place. -/
theorem ScalingUndone.runInterval {i : Interval} (hs : s.IntervalStart)
    (hupdate : ∀ q ∈ i.update, q.Accepted) (h : s.ScalingUndone i.registrations) :
    ∃ t, s.runInterval i = .ok t ∧ t.parameters = i.update.getD s.parameters ∧ t.IntervalStart := by
  obtain ⟨t, u, hregister, -, hremove, hrestored⟩ := h.restored
  have hregistered := register_eq h.divides hs.registered (h.creationShifts hs.registered)
  obtain rfl := Except.ok.inj (hregister.symm.trans hregistered)
  have hpropose : (s.registered i.registrations).propose i.update = .ok _ :=
    propose_eq hs.pending hupdate
  have haccepted : (i.update.getD u.parameters).Accepted := by
    cases hi : i.update with
    | none => exact hrestored ▸ hs.parameters
    | some q => exact hupdate q hi
  obtain ⟨v, hmaintenance, hparameters, hstart⟩ := performChainMaintenance_start i.timestamp
    i.blockNum (removeScaling_pending hremove i.update) haccepted
  refine ⟨v, ?_, ?_, hstart⟩
  · simp only [ParameterState.runInterval, hregister, hpropose, hmaintenance, bind, Except.bind]
  · rw [hparameters, ← hrestored]

/-- Through any intervals the scaling is undone exactly if the shifts cancel in each. -/
theorem scalingUndoneThrough_iff {intervals : List Interval} (hs : s.IntervalStart)
    (hupdates : ∀ i ∈ intervals, ∀ q ∈ i.update, q.Accepted) :
    s.ScalingUndoneThrough intervals ↔ s.parameters.ScalingCancelsThrough intervals := by
  induction intervals generalizing s with
  | nil => exact Iff.rfl
  | cons i intervals ih =>
      have hcancels := scalingUndone_iff (n := i.registrations) hs.registered
        hs.parameters.accountsPerFeeScale
      have hlater : ∀ j ∈ intervals, ∀ q ∈ j.update, q.Accepted := fun j hj ↦
        hupdates j (List.mem_cons_of_mem i hj)
      constructor
      · rintro ⟨hundone, t, hrun, hparameters, hrest⟩
        obtain ⟨t', hrun', -, hstart⟩ := hundone.runInterval hs (hupdates i List.mem_cons_self)
        obtain rfl := Except.ok.inj (hrun.symm.trans hrun')
        exact ⟨hcancels.mp hundone, hparameters ▸ (ih hstart hlater).mp hrest⟩
      · rintro ⟨hcancel, hrest⟩
        have hundone := hcancels.mpr hcancel
        obtain ⟨t, hrun, hparameters, hstart⟩ :=
          hundone.runInterval hs (hupdates i List.mem_cons_self)
        exact ⟨hundone, t, hrun, hparameters, (ih hstart hlater).mpr (hparameters ▸ hrest)⟩

/-- Five accounts at a scale of two, and new parameters for the next interval. -/
theorem scalingUndoneThrough_pair :
    ScalingUndoneThrough
      [{ registrations := 5, update := some { accountsPerFeeScale := 3 },
         timestamp := 86400, blockNum := 17280 },
       { registrations := 4, timestamp := 172800, blockNum := 34560 }]
      { parameters := { accountsPerFeeScale := 2 } } := by
  refine (scalingUndoneThrough_iff ⟨⟨by decide, by decide⟩, rfl, rfl⟩ ?_).mpr
    ⟨⟨by decide, by decide, by decide, by decide⟩, ⟨by decide, by decide, by decide, by decide⟩,
      trivial⟩
  intro i hi q hq
  obtain rfl | rfl := List.mem_pair.mp hi
  · obtain rfl := Option.some.inj hq
    exact ⟨by decide, by decide⟩
  · exact nomatch hq

/-- One account at a scale of one, with a shift of 63 bits. -/
def singleScale : ParameterState :=
  { parameters := { accountsPerFeeScale := 1, accountFeeScaleBitshifts := 63 } }

theorem singleScale_fee_lost :
    singleScale.parameters.validate = .ok () ∧
      singleScale.parameters.accountCreateBasicFee = 500000 ∧
      ∃ t, singleScale.runInterval { registrations := 1, timestamp := 86400, blockNum := 17280 } =
        .ok t ∧ t.parameters.accountCreateBasicFee = 0 :=
  ⟨by decide, rfl, _, rfl, by decide⟩

end ParameterState

end KarmaCore.Chain
