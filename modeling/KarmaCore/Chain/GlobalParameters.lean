import Mathlib
import KarmaCore.Credit.ChainParameters
import KarmaCore.Lib.Run

/-!
# Divisions by chain parameters

Account creation, blocks, maintenance and the budget divide by chain parameters.
`chain_parameters::validate` sees to it that the intervals are positive, but it does
not look at the number of accounts between two scalings of the registration fee.
-/

namespace KarmaCore.Chain

/-- The parameters with fields that `validate` does not look at; the basic fee of account
creation is the one of `current_fees`. -/
structure GlobalParameters extends ChainParameters where
  maintenanceSkipSlots : ℕ := 3
  witnessPayPerBlock : ℤ := 1000000
  accountsPerFeeScale : ℕ := 1000
  accountFeeScaleBitshifts : ℕ := 4
  accountCreateBasicFee : UInt64 := 500000

/-- How a computation ends without a result. A division by zero ends the process. -/
inductive Failure
  | rejected (error : ChainError)
  | divisionByZero
  deriving DecidableEq

abbrev Dividing := Except Failure

theorem Dividing.bind_eq_ok {α β : Type} {x : Dividing α} {f : α → Dividing β} {b : β} :
    (x >>= f) = .ok b ↔ ∃ a, x = .ok a ∧ f a = .ok b :=
  Except.bind_eq_ok

theorem Dividing.pure_eq_ok {α : Type} {a b : α} : (pure a : Dividing α) = .ok b ↔ a = b :=
  Except.pure_eq_ok

def divide (x y : ℕ) : Dividing ℕ := if y = 0 then .error .divisionByZero else .ok (x / y)

def remainder (x y : ℕ) : Dividing ℕ := if y = 0 then .error .divisionByZero else .ok (x % y)

def uint32 (x : ℕ) : ℕ := x % 2 ^ 32

/-- An `int64_t` as a `uint64_t`. -/
def uint64 (x : ℤ) : ℕ := (x % 2 ^ 64).toNat

/-- The properties that the divisions read and what their results change. -/
structure ParameterState where
  parameters : GlobalParameters := {}
  pendingParameters : Option GlobalParameters := none
  accountsRegisteredThisInterval : ℕ := 0
  headBlockNum : ℕ := 0
  time : ℕ := 0
  maintenanceFlag : Bool := false
  nextMaintenanceTime : ℕ := 0
  requestedWitnessBudget : ℤ := 0

namespace ParameterState

/-! ## Slots -/

def getSlotTime (slotNum : ℕ) (s : ParameterState) : Dividing ℕ :=
  if slotNum = 0 then return 0
  else
    let interval := s.parameters.blockInterval
    if s.headBlockNum = 0 then return uint32 (s.time + uint32 (slotNum * interval))
    else do
      let headBlockAbsSlot ← divide s.time interval
      let headSlotTime := uint32 (headBlockAbsSlot * interval)
      let slotNum :=
        if s.maintenanceFlag then uint32 (slotNum + s.parameters.maintenanceSkipSlots) else slotNum
      return uint32 (headSlotTime + uint32 (slotNum * interval))

def getSlotAtTime (time : ℕ) (s : ParameterState) : Dividing ℕ := do
  let firstSlotTime ← s.getSlotTime 1
  if time < firstSlotTime then return 0
  else do
    let slots ← divide (time - firstSlotTime) s.parameters.blockInterval
    return uint32 (slots + 1)

/-! ## Account creation -/

/-- The scaling of the fee at the end of `account_create_evaluator::do_apply`. -/
def createAccount (s : ParameterState) : Dividing ParameterState := do
  let s := { s with accountsRegisteredThisInterval := uint32 (s.accountsRegisteredThisInterval + 1) }
  let rest ← remainder s.accountsRegisteredThisInterval s.parameters.accountsPerFeeScale
  if rest = 0 then
    return { s with
      parameters.accountCreateBasicFee := s.parameters.accountCreateBasicFee <<<
        UInt64.ofNat s.parameters.accountFeeScaleBitshifts }
  else return s

/-! ## Maintenance -/

/-- Removes the scaling of the account registration fee. -/
def removeScaling (s : ParameterState) : Dividing ParameterState := do
  let scalings ← divide s.accountsRegisteredThisInterval s.parameters.accountsPerFeeScale
  return { s with
    parameters.accountCreateBasicFee := s.parameters.accountCreateBasicFee >>>
      UInt64.ofNat (s.parameters.accountFeeScaleBitshifts * scalings) }

/-- The parameters of a committee that are pending take effect. -/
def installParameters (s : ParameterState) : ParameterState :=
  match s.pendingParameters with
  | some parameters => { s with parameters, pendingParameters := none }
  | none => s

def updateMaintenanceTime (timestamp blockNum : ℕ) (s : ParameterState) : Dividing ParameterState := do
  let interval := s.parameters.maintenanceInterval
  if s.nextMaintenanceTime ≤ timestamp then
    if blockNum = 1 then
      let k ← divide timestamp interval
      return { s with
        nextMaintenanceTime := uint32 ((k + 1) * interval), accountsRegisteredThisInterval := 0 }
    else
      let y ← divide (s.time - s.nextMaintenanceTime) interval
      return { s with
        nextMaintenanceTime := uint32 (s.nextMaintenanceTime + (y + 1) * interval)
        accountsRegisteredThisInterval := 0 }
  else return { s with accountsRegisteredThisInterval := 0 }

/-- The pay of the witnesses that `process_budget` asks for. -/
def processBudget (s : ParameterState) : Dividing ParameterState := do
  let timeToMaint := uint64 (s.nextMaintenanceTime - s.time)
  let blocksToMaint ← divide (uint64 (timeToMaint + s.parameters.blockInterval - 1))
    s.parameters.blockInterval
  return { s with requestedWitnessBudget := s.parameters.witnessPayPerBlock * blocksToMaint }

def performChainMaintenance (timestamp blockNum : ℕ) (s : ParameterState) :
    Dividing ParameterState := do
  let s ← s.removeScaling
  let s := s.installParameters
  let s ← s.updateMaintenanceTime timestamp blockNum
  s.processBudget

/-! ## Steps -/

/-- A committee's parameters are validated with the operation that carries them. -/
def updateGlobalParameters (newParameters : GlobalParameters) (s : ParameterState) :
    Dividing ParameterState :=
  match newParameters.validate with
  | .ok () => .ok { s with pendingParameters := some newParameters }
  | .error e => .error (.rejected e)

/-- What a block does to the properties after its transactions. -/
def applyBlock (timestamp : ℕ) (s : ParameterState) : Dividing ParameterState := do
  let maintNeeded := s.nextMaintenanceTime ≤ timestamp
  let missedBlocks ← s.getSlotAtTime timestamp
  if missedBlocks = 0 then .error (.rejected (.assertion "missed_blocks != 0"))
  else do
    let s := { s with headBlockNum := s.headBlockNum + 1, time := timestamp }
    if maintNeeded then do
      let s ← s.performChainMaintenance timestamp s.headBlockNum
      return { s with maintenanceFlag := true }
    else return { s with maintenanceFlag := false }

end ParameterState

/-- What happens to the properties. A slot may be asked for at any time. -/
inductive ParameterEvent
  | updateGlobalParameters (newParameters : GlobalParameters)
  | createAccount
  | applyBlock (timestamp : ℕ)
  | getSlotTime (slotNum : ℕ)
  | getSlotAtTime (time : ℕ)

namespace ParameterState

def applyEvent (s : ParameterState) : ParameterEvent → Dividing ParameterState
  | .updateGlobalParameters newParameters => s.updateGlobalParameters newParameters
  | .createAccount => s.createAccount
  | .applyBlock timestamp => s.applyBlock timestamp
  | .getSlotTime slotNum => do
      let _ ← s.getSlotTime slotNum
      return s
  | .getSlotAtTime time => do
      let _ ← s.getSlotAtTime time
      return s

def step (s : ParameterState) (event : ParameterEvent) : ParameterState :=
  match s.applyEvent event with
  | .ok s' => s'
  | .error _ => s

end ParameterState

/-! ## Computations that divide by no zero -/

/-- No division by zero ends the process. -/
def Survives {α : Type} (x : Dividing α) : Prop := x ≠ .error .divisionByZero

namespace Survives

variable {α β : Type} {x : Dividing α} {f : α → Dividing β} {a : α}

theorem pure : Survives (Pure.pure a : Dividing α) := nofun

theorem bind (hx : Survives x) (hf : ∀ a, x = .ok a → Survives (f a)) : Survives (x >>= f) := by
  cases x with
  | error e => exact fun h ↦ hx (by simpa [Bind.bind, Except.bind] using h)
  | ok a => exact hf a rfl

theorem of_bind (h : Survives (x >>= f)) : Survives x := by
  rintro rfl
  exact h rfl

theorem divide {x y : ℕ} (hy : y ≠ 0) : Survives (Chain.divide x y) := by
  rw [Chain.divide, if_neg hy]
  exact nofun

theorem remainder_iff {x y : ℕ} : Survives (remainder x y) ↔ y ≠ 0 := by
  unfold remainder
  split_ifs with hy
  · simp [Survives, hy]
  · simp [Survives, hy]

end Survives

theorem ChainParameters.intervals_of_validate {p : ChainParameters} (h : p.validate = .ok ()) :
    p.blockInterval ≠ 0 ∧ p.maintenanceInterval ≠ 0 := by
  simp only [ChainParameters.validate, Checked.bind_eq_ok, require_eq_ok] at h
  obtain ⟨_, -, _, -, _, -, _, -, _, -, _, -, _, hblock, _, hmaintenance, -⟩ := h
  omega

namespace ParameterState

/-- The parameters in force and the pending ones meet a condition. -/
structure Installed (p : GlobalParameters → Prop) (s : ParameterState) : Prop where
  parameters : p s.parameters
  pending : ∀ q ∈ s.pendingParameters, p q

/-- They have passed `validate`. -/
abbrev Valid : ParameterState → Prop := Installed fun p ↦ p.validate = .ok ()

/-- They name a number of accounts between two scalings. -/
abbrev Scaled : ParameterState → Prop := Installed fun p ↦ p.accountsPerFeeScale ≠ 0

variable {s s' : ParameterState} {timestamp blockNum slotNum time : ℕ} {p : GlobalParameters → Prop}

theorem Installed.blockInterval (hs : s.Valid) : s.parameters.blockInterval ≠ 0 :=
  (ChainParameters.intervals_of_validate hs.parameters).1

theorem Installed.maintenanceInterval (hs : s.Valid) : s.parameters.maintenanceInterval ≠ 0 :=
  (ChainParameters.intervals_of_validate hs.parameters).2

/-! ## What the steps do to the parameters -/

section installed

-- a condition that does not depend on the fee of account creation
variable (hp : ∀ q fee, p q → p { q with accountCreateBasicFee := fee })

include hp

theorem Installed.createAccount (hs : s.Installed p) (h : s.createAccount = .ok s') :
    s'.Installed p := by
  simp only [ParameterState.createAccount, Dividing.bind_eq_ok] at h
  obtain ⟨rest, -, h⟩ := h
  split_ifs at h
  · obtain rfl := Dividing.pure_eq_ok.mp h
    exact ⟨hp _ _ hs.parameters, hs.pending⟩
  · obtain rfl := Dividing.pure_eq_ok.mp h
    exact ⟨hs.parameters, hs.pending⟩

theorem Installed.removeScaling (hs : s.Installed p) (h : s.removeScaling = .ok s') :
    s'.Installed p := by
  simp only [ParameterState.removeScaling, Dividing.bind_eq_ok, Dividing.pure_eq_ok] at h
  obtain ⟨scalings, -, rfl⟩ := h
  exact ⟨hp _ _ hs.parameters, hs.pending⟩

omit hp in
theorem Installed.installParameters (hs : s.Installed p) : s.installParameters.Installed p := by
  unfold ParameterState.installParameters
  split
  · next q hq => exact ⟨hs.pending q hq, by simp⟩
  · exact hs

omit hp in
theorem Installed.updateMaintenanceTime (hs : s.Installed p)
    (h : s.updateMaintenanceTime timestamp blockNum = .ok s') : s'.Installed p := by
  unfold ParameterState.updateMaintenanceTime at h
  dsimp only at h
  split_ifs at h
  · obtain ⟨k, -, h⟩ := Dividing.bind_eq_ok.mp h
    obtain rfl := Dividing.pure_eq_ok.mp h
    exact ⟨hs.parameters, hs.pending⟩
  · obtain ⟨y, -, h⟩ := Dividing.bind_eq_ok.mp h
    obtain rfl := Dividing.pure_eq_ok.mp h
    exact ⟨hs.parameters, hs.pending⟩
  · obtain rfl := Dividing.pure_eq_ok.mp h
    exact ⟨hs.parameters, hs.pending⟩

theorem Installed.performChainMaintenance (hs : s.Installed p)
    (h : s.performChainMaintenance timestamp blockNum = .ok s') : s'.Installed p := by
  simp only [ParameterState.performChainMaintenance, ParameterState.processBudget, Dividing.bind_eq_ok,
    Dividing.pure_eq_ok] at h
  obtain ⟨s₁, hscaling, s₂, htime, blocks, -, rfl⟩ := h
  have hinstalled := ((hs.removeScaling hp hscaling).installParameters).updateMaintenanceTime htime
  exact ⟨hinstalled.parameters, hinstalled.pending⟩

theorem Installed.applyBlock (hs : s.Installed p) (h : s.applyBlock timestamp = .ok s') :
    s'.Installed p := by
  simp only [ParameterState.applyBlock, Dividing.bind_eq_ok] at h
  obtain ⟨missed, -, h⟩ := h
  split_ifs at h
  · obtain ⟨t, hmaintenance, h⟩ := Dividing.bind_eq_ok.mp h
    obtain rfl := Dividing.pure_eq_ok.mp h
    have hstart : ParameterState.Installed p
        { s with headBlockNum := s.headBlockNum + 1, time := timestamp } := ⟨hs.parameters, hs.pending⟩
    have hend := hstart.performChainMaintenance hp hmaintenance
    exact ⟨hend.parameters, hend.pending⟩
  · obtain rfl := Dividing.pure_eq_ok.mp h
    exact ⟨hs.parameters, hs.pending⟩

/-- A condition on what is proposed holds of what is installed. -/
theorem Installed.step (hs : s.Installed p) {event : ParameterEvent}
    (hnew : ∀ new, event = .updateGlobalParameters new → new.validate = .ok () → p new) :
    (s.step event).Installed p := by
  unfold ParameterState.step
  split
  · next s' h =>
      cases event with
      | updateGlobalParameters new =>
          change s.updateGlobalParameters new = .ok s' at h
          unfold ParameterState.updateGlobalParameters at h
          split at h
          · next hvalid =>
              obtain rfl := Except.ok.inj h
              refine ⟨hs.parameters, ?_⟩
              rintro q ⟨⟩
              exact hnew new rfl hvalid
          · cases h
      | createAccount => exact hs.createAccount hp h
      | applyBlock timestamp => exact hs.applyBlock hp h
      | getSlotTime slotNum =>
          obtain ⟨_, -, h⟩ := Dividing.bind_eq_ok.mp h
          exact Dividing.pure_eq_ok.mp h ▸ hs
      | getSlotAtTime time =>
          obtain ⟨_, -, h⟩ := Dividing.bind_eq_ok.mp h
          exact Dividing.pure_eq_ok.mp h ▸ hs
  · exact hs

end installed

theorem Installed.valid_step (hs : s.Valid) (event : ParameterEvent) : (s.step event).Valid :=
  hs.step (fun _ _ h ↦ h) fun _ _ h ↦ h

/-! ## The divisors -/

theorem survives_getSlotTime (hs : s.Valid) (slotNum : ℕ) : Survives (s.getSlotTime slotNum) := by
  unfold getSlotTime
  dsimp only
  split_ifs
  · exact .pure
  · exact .pure
  · exact .bind (.divide hs.blockInterval) fun _ _ ↦ .pure
  · exact .bind (.divide hs.blockInterval) fun _ _ ↦ .pure

theorem survives_getSlotAtTime (hs : s.Valid) (time : ℕ) : Survives (s.getSlotAtTime time) := by
  refine .bind (survives_getSlotTime hs 1) fun first _ ↦ ?_
  split_ifs
  · exact .pure
  · exact .bind (.divide hs.blockInterval) fun _ _ ↦ .pure

theorem survives_createAccount_iff : Survives s.createAccount ↔ s.parameters.accountsPerFeeScale ≠ 0 := by
  refine ⟨fun h ↦ Survives.remainder_iff.mp h.of_bind, fun h ↦ ?_⟩
  refine .bind (Survives.remainder_iff.mpr h) fun rest _ ↦ ?_
  split_ifs <;> exact .pure

theorem survives_performChainMaintenance (hs : s.Valid) (hscale : s.parameters.accountsPerFeeScale ≠ 0) :
    Survives (s.performChainMaintenance timestamp blockNum) := by
  refine .bind (.bind (.divide hscale) fun _ _ ↦ .pure) fun s₁ hscaling ↦ ?_
  have hinstalled := (hs.removeScaling (fun _ _ h ↦ h) hscaling).installParameters
  refine .bind ?_ fun s₂ htime ↦ ?_
  · unfold updateMaintenanceTime
    dsimp only
    split_ifs
    · exact .bind (.divide hinstalled.maintenanceInterval) fun _ _ ↦ .pure
    · exact .bind (.divide hinstalled.maintenanceInterval) fun _ _ ↦ .pure
    · exact .pure
  · exact .bind (.divide (hinstalled.updateMaintenanceTime htime).blockInterval) fun _ _ ↦ .pure

theorem survives_applyBlock (hs : s.Valid) (hscale : s.parameters.accountsPerFeeScale ≠ 0) :
    Survives (s.applyBlock timestamp) := by
  refine .bind (survives_getSlotAtTime hs timestamp) fun missed _ ↦ ?_
  dsimp only
  split_ifs
  · exact nofun
  · have hstart : Valid { s with headBlockNum := s.headBlockNum + 1, time := timestamp } :=
      ⟨hs.parameters, hs.pending⟩
    exact .bind (survives_performChainMaintenance hstart hscale) fun _ _ ↦ .pure
  · exact .pure

theorem survives_updateGlobalParameters (new : GlobalParameters) :
    Survives (s.updateGlobalParameters new) := by
  unfold updateGlobalParameters
  split <;> exact nofun

/-- Valid parameters divide by a zero exactly when accounts are scaled by none. -/
theorem survives_iff (hs : s.Valid) :
    (∀ event, Survives (s.applyEvent event)) ↔ s.parameters.accountsPerFeeScale ≠ 0 := by
  refine ⟨fun h ↦ survives_createAccount_iff.mp (h .createAccount), fun hscale event ↦ ?_⟩
  cases event with
  | updateGlobalParameters new => exact survives_updateGlobalParameters new
  | createAccount => exact survives_createAccount_iff.mpr hscale
  | applyBlock timestamp => exact survives_applyBlock hs hscale
  | getSlotTime slotNum => exact .bind (survives_getSlotTime hs slotNum) fun _ _ ↦ .pure
  | getSlotAtTime time => exact .bind (survives_getSlotAtTime hs time) fun _ _ ↦ .pure

/-! ## Runs -/

/-- A step proposes only parameters that scale the registration fee. -/
def KeepsScale (_ : ParameterState) (event : ParameterEvent) : Prop :=
  ∀ new, event = .updateGlobalParameters new → new.accountsPerFeeScale ≠ 0

/-- From valid parameters on, in every run: the next step divides by no zero whatever it is exactly
when the parameters in force scale the registration fee, and so always if all that are proposed
do. -/
theorem survives_of_reaches {start : ParameterState} (hstart : start.Valid) :
    (∀ s, Run.Reaches step (fun _ _ ↦ True) start s →
      ((∀ event, Survives (s.applyEvent event)) ↔ s.parameters.accountsPerFeeScale ≠ 0)) ∧
    (start.Scaled → ∀ s, Run.Reaches step KeepsScale start s →
      ∀ event, Survives (s.applyEvent event)) := by
  have hvalid : ∀ s, Run.Reaches step (fun _ _ ↦ True) start s → s.Valid := fun s hs ↦
    hs.invariant Valid hstart fun _ event hs _ ↦ hs.valid_step event
  refine ⟨fun s hs ↦ survives_iff (hvalid s hs), fun hscaled s hs ↦ ?_⟩
  have hkept : s.Scaled := hs.invariant Scaled hscaled fun _ event hs hkeeps ↦
    hs.step (fun _ _ h ↦ h) fun new hnew _ ↦ hkeeps new hnew
  exact (survives_iff (hvalid s (hs.mono fun _ _ _ ↦ trivial))).mpr hkept.parameters

/-- From the default parameters a committee halves the accounts before the fee is scaled; a block
later an account is registered. -/
theorem survives_of_reaches_halved : Survives ((step (step {} (.updateGlobalParameters
    { accountsPerFeeScale := 500 })) (.applyBlock 100)).applyEvent .createAccount) := by
  refine (survives_of_reaches (⟨by decide +kernel, by simp⟩ : Valid {})).2 ⟨by decide, by simp⟩ _
    (.next _ (.next _ .refl ?_) ?_) .createAccount
  · rintro new ⟨⟩
    decide
  · rintro new ⟨⟩

/-- A committee proposes to scale the fee after every zero accounts; a block later the next
registration divides by zero. -/
theorem createAccount_divides : let s := step (step {} (.updateGlobalParameters
      { accountsPerFeeScale := 0 })) (.applyBlock 100)
    s.parameters.validate = .ok () ∧ s.parameters.accountsPerFeeScale = 0 ∧
      s.createAccount = .error .divisionByZero :=
  ⟨by decide +kernel, by decide +kernel, by rfl⟩

end ParameterState

end KarmaCore.Chain
