import Mathlib
import KarmaCore.Lib.ObjectIndex
import KarmaCore.Protocol.Asset

/-!
# Slots and their times

The state that says who may produce a block and when, and the two functions
between slot numbers and times.
-/

namespace KarmaCore.Witness

abbrev WitnessId := ℕ

/-- `uint32_t` arithmetic. -/
def uint32 (x : ℕ) : ℕ := x % 2 ^ 32

theorem uint32_of_lt {x : ℕ} (h : x < 2 ^ 32) : uint32 x = x := Nat.mod_eq_of_lt h

theorem uint32_add_uint32 {x y : ℕ} (h : x + y < 2 ^ 32) : uint32 (x + uint32 y) = x + y := by
  rw [uint32_of_lt (x := y) (by omega), uint32_of_lt h]

/-- The parameters that divide time into slots, as `chain_parameters::validate` accepts them. -/
structure SlotParameters where
  blockInterval : ℕ
  maintenanceSkipSlots : ℕ
  minInterval : 1 ≤ blockInterval
  maxInterval : blockInterval ≤ 30

/-- A `flat_set` of witnesses that is not empty. -/
structure WitnessSet where
  ids : List WitnessId
  sorted : ids.Pairwise (· < ·)
  nonempty : ids ≠ []

structure WitnessObject where
  lastAslot : ℕ := 0
  totalMissed : ℤ := 0
  lastConfirmedBlockNum : ℕ := 0
  deriving DecidableEq

/-- `confirmed` is the history of the numbers of the blocks and of who signed them: no function
of the model reads it. -/
structure WitnessState where
  headBlockNum : ℕ := 0
  time : ℕ
  currentAslot : ℕ := 0
  maintenanceFlag : Bool := false
  lastIrreversibleBlockNum : ℕ := 0
  parameters : SlotParameters
  activeWitnesses : WitnessSet
  currentShuffledWitnesses : List WitnessId
  witnesses : ObjectIndex WitnessObject
  confirmed : List (ℕ × WitnessId) := []

namespace WitnessState

variable (s : WitnessState) {m n k t : ℕ}

def getSlotTime (slotNum : ℕ) : ℕ :=
  let interval := s.parameters.blockInterval
  if slotNum = 0 then 0
  else if s.headBlockNum = 0 then uint32 (s.time + uint32 (slotNum * interval))
  else
    let headSlotTime := uint32 (s.time / interval * interval)
    let slotNum :=
      if s.maintenanceFlag then uint32 (slotNum + s.parameters.maintenanceSkipSlots) else slotNum
    uint32 (headSlotTime + uint32 (slotNum * interval))

def getSlotAtTime (time : ℕ) : ℕ :=
  let firstSlotTime := s.getSlotTime 1
  if time < firstSlotTime then 0
  else uint32 ((time - firstSlotTime) / s.parameters.blockInterval + 1)

/-! ## Slots as multiples of the interval -/

/-- Where the slots are counted from. -/
def slotOrigin : ℕ :=
  let interval := s.parameters.blockInterval
  if s.headBlockNum = 0 then s.time
  else
    let skipped := if s.maintenanceFlag then s.parameters.maintenanceSkipSlots else 0
    (s.time / interval + skipped) * interval

/-- The time of a slot is a 32-bit number. -/
def SlotFits (n : ℕ) : Prop := s.slotOrigin + n * s.parameters.blockInterval < 2 ^ 32

instance : DecidablePred s.SlotFits := fun _ ↦ inferInstanceAs (Decidable (_ < _))

variable {s}

theorem SlotFits.mono (h : s.SlotFits n) (hmn : m ≤ n) : s.SlotFits m := by
  have hle := Nat.mul_le_mul_right s.parameters.blockInterval hmn
  unfold SlotFits at *
  omega

theorem SlotFits.lt (h : s.SlotFits n) : n < 2 ^ 32 := by
  have hle := Nat.le_mul_of_pos_right n s.parameters.minInterval
  unfold SlotFits at h
  omega

theorem getSlotTime_eq (h : s.SlotFits n) (hn : 0 < n) :
    s.getSlotTime n = s.slotOrigin + n * s.parameters.blockInterval := by
  have hpos : 0 < s.parameters.blockInterval := s.parameters.minInterval
  unfold SlotFits slotOrigin at h
  unfold getSlotTime slotOrigin
  dsimp only at h ⊢
  rw [if_neg hn.ne']
  split_ifs at h ⊢ with hhead hflag
  · exact uint32_add_uint32 h
  · have hslots := Nat.le_mul_of_pos_right (n + s.parameters.maintenanceSkipSlots) hpos
    rw [add_mul] at h hslots
    rw [uint32_of_lt (x := n + s.parameters.maintenanceSkipSlots) (by omega),
      uint32_of_lt (x := s.time / s.parameters.blockInterval * s.parameters.blockInterval)
        (by omega), add_mul, uint32_add_uint32 (by omega), add_mul]
    omega
  · rw [add_zero] at h ⊢
    rw [uint32_of_lt (x := s.time / s.parameters.blockInterval * s.parameters.blockInterval)
      (by omega), uint32_add_uint32 h]

/-- No slot is counted from a time before the slot of the head block. -/
theorem time_lt_slotOrigin_add (s : WitnessState) :
    s.time < s.slotOrigin + s.parameters.blockInterval := by
  have hpos : 0 < s.parameters.blockInterval := s.parameters.minInterval
  have hdiv := Nat.div_add_mod s.time s.parameters.blockInterval
  have hmod := Nat.mod_lt s.time hpos
  rw [mul_comm] at hdiv
  unfold slotOrigin
  dsimp only
  split_ifs
  · omega
  all_goals
    rw [add_mul]
    omega

theorem getSlotAtTime_eq (h : s.SlotFits 1) (ht : t < 2 ^ 32) :
    s.getSlotAtTime t = (t - s.slotOrigin) / s.parameters.blockInterval := by
  have hpos : 0 < s.parameters.blockInterval := s.parameters.minInterval
  unfold getSlotAtTime
  simp only [getSlotTime_eq h one_pos, one_mul]
  split_ifs with hlt
  · exact (Nat.div_eq_of_lt (by omega)).symm
  · have hsplit : t - s.slotOrigin =
        t - (s.slotOrigin + s.parameters.blockInterval) + s.parameters.blockInterval := by
      omega
    rw [hsplit, Nat.add_div_right _ hpos, uint32_of_lt]
    have hle := Nat.div_le_self (t - (s.slotOrigin + s.parameters.blockInterval))
      s.parameters.blockInterval
    omega

/-! ## The correspondence -/

theorem getSlotAtTime_getSlotTime (h : s.SlotFits n) (hn : 1 ≤ n) :
    s.getSlotAtTime (s.getSlotTime n) = n := by
  have hpos : 0 < s.parameters.blockInterval := s.parameters.minInterval
  rw [getSlotTime_eq h hn, getSlotAtTime_eq (h.mono hn) h, Nat.add_sub_cancel_left,
    Nat.mul_div_cancel n hpos]

theorem getSlotAtTime_eq_iff (h : s.SlotFits (k + 1)) (hk : 0 < k) (ht : t < 2 ^ 32) :
    s.getSlotAtTime t = k ↔ s.getSlotTime k ≤ t ∧ t < s.getSlotTime (k + 1) := by
  have hpos : 0 < s.parameters.blockInterval := s.parameters.minInterval
  have hinterval : s.parameters.blockInterval ≤ k * s.parameters.blockInterval :=
    Nat.le_mul_of_pos_left _ hk
  rw [getSlotAtTime_eq (h.mono (by omega)) ht, getSlotTime_eq (h.mono (by omega)) hk,
    getSlotTime_eq h (Nat.succ_pos k), Nat.div_eq_iff hpos, add_mul]
  omega

theorem time_lt_getSlotTime (h : s.SlotFits n) (hn : 0 < n) : s.time < s.getSlotTime n := by
  have hinterval : s.parameters.blockInterval ≤ n * s.parameters.blockInterval :=
    Nat.le_mul_of_pos_left _ hn
  have hlt := s.time_lt_slotOrigin_add
  rw [getSlotTime_eq h hn]
  omega

theorem getSlotTime_lt_getSlotTime (h : s.SlotFits n) (hmn : m < n) :
    s.getSlotTime m < s.getSlotTime n := by
  rcases m.eq_zero_or_pos with rfl | hm
  · exact (Nat.zero_le s.time).trans_lt (time_lt_getSlotTime h hmn)
  · have hlt := Nat.mul_lt_mul_of_pos_right hmn s.parameters.minInterval
    rw [getSlotTime_eq h (hm.trans hmn), getSlotTime_eq (h.mono hmn.le) hm]
    omega

/-- While the times of the slots are 32-bit numbers, a slot is the times from its own up to that
of the next slot. -/
theorem slot_time_correspondence (s : WitnessState) :
    (∀ n, 1 ≤ n → s.SlotFits n → s.getSlotAtTime (s.getSlotTime n) = n) ∧
      (∀ t k, t < 2 ^ 32 → 0 < k → s.SlotFits (k + 1) →
        (s.getSlotAtTime t = k ↔ s.getSlotTime k ≤ t ∧ t < s.getSlotTime (k + 1))) ∧
      (∀ m n, m < n → s.SlotFits n → s.getSlotTime m < s.getSlotTime n) ∧
      ∀ n, 0 < n → s.SlotFits n → s.time < s.getSlotTime n :=
  ⟨fun _ hn h ↦ getSlotAtTime_getSlotTime h hn, fun _ _ ht hk h ↦ getSlotAtTime_eq_iff h hk ht,
    fun _ _ hmn h ↦ getSlotTime_lt_getSlotTime h hmn, fun _ hn h ↦ time_lt_getSlotTime h hn⟩

/-- A maintenance block whose time is not a multiple of the interval. -/
def unalignedHead : WitnessState where
  headBlockNum := 1
  time := 103
  maintenanceFlag := true
  parameters := ⟨5, 3, by decide, by decide⟩
  activeWitnesses := ⟨[1], by decide, by decide⟩
  currentShuffledWitnesses := [1]
  witnesses := ⟨2, [(1, {})], by decide, by decide⟩

theorem slot_time_unalignedHead : unalignedHead.getSlotAtTime (unalignedHead.getSlotTime 2) = 2 :=
  (slot_time_correspondence unalignedHead).1 2 (by decide) (by decide)

example : unalignedHead.getSlotTime 2 = 125 := by decide

end WitnessState

end KarmaCore.Witness
