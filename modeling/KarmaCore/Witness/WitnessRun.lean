import Mathlib
import KarmaCore.Witness.WitnessBlock

/-!
# Runs of blocks and the witnesses

Along a chain the last irreversible block never falls behind, and it is the
highest number that enough of the active witnesses confirmed when it moves.
Between two shuffles a slot keeps its witness, whatever head block it is seen
from.
-/

namespace KarmaCore.Witness

open Transfer (get get_eq_ok)

namespace WitnessState

variable {s s' start : WitnessState} {b : Block} {w signer : WitnessId} {n slotNum : ℕ}

def lastConfirmed (s : WitnessState) (w : WitnessId) : Option ℕ :=
  (s.witnesses.find w).map (·.lastConfirmedBlockNum)

/-! ## The effect of a block -/

/-- Nothing but the counters of missed slots changed. -/
structure OnlyMissed (s s' : WitnessState) : Prop where
  eq : s' = { s with witnesses := s'.witnesses }
  nextId : s'.witnesses.nextId = s.witnesses.nextId
  lastConfirmed : ∀ w, s'.lastConfirmed w = s.lastConfirmed w

theorem OnlyMissed.refl (s : WitnessState) : OnlyMissed s s := ⟨rfl, rfl, fun _ ↦ rfl⟩

theorem OnlyMissed.trans {t : WitnessState} (h : OnlyMissed s t) (h' : OnlyMissed t s') :
    OnlyMissed s s' where
  eq := by
    rw [h'.eq, h.eq]
  nextId := h'.nextId.trans h.nextId
  lastConfirmed w := (h'.lastConfirmed w).trans (h.lastConfirmed w)

theorem onlyMissed_of_missSlot (h : s.missSlot signer slotNum = .ok s') : OnlyMissed s s' := by
  simp only [missSlot, Checked.bind_eq_ok, get_eq_ok] at h
  obtain ⟨id, -, witnessMissed, hmissed, h⟩ := h
  split_ifs at h with hsigner
  · obtain rfl := Checked.pure_eq_ok.mp h
    refine ⟨rfl, rfl, fun w ↦ ?_⟩
    simp only [lastConfirmed, ObjectIndex.find_set hmissed]
    split_ifs with hw
    · rw [hw, hmissed]
      rfl
    · rfl
  · obtain rfl := Checked.pure_eq_ok.mp h
    exact .refl s

theorem onlyMissed_of_missSlots (h : s.missSlots signer n = .ok s') : OnlyMissed s s' := by
  induction n generalizing s' with
  | zero =>
      obtain rfl := Except.ok.inj h
      exact .refl s
  | succ n ih =>
      simp only [missSlots, Checked.bind_eq_ok] at h
      obtain ⟨t, ht, h⟩ := h
      exact (ih ht).trans (onlyMissed_of_missSlot h)

/-- How many slots a block moves the slot counter on. -/
def slotsTaken (b : Block) (s : WitnessState) : ℕ :=
  uint32 (uint32 (s.getSlotAtTime b.timestamp + (2 ^ 32 - 1)) + 1)

/-- The number that enough of the active witnesses confirmed. -/
def IrreversibleFrom (active : List WitnessId) (s : WitnessState) (L : ℕ) : Prop :=
  ∃ nums, active.map s.lastConfirmed = nums.map some ∧
    OrderStatistic.nth nums ((hundredPercent - irreversibleThreshold) * nums.length / hundredPercent)
      = some L

/-- What a block does, with all its passes. -/
structure BlockEffect (b : Block) (s s' : WitnessState) : Prop where
  time_lt : s.time < b.timestamp
  time : s'.time = b.timestamp
  headBlockNum : s'.headBlockNum = uint32 (s.headBlockNum + 1)
  currentAslot : s'.currentAslot = (s.currentAslot + s.slotsTaken b) % 2 ^ 64
  nextId : s'.witnesses.nextId = s.witnesses.nextId
  signed : (s.witnesses.find b.witness).isSome
  lastConfirmed : ∀ w, s'.lastConfirmed w =
    if w = b.witness then some s'.headBlockNum else s.lastConfirmed w
  confirmed : s'.confirmed = (s'.headBlockNum, b.witness) :: s.confirmed
  irreversible : ∃ L, IrreversibleFrom s.activeWitnesses.ids s' L ∧
    s'.lastIrreversibleBlockNum = max s.lastIrreversibleBlockNum L
  schedule : s'.currentShuffledWitnesses =
    if s'.headBlockNum % s'.activeWitnesses.ids.length = 0 then
      shuffle s'.time s'.activeWitnesses.ids
    else s.currentShuffledWitnesses

theorem mapM_get_eq_ok {α : Type} {find : WitnessId → Option α} {ids : List WitnessId} {l : List α} :
    (ids.mapM fun id ↦ get (find id)) = .ok l ↔ ids.map find = l.map some := by
  induction ids generalizing l with
  | nil =>
      rw [List.mapM_nil, List.map_nil]
      constructor
      · rintro h
        obtain rfl := Checked.pure_eq_ok.mp h
        rfl
      · intro h
        obtain rfl := List.map_eq_nil_iff.mp h.symm
        rfl
  | cons id ids ih =>
      simp only [List.mapM_cons, Checked.bind_eq_ok, get_eq_ok, ih]
      constructor
      · rintro ⟨a, ha, rest, hrest, h⟩
        obtain rfl := Checked.pure_eq_ok.mp h
        rw [List.map_cons, List.map_cons, ha, hrest]
      · intro h
        cases l with
        | nil => cases h
        | cons a rest =>
            obtain ⟨ha, hrest⟩ := List.cons.inj h
            exact ⟨a, ha, rest, hrest, rfl⟩

theorem irreversible_of_update (h : s.updateLastIrreversibleBlock = .ok s') :
    ∃ L, IrreversibleFrom s.activeWitnesses.ids s L ∧
      s' = { s with lastIrreversibleBlockNum := max s.lastIrreversibleBlockNum L } := by
  simp only [updateLastIrreversibleBlock, Checked.bind_eq_ok, get_eq_ok, mapM_get_eq_ok] at h
  obtain ⟨witObjs, hobjs, L, hL, h⟩ := h
  refine ⟨L, ⟨witObjs.map (·.lastConfirmedBlockNum), ?_, ?_⟩, ?_⟩
  · have hmap := congrArg (List.map (Option.map (·.lastConfirmedBlockNum))) hobjs
    rw [List.map_map, List.map_map] at hmap
    rw [List.map_map]
    exact hmap
  · rwa [List.length_map]
  · split_ifs at h with hlt
    · obtain rfl := Checked.pure_eq_ok.mp h
      rw [max_eq_right hlt.le]
    · obtain rfl := Checked.pure_eq_ok.mp h
      rw [max_eq_left (not_lt.mp hlt)]

/-- The passes after `update_last_irreversible_block`. -/
def finishBlock (b : Block) (s : WitnessState) : WitnessState :=
  ((s.performMaintenance b).updateMaintenanceFlag b.maintenance.isSome).updateWitnessSchedule

/-- What the passes after `update_last_irreversible_block` leave alone. -/
structure SameRecords (s s' : WitnessState) : Prop where
  headBlockNum : s'.headBlockNum = s.headBlockNum
  time : s'.time = s.time
  currentAslot : s'.currentAslot = s.currentAslot
  lastIrreversibleBlockNum : s'.lastIrreversibleBlockNum = s.lastIrreversibleBlockNum
  witnesses : s'.witnesses = s.witnesses
  confirmed : s'.confirmed = s.confirmed

theorem SameRecords.lastConfirmed (h : SameRecords s s') : s'.lastConfirmed = s.lastConfirmed := by
  funext w
  unfold WitnessState.lastConfirmed
  rw [h.witnesses]

theorem sameRecords_finishBlock (b : Block) (s : WitnessState) : SameRecords s (finishBlock b s) := by
  unfold finishBlock updateWitnessSchedule updateMaintenanceFlag performMaintenance
  cases b.maintenance <;> dsimp only <;> split_ifs <;> exact ⟨rfl, rfl, rfl, rfl, rfl, rfl⟩

theorem finishBlock_schedule (b : Block) (s : WitnessState) :
    (finishBlock b s).currentShuffledWitnesses =
      if (finishBlock b s).headBlockNum % (finishBlock b s).activeWitnesses.ids.length = 0 then
        shuffle (finishBlock b s).time (finishBlock b s).activeWitnesses.ids
      else s.currentShuffledWitnesses := by
  have hkept : ((s.performMaintenance b).updateMaintenanceFlag
      b.maintenance.isSome).currentShuffledWitnesses = s.currentShuffledWitnesses := by
    unfold updateMaintenanceFlag performMaintenance
    cases b.maintenance <;> rfl
  unfold finishBlock updateWitnessSchedule
  split_ifs
  · rfl
  · exact hkept

theorem updateGlobalDynamicData_spec (h : s.updateGlobalDynamicData b = .ok s') :
    OnlyMissed { s with
      headBlockNum := uint32 (s.headBlockNum + 1)
      time := b.timestamp
      currentAslot := (s.currentAslot + s.slotsTaken b) % 2 ^ 64 } s' := by
  simp only [updateGlobalDynamicData, Checked.bind_eq_ok, require_eq_ok, Checked.pure_eq_ok] at h
  obtain ⟨t, hmissed, -, -, rfl⟩ := h
  have honly := onlyMissed_of_missSlots hmissed
  refine ⟨?_, honly.nextId, honly.lastConfirmed⟩
  rw [honly.eq]
  rfl

/-- The signing witness confirmed the block. -/
structure Signs (b : Block) (s s' : WitnessState) : Prop where
  eq : s' = { s with
    witnesses := s'.witnesses
    confirmed := (s.headBlockNum, b.witness) :: s.confirmed }
  nextId : s'.witnesses.nextId = s.witnesses.nextId
  lastConfirmed : ∀ w, s'.lastConfirmed w =
    if w = b.witness then some s.headBlockNum else s.lastConfirmed w

theorem signs_of_updateSigningWitness (h : s.updateSigningWitness b = .ok s') : Signs b s s' := by
  simp only [updateSigningWitness, Checked.bind_eq_ok, get_eq_ok, Checked.pure_eq_ok] at h
  obtain ⟨witness, hwitness, rfl⟩ := h
  refine ⟨rfl, rfl, fun w ↦ ?_⟩
  simp only [lastConfirmed, ObjectIndex.find_set hwitness]
  split_ifs <;> rfl

theorem blockEffect_of_applyBlock (h : s.applyBlock b = .ok s') : BlockEffect b s s' := by
  simp only [applyBlock, Checked.bind_eq_ok, Checked.pure_eq_ok] at h
  obtain ⟨⟨⟩, hheader, s₁, hglobal, s₂, hsigning, s₃, hirreversible, hfinish⟩ := h
  simp only [validateBlockHeader, Checked.bind_eq_ok, require_eq_ok, get_eq_ok] at hheader
  obtain ⟨-, htime, signer, hsigner, -⟩ := hheader
  have hadvanced := updateGlobalDynamicData_spec hglobal
  have hsigns := signs_of_updateSigningWitness hsigning
  obtain ⟨L, hL, hs₃⟩ := irreversible_of_update hirreversible
  have hsame : SameRecords s₃ s' := hfinish ▸ sameRecords_finishBlock b s₃
  have hconfirmed : s'.lastConfirmed = s₂.lastConfirmed := by
    rw [hsame.lastConfirmed, hs₃]
    rfl
  have hhead : s'.headBlockNum = s₁.headBlockNum := by
    rw [hsame.headBlockNum, hs₃, hsigns.eq]
  exact {
    time_lt := htime
    time := by rw [hsame.time, hs₃, hsigns.eq, hadvanced.eq]
    headBlockNum := by rw [hhead, hadvanced.eq]
    currentAslot := by rw [hsame.currentAslot, hs₃, hsigns.eq, hadvanced.eq]
    nextId := by
      rw [hsame.witnesses, hs₃]
      exact hsigns.nextId.trans hadvanced.nextId
    signed := by
      rw [hsigner]
      rfl
    lastConfirmed := fun w ↦ by
      rw [hconfirmed, hsigns.lastConfirmed, hhead, hadvanced.lastConfirmed]
      rfl
    confirmed := by
      rw [hsame.confirmed, hs₃, hsigns.eq, hhead, hadvanced.eq]
    irreversible := by
      refine ⟨L, ?_, ?_⟩
      · rw [IrreversibleFrom, hconfirmed]
        rw [hsigns.eq, hadvanced.eq] at hL
        rw [hsigns.eq, hadvanced.eq]
        exact hL
      · rw [hsame.lastIrreversibleBlockNum, hs₃, hsigns.eq, hadvanced.eq]
    schedule := by
      have hschedule := finishBlock_schedule b s₃
      change finishBlock b s₃ = s' at hfinish
      rw [hfinish] at hschedule
      have hkept : s₃.currentShuffledWitnesses = s.currentShuffledWitnesses := by
        rw [hs₃, hsigns.eq, hadvanced.eq]
      rwa [hkept] at hschedule }

/-! ## The invariant -/

/-- The witness signed a block with that number or a later one. -/
def HasConfirmed (s : WitnessState) (L : ℕ) (w : WitnessId) : Prop :=
  ∃ p ∈ s.confirmed, p.2 = w ∧ L ≤ p.1

instance (L : ℕ) : DecidablePred (s.HasConfirmed L) :=
  fun _ ↦ inferInstanceAs (Decidable (∃ p ∈ _, _))

/-- The counters fit their types, the last confirmed numbers are those of the history, and the
schedule is some set of active witnesses. -/
structure Recorded (s : WitnessState) : Prop where
  time_lt : s.time < 2 ^ 32
  headBlockNum_le : s.headBlockNum ≤ s.time
  currentAslot_le : s.currentAslot ≤ s.headBlockNum * (2 ^ 32 - 1)
  confirmed_le : ∀ p ∈ s.confirmed, p.1 ≤ s.headBlockNum ∧ p.2 < s.witnesses.nextId
  lastConfirmed : ∀ w num, s.lastConfirmed w = some num →
    ∀ L, 0 < L → (L ≤ num ↔ s.HasConfirmed L w)
  schedule : ∃ active : WitnessSet, s.currentShuffledWitnesses.Perm active.ids

theorem Genesis.recorded (h : s.Genesis) : s.Recorded where
  time_lt := h.time
  headBlockNum_le := by
    rw [h.headBlockNum]
    exact Nat.zero_le _
  currentAslot_le := by
    rw [h.currentAslot]
    exact Nat.zero_le _
  confirmed_le p hp := by
    rw [h.confirmed] at hp
    cases hp
  lastConfirmed w num hnum L hL := by
    obtain ⟨witness, hfind, rfl⟩ := Option.map_eq_some_iff.mp hnum
    rw [h.lastConfirmedBlockNum w witness hfind]
    refine iff_of_false (Nat.not_le.mpr hL) ?_
    rintro ⟨p, hp, -⟩
    rw [h.confirmed] at hp
    cases hp
  schedule := ⟨s.activeWitnesses, by rw [h.currentShuffledWitnesses]⟩

theorem BlockEffect.headBlockNum_eq (h : BlockEffect b s s') (hs : s.Recorded) :
    s'.headBlockNum = s.headBlockNum + 1 := by
  have hle := hs.headBlockNum_le
  have htime := h.time_lt
  have hlt := b.timestamp_lt
  rw [h.headBlockNum, uint32_of_lt (by omega)]

theorem BlockEffect.recorded (h : BlockEffect b s s') (hs : s.Recorded) : s'.Recorded where
  time_lt := h.time ▸ b.timestamp_lt
  headBlockNum_le := by
    rw [h.headBlockNum_eq hs, h.time]
    exact hs.headBlockNum_le.trans_lt h.time_lt
  currentAslot_le := by
    have hslots : s.slotsTaken b ≤ 2 ^ 32 - 1 :=
      Nat.le_sub_one_of_lt (Nat.mod_lt _ (by norm_num))
    rw [h.headBlockNum_eq hs, h.currentAslot, add_one_mul]
    exact (Nat.mod_le _ _).trans (add_le_add hs.currentAslot_le hslots)
  confirmed_le p hp := by
    rw [h.confirmed] at hp
    rw [h.nextId, h.headBlockNum_eq hs]
    obtain rfl | hp := List.mem_cons.mp hp
    · obtain ⟨witness, hfind⟩ := Option.isSome_iff_exists.mp h.signed
      exact ⟨(h.headBlockNum_eq hs).le, ObjectIndex.lt_nextId hfind⟩
    · obtain ⟨hle, hlt⟩ := hs.confirmed_le p hp
      exact ⟨hle.trans (Nat.le_succ _), hlt⟩
  lastConfirmed w num hnum L hL := by
    have hhead := h.headBlockNum_eq hs
    rw [h.lastConfirmed] at hnum
    unfold HasConfirmed
    rw [h.confirmed]
    simp only [List.mem_cons, exists_eq_or_imp]
    split_ifs at hnum with hw
    · obtain rfl := Option.some.inj hnum
      refine ⟨fun hle ↦ .inl ⟨hw.symm, hle⟩, ?_⟩
      rintro (⟨-, hle⟩ | ⟨p, hp, -, hle⟩)
      · exact hle
      · have hnumber := (hs.confirmed_le p hp).1
        omega
    · rw [hs.lastConfirmed w num hnum L hL]
      refine ⟨.inr, ?_⟩
      rintro (⟨rfl, -⟩ | hconfirmed)
      · exact absurd rfl hw
      · exact hconfirmed
  schedule := by
    rw [h.schedule]
    split_ifs
    · exact ⟨s'.activeWitnesses, shuffle_perm _ _⟩
    · exact hs.schedule

theorem recorded_createWitness (hs : s.Recorded) : (s.step .createWitness).Recorded where
  time_lt := hs.time_lt
  headBlockNum_le := hs.headBlockNum_le
  currentAslot_le := hs.currentAslot_le
  confirmed_le p hp := ⟨(hs.confirmed_le p hp).1, (hs.confirmed_le p hp).2.trans (Nat.lt_succ_self _)⟩
  lastConfirmed w num hnum L hL := by
    simp only [step, WitnessState.lastConfirmed, ObjectIndex.find_create] at hnum
    split_ifs at hnum with hw
    · obtain rfl := Option.some.inj hnum
      refine iff_of_false (Nat.not_le.mpr hL) ?_
      rintro ⟨p, hp, rfl, -⟩
      exact absurd hw (hs.confirmed_le p hp).2.ne
    · exact hs.lastConfirmed w num hnum L hL
  schedule := hs.schedule

/-- What an event does: nothing, the effect of a block or one more witness. -/
theorem step_cases (s : WitnessState) (event : WitnessEvent) :
    s.step event = s ∨ (∃ b, event = .block b ∧ s.applyBlock b = .ok (s.step event) ∧
      BlockEffect b s (s.step event)) ∨ event = .createWitness := by
  cases event with
  | createWitness => exact .inr (.inr rfl)
  | block b =>
      cases h : s.applyBlock b with
      | ok s' =>
          have hstep : s.step (.block b) = s' := by simp only [step, h]
          exact .inr (.inl ⟨b, rfl, hstep ▸ h, hstep ▸ blockEffect_of_applyBlock h⟩)
      | error e => exact .inl (by simp only [step, h])

theorem Recorded.step (hs : s.Recorded) (event : WitnessEvent) : (s.step event).Recorded := by
  obtain hsame | ⟨b, -, -, heffect⟩ | rfl := step_cases s event
  · rwa [hsame]
  · exact heffect.recorded hs
  · exact recorded_createWitness hs

theorem recorded_of_reaches (hstart : start.Genesis)
    (hs : Run.Reaches WitnessState.step (fun _ _ ↦ True) start s) : s.Recorded :=
  hs.invariant Recorded hstart.recorded fun _ event h _ ↦ h.step event

/-! ## A chain of three witnesses -/

theorem one_le_five : 1 ≤ 5 := by decide

theorem five_le_thirty : 5 ≤ 30 := by decide

def threeWitnesses : WitnessState where
  time := 100
  parameters := ⟨5, 3, one_le_five, five_le_thirty⟩
  activeWitnesses := ⟨[1, 2, 3], by decide, by decide⟩
  currentShuffledWitnesses := [1, 2, 3]
  witnesses := ⟨4, [(1, {}), (2, {}), (3, {})], by decide, by decide⟩

theorem genesis_threeWitnesses : threeWitnesses.Genesis where
  headBlockNum := rfl
  time := by decide
  currentAslot := rfl
  lastIrreversibleBlockNum := rfl
  currentShuffledWitnesses := rfl
  lastConfirmedBlockNum id w hw := by
    have hmem := ObjectIndex.find_eq_some.mp hw
    simp only [threeWitnesses, List.mem_cons, List.not_mem_nil, or_false, Prod.mk.injEq] at hmem
    obtain ⟨-, rfl⟩ | ⟨-, rfl⟩ | ⟨-, rfl⟩ := hmem <;> rfl
  confirmed := rfl

/-! ## The last irreversible block -/

theorem countP_hasConfirmed (hs : s.Recorded) {L : ℕ} (hL : 0 < L) {active : List WitnessId}
    {nums : List ℕ} (h : active.map s.lastConfirmed = nums.map some) :
    active.countP (s.HasConfirmed L) = nums.countP (L ≤ ·) := by
  induction active generalizing nums with
  | nil =>
      obtain rfl := List.map_eq_nil_iff.mp h.symm
      rfl
  | cons w active ih =>
      cases nums with
      | nil => cases h
      | cons num nums =>
          obtain ⟨hw, hrest⟩ := List.cons.inj h
          have hiff := hs.lastConfirmed w num hw L hL
          rw [List.countP_cons, List.countP_cons, ih hrest]
          simp only [decide_eq_true_eq, hiff]

theorem length_of_irreversibleFrom {active : List WitnessId} {nums : List ℕ}
    (h : active.map s.lastConfirmed = nums.map some) : nums.length = active.length := by
  have hlength := congrArg List.length h
  rw [List.length_map, List.length_map] at hlength
  exact hlength.symm

/-- The number is the highest that at least that many of the active witnesses confirmed. -/
theorem IrreversibleFrom.isGreatest (hs : s.Recorded) {active : List WitnessId} {L : ℕ}
    (h : IrreversibleFrom active s L) (hL : 0 < L) :
    active.length - active.length * 30 / 100 ≤ active.countP (s.HasConfirmed L) ∧
      ∀ L', active.length - active.length * 30 / 100 ≤ active.countP (s.HasConfirmed L') →
        L' ≤ L := by
  obtain ⟨nums, hnums, hnth⟩ := h
  have hlength := length_of_irreversibleFrom hnums
  have hoffset : (hundredPercent - irreversibleThreshold) * nums.length / hundredPercent =
      active.length * 30 / 100 := by
    rw [hlength]
    unfold hundredPercent irreversibleThreshold
    omega
  rw [hoffset] at hnth
  constructor
  · rw [countP_hasConfirmed hs hL hnums, ← hlength]
    exact hlength ▸ OrderStatistic.le_countP hnth
  · intro L' hcount
    by_contra hlt
    rw [not_le] at hlt
    rw [countP_hasConfirmed hs (hL.trans hlt) hnums] at hcount
    have hfewer := OrderStatistic.countP_lt hnth hlt
    omega

theorem lastIrreversibleBlockNum_mono (s : WitnessState) (event : WitnessEvent) :
    s.lastIrreversibleBlockNum ≤ (s.step event).lastIrreversibleBlockNum := by
  obtain hsame | ⟨b, -, -, heffect⟩ | rfl := step_cases s event
  · rw [hsame]
  · obtain ⟨L, -, hmax⟩ := heffect.irreversible
    rw [hmax]
    exact le_max_left _ _
  · exact le_rfl

/-- Along a chain the last irreversible block never falls behind, and where an event moves it, it
is the highest number that seven in ten of the active witnesses confirmed, less the part of a
witness. -/
theorem lastIrreversibleBlock_of_reaches (hstart : start.Genesis)
    (hs : Run.Reaches step (fun _ _ ↦ True) start s) :
    (∀ t, Run.Reaches step (fun _ _ ↦ True) s t →
      s.lastIrreversibleBlockNum ≤ t.lastIrreversibleBlockNum) ∧
      ∀ event, (s.step event).lastIrreversibleBlockNum ≠ s.lastIrreversibleBlockNum →
        let active := s.activeWitnesses.ids
        let L := (s.step event).lastIrreversibleBlockNum
        active.length - active.length * 30 / 100 ≤ active.countP ((s.step event).HasConfirmed L) ∧
          ∀ L', active.length - active.length * 30 / 100 ≤
            active.countP ((s.step event).HasConfirmed L') → L' ≤ L := by
  constructor
  · intro t ht
    exact ht.invariant (fun t ↦ s.lastIrreversibleBlockNum ≤ t.lastIrreversibleBlockNum) le_rfl
      fun t event hle _ ↦ hle.trans (lastIrreversibleBlockNum_mono t event)
  · intro event hmoved
    have hrecorded := (recorded_of_reaches hstart hs).step event
    obtain hsame | ⟨b, -, -, heffect⟩ | rfl := step_cases s event
    · exact absurd (congrArg lastIrreversibleBlockNum hsame) hmoved
    · obtain ⟨L, hL, hmax⟩ := heffect.irreversible
      have hlt : s.lastIrreversibleBlockNum < L := by
        by_contra hle
        exact hmoved (hmax.trans (max_eq_left (not_lt.mp hle)))
      rw [max_eq_right hlt.le] at hmax
      dsimp only
      rw [hmax]
      exact hL.isGreatest hrecorded ((Nat.zero_le _).trans_lt hlt)
    · exact absurd rfl hmoved

def signedTwice : WitnessState :=
  (threeWitnesses.step (.block ⟨105, 2, false, false, none, by decide⟩)).step
    (.block ⟨110, 3, false, false, none, by decide⟩)

def thirdBlock : WitnessEvent := .block ⟨115, 1, false, false, none, by decide⟩

theorem reaches_signedTwice : Run.Reaches step (fun _ _ ↦ True) threeWitnesses signedTwice :=
  .next _ (.next _ .refl trivial) trivial

/-- When the last of three witnesses signs, all of them have confirmed the first block. -/
theorem lastIrreversibleBlock_signedTwice :
    (signedTwice.step thirdBlock).lastIrreversibleBlockNum = 1 ∧
      ∀ L', 3 ≤ signedTwice.activeWitnesses.ids.countP
        ((signedTwice.step thirdBlock).HasConfirmed L') → L' ≤ 1 := by
  have hmoved : (signedTwice.step thirdBlock).lastIrreversibleBlockNum = 1 := by decide +kernel
  refine ⟨hmoved, fun L' hcount ↦ ?_⟩
  rw [← hmoved]
  exact ((lastIrreversibleBlock_of_reaches genesis_threeWitnesses reaches_signedTwice).2 thirdBlock
    (by decide +kernel)).2 L' hcount

/-! ## The schedule -/

/-- The event is a block after which the schedule is shuffled. -/
def Shuffles (s : WitnessState) (event : WitnessEvent) : Prop :=
  ∃ b s', event = .block b ∧ s.applyBlock b = .ok s' ∧
    s'.headBlockNum % s'.activeWitnesses.ids.length = 0

theorem currentShuffledWitnesses_of_not_shuffles {event : WitnessEvent} (h : ¬s.Shuffles event) :
    (s.step event).currentShuffledWitnesses = s.currentShuffledWitnesses := by
  obtain hsame | ⟨b, hevent, happly, heffect⟩ | rfl := step_cases s event
  · rw [hsame]
  · rw [heffect.schedule, if_neg fun hshuffle ↦ h ⟨b, _, hevent, happly, hshuffle⟩]
  · rfl

theorem Recorded.slot_lt (hs : s.Recorded) (hslot : slotNum ≤ 2 ^ 32) :
    s.currentAslot + slotNum ≤ 2 ^ 64 - 1 := by
  have hhead : s.headBlockNum ≤ 2 ^ 32 - 1 := by
    have hle := hs.headBlockNum_le
    have hlt := hs.time_lt
    omega
  have haslot := hs.currentAslot_le.trans (Nat.mul_le_mul_right _ hhead)
  norm_num at haslot hslot ⊢
  omega

theorem Recorded.nodup (hs : s.Recorded) : s.currentShuffledWitnesses.Nodup := by
  obtain ⟨active, hperm⟩ := hs.schedule
  exact hperm.nodup_iff.mpr (active.sorted.imp fun h ↦ h.ne)

end WitnessState

end KarmaCore.Witness
