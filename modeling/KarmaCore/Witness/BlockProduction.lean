import Mathlib
import KarmaCore.Lib.Run
import KarmaCore.Witness.WitnessRun

/-!
# The witness plugin

Every second the plugin asks whether a witness it has a key for may produce a block
now.  It produces for the slot whose time is the second nearest to its clock, and for
one slot only once while the head block does not go back in time.
-/

namespace KarmaCore.Witness

open Transfer (get get_eq_ok)

abbrev PublicKey := ℕ

/-- `witness_plugin`, its private keys by their public keys. -/
structure WitnessPlugin where
  witnesses : Finset WitnessId
  privateKeys : Finset PublicKey
  requiredWitnessParticipation : ℕ := 0
  productionEnabled : Bool := false

/-- What the plugin asks the database for. -/
structure ChainView where
  chain : WitnessState
  signingKey : WitnessId → Option PublicKey
  /-- `recent_slots_filled.popcount()`. -/
  recentSlotsFilled : ℕ := 128

def ChainView.witnessParticipationRate (view : ChainView) : ℕ :=
  hundredPercent * view.recentSlotsFilled / 128

/-- `block_production_condition`, without the one nothing returns. -/
inductive ProductionCondition
  | produced (timestamp : ℕ) (witness : WitnessId) (key : PublicKey)
  | notSynced
  | notMyTurn
  | notTimeYet
  | noPrivateKey
  | lowParticipation
  | lag
  | exceptionProducingBlock
  deriving DecidableEq

/-- The second nearest to a time in microseconds. -/
def nearestSecond (nowFine : ℕ) : ℕ :=
  uint32 ((nowFine + 500000) / 1000000)

namespace WitnessPlugin

/-- Production starts when the next slot is not in the past. -/
def enable (now : ℕ) (view : ChainView) (plugin : WitnessPlugin) : WitnessPlugin :=
  { plugin with
    productionEnabled := plugin.productionEnabled || decide (now ≤ view.chain.getSlotTime 1) }

/-- The part of `maybe_produce_block` after the test of `_production_enabled`, up to
the call of `generate_block`. -/
def checkSlot (now : ℕ) (view : ChainView) (plugin : WitnessPlugin) :
    Checked ProductionCondition := do
  let slot := view.chain.getSlotAtTime now
  if slot = 0 then return .notTimeYet
  else do
    let scheduledWitness ← view.chain.getScheduledWitness slot
    if scheduledWitness ∉ plugin.witnesses then return .notMyTurn
    else do
      let scheduledTime := view.chain.getSlotTime slot
      let scheduledKey ← get (view.signingKey scheduledWitness)
      if scheduledKey ∉ plugin.privateKeys then return .noPrivateKey
      else if view.witnessParticipationRate < plugin.requiredWitnessParticipation then
        return .lowParticipation
      else if 500000 < ((scheduledTime : ℤ) - now).natAbs * 1000000 then return .lag
      else return .produced scheduledTime scheduledWitness scheduledKey

/-- `maybe_produce_block` with the handler of `block_production_loop` around it. -/
def maybeProduceBlock (nowFine : ℕ) (view : ChainView) (plugin : WitnessPlugin) :
    ProductionCondition :=
  let now := nearestSecond nowFine
  if (plugin.enable now view).productionEnabled then
    match plugin.checkSlot now view with
    | .ok condition => condition
    | .error _ => .exceptionProducingBlock
  else .notSynced

end WitnessPlugin

/-! ## When a block is produced -/

variable {plugin : WitnessPlugin} {view : ChainView} {nowFine now t : ℕ} {w : WitnessId}
  {k : PublicKey}

theorem checkSlot_eq_produced : plugin.checkSlot now view = .ok (.produced t w k) ↔
    view.chain.getSlotAtTime now ≠ 0 ∧
      view.chain.getScheduledWitness (view.chain.getSlotAtTime now) = .ok w ∧
      w ∈ plugin.witnesses ∧ view.signingKey w = some k ∧ k ∈ plugin.privateKeys ∧
      plugin.requiredWitnessParticipation ≤ view.witnessParticipationRate ∧
      t = view.chain.getSlotTime (view.chain.getSlotAtTime now) ∧ t = now := by
  unfold WitnessPlugin.checkSlot
  by_cases hslot : view.chain.getSlotAtTime now = 0
  · simp only [hslot, if_true]
    constructor
    · intro h
      cases h
    · exact fun h ↦ absurd rfl h.1
  · simp only [if_neg hslot, Checked.bind_eq_ok]
    constructor
    · rintro ⟨w', hw', h⟩
      by_cases hmine : w' ∈ plugin.witnesses
      · rw [if_neg (not_not.mpr hmine)] at h
        simp only [Checked.bind_eq_ok, get_eq_ok] at h
        obtain ⟨k', hk', h⟩ := h
        split_ifs at h with hkey hrate hlag
        · cases h
        · cases h
        · cases h
          refine ⟨hslot, hw', hmine, hk', hkey, not_lt.mp hrate, rfl, ?_⟩
          omega
        · cases h
      · rw [if_pos hmine] at h
        cases h
    · rintro ⟨-, hw, hmine, hk, hkey, hrate, rfl, hnow⟩
      refine ⟨w, hw, ?_⟩
      rw [if_neg (not_not.mpr hmine)]
      simp only [Checked.bind_eq_ok, get_eq_ok]
      refine ⟨k, hk, ?_⟩
      rw [if_neg (not_not.mpr hkey), if_neg (not_lt.mpr hrate), if_neg (by omega)]
      rfl

theorem maybeProduceBlock_eq_produced :
    plugin.maybeProduceBlock nowFine view = .produced t w k ↔
      (plugin.enable (nearestSecond nowFine) view).productionEnabled = true ∧
        plugin.checkSlot (nearestSecond nowFine) view = .ok (.produced t w k) := by
  unfold WitnessPlugin.maybeProduceBlock
  dsimp only
  split_ifs with henabled
  · cases hcheck : plugin.checkSlot (nearestSecond nowFine) view with
    | ok condition => simp [henabled]
    | error _ => simp
  · simp [henabled]

/-! ## Runs -/

/-- A block that was produced, if the database accepts it. -/
def producedBlock (t : ℕ) (w : WitnessId) (ht : t < 2 ^ 32)
    (maintenance : Option MaintenanceResult) : Block where
  timestamp := t
  witness := w
  maintenance := maintenance
  timestamp_lt := ht

/-- `blocks` are the times and witnesses of what the plugin broadcast, the last one first. -/
structure ProductionState where
  plugin : WitnessPlugin
  view : ChainView
  blocks : List (ℕ × WitnessId) := []

inductive ProductionEvent
  | wake (nowFine : ℕ) (maintenance : Option MaintenanceResult)
  | receive (b : Block)
  /-- A switch to another fork, or anything else that changes what the plugin reads. -/
  | change (view : ChainView)

namespace ProductionState

/-- `generate_block` pushes the block, and an error leaves nothing to broadcast. -/
def wake (nowFine : ℕ) (maintenance : Option MaintenanceResult) (s : ProductionState) :
    ProductionState :=
  let plugin := s.plugin.enable (nearestSecond nowFine) s.view
  match s.plugin.maybeProduceBlock nowFine s.view with
  | .produced t w _ =>
      if ht : t < 2 ^ 32 then
        match s.view.chain.applyBlock (producedBlock t w ht maintenance) with
        | .ok chain =>
            { plugin, view := { s.view with chain }, blocks := (t, w) :: s.blocks }
        | .error _ => { s with plugin }
      else { s with plugin }
  | _ => { s with plugin }

def step (s : ProductionState) : ProductionEvent → ProductionState
  | .wake nowFine maintenance => s.wake nowFine maintenance
  | .receive b => { s with view := { s.view with chain := s.view.chain.step (.block b) } }
  | .change view => { s with view }

/-- The head block does not go back in time. -/
def Forward (s : ProductionState) : ProductionEvent → Prop
  | .change view => s.view.chain.time ≤ view.chain.time
  | _ => True

variable {s start : ProductionState}

/-- Every wake-up either changes no more than whether production is enabled, or appends
one block to the chain and to those that were produced. -/
theorem wake_cases (nowFine : ℕ) (maintenance : Option MaintenanceResult) (s : ProductionState) :
    ((s.wake nowFine maintenance).view = s.view ∧
      (s.wake nowFine maintenance).blocks = s.blocks) ∨
    ∃ t w, (s.wake nowFine maintenance).blocks = (t, w) :: s.blocks ∧
      s.view.chain.time < t ∧ (s.wake nowFine maintenance).view.chain.time = t := by
  unfold wake
  dsimp only
  split
  · rename_i t w k hproduced
    split_ifs with ht
    · cases happly : s.view.chain.applyBlock (producedBlock t w ht maintenance) with
      | ok chain =>
          have heffect := WitnessState.blockEffect_of_applyBlock happly
          exact .inr ⟨t, w, rfl, heffect.time_lt, heffect.time⟩
      | error _ => exact .inl ⟨rfl, rfl⟩
    · exact .inl ⟨rfl, rfl⟩
  · exact .inl ⟨rfl, rfl⟩

/-- The blocks are in the order of their times, and none is later than the head block. -/
structure Ordered (s : ProductionState) : Prop where
  sorted : (s.blocks.map Prod.fst).Pairwise (· > ·)
  bounded : ∀ b ∈ s.blocks, b.1 ≤ s.view.chain.time

theorem Ordered.step (h : s.Ordered) (event : ProductionEvent) (hforward : s.Forward event) :
    (s.step event).Ordered := by
  cases event with
  | wake nowFine maintenance =>
      rcases wake_cases nowFine maintenance s with ⟨hview, hblocks⟩ | ⟨t, w, hblocks, hlt, htime⟩
      · exact ⟨by simpa only [ProductionState.step, hblocks] using h.sorted,
          by simpa only [ProductionState.step, hblocks, hview] using h.bounded⟩
      · refine ⟨?_, ?_⟩
        · simp only [ProductionState.step, hblocks, List.map_cons, List.pairwise_cons]
          refine ⟨?_, h.sorted⟩
          intro t' ht'
          obtain ⟨b, hb, rfl⟩ := List.mem_map.mp ht'
          exact (h.bounded b hb).trans_lt hlt
        · simp only [ProductionState.step, hblocks, htime]
          intro b hb
          rcases List.mem_cons.mp hb with rfl | hb
          · exact le_rfl
          · exact (h.bounded b hb).trans hlt.le
  | receive b =>
      refine ⟨h.sorted, fun b' hb' ↦ (h.bounded b' hb').trans ?_⟩
      simp only [ProductionState.step, WitnessState.step]
      cases happly : s.view.chain.applyBlock b with
      | ok chain =>
          have heffect := WitnessState.blockEffect_of_applyBlock happly
          exact heffect.time_lt.le.trans heffect.time.ge
      | error _ => exact le_rfl
  | change view => exact ⟨h.sorted, fun b hb ↦ (h.bounded b hb).trans hforward⟩

end ProductionState

open ProductionState

def secondOfThree : ChainView where
  chain := WitnessState.threeWitnesses
  signingKey := fun w ↦ if w = 2 then some 7 else none

def secondPlugin : WitnessPlugin := { witnesses := {2}, privateKeys := {7} }

end KarmaCore.Witness
