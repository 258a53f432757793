import Mathlib
import KarmaCore.Lib.OrderStatistic
import KarmaCore.Lib.Run
import KarmaCore.Witness.WitnessSchedule

/-!
# What a block does to the witnesses

A block counts the slots that were missed, confirms its number for the witness
that signed it, moves the last irreversible block and now and then shuffles the
schedule.
-/

namespace KarmaCore.Witness

open Transfer (get get_eq_ok)

/-! ## Blocks -/

/-- What a maintenance puts in place. -/
structure MaintenanceResult where
  activeWitnesses : WitnessSet
  parameters : SlotParameters

/-- A block, the checks it is applied without, and whether it is a maintenance block. -/
structure Block where
  timestamp : ℕ
  witness : WitnessId
  skipWitnessScheduleCheck : Bool := false
  skipUndoHistoryCheck : Bool := false
  maintenance : Option MaintenanceResult := none
  timestamp_lt : timestamp < 2 ^ 32

/-- `GRAPHENE_MAX_UNDO_HISTORY`. -/
def maxUndoHistory : ℕ := 10000

/-- `GRAPHENE_100_PERCENT`. -/
def hundredPercent : ℕ := 10000

/-- `GRAPHENE_IRREVERSIBLE_THRESHOLD`. -/
def irreversibleThreshold : ℕ := 7000

namespace WitnessState

def validateBlockHeader (b : Block) (s : WitnessState) : Checked Unit := do
  require (s.time < b.timestamp) "head_block_time() < next_block.timestamp"
  let _ ← get (s.witnesses.find b.witness)
  whenever (b.skipWitnessScheduleCheck = false) (fun _ ↦ do
    let slotNum := s.getSlotAtTime b.timestamp
    require (0 < slotNum) "slot_num > 0"
    let scheduledWitness ← s.getScheduledWitness slotNum
    require (b.witness = scheduledWitness) "Witness produced block at wrong time") ()

/-- The witness of a slot missed it, unless it signed the block that came later. -/
def missSlot (signer : WitnessId) (slotNum : ℕ) (s : WitnessState) : Checked WitnessState := do
  let id ← s.getScheduledWitness slotNum
  let witnessMissed ← get (s.witnesses.find id)
  if id ≠ signer then
    return { s with witnesses :=
      s.witnesses.set id { witnessMissed with totalMissed := witnessMissed.totalMissed + 1 } }
  else return s

def missSlots (signer : WitnessId) : ℕ → WitnessState → Checked WitnessState
  | 0, s => .ok s
  | n + 1, s => do
      let s ← missSlots signer n s
      s.missSlot signer (n + 1)

def updateGlobalDynamicData (b : Block) (s : WitnessState) : Checked WitnessState := do
  -- the slot of the block, less one
  let missedBlocks := uint32 (s.getSlotAtTime b.timestamp + (2 ^ 32 - 1))
  let s ← s.missSlots b.witness missedBlocks
  let s := { s with
    headBlockNum := uint32 (s.headBlockNum + 1)
    time := b.timestamp
    currentAslot := (s.currentAslot + uint32 (missedBlocks + 1)) % 2 ^ 64 }
  require (b.skipUndoHistoryCheck = true ∨
      s.headBlockNum - s.lastIrreversibleBlockNum < maxUndoHistory)
    "The database does not have enough undo history to support a blockchain with so many missed blocks."
  return s

def updateSigningWitness (b : Block) (s : WitnessState) : Checked WitnessState := do
  let newBlockAslot := (s.currentAslot + s.getSlotAtTime b.timestamp) % 2 ^ 64
  let signingWitness ← get (s.witnesses.find b.witness)
  let witness := { signingWitness with
    lastAslot := newBlockAslot
    lastConfirmedBlockNum := s.headBlockNum }
  return { s with
    witnesses := s.witnesses.set b.witness witness
    confirmed := (s.headBlockNum, b.witness) :: s.confirmed }

def updateLastIrreversibleBlock (s : WitnessState) : Checked WitnessState := do
  let witObjs ← s.activeWitnesses.ids.mapM fun wid ↦ get (s.witnesses.find wid)
  let offset := (hundredPercent - irreversibleThreshold) * witObjs.length / hundredPercent
  -- `std::nth_element`
  let newLastIrreversibleBlockNum ←
    get (OrderStatistic.nth (witObjs.map (·.lastConfirmedBlockNum)) offset)
  if s.lastIrreversibleBlockNum < newLastIrreversibleBlockNum then
    return { s with lastIrreversibleBlockNum := newLastIrreversibleBlockNum }
  else return s

def performMaintenance (b : Block) (s : WitnessState) : WitnessState :=
  match b.maintenance with
  | some m => { s with activeWitnesses := m.activeWitnesses, parameters := m.parameters }
  | none => s

def updateMaintenanceFlag (newMaintenanceFlag : Bool) (s : WitnessState) : WitnessState :=
  { s with maintenanceFlag := newMaintenanceFlag }

/-- The part of `_apply_block` that concerns the witnesses. -/
def applyBlock (b : Block) (s : WitnessState) : Checked WitnessState := do
  s.validateBlockHeader b
  let s ← s.updateGlobalDynamicData b
  let s ← s.updateSigningWitness b
  let s ← s.updateLastIrreversibleBlock
  let s := s.performMaintenance b
  let s := s.updateMaintenanceFlag b.maintenance.isSome
  return s.updateWitnessSchedule

end WitnessState

/-! ## Runs -/

inductive WitnessEvent
  | block (b : Block)
  | createWitness

namespace WitnessState

/-- A block that is refused leaves the state as it was. -/
def step (s : WitnessState) : WitnessEvent → WitnessState
  | .block b =>
      match s.applyBlock b with
      | .ok s' => s'
      | .error _ => s
  | .createWitness => { s with witnesses := s.witnesses.create {} }

/-- What `init_genesis` leaves: nobody confirmed a block, and the schedule is the set of the
active witnesses. -/
structure Genesis (s : WitnessState) : Prop where
  headBlockNum : s.headBlockNum = 0
  time : s.time < 2 ^ 32
  currentAslot : s.currentAslot = 0
  lastIrreversibleBlockNum : s.lastIrreversibleBlockNum = 0
  currentShuffledWitnesses : s.currentShuffledWitnesses = s.activeWitnesses.ids
  lastConfirmedBlockNum : ∀ id w, s.witnesses.find id = some w → w.lastConfirmedBlockNum = 0
  confirmed : s.confirmed = []

end WitnessState

end KarmaCore.Witness
