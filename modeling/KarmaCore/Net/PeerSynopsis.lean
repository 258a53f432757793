import Mathlib
import KarmaCore.App.Synopsis

/-!
# The synopsis that is sent to a peer

The chain database chooses the ids up to the reference point, and the node goes
on with the ids it still has to get from the peer.  Both walk in halves from the
same number to the same end, so that no seam is left.
-/

namespace KarmaCore.Net

open Chain HalvingWalk App

/-- The id of a number, if it is still to get. -/
def itemAt (items : List BlockId) (firstNum num : ℕ) : Except SynopsisError (List BlockId) :=
  if firstNum ≤ num then
    match items[num - firstNum]? with
    | none => .error .outOfRange
    | some id => .ok [id]
  else .ok []

def collectItems (items : List BlockId) (firstNum trueHigh : ℕ) :
    ℕ → ℕ → Except SynopsisError (List BlockId)
  | 0, _ => .error .outOfFuel
  | fuel + 1, low => do
      let ids ← itemAt items firstNum low
      if nextNum trueHigh low ≤ trueHigh then do
        let rest ← collectItems items firstNum trueHigh fuel (nextNum trueHigh low)
        return ids ++ rest
      else return ids

/-- `low_block_num` is that of the other walk: the number its synopsis begins at. -/
def synopsisLow (synopsis : List BlockId) : ℕ :=
  match synopsis with
  | [] => 1
  | id :: _ => id.num

/-- The loop ends after as many steps as there are numbers. -/
def createBlockchainSynopsisForPeer
    (getBlockchainSynopsis : BlockId → ℕ → Except SynopsisError (List BlockId))
    (lastBlockDelegateHasSeen : BlockId) (idsOfItemsToGet : List BlockId) :
    Except SynopsisError (List BlockId) := do
  let number := idsOfItemsToGet.length % 2 ^ 32
  let synopsis ← getBlockchainSynopsis lastBlockDelegateHasSeen number
  match idsOfItemsToGet with
  | [] => return synopsis
  | first :: _ =>
      if number = 0 then return synopsis
      else do
        let trueHigh := (first.num + idsOfItemsToGet.length - 1) % 2 ^ 32
        let rest ← collectItems idsOfItemsToGet first.num trueHigh (trueHigh + 1)
          (synopsisLow synopsis)
        return synopsis ++ rest

variable {c : SyncDatabase} {ids path items synopsis : List BlockId} {undoable : ℕ}
  {pending : Bool} {lastSeen : BlockId}

/-- The ids from the peer come after the chain. -/
def ComeAfter (path items : List BlockId) : Prop :=
  ∀ i (h : i < items.length), items[i].num = path.length + i + 1

/-! ## The loop -/

theorem itemAt_eq {high low : ℕ} (hle : low ≤ high + items.length) :
    itemAt items (high + 1) low =
      .ok (([low].filter (high < ·)).map fun k ↦ items.getD (k - (high + 1)) .null) := by
  rw [itemAt]
  by_cases hitem : high < low
  · have hindex : low - (high + 1) < items.length := by omega
    simp [hitem, hindex]
  · simp [hitem]

/-- The loop collects the ids of the walk that are still to get. -/
theorem collectItems_eq {high top low fuel : ℕ} (htop : top = high + items.length) (hlow : 0 < low)
    (hle : low ≤ top) (hrange : top + 1 < 2 ^ 32) (hfuel : top - low < fuel) :
    collectItems items (high + 1) top fuel low =
      .ok (((steps top low).filter (high < ·)).map fun k ↦ items.getD (k - (high + 1)) .null) := by
  induction fuel generalizing low with
  | zero => exact absurd hfuel (Nat.not_lt_zero _)
  | succ fuel ih =>
      have hnext : nextNum top low = next top low :=
        nextNum_eq hle (by omega) (by omega) (.inr hrange)
      rw [collectItems, itemAt_eq (htop ▸ hle), hnext]
      rcases hle.eq_or_lt with rfl | hlt
      · rw [steps_of_le le_rfl]
        simp only [bind, Except.bind, next_top, if_neg (Nat.not_succ_le_self _)]
        rfl
      · have hstep : low < next top low := lt_next
        have hrest := ih (by omega) (next_le hlt) (by omega)
        have hcons : (low :: steps top (next top low)).filter (high < ·) =
            [low].filter (high < ·) ++ (steps top (next top low)).filter (high < ·) :=
          List.filter_append [low] _
        rw [steps_of_lt hlt, hcons, List.map_append]
        simp only [bind, Except.bind, if_pos (next_le hlt), hrest]
        rfl

/-! ## The seam -/

theorem consecutive_append (hpath : Consecutive path) (hitems : ComeAfter path items) :
    Consecutive (path ++ items) := by
  intro i hi
  rw [List.getElem_append]
  split_ifs with hlt
  · exact hpath i hlt
  · rw [hitems]
    omega

/-- The ids still to get are those of the whole chain above the reference point. -/
theorem idAt_append {k : ℕ} (hk : path.length < k) :
    idAt (path ++ items) k = items.getD (k - (path.length + 1)) .null := by
  have hindex : k - (path.length + 1) = k - 1 - path.length := by omega
  rw [idAt, List.getD_append_right _ _ _ _ (by omega), hindex]

/-- The ids of a chain are told by their numbers. -/
theorem map_idAt_of_mem (hpath : Consecutive path) (hmem : ∀ id ∈ synopsis, id ∈ path) :
    (synopsis.map BlockId.num).map (idAt path) = synopsis := by
  rw [List.map_map]
  have hid : ∀ id ∈ synopsis, (idAt path ∘ BlockId.num) id = id :=
    fun id hid ↦ (hpath.num_of_mem (hmem id hid)).2.2
  exact (List.map_congr_left hid).trans (List.map_id _)

/-- One walk over the chain and the ids that come after it, which begins with the synopsis. -/
structure Seamless (path items synopsis whole : List BlockId) (low : ℕ) : Prop where
  numbers : whole.map BlockId.num = steps (path.length + items.length) low
  front : synopsis <+: whole
  increasing : (whole.map BlockId.num).Pairwise (· < ·)
  last : items ≠ [] → whole.getLast? = items.getLast?
  walk : (∀ id ∈ synopsis, id ∈ path) → whole = walkIds (path ++ items) low 0

/-- The numbers of the ids still to get on the walk. -/
theorem map_num_items (hpath : Consecutive path) (hitems : ComeAfter path items) {low : ℕ}
    (hle : low ≤ path.length + items.length) :
    (((steps (path.length + items.length) low).filter (path.length < ·)).map
      fun k ↦ items.getD (k - (path.length + 1)) .null).map BlockId.num =
      (steps (path.length + items.length) low).filter (path.length < ·) := by
  rw [List.map_map]
  have hnum : ∀ k ∈ (steps (path.length + items.length) low).filter (path.length < ·),
      (BlockId.num ∘ fun k ↦ items.getD (k - (path.length + 1)) .null) k = k := by
    intro k hk
    obtain ⟨hk, hpast⟩ := List.mem_filter.mp hk
    have hpast : path.length < k := of_decide_eq_true hpast
    have hbound := (mem_steps hle hk).2
    have hchain := consecutive_append hpath hitems
    have hid := hchain.idAt_mem (Nat.zero_lt_of_lt hpast) (by rwa [List.length_append])
    rw [idAt_append hpast] at hid
    exact hid.2.1
  exact (List.map_congr_left hnum).trans (List.map_id _)

/-- A synopsis of the chain up to the reference point goes on without a seam. -/
theorem seamless_append (hpath : Consecutive path) (hitems : ComeAfter path items) {low : ℕ}
    (hlow : 0 < low) (hle : low ≤ path.length + items.length)
    (hnums : synopsis.map BlockId.num =
      stepsUpTo (path.length + items.length) path.length low) :
    Seamless path items synopsis
      (synopsis ++ ((steps (path.length + items.length) low).filter (path.length < ·)).map
        fun k ↦ items.getD (k - (path.length + 1)) .null) low := by
  have hnumbers : (synopsis ++ ((steps (path.length + items.length) low).filter
      (path.length < ·)).map fun k ↦ items.getD (k - (path.length + 1)) .null).map BlockId.num =
      steps (path.length + items.length) low := by
    rw [List.map_append, hnums, map_num_items hpath hitems hle]
    exact stepsUpTo_append hle
  refine ⟨hnumbers, List.prefix_append _ _, ?_, fun hne ↦ ?_, fun hmem ↦ ?_⟩
  · rw [hnumbers]
    exact pairwise_steps hle
  · have hpos := List.length_pos_iff.mpr hne
    obtain ⟨init, hinit⟩ := List.getLast?_eq_some_iff.mp (getLast?_steps hle)
    have hlast : items.getLast? = some (items.getD (items.length - 1) .null) := by
      rw [List.getLast?_eq_getElem?]
      have hlt : items.length - 1 < items.length := by omega
      simp [hlt]
    have hindex : path.length + items.length - (path.length + 1) = items.length - 1 := by omega
    rw [hinit, List.filter_append, List.filter_cons_of_pos (by simpa using hpos), List.filter_nil,
      List.map_append, ← List.append_assoc, List.map_singleton, List.getLast?_concat, hindex, hlast]
  · have hfirst : (stepsUpTo (path.length + items.length) path.length low).map (idAt path) =
        (stepsUpTo (path.length + items.length) path.length low).map (idAt (path ++ items)) := by
      apply List.map_congr_left
      intro k hk
      obtain ⟨hge, hk⟩ := mem_stepsUpTo hle hk
      exact (List.getD_append _ _ _ _ (by omega)).symm
    have hsecond : ((steps (path.length + items.length) low).filter (path.length < ·)).map
          (fun k ↦ items.getD (k - (path.length + 1)) .null) =
        ((steps (path.length + items.length) low).filter (path.length < ·)).map
          (idAt (path ++ items)) := by
      apply List.map_congr_left
      intro k hk
      exact (idAt_append (of_decide_eq_true (List.mem_filter.mp hk).2)).symm
    have hsynopsis : synopsis = _ := (map_idAt_of_mem hpath hmem).symm
    rw [hsynopsis, hnums, hfirst, hsecond, ← List.map_append, stepsUpTo_append hle, walkIds,
      List.length_append, Nat.add_zero, stepsUpTo_top hle]

/-- The node walks on from the number the synopsis begins at. -/
theorem synopsisLow_eq (hne : items ≠ [])
    (hwalk : path = [] ∧ synopsis = [] ∨ ∃ low, 0 < low ∧ low ≤ path.length ∧
      synopsis.map BlockId.num = stepsUpTo (path.length + items.length) path.length low) :
    0 < synopsisLow synopsis ∧ synopsisLow synopsis ≤ path.length + items.length ∧
      synopsis.map BlockId.num =
        stepsUpTo (path.length + items.length) path.length (synopsisLow synopsis) := by
  have hpos := List.length_pos_iff.mpr hne
  rcases hwalk with ⟨rfl, rfl⟩ | ⟨low, hlow, hle, hnums⟩
  · have hone : 1 ≤ ([] : List BlockId).length + items.length := by
      rw [List.length_nil]
      omega
    exact ⟨Nat.one_pos, hone, (stepsUpTo_of_lt hone Nat.one_pos).symm⟩
  · have hfirst : synopsisLow synopsis = low := by
      rw [stepsUpTo_cons hle (Nat.le_add_right _ _)] at hnums
      cases synopsis with
      | nil => exact absurd hnums nofun
      | cons id rest => exact (List.cons.inj hnums).1
    rw [hfirst]
    exact ⟨hlow, hle.trans (Nat.le_add_right _ _), hnums⟩

/-- The same fork, after which no block can be undone. -/
def settledSync : SyncDatabase := { forkedSync with undoSize := 0 }

end KarmaCore.Net
