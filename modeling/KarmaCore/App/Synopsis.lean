import Mathlib
import KarmaCore.App.BlockIds
import KarmaCore.Chain.ForkBranches
import KarmaCore.Lib.ExceptTriple
import KarmaCore.Lib.HalvingWalk

/-!
# The synopsis of a chain

A synopsis begins with the highest block that cannot be undone, and each id in
it halves the way to the end of the chain.  The number it begins at is made of
the size of the undo stack, on which the session of the pending transactions
counts as a block.
-/

namespace KarmaCore.App

open Chain HalvingWalk

/-- What `get_blockchain_synopsis` asks of its chain database beside the blocks. -/
structure SyncDatabase extends ChainDatabase where
  undoSize : ℕ
  getBlockIdsOnFork : BlockId → Option (List BlockId)

def SyncDatabase.ofDatabase {Tx Res Rest : Type} (db : Database Tx Res Rest) : SyncDatabase where
  toChainDatabase := .ofDatabase db
  undoSize := db.stack.length
  getBlockIdsOnFork id := (db.forkDb.getBlockIdsOnFork db.objects.head.id id).toOption

/-- How `get_blockchain_synopsis` ends without a synopsis; `outOfRange` stands for a
vector that is read behind its end. -/
inductive SynopsisError
  | sync (e : SyncError)
  | noForkHistory
  | blockOlderThanUndoHistory
  | outOfRange
  | outOfFuel
  deriving DecidableEq

variable (c : SyncDatabase)

/-- `last_non_undoable_block_num`: the difference is taken in 64 bits and cut to 32. -/
def lastNonUndoableBlockNum : ℕ := (c.headBlockNum + (2 ^ 64 - c.undoSize)) % 2 ^ 32

/-- The numbers a synopsis is made from, and the ids of the fork above the last of its
blocks that is on the main chain. -/
structure SynopsisRange where
  low : ℕ
  nonForkHigh : ℕ
  high : ℕ
  forkHistory : List BlockId := []
  deriving DecidableEq

/-- The range that ends with the reference point. Nothing is left to do without one on an
empty chain. -/
def referenceRange (referencePoint : BlockId) : Except SynopsisError (Option SynopsisRange) :=
  let low := lastNonUndoableBlockNum c
  if referencePoint ≠ .null then
    match isIncludedBlock c.toChainDatabase referencePoint with
    | .error e => .error (.sync e)
    | .ok true =>
        let num := referencePoint.num
        .ok (some { low := if num < low then num else low, nonForkHigh := num, high := num })
    | .ok false =>
        match c.getBlockIdsOnFork referencePoint with
        | none => .error .noForkHistory
        | some history =>
            let lastNonForkBlock := history.getLastD .null
            let forkHistory := history.dropLast.reverse
            let nonForkHigh := if lastNonForkBlock = .null then 0 else lastNonForkBlock.num
            if nonForkHigh < low then .error .blockOlderThanUndoHistory
            else .ok (some { low, nonForkHigh, high := nonForkHigh + forkHistory.length, forkHistory })
  else if c.headBlockNum = 0 then .ok none
  else .ok (some { low, nonForkHigh := c.headBlockNum, high := c.headBlockNum })

/-- Where the id of a number is pulled from. -/
def blockIdAt (r : SynopsisRange) (num : ℕ) : Except SynopsisError BlockId :=
  if num ≤ r.nonForkHigh then
    match c.getBlockIdForNum num with
    | none => .error (.sync .keyNotFound)
    | some id => .ok id
  else
    match r.forkHistory[num - r.nonForkHigh - 1]? with
    | none => .error .outOfRange
    | some id => .ok id

/-- `low_block_num += (true_high_block_num - low_block_num + 2) / 2` on `uint32_t`. -/
def nextNum (trueHigh low : ℕ) : ℕ :=
  (low + (trueHigh + 2 ^ 32 - low + 2) % 2 ^ 32 / 2) % 2 ^ 32

def collectSynopsis (r : SynopsisRange) (trueHigh : ℕ) :
    ℕ → ℕ → Except SynopsisError (List BlockId)
  | 0, _ => .error .outOfFuel
  | fuel + 1, low => do
      let id ← blockIdAt c r low
      if nextNum trueHigh low ≤ r.high then do
        let ids ← collectSynopsis r trueHigh fuel (nextNum trueHigh low)
        return id :: ids
      else return [id]

/-- The number the loop over a range begins at. -/
def SynopsisRange.firstNum (r : SynopsisRange) : ℕ := if r.low = 0 then 1 else r.low

/-- The loop over a range, which takes a step for each of its numbers at most. -/
def synopsisOf (r : SynopsisRange) (numberOfBlocksAfter : ℕ) :
    Except SynopsisError (List BlockId) :=
  collectSynopsis c r ((r.high + numberOfBlocksAfter) % 2 ^ 32) (r.high + 1)
    r.firstNum

def getBlockchainSynopsis (referencePoint : BlockId) (numberOfBlocksAfter : ℕ) :
    Except SynopsisError (List BlockId) :=
  match referenceRange c referencePoint with
  | .error e => .error e
  | .ok none => .ok []
  | .ok (some r) => synopsisOf c r numberOfBlocksAfter

/-! ## The synopsis that is asked for -/

/-- The ids of a chain from block 1 on. -/
def Consecutive (path : List BlockId) : Prop := ∀ i (h : i < path.length), path[i].num = i + 1

def idAt (path : List BlockId) (num : ℕ) : BlockId := path.getD (num - 1) .null

/-- A synopsis of a chain that begins at a number and leaves room for `after` blocks. -/
structure SynopsisRight (path : List BlockId) (start after : ℕ) (synopsis : List BlockId) :
    Prop where
  mem : ∀ id ∈ synopsis, id ∈ path
  increasing : (synopsis.map BlockId.num).Pairwise (· < ·)
  first : path ≠ [] → synopsis.head?.map BlockId.num = some start
  halves : (synopsis.map BlockId.num).IsChain fun a b ↦
    a < b ∧ path.length + after - b = (path.length + after - a - 1) / 2
  complete : ∀ id ∈ synopsis.getLast?, path.length < next (path.length + after) id.num
  last : after = 0 → synopsis.getLast? = path.getLast?

/-- No sum of the loop is above 32 bits. -/
structure FitsWalk (path : List BlockId) (start after : ℕ) : Prop where
  top : path.length + after < 2 ^ 32
  gap : path.length + after + 2 < 2 ^ 32 + start
  past : 0 < after ∨ path.length + 1 < 2 ^ 32

/-- The synopsis of the numbers of the walk. -/
def walkIds (path : List BlockId) (start after : ℕ) : List BlockId :=
  (stepsUpTo (path.length + after) path.length start).map (idAt path)

variable {c} {path : List BlockId} {start after : ℕ}

namespace Consecutive

theorem idAt_mem (hpath : Consecutive path) {k : ℕ} (hk : 0 < k) (hle : k ≤ path.length) :
    idAt path k ∈ path ∧ (idAt path k).num = k ∧ path[k - 1]? = some (idAt path k) := by
  have hlt : k - 1 < path.length := by omega
  have hid : idAt path k = path[k - 1] := by simp [idAt, hlt]
  rw [hid, hpath (k - 1) hlt]
  exact ⟨List.getElem_mem hlt, by omega, List.getElem?_eq_getElem hlt⟩

theorem num_of_mem (hpath : Consecutive path) {id : BlockId} (hid : id ∈ path) :
    0 < id.num ∧ id.num ≤ path.length ∧ idAt path id.num = id := by
  obtain ⟨i, hi, rfl⟩ := List.getElem_of_mem hid
  rw [hpath i hi]
  exact ⟨i.succ_pos, hi, by simp [idAt, hi]⟩

/-- The walk is the only right synopsis. -/
theorem eq_walkIds (hpath : Consecutive path) {synopsis : List BlockId}
    (hmem : ∀ id ∈ synopsis, id ∈ path)
    (hchain : (synopsis.map BlockId.num).IsChain fun a b ↦
      a < b ∧ path.length + after - b = (path.length + after - a - 1) / 2)
    (hfirst : synopsis.head?.map BlockId.num = some start)
    (hcomplete : ∀ id ∈ synopsis.getLast?, path.length < next (path.length + after) id.num) :
    synopsis = walkIds path start after := by
  induction synopsis generalizing start with
  | nil => exact absurd hfirst nofun
  | cons a rest ih =>
      obtain rfl : a.num = start := Option.some.inj hfirst
      obtain ⟨-, hle, hid⟩ := hpath.num_of_mem (hmem a List.mem_cons_self)
      rw [walkIds, stepsUpTo_cons hle (Nat.le_add_right _ _), List.map_cons, hid]
      cases rest with
      | nil =>
          have hpast := hcomplete a rfl
          rw [if_neg (not_le.mpr hpast), List.map_nil]
      | cons b rest =>
          rw [List.map_cons, List.map_cons, List.isChain_cons_cons] at hchain
          obtain ⟨⟨hlt, hgap⟩, hchain⟩ := hchain
          obtain ⟨-, hle', -⟩ := hpath.num_of_mem (hmem b (by simp))
          have hnext := eq_next hlt (hle'.trans (Nat.le_add_right _ after)) hgap
          rw [if_pos (hnext ▸ hle'), ← walkIds]
          congr 1
          apply ih (fun id hid ↦ hmem id (List.mem_cons_of_mem a hid)) hchain
          · rw [List.head?_cons, Option.map_some, hnext]
          · intro id hid
            apply hcomplete id
            rw [List.getLast?_cons_cons]
            exact hid

theorem map_num_walkIds (hpath : Consecutive path) (hstart : 0 < start)
    (hle : start ≤ path.length) :
    (walkIds path start after).map BlockId.num =
      stepsUpTo (path.length + after) path.length start := by
  have hnum : ∀ k ∈ stepsUpTo (path.length + after) path.length start, (idAt path k).num = k := by
    intro k hk
    obtain ⟨hge, hk⟩ := mem_stepsUpTo (hle.trans (Nat.le_add_right _ _)) hk
    exact (hpath.idAt_mem (hstart.trans_le hge) hk).2.1
  rw [walkIds, List.map_map]
  exact (List.map_congr_left hnum).trans (List.map_id _)

theorem right_walkIds (hpath : Consecutive path) (hstart : 0 < start)
    (hle : start ≤ path.length) : SynopsisRight path start after (walkIds path start after) := by
  have htop : path.length ≤ path.length + after := Nat.le_add_right _ _
  have hnums : (walkIds path start after).map BlockId.num = _ := hpath.map_num_walkIds hstart hle
  obtain ⟨k, hk, hpast⟩ := getLast?_stepsUpTo hle htop
  have hkmem := mem_stepsUpTo (hle.trans htop) (List.mem_of_getLast? hk)
  have hlast : (walkIds path start after).getLast? = some (idAt path k) := by
    rw [walkIds, List.getLast?_map, Option.mem_def.mp hk, Option.map_some]
  have hidAt := hpath.idAt_mem (hstart.trans_le hkmem.1) hkmem.2
  refine ⟨fun id hid ↦ ?_, ?_, fun _ ↦ ?_, ?_, fun id hid ↦ ?_, ?_⟩
  · obtain ⟨k, hk, rfl⟩ := List.mem_map.mp hid
    obtain ⟨hge, hk⟩ := mem_stepsUpTo (hle.trans htop) hk
    exact (hpath.idAt_mem (hstart.trans_le hge) hk).1
  · rw [hnums]
    exact (pairwise_steps (hle.trans htop)).filter _
  · rw [← List.head?_map, hnums, stepsUpTo_cons hle htop]
    rfl
  · rw [hnums]
    exact isChain_stepsUpTo (hle.trans htop)
  · rw [hlast] at hid
    obtain rfl := Option.some.inj hid
    rwa [hidAt.2.1]
  · rintro rfl
    have hwhole : k = path.length := by
      rcases hkmem.2.lt_or_eq with hlt | heq
      · exact absurd (next_le hlt) (not_le.mpr hpast)
      · exact heq
    rw [hlast, ← hidAt.2.2, hwhole, List.getLast?_eq_getElem?]

end Consecutive

/-! ## The loop -/

theorem nextNum_eq {top low : ℕ} (hle : low ≤ top) (htop : top < 2 ^ 32)
    (hgap : top + 2 < 2 ^ 32 + low) (hpast : low < top ∨ top + 1 < 2 ^ 32) :
    nextNum top low = next top low := by
  have hmod : (top + 2 ^ 32 - low + 2) % 2 ^ 32 = top - low + 2 := by omega
  rw [nextNum, hmod, next, Nat.mod_eq_of_lt]
  omega

/-- From a number of the range on, the loop pulls the ids of the walk. -/
theorem collectSynopsis_eq {r : SynopsisRange} {top low fuel : ℕ} (hlow : low ≤ r.high)
    (htop : r.high ≤ top) (hrange : top < 2 ^ 32) (hgap : top + 2 < 2 ^ 32 + low)
    (hpast : r.high < top ∨ top + 1 < 2 ^ 32) (hfuel : r.high - low < fuel) :
    collectSynopsis c r top fuel low = (stepsUpTo top r.high low).mapM (blockIdAt c r) := by
  induction fuel generalizing low with
  | zero => exact absurd hfuel (Nat.not_lt_zero _)
  | succ fuel ih =>
      have hnext := nextNum_eq (hlow.trans htop) hrange hgap (by omega)
      have hlt : low < next top low := lt_next
      rw [collectSynopsis, stepsUpTo_cons hlow htop, List.mapM_cons, hnext]
      by_cases hle : next top low ≤ r.high
      · simp only [if_pos hle, ih hle (by omega) (by omega)]
      · simp only [if_neg hle, List.mapM_nil, pure_bind]

/-- The first id is the one of the number the loop begins at. -/
theorem head?_of_collectSynopsis {r : SynopsisRange} {top low fuel : ℕ} {synopsis : List BlockId}
    (h : collectSynopsis c r top fuel low = .ok synopsis) :
    ∃ id, synopsis.head? = some id ∧ blockIdAt c r low = .ok id := by
  cases fuel with
  | zero => exact absurd h nofun
  | succ fuel =>
      obtain ⟨id, hid, h⟩ := Except.bind_eq_ok.mp h
      refine ⟨id, ?_, hid⟩
      split_ifs at h
      · obtain ⟨ids, -, h⟩ := Except.bind_eq_ok.mp h
        obtain rfl := Except.ok.inj h
        rfl
      · obtain rfl := Except.ok.inj h
        rfl

/-- The synopsis of a range is right if the range begins at the right number and
the ids of the chain are where they are pulled from. -/
theorem synopsisOf_right_iff {r : SynopsisRange} (hpath : Consecutive path) (hstart : 0 < start)
    (hle : start ≤ path.length) (hhigh : r.high = path.length)
    (hnum : ∀ id, blockIdAt c r r.firstNum = .ok id → id.num = r.firstNum)
    (hfits : FitsWalk path start after) :
    (∃ synopsis, synopsisOf c r after = .ok synopsis ∧ SynopsisRight path start after synopsis) ↔
      r.firstNum = start ∧ ∀ k ∈ stepsUpTo (path.length + after) path.length start,
        blockIdAt c r k = .ok (idAt path k) := by
  have hne : path ≠ [] := List.ne_nil_of_length_pos (hstart.trans_le hle)
  have hpast := hfits.past
  have htop := hfits.top
  rw [synopsisOf, hhigh, Nat.mod_eq_of_lt htop]
  have hloop : r.firstNum = start →
      collectSynopsis c r (path.length + after) (path.length + 1) r.firstNum =
        (stepsUpTo (path.length + after) path.length start).mapM (blockIdAt c r) := by
    intro heq
    have hgap := hfits.gap
    rw [collectSynopsis_eq (by omega) (by omega) htop (by omega) (by omega) (by omega), heq, hhigh]
  constructor
  · rintro ⟨synopsis, hsynopsis, hright⟩
    obtain ⟨id, hhead, hid⟩ := head?_of_collectSynopsis hsynopsis
    have hfirst := hright.first hne
    rw [hhead, Option.map_some, Option.some.injEq, hnum id hid] at hfirst
    have hwalk : synopsis = walkIds path start after :=
      hpath.eq_walkIds hright.mem hright.halves (hright.first hne) hright.complete
    rw [hloop hfirst, hwalk] at hsynopsis
    exact ⟨hfirst, Except.mapM_eq_ok_map_iff.mp hsynopsis⟩
  · rintro ⟨heq, hids⟩
    refine ⟨walkIds path start after, ?_, hpath.right_walkIds hstart hle⟩
    rw [hloop heq]
    exact Except.mapM_eq_ok_map_iff.mpr hids

/-! ## The chain database -/

variable (c) in
/-- A chain, blocks of which can be undone, maybe with a session of pending
transactions above them. -/
structure SyncState (ids : List BlockId) (undoable : ℕ) (pending : Bool) : Prop
    extends c.toChainDatabase.MainChain ids where
  stored : ∀ num id, c.getBlockIdForNum num = some id → id.num = num
  undoSize : c.undoSize = undoable + pending.toNat
  undoable_le : undoable ≤ c.headBlockNum

variable (c) in
/-- The reference points, and the chain up to each of them: a fork branches off where
it can be switched to. -/
inductive ReferencePoint (ids : List BlockId) (undoable : ℕ) : BlockId → List BlockId → Prop
  | none : ReferencePoint ids undoable .null ids
  | mainChain {id : BlockId} (hid : id ∈ ids) : ReferencePoint ids undoable id (ids.take id.num)
  | fork {id ancestor : BlockId} {fork : List BlockId}
      (hknown : c.getBlockIdsOnFork id = some (fork.reverse ++ [ancestor]))
      (hfront : fork.getLast? = some id)
      (hnum : ∀ i (h : i < fork.length), fork[i].num = ancestor.num + i + 1)
      (hancestor : OnChain ids ancestor)
      (hwindow : c.headBlockNum - undoable ≤ ancestor.num) :
      ReferencePoint ids undoable id (ids.take ancestor.num ++ fork)

variable (c) in
/-- The number of the highest block that cannot be undone, if the chain is not shorter. -/
def synopsisStart (undoable : ℕ) (path : List BlockId) : ℕ :=
  min (max 1 (c.headBlockNum - undoable)) path.length

variable (c) in
/-- The reference point counts as a block of the main chain. -/
def Included (referencePoint : BlockId) : Prop :=
  referencePoint ≠ .null ∧ c.getBlockIdForNum referencePoint.num = some referencePoint

variable (c) in
/-- The session of the pending transactions is not counted or makes no difference. -/
def StartsRight (undoable : ℕ) (pending : Bool) (referencePoint : BlockId)
    (path : List BlockId) : Prop :=
  pending = true → c.headBlockNum - undoable = 1 ∨
    Included c referencePoint ∧ (path.length < c.headBlockNum - undoable ∨
      c.headBlockNum - undoable = 0 ∧ path.length = 1)

variable (c) in
/-- The log tells whether the reference point is on the main chain, and if so, has its chain. -/
def LogServes (referencePoint : BlockId) (path : List BlockId) (start after : ℕ) : Prop :=
  referencePoint = .null ∨
  (∃ other, c.getBlockIdForNum referencePoint.num = some other ∧ other ≠ referencePoint) ∨
  c.getBlockIdForNum referencePoint.num = some referencePoint ∧
    ∀ k ∈ stepsUpTo (path.length + after) path.length start,
      c.getBlockIdForNum k = path[k - 1]?

variable {ids : List BlockId} {undoable : ℕ} {pending : Bool} {referencePoint : BlockId}

namespace SyncState

theorem lastNonUndoableBlockNum_eq (hstate : SyncState c ids undoable pending) :
    lastNonUndoableBlockNum c =
      if pending = true then
        if c.headBlockNum - undoable = 0 then 2 ^ 32 - 1 else c.headBlockNum - undoable - 1
      else c.headBlockNum - undoable := by
  have hrange := hstate.range
  have hsize := hstate.undoSize
  have hle := hstate.undoable_le
  rw [lastNonUndoableBlockNum, hsize]
  cases pending with
  | false => simp only [Bool.toNat_false, Bool.false_eq_true, if_false]; omega
  | true =>
      simp only [Bool.toNat_true, if_true]
      split_ifs with hnone <;> omega

theorem consecutive (hstate : SyncState c ids undoable pending) : Consecutive ids := hstate.num

/-- The log has the main chain. -/
theorem logged_idAt (hstate : SyncState c ids undoable pending) {k : ℕ} (hk : 0 < k)
    (hle : k ≤ c.headBlockNum) : c.getBlockIdForNum k = ids[k - 1]? := by
  obtain ⟨n, rfl⟩ : ∃ n, k = n + 1 := ⟨k - 1, by omega⟩
  rw [hstate.toMainChain.getBlockIdForNum_succ hle]
  exact (List.getElem?_eq_getElem _).symm

end SyncState

theorem OnChain.num_le (hstate : SyncState c ids undoable pending) {id : BlockId}
    (hid : OnChain ids id) : id.num ≤ ids.length := by
  rcases hid with rfl | hid
  · exact Nat.zero_le _
  · rw [hstate.length]
    exact (hstate.toMainChain.num_of_mem hid).2.1

theorem ReferencePoint.consecutive (hstate : SyncState c ids undoable pending)
    (href : ReferencePoint c ids undoable referencePoint path) : Consecutive path := by
  cases href with
  | none => exact hstate.consecutive
  | mainChain hid =>
      intro i hi
      rw [List.getElem_take]
      exact hstate.num i (hi.trans_le (List.length_take_le' _ _))
  | @fork id ancestor fork hknown hfront hnum hancestor hwindow =>
      have hlength : (ids.take ancestor.num).length = ancestor.num :=
        List.length_take_of_le (hancestor.num_le hstate)
      intro i hi
      rw [List.getElem_append]
      split_ifs with hlt
      · rw [List.getElem_take]
        exact hstate.num i (hlt.trans_le (List.length_take_le' _ _))
      · rw [hnum, hlength]
        omega

/-! ## The three kinds of reference points -/

theorem blockIdAt_eq_ok_iff {r : SynopsisRange} {k : ℕ} {id : BlockId} (hk : k ≤ r.nonForkHigh) :
    blockIdAt c r k = .ok id ↔ c.getBlockIdForNum k = some id := by
  rw [blockIdAt, if_pos hk]
  cases c.getBlockIdForNum k with
  | none => exact ⟨nofun, nofun⟩
  | some id' => simp

/-- An id that is pulled has the number it is pulled for. -/
theorem num_of_blockIdAt (hstate : SyncState c ids undoable pending) {r : SynopsisRange}
    (hnum : ∀ i (h : i < r.forkHistory.length), r.forkHistory[i].num = r.nonForkHigh + i + 1)
    {k : ℕ} {id : BlockId} (h : blockIdAt c r k = .ok id) : id.num = k := by
  by_cases hk : k ≤ r.nonForkHigh
  · exact hstate.stored k id ((blockIdAt_eq_ok_iff hk).mp h)
  · rw [blockIdAt, if_neg hk] at h
    cases hfork : r.forkHistory[k - r.nonForkHigh - 1]? with
    | none =>
        rw [hfork] at h
        exact absurd h nofun
    | some id' =>
        rw [hfork] at h
        obtain rfl := Except.ok.inj h
        obtain ⟨hlt, rfl⟩ := List.getElem?_eq_some_iff.mp hfork
        rw [hnum _ hlt]
        omega

theorem synopsisStart_pos (hpath : 0 < path.length) : 0 < synopsisStart c undoable path := by
  rw [synopsisStart]
  omega

theorem getBlockchainSynopsis_of_range {r : SynopsisRange}
    (h : referenceRange c referencePoint = .ok (some r)) :
    getBlockchainSynopsis c referencePoint after = synopsisOf c r after := by
  rw [getBlockchainSynopsis, h]

/-- A range of the main chain. -/
abbrev SynopsisRange.main (low high : ℕ) : SynopsisRange := { low, nonForkHigh := high, high }

/-- The synopsis of a range of the main chain. -/
theorem right_iff_of_main (hstate : SyncState c ids undoable pending) {low : ℕ}
    (hrange : referenceRange c referencePoint = .ok (some (.main low path.length)))
    (hpath : Consecutive path) (hpos : 0 < path.length)
    (hfits : FitsWalk path (synopsisStart c undoable path) after) :
    (∃ synopsis, getBlockchainSynopsis c referencePoint after = .ok synopsis ∧
      SynopsisRight path (synopsisStart c undoable path) after synopsis) ↔
      (if low = 0 then 1 else low) = synopsisStart c undoable path ∧
        ∀ k ∈ stepsUpTo (path.length + after) path.length (synopsisStart c undoable path),
          c.getBlockIdForNum k = path[k - 1]? := by
  have hstart : 0 < synopsisStart c undoable path := synopsisStart_pos hpos
  have hle : synopsisStart c undoable path ≤ path.length := min_le_right _ _
  have hnum : ∀ id, blockIdAt c (.main low path.length) (SynopsisRange.main low path.length).firstNum =
      .ok id → id.num = (SynopsisRange.main low path.length).firstNum :=
    fun id ↦ num_of_blockIdAt hstate (r := .main low path.length) fun i hi ↦ absurd hi i.not_lt_zero
  rw [getBlockchainSynopsis_of_range hrange, synopsisOf_right_iff hpath hstart hle rfl hnum hfits,
    SynopsisRange.firstNum]
  apply and_congr_right
  intro _
  apply forall₂_congr
  intro k hk
  obtain ⟨hge, hk⟩ := mem_stepsUpTo (hle.trans (Nat.le_add_right _ _)) hk
  rw [blockIdAt_eq_ok_iff hk, (hpath.idAt_mem (hstart.trans_le hge) hk).2.2]

/-- Without a reference point the whole chain is summarized. -/
theorem right_iff_of_none (hstate : SyncState c ids undoable pending) (hne : ids ≠ [])
    (hfits : FitsWalk ids (synopsisStart c undoable ids) after) :
    (∃ synopsis, getBlockchainSynopsis c .null after = .ok synopsis ∧
      SynopsisRight ids (synopsisStart c undoable ids) after synopsis) ↔
      StartsRight c undoable pending .null ids := by
  have hlength := hstate.length
  have hpos : 0 < ids.length := List.length_pos_iff.mpr hne
  have hrange : referenceRange c .null =
      .ok (some (.main (lastNonUndoableBlockNum c) ids.length)) := by
    rw [referenceRange, if_neg (not_not.mpr rfl), if_neg (by omega), hlength]
  have hlogged : ∀ k ∈ stepsUpTo (ids.length + after) ids.length (synopsisStart c undoable ids),
      c.getBlockIdForNum k = ids[k - 1]? := by
    intro k hk
    have hstart : 0 < synopsisStart c undoable ids := synopsisStart_pos hpos
    obtain ⟨hge, hk⟩ := mem_stepsUpTo ((min_le_right _ _).trans (Nat.le_add_right _ _)) hk
    exact hstate.logged_idAt (hstart.trans_le hge) (hlength ▸ hk)
  rw [right_iff_of_main hstate hrange hstate.consecutive hpos hfits, and_iff_left hlogged]
  have hhead := hstate.range
  have hundoable := hstate.undoable_le
  rw [hstate.lastNonUndoableBlockNum_eq, synopsisStart, StartsRight, Included]
  cases pending with
  | false =>
      simp only [Bool.false_eq_true, if_false, false_implies, iff_true]
      split_ifs <;> omega
  | true =>
      simp only [if_true, true_implies, ne_eq, not_true_eq_false, false_and, or_false]
      by_cases hnone : c.headBlockNum - undoable = 0
      · rw [if_pos hnone, if_neg (by omega)]
        omega
      · rw [if_neg hnone]
        split_ifs <;> omega

/-- A reference point under whose number the log has it. -/
theorem right_iff_of_included (hstate : SyncState c ids undoable pending)
    (hincluded : Included c referencePoint) (hpath : Consecutive path)
    (hlength : path.length = referencePoint.num)
    (hfits : FitsWalk path (synopsisStart c undoable path) after) :
    (∃ synopsis, getBlockchainSynopsis c referencePoint after = .ok synopsis ∧
      SynopsisRight path (synopsisStart c undoable path) after synopsis) ↔
      StartsRight c undoable pending referencePoint path ∧
        ∀ k ∈ stepsUpTo (path.length + after) path.length (synopsisStart c undoable path),
          c.getBlockIdForNum k = path[k - 1]? := by
  have hpos : 0 < path.length := by
    rw [hlength]
    apply Nat.pos_of_ne_zero
    intro hzero
    have hlog := hincluded.2
    rw [hzero, hstate.zero] at hlog
    exact absurd hlog nofun
  have hrange : referenceRange c referencePoint = .ok (some (.main
      (if path.length < lastNonUndoableBlockNum c then path.length else lastNonUndoableBlockNum c)
      path.length)) := by
    simp only [referenceRange, if_pos hincluded.1, isIncludedBlock, hincluded.2, decide_true,
      hlength]
  rw [right_iff_of_main hstate hrange hpath hpos hfits]
  apply and_congr_left
  intro _
  have hundoable := hstate.undoable_le
  have hhead := hstate.range
  have htop := hfits.top
  rw [hstate.lastNonUndoableBlockNum_eq, synopsisStart, StartsRight]
  cases pending with
  | false =>
      simp only [Bool.false_eq_true, if_false, false_implies, iff_true]
      split_ifs <;> omega
  | true =>
      simp only [if_true, true_implies, hincluded, true_and]
      by_cases hnone : c.headBlockNum - undoable = 0
      · -- the number has wrapped, and the reference point is below it
        have hlow : (if path.length < 2 ^ 32 - 1 then path.length else 2 ^ 32 - 1) = path.length := by
          split_ifs <;> omega
        rw [if_pos hnone, hlow, if_neg hpos.ne']
        omega
      · rw [if_neg hnone]
        split_ifs <;> omega

/-- The front of a fork has the number of its place. -/
theorem num_front {ancestor : BlockId} {fork : List BlockId}
    (hfront : fork.getLast? = some referencePoint)
    (hnum : ∀ i (h : i < fork.length), fork[i].num = ancestor.num + i + 1) :
    0 < fork.length ∧ referencePoint.num = ancestor.num + fork.length ∧ referencePoint ≠ .null := by
  have hfork : 0 < fork.length := by
    apply List.length_pos_iff.mpr
    rintro rfl
    exact absurd hfront nofun
  rw [List.getLast?_eq_getElem?] at hfront
  obtain ⟨hlt, heq⟩ := List.getElem?_eq_some_iff.mp hfront
  have hplace := hnum _ hlt
  rw [heq] at hplace
  refine ⟨hfork, by omega, ?_⟩
  rintro rfl
  exact absurd hplace (by simp [BlockId.null])

/-- The range of a fork. -/
theorem referenceRange_of_fork {ancestor : BlockId} {fork : List BlockId}
    (hne : referencePoint ≠ .null)
    (hincluded : isIncludedBlock c.toChainDatabase referencePoint = .ok false)
    (hknown : c.getBlockIdsOnFork referencePoint = some (fork.reverse ++ [ancestor])) :
    referenceRange c referencePoint =
      if ancestor.num < lastNonUndoableBlockNum c then .error .blockOlderThanUndoHistory
      else .ok (some { low := lastNonUndoableBlockNum c, nonForkHigh := ancestor.num
                       high := ancestor.num + fork.length, forkHistory := fork }) := by
  have hzero : (if ancestor = .null then 0 else ancestor.num) = ancestor.num := by
    split_ifs with hnull
    · rw [hnull]
      rfl
    · rfl
  have hlast : (fork.reverse ++ [ancestor]).getLastD .null = ancestor := by simp
  simp only [referenceRange, if_pos hne, hincluded, hknown, hlast, hzero, List.dropLast_concat,
    List.reverse_reverse]

/-- A reference point on a fork, under whose number the log has another block. -/
theorem right_iff_of_fork (hstate : SyncState c ids undoable pending) {ancestor : BlockId}
    {fork : List BlockId}
    (hknown : c.getBlockIdsOnFork referencePoint = some (fork.reverse ++ [ancestor]))
    (hfront : fork.getLast? = some referencePoint)
    (hnum : ∀ i (h : i < fork.length), fork[i].num = ancestor.num + i + 1)
    (hancestor : OnChain ids ancestor) (hwindow : c.headBlockNum - undoable ≤ ancestor.num)
    (hpath : path = ids.take ancestor.num ++ fork) (hconsecutive : Consecutive path)
    {other : BlockId} (hlog : c.getBlockIdForNum referencePoint.num = some other)
    (hother : other ≠ referencePoint)
    (hfits : FitsWalk path (synopsisStart c undoable path) after) :
    (∃ synopsis, getBlockchainSynopsis c referencePoint after = .ok synopsis ∧
      SynopsisRight path (synopsisStart c undoable path) after synopsis) ↔
      StartsRight c undoable pending referencePoint path := by
  obtain ⟨hfork, -, hne⟩ := num_front hfront hnum
  have hbelow : (ids.take ancestor.num).length = ancestor.num :=
    List.length_take_of_le (hancestor.num_le hstate)
  have hlength : path.length = ancestor.num + fork.length := by
    rw [hpath, List.length_append, hbelow]
  have hnot : ¬Included c referencePoint := fun h ↦
    hother (Option.some.inj (hlog.symm.trans h.2))
  have hundoable := hstate.undoable_le
  have hhead := hstate.range
  have htop := hfits.top
  have hincluded : isIncludedBlock c.toChainDatabase referencePoint = .ok false := by
    simp only [isIncludedBlock, hlog, hother.symm, decide_false]
  have hrange := referenceRange_of_fork hne hincluded hknown
  rw [← hlength] at hrange
  by_cases hold : ancestor.num < lastNonUndoableBlockNum c
  · -- only a number that has wrapped is above the fork
    rw [if_pos hold] at hrange
    rw [getBlockchainSynopsis, hrange]
    refine iff_of_false ?_ fun hright ↦ ?_
    · rintro ⟨_, h, -⟩
      cases h
    rw [hstate.lastNonUndoableBlockNum_eq] at hold
    rw [StartsRight] at hright
    simp only [hnot, false_and, or_false] at hright
    split_ifs at hold with hpending hnone
    · have := hright hpending
      omega
    · omega
    · omega
  · rw [if_neg hold] at hrange
    have hpos : 0 < path.length := by omega
    have hids : ∀ k ∈ stepsUpTo (path.length + after) path.length (synopsisStart c undoable path),
        blockIdAt c { low := lastNonUndoableBlockNum c, nonForkHigh := ancestor.num
                      high := path.length, forkHistory := fork } k = .ok (idAt path k) := by
      intro k hk
      have hstart : 0 < synopsisStart c undoable path := synopsisStart_pos hpos
      obtain ⟨hge, hk⟩ := mem_stepsUpTo ((min_le_right _ _).trans (Nat.le_add_right _ _)) hk
      have hid := (hconsecutive.idAt_mem (hstart.trans_le hge) hk).2.2
      by_cases hmain : k ≤ ancestor.num
      · have hle : k ≤ ids.length := hmain.trans (hancestor.num_le hstate)
        rw [blockIdAt_eq_ok_iff hmain, hstate.logged_idAt (hstart.trans_le hge) (hstate.length ▸ hle),
          ← hid, hpath, List.getElem?_append_left (by omega), List.getElem?_take_of_lt (by omega)]
      · rw [hpath, List.getElem?_append_right (by omega), hbelow, ← hpath] at hid
        have hindex : k - ancestor.num - 1 = k - 1 - ancestor.num := by omega
        simp only [blockIdAt, if_neg hmain, hindex, hid]
    rw [getBlockchainSynopsis_of_range hrange, synopsisOf_right_iff hconsecutive
      (synopsisStart_pos hpos) (min_le_right _ _) rfl (fun id ↦ num_of_blockIdAt hstate hnum) hfits,
      and_iff_left hids, SynopsisRange.firstNum, synopsisStart, StartsRight]
    simp only [hnot, false_and, or_false]
    rw [hstate.lastNonUndoableBlockNum_eq] at hold ⊢
    cases pending with
    | false =>
        simp only [Bool.false_eq_true, if_false, false_implies, iff_true]
        split_ifs <;> omega
    | true =>
        simp only [if_true, true_implies] at hold ⊢
        by_cases hnone : c.headBlockNum - undoable = 0
        · rw [if_pos hnone] at hold
          omega
        · rw [if_neg hnone]
          split_ifs <;> omega

/-! ## Any synopsis that is returned -/

/-- A range ends with the chain, and begins in it or where there is nothing. -/
structure RangeEnds (path : List BlockId) (r : SynopsisRange) : Prop where
  high : r.high = path.length
  pos : 0 < path.length
  num : ∀ i (h : i < r.forkHistory.length), r.forkHistory[i].num = r.nonForkHigh + i + 1
  low : r.low ≤ path.length ∨ r.nonForkHigh < r.low ∧ r.forkHistory = []

theorem rangeEnds_of_included {r : SynopsisRange} (hne : referencePoint ≠ .null)
    (hincluded : isIncludedBlock c.toChainDatabase referencePoint = .ok true)
    (hlength : path.length = referencePoint.num) (hpos : 0 < path.length)
    (h : referenceRange c referencePoint = .ok (some r)) : RangeEnds path r := by
  rw [referenceRange, if_pos hne, hincluded] at h
  obtain rfl := Option.some.inj (Except.ok.inj h)
  refine ⟨hlength.symm, hpos, fun i hi ↦ absurd hi i.not_lt_zero, .inl ?_⟩
  dsimp only
  split_ifs <;> omega

theorem rangeEnds_of_range (hstate : SyncState c ids undoable pending)
    (href : ReferencePoint c ids undoable referencePoint path) {r : SynopsisRange}
    (hrange : path.length + 1 < 2 ^ 32)
    (h : referenceRange c referencePoint = .ok (some r)) : RangeEnds path r := by
  have hlengthIds := hstate.length
  cases href with
  | none =>
      rw [referenceRange, if_neg (not_not.mpr rfl)] at h
      split_ifs at h with hhead
      · exact absurd (Except.ok.inj h) nofun
      obtain rfl := Option.some.inj (Except.ok.inj h)
      refine ⟨hlengthIds.symm, by omega, fun i hi ↦ absurd hi i.not_lt_zero, ?_⟩
      dsimp only
      rw [hstate.lastNonUndoableBlockNum_eq]
      split_ifs with hpending hnone
      · exact .inr ⟨by omega, rfl⟩
      · exact .inl (by omega)
      · exact .inl (by omega)
  | mainChain hid =>
      have hnum := hstate.toMainChain.num_of_mem hid
      have hlength : (ids.take referencePoint.num).length = referencePoint.num :=
        List.length_take_of_le (hlengthIds ▸ hnum.2.1)
      exact rangeEnds_of_included (hstate.toMainChain.ne_null hid)
        (isIncludedBlock_of_mem hstate.toMainChain hid) hlength (hlength.symm ▸ hnum.1) h
  | fork hknown hfront hnum hancestor hwindow =>
      rename_i ancestor fork
      obtain ⟨hfork, hplace, hne⟩ := num_front hfront hnum
      have hlength : (ids.take ancestor.num ++ fork).length = referencePoint.num := by
        rw [List.length_append, List.length_take_of_le (hancestor.num_le hstate), hplace]
      cases hincluded : isIncludedBlock c.toChainDatabase referencePoint with
      | error e => simp [referenceRange, hne, hincluded] at h
      | ok included =>
          cases included with
          | true => exact rangeEnds_of_included hne hincluded hlength (by omega) h
          | false =>
              rw [referenceRange_of_fork hne hincluded hknown] at h
              split_ifs at h with hold
              obtain rfl := Option.some.inj (Except.ok.inj h)
              exact ⟨by rw [hlength, hplace], by omega, hnum, .inl (by dsimp only; omega)⟩

/-- There is no range for an empty chain only. -/
theorem eq_nil_of_range_none (hstate : SyncState c ids undoable pending)
    (href : ReferencePoint c ids undoable referencePoint path)
    (h : referenceRange c referencePoint = .ok none) : path = [] := by
  by_cases hnull : referencePoint = .null
  · rw [referenceRange, if_neg (not_not.mpr hnull)] at h
    split_ifs at h with hhead
    · cases href with
      | none => exact List.length_eq_zero_iff.mp (hstate.length.trans hhead)
      | mainChain hid => exact absurd hnull (hstate.toMainChain.ne_null hid)
      | fork hknown hfront hnum => exact absurd hnull (num_front hfront hnum).2.2
    · exact absurd (Except.ok.inj h) nofun
  · simp only [referenceRange, ne_eq, hnull, not_false_eq_true, if_true] at h
    split at h
    · exact absurd h nofun
    · exact absurd (Except.ok.inj h) nofun
    · split at h
      · exact absurd h nofun
      · split_ifs at h <;> exact absurd (Except.ok.inj h) nofun

/-- Whatever is returned has the numbers of a walk. -/
theorem map_num_of_getBlockchainSynopsis (hstate : SyncState c ids undoable pending)
    (href : ReferencePoint c ids undoable referencePoint path)
    (hrange : path.length + after + 1 < 2 ^ 32) {synopsis : List BlockId}
    (h : getBlockchainSynopsis c referencePoint after = .ok synopsis) :
    path = [] ∧ synopsis = [] ∨ ∃ low, 0 < low ∧ low ≤ path.length ∧
      synopsis.map BlockId.num = stepsUpTo (path.length + after) path.length low := by
  rw [getBlockchainSynopsis] at h
  cases hr : referenceRange c referencePoint with
  | error e =>
      rw [hr] at h
      exact absurd h nofun
  | ok found =>
      rw [hr] at h
      cases found with
      | none =>
          obtain rfl := Except.ok.inj h
          exact .inl ⟨eq_nil_of_range_none hstate href hr, rfl⟩
      | some r =>
          have hends := rangeEnds_of_range hstate href (by omega) hr
          have hnum : ∀ k id, blockIdAt c r k = .ok id → id.num = k :=
            fun _ _ ↦ num_of_blockIdAt hstate hends.num
          have hlow : r.low ≤ path.length := by
            rcases hends.low with hlow | ⟨hbehind, hfork⟩
            · exact hlow
            · obtain ⟨id, -, hid⟩ := head?_of_collectSynopsis h
              have hfirst : r.firstNum = r.low := if_neg (by omega)
              rw [hfirst, blockIdAt, if_neg (not_le.mpr hbehind), hfork] at hid
              exact absurd hid nofun
          have hpos := hends.pos
          have hfirst : 0 < r.firstNum ∧ r.firstNum ≤ path.length := by
            rw [SynopsisRange.firstNum]
            split_ifs <;> omega
          dsimp only at h
          rw [synopsisOf, hends.high, Nat.mod_eq_of_lt (by omega),
            collectSynopsis_eq (hends.high ▸ hfirst.2) (by rw [hends.high]; omega) (by omega)
              (by omega) (.inr hrange) (by rw [hends.high]; omega), hends.high] at h
          exact .inr ⟨r.firstNum, hfirst.1, hfirst.2, Except.map_of_mapM_eq_ok hnum h⟩

/-- Where the reference point counts as included, the log has to have its chain. -/
theorem logServes_iff_of_included (hincluded : Included c referencePoint) :
    LogServes c referencePoint path start after ↔
      ∀ k ∈ stepsUpTo (path.length + after) path.length start,
        c.getBlockIdForNum k = path[k - 1]? := by
  constructor
  · rintro (hnull | ⟨other, hlog, hother⟩ | ⟨-, hids⟩)
    · exact absurd hnull hincluded.1
    · exact absurd (Option.some.inj (hlog.symm.trans hincluded.2)) hother
    · exact hids
  · exact fun hids ↦ .inr (.inr ⟨hincluded.2, hids⟩)

/-- Four blocks, two of which can be undone, and a fourth one on a fork. -/
def forkedSync : SyncDatabase where
  headBlockNum := 4
  isKnownBlock id := id ∈ [⟨1, 11⟩, ⟨2, 12⟩, ⟨3, 13⟩, ⟨4, 14⟩, ⟨4, 99⟩]
  getBlockIdForNum num := [none, some ⟨1, 11⟩, some ⟨2, 12⟩, some ⟨3, 13⟩, some ⟨4, 14⟩].getD num none
  undoSize := 2
  getBlockIdsOnFork id := if id = ⟨4, 99⟩ then some [⟨4, 99⟩, ⟨3, 13⟩] else none

theorem syncState_forkedSync :
    SyncState forkedSync [⟨1, 11⟩, ⟨2, 12⟩, ⟨3, 13⟩, ⟨4, 14⟩] 2 false where
  length := rfl
  range := by decide
  num i h := by
    match i, h with
    | 0, _ | 1, _ | 2, _ | 3, _ => rfl
  logged i h := by
    match i, h with
    | 0, _ | 1, _ | 2, _ | 3, _ => rfl
  known := by decide
  zero := rfl
  stored num id h := by
    match num with
    | 0 => exact absurd h nofun
    | 1 | 2 | 3 | 4 =>
        obtain rfl := Option.some.inj h
        rfl
    | num + 5 => exact absurd h nofun
  undoSize := rfl
  undoable_le := by decide

theorem referencePoint_forkedSync :
    ReferencePoint forkedSync [⟨1, 11⟩, ⟨2, 12⟩, ⟨3, 13⟩, ⟨4, 14⟩] 2 ⟨4, 99⟩
      [⟨1, 11⟩, ⟨2, 12⟩, ⟨3, 13⟩, ⟨4, 99⟩] := by
  have hknown : forkedSync.getBlockIdsOnFork ⟨4, 99⟩ = some ([⟨4, 99⟩].reverse ++ [⟨3, 13⟩]) := rfl
  refine .fork hknown rfl ?_ (.inr (by decide)) (by decide)
  intro i hi
  obtain rfl : i = 0 := by simpa using hi
  rfl

/-- One block, and a transaction that is pending. -/
def pendingSync : SyncDatabase :=
  .ofDatabase (firstDatabase.step pairedCode (.pushTransaction 4))

theorem syncState_pendingSync : SyncState pendingSync [firstId] 1 true where
  length := rfl
  range := by decide
  num i h := by
    obtain rfl : i = 0 := Nat.lt_one_iff.mp h
    rfl
  logged i h := by
    obtain rfl : i = 0 := Nat.lt_one_iff.mp h
    rfl
  known := by decide
  zero := rfl
  stored num id h := by
    match num with
    | 0 => exact absurd h nofun
    | 1 =>
        obtain rfl := Option.some.inj h
        rfl
    | num + 2 => exact absurd h nofun
  undoSize := rfl
  undoable_le := by decide

end KarmaCore.App
