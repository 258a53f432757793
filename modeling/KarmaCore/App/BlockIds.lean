import Mathlib
import KarmaCore.Chain.ForkHead

/-!
# The block ids a peer is sent

A peer sends a synopsis of its chain, and the answer begins with the newest of
these ids that is on our chain.  Whether an id is there is decided by what the
block log holds under its number, also above the head.
-/

namespace KarmaCore.App

open Chain

/-- What the application asks of its chain database: `get_block_id_for_num`
throws where the log has no id. -/
structure ChainDatabase where
  headBlockNum : ℕ
  isKnownBlock : BlockId → Bool
  getBlockIdForNum : ℕ → Option BlockId

/-- A block is known to the fork database or to the block log. -/
def ChainDatabase.ofDatabase {Tx Res Rest : Type} (db : Database Tx Res Rest) : ChainDatabase where
  headBlockNum := db.objects.head.number
  isKnownBlock id := (db.forkDb.fetchBlock id).isSome ||
    (decide (id ≠ .null) && (db.blockLog.entries id.num).any fun entry ↦ entry.1 = id)
  getBlockIdForNum num := (db.blockLog.entries num).map Prod.fst

/-- How `get_block_ids` throws; `outOfFuel` stands for a loop that has not ended. -/
inductive SyncError
  | keyNotFound
  | peerIsOnAnUnreachableFork
  | outOfFuel
  deriving DecidableEq

variable (c : ChainDatabase)

def isIncludedBlock (id : BlockId) : Except SyncError Bool :=
  match c.getBlockIdForNum id.num with
  | none => .error .keyNotFound
  | some preferred => .ok (id = preferred)

/-- The loop over the synopsis, the newest id first. -/
def lastKnownBlockId : List BlockId → Except SyncError BlockId
  | [] => .error .peerIsOnAnUnreachableFork
  | id :: older =>
    if id = .null then .ok id
    else if c.isKnownBlock id then
      match isIncludedBlock c id with
      | .error e => .error e
      | .ok true => .ok id
      | .ok false => lastKnownBlockId older
    else lastKnownBlockId older

/-- The loop over the numbers, which are `uint32_t`. -/
def collectIds (limit : ℕ) : ℕ → ℕ → List BlockId → Except SyncError (List BlockId)
  | 0, _, _ => .error .outOfFuel
  | fuel + 1, num, result =>
    if num ≤ c.headBlockNum ∧ result.length < limit then
      if 0 < num then
        match c.getBlockIdForNum num with
        | none => .error .keyNotFound
        | some id => collectIds limit fuel ((num + 1) % 2 ^ 32) (result ++ [id])
      else collectIds limit fuel ((num + 1) % 2 ^ 32) result
    else .ok result

/-- The id that the answer begins at. -/
def lastKnown (synopsis : List BlockId) : Except SyncError BlockId :=
  if synopsis = [] ∨ synopsis = [.null] then .ok .null else lastKnownBlockId c synopsis.reverse

def remainingItemCount (result : List BlockId) : ℕ :=
  match result.getLast? with
  | none => 0
  | some last => if last.num < c.headBlockNum then c.headBlockNum - last.num else 0

/-- The ids and `remaining_item_count`. -/
def getBlockIds (synopsis : List BlockId) (limit : ℕ) : Except SyncError (List BlockId × ℕ) :=
  if c.headBlockNum = 0 then .ok ([], 0)
  else do
    let id ← lastKnown c synopsis
    let result ← collectIds c limit (limit + 2) id.num []
    return (result, remainingItemCount c result)

/-! ## The answer that is asked for -/

/-- The ids of the chain in the log, the first block first. -/
structure ChainDatabase.MainChain (ids : List BlockId) : Prop where
  length : ids.length = c.headBlockNum
  range : c.headBlockNum < 2 ^ 32
  num : ∀ i (h : i < ids.length), ids[i].num = i + 1
  logged : ∀ i (h : i < ids.length), c.getBlockIdForNum (i + 1) = some ids[i]
  known : ∀ id ∈ ids, c.isKnownBlock id = true
  zero : c.getBlockIdForNum 0 = none

/-- The null id stands for the point before the first block. -/
def OnChain (ids : List BlockId) (id : BlockId) : Prop := id = .null ∨ id ∈ ids

instance (ids : List BlockId) : DecidablePred (OnChain ids) :=
  fun id ↦ inferInstanceAs (Decidable (id = .null ∨ id ∈ ids))

/-- The last id of the synopsis that is on the chain. -/
def lastOnChain (ids synopsis : List BlockId) : Option BlockId :=
  synopsis.reverse.find? (OnChain ids)

/-- The number the answer begins at: that of the last id on the chain, or the
first block when the synopsis is empty. -/
def startNum (ids synopsis : List BlockId) : Option ℕ :=
  if synopsis = [] then some 0 else (lastOnChain ids synopsis).map BlockId.num

/-- The ids from a number on, and how many blocks come after them. -/
def idsFrom (ids : List BlockId) (num limit : ℕ) : List BlockId × ℕ :=
  let result := (ids.drop (num - 1)).take limit
  (result, ids.length - (num - 1 + result.length))

def expectedBlockIds (ids synopsis : List BlockId) (limit : ℕ) :
    Except SyncError (List BlockId × ℕ) :=
  if ids = [] then .ok ([], 0)
  else
    match startNum ids synopsis with
    | none => .error .peerIsOnAnUnreachableFork
    | some num => .ok (idsFrom ids num limit)

/-- The ids of the synopsis that are looked at in vain. -/
def newerThanChain (ids synopsis : List BlockId) : List BlockId :=
  synopsis.reverse.takeWhile fun id ↦ ¬OnChain ids id

/-- A known block under whose number the log holds nothing else. -/
def Misleads (id : BlockId) : Prop :=
  c.isKnownBlock id = true ∧ ∀ preferred, c.getBlockIdForNum id.num = some preferred → id = preferred

variable {c} {ids synopsis : List BlockId} {limit : ℕ}

namespace ChainDatabase.MainChain

theorem getBlockIdForNum_succ (hc : c.MainChain ids) {n : ℕ} (hn : n < c.headBlockNum) :
    c.getBlockIdForNum (n + 1) = some (ids.get ⟨n, hc.length ▸ hn⟩) :=
  hc.logged n (hc.length ▸ hn)

/-- An id of the chain has the number of its place. -/
theorem num_of_mem (hc : c.MainChain ids) {id : BlockId} (hid : id ∈ ids) :
    0 < id.num ∧ id.num ≤ c.headBlockNum ∧ c.getBlockIdForNum id.num = some id := by
  obtain ⟨i, hi, rfl⟩ := List.getElem_of_mem hid
  rw [hc.num i hi, hc.logged i hi]
  exact ⟨i.succ_pos, hc.length ▸ hi, rfl⟩

theorem ne_null (hc : c.MainChain ids) {id : BlockId} (hid : id ∈ ids) : id ≠ .null := by
  rintro rfl
  exact absurd (hc.num_of_mem hid).1 (by decide)

/-- What the log holds up to the head is on the chain. -/
theorem mem_of_getBlockIdForNum (hc : c.MainChain ids) {id : BlockId} {n : ℕ}
    (hn : n ≤ c.headBlockNum) (hid : c.getBlockIdForNum n = some id) : id ∈ ids := by
  cases n with
  | zero => exact absurd (hc.zero.symm.trans hid) nofun
  | succ n =>
      have hlog := hc.getBlockIdForNum_succ hn
      rw [hid] at hlog
      exact Option.some.inj hlog ▸ List.getElem_mem _

end ChainDatabase.MainChain

/-! ## The scan of the synopsis -/

theorem isIncludedBlock_of_mem (hc : c.MainChain ids) {id : BlockId} (hid : id ∈ ids) :
    isIncludedBlock c id = .ok true := by
  simp [isIncludedBlock, (hc.num_of_mem hid).2.2]

/-- As long as no id misleads it, the scan finds the newest id on the chain. -/
theorem lastKnownBlockId_eq (hc : c.MainChain ids) {newest : List BlockId}
    (h : ∀ id ∈ newest.takeWhile fun id ↦ ¬OnChain ids id, ¬Misleads c id) :
    lastKnownBlockId c newest =
      match newest.find? (OnChain ids) with
      | none => .error .peerIsOnAnUnreachableFork
      | some id => .ok id := by
  induction newest with
  | nil => rfl
  | cons id older ih =>
      by_cases hchain : OnChain ids id
      · rw [List.find?_cons_of_pos (by simpa using hchain), lastKnownBlockId]
        rcases hchain with hnull | hmem
        · rw [if_pos hnull]
        · rw [if_neg (hc.ne_null hmem), if_pos (hc.known id hmem), isIncludedBlock_of_mem hc hmem]
      · rw [List.takeWhile_cons_of_pos (by simpa using hchain)] at h
        have hnull : id ≠ .null := fun hnull ↦ hchain (.inl hnull)
        have hstep : lastKnownBlockId c (id :: older) = lastKnownBlockId c older := by
          rw [lastKnownBlockId, if_neg hnull]
          by_cases hknown : c.isKnownBlock id = true
          · -- the log holds another block under its number
            have hother := h id List.mem_cons_self
            simp only [Misleads, hknown, true_and, not_forall] at hother
            obtain ⟨preferred, hlog, hne⟩ := hother
            simp only [hknown, if_true, isIncludedBlock, hlog, hne, decide_false]
          · rw [if_neg hknown]
        rw [hstep, List.find?_cons_of_neg (by simpa using hchain)]
        exact ih fun id' hid' ↦ h id' (List.mem_cons_of_mem id hid')

/-- An id that misleads the scan ends it, in an exception or above the head. -/
theorem lastKnownBlockId_of_misleads (hc : c.MainChain ids) {newest : List BlockId} {id : BlockId}
    (hid : id ∈ newest.takeWhile fun id ↦ ¬OnChain ids id) (hmisleads : Misleads c id) :
    lastKnownBlockId c newest = .error .keyNotFound ∨
      ∃ found, lastKnownBlockId c newest = .ok found ∧ c.headBlockNum < found.num := by
  induction newest with
  | nil => exact absurd hid (by simp)
  | cons id' older ih =>
      by_cases hchain : OnChain ids id'
      · rw [List.takeWhile_cons_of_neg (by simpa using hchain)] at hid
        exact absurd hid (by simp)
      rw [List.takeWhile_cons_of_pos (by simpa using hchain)] at hid
      have hnull : id' ≠ .null := fun hnull ↦ hchain (.inl hnull)
      rw [lastKnownBlockId, if_neg hnull]
      by_cases hknown : c.isKnownBlock id' = true
      · rw [if_pos hknown, isIncludedBlock]
        cases hlog : c.getBlockIdForNum id'.num with
        | none => exact .inl rfl
        | some preferred =>
            by_cases heq : id' = preferred
            · subst heq
              refine .inr ⟨id', by simp, ?_⟩
              by_contra hle
              exact hchain (.inr (hc.mem_of_getBlockIdForNum (not_lt.mp hle) hlog))
            · simp only [heq, decide_false]
              apply ih
              rcases List.mem_cons.mp hid with rfl | hid
              · exact absurd (hmisleads.2 preferred hlog) heq
              · exact hid
      · rw [if_neg hknown]
        apply ih
        rcases List.mem_cons.mp hid with rfl | hid
        · exact absurd hmisleads.1 hknown
        · exact hid

/-! ## The loop over the numbers -/

/-- From a block of the chain on, the loop collects what there is room for, as
long as it ends before the number wraps. -/
theorem collectIds_eq (hc : c.MainChain ids) {fuel num : ℕ} {result : List BlockId}
    (hnum : 1 ≤ num) (hfuel : limit - result.length < fuel)
    (hrange : c.headBlockNum + 1 < 2 ^ 32 ∨ limit - result.length ≤ c.headBlockNum + 1 - num) :
    collectIds c limit fuel num result =
      .ok (result ++ (ids.drop (num - 1)).take (limit - result.length)) := by
  induction fuel generalizing num result with
  | zero => exact absurd hfuel (by omega)
  | succ fuel ih =>
      by_cases hroom : num ≤ c.headBlockNum ∧ result.length < limit
      · obtain ⟨n, rfl⟩ : ∃ n, num = n + 1 := ⟨num - 1, by omega⟩
        have hn : n < ids.length := by
          rw [hc.length]
          omega
        have htake : (ids.drop n).take (limit - result.length) =
            ids[n] :: (ids.drop (n + 1)).take (limit - (result ++ [ids[n]]).length) := by
          obtain ⟨k, hk⟩ : ∃ k, limit - result.length = k + 1 := ⟨limit - result.length - 1, by omega⟩
          have hk' : limit - (result ++ [ids[n]]).length = k := by
            rw [List.length_append, List.length_singleton]
            omega
          rw [hk, hk', List.drop_eq_getElem_cons hn, List.take_succ_cons]
        have hstep : collectIds c limit (fuel + 1) (n + 1) result =
            collectIds c limit fuel ((n + 2) % 2 ^ 32) (result ++ [ids[n]]) := by
          rw [collectIds, if_pos hroom, if_pos n.succ_pos, hc.logged n hn]
        rw [hstep, Nat.add_sub_cancel, htake]
        have hlength : (result ++ [ids[n]]).length = result.length + 1 := by simp
        by_cases hwraps : n + 2 < 2 ^ 32
        · rw [Nat.mod_eq_of_lt hwraps, ih (by omega) (by omega) (by omega), List.append_assoc]
          rfl
        · -- only the last block there can be is left, and it fills the result
          have hfull : ¬(0 ≤ c.headBlockNum ∧ (result ++ [ids[n]]).length < limit) := by
            have := hc.range
            omega
          have hzero : (n + 2) % 2 ^ 32 = 0 := by
            have := hc.range
            omega
          obtain ⟨fuel, rfl⟩ : ∃ k, fuel = k + 1 := ⟨fuel - 1, by omega⟩
          rw [hzero, collectIds, if_neg hfull]
          have hnone : limit - (result ++ [ids[n]]).length = 0 := by omega
          rw [hnone, List.take_zero]
      · have hnothing : (ids.drop (num - 1)).take (limit - result.length) = [] := by
          rw [not_and_or, not_le, not_lt] at hroom
          rcases hroom with hpast | hfull
          · rw [List.drop_eq_nil_of_le (by rw [hc.length]; omega), List.take_nil]
          · rw [Nat.sub_eq_zero_of_le hfull, List.take_zero]
        rw [collectIds, if_neg hroom, hnothing, List.append_nil]

/-- With the last block there can be as the head, the loop ends with a full result only. -/
theorem length_of_collectIds (hhead : c.headBlockNum + 1 = 2 ^ 32) {fuel num : ℕ}
    {result collected : List BlockId} (hnum : num < 2 ^ 32)
    (h : collectIds c limit fuel num result = .ok collected) : limit ≤ collected.length := by
  induction fuel generalizing num result with
  | zero => exact absurd h nofun
  | succ fuel ih =>
      rw [collectIds] at h
      split_ifs at h with hroom hpos
      · cases hlog : c.getBlockIdForNum num with
        | none =>
            rw [hlog] at h
            exact absurd h nofun
        | some id =>
            rw [hlog] at h
            exact ih (Nat.mod_lt _ (by norm_num)) h
      · exact ih (Nat.mod_lt _ (by norm_num)) h
      · obtain rfl := Except.ok.inj h
        rw [not_and_or, not_le, not_lt] at hroom
        rcases hroom with hpast | hfull
        · omega
        · exact hfull

/-- The null id is passed over. -/
theorem collectIds_zero (hc : c.MainChain ids) (hlimit : 0 < limit) {fuel : ℕ} (hfuel : limit < fuel)
    (hrange : c.headBlockNum + 1 < 2 ^ 32 ∨ limit ≤ c.headBlockNum) :
    collectIds c limit (fuel + 1) 0 [] = .ok (ids.take limit) := by
  have hroom : 0 ≤ c.headBlockNum ∧ ([] : List BlockId).length < limit := ⟨Nat.zero_le _, hlimit⟩
  have hnext : (0 + 1) % 2 ^ 32 = 1 := by norm_num
  rw [collectIds, if_pos hroom, if_neg (lt_irrefl 0), hnext,
    collectIds_eq hc le_rfl (by simpa using hfuel) (by simpa using hrange)]
  rfl

/-- The answer from a number on ends before the number wraps. -/
def EndsInRange (c : ChainDatabase) (limit num : ℕ) : Prop :=
  c.headBlockNum + 1 < 2 ^ 32 ∨ limit ≤ c.headBlockNum + 1 - max 1 num

theorem collectIds_start (hc : c.MainChain ids) (hlimit : 0 < limit) {num : ℕ}
    (hrange : EndsInRange c limit num) :
    collectIds c limit (limit + 2) num [] = .ok (idsFrom ids num limit).1 := by
  rcases Nat.eq_zero_or_pos num with rfl | hpos
  · exact collectIds_zero hc hlimit (by omega) (by simpa [EndsInRange] using hrange)
  · rw [EndsInRange, max_eq_right (Nat.one_le_of_lt hpos)] at hrange
    exact collectIds_eq hc hpos (by simp) (by simpa using hrange)

/-! ## The answer -/

theorem idsFrom_ne_nil (hc : c.MainChain ids) (hlimit : 0 < limit) (hhead : 0 < c.headBlockNum)
    {num : ℕ} (hnum : num ≤ c.headBlockNum) : (idsFrom ids num limit).1 ≠ [] := by
  apply List.ne_nil_of_length_pos
  rw [idsFrom, List.length_take, List.length_drop, hc.length]
  omega

/-- What comes after the last id that is returned. -/
theorem remainingItemCount_idsFrom (hc : c.MainChain ids) {num : ℕ}
    (hne : (idsFrom ids num limit).1 ≠ []) :
    remainingItemCount c (idsFrom ids num limit).1 = (idsFrom ids num limit).2 := by
  have hpos := List.length_pos_iff.mpr hne
  have hlength : (idsFrom ids num limit).1.length = min limit (ids.length - (num - 1)) := by
    rw [idsFrom, List.length_take, List.length_drop]
  obtain ⟨k, hk⟩ : ∃ k, (idsFrom ids num limit).1.length = k + 1 :=
    ⟨(idsFrom ids num limit).1.length - 1, by omega⟩
  have hlast : num - 1 + k < ids.length := by omega
  have hgetLast : (idsFrom ids num limit).1.getLast? = some ids[num - 1 + k] := by
    rw [List.getLast?_eq_getElem?, hk, Nat.add_sub_cancel, idsFrom, List.getElem?_take,
      if_pos (by omega), List.getElem?_drop, List.getElem?_eq_getElem hlast]
  have hsecond : (idsFrom ids num limit).2 = c.headBlockNum - (num - 1 + (k + 1)) := by
    rw [← hk, ← hc.length]
    rfl
  rw [remainingItemCount, hgetLast, hsecond]
  simp only [hc.num _ hlast]
  split_ifs <;> omega

theorem lastKnown_eq (hc : c.MainChain ids)
    (h : ∀ id ∈ newerThanChain ids synopsis, ¬Misleads c id) :
    (startNum ids synopsis = none ∧ lastKnown c synopsis = .error .peerIsOnAnUnreachableFork) ∨
      ∃ id, OnChain ids id ∧ startNum ids synopsis = some id.num ∧ lastKnown c synopsis = .ok id := by
  by_cases hempty : synopsis = []
  · subst hempty
    exact .inr ⟨.null, .inl rfl, rfl, rfl⟩
  by_cases hnull : synopsis = [.null]
  · subst hnull
    exact .inr ⟨.null, .inl rfl, by simp [startNum, lastOnChain, OnChain], rfl⟩
  rw [lastKnown, if_neg (not_or.mpr ⟨hempty, hnull⟩), lastKnownBlockId_eq hc h, startNum,
    if_neg hempty]
  cases hfind : lastOnChain ids synopsis with
  | none =>
      rw [lastOnChain] at hfind
      rw [hfind]
      exact .inl ⟨rfl, rfl⟩
  | some id =>
      have hchain : OnChain ids id := by simpa using List.find?_some hfind
      rw [lastOnChain] at hfind
      rw [hfind]
      exact .inr ⟨id, hchain, rfl, rfl⟩

theorem lastKnown_of_misleads (hc : c.MainChain ids) {id : BlockId}
    (hid : id ∈ newerThanChain ids synopsis) (hmisleads : Misleads c id) :
    lastKnown c synopsis = .error .keyNotFound ∨
      ∃ found, lastKnown c synopsis = .ok found ∧ c.headBlockNum < found.num := by
  have hne : ¬(synopsis = [] ∨ synopsis = [.null]) := by
    rintro (rfl | rfl)
    · exact absurd hid (by simp [newerThanChain])
    · exact absurd hid (by simp [newerThanChain, OnChain])
  rw [lastKnown, if_neg hne]
  exact lastKnownBlockId_of_misleads hc hid hmisleads

theorem startNum_le (hc : c.MainChain ids) {num : ℕ} (h : startNum ids synopsis = some num) :
    num ≤ c.headBlockNum := by
  rw [startNum] at h
  split_ifs at h
  · obtain rfl := Option.some.inj h
    exact Nat.zero_le _
  · obtain ⟨id, hfind, rfl⟩ := Option.map_eq_some_iff.mp h
    have hchain : OnChain ids id := by simpa using List.find?_some hfind
    rcases hchain with rfl | hmem
    · exact Nat.zero_le _
    · exact (hc.num_of_mem hmem).2.1

/-- A scan that is misled is answered with an exception or with nothing. -/
theorem getBlockIds_of_misleads (hc : c.MainChain ids) (hhead : 0 < c.headBlockNum) {id : BlockId}
    (hid : id ∈ newerThanChain ids synopsis) (hmisleads : Misleads c id) :
    getBlockIds c synopsis limit = .error .keyNotFound ∨
      getBlockIds c synopsis limit = .ok ([], 0) := by
  rw [getBlockIds, if_neg hhead.ne']
  rcases lastKnown_of_misleads hc hid hmisleads with hlast | ⟨found, hlast, hnum⟩
  · rw [hlast]
    exact .inl rfl
  · have hcollect : collectIds c limit (limit + 2) found.num [] = .ok [] := by
      rw [collectIds, if_neg fun h ↦ absurd h.1 (not_le.mpr hnum)]
    rw [hlast]
    simp only [bind, Except.bind, hcollect]
    exact .inr rfl

/-- Neither is asked for when there are blocks. -/
theorem expectedBlockIds_ne (hc : c.MainChain ids) (hlimit : 0 < limit) (hhead : 0 < c.headBlockNum) :
    expectedBlockIds ids synopsis limit ≠ .error .keyNotFound ∧
      expectedBlockIds ids synopsis limit ≠ .ok ([], 0) := by
  have hids : ids ≠ [] := by
    rintro rfl
    exact hhead.ne hc.length
  rw [expectedBlockIds, if_neg hids]
  cases hstart : startNum ids synopsis with
  | none => exact ⟨by simp, by simp⟩
  | some num =>
      refine ⟨by simp, fun h ↦ ?_⟩
      exact idsFrom_ne_nil hc hlimit hhead (startNum_le hc hstart)
        (congrArg Prod.fst (Except.ok.inj h))

/-- Three blocks, and a fourth one on a fork. -/
def forkedChain : ChainDatabase where
  headBlockNum := 3
  isKnownBlock id := id ∈ [⟨1, 11⟩, ⟨2, 12⟩, ⟨3, 13⟩, ⟨3, 99⟩]
  getBlockIdForNum num := [none, some ⟨1, 11⟩, some ⟨2, 12⟩, some ⟨3, 13⟩].getD num none

theorem mainChain_forkedChain : forkedChain.MainChain [⟨1, 11⟩, ⟨2, 12⟩, ⟨3, 13⟩] where
  length := rfl
  range := by decide
  num i h := by
    match i, h with
    | 0, _ | 1, _ | 2, _ => rfl
  logged i h := by
    match i, h with
    | 0, _ | 1, _ | 2, _ => rfl
  known := by decide
  zero := rfl

/-- A chain from which the second block was popped. -/
def poppedChain : ChainDatabase := .ofDatabase (nextDatabase.step pairedCode .popBlock)

def firstId : BlockId := firstBlock.id pairedCode.blockHash

def poppedId : BlockId := nextBlock.id pairedCode.blockHash

end KarmaCore.App
