import Mathlib
import KarmaCore.Net.ItemExchange

/-!
# The cache of the messages a node can be asked for

What a node broadcasts can be fetched from it for as long as the blocks it accepted
since are few.  Under a hash the cache holds the first message until that one is too
old: a message that is broadcast again does not get younger.
-/

namespace KarmaCore.Net

/-! ## The cache of the code -/

section Cache

/-- `message_info`, the data for performance statistics being that of `propagation`. -/
structure MessageInfo (H M P : Type*) where
  messageHash : H
  messageBody : M
  blockClockWhenReceived : ℕ
  propagationData : P
  messageContentsHash : H

/-- `blockchain_tied_message_cache`. -/
structure MessageCache (H M P : Type*) where
  messageCache : List (MessageInfo H M P) := []
  blockClock : ℕ := 0

variable {H M P : Type*} [DecidableEq H]

namespace MessageCache

def blockAccepted (cache : MessageCache H M P) : MessageCache H M P :=
  let blockClock := (cache.blockClock + 1) % 2 ^ 32
  { messageCache :=
      if messageCacheDurationInBlocks < blockClock then
        cache.messageCache.filter
          (blockClock - messageCacheDurationInBlocks ≤ ·.blockClockWhenReceived)
      else cache.messageCache
    blockClock := blockClock }

def cacheMessage (message : M) (hash : H) (propagation : P) (contents : H)
    (cache : MessageCache H M P) : MessageCache H M P :=
  if cache.messageCache.any (·.messageHash = hash) then cache
  else
    { cache with
      messageCache := cache.messageCache ++
        [⟨hash, message, cache.blockClock, propagation, contents⟩] }

def lookup (hash : H) (cache : MessageCache H M P) : Option (MessageInfo H M P) :=
  cache.messageCache.find? (·.messageHash = hash)

/-- `none` is `key_not_found_exception`. -/
def getMessage (hash : H) (cache : MessageCache H M P) : Option M :=
  (cache.lookup hash).map MessageInfo.messageBody

/-- A null hash finds nothing. -/
def getMessagePropagationData [Zero H] (contents : H) (cache : MessageCache H M P) : Option P :=
  if contents ≠ 0 then
    (cache.messageCache.find? (·.messageContentsHash = contents)).map MessageInfo.propagationData
  else none

end MessageCache

/-! ## Replies to requests -/

/-- What `on_fetch_items_message` puts into its list of replies for a hash. -/
inductive Reply (H M : Type*) where
  | message (body : M)
  | itemNotAvailable (item : ItemId H)

/-- The cache is asked first, whatever the type, then the delegate. -/
def onFetchItemsMessage (getItem : ItemId H → Option M) (request : Node.FetchItemsMessage H)
    (cache : MessageCache H M P) : List (Reply H M) :=
  request.itemsToFetch.map fun hash ↦
    match cache.getMessage hash with
    | some body => .message body
    | none =>
        match getItem ⟨request.itemType, hash⟩ with
        | some body => .message body
        | none => .itemNotAvailable ⟨request.itemType, hash⟩

end Cache

/-! ## What the cache is for -/

section Memory

variable {H M P : Type*} [DecidableEq H]

inductive CacheEvent (H M P : Type*) where
  | broadcast (message : M) (propagation : P) (contents : H)
  | blockAccepted

/-- `broadcast` caches a message under its id. -/
def MessageCache.step (id : M → H) (cache : MessageCache H M P) :
    CacheEvent H M P → MessageCache H M P
  | .broadcast message propagation contents =>
      cache.cacheMessage message (id message) propagation contents
  | .blockAccepted => cache.blockAccepted

/-- The message a hash stands for, and how many blocks were accepted since. -/
abbrev Memory (H M : Type*) := H → Option (M × ℕ)

def Memory.older (entry : M × ℕ) : Option (M × ℕ) :=
  if entry.2 < messageCacheDurationInBlocks then some (entry.1, entry.2 + 1) else none

def Memory.step (id : M → H) (memory : Memory H M) : CacheEvent H M P → Memory H M
  | .broadcast message _ _ =>
      Function.update memory (id message) (some ((memory (id message)).getD (message, 0)))
  | .blockAccepted => fun hash ↦ (memory hash).bind Memory.older

/-- How many blocks a run accepts. -/
def accepted : List (CacheEvent H M P) → ℕ
  | [] => 0
  | .blockAccepted :: events => accepted events + 1
  | .broadcast .. :: events => accepted events

omit [DecidableEq H] in
@[simp] theorem accepted_append (events events' : List (CacheEvent H M P)) :
    accepted (events ++ events') = accepted events + accepted events' := by
  induction events with
  | nil => simp [accepted]
  | cons event events ih => cases event <;> (simp [accepted, ih]; try omega)

/-! ## The cache refines it -/

variable {id : M → H} {cache : MessageCache H M P} {memory : Memory H M} {hash : H}

/-- What is found under a hash is what the hash remembers, the clock being its age. -/
structure Remembers (cache : MessageCache H M P) (memory : Memory H M) : Prop where
  lookup : ∀ hash, (cache.lookup hash).map
    (fun info ↦ (info.messageBody, cache.blockClock - info.blockClockWhenReceived)) = memory hash
  clock : ∀ info ∈ cache.messageCache, info.blockClockWhenReceived ≤ cache.blockClock ∧
    cache.blockClock - info.blockClockWhenReceived ≤ messageCacheDurationInBlocks
  distinct : (cache.messageCache.map MessageInfo.messageHash).Nodup

section Entries

variable {entries : List (MessageInfo H M P)} {info : MessageInfo H M P}

theorem find?_eq_some_of_distinct (hdistinct : (entries.map MessageInfo.messageHash).Nodup) :
    entries.find? (·.messageHash = hash) = some info ↔
      info ∈ entries ∧ info.messageHash = hash := by
  constructor
  · intro h
    exact ⟨List.mem_of_find?_eq_some h, by simpa using List.find?_some h⟩
  · rintro ⟨hinfo, rfl⟩
    cases hfind : entries.find? (·.messageHash = info.messageHash) with
    | none => simpa using List.find?_eq_none.mp hfind info hinfo
    | some other =>
        have hhash : other.messageHash = info.messageHash := by simpa using List.find?_some hfind
        rw [List.inj_on_of_nodup_map hdistinct (List.mem_of_find?_eq_some hfind) hinfo hhash]

/-- What is kept is found where it was found before. -/
theorem find?_filter_of_distinct (hdistinct : (entries.map MessageInfo.messageHash).Nodup)
    (q : MessageInfo H M P → Bool) :
    (entries.filter q).find? (·.messageHash = hash) =
      (entries.find? (·.messageHash = hash)).filter q := by
  cases hfind : entries.find? (·.messageHash = hash) with
  | none =>
      have hnone := List.find?_eq_none.mp hfind
      exact List.find?_eq_none.mpr fun info hinfo ↦ hnone info (List.mem_of_mem_filter hinfo)
  | some info =>
      obtain ⟨hinfo, hhash⟩ := (find?_eq_some_of_distinct hdistinct).mp hfind
      by_cases hq : q info = true
      · rw [Option.filter_some_pos hq]
        exact (find?_eq_some_of_distinct ((List.filter_sublist.map _).nodup hdistinct)).mpr
          ⟨List.mem_filter.mpr ⟨hinfo, hq⟩, hhash⟩
      · rw [Option.filter_some_neg (by simpa using hq), List.find?_eq_none]
        intro other hother hhash'
        obtain ⟨hother, hq'⟩ := List.mem_filter.mp hother
        have hsame : other.messageHash = info.messageHash := by simpa [hhash] using hhash'
        rw [List.inj_on_of_nodup_map hdistinct hother hinfo hsame] at hq'
        exact hq hq'

end Entries

theorem Remembers.broadcast (h : Remembers cache memory) (message : M) (propagation : P)
    (contents : H) :
    Remembers (cache.step id (.broadcast message propagation contents))
      (memory.step id (.broadcast (P := P) message propagation contents)) := by
  simp only [MessageCache.step, MessageCache.cacheMessage, Memory.step]
  cases hfind : cache.lookup (id message) with
  | some info =>
      obtain ⟨hinfo, hhash⟩ := (find?_eq_some_of_distinct h.distinct).mp hfind
      have hany : cache.messageCache.any (·.messageHash = id message) = true :=
        List.any_eq_true.mpr ⟨info, hinfo, by simpa using hhash⟩
      have hmemory : some ((memory (id message)).getD (message, 0)) = memory (id message) := by
        simp [← h.lookup (id message), hfind]
      rw [if_pos hany, hmemory, Function.update_eq_self]
      exact h
  | none =>
      have hnone := List.find?_eq_none.mp hfind
      have hany : ¬ cache.messageCache.any (·.messageHash = id message) = true := by
        simpa using hnone
      rw [if_neg hany]
      refine ⟨?_, ?_, ?_⟩
      · intro hash
        by_cases hhash : hash = id message
        · subst hhash
          have hmemory : memory (id message) = none := by simp [← h.lookup (id message), hfind]
          have : cache.messageCache.find? (·.messageHash = id message) = none := hfind
          simp [MessageCache.lookup, List.find?_append, this, hmemory]
        · rw [Function.update_of_ne hhash, ← h.lookup hash]
          simp [MessageCache.lookup, List.find?_append, Ne.symm hhash]
      · intro info hinfo
        rcases List.mem_append.mp hinfo with hinfo | hinfo
        · exact h.clock info hinfo
        · obtain rfl := List.mem_singleton.mp hinfo
          simp
      · rw [List.map_append, List.nodup_append]
        refine ⟨h.distinct, List.nodup_singleton _, ?_⟩
        intro hash hhash other hother
        obtain rfl := List.mem_singleton.mp hother
        obtain ⟨info, hinfo, rfl⟩ := List.mem_map.mp hhash
        simpa using hnone info hinfo

theorem Remembers.blockAccepted (h : Remembers cache memory)
    (hclock : cache.blockClock + 1 < 2 ^ 32) :
    Remembers (cache.step id .blockAccepted) (memory.step id (.blockAccepted (P := P))) := by
  have hstep : (cache.step id .blockAccepted : MessageCache H M P) =
      { messageCache := cache.messageCache.filter fun info ↦
          decide (cache.blockClock + 1 ≤
            info.blockClockWhenReceived + messageCacheDurationInBlocks)
        blockClock := cache.blockClock + 1 } := by
    simp only [MessageCache.step, MessageCache.blockAccepted, Nat.mod_eq_of_lt hclock]
    congr 1
    split
    · exact List.filter_congr fun info _ ↦ by
        rw [decide_eq_decide]
        omega
    · refine (List.filter_eq_self.mpr fun info hinfo ↦ ?_).symm
      rw [decide_eq_true_eq]
      omega
  rw [hstep]
  refine ⟨?_, ?_, ?_⟩
  · intro hash
    simp only [Memory.step, ← h.lookup hash]
    rw [MessageCache.lookup, find?_filter_of_distinct h.distinct]
    cases hfind : cache.lookup hash with
    | none =>
        have : cache.messageCache.find? (·.messageHash = hash) = none := hfind
        simp [this]
    | some info =>
        have hfound : cache.messageCache.find? (·.messageHash = hash) = some info := hfind
        obtain ⟨hle, hold⟩ := h.clock info (List.mem_of_find?_eq_some hfound)
        rw [hfound]
        by_cases hyoung : cache.blockClock + 1 ≤
            info.blockClockWhenReceived + messageCacheDurationInBlocks
        · rw [Option.filter_some_pos (by simpa using hyoung), Option.map_some, Option.map_some,
            Option.bind_some, Memory.older, if_pos (by simp only; omega)]
          simp only [Option.some.injEq, Prod.mk.injEq, true_and]
          omega
        · rw [Option.filter_some_neg (by simpa using hyoung), Option.map_none, Option.map_some,
            Option.bind_some, Memory.older, if_neg (by simp only; omega)]
  · intro info hinfo
    obtain ⟨hinfo, hyoung⟩ := List.mem_filter.mp hinfo
    have := h.clock info hinfo
    rw [decide_eq_true_eq] at hyoung
    simp only
    omega
  · exact (List.filter_sublist.map _).nodup h.distinct

theorem remembers_start : Remembers ({} : MessageCache H M P) (fun _ ↦ none : Memory H M) :=
  ⟨fun _ ↦ rfl, by simp, List.nodup_nil⟩

theorem remembers_foldl (id : M → H) (events : List (CacheEvent H M P))
    {cache : MessageCache H M P} (h : Remembers cache memory) (hclock : cache.blockClock + accepted events < 2 ^ 32) :
    Remembers (events.foldl (MessageCache.step id) cache)
      (events.foldl (Memory.step id) memory) := by
  induction events generalizing cache memory with
  | nil => exact h
  | cons event events ih =>
      cases event with
      | broadcast message propagation contents =>
          refine ih (h.broadcast message propagation contents) ?_
          simp only [MessageCache.step, MessageCache.cacheMessage]
          split <;> simpa [accepted] using hclock
      | blockAccepted =>
          simp only [accepted] at hclock
          refine ih (h.blockAccepted (by omega)) ?_
          simp only [MessageCache.step, MessageCache.blockAccepted]
          rw [Nat.mod_eq_of_lt (by omega)]
          omega

/-! ## How long a message lasts -/

/-- The memory of a message that is there stays until its age is reached. -/
theorem memory_foldl (id : M → H) (events : List (CacheEvent H M P)) {message : M} {age : ℕ}
    (h : memory hash = some (message, age))
    (hage : age + accepted events ≤ messageCacheDurationInBlocks) :
    events.foldl (Memory.step id) memory hash = some (message, age + accepted events) := by
  induction events generalizing memory age with
  | nil => simpa [accepted] using h
  | cons event events ih =>
      cases event with
      | broadcast other propagation contents =>
          refine ih ?_ hage
          by_cases hhash : hash = id other
          · subst hhash
            simp [Memory.step, h]
          · simpa [Memory.step, hhash] using h
      | blockAccepted =>
          simp only [accepted] at hage ⊢
          have hnext : memory.step id (.blockAccepted (P := P)) hash = some (message, age + 1) := by
            simp only [Memory.step, h, Option.bind_some, Memory.older]
            rw [if_pos (by omega)]
          rw [List.foldl_cons, ih hnext (by omega)]
          congr 2
          omega

/-- The memory of a message ends with the block that is one too many, if nothing else
comes under its hash. -/
theorem memory_foldl_eq_none (id : M → H) (events : List (CacheEvent H M P))
    (hquiet : ∀ message propagation contents,
      .broadcast message propagation contents ∈ events → id message ≠ hash)
    (h : ∀ entry, memory hash = some entry → entry.2 ≤ messageCacheDurationInBlocks ∧
      messageCacheDurationInBlocks < entry.2 + accepted events) :
    events.foldl (Memory.step id) memory hash = none := by
  induction events generalizing memory with
  | nil =>
      cases hentry : memory hash with
      | none => exact hentry
      | some entry =>
          have := h entry hentry
          simp only [accepted] at this
          omega
  | cons event events ih =>
      refine ih (fun message propagation contents hmem ↦
        hquiet message propagation contents (.tail _ hmem)) ?_
      intro entry hentry
      cases event with
      | broadcast message propagation contents =>
          have hne := hquiet message propagation contents (.head _)
          simp only [Memory.step, Function.update_of_ne (Ne.symm hne)] at hentry
          exact h entry hentry
      | blockAccepted =>
          simp only [Memory.step, Option.bind_eq_some_iff] at hentry
          obtain ⟨⟨body, age⟩, hbefore, hentry⟩ := hentry
          have hage := (h _ hbefore).2
          simp only [accepted] at hage
          unfold Memory.older at hentry
          split at hentry
          · cases hentry
            simp only at *
            omega
          · cases hentry

theorem getMessage_of_remembers (h : Remembers cache memory) (hash : H) :
    cache.getMessage hash = (memory hash).map Prod.fst := by
  rw [← h.lookup hash, Option.map_map]
  rfl

end Memory

section Lasting

variable {H M P : Type*} [DecidableEq H]

def threeBlocks : List (CacheEvent ℕ ℕ Unit) :=
  [.blockAccepted, .blockAccepted, .blockAccepted]

end Lasting

end KarmaCore.Net
