import Mathlib
import KarmaCore.Lib.Run
import KarmaCore.Net.PeerSynopsis

/-!
# The ids that are still to get from a peer

Every reply to a request for ids extends, rewinds or replaces the list of the ids
that are still to get from the peer.  The list goes on from the last block of the
peer that the delegate has, if there is such a block.
-/

namespace KarmaCore.Net

open Chain App

/-! ## Messages -/

/-- `blockchain_item_ids_inventory_message`. -/
structure ItemIdsInventory where
  totalRemainingItemCount : ℕ
  itemType : ℕ
  itemHashesAvailable : List BlockId

/-- `block_message_type`, the type of the items that are synchronized. -/
def syncItemType : ℕ := 1001

/-- What the delegate, the clock and the other peers say while a message is handled. -/
structure SyncEnvironment where
  hasItem : ℕ → BlockId → Bool
  blockTime : BlockId → ℕ
  now : ℕ
  /-- The first of the ids that are still to get from each other peer. -/
  otherFronts : List BlockId
  getBlockchainSynopsis : BlockId → ℕ → Except SynopsisError (List BlockId)

structure PeerSync where
  idsOfItemsToGet : List BlockId := []
  lastBlockDelegateHasSeen : BlockId := .null
  lastBlockTimeDelegateHasSeen : ℕ := 0
  numberOfUnfetchedItemIds : ℕ := 0
  weNeedSyncItemsFromPeer : Bool := true
  itemIdsRequestedFromPeer : Option (List BlockId) := none

variable {env : SyncEnvironment} {peer peer' : PeerSync} {message : ItemIdsInventory}
  {ids : List BlockId}

/-! ## Requests -/

/-- `reset_fork_tracking_data_for_peer`. -/
def PeerSync.resetForkTracking (env : SyncEnvironment) (peer : PeerSync) : PeerSync :=
  { peer with
    lastBlockDelegateHasSeen := .null
    lastBlockTimeDelegateHasSeen := env.blockTime .null }

/-- A peer is disconnected when there is no synopsis for it. -/
def PeerSync.fetchNextBatch (env : SyncEnvironment) (reset : Bool) (peer : PeerSync) :
    Option PeerSync :=
  let peer := if reset then peer.resetForkTracking env else peer
  match createBlockchainSynopsisForPeer env.getBlockchainSynopsis peer.lastBlockDelegateHasSeen
      peer.idsOfItemsToGet with
  | .ok synopsis => some { peer with itemIdsRequestedFromPeer := some synopsis }
  | .error _ => none

/-! ## Replies -/

/-- The numbers go up by one in `uint32_t`. -/
def Sequential (ids : List BlockId) : Prop :=
  ∀ i ∈ List.range ids.length, (ids.getD i .null).num = ((ids.getD 0 .null).num + i) % 2 ^ 32

/-- The first id is one of the synopsis, or block 1. -/
def AnswersSynopsis (synopsis : List BlockId) (first : BlockId) : Prop :=
  if synopsis = [] then first.num = 1 else first ∈ synopsis

def ValidResponse (synopsis ids : List BlockId) : Prop :=
  ids ≠ [] → Sequential ids ∧ AnswersSynopsis synopsis (ids.getD 0 .null)

instance (ids : List BlockId) : Decidable (Sequential ids) := by
  unfold Sequential
  infer_instance

instance (synopsis : List BlockId) (first : BlockId) :
    Decidable (AnswersSynopsis synopsis first) := by
  unfold AnswersSynopsis
  infer_instance

instance (synopsis ids : List BlockId) : Decidable (ValidResponse synopsis ids) := by
  unfold ValidResponse
  infer_instance

/-- The peer has no items after the one that was asked for. -/
def UpToDate (env : SyncEnvironment) (message : ItemIdsInventory) (peer : PeerSync) : Prop :=
  message.totalRemainingItemCount = 0 ∧
    (message.itemHashesAvailable = [] ∨ message.itemHashesAvailable.length = 1 ∧
      env.hasItem message.itemType (message.itemHashesAvailable.getD 0 .null) = true) ∧
    peer.idsOfItemsToGet = [] ∧ peer.numberOfUnfetchedItemIds = 0

instance (env : SyncEnvironment) (message : ItemIdsInventory) (peer : PeerSync) :
    Decidable (UpToDate env message peer) := by
  unfold UpToDate
  infer_instance

def PeerSync.see (env : SyncEnvironment) (id : BlockId) (peer : PeerSync) : PeerSync :=
  { peer with
    lastBlockDelegateHasSeen := id
    lastBlockTimeDelegateHasSeen := env.blockTime id }

/-- Pops the items that the delegate has from the front of what was received. -/
def flushSeen (env : SyncEnvironment) (itemType : ℕ) :
    List BlockId → PeerSync → List BlockId × PeerSync
  | [], peer => ([], peer)
  | id :: received, peer =>
      if env.hasItem itemType id then flushSeen env itemType received (peer.see env id)
      else (id :: received, peer)

/-- Pops ids off the back until the last one is the first one received. -/
def popUntil (first : BlockId) (ids : List BlockId) : List BlockId :=
  ids.rdropWhile fun id ↦ first ≠ id

/-- What remains of the reply, and of the list it is appended to. -/
def PeerSync.takeReceived (env : SyncEnvironment) (message : ItemIdsInventory) (peer : PeerSync) :
    List BlockId × PeerSync :=
  match message.itemHashesAvailable with
  | [] => ([], peer)
  | first :: rest =>
      if peer.idsOfItemsToGet = [] then
        if first ∈ env.otherFronts then (first :: rest, peer)
        else flushSeen env message.itemType (first :: rest) peer
      else
        match (popUntil first peer.idsOfItemsToGet).getLast? with
        | none => (rest, { peer.see env first with idsOfItemsToGet := [] })
        | some _ =>
            (first :: rest, { peer with
              idsOfItemsToGet := (popUntil first peer.idsOfItemsToGet).dropLast })

/-- The time of the last block that is offered, at one block a second in `uint32_t`. -/
def PeerSync.minimumTimeOfLastOfferedBlock (peer : PeerSync) : ℕ :=
  (peer.lastBlockTimeDelegateHasSeen + peer.numberOfUnfetchedItemIds) % 2 ^ 32

/-- `GRAPHENE_NET_FUTURE_SYNC_BLOCKS_GRACE_PERIOD_SEC`. -/
def futureSyncBlocksGracePeriodSec : ℕ := 60 * 60

/-- `GRAPHENE_NET_MIN_BLOCK_IDS_TO_PREFETCH`. -/
def minBlockIdsToPrefetch : ℕ := 10000

/-- Asks for more ids until there are enough to fetch blocks, or none is left to fetch. -/
def PeerSync.goOn (env : SyncEnvironment) (message : ItemIdsInventory) (peer : PeerSync) :
    Option PeerSync :=
  if message.totalRemainingItemCount ≠ 0 then
    if minBlockIdsToPrefetch < peer.idsOfItemsToGet.length then some peer
    else peer.fetchNextBatch env false
  else
    if peer.idsOfItemsToGet ≠ [] then some peer else peer.fetchNextBatch env false

/-- `on_blockchain_item_ids_inventory_message`; a peer that is disconnected is gone. -/
def PeerSync.onItemIdsInventory (env : SyncEnvironment) (message : ItemIdsInventory)
    (peer : PeerSync) : Option PeerSync :=
  match peer.itemIdsRequestedFromPeer with
  | none => some peer
  | some synopsis =>
      if ValidResponse synopsis message.itemHashesAvailable then
        let peer := { peer with itemIdsRequestedFromPeer := none }
        if UpToDate env message peer then some { peer with weNeedSyncItemsFromPeer := false }
        else
          let (received, peer) := peer.takeReceived env message
          let peer := { peer with
            idsOfItemsToGet := peer.idsOfItemsToGet ++ received
            numberOfUnfetchedItemIds := message.totalRemainingItemCount }
          if env.now + futureSyncBlocksGracePeriodSec < peer.minimumTimeOfLastOfferedBlock then none
          else peer.goOn env message
      else none

/-! ## What holds of the list -/

/-- The numbers go up by one. -/
def GoesUp (ids : List BlockId) : Prop := ids.IsChain fun id next ↦ next.num = id.num + 1

/-- The list goes up by one from the last block that the delegate has, if it has one. -/
structure ListRight (ids : List BlockId) (lastSeen : BlockId) : Prop where
  goesUp : GoesUp ids
  first : lastSeen ≠ .null → ∀ id ∈ ids.head?, id.num = lastSeen.num + 1

def PeerSync.Right (peer : PeerSync) : Prop :=
  ListRight peer.idsOfItemsToGet peer.lastBlockDelegateHasSeen ∧ peer.idsOfItemsToGet.Nodup

/-- The new list goes on from before the id. -/
def Replaced (message : ItemIdsInventory) (peer : PeerSync) (id : BlockId) : Prop :=
  ∃ first rest, message.itemHashesAvailable = first :: rest ∧ id ∈ peer.idsOfItemsToGet ∧
    (first ∈ peer.idsOfItemsToGet → first.num < id.num)

/-- Ids of the list and of the reply stay, or the delegate has them, or they are replaced. -/
def NoneDropped (env : SyncEnvironment) (message : ItemIdsInventory) (peer : PeerSync)
    (ids : List BlockId) : Prop :=
  ∀ id, id ∈ peer.idsOfItemsToGet ∨ id ∈ message.itemHashesAvailable →
    id ∈ ids ∨ (∃ itemType, env.hasItem itemType id = true) ∨ Replaced message peer id

theorem GoesUp.pairwise (h : GoesUp ids) : ids.Pairwise fun id later ↦ id.num < later.num := by
  have htrans : IsTrans BlockId fun id later ↦ id.num < later.num :=
    ⟨fun _ _ _ hab hbc ↦ lt_trans hab hbc⟩
  apply List.isChain_iff_pairwise.mp
  exact h.imp fun id next (hnext : next.num = id.num + 1) ↦ by omega

theorem GoesUp.nodup (h : GoesUp ids) : ids.Nodup :=
  h.pairwise.imp fun hlt heq ↦ absurd (congrArg BlockId.num heq) hlt.ne

/-- Numbers that go up in `uint32_t` go up as long as they do not wrap around. -/
theorem Sequential.goesUp (h : Sequential ids)
    (hfits : (ids.getD 0 .null).num + ids.length ≤ 2 ^ 32) : GoesUp ids := by
  have hnum (i : ℕ) (hi : i < ids.length) : ids[i].num = (ids.getD 0 .null).num + i := by
    have hseq := h i (List.mem_range.mpr hi)
    rw [List.getD_eq_getElem _ _ hi, Nat.mod_eq_of_lt (by omega)] at hseq
    exact hseq
  apply List.isChain_iff_getElem.mpr
  intro i hi
  rw [hnum, hnum]
  omega

/-! ## The two ways to take a reply -/

/-- Popping from the front leaves a list that goes on from the last item popped. -/
theorem flushSeen_right (env : SyncEnvironment) (itemType : ℕ) {received : List BlockId}
    (hreceived : ListRight received peer.lastBlockDelegateHasSeen) :
    ListRight (flushSeen env itemType received peer).1
        (flushSeen env itemType received peer).2.lastBlockDelegateHasSeen ∧
      (flushSeen env itemType received peer).2.idsOfItemsToGet = peer.idsOfItemsToGet ∧
      ∀ id ∈ received, id ∈ (flushSeen env itemType received peer).1 ∨
        env.hasItem itemType id = true := by
  induction received generalizing peer with
  | nil => exact ⟨hreceived, rfl, fun id hid ↦ nomatch hid⟩
  | cons id received ih =>
      rw [flushSeen]
      by_cases hhas : env.hasItem itemType id = true
      · rw [if_pos hhas]
        have hrest : ListRight received (peer.see env id).lastBlockDelegateHasSeen := by
          refine ⟨hreceived.goesUp.tail, fun _ next hnext ↦ ?_⟩
          exact (List.isChain_cons.mp hreceived.goesUp).1 next hnext
        obtain ⟨hright, hids, hkept⟩ := ih hrest
        refine ⟨hright, hids, ?_⟩
        intro other hother
        rcases List.mem_cons.mp hother with rfl | hother
        · exact .inr hhas
        · exact hkept other hother
      · rw [if_neg hhas]
        exact ⟨hreceived, rfl, fun other hother ↦ .inl hother⟩

/-- What is left after popping ends with the first item received. -/
theorem popUntil_cases (first : BlockId) (ids : List BlockId) :
    popUntil first ids = [] ∧ first ∉ ids ∨
      ∃ front back, popUntil first ids = front ++ [first] ∧ ids = front ++ first :: back := by
  by_cases hne : popUntil first ids = []
  · refine .inl ⟨hne, fun hmem ↦ ?_⟩
    have hall := List.rdropWhile_eq_nil_iff.mp hne first hmem
    exact absurd rfl (of_decide_eq_true hall)
  · have hlast := List.rdropWhile_last_not (fun id ↦ decide (first ≠ id)) ids hne
    have hfirst : first = (popUntil first ids).getLast hne := by
      by_contra hother
      exact hlast (decide_eq_true hother)
    have hsplit := List.dropLast_append_getLast hne
    rw [← hfirst] at hsplit
    have hids : popUntil first ids ++ ids.rtakeWhile (fun id ↦ decide (first ≠ id)) = ids :=
      List.rdropWhile_append_rtakeWhile
    refine .inr ⟨_, ids.rtakeWhile (fun id ↦ decide (first ≠ id)), hsplit.symm, ?_⟩
    rw [← List.singleton_append, ← List.append_assoc, hsplit]
    exact hids.symm

/-- The replies that keep the list right, told from the state before: the numbers do not wrap
around, and where nothing is popped the reply goes on from the last block the delegate has. -/
def PeerSync.ReadyFor (env : SyncEnvironment) (message : ItemIdsInventory) (peer : PeerSync) :
    Prop :=
  match message.itemHashesAvailable with
  | [] => True
  | first :: rest =>
      first.num + (rest.length + 1) ≤ 2 ^ 32 ∧
        if peer.idsOfItemsToGet = [] then
          first ∈ env.otherFronts ∨ env.hasItem message.itemType first = false →
            peer.lastBlockDelegateHasSeen ≠ .null →
              first.num = peer.lastBlockDelegateHasSeen.num + 1
        else first ∈ peer.idsOfItemsToGet ∨ ∃ itemType, env.hasItem itemType first = true

/-- A reply where nothing is to get yet. -/
theorem takeReceived_empty {received first rest} (hids : message.itemHashesAvailable = first :: rest)
    (hempty : peer.idsOfItemsToGet = []) (hgoes : GoesUp (first :: rest))
    (hready : first ∈ env.otherFronts ∨ env.hasItem message.itemType first = false →
      peer.lastBlockDelegateHasSeen ≠ .null → first.num = peer.lastBlockDelegateHasSeen.num + 1)
    (h : peer.takeReceived env message = (received, peer')) :
    ListRight (peer'.idsOfItemsToGet ++ received) peer'.lastBlockDelegateHasSeen ∧
      ∀ id ∈ first :: rest,
        id ∈ peer'.idsOfItemsToGet ++ received ∨ env.hasItem message.itemType id = true := by
  simp only [PeerSync.takeReceived, hids, if_pos hempty] at h
  have hkept (hfirst : peer.lastBlockDelegateHasSeen ≠ .null →
      first.num = peer.lastBlockDelegateHasSeen.num + 1) :
      ListRight (first :: rest) peer.lastBlockDelegateHasSeen := by
    refine ⟨hgoes, fun hseen id hid ↦ ?_⟩
    obtain rfl := Option.some.inj hid
    exact hfirst hseen
  by_cases hother : first ∈ env.otherFronts
  · rw [if_pos hother] at h
    obtain ⟨rfl, rfl⟩ := Prod.mk.inj h
    rw [hempty, List.nil_append]
    exact ⟨hkept (hready (.inl hother)), fun id hid ↦ .inl hid⟩
  · rw [if_neg hother] at h
    by_cases hhas : env.hasItem message.itemType first = true
    · have hrest : ListRight rest (peer.see env first).lastBlockDelegateHasSeen := by
        refine ⟨hgoes.tail, fun _ next hnext ↦ ?_⟩
        exact (List.isChain_cons.mp hgoes).1 next hnext
      rw [flushSeen, if_pos hhas] at h
      obtain ⟨hright, hids', hall⟩ := flushSeen_right env message.itemType hrest
      rw [h] at hright hids' hall
      have hnil : peer'.idsOfItemsToGet = [] := hids'.trans hempty
      rw [hnil, List.nil_append]
      refine ⟨hright, fun id hid ↦ ?_⟩
      rcases List.mem_cons.mp hid with rfl | hid
      · exact .inr hhas
      · exact hall id hid
    · rw [flushSeen, if_neg hhas] at h
      obtain ⟨rfl, rfl⟩ := Prod.mk.inj h
      rw [hempty, List.nil_append]
      exact ⟨hkept (hready (.inr (Bool.eq_false_iff.mpr hhas))), fun id hid ↦ .inl hid⟩

/-- A reply that extends, rewinds or replaces the list. -/
theorem takeReceived_append {received first rest} (hids : message.itemHashesAvailable = first :: rest)
    (hne : peer.idsOfItemsToGet ≠ []) (hpeer : peer.Right) (hgoes : GoesUp (first :: rest))
    (h : peer.takeReceived env message = (received, peer')) :
    ListRight (peer'.idsOfItemsToGet ++ received) peer'.lastBlockDelegateHasSeen ∧
      (∀ id ∈ rest, id ∈ peer'.idsOfItemsToGet ++ received) ∧
      (first ∈ peer.idsOfItemsToGet → first ∈ peer'.idsOfItemsToGet ++ received) ∧
      ∀ id ∈ peer.idsOfItemsToGet,
        id ∈ peer'.idsOfItemsToGet ++ received ∨ Replaced message peer id := by
  simp only [PeerSync.takeReceived, hids, if_neg hne] at h
  rcases popUntil_cases first peer.idsOfItemsToGet with ⟨hnil, hnot⟩ | ⟨front, back, hpop, hold⟩
  · rw [hnil] at h
    obtain ⟨rfl, rfl⟩ := Prod.mk.inj h
    simp only [List.nil_append]
    refine ⟨⟨hgoes.tail, fun _ next hnext ↦ ?_⟩, fun id hid ↦ hid, fun hmem ↦ absurd hmem hnot,
      fun id hid ↦ .inr ⟨first, rest, hids, hid, fun hmem ↦ absurd hmem hnot⟩⟩
    exact (List.isChain_cons.mp hgoes).1 next hnext
  · simp only [hpop, List.getLast?_concat, List.dropLast_concat] at h
    obtain ⟨rfl, rfl⟩ := Prod.mk.inj h
    have hright := hpeer.1
    rw [hold] at hright
    refine ⟨⟨?_, ?_⟩, fun id hid ↦ ?_, fun _ ↦ ?_, fun id hid ↦ ?_⟩
    · exact List.isChain_split.mpr ⟨(List.isChain_split.mp hright.goesUp).1, hgoes⟩
    · intro hseen id hid
      apply hright.first hseen id
      cases front with
      | nil => exact hid
      | cons other front => exact hid
    · exact List.mem_append_right _ (List.mem_cons_of_mem _ hid)
    · exact List.mem_append_right _ List.mem_cons_self
    · rw [hold, List.mem_append, List.mem_cons] at hid
      rcases hid with hfront | rfl | hback
      · exact .inl (List.mem_append_left _ hfront)
      · exact .inl (List.mem_append_right _ List.mem_cons_self)
      · refine .inr ⟨first, rest, hids, ?_, fun _ ↦ ?_⟩
        · rw [hold]
          exact List.mem_append_right _ (List.mem_cons_of_mem _ hback)
        · have hsorted := (List.isChain_split.mp hright.goesUp).2
          exact List.rel_of_pairwise_cons (GoesUp.pairwise hsorted) hback

theorem takeReceived_right {received : List BlockId} (hpeer : peer.Right)
    (hseq : message.itemHashesAvailable ≠ [] → Sequential message.itemHashesAvailable)
    (hready : peer.ReadyFor env message) (h : peer.takeReceived env message = (received, peer')) :
    ListRight (peer'.idsOfItemsToGet ++ received) peer'.lastBlockDelegateHasSeen ∧
      NoneDropped env message peer (peer'.idsOfItemsToGet ++ received) := by
  rw [PeerSync.ReadyFor] at hready
  cases hids : message.itemHashesAvailable with
  | nil =>
      simp only [PeerSync.takeReceived, hids] at h
      obtain ⟨rfl, rfl⟩ := Prod.mk.inj h
      rw [List.append_nil]
      refine ⟨hpeer.1, fun id hid ↦ .inl ?_⟩
      rw [hids] at hid
      exact hid.resolve_right List.not_mem_nil
  | cons first rest =>
      rw [hids] at hready hseq
      obtain ⟨hfits, hready⟩ := hready
      have hgoes : GoesUp (first :: rest) := (hseq (List.cons_ne_nil _ _)).goesUp hfits
      by_cases hempty : peer.idsOfItemsToGet = []
      · rw [if_pos hempty] at hready
        obtain ⟨hright, hkept⟩ := takeReceived_empty hids hempty hgoes hready h
        refine ⟨hright, fun id hid ↦ ?_⟩
        rw [hempty, hids] at hid
        rcases hkept id (hid.resolve_left List.not_mem_nil) with hstays | hhas
        · exact .inl hstays
        · exact .inr (.inl ⟨_, hhas⟩)
      · rw [if_neg hempty] at hready
        obtain ⟨hright, hrest, hfirst, hold⟩ := takeReceived_append hids hempty hpeer hgoes h
        refine ⟨hright, fun id hid ↦ ?_⟩
        rw [hids] at hid
        rcases hid with hid | hid
        · exact (hold id hid).imp_right .inr
        · rcases List.mem_cons.mp hid with rfl | hid
          · exact hready.elim (fun hmem ↦ .inl (hfirst hmem)) fun hhas ↦ .inr (.inl hhas)
          · exact .inl (hrest id hid)

/-! ## Runs of replies and requests -/

inductive SyncEvent
  | reply (env : SyncEnvironment) (message : ItemIdsInventory)
  | request (env : SyncEnvironment) (reset : Bool)

/-- A peer that was disconnected takes no part any more. -/
def syncStep : Option PeerSync → SyncEvent → Option PeerSync
  | none, _ => none
  | some peer, .reply env message => peer.onItemIdsInventory env message
  | some peer, .request env reset => peer.fetchNextBatch env reset

/-- A reply that is taken in, told from the state before. -/
def PeerSync.TakesIn (env : SyncEnvironment) (message : ItemIdsInventory) (peer : PeerSync) :
    Prop :=
  ∃ synopsis, peer.itemIdsRequestedFromPeer = some synopsis ∧
    ValidResponse synopsis message.itemHashesAvailable ∧ ¬UpToDate env message peer

/-- Every reply that is taken in is one that keeps the list right. -/
def SyncReady : Option PeerSync → SyncEvent → Prop
  | some peer, .reply env message => peer.TakesIn env message → peer.ReadyFor env message
  | _, _ => True

/-- After an event that does not disconnect the peer its list is right, and a reply to a
request has dropped no id. -/
def SyncRight (s : Option PeerSync) (event : SyncEvent) : Prop :=
  ∀ peer', syncStep s event = some peer' → peer'.Right ∧
    ∀ peer env message, s = some peer → event = .reply env message →
      peer.itemIdsRequestedFromPeer ≠ none → NoneDropped env message peer peer'.idsOfItemsToGet

theorem PeerSync.Right.of_listRight
    (h : ListRight peer.idsOfItemsToGet peer.lastBlockDelegateHasSeen) : peer.Right :=
  ⟨h, h.goesUp.nodup⟩

/-- A request changes the list by nothing, and forgets the last block seen or keeps it. -/
theorem fetchNextBatch_right {reset : Bool} (hpeer : peer.Right)
    (h : peer.fetchNextBatch env reset = some peer') :
    peer'.Right ∧ peer'.idsOfItemsToGet = peer.idsOfItemsToGet := by
  have hasked {asked : PeerSync} (hright : asked.Right)
      (hids : asked.idsOfItemsToGet = peer.idsOfItemsToGet)
      (h : (match createBlockchainSynopsisForPeer env.getBlockchainSynopsis
          asked.lastBlockDelegateHasSeen asked.idsOfItemsToGet with
        | .ok synopsis => some { asked with itemIdsRequestedFromPeer := some synopsis }
        | .error _ => none) = some peer') :
      peer'.Right ∧ peer'.idsOfItemsToGet = peer.idsOfItemsToGet := by
    split at h
    · exact Option.some.inj h ▸ ⟨hright, hids⟩
    · exact nomatch h
  cases reset with
  | false => exact hasked hpeer rfl h
  | true =>
      have hreset : (peer.resetForkTracking env).Right :=
        .of_listRight ⟨hpeer.1.goesUp, fun hseen ↦ absurd rfl hseen⟩
      exact hasked hreset rfl h

theorem goOn_right (hpeer : peer.Right) (h : peer.goOn env message = some peer') :
    peer'.Right ∧ peer'.idsOfItemsToGet = peer.idsOfItemsToGet := by
  rw [PeerSync.goOn] at h
  split_ifs at h
  · exact Option.some.inj h ▸ ⟨hpeer, rfl⟩
  · exact fetchNextBatch_right hpeer h
  · exact Option.some.inj h ▸ ⟨hpeer, rfl⟩
  · exact fetchNextBatch_right hpeer h

/-- What one reply preserves. -/
theorem onItemIdsInventory_right (hpeer : peer.Right)
    (hready : peer.TakesIn env message → peer.ReadyFor env message)
    (h : peer.onItemIdsInventory env message = some peer') :
    peer'.Right ∧ (peer.itemIdsRequestedFromPeer ≠ none →
      NoneDropped env message peer peer'.idsOfItemsToGet) := by
  rw [PeerSync.onItemIdsInventory] at h
  cases hrequested : peer.itemIdsRequestedFromPeer with
  | none =>
      rw [hrequested] at h
      exact Option.some.inj h ▸ ⟨hpeer, fun hnot ↦ absurd rfl hnot⟩
  | some synopsis =>
      simp only [hrequested] at h
      by_cases hvalid : ValidResponse synopsis message.itemHashesAvailable
      · rw [if_pos hvalid] at h
        by_cases hdone : UpToDate env message peer
        · have hdone' : UpToDate env message { peer with itemIdsRequestedFromPeer := none } := hdone
          rw [if_pos hdone'] at h
          obtain rfl := Option.some.inj h
          refine ⟨hpeer, fun _ id hid ↦ ?_⟩
          obtain ⟨-, hreply, hempty, -⟩ := hdone
          rw [hempty] at hid
          have hmem := hid.resolve_left List.not_mem_nil
          rcases hreply with hnil | ⟨hone, hhas⟩
          · rw [hnil] at hmem
            exact absurd hmem List.not_mem_nil
          · obtain ⟨only, honly⟩ := List.length_eq_one_iff.mp hone
            rw [honly] at hmem hhas
            rw [List.mem_singleton.mp hmem]
            exact .inr (.inl ⟨_, hhas⟩)
        · have hdone' : ¬UpToDate env message { peer with itemIdsRequestedFromPeer := none } :=
            hdone
          rw [if_neg hdone'] at h
          rcases htakes : PeerSync.takeReceived env message
            { peer with itemIdsRequestedFromPeer := none } with ⟨received, taken⟩
          have hfor := hready ⟨synopsis, hrequested, hvalid, hdone⟩
          have hpeer' : PeerSync.Right { peer with itemIdsRequestedFromPeer := none } := hpeer
          obtain ⟨hlist, hkept⟩ :=
            takeReceived_right hpeer' (fun hne ↦ (hvalid hne).1) hfor htakes
          simp only [htakes] at h
          split_ifs at h
          have hright : PeerSync.Right { taken with
              idsOfItemsToGet := taken.idsOfItemsToGet ++ received
              numberOfUnfetchedItemIds := message.totalRemainingItemCount } := .of_listRight hlist
          obtain ⟨hright', hids⟩ := goOn_right hright h
          refine ⟨hright', fun _ ↦ ?_⟩
          rw [hids]
          exact hkept
      · rw [if_neg hvalid] at h
        exact nomatch h

theorem syncRight_of_ready {event : SyncEvent} (hpeer : peer.Right)
    (hready : SyncReady (some peer) event) : SyncRight (some peer) event := by
  intro peer' hstep
  cases event with
  | reply env message =>
      obtain ⟨hright, hkept⟩ := onItemIdsInventory_right hpeer hready hstep
      refine ⟨hright, ?_⟩
      rintro _ _ _ ⟨⟩ ⟨⟩ hrequested
      exact hkept hrequested
  | request env reset =>
      refine ⟨(fetchNextBatch_right hpeer hstep).1, ?_⟩
      rintro _ _ _ _ ⟨⟩

theorem meets_syncRight {s : Option PeerSync} {events : List SyncEvent}
    (hs : ∀ peer, s = some peer → peer.Right) (h : Run.Meets syncStep SyncReady s events) :
    Run.Meets syncStep SyncRight s events := by
  induction events generalizing s with
  | nil => trivial
  | cons event events ih =>
      obtain ⟨hready, hrest⟩ := h
      have hright : SyncRight s event := by
        cases s with
        | none =>
            intro peer' hstep
            exact nomatch hstep
        | some peer => exact syncRight_of_ready (hs peer rfl) hready
      exact ⟨hright, ih (fun peer' hpeer' ↦ (hright peer' hpeer').1) hrest⟩

theorem right_new : PeerSync.Right {} :=
  .of_listRight ⟨.nil, fun hseen ↦ absurd rfl hseen⟩

/-- What is right at every step is right in the end. -/
theorem right_of_meets {s : Option PeerSync} {events : List SyncEvent}
    (hs : ∀ peer, s = some peer → peer.Right) (h : Run.Meets syncStep SyncRight s events) :
    ∀ peer, events.foldl syncStep s = some peer → peer.Right := by
  induction events generalizing s with
  | nil => exact hs
  | cons event events ih => exact ih (fun peer' hpeer' ↦ (h.1 peer' hpeer').1) h.2

/-! ## Two connections -/

/-- A delegate that has the blocks up to a number, and other peers that wait for some blocks. -/
def chainUpTo (num : ℕ) (otherFronts : List BlockId) : SyncEnvironment where
  hasItem itemType id := itemType = syncItemType ∧ id.num ≤ num
  blockTime _ := 0
  now := 0
  otherFronts
  getBlockchainSynopsis lastSeen _ := .ok (if lastSeen = .null then [] else [lastSeen])

/-- Three blocks are offered to an empty chain. -/
def threeOffered : List SyncEvent :=
  [.request (chainUpTo 0 []) false,
    .reply (chainUpTo 0 []) ⟨0, syncItemType, [⟨1, 7⟩, ⟨2, 7⟩, ⟨3, 7⟩]⟩]

/-- The second reply begins with the last block seen, for which another peer waits. -/
def otherFrontOffered : List SyncEvent :=
  [.request (chainUpTo 1 []) false,
    .reply (chainUpTo 1 []) ⟨1, syncItemType, [⟨1, 7⟩]⟩,
    .reply (chainUpTo 1 [⟨1, 7⟩]) ⟨0, syncItemType, [⟨1, 7⟩, ⟨2, 7⟩]⟩]

end KarmaCore.Net
