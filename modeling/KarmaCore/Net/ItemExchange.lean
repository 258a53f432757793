import Mathlib
import KarmaCore.Lib.Run

/-!
# Exchange of items with the peers of a node

Outside of synchronization a node learns from inventory messages what its peers
have, asks them for what it does not have, hands what it asked for to its delegate
and offers to its peers what the delegate accepted.  Whatever the peers send and
in whatever order the tasks of the node take their turns, an event is one stretch
of the node's thread between two points where it may switch tasks.

Times are microseconds since the epoch, those of `fc::time_point_sec` seconds.
-/

namespace KarmaCore.Net

/-! ## Items -/

variable {H : Type*} [DecidableEq H]

/-- `item_id`. -/
structure ItemId (H : Type*) where
  itemType : ℕ
  itemHash : H
  deriving DecidableEq

def trxMessageType : ℕ := 1000

def blockMessageType : ℕ := 1001

/-- `GRAPHENE_NET_MAX_ITEMS_PER_PEER_DURING_NORMAL_OPERATION`. -/
def maxItemsPerPeer : ℕ := 1

/-- `GRAPHENE_NET_MESSAGE_CACHE_DURATION_IN_BLOCKS`. -/
def messageCacheDurationInBlocks : ℕ := 5

/-- `GRAPHENE_NET_MAX_INVENTORY_SIZE_IN_MINUTES`. -/
def maxInventorySizeInMinutes : ℕ := 2

/-- `GRAPHENE_NET_MAX_TRX_PER_SECOND`. -/
def maxTrxPerSecond : ℕ := 1000

/-- `GRAPHENE_MIN_BLOCK_INTERVAL`, in seconds. -/
def minBlockInterval : ℕ := 1

/-- `GRAPHENE_MAX_BLOCK_INTERVAL`, in seconds. -/
def maxBlockInterval : ℕ := 30

def seconds (count : ℕ) : ℕ := count * 1000000

def minutes (count : ℕ) : ℕ := seconds (60 * count)

/-- `fc::time_point_sec` of a time point. -/
def toSeconds (time : ℕ) : ℕ := time / 1000000

/-- `timestamped_item_id`. -/
structure TimestampedItemId (H : Type*) where
  item : ItemId H
  timestamp : ℕ

/-- `timestamped_items_set_type`: at most one entry for an item. -/
abbrev TimestampedItems (H : Type*) := List (TimestampedItemId H)

namespace TimestampedItems

def has (items : TimestampedItems H) (item : ItemId H) : Bool :=
  items.any (·.item = item)

def insert (item : ItemId H) (now : ℕ) (items : TimestampedItems H) : TimestampedItems H :=
  if items.has item then items else items ++ [⟨item, toSeconds now⟩]

def remove (item : ItemId H) (items : TimestampedItems H) : TimestampedItems H :=
  items.filter (·.item ≠ item)

/-- Drops what is older than a time. -/
def since (oldest : ℕ) (items : TimestampedItems H) : TimestampedItems H :=
  items.filter (toSeconds oldest ≤ ·.timestamp)

end TimestampedItems

/-- `prioritized_item_id`. -/
structure PrioritizedItemId (H : Type*) where
  item : ItemId H
  sequenceNumber : ℕ
  timestamp : ℕ

/-- `operator<`: blocks before transactions, then the sign of the difference of two
`unsigned` numbers. -/
def PrioritizedItemId.before (a b : PrioritizedItemId H) : Bool :=
  if a.item.itemType ≠ b.item.itemType then decide (a.item.itemType > b.item.itemType)
  else
    let difference := (b.sequenceNumber + 2 ^ 32 - a.sequenceNumber) % 2 ^ 32
    decide (0 < difference ∧ difference < 2 ^ 31)

/-- Neither the item nor the place in the order may be taken. -/
def PrioritizedItemId.clashes (entry other : PrioritizedItemId H) : Bool :=
  other.item = entry.item || (!entry.before other && !other.before entry)

/-- `items_to_fetch_set_type::insert`. -/
def insertPrioritized (entry : PrioritizedItemId H) (queue : List (PrioritizedItemId H)) :
    List (PrioritizedItemId H) :=
  if queue.any entry.clashes then queue
  else queue.takeWhile (!entry.before ·) ++ entry :: queue.dropWhile (!entry.before ·)

/-! ## Peers -/

/-- The part of `peer_connection` the exchange of items reads and writes. -/
structure Peer (H : Type*) where
  inventoryPeerAdvertisedToUs : TimestampedItems H := []
  inventoryAdvertisedToPeer : TimestampedItems H := []
  itemsRequestedFromPeer : List (ItemId H × ℕ) := []
  syncItemsRequestedFromPeer : List H := []
  itemIdsRequestedFromPeer : Bool := false
  peerNeedsSyncItemsFromUs : Bool := true
  transactionFetchingInhibitedUntil : ℕ := 0

namespace Peer

def busy (peer : Peer H) : Bool :=
  !peer.itemsRequestedFromPeer.isEmpty || !peer.syncItemsRequestedFromPeer.isEmpty ||
    peer.itemIdsRequestedFromPeer

def idle (peer : Peer H) : Bool :=
  !peer.busy

def isTransactionFetchingInhibited (now : ℕ) (peer : Peer H) : Bool :=
  decide (now < peer.transactionFetchingInhibitedUntil)

def clearOldInventory (now : ℕ) (peer : Peer H) : Peer H :=
  { peer with
    inventoryAdvertisedToPeer :=
      peer.inventoryAdvertisedToPeer.since (now - minutes maxInventorySizeInMinutes)
    inventoryPeerAdvertisedToUs :=
      peer.inventoryPeerAdvertisedToUs.since (now - minutes maxInventorySizeInMinutes) }

def isInventoryFullForTransactions (peer : Peer H) : Bool :=
  decide (maxInventorySizeInMinutes * maxTrxPerSecond * 60 <
    peer.inventoryPeerAdvertisedToUs.length)

def isInventoryFull (peer : Peer H) : Bool :=
  decide (maxInventorySizeInMinutes * maxTrxPerSecond * 60 +
    (maxInventorySizeInMinutes + 1) * 60 / minBlockInterval <
      peer.inventoryPeerAdvertisedToUs.length)

/-- The items the peer still owes an answer for. -/
def owed (peer : Peer H) : List (ItemId H) :=
  peer.itemsRequestedFromPeer.map Prod.fst

def request (item : ItemId H) (now : ℕ) (peer : Peer H) : Peer H :=
  { peer with
    itemsRequestedFromPeer :=
      if item ∈ peer.owed then peer.itemsRequestedFromPeer
      else peer.itemsRequestedFromPeer ++ [(item, now)] }

def answer (item : ItemId H) (peer : Peer H) : Peer H :=
  { peer with itemsRequestedFromPeer := peer.itemsRequestedFromPeer.filter (·.1 ≠ item) }

end Peer

/-! ## The node -/

/-- The part of `node_impl` that exchanges items.  Peers are numbered in the order
their connections were made; `created` is the next number. -/
structure Node (H : Type*) where
  peers : ℕ → Peer H := fun _ ↦ {}
  created : ℕ := 0
  handshakingConnections : List ℕ := []
  activeConnections : List ℕ := []
  itemsToFetch : List (PrioritizedItemId H) := []
  itemsToFetchSequenceCounter : ℕ := 0
  recentlyFailedItems : TimestampedItems H := []
  newInventory : List (ItemId H) := []
  recentBlockIntervalInSeconds : ℕ := maxBlockInterval
  /-- What the delegate is handling, and who sent it. -/
  handed : List (ℕ × ItemId H) := []

namespace Node

def setPeer (p : ℕ) (f : Peer H → Peer H) (node : Node H) : Node H :=
  { node with peers := Function.update node.peers p (f (node.peers p)) }

def isItemInAnyPeersInventory (item : ItemId H) (node : Node H) : Bool :=
  node.activeConnections.any fun p ↦ (node.peers p).inventoryPeerAdvertisedToUs.has item

/-- `_items_to_fetch.insert`, with the next sequence number. -/
def enqueue (item : ItemId H) (now : ℕ) (node : Node H) : Node H :=
  { node with
    itemsToFetch :=
      insertPrioritized ⟨item, node.itemsToFetchSequenceCounter, now⟩ node.itemsToFetch
    itemsToFetchSequenceCounter := (node.itemsToFetchSequenceCounter + 1) % 2 ^ 32 }

/-- The peer goes to the closing or to the terminating list. -/
def disconnectFromPeer (p : ℕ) (node : Node H) : Node H :=
  { node with
    activeConnections := node.activeConnections.filter (· ≠ p)
    handshakingConnections := node.handshakingConnections.filter (· ≠ p) }

def connect (node : Node H) : Node H :=
  { node with
    peers := Function.update node.peers node.created {}
    created := node.created + 1
    handshakingConnections := node.handshakingConnections ++ [node.created] }

/-- `move_peer_to_active_list`, when the handshake is done. -/
def movePeerToActiveList (p : ℕ) (node : Node H) : Node H :=
  if p ∈ node.handshakingConnections then
    { node with
      activeConnections := node.activeConnections ++ [p]
      handshakingConnections := node.handshakingConnections.filter (· ≠ p) }
  else node

/-! ### Inventory -/

/-- An item that is not requested yet is to be fetched; one that is on the list
already is expected to be around for longer. -/
def want (item : ItemId H) (now : ℕ) (node : Node H) : Node H :=
  if node.itemsToFetch.any (·.item = item) then
    { node with
      itemsToFetch := node.itemsToFetch.map fun entry ↦
        if entry.item = item then { entry with timestamp := now } else entry }
  else node.enqueue item now

/-- One item of an inventory message, `none` when the list of the peer is full. -/
def onAdvertisedItem (p : ℕ) (item : ItemId H) (now : ℕ) (node : Node H) : Option (Node H) :=
  if node.activeConnections.any fun q ↦ (node.peers q).inventoryAdvertisedToPeer.has item then
    some node
  else if (item.itemType = trxMessageType ∧
      (node.peers p).isInventoryFullForTransactions = true) ∨
        (node.peers p).isInventoryFull = true then
    none
  else
    let noted := node.setPeer p fun peer ↦
      { peer with
        inventoryPeerAdvertisedToUs := peer.inventoryPeerAdvertisedToUs.insert item now }
    if node.activeConnections.any fun q ↦ decide (item ∈ (node.peers q).owed) then some noted
    else if node.recentlyFailedItems.has item then some noted
    else some (noted.want item now)

def onAdvertisedItems (p itemType now : ℕ) : List H → Node H → Node H
  | [], node => node
  | hash :: hashes, node =>
      match node.onAdvertisedItem p ⟨itemType, hash⟩ now with
      | some node' => node'.onAdvertisedItems p itemType now hashes
      | none => node

def onItemIdsInventoryMessage (p itemType : ℕ) (hashes : List H) (now : ℕ) (node : Node H) :
    Node H :=
  (node.setPeer p (·.clearOldInventory now)).onAdvertisedItems p itemType now hashes

/-- A turn of `advertise_inventory_loop`. -/
def advertiseInventory (now : ℕ) (node : Node H) : Node H :=
  { node with
    peers := fun p ↦
      if p ∈ node.activeConnections then
        let peer := node.peers p
        let told := peer.inventoryAdvertisedToPeer
        let advertised := node.newInventory.foldl (fun told item ↦
          if told.has item || peer.inventoryPeerAdvertisedToUs.has item then told
          else told.insert item now) told
        (if peer.peerNeedsSyncItemsFromUs then peer
          else { peer with inventoryAdvertisedToPeer := advertised }).clearOldInventory now
      else node.peers p
    newInventory := [] }

/-! ### Requests -/

/-- `peer_and_items_to_fetch`. -/
structure PeerAndItems (H : Type*) where
  peer : ℕ
  itemIds : List (ItemId H)

/-- What `fetch_items_loop` has done so far in a turn. -/
structure Fetching (H : Type*) where
  peers : ℕ → Peer H
  itemsByPeer : List (PeerAndItems H)
  itemsToFetch : List (PrioritizedItemId H)

/-- The peer has the item and is not asked for too many others in this turn. -/
def eligible (now : ℕ) (peers : ℕ → Peer H) (item : ItemId H) (slot : PeerAndItems H) : Bool :=
  decide (slot.itemIds.length < maxItemsPerPeer) &&
    (peers slot.peer).inventoryPeerAdvertisedToUs.has item &&
      !(decide (item.itemType = trxMessageType) &&
        (peers slot.peer).isTransactionFetchingInhibited now)

/-- `requested_item_count_index` stays in order: an entry that grew past the next one
goes behind the last one that is not longer. -/
def reposition (slot : PeerAndItems H) (slots : List (PeerAndItems H)) :
    List (PeerAndItems H) :=
  match slots with
  | next :: _ =>
      if next.itemIds.length < slot.itemIds.length then
        slots.takeWhile (·.itemIds.length ≤ slot.itemIds.length) ++
          slot :: slots.dropWhile (·.itemIds.length ≤ slot.itemIds.length)
      else slot :: slots
  | [] => [slot]

def addItem (p : ℕ) (item : ItemId H) : List (PeerAndItems H) → List (PeerAndItems H)
  | [] => []
  | slot :: slots =>
      if slot.peer = p then reposition { slot with itemIds := slot.itemIds ++ [item] } slots
      else slot :: addItem p item slots

def Fetching.request (item : ItemId H) (p now : ℕ) (fetching : Fetching H) : Fetching H :=
  { fetching with
    peers := Function.update fetching.peers p ((fetching.peers p).request item now)
    itemsByPeer := addItem p item fetching.itemsByPeer }

def fetchLoop (now oldest : ℕ) : List (PrioritizedItemId H) → Fetching H → Fetching H
  | [], fetching => fetching
  | entry :: queue, fetching =>
      if entry.timestamp < oldest then fetchLoop now oldest queue fetching
      else
        match fetching.itemsByPeer.find? (eligible now fetching.peers entry.item) with
        | some slot => fetchLoop now oldest queue (fetching.request entry.item slot.peer now)
        | none => fetchLoop now oldest queue
            { fetching with itemsToFetch := fetching.itemsToFetch ++ [entry] }

/-- The peers that are asked in this turn. -/
def idlePeers (node : Node H) : List ℕ :=
  node.activeConnections.filter fun p ↦ (node.peers p).idle

def oldestTimestampToFetch (now : ℕ) (node : Node H) : ℕ :=
  now - seconds (node.recentBlockIntervalInSeconds * messageCacheDurationInBlocks)

def fetching (now : ℕ) (node : Node H) : Fetching H :=
  fetchLoop now (node.oldestTimestampToFetch now) node.itemsToFetch
    { peers := node.peers, itemsByPeer := node.idlePeers.map (⟨·, []⟩), itemsToFetch := [] }

/-- A turn of `fetch_items_loop`. -/
def fetchItems (now : ℕ) (node : Node H) : Node H :=
  { node with
    peers := (node.fetching now).peers
    itemsToFetch := (node.fetching now).itemsToFetch }

/-- `fetch_items_message`. -/
structure FetchItemsMessage (H : Type*) where
  itemType : ℕ
  itemsToFetch : List H

/-- One message for each type, in the order of `std::map`. -/
def fetchItemsMessages (items : List (ItemId H)) : List (FetchItemsMessage H) :=
  ((items.map ItemId.itemType).dedup.mergeSort (· ≤ ·)).map fun itemType ↦
    ⟨itemType, (items.filter (·.itemType = itemType)).map ItemId.itemHash⟩

/-! ### Answers -/

def onItemNotAvailableMessage (p : ℕ) (item : ItemId H) (now : ℕ) (node : Node H) : Node H :=
  if item ∈ (node.peers p).owed then
    let node := node.setPeer p fun peer ↦
      { peer.answer item with
        inventoryPeerAdvertisedToUs := peer.inventoryPeerAdvertisedToUs.remove item }
    if node.isItemInAnyPeersInventory item then node.enqueue item now else node
  else if item.itemHash ∈ (node.peers p).syncItemsRequestedFromPeer then
    let node := node.setPeer p fun peer ↦
      { peer with
        syncItemsRequestedFromPeer := peer.syncItemsRequestedFromPeer.erase item.itemHash }
    if (node.peers p).peerNeedsSyncItemsFromUs then node else node.disconnectFromPeer p
  else node

/-- `process_ordinary_message` and `process_block_message` up to the call of the
delegate.  A block that synchronization asked for is the business of its tasks. -/
def onItemMessage (p : ℕ) (item : ItemId H) (blockId : H) (node : Node H) : Node H :=
  if item ∈ (node.peers p).owed then
    { node.setPeer p (·.answer item) with handed := (p, item) :: node.handed }
  else if item.itemType = blockMessageType ∧
      blockId ∈ (node.peers p).syncItemsRequestedFromPeer then
    node.setPeer p fun peer ↦
      { peer with syncItemsRequestedFromPeer := peer.syncItemsRequestedFromPeer.erase blockId }
  else node.disconnectFromPeer p

/-- What the delegate says about an item. -/
inductive Verdict (H : Type*) where
  /-- The message hashes of the transactions a block holds, and the peers whose
  version is too old for it. -/
  | accepted (containedTransactions : List H) (outdated : List ℕ)
  | unlinkable
  /-- The other peers that offered the block. -/
  | rejected (offering : List ℕ)

def broadcast (item : ItemId H) (node : Node H) : Node H :=
  { node with
    newInventory := if item ∈ node.newInventory then node.newInventory
      else node.newInventory ++ [item] }

def forgetTransactions (hashes : List H) (node : Node H) : Node H :=
  { node with
    itemsToFetch := node.itemsToFetch.filter fun entry ↦
      ¬ (entry.item.itemType = trxMessageType ∧ entry.item.itemHash ∈ hashes) }

def clearOldInventories (now : ℕ) (node : Node H) : Node H :=
  { node with
    peers := fun p ↦
      if p ∈ node.activeConnections then (node.peers p).clearOldInventory now
      else node.peers p }

def disconnectAll (ps : List ℕ) (node : Node H) : Node H :=
  ps.foldl (fun node p ↦ node.disconnectFromPeer p) node

/-- The delegate is done with an item; an unlinkable block starts a synchronization. -/
def onVerdict (p : ℕ) (item : ItemId H) (verdict : Verdict H) (now : ℕ) (node : Node H) :
    Node H :=
  if (p, item) ∈ node.handed then
    let node := { node with handed := node.handed.erase (p, item) }
    if item.itemType = blockMessageType then
      match verdict with
      | .accepted hashes outdated =>
          (((node.forgetTransactions hashes).clearOldInventories now).broadcast
            item).disconnectAll outdated
      | .unlinkable => node
      | .rejected offering => node.disconnectAll (p :: offering)
    else
      match verdict with
      | .accepted _ _ => node.broadcast item
      | _ => { node with recentlyFailedItems := node.recentlyFailedItems.insert item now }
  else node

/-- What the peer owed is fetched from another one that has it. -/
def onConnectionClosed (p now : ℕ) (node : Node H) : Node H :=
  (node.peers p).owed.foldl (fun node item ↦
    if node.isItemInAnyPeersInventory item then node.enqueue item now else node)
      (node.disconnectFromPeer p)

def pruneFailedItems (now : ℕ) (node : Node H) : Node H :=
  { node with recentlyFailedItems := node.recentlyFailedItems.since (now - minutes 15) }

end Node

/-! ## Runs -/

/-- What may happen next, in any order: messages of the peers, turns of the node's
tasks, calls of the client. -/
inductive NodeEvent (H : Type*) where
  | connect
  | handshakeDone (p : ℕ)
  | inventory (p itemType : ℕ) (hashes : List H) (now : ℕ)
  | notAvailable (p : ℕ) (item : ItemId H) (now : ℕ)
  | itemMessage (p : ℕ) (item : ItemId H) (blockId : H)
  | verdict (p : ℕ) (item : ItemId H) (verdict : Node.Verdict H) (now : ℕ)
  | fetchItems (now : ℕ)
  | advertise (now : ℕ)
  | broadcast (item : ItemId H)
  | disconnect (p : ℕ)
  | closed (p now : ℕ)
  | pruneFailed (now : ℕ)
  | blockInterval (count : ℕ)
  /-- What synchronization with the peer is waiting for. -/
  | sync (p : ℕ) (items : List H) (itemIds needsItems : Bool)

def Node.step (node : Node H) : NodeEvent H → Node H
  | .connect => node.connect
  | .handshakeDone p => node.movePeerToActiveList p
  | .inventory p itemType hashes now => node.onItemIdsInventoryMessage p itemType hashes now
  | .notAvailable p item now => node.onItemNotAvailableMessage p item now
  | .itemMessage p item blockId => node.onItemMessage p item blockId
  | .verdict p item verdict now => node.onVerdict p item verdict now
  | .fetchItems now => node.fetchItems now
  | .advertise now => node.advertiseInventory now
  | .broadcast item => node.broadcast item
  | .disconnect p => node.disconnectFromPeer p
  | .closed p now => node.onConnectionClosed p now
  | .pruneFailed now => node.pruneFailedItems now
  | .blockInterval count => { node with recentBlockIntervalInSeconds := count }
  | .sync p items itemIds needsItems => node.setPeer p fun peer ↦
      { peer with
        syncItemsRequestedFromPeer := items
        itemIdsRequestedFromPeer := itemIds
        peerNeedsSyncItemsFromUs := needsItems }

end KarmaCore.Net
