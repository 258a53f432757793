import Mathlib
import KarmaCore.Lib.Run

/-!
# The blocks that are fetched during synchronization

Each peer offers a list of ids of blocks.  The node asks idle peers for blocks that it neither has
on hand nor has asked for, hands blocks to the delegate once they come first in the list of a
peer, and stops asking while too many of them wait.
-/

namespace KarmaCore.Net

variable {H : Type*} [DecidableEq H]

/-- `_maximum_blocks_per_peer_during_syncing` and its siblings. -/
structure SyncLimits where
  maximumBlocksPerPeer : ℕ := 200
  maximumNumberOfBlocksToHandle : ℕ := 200
  maximumNumberOfSyncBlocksToPrefetch : ℕ := 2000
  maximumNumberOfConnections : ℕ := 200

/-- The part of `peer_connection` that the fetching of blocks reads and writes; what else a peer
may be busy with is one flag. -/
structure SyncPeer (H : Type*) where
  weNeedSyncItemsFromPeer : Bool := true
  peerNeedsSyncItemsFromUs : Bool := true
  inhibitFetchingSyncBlocks : Bool := false
  otherwiseBusy : Bool := false
  idsOfItemsToGet : List H := []
  idsOfItemsBeingProcessed : List H := []
  syncItemsRequestedFromPeer : List H := []

def SyncPeer.idle (peer : SyncPeer H) : Bool :=
  peer.syncItemsRequestedFromPeer.isEmpty && !peer.otherwiseBusy

/-- Of a block only the id is looked at. -/
structure SyncNode (H : Type*) where
  peers : ℕ → SyncPeer H := fun _ ↦ {}
  activeConnections : List ℕ := []
  activeSyncRequests : List H := []
  newReceivedSyncItems : List H := []
  receivedSyncItems : List H := []
  handleMessageCallsInProgress : List H := []
  mostRecentBlocksAccepted : List H := []
  suspendFetchingSyncBlocks : Bool := false

/-- What the delegate says of a block, and which peers have to upgrade after it. -/
inductive SyncVerdict where
  | accepted (outdated : List ℕ)
  | tooOld
  | invalid

namespace SyncNode

def owed (p : ℕ) (node : SyncNode H) : List H := (node.peers p).syncItemsRequestedFromPeer

def onHand (node : SyncNode H) : List H := node.newReceivedSyncItems ++ node.receivedSyncItems

def setPeer (p : ℕ) (f : SyncPeer H → SyncPeer H) (node : SyncNode H) : SyncNode H :=
  { node with peers := Function.update node.peers p (f (node.peers p)) }

/-- All active peers, in whatever order. -/
def forActive (f : ℕ → SyncPeer H → SyncPeer H) (node : SyncNode H) : SyncNode H :=
  { node with
    peers := fun p ↦ if p ∈ node.activeConnections then f p (node.peers p) else node.peers p }

def disconnect (ps : List ℕ) (node : SyncNode H) : SyncNode H :=
  { node with activeConnections := node.activeConnections.filter (· ∉ ps) }

/-! ### Fetching -/

def haveAlreadyReceivedSyncItem (h : H) (node : SyncNode H) : Bool :=
  h ∈ node.receivedSyncItems || h ∈ node.newReceivedSyncItems

/-- Neither on hand, nor asked for, nor scheduled. -/
def wanted (scheduled : List H) (h : H) (node : SyncNode H) : Bool :=
  !node.haveAlreadyReceivedSyncItem h && h ∉ scheduled && h ∉ node.activeSyncRequests

/-- The loop over the ids of a peer. -/
def pickItems (maximum : ℕ) (want : H → Bool) : List H → List H → List H
  | picked, [] => picked
  | picked, h :: hs =>
      if want h ∧ h ∉ picked then
        if maximum ≤ picked.length + 1 then picked ++ [h]
        else pickItems maximum want (picked ++ [h]) hs
      else pickItems maximum want picked hs

def eligible (p : ℕ) (node : SyncNode H) : Bool :=
  (node.peers p).weNeedSyncItemsFromPeer && (node.peers p).idle &&
    !(node.peers p).inhibitFetchingSyncBlocks

def schedule (limits : SyncLimits) (node : SyncNode H) (requests : List (ℕ × List H)) (p : ℕ) :
    List (ℕ × List H) :=
  if p ∉ requests.map Prod.fst ∧ node.eligible p then
    let items := pickItems limits.maximumBlocksPerPeer
      (node.wanted (requests.flatMap Prod.snd)) [] (node.peers p).idsOfItemsToGet
    if items = [] then requests else requests ++ [(p, items)]
  else requests

def requestSyncItemsFromPeer (node : SyncNode H) (request : ℕ × List H) : SyncNode H :=
  { node with
    activeSyncRequests := node.activeSyncRequests ++
      request.2.filter (· ∉ node.activeSyncRequests)
    peers := Function.update node.peers request.1 { node.peers request.1 with
      syncItemsRequestedFromPeer := node.owed request.1 ++
        request.2.filter (· ∉ node.owed request.1) } }

/-- A turn of `fetch_sync_items_loop`. -/
def fetchSyncItems (limits : SyncLimits) (node : SyncNode H) : SyncNode H :=
  if node.suspendFetchingSyncBlocks then node
  else (node.activeConnections.foldl (node.schedule limits) []).foldl requestSyncItemsFromPeer node

/-! ### Replies -/

/-- `sync_items_requested_from_peer.erase`. -/
def settle (p : ℕ) (h : H) (node : SyncNode H) : SyncNode H :=
  node.setPeer p fun peer ↦ { peer with
    syncItemsRequestedFromPeer := peer.syncItemsRequestedFromPeer.filter (· ≠ h) }

/-- A block that was not asked for ends the connection. -/
def onBlockMessage (p : ℕ) (h : H) (node : SyncNode H) : SyncNode H :=
  if h ∈ node.owed p then
    { node.settle p h with
      activeSyncRequests := node.activeSyncRequests.filter (· ≠ h)
      newReceivedSyncItems := h :: node.newReceivedSyncItems }
  else node.disconnect [p]

/-- The id is taken off what the peer owes, but not off the active requests. -/
def onItemNotAvailable (p : ℕ) (h : H) (node : SyncNode H) : SyncNode H :=
  if h ∈ node.owed p then
    let node := node.settle p h
    if (node.peers p).peerNeedsSyncItemsFromUs then
      node.setPeer p fun peer ↦ { peer with inhibitFetchingSyncBlocks := true }
    else node.disconnect [p]
  else node

/-- What the peer owed may be asked of others; the peer is gone. -/
def onConnectionClosed (p : ℕ) (node : SyncNode H) : SyncNode H :=
  { (node.disconnect [p]).setPeer p fun _ ↦ {} with
    activeSyncRequests := node.activeSyncRequests.filter (· ∉ node.owed p) }

/-! ### The backlog -/

def takeNew (node : SyncNode H) : SyncNode H :=
  { node with
    receivedSyncItems := node.newReceivedSyncItems.reverse ++ node.receivedSyncItems
    newReceivedSyncItems := [] }

/-- The first block on hand that comes first for an active peer. -/
def nextBlock (node : SyncNode H) : Option H :=
  node.receivedSyncItems.find? fun h ↦
    node.activeConnections.any fun p ↦ (node.peers p).idsOfItemsToGet.head? = some h

def popFirst (h : H) (node : SyncNode H) : SyncNode H :=
  node.forActive fun _ peer ↦
    if peer.idsOfItemsToGet.head? = some h then
      { peer with
        idsOfItemsToGet := peer.idsOfItemsToGet.tail
        idsOfItemsBeingProcessed := peer.idsOfItemsBeingProcessed.insert h }
    else peer

def finishProcessing (h : H) (peer : SyncPeer H) : SyncPeer H :=
  { peer with idsOfItemsBeingProcessed := peer.idsOfItemsBeingProcessed.filter (· ≠ h) }

/-- One turn over the blocks on hand; a block that was accepted in the meantime stays. -/
def backlogTurn (node : SyncNode H) : Bool × SyncNode H :=
  match node.takeNew.nextBlock with
  | none => (false, node.takeNew)
  | some h =>
      let node := node.takeNew.popFirst h
      if h ∈ node.mostRecentBlocksAccepted then
        (false, node.forActive fun _ ↦ finishProcessing h)
      else
        (true, { node with
          receivedSyncItems := node.receivedSyncItems.erase h
          handleMessageCallsInProgress := node.handleMessageCallsInProgress ++ [h] })

theorem nextBlock_mem {node : SyncNode H} {h : H} (hnext : node.nextBlock = some h) :
    h ∈ node.receivedSyncItems :=
  List.mem_of_find?_eq_some hnext

theorem backlogTurn_lt {node node' : SyncNode H} (hturn : node.backlogTurn = (true, node')) :
    node'.onHand.length < node.onHand.length := by
  unfold backlogTurn at hturn
  split at hturn
  · cases hturn
  · rename_i h hnext
    have hmem := nextBlock_mem hnext
    dsimp only at hturn
    split_ifs at hturn
    · cases hturn
    · cases hturn
      have hmem' : h ∈ (node.takeNew.popFirst h).receivedSyncItems := hmem
      have hpos := List.length_pos_of_mem hmem'
      simp only [onHand, List.length_append, List.length_erase_of_mem hmem']
      simp only [popFirst, forActive, takeNew, List.length_append, List.length_reverse,
        List.length_nil] at hpos ⊢
      omega

def backlogLoop (limits : SyncLimits) (node : SyncNode H) : SyncNode H :=
  match _hturn : node.backlogTurn with
  | (processed, node') =>
      if limits.maximumNumberOfBlocksToHandle ≤ node'.handleMessageCallsInProgress.length then
        if limits.maximumNumberOfSyncBlocksToPrefetch ≤ node'.receivedSyncItems.length then
          { node' with suspendFetchingSyncBlocks := true }
        else node'
      else if _hprocessed : processed = true then backlogLoop limits node'
      else node'
termination_by node.onHand.length
decreasing_by exact backlogTurn_lt (_hprocessed ▸ _hturn)

def processBacklog (limits : SyncLimits) (node : SyncNode H) : SyncNode H :=
  if limits.maximumNumberOfBlocksToHandle ≤ node.handleMessageCallsInProgress.length then node
  else backlogLoop limits { node with suspendFetchingSyncBlocks := false }

/-- `start_synchronizing_with_peer`; a list of ids is asked for. -/
def startSynchronizing (peer : SyncPeer H) : SyncPeer H :=
  { peer with
    idsOfItemsToGet := []
    weNeedSyncItemsFromPeer := true
    inhibitFetchingSyncBlocks := false
    otherwiseBusy := true }

/-- What a peer is told to do, or has done with, once a block is accepted. -/
def afterAccepted (h : H) (peer : SyncPeer H) : SyncPeer H :=
  if peer.idsOfItemsToGet = [] ∧ peer.idsOfItemsBeingProcessed = [] then
    if peer.peerNeedsSyncItemsFromUs = false ∧ peer.weNeedSyncItemsFromPeer = false then
      startSynchronizing peer
    else peer
  else finishProcessing h peer

/-- The end of `send_sync_block_to_node_delegate`. -/
def onVerdict (limits : SyncLimits) (h : H) (verdict : SyncVerdict) (node : SyncNode H) :
    SyncNode H :=
  if h ∈ node.handleMessageCallsInProgress then
    let node := { node with
      handleMessageCallsInProgress := node.handleMessageCallsInProgress.erase h }
    match verdict with
    | .accepted outdated =>
        let node := { node with
          mostRecentBlocksAccepted :=
            (node.mostRecentBlocksAccepted ++ [h]).rtake limits.maximumNumberOfConnections }
        (node.forActive fun p peer ↦
          if p ∈ outdated then peer else afterAccepted h peer).disconnect outdated
    | .tooOld => node.forActive fun _ peer ↦
        if h ∈ peer.idsOfItemsBeingProcessed then { peer with inhibitFetchingSyncBlocks := true }
        else peer
    | .invalid => node.disconnect (node.activeConnections.filter fun p ↦
        h ∈ (node.peers p).idsOfItemsBeingProcessed)
  else node

end SyncNode

/-- What may happen next, in any order. -/
inductive SyncBlockEvent (H : Type*) where
  | activate (p : ℕ)
  /-- Lists of ids and the exchange of items change the rest of a peer. -/
  | attend (p : ℕ) (peer : SyncPeer H)
  | fetchSyncItems
  | block (p : ℕ) (h : H)
  | notAvailable (p : ℕ) (h : H)
  | processBacklog
  | verdict (h : H) (verdict : SyncVerdict)
  | disconnect (p : ℕ)
  | closed (p : ℕ)

def SyncNode.step (limits : SyncLimits) (node : SyncNode H) : SyncBlockEvent H → SyncNode H
  | .activate p =>
      if p ∈ node.activeConnections then node
      else { node with activeConnections := node.activeConnections ++ [p] }
  | .attend p peer => node.setPeer p fun old ↦ { peer with
      idsOfItemsBeingProcessed := old.idsOfItemsBeingProcessed
      syncItemsRequestedFromPeer := old.syncItemsRequestedFromPeer }
  | .fetchSyncItems => node.fetchSyncItems limits
  | .block p h => node.onBlockMessage p h
  | .notAvailable p h => node.onItemNotAvailable p h
  | .processBacklog => node.processBacklog limits
  | .verdict h verdict => node.onVerdict limits h verdict
  | .disconnect p => node.disconnect [p]
  | .closed p => node.onConnectionClosed p

/-- The node, with the ids that peers said not to have when asked for them. -/
structure SyncRun (H : Type*) where
  node : SyncNode H := {}
  reported : List H := []

namespace SyncRun

def step (limits : SyncLimits) (r : SyncRun H) (event : SyncBlockEvent H) : SyncRun H where
  node := r.node.step limits event
  reported :=
    match event with
    | .notAvailable p h => if h ∈ r.node.owed p then h :: r.reported else r.reported
    | _ => r.reported

end SyncRun

end KarmaCore.Net
