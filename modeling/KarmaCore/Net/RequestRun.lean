import Mathlib
import KarmaCore.Net.FetchTurn

/-!
# Requests over whole runs

Every event keeps the bookkeeping of requests, so it holds after every run.  An item
is asked of one peer at a time as long as a peer that still owes something is heard
of only while it is connected.
-/

namespace KarmaCore.Net

open Node

variable {H : Type*} [DecidableEq H] {node node' : Node H} {item : ItemId H} {p now : ℕ}

namespace Node

/-- What holds after any run. -/
structure Tidy (node : Node H) : Prop where
  queued : node.queued.Nodup
  owed : ∀ p, (node.owed p).length ≤ maxItemsPerPeer
  unasked : ∀ p, p ∈ node.handshakingConnections ∨ node.created ≤ p → node.owed p = []
  active : node.activeConnections.Nodup
  apart : ∀ p ∈ node.activeConnections, p ∉ node.handshakingConnections
  numbered : ∀ p, p ∈ node.activeConnections ∨ p ∈ node.handshakingConnections →
    p < node.created

/-- No active peer is asked for what another one owes, or is to be asked for it. -/
structure Exclusive (node : Node H) : Prop where
  once : ∀ p ∈ node.activeConnections, ∀ q ∈ node.activeConnections, ∀ item,
    item ∈ node.owed p → item ∈ node.owed q → p = q
  unqueued : ∀ p ∈ node.activeConnections, ∀ item ∈ node.owed p, item ∉ node.queued

/-! ## Steps that take something away -/

omit [DecidableEq H] in
theorem Lessens.tidy (h : Lessens node node') (ht : node.Tidy) : node'.Tidy where
  queued := h.queued.nodup ht.queued
  owed := fun p ↦ (h.owed p).length_le.trans (ht.owed p)
  unasked := by
    intro p hp
    have hbefore : node.owed p = [] := by
      apply ht.unasked
      rw [h.created] at hp
      exact hp.imp_left fun hmem ↦ h.handshaking.subset hmem
    exact List.sublist_nil.mp (hbefore ▸ h.owed p)
  active := h.active.nodup ht.active
  apart := fun p hp hmem ↦ ht.apart p (h.active.subset hp) (h.handshaking.subset hmem)
  numbered := by
    intro p hp
    rw [h.created]
    exact ht.numbered p (hp.imp (fun hmem ↦ h.active.subset hmem)
      fun hmem ↦ h.handshaking.subset hmem)

omit [DecidableEq H] in
theorem Lessens.exclusive (h : Lessens node node') (he : node.Exclusive) : node'.Exclusive where
  once := fun p hp q hq item hitem hitem' ↦
    he.once p (h.active.subset hp) q (h.active.subset hq) item ((h.owed p).subset hitem)
      ((h.owed q).subset hitem')
  unqueued := fun p hp item hitem hqueued ↦
    he.unqueued p (h.active.subset hp) item ((h.owed p).subset hitem) (h.queued.subset hqueued)

theorem Tidy.enqueue (ht : node.Tidy) (item : ItemId H) (now : ℕ) :
    (node.enqueue item now).Tidy :=
  ⟨nodup_queued_enqueue ht.queued, ht.owed, ht.unasked, ht.active, ht.apart, ht.numbered⟩

theorem Exclusive.enqueue (he : node.Exclusive)
    (hfree : ∀ q ∈ node.activeConnections, item ∉ node.owed q) :
    (node.enqueue item now).Exclusive where
  once := he.once
  unqueued := by
    intro p hp other hother hqueued
    rcases mem_queued_enqueue hqueued with rfl | hqueued
    · exact hfree p hp hother
    · exact he.unqueued p hp other hother hqueued

/-! ## Connections -/

omit [DecidableEq H] in
theorem owed_connect (hfresh : node.owed node.created = []) (p : ℕ) :
    node.connect.owed p = node.owed p := by
  by_cases hp : p = node.created
  · subst hp
    simpa [Node.owed, connect, Peer.owed] using hfresh.symm
  · simp [Node.owed, connect, hp]

omit [DecidableEq H] in
theorem Tidy.connect (ht : node.Tidy) : node.connect.Tidy := by
  have howed := owed_connect (ht.unasked node.created (.inr le_rfl))
  refine ⟨ht.queued, fun p ↦ howed p ▸ ht.owed p, ?_, ht.active, ?_, ?_⟩
  · intro p hp
    rw [howed]
    rcases hp with hp | hp
    · rcases List.mem_append.mp hp with hp | hp
      · exact ht.unasked p (.inl hp)
      · exact ht.unasked p (.inr (List.mem_singleton.mp hp).ge)
    · exact ht.unasked p (.inr ((Nat.le_succ _).trans hp))
  · intro p hp hmem
    rcases List.mem_append.mp hmem with hmem | hmem
    · exact ht.apart p hp hmem
    · have := ht.numbered p (.inl hp)
      simp at hmem
      omega
  · intro p hp
    have hlt : p ∈ node.activeConnections ∨ p ∈ node.handshakingConnections →
        p < node.created + 1 := fun hp ↦ (ht.numbered p hp).trans (Nat.lt_succ_self _)
    rcases hp with hp | hp
    · exact hlt (.inl hp)
    · rcases List.mem_append.mp hp with hp | hp
      · exact hlt (.inr hp)
      · exact (List.mem_singleton.mp hp).trans_lt (Nat.lt_succ_self _)

omit [DecidableEq H] in
theorem Exclusive.connect (ht : node.Tidy) (he : node.Exclusive) : node.connect.Exclusive := by
  have howed := owed_connect (ht.unasked node.created (.inr le_rfl))
  refine ⟨?_, ?_⟩
  · intro p hp q hq item hitem hitem'
    rw [howed] at hitem hitem'
    exact he.once p hp q hq item hitem hitem'
  · intro p hp item hitem
    rw [howed] at hitem
    exact he.unqueued p hp item hitem

omit [DecidableEq H] in
theorem Tidy.movePeerToActiveList (ht : node.Tidy) (p : ℕ) :
    (node.movePeerToActiveList p).Tidy := by
  unfold Node.movePeerToActiveList
  split
  · rename_i hp
    have hnew : p ∉ node.activeConnections := fun hmem ↦ ht.apart p hmem hp
    refine ⟨ht.queued, ht.owed, ?_, ?_, ?_, ?_⟩
    · intro q hq
      exact ht.unasked q (hq.imp_left fun hmem ↦ List.mem_of_mem_filter hmem)
    · exact List.Nodup.append ht.active (List.nodup_singleton p)
        (List.disjoint_singleton.mpr hnew)
    · intro q hq hmem
      obtain ⟨hmem, hne⟩ := List.mem_filter.mp hmem
      rcases List.mem_append.mp hq with hq | hq
      · exact ht.apart q hq hmem
      · simp_all
    · intro q hq
      apply ht.numbered
      rcases hq with hq | hq
      · rcases List.mem_append.mp hq with hq | hq
        · exact .inl hq
        · exact .inr (List.mem_singleton.mp hq ▸ hp)
      · exact .inr (List.mem_of_mem_filter hq)
  · exact ht

omit [DecidableEq H] in
/-- A peer whose handshake is done owes nothing yet. -/
theorem Exclusive.movePeerToActiveList (ht : node.Tidy) (he : node.Exclusive) (p : ℕ) :
    (node.movePeerToActiveList p).Exclusive := by
  unfold Node.movePeerToActiveList
  split
  · rename_i hp
    have hnone : node.owed p = [] := ht.unasked p (.inl hp)
    have hold : ∀ q ∈ node.activeConnections ++ [p], ∀ item ∈ node.owed q,
        q ∈ node.activeConnections := by
      intro q hq item hitem
      rcases List.mem_append.mp hq with hq | hq
      · exact hq
      · obtain rfl := List.mem_singleton.mp hq
        rw [hnone] at hitem
        cases hitem
    exact
      ⟨fun q hq r hr item hitem hitem' ↦
        he.once q (hold q hq item hitem) r (hold r hr item hitem') item hitem hitem',
      fun q hq item hitem ↦ he.unqueued q (hold q hq item hitem) item hitem⟩
  · exact he

/-! ## The fetch loop -/

/-- What a turn of the fetch loop does to a tidy node. -/
theorem fetching_spec (ht : node.Tidy) (now : ℕ) :
    (node.fetching now).Sound node now ∧
      (node.fetching now).itemsToFetch.Sublist node.itemsToFetch ∧
      ((node.itemsToFetch.filter (node.oldestTimestampToFetch now ≤ ·.timestamp)).map
        PrioritizedItemId.item).Perm
          (asked (node.fetching now).itemsByPeer ++
            (node.fetching now).itemsToFetch.map PrioritizedItemId.item) := by
  have hnone : asked (node.idlePeers.map fun p ↦ (⟨p, []⟩ : PeerAndItems H)) = [] := by
    simp [asked]
  obtain ⟨hsound, kept, hkept, heq, -, hperm⟩ :=
    fetchLoop_spec (node.oldestTimestampToFetch now) node.itemsToFetch
      (sound_start ht.active now) (by simpa [hnone, queued] using ht.queued)
  rw [List.nil_append] at heq
  refine ⟨hsound, ?_, ?_⟩
  · rw [fetching, heq]
    exact hkept
  · simpa [fetching, heq, hnone] using hperm

theorem owed_fetchItems (ht : node.Tidy) (now : ℕ) :
    (∀ slot ∈ (node.fetching now).itemsByPeer,
      (node.fetchItems now).owed slot.peer = slot.itemIds) ∧
        ∀ p ∉ node.idlePeers, (node.fetchItems now).owed p = node.owed p := by
  obtain ⟨hsound, -, -⟩ := fetching_spec ht now
  refine ⟨hsound.owed, ?_⟩
  intro p hp
  exact congrArg Peer.owed (hsound.others p hp)

theorem slot_of_idle (ht : node.Tidy) (now : ℕ) (hp : p ∈ node.idlePeers) :
    ∃ slot ∈ (node.fetching now).itemsByPeer, slot.peer = p :=
  List.mem_map.mp ((fetching_spec ht now).1.slots.mem_iff.mpr hp)

theorem Tidy.fetchItems (ht : node.Tidy) (now : ℕ) : (node.fetchItems now).Tidy := by
  obtain ⟨hsound, hkept, -⟩ := fetching_spec ht now
  obtain ⟨hslots, hothers⟩ := owed_fetchItems ht now
  have hidle : ∀ p ∈ node.idlePeers, p ∈ node.activeConnections :=
    fun p hp ↦ List.mem_of_mem_filter hp
  refine ⟨(hkept.map _).nodup ht.queued, ?_, ?_, ht.active, ht.apart, ht.numbered⟩
  · intro p
    by_cases hp : p ∈ node.idlePeers
    · obtain ⟨slot, hslot, rfl⟩ := slot_of_idle ht now hp
      rw [hslots slot hslot]
      exact hsound.bounded slot hslot
    · rw [hothers p hp]
      exact ht.owed p
  · intro p hp
    have hnot : p ∉ node.idlePeers := by
      intro hmem
      rcases hp with hp | hp
      · exact ht.apart p (hidle p hmem) hp
      · exact absurd (ht.numbered p (.inl (hidle p hmem))) (Nat.not_lt.mpr hp)
    rw [hothers p hnot]
    exact ht.unasked p hp

theorem Exclusive.fetchItems (ht : node.Tidy) (he : node.Exclusive) (now : ℕ) :
    (node.fetchItems now).Exclusive := by
  obtain ⟨hsound, hkept, hperm⟩ := fetching_spec ht now
  obtain ⟨hslots, hothers⟩ := owed_fetchItems ht now
  have hnodup : (asked (node.fetching now).itemsByPeer ++
      (node.fetching now).itemsToFetch.map PrioritizedItemId.item).Nodup :=
    hperm.nodup_iff.mp ((List.filter_sublist.map _).nodup ht.queued)
  have hasked : ∀ item ∈ asked (node.fetching now).itemsByPeer, item ∈ node.queued :=
    fun item hitem ↦ (List.filter_sublist.map _).subset
      (hperm.mem_iff.mpr (List.mem_append_left _ hitem))
  -- an item owed afterwards was asked for in this turn, or is owed since before
  have hcases : ∀ p, ∀ item ∈ (node.fetchItems now).owed p,
      (∃ slot ∈ (node.fetching now).itemsByPeer, slot.peer = p ∧ item ∈ slot.itemIds) ∨
        item ∈ node.owed p := by
    intro p item hitem
    by_cases hp : p ∈ node.idlePeers
    · obtain ⟨slot, hslot, rfl⟩ := slot_of_idle ht now hp
      exact .inl ⟨slot, hslot, rfl, hslots slot hslot ▸ hitem⟩
    · exact .inr (hothers p hp ▸ hitem)
  have hmem : ∀ slot ∈ (node.fetching now).itemsByPeer, ∀ item ∈ slot.itemIds,
      item ∈ asked (node.fetching now).itemsByPeer :=
    fun slot hslot item hitem ↦ List.mem_flatMap.mpr ⟨slot, hslot, hitem⟩
  have hflat := List.nodup_flatMap.mp (List.nodup_append.mp hnodup).1
  refine ⟨?_, ?_⟩
  · intro p hp q hq item hitem hitem'
    rcases hcases p item hitem with ⟨slot, hslot, rfl, hin⟩ | hin <;>
      rcases hcases q item hitem' with ⟨slot', hslot', rfl, hin'⟩ | hin'
    · have : Std.Symm (Function.onFun List.Disjoint (PeerAndItems.itemIds (H := H))) :=
        ⟨fun _ _ h ↦ List.Disjoint.symm h⟩
      by_contra hne
      have hne' : slot ≠ slot' := fun heq ↦ hne (congrArg _ heq)
      exact hflat.2.forall hslot hslot' hne' hin hin'
    · exact absurd (hasked item (hmem slot hslot item hin)) (he.unqueued q hq item hin')
    · exact absurd (hasked item (hmem slot' hslot' item hin')) (he.unqueued p hp item hin)
    · exact he.once p hp q hq item hin hin'
  · intro p hp item hitem hqueued
    rcases hcases p item hitem with ⟨slot, hslot, rfl, hin⟩ | hin
    · exact (List.nodup_append.mp hnodup).2.2 item (hmem slot hslot item hin) item hqueued rfl
    · exact he.unqueued p hp item hin ((hkept.map _).subset hqueued)

/-! ## Answers -/

theorem lessens_unavailable (p : ℕ) (item : ItemId H) (node : Node H) :
    Lessens node (node.setPeer p fun peer ↦
      { peer.answer item with
        inventoryPeerAdvertisedToUs := peer.inventoryPeerAdvertisedToUs.remove item }) := by
  apply Lessens.setPeer
  rw [show ∀ peer : Peer H, ({ peer.answer item with
      inventoryPeerAdvertisedToUs := peer.inventoryPeerAdvertisedToUs.remove item } :
        Peer H).owed = (peer.answer item).owed from fun _ ↦ rfl, owed_answer]
  exact List.filter_sublist

/-- What survives a lessening, and the queueing of an item the peer owed, survives the
message that the peer does not have it. -/
theorem onItemNotAvailableMessage_keeps {P : Node H → Prop}
    (hless : ∀ node', Lessens node node' → P node')
    (henqueue : ∀ node', Lessens node node' → item ∈ node.owed p → item ∉ node'.owed p →
      P (node'.enqueue item now)) :
    P (node.onItemNotAvailableMessage p item now) := by
  unfold onItemNotAvailableMessage
  split
  · rename_i howed
    simp only
    split
    · refine henqueue _ (lessens_unavailable p item node) howed ?_
      simp [Node.owed, setPeer, Peer.owed, Peer.answer]
    · exact hless _ (lessens_unavailable p item node)
  · split
    · have hset : Lessens node (node.setPeer p fun peer ↦
          { peer with
            syncItemsRequestedFromPeer :=
              peer.syncItemsRequestedFromPeer.erase item.itemHash }) := Lessens.setPeer (.refl _)
      simp only
      split
      · exact hless _ hset
      · exact hless _ (hset.trans (Lessens.disconnectFromPeer p _))
    · exact hless _ (Lessens.refl node)

theorem onConnectionClosed_keeps {P : Node H → Prop}
    (hless : P (node.disconnectFromPeer p))
    (henqueue : ∀ node', ∀ item ∈ node.owed p,
      node'.activeConnections = (node.disconnectFromPeer p).activeConnections →
        node'.peers = node.peers → P node' → P (node'.enqueue item now)) :
    P (node.onConnectionClosed p now) := by
  let Q : Node H → Prop := fun node' ↦
    P node' ∧ node'.activeConnections = (node.disconnectFromPeer p).activeConnections ∧
      node'.peers = node.peers
  have hall : Q (node.onConnectionClosed p now) := by
    refine foldl_enqueue (P := Q) (node.peers p).owed now ?_ ⟨hless, rfl, rfl⟩
    intro node' item hitem ⟨hP, hactive, hpeers⟩
    exact ⟨henqueue node' item hitem hactive hpeers hP, hactive, hpeers⟩
  exact hall.1

/-! ## Runs -/

theorem sync_lessens (p : ℕ) (items : List H) (itemIds needsItems : Bool) (node : Node H) :
    Lessens node (node.step (.sync p items itemIds needsItems)) := by
  simp only [Node.step]
  exact Lessens.setPeer (.refl _)

theorem Tidy.step (ht : node.Tidy) (event : NodeEvent H) : (node.step event).Tidy := by
  cases event with
  | connect => exact ht.connect
  | handshakeDone p => exact ht.movePeerToActiveList p
  | inventory p itemType hashes now =>
      exact onItemIdsInventoryMessage_keeps (fun _ _ h ↦ h.tidy)
        (fun _ item now _ ht ↦ ht.enqueue item now) p itemType hashes now ht
  | notAvailable p item now =>
      exact onItemNotAvailableMessage_keeps (fun _ h ↦ h.tidy ht)
        fun _ h _ _ ↦ (h.tidy ht).enqueue item now
  | itemMessage p item blockId => exact (onItemMessage_lessens p item blockId node).tidy ht
  | verdict p item verdict now => exact (onVerdict_lessens p item verdict now node).tidy ht
  | fetchItems now => exact ht.fetchItems now
  | advertise now => exact (Lessens.advertiseInventory now node).tidy ht
  | broadcast item => exact (Lessens.broadcast item node).tidy ht
  | disconnect p => exact (Lessens.disconnectFromPeer p node).tidy ht
  | closed p now =>
      exact onConnectionClosed_keeps ((Lessens.disconnectFromPeer p node).tidy ht)
        fun _ item _ _ _ ht ↦ ht.enqueue item now
  | pruneFailed now => exact ⟨ht.queued, ht.owed, ht.unasked, ht.active, ht.apart, ht.numbered⟩
  | blockInterval count =>
      exact ⟨ht.queued, ht.owed, ht.unasked, ht.active, ht.apart, ht.numbered⟩
  | sync p items itemIds needsItems => exact (sync_lessens p items itemIds needsItems node).tidy ht

/-- A peer that was disconnected while it owed something is not heard of again. -/
def Heard (node : Node H) : NodeEvent H → Prop
  | .notAvailable p _ _ | .closed p _ => p ∈ node.activeConnections ∨ node.owed p = []
  | _ => True

instance (node : Node H) (event : NodeEvent H) : Decidable (node.Heard event) := by
  cases event <;> unfold Heard <;> infer_instance

theorem Exclusive.step (ht : node.Tidy) (he : node.Exclusive) (event : NodeEvent H)
    (hheard : node.Heard event) : (node.step event).Exclusive := by
  -- what a peer owes that is heard of is owed by no other active peer
  have hfree : ∀ p, p ∈ node.activeConnections ∨ node.owed p = [] →
      ∀ item ∈ node.owed p, ∀ q ∈ node.activeConnections, item ∈ node.owed q → q = p := by
    intro p hp item hitem q hq hitem'
    rcases hp with hp | hp
    · exact he.once q hq p hp item hitem' hitem
    · rw [hp] at hitem
      cases hitem
  cases event with
  | connect => exact he.connect ht
  | handshakeDone p => exact he.movePeerToActiveList ht p
  | inventory p itemType hashes now =>
      exact onItemIdsInventoryMessage_keeps (fun _ _ h ↦ h.exclusive)
        (fun _ _ _ hnone he ↦ he.enqueue hnone) p itemType hashes now he
  | notAvailable p item now =>
      refine onItemNotAvailableMessage_keeps (fun _ h ↦ h.exclusive he) ?_
      intro node' h howed hgone
      refine (h.exclusive he).enqueue fun q hq hitem ↦ ?_
      obtain rfl := hfree p hheard item howed q (h.active.subset hq) ((h.owed q).subset hitem)
      exact hgone hitem
  | itemMessage p item blockId => exact (onItemMessage_lessens p item blockId node).exclusive he
  | verdict p item verdict now => exact (onVerdict_lessens p item verdict now node).exclusive he
  | fetchItems now => exact he.fetchItems ht now
  | advertise now => exact (Lessens.advertiseInventory now node).exclusive he
  | broadcast item => exact (Lessens.broadcast item node).exclusive he
  | disconnect p => exact (Lessens.disconnectFromPeer p node).exclusive he
  | closed p now =>
      refine onConnectionClosed_keeps ((Lessens.disconnectFromPeer p node).exclusive he) ?_
      intro node' item hitem hactive hpeers he'
      refine he'.enqueue fun q hq hitem' ↦ ?_
      rw [hactive] at hq
      obtain ⟨hq, hne⟩ := List.mem_filter.mp hq
      have hitem' : item ∈ node.owed q := by
        rw [Node.owed, hpeers] at hitem'
        exact hitem'
      simp [hfree p hheard item hitem q hq hitem'] at hne
  | pruneFailed now => exact ⟨he.once, he.unqueued⟩
  | blockInterval count => exact ⟨he.once, he.unqueued⟩
  | sync p items itemIds needsItems =>
      exact (sync_lessens p items itemIds needsItems node).exclusive he

omit [DecidableEq H] in
theorem tidy_start : ({} : Node H).Tidy := by
  refine ⟨List.nodup_nil, fun _ ↦ Nat.zero_le _, fun _ _ ↦ rfl, List.nodup_nil, ?_, ?_⟩ <;> simp

theorem tidy_foldl (events : List (NodeEvent H)) : (events.foldl Node.step {}).Tidy := by
  suffices hfrom : ∀ node : Node H, node.Tidy → (events.foldl Node.step node).Tidy from
    hfrom _ tidy_start
  induction events with
  | nil => exact fun _ h ↦ h
  | cons event events ih => exact fun node h ↦ ih _ (h.step event)

end Node

/-- Whatever the peers send and in whatever order, a peer never owes more than the node
asks of one peer, no item is queued twice, and a peer that was never connected is never
asked for anything. -/
theorem requests_of_run (events : List (NodeEvent H)) :
    let node := events.foldl Node.step ({} : Node H)
    node.queued.Nodup ∧ (∀ p, (node.owed p).length ≤ maxItemsPerPeer) ∧
      ∀ p, p ∈ node.handshakingConnections ∨ node.created ≤ p → node.owed p = [] :=
  ⟨(tidy_foldl events).queued, (tidy_foldl events).owed, (tidy_foldl events).unasked⟩

/-- While disconnected peers that owe something stay silent, no item is asked of two
active peers, and none that is asked for is queued. -/
theorem exclusive_of_reaches (h : Run.Reaches Node.step Node.Heard {} node) :
    (∀ p ∈ node.activeConnections, ∀ q ∈ node.activeConnections, ∀ item,
      item ∈ node.owed p → item ∈ node.owed q → p = q) ∧
        ∀ p ∈ node.activeConnections, ∀ item ∈ node.owed p, item ∉ node.queued := by
  have hinv : node.Tidy ∧ node.Exclusive := by
    apply h.invariant (fun node ↦ node.Tidy ∧ node.Exclusive)
    · refine ⟨tidy_start, ?_, ?_⟩ <;> simp
    · rintro node event ⟨ht, he⟩ hheard
      exact ⟨ht.step event, he.step ht event hheard⟩
  exact ⟨hinv.2.once, hinv.2.unqueued⟩

/-- Two peers advertise a transaction, the one asked first does not have it and the
other one is asked. -/
def askedTwice : List (NodeEvent ℕ) :=
  [.connect, .connect, .handshakeDone 0, .handshakeDone 1, .inventory 0 1000 [7] 0,
    .inventory 1 1000 [7] 0, .fetchItems 0, .notAvailable 0 ⟨1000, 7⟩ 0, .fetchItems 0]

theorem exclusive_of_askedTwice :
    let node := askedTwice.foldl Node.step {}
    (⟨1000, 7⟩ ∈ node.owed 1) ∧
      (∀ p ∈ node.activeConnections, ∀ q ∈ node.activeConnections, ∀ item,
        item ∈ node.owed p → item ∈ node.owed q → p = q) ∧
          ∀ p ∈ node.activeConnections, ∀ item ∈ node.owed p, item ∉ node.queued :=
  ⟨by decide, exclusive_of_reaches (Run.reaches_foldl
    (by simp only [askedTwice, Run.Meets]; decide))⟩

/-- A turn of the fetch loop after any run.  Each entry that is recent enough is asked
of one idle peer or stays, it stays only if no idle peer can take it, and the messages
to a peer ask for the items it then owes. -/
theorem fetchItems_of_run (events : List (NodeEvent H)) (now : ℕ) :
    let node := events.foldl Node.step ({} : Node H)
    let slots := (node.fetching now).itemsByPeer
    let after := node.fetchItems now
    (slots.map PeerAndItems.peer).Perm node.idlePeers ∧
      (∀ slot ∈ slots, after.owed slot.peer = slot.itemIds ∧
        slot.itemIds.length ≤ maxItemsPerPeer ∧
        ((fetchItemsMessages slot.itemIds).flatMap FetchItemsMessage.items).Perm slot.itemIds ∧
        ∀ item ∈ slot.itemIds,
          (node.peers slot.peer).inventoryPeerAdvertisedToUs.has item = true ∧
            ¬ (item.itemType = trxMessageType ∧
              (node.peers slot.peer).isTransactionFetchingInhibited now = true)) ∧
      (∀ p ∉ node.idlePeers, after.peers p = node.peers p) ∧
      after.itemsToFetch.Sublist node.itemsToFetch ∧
      ((node.itemsToFetch.filter (node.oldestTimestampToFetch now ≤ ·.timestamp)).map
        PrioritizedItemId.item).Perm (slots.flatMap PeerAndItems.itemIds ++ after.queued) ∧
      ∀ entry ∈ after.itemsToFetch, ∀ slot ∈ slots,
        slot.itemIds.length = maxItemsPerPeer ∨
          (node.peers slot.peer).inventoryPeerAdvertisedToUs.has entry.item = false ∨
          (entry.item.itemType = trxMessageType ∧
            (node.peers slot.peer).isTransactionFetchingInhibited now = true) := by
  intro node slots after
  have ht : node.Tidy := tidy_foldl events
  obtain ⟨hsound, hkept, hperm⟩ := fetching_spec ht now
  refine ⟨hsound.slots, ?_, hsound.others, hkept, hperm, ?_⟩
  · intro slot hslot
    exact ⟨hsound.owed slot hslot, hsound.bounded slot hslot, fetchItemsMessages_perm _,
      hsound.advertised slot hslot⟩
  · intro entry hentry slot hslot
    have hbound := hsound.bounded slot hslot
    have hnone := hsound.kept entry hentry slot hslot
    simp only [eligible, Bool.and_eq_false_iff, decide_eq_false_iff_not, Bool.not_eq_false',
      Bool.and_eq_true, decide_eq_true_eq] at hnone
    rcases hnone with (hfull | hhas) | hinhibited
    · exact .inl (by omega)
    · exact .inr (.inl hhas)
    · exact .inr (.inr hinhibited)

end KarmaCore.Net
