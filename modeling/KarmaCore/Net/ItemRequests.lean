import Mathlib
import KarmaCore.Net.ItemExchange

/-!
# Who owes what to a node

A peer owes an item from the request for it until it answers.  The bookkeeping of
requests survives every order of the messages and tasks.  That no item is asked of
two peers at once rests on one more condition: a peer that was disconnected while it
owed something is not heard of again.
-/

namespace KarmaCore.Net

open Node

variable {H : Type*} {node node' : Node H} {item x : ItemId H} {p q now : ℕ}

namespace Node

def owed (p : ℕ) (node : Node H) : List (ItemId H) :=
  (node.peers p).owed

def queued (node : Node H) : List (ItemId H) :=
  node.itemsToFetch.map PrioritizedItemId.item

/-! ## What most steps do -/

/-- Nothing new is owed, waited for or connected. -/
structure Lessens (node node' : Node H) : Prop where
  active : node'.activeConnections.Sublist node.activeConnections
  handshaking : node'.handshakingConnections.Sublist node.handshakingConnections
  created : node'.created = node.created
  owed : ∀ p, (node'.owed p).Sublist (node.owed p)
  queued : node'.queued.Sublist node.queued

namespace Lessens

theorem refl (node : Node H) : Lessens node node :=
  ⟨.refl _, .refl _, rfl, fun _ ↦ .refl _, .refl _⟩

theorem trans {mid : Node H} (h : Lessens node mid) (h' : Lessens mid node') :
    Lessens node node' :=
  ⟨h'.active.trans h.active, h'.handshaking.trans h.handshaking, h'.created.trans h.created,
    fun p ↦ (h'.owed p).trans (h.owed p), h'.queued.trans h.queued⟩

theorem setPeer {f : Peer H → Peer H} (hf : ((f (node.peers p)).owed).Sublist (node.owed p)) :
    Lessens node (node.setPeer p f) := by
  refine ⟨.refl _, .refl _, rfl, ?_, .refl _⟩
  intro r
  by_cases hr : r = p
  · subst hr
    simpa [Node.owed, Node.setPeer] using hf
  · simp [Node.owed, Node.setPeer, hr]

theorem disconnectFromPeer (p : ℕ) (node : Node H) : Lessens node (node.disconnectFromPeer p) :=
  ⟨List.filter_sublist, List.filter_sublist, rfl, fun _ ↦ .refl _, .refl _⟩

theorem disconnectAll (ps : List ℕ) (node : Node H) : Lessens node (node.disconnectAll ps) := by
  induction ps generalizing node with
  | nil => exact refl node
  | cons p ps ih => exact (disconnectFromPeer p node).trans (ih _)

theorem clearOldInventories (now : ℕ) (node : Node H) :
    Lessens node (node.clearOldInventories now) := by
  refine ⟨.refl _, .refl _, rfl, ?_, .refl _⟩
  intro r
  by_cases hr : r ∈ node.activeConnections <;>
    simp [Node.owed, Node.clearOldInventories, hr, Peer.clearOldInventory, Peer.owed]

variable [DecidableEq H]

theorem forgetTransactions (hashes : List H) (node : Node H) :
    Lessens node (node.forgetTransactions hashes) :=
  ⟨.refl _, .refl _, rfl, fun _ ↦ .refl _, List.filter_sublist.map _⟩

theorem advertiseInventory (now : ℕ) (node : Node H) :
    Lessens node (node.advertiseInventory now) := by
  refine ⟨.refl _, .refl _, rfl, ?_, .refl _⟩
  intro r
  by_cases hr : r ∈ node.activeConnections
  · by_cases hsync : (node.peers r).peerNeedsSyncItemsFromUs = true <;>
      simp [Node.owed, Node.advertiseInventory, hr, hsync, Peer.clearOldInventory, Peer.owed]
  · simp [Node.owed, Node.advertiseInventory, hr]

theorem broadcast (item : ItemId H) (node : Node H) : Lessens node (node.broadcast item) :=
  ⟨.refl _, .refl _, rfl, fun _ ↦ .refl _, .refl _⟩

end Lessens

variable [DecidableEq H]

theorem owed_answer (item : ItemId H) (peer : Peer H) :
    (peer.answer item).owed = peer.owed.filter (· ≠ item) := by
  simp [Peer.owed, Peer.answer, List.filter_map, Function.comp_def]

theorem onItemMessage_lessens (p : ℕ) (item : ItemId H) (blockId : H) (node : Node H) :
    Lessens node (node.onItemMessage p item blockId) := by
  unfold onItemMessage
  split
  · have hset : Lessens node (node.setPeer p (·.answer item)) := by
      apply Lessens.setPeer
      rw [owed_answer]
      exact List.filter_sublist
    exact ⟨hset.active, hset.handshaking, hset.created, hset.owed, hset.queued⟩
  · split
    · exact Lessens.setPeer (.refl _)
    · exact Lessens.disconnectFromPeer p node

theorem onVerdict_lessens (p : ℕ) (item : ItemId H) (verdict : Verdict H) (now : ℕ)
    (node : Node H) : Lessens node (node.onVerdict p item verdict now) := by
  have hdone : ∀ handed failed, Lessens node
      { node with handed := handed, recentlyFailedItems := failed } := fun _ _ ↦
    ⟨.refl _, .refl _, rfl, fun _ ↦ .refl _, .refl _⟩
  unfold onVerdict
  split
  · split
    · cases verdict with
      | accepted hashes outdated =>
          exact ((((hdone _ _).trans (Lessens.forgetTransactions hashes _)).trans
            (Lessens.clearOldInventories now _)).trans
              (Lessens.broadcast item _)).trans (Lessens.disconnectAll outdated _)
      | unlinkable => exact hdone _ _
      | rejected offering => exact (hdone _ _).trans (Lessens.disconnectAll _ _)
    · cases verdict with
      | accepted _ _ => exact (hdone _ _).trans (Lessens.broadcast item _)
      | unlinkable => exact hdone _ _
      | rejected _ => exact hdone _ _
  · exact Lessens.refl node

/-! ## The list of items to fetch -/

theorem insertPrioritized_cases (entry : PrioritizedItemId H)
    (queue : List (PrioritizedItemId H)) :
    insertPrioritized entry queue = queue ∨
      entry.item ∉ queue.map PrioritizedItemId.item ∧
        (insertPrioritized entry queue).Perm (entry :: queue) := by
  by_cases h : queue.any entry.clashes = true
  · left
    simp [insertPrioritized, h]
  · right
    refine ⟨?_, ?_⟩
    · simp only [List.mem_map, not_exists, not_and]
      intro other hother hitem
      exact h (List.any_eq_true.mpr ⟨other, hother, by simp [PrioritizedItemId.clashes, hitem]⟩)
    · simp only [insertPrioritized, if_neg h]
      refine List.perm_middle.trans ?_
      rw [List.takeWhile_append_dropWhile]

/-- An item is queued once; the rest of the node does not notice. -/
theorem queued_enqueue (item : ItemId H) (now : ℕ) (node : Node H) :
    (node.enqueue item now).queued = node.queued ∨
      item ∉ node.queued ∧ (node.enqueue item now).queued.Perm (item :: node.queued) := by
  rcases insertPrioritized_cases ⟨item, node.itemsToFetchSequenceCounter, now⟩
      node.itemsToFetch with h | ⟨hnew, hperm⟩
  · left
    simp [queued, enqueue, h]
  · right
    exact ⟨hnew, hperm.map _⟩

theorem mem_queued_enqueue (h : x ∈ (node.enqueue item now).queued) :
    x = item ∨ x ∈ node.queued := by
  rcases queued_enqueue item now node with heq | ⟨_, hperm⟩
  · exact .inr (heq ▸ h)
  · exact List.mem_cons.mp (hperm.mem_iff.mp h)

theorem nodup_queued_enqueue (h : node.queued.Nodup) : (node.enqueue item now).queued.Nodup := by
  rcases queued_enqueue item now node with heq | ⟨hnew, hperm⟩
  · exact heq ▸ h
  · exact hperm.nodup_iff.mpr (List.nodup_cons.mpr ⟨hnew, h⟩)

/-- Items of a list are queued one after the other if a condition on the node holds,
which no such step changes. -/
theorem foldl_enqueue {P : Node H → Prop} (items : List (ItemId H)) (now : ℕ)
    (hstep : ∀ node, ∀ item ∈ items, P node → P (node.enqueue item now)) (h : P node) :
    P (items.foldl (fun node item ↦
      if node.isItemInAnyPeersInventory item then node.enqueue item now else node) node) := by
  induction items generalizing node with
  | nil => exact h
  | cons item items ih =>
      refine ih (fun node other hother ↦ hstep node other (.tail _ hother)) ?_
      beta_reduce
      split
      · exact hstep node item (.head _) h
      · exact h

/-- What survives a lessening, and the queueing of an item that no active peer owes,
survives an inventory message. -/
theorem onItemIdsInventoryMessage_keeps {P : Node H → Prop}
    (hless : ∀ node node', Lessens node node' → P node → P node')
    (henqueue : ∀ node item now, (∀ q ∈ node.activeConnections, item ∉ node.owed q) →
      P node → P (node.enqueue item now))
    (p itemType : ℕ) (hashes : List H) (now : ℕ) (h : P node) :
    P (node.onItemIdsInventoryMessage p itemType hashes now) := by
  have hwant : ∀ node item, (∀ q ∈ node.activeConnections, item ∉ node.owed q) → P node →
      P (node.want item now) := by
    intro node item hfree h
    unfold want
    split
    · refine hless node _ ⟨.refl _, .refl _, rfl, fun _ ↦ .refl _, ?_⟩ h
      have hsame : PrioritizedItemId.item ∘ (fun entry : PrioritizedItemId H ↦
          if entry.item = item then { entry with timestamp := now } else entry) =
            PrioritizedItemId.item := by
        funext entry
        by_cases hitem : entry.item = item <;> simp [hitem]
      simp only [queued, List.map_map, hsame]
      exact .refl _
    · exact henqueue node item now hfree h
  have hone : ∀ node item node', node.onAdvertisedItem p item now = some node' → P node →
      P node' := by
    intro node item node' hnode' h
    unfold onAdvertisedItem at hnode'
    split at hnode'
    · cases hnode'
      exact h
    · split at hnode'
      · cases hnode'
      · have hset : Lessens node (node.setPeer p fun peer ↦
            { peer with
              inventoryPeerAdvertisedToUs :=
                peer.inventoryPeerAdvertisedToUs.insert item now }) :=
          Lessens.setPeer (.refl _)
        have hnoted := hless node _ hset h
        simp only at hnode'
        split at hnode'
        · cases hnode'
          exact hnoted
        · rename_i howed
          split at hnode'
          · cases hnode'
            exact hnoted
          · cases hnode'
            refine hwant _ item ?_ hnoted
            intro q hq hitem
            have hnone : ∀ q ∈ node.activeConnections, item ∉ node.owed q := by
              simpa [Node.owed] using howed
            exact hnone q hq ((hset.owed q).subset hitem)
  have hall : ∀ node, P node → P (node.onAdvertisedItems p itemType now hashes) := by
    induction hashes with
    | nil => exact fun _ h ↦ h
    | cons hash hashes ih =>
        intro node h
        simp only [onAdvertisedItems]
        cases hnode' : node.onAdvertisedItem p ⟨itemType, hash⟩ now with
        | none => exact h
        | some node' => exact ih node' (hone node _ node' hnode' h)
  exact hall _ (hless node _ (Lessens.setPeer (.refl _)) h)

end Node

end KarmaCore.Net
