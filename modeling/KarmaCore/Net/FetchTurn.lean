import Mathlib
import KarmaCore.Net.ItemRequests

/-!
# One turn of the fetch loop

Every item of the list has outlived the caches of the peers, is asked of one idle
peer that advertised it, or stays on the list because no idle peer can take it.
-/

namespace KarmaCore.Net

open Node

variable {H : Type*}

namespace Node

/-! ## Slots -/

/-- A slot with one more item, if it is that of the peer. -/
def grant (p : ℕ) (item : ItemId H) (slot : PeerAndItems H) : PeerAndItems H :=
  if slot.peer = p then { slot with itemIds := slot.itemIds ++ [item] } else slot

theorem peer_grant (p : ℕ) (item : ItemId H) (slot : PeerAndItems H) :
    (grant p item slot).peer = slot.peer := by
  unfold grant
  split <;> rfl

theorem map_grant_of_ne {p : ℕ} (item : ItemId H) {slots : List (PeerAndItems H)}
    (h : ∀ slot ∈ slots, slot.peer ≠ p) : slots.map (grant p item) = slots := by
  refine (List.map_congr_left fun slot hslot ↦ ?_).trans (List.map_id _)
  simp [grant, h slot hslot]

theorem reposition_perm (slot : PeerAndItems H) (slots : List (PeerAndItems H)) :
    (reposition slot slots).Perm (slot :: slots) := by
  cases slots with
  | nil => exact .refl _
  | cons next slots =>
      simp only [reposition]
      split
      · refine List.perm_middle.trans ?_
        rw [List.takeWhile_append_dropWhile]
      · exact .refl _

theorem addItem_perm {p : ℕ} (item : ItemId H) {slots : List (PeerAndItems H)}
    (h : (slots.map PeerAndItems.peer).Nodup) :
    (addItem p item slots).Perm (slots.map (grant p item)) := by
  induction slots with
  | nil => exact .refl _
  | cons slot slots ih =>
      obtain ⟨hslot, hslots⟩ := List.nodup_cons.mp h
      by_cases hp : slot.peer = p
      · subst hp
        have hothers : slots.map (grant slot.peer item) = slots :=
          map_grant_of_ne item fun other hother heq ↦ hslot (heq ▸ List.mem_map_of_mem hother)
        rw [addItem, if_pos rfl, List.map_cons, hothers]
        simpa [grant] using reposition_perm _ slots
      · rw [addItem, if_neg hp, List.map_cons]
        simpa [grant, hp] using (ih hslots).cons slot

/-- The items that are asked of some peer. -/
def asked (slots : List (PeerAndItems H)) : List (ItemId H) :=
  slots.flatMap PeerAndItems.itemIds

theorem asked_grant {item : ItemId H} {slots : List (PeerAndItems H)}
    (h : (slots.map PeerAndItems.peer).Nodup) {slot : PeerAndItems H} (hslot : slot ∈ slots) :
    (asked (slots.map (grant slot.peer item))).Perm (item :: asked slots) := by
  obtain ⟨before, after, rfl⟩ := List.append_of_mem hslot
  simp only [List.map_append, List.map_cons, List.nodup_append, List.nodup_cons] at h
  have hbefore : before.map (grant slot.peer item) = before :=
    map_grant_of_ne item fun other hother heq ↦
      h.2.2 other.peer (List.mem_map_of_mem hother) slot.peer (.head _) heq
  have hafter : after.map (grant slot.peer item) = after :=
    map_grant_of_ne item fun other hother heq ↦
      h.2.1.1 (heq ▸ List.mem_map_of_mem hother)
  rw [List.map_append, List.map_cons, hbefore, hafter]
  simp only [asked, List.flatMap_append, List.flatMap_cons, grant, if_true]
  rw [← List.append_assoc, ← List.append_assoc, List.append_assoc, List.singleton_append]
  refine List.perm_middle.trans ?_
  rw [List.append_assoc]

/-! ## Messages -/

/-- The items a message asks for. -/
def FetchItemsMessage.items (message : FetchItemsMessage H) : List (ItemId H) :=
  message.itemsToFetch.map (⟨message.itemType, ·⟩)

theorem flatMap_filter_perm {α κ : Type*} [DecidableEq κ] (f : α → κ) {keys : List κ}
    (hkeys : keys.Nodup) {items : List α} (h : ∀ item ∈ items, f item ∈ keys) :
    (keys.flatMap fun key ↦ items.filter (f · = key)).Perm items := by
  induction keys generalizing items with
  | nil =>
      cases items with
      | nil => exact .refl _
      | cons item items => cases h item (.head _)
  | cons key keys ih =>
      obtain ⟨hkey, hkeys⟩ := List.nodup_cons.mp hkeys
      have hrest : ∀ item ∈ items.filter (f · ≠ key), f item ∈ keys := by
        intro item hitem
        obtain ⟨hitem, hne⟩ := List.mem_filter.mp hitem
        exact (List.mem_cons.mp (h item hitem)).resolve_left (by simpa using hne)
      have hsame : (keys.flatMap fun key ↦ items.filter (f · = key)) =
          keys.flatMap fun key' ↦ (items.filter (f · ≠ key)).filter (f · = key') := by
        refine List.flatMap_congr fun key' hkey' ↦ ?_
        rw [List.filter_filter]
        refine List.filter_congr fun item _ ↦ ?_
        have : key' ≠ key := fun heq ↦ hkey (heq ▸ hkey')
        by_cases hitem : f item = key' <;> simp [hitem, this]
      rw [List.flatMap_cons, hsame]
      refine ((List.Perm.refl _).append (ih hkeys hrest)).trans ?_
      simpa using List.filter_append_perm (f · = key) items

/-- The messages to a peer ask for every item of its slot once. -/
theorem fetchItemsMessages_perm (items : List (ItemId H)) :
    ((fetchItemsMessages items).flatMap FetchItemsMessage.items).Perm items := by
  have hsame : (fetchItemsMessages items).flatMap FetchItemsMessage.items =
      ((items.map ItemId.itemType).dedup.mergeSort (· ≤ ·)).flatMap
        fun itemType ↦ items.filter (·.itemType = itemType) := by
    rw [fetchItemsMessages, List.flatMap_map]
    refine List.flatMap_congr fun itemType _ ↦ ?_
    rw [FetchItemsMessage.items, List.map_map]
    refine (List.map_congr_left fun item hitem ↦ ?_).trans (List.map_id _)
    obtain ⟨kind, hash⟩ := item
    have hkind : kind = itemType := by simpa using (List.mem_filter.mp hitem).2
    simp [hkind]
  rw [hsame]
  apply flatMap_filter_perm
  · exact (List.mergeSort_perm _ _).nodup_iff.mpr (List.nodup_dedup _)
  · intro item hitem
    rw [List.mem_mergeSort, List.mem_dedup]
    exact List.mem_map_of_mem hitem

/-! ## The loop -/

variable [DecidableEq H] {now : ℕ} {node : Node H} {fetching : Fetching H}

/-- What holds of the slots and the peers after each item of the list. -/
structure Fetching.Sound (node : Node H) (now : ℕ) (fetching : Fetching H) : Prop where
  slots : (fetching.itemsByPeer.map PeerAndItems.peer).Perm node.idlePeers
  distinct : (fetching.itemsByPeer.map PeerAndItems.peer).Nodup
  owed : ∀ slot ∈ fetching.itemsByPeer, (fetching.peers slot.peer).owed = slot.itemIds
  others : ∀ p ∉ node.idlePeers, fetching.peers p = node.peers p
  inventory : ∀ p, (fetching.peers p).inventoryPeerAdvertisedToUs =
    (node.peers p).inventoryPeerAdvertisedToUs
  inhibited : ∀ p, (fetching.peers p).isTransactionFetchingInhibited now =
    (node.peers p).isTransactionFetchingInhibited now
  advertised : ∀ slot ∈ fetching.itemsByPeer, ∀ item ∈ slot.itemIds,
    (node.peers slot.peer).inventoryPeerAdvertisedToUs.has item = true ∧
      ¬ (item.itemType = trxMessageType ∧
        (node.peers slot.peer).isTransactionFetchingInhibited now = true)
  bounded : ∀ slot ∈ fetching.itemsByPeer, slot.itemIds.length ≤ maxItemsPerPeer
  kept : ∀ entry ∈ fetching.itemsToFetch, ∀ slot ∈ fetching.itemsByPeer,
    eligible now node.peers entry.item slot = false

omit [DecidableEq H] in
theorem owed_eq_nil_of_idle {peer : Peer H} (h : peer.idle = true) : peer.owed = [] := by
  simp only [Peer.idle, Peer.busy, Bool.not_eq_true', Bool.or_eq_false_iff,
    Bool.not_eq_false', List.isEmpty_iff] at h
  simp [Peer.owed, h.1.1]

theorem sound_start (hactive : node.activeConnections.Nodup) (now : ℕ) :
    Fetching.Sound node now
      { peers := node.peers, itemsByPeer := node.idlePeers.map (⟨·, []⟩), itemsToFetch := [] } where
  slots := by simp [Function.comp_def]
  distinct := by simpa [Function.comp_def, idlePeers] using hactive.filter _
  owed := by
    intro slot hslot
    obtain ⟨p, hp, rfl⟩ := List.mem_map.mp hslot
    exact owed_eq_nil_of_idle (List.mem_filter.mp hp).2
  others := fun _ _ ↦ rfl
  inventory := fun _ ↦ rfl
  inhibited := fun _ ↦ rfl
  advertised := by
    intro slot hslot item hitem
    obtain ⟨p, -, rfl⟩ := List.mem_map.mp hslot
    cases hitem
  bounded := by
    intro slot hslot
    obtain ⟨p, -, rfl⟩ := List.mem_map.mp hslot
    exact Nat.zero_le _
  kept := by simp

theorem Fetching.Sound.eligible_eq (h : fetching.Sound node now) (item : ItemId H)
    (slot : PeerAndItems H) :
    eligible now fetching.peers item slot = eligible now node.peers item slot := by
  simp [eligible, h.inventory, h.inhibited]

/-- A slot that cannot take an item cannot take it when it has grown either. -/
theorem eligible_grant_eq_false {peers : ℕ → Peer H} {item other : ItemId H} {p : ℕ}
    {slot : PeerAndItems H} (h : eligible now peers other slot = false) :
    eligible now peers other (grant p item slot) = false := by
  unfold grant
  split
  · simp only [eligible, Bool.and_eq_false_iff, decide_eq_false_iff_not, List.length_append] at h ⊢
    rcases h with (h | h) | h
    · exact .inl (.inl (by omega))
    · exact .inl (.inr h)
    · exact .inr h
  · exact h

theorem Fetching.Sound.request (h : fetching.Sound node now) {item : ItemId H}
    {slot : PeerAndItems H} (hslot : slot ∈ fetching.itemsByPeer)
    (heligible : eligible now fetching.peers item slot = true)
    (hnew : item ∉ asked fetching.itemsByPeer) :
    (fetching.request item slot.peer now).Sound node now := by
  have hperm := addItem_perm item h.distinct (p := slot.peer)
  have hpeers : ((addItem slot.peer item fetching.itemsByPeer).map PeerAndItems.peer).Perm
      (fetching.itemsByPeer.map PeerAndItems.peer) := by
    refine (hperm.map _).trans ?_
    rw [List.map_map, show PeerAndItems.peer ∘ grant slot.peer item = PeerAndItems.peer from
      funext fun slot' ↦ peer_grant _ _ slot']
  have hmem : ∀ slot' ∈ addItem slot.peer item fetching.itemsByPeer,
      ∃ before ∈ fetching.itemsByPeer, grant slot.peer item before = slot' := by
    intro slot' hslot'
    exact List.mem_map.mp (hperm.mem_iff.mp hslot')
  have hsame : ∀ before ∈ fetching.itemsByPeer, before.peer = slot.peer → before = slot :=
    fun before hbefore heq ↦ List.inj_on_of_nodup_map h.distinct hbefore hslot heq
  rw [h.eligible_eq] at heligible
  simp only [eligible, Bool.and_eq_true, decide_eq_true_eq, Bool.not_eq_true',
    Bool.and_eq_false_iff, decide_eq_false_iff_not] at heligible
  obtain ⟨⟨hroom, hhas⟩, hfree⟩ := heligible
  refine
    { slots := hpeers.trans h.slots
      distinct := hpeers.nodup_iff.mpr h.distinct
      owed := ?_
      others := ?_
      inventory := ?_
      inhibited := ?_
      advertised := ?_
      bounded := ?_
      kept := ?_ }
  · intro slot' hslot'
    obtain ⟨before, hbefore, rfl⟩ := hmem slot' hslot'
    by_cases heq : before.peer = slot.peer
    · obtain rfl := hsame before hbefore heq
      have hfresh : item ∉ before.itemIds := fun hitem ↦
        hnew (List.mem_flatMap.mpr ⟨before, hbefore, hitem⟩)
      have howed := h.owed before hbefore
      rw [← howed] at hfresh
      simp [Fetching.request, Peer.request, grant, hfresh]
      simpa [Peer.owed] using howed
    · simpa [Fetching.request, grant, heq] using h.owed before hbefore
  · intro p hp
    have hne : p ≠ slot.peer := by
      rintro rfl
      exact hp (h.slots.mem_iff.mp (List.mem_map_of_mem hslot))
    simpa [Fetching.request, hne] using h.others p hp
  · intro p
    by_cases hp : p = slot.peer
    · subst hp
      simpa [Fetching.request, Peer.request] using h.inventory slot.peer
    · simpa [Fetching.request, hp] using h.inventory p
  · intro p
    by_cases hp : p = slot.peer
    · subst hp
      simpa [Fetching.request, Peer.request, Peer.isTransactionFetchingInhibited]
        using h.inhibited slot.peer
    · simpa [Fetching.request, hp] using h.inhibited p
  · intro slot' hslot' other hother
    obtain ⟨before, hbefore, rfl⟩ := hmem slot' hslot'
    rw [peer_grant]
    by_cases heq : before.peer = slot.peer
    · obtain rfl := hsame before hbefore heq
      rw [grant, if_pos rfl, List.mem_append, List.mem_singleton] at hother
      rcases hother with hother | rfl
      · exact h.advertised before hbefore other hother
      · refine ⟨hhas, ?_⟩
        rintro ⟨htrx, hinhibited⟩
        rcases hfree with hfree | hfree
        · exact hfree htrx
        · rw [hfree] at hinhibited
          cases hinhibited
    · rw [grant, if_neg heq] at hother
      exact h.advertised before hbefore other hother
  · intro slot' hslot'
    obtain ⟨before, hbefore, rfl⟩ := hmem slot' hslot'
    by_cases heq : before.peer = slot.peer
    · obtain rfl := hsame before hbefore heq
      simp only [grant, if_true, List.length_append, List.length_singleton]
      omega
    · simpa [grant, heq] using h.bounded before hbefore
  · intro entry hentry slot' hslot'
    obtain ⟨before, hbefore, rfl⟩ := hmem slot' hslot'
    exact eligible_grant_eq_false (h.kept entry hentry before hbefore)

theorem Fetching.Sound.keep (h : fetching.Sound node now) {entry : PrioritizedItemId H}
    (hnone : fetching.itemsByPeer.find? (eligible now fetching.peers entry.item) = none) :
    Fetching.Sound node now
      { fetching with itemsToFetch := fetching.itemsToFetch ++ [entry] } where
  slots := h.slots
  distinct := h.distinct
  owed := h.owed
  others := h.others
  inventory := h.inventory
  inhibited := h.inhibited
  advertised := h.advertised
  bounded := h.bounded
  kept := by
    intro other hother slot hslot
    rcases List.mem_append.mp hother with hother | hother
    · exact h.kept other hother slot hslot
    · obtain rfl := List.mem_singleton.mp hother
      rw [← h.eligible_eq]
      simpa using List.find?_eq_none.mp hnone slot hslot

/-- Where the entries of the list went. -/
theorem fetchLoop_spec (oldest : ℕ) (queue : List (PrioritizedItemId H))
    (h : fetching.Sound node now)
    (hnodup : (queue.map PrioritizedItemId.item ++ asked fetching.itemsByPeer).Nodup) :
    (fetchLoop now oldest queue fetching).Sound node now ∧
      ∃ kept : List (PrioritizedItemId H), kept.Sublist queue ∧
        (fetchLoop now oldest queue fetching).itemsToFetch = fetching.itemsToFetch ++ kept ∧
        (∀ entry ∈ kept, oldest ≤ entry.timestamp) ∧
        ((queue.filter (oldest ≤ ·.timestamp)).map PrioritizedItemId.item ++
          asked fetching.itemsByPeer).Perm
            (asked (fetchLoop now oldest queue fetching).itemsByPeer ++
              kept.map PrioritizedItemId.item) := by
  induction queue generalizing fetching with
  | nil => exact ⟨h, [], .refl _, by simp [fetchLoop], by simp, by simp [fetchLoop]⟩
  | cons entry queue ih =>
      simp only [List.map_cons, List.cons_append, List.nodup_cons] at hnodup
      obtain ⟨hentry, hnodup⟩ := hnodup
      by_cases hold : entry.timestamp < oldest
      · obtain ⟨hsound, kept, hkept, heq, hfresh, hperm⟩ := ih h hnodup
        simp only [fetchLoop, if_pos hold]
        refine ⟨hsound, kept, hkept.cons _, heq, hfresh, ?_⟩
        rwa [List.filter_cons_of_neg (by simpa using hold)]
      · have hcons : (entry :: queue).filter (oldest ≤ ·.timestamp) =
            entry :: queue.filter (oldest ≤ ·.timestamp) :=
          List.filter_cons_of_pos (by simpa using hold)
        cases hfind : fetching.itemsByPeer.find? (eligible now fetching.peers entry.item) with
        | some slot =>
            have hslot := List.mem_of_find?_eq_some hfind
            have hasked : (asked (fetching.request entry.item slot.peer now).itemsByPeer).Perm
                (entry.item :: asked fetching.itemsByPeer) :=
              ((addItem_perm entry.item h.distinct).flatMap_right _).trans
                (asked_grant h.distinct hslot)
            have hnext : (queue.map PrioritizedItemId.item ++
                asked (fetching.request entry.item slot.peer now).itemsByPeer).Nodup := by
              refine (((List.Perm.refl _).append hasked).nodup_iff).mpr ?_
              exact List.perm_middle.nodup_iff.mpr (List.nodup_cons.mpr ⟨hentry, hnodup⟩)
            obtain ⟨hsound, kept, hkept, heq, hfresh, hperm⟩ :=
              ih (h.request hslot (List.find?_some hfind)
                fun hitem ↦ hentry (List.mem_append_right _ hitem)) hnext
            simp only [fetchLoop, if_neg hold, hfind]
            refine ⟨hsound, kept, hkept.cons _, heq, hfresh, ?_⟩
            rw [hcons, List.map_cons, List.cons_append]
            refine (List.perm_middle.symm.trans ?_).trans hperm
            exact (List.Perm.refl _).append hasked.symm
        | none =>
            obtain ⟨hsound, kept, hkept, heq, hfresh, hperm⟩ := ih (h.keep hfind) hnodup
            simp only [fetchLoop, if_neg hold, hfind]
            refine ⟨hsound, entry :: kept, hkept.cons_cons _, ?_, ?_, ?_⟩
            · rw [heq, List.append_assoc, List.singleton_append]
            · intro other hother
              rcases List.mem_cons.mp hother with rfl | hother
              · exact Nat.le_of_not_lt hold
              · exact hfresh other hother
            · rw [hcons, List.map_cons, List.cons_append, List.map_cons]
              exact (hperm.cons _).trans List.perm_middle.symm

end Node

end KarmaCore.Net
