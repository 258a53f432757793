import Mathlib
import KarmaCore.Net.SyncBlocks

/-!
# What a turn of the loop asks for

The requests a turn makes are scheduled first, peer after peer, and nothing but the loop makes
requests.
-/

namespace KarmaCore.Net

variable {H : Type*} [DecidableEq H] {limits : SyncLimits} {node node' : SyncNode H}

/-! ## What makes no requests -/

namespace SyncNode

/-- The requests are the same, and nothing has come in. -/
structure SameRequests (node node' : SyncNode H) : Prop where
  owed : ∀ p, node'.owed p = node.owed p
  active : node'.activeSyncRequests = node.activeSyncRequests
  onHand : node'.onHand.Subperm node.onHand

omit [DecidableEq H] in
theorem SameRequests.refl (node : SyncNode H) : SameRequests node node :=
  ⟨fun _ ↦ rfl, rfl, List.Subperm.refl _⟩

omit [DecidableEq H] in
theorem SameRequests.trans {mid : SyncNode H} (h : SameRequests node mid)
    (h' : SameRequests mid node') : SameRequests node node' :=
  ⟨fun p ↦ (h'.owed p).trans (h.owed p), h'.active.trans h.active, h'.onHand.trans h.onHand⟩

omit [DecidableEq H] in
theorem SameRequests.of_fields (hpeers : node'.peers = node.peers)
    (hactive : node'.activeSyncRequests = node.activeSyncRequests)
    (honHand : node'.onHand = node.onHand) : SameRequests node node' :=
  ⟨fun p ↦ by rw [SyncNode.owed, hpeers]; rfl, hactive, honHand ▸ List.Subperm.refl _⟩

omit [DecidableEq H] in
theorem sameRequests_setPeer {p : ℕ} {f : SyncPeer H → SyncPeer H}
    (hf : ∀ peer, (f peer).syncItemsRequestedFromPeer = peer.syncItemsRequestedFromPeer) :
    SameRequests node (node.setPeer p f) := by
  refine ⟨fun q ↦ ?_, rfl, List.Subperm.refl _⟩
  simp only [SyncNode.owed, setPeer]
  by_cases hq : q = p
  · subst hq
    rw [Function.update_self, hf]
  · rw [Function.update_of_ne hq]

omit [DecidableEq H] in
theorem sameRequests_forActive {f : ℕ → SyncPeer H → SyncPeer H}
    (hf : ∀ p peer, (f p peer).syncItemsRequestedFromPeer = peer.syncItemsRequestedFromPeer) :
    SameRequests node (node.forActive f) := by
  refine ⟨fun q ↦ ?_, rfl, List.Subperm.refl _⟩
  simp only [SyncNode.owed, forActive]
  split_ifs
  · exact hf q _
  · rfl

omit [DecidableEq H] in
theorem sameRequests_disconnect (ps : List ℕ) : SameRequests node (node.disconnect ps) :=
  .of_fields rfl rfl rfl

omit [DecidableEq H] in
theorem sameRequests_takeNew : SameRequests node node.takeNew := by
  refine ⟨fun _ ↦ rfl, rfl, List.Perm.subperm ?_⟩
  simp only [onHand, takeNew, List.nil_append]
  exact (List.reverse_perm _).append_right _

theorem sameRequests_backlogTurn (node : SyncNode H) : SameRequests node node.backlogTurn.2 := by
  unfold backlogTurn
  split
  · exact sameRequests_takeNew
  · rename_i h hnext
    have hpop : SameRequests node (node.takeNew.popFirst h) := by
      refine sameRequests_takeNew.trans (sameRequests_forActive fun p peer ↦ ?_)
      split_ifs <;> rfl
    dsimp only
    split_ifs
    · exact hpop.trans (sameRequests_forActive fun _ _ ↦ rfl)
    · refine hpop.trans ⟨fun _ ↦ rfl, rfl, List.Sublist.subperm ?_⟩
      exact (List.Sublist.refl _).append List.erase_sublist

/-- Each turn but the last leaves fewer blocks on hand. -/
theorem sameRequests_backlogLoop (limits : SyncLimits) (node : SyncNode H) :
    SameRequests node (node.backlogLoop limits) := by
  induction hlength : node.onHand.length using Nat.strong_induction_on generalizing node with
  | _ length ih =>
      have hturn := sameRequests_backlogTurn node
      rw [backlogLoop]
      split
      rename_i processed node' heq
      rw [heq] at hturn
      split_ifs with hbusy hmany hprocessed
      · exact hturn.trans (.of_fields rfl rfl rfl)
      · exact hturn
      · have hlt : node'.onHand.length < length := hlength ▸ backlogTurn_lt (hprocessed ▸ heq)
        exact hturn.trans (ih _ hlt node' rfl)
      · exact hturn

theorem sameRequests_processBacklog : SameRequests node (node.processBacklog limits) := by
  have hresumed : SameRequests node { node with suspendFetchingSyncBlocks := false } :=
    .of_fields rfl rfl rfl
  unfold processBacklog
  split_ifs
  · exact .refl node
  · exact hresumed.trans (sameRequests_backlogLoop limits _)

theorem sameRequests_onVerdict {h : H} {verdict : SyncVerdict} :
    SameRequests node (node.onVerdict limits h verdict) := by
  have hfinished : SameRequests node { node with
      handleMessageCallsInProgress := node.handleMessageCallsInProgress.erase h } :=
    .of_fields rfl rfl rfl
  unfold onVerdict
  split_ifs
  · cases verdict with
    | accepted outdated =>
        have haccepted : SameRequests node { node with
            handleMessageCallsInProgress := node.handleMessageCallsInProgress.erase h
            mostRecentBlocksAccepted :=
              (node.mostRecentBlocksAccepted ++ [h]).rtake limits.maximumNumberOfConnections } :=
          .of_fields rfl rfl rfl
        refine (haccepted.trans (sameRequests_forActive fun p peer ↦ ?_)).trans
          (sameRequests_disconnect outdated)
        unfold afterAccepted
        split_ifs <;> rfl
    | tooOld =>
        refine hfinished.trans (sameRequests_forActive fun p peer ↦ ?_)
        split_ifs <;> rfl
    | invalid => exact hfinished.trans (sameRequests_disconnect _)
  · exact .refl node

end SyncNode

/-! ## A turn of the loop -/

namespace SyncNode

/-- What the loop over the ids of a peer picks. -/
structure Picks (maximum : ℕ) (want : H → Bool) (picked ids items : List H) : Prop where
  nodup : items.Nodup
  wants : ∀ h ∈ items, want h = true
  few : items.length ≤ max maximum 1
  keeps : picked ⊆ items
  offered : ∀ h ∈ items, h ∈ picked ∨ h ∈ ids
  all : ∀ h ∈ ids, want h = true → h ∈ items ∨ max maximum 1 ≤ items.length

theorem picks_pickItems (maximum : ℕ) (want : H → Bool) (ids : List H) {picked : List H}
    (hnodup : picked.Nodup) (hwant : ∀ h ∈ picked, want h = true)
    (hfew : picked.length < max maximum 1) :
    Picks maximum want picked ids (pickItems maximum want picked ids) := by
  induction ids generalizing picked with
  | nil =>
      exact ⟨hnodup, hwant, hfew.le, List.Subset.refl _, fun h hh ↦ .inl hh,
        fun h hh ↦ absurd hh List.not_mem_nil⟩
  | cons id ids ih =>
      rw [pickItems]
      by_cases hpick : want id ∧ id ∉ picked
      · have hnodup' : (picked ++ [id]).Nodup := by
          rw [List.nodup_append_comm]
          exact List.nodup_cons.mpr ⟨hpick.2, hnodup⟩
        have hwant' : ∀ h ∈ picked ++ [id], want h = true := by
          intro h hh
          rcases List.mem_append.mp hh with hold | hnew
          · exact hwant h hold
          · exact List.mem_singleton.mp hnew ▸ hpick.1
        rw [if_pos hpick]
        split_ifs with hfull
        · refine ⟨hnodup', hwant', ?_, List.subset_append_left _ _, fun h hh ↦ ?_,
            fun h _ _ ↦ .inr ?_⟩
          · rw [List.length_append, List.length_singleton]
            omega
          · rw [List.mem_cons]
            rcases List.mem_append.mp hh with hold | hnew
            · exact .inl hold
            · exact .inr (.inl (List.mem_singleton.mp hnew))
          · rw [List.length_append, List.length_singleton]
            omega
        · have hrest := ih hnodup' hwant' (by
            rw [List.length_append, List.length_singleton]
            omega)
          refine ⟨hrest.nodup, hrest.wants, hrest.few,
            fun x hx ↦ hrest.keeps (List.mem_append_left _ hx), fun h hh ↦ ?_,
            fun h hh hwanted ↦ ?_⟩
          · rw [List.mem_cons]
            rcases hrest.offered h hh with hpicked | hlater
            · rcases List.mem_append.mp hpicked with hold | hnew
              · exact .inl hold
              · exact .inr (.inl (List.mem_singleton.mp hnew))
            · exact .inr (.inr hlater)
          rcases List.mem_cons.mp hh with rfl | hlater
          · exact .inl (hrest.keeps (List.mem_append_right _ (List.mem_singleton_self _)))
          · exact hrest.all h hlater hwanted
      · rw [if_neg hpick]
        have hrest := ih hnodup hwant hfew
        refine ⟨hrest.nodup, hrest.wants, hrest.few, hrest.keeps,
          fun h hh ↦ (hrest.offered h hh).imp_right (List.mem_cons_of_mem _), fun h hh hwanted ↦ ?_⟩
        rcases List.mem_cons.mp hh with rfl | hlater
        · exact .inl (hrest.keeps (by_contra fun hnot ↦ hpick ⟨hwanted, hnot⟩))
        · exact hrest.all h hlater hwanted

theorem wanted_iff {scheduled : List H} {h : H} : node.wanted scheduled h = true ↔
    h ∉ node.onHand ∧ h ∉ scheduled ∧ h ∉ node.activeSyncRequests := by
  simp only [wanted, haveAlreadyReceivedSyncItem, onHand, Bool.and_eq_true, Bool.not_eq_true',
    Bool.or_eq_false_iff, decide_eq_false_iff_not, decide_eq_true_eq, List.mem_append, not_or]
  tauto

/-- The requests that are scheduled are for different blocks, none on hand or asked for, of
different peers that owe nothing. -/
structure Scheduled (limits : SyncLimits) (node : SyncNode H) (requests : List (ℕ × List H)) :
    Prop where
  peers : (requests.map Prod.fst).Nodup
  nodup : (requests.flatMap Prod.snd).Nodup
  onHand : ∀ h ∈ requests.flatMap Prod.snd, h ∉ node.onHand
  active : ∀ h ∈ requests.flatMap Prod.snd, h ∉ node.activeSyncRequests
  idle : ∀ request ∈ requests, node.owed request.1 = []
  few : ∀ request ∈ requests, request.2.length ≤ max limits.maximumBlocksPerPeer 1

/-- Every block the peer offers is on hand, asked for or scheduled, or the peer is full. -/
def Served (limits : SyncLimits) (node : SyncNode H) (requests : List (ℕ × List H)) (p : ℕ) :
    Prop :=
  ∀ h ∈ (node.peers p).idsOfItemsToGet,
    h ∈ node.onHand ∨ h ∈ node.activeSyncRequests ∨ h ∈ requests.flatMap Prod.snd ∨
      ∃ items, (p, items) ∈ requests ∧ max limits.maximumBlocksPerPeer 1 ≤ items.length

/-- Active peers are asked, for what they offer. -/
def Offered (node : SyncNode H) (requests : List (ℕ × List H)) : Prop :=
  ∀ request ∈ requests, request.1 ∈ node.activeConnections ∧ node.eligible request.1 = true ∧
    ∀ h ∈ request.2, h ∈ (node.peers request.1).idsOfItemsToGet

variable {requests : List (ℕ × List H)}

omit [DecidableEq H] in
theorem Served.append {p : ℕ} (hp : Served limits node requests p) (more : List (ℕ × List H)) :
    Served limits node (requests ++ more) p := by
  intro h hh
  rcases hp h hh with honHand | hactive | hscheduled | ⟨items, hmem, hfull⟩
  · exact .inl honHand
  · exact .inr (.inl hactive)
  · refine .inr (.inr (.inl ?_))
    rw [List.flatMap_append]
    exact List.mem_append_left _ hscheduled
  · exact .inr (.inr (.inr ⟨items, List.mem_append_left _ hmem, hfull⟩))

omit [DecidableEq H] in
theorem owed_of_eligible {p : ℕ} (hp : node.eligible p = true) : node.owed p = [] := by
  simp only [eligible, SyncPeer.idle, Bool.and_eq_true, List.isEmpty_iff] at hp
  exact hp.1.2.1

theorem scheduled_schedule (hs : Scheduled limits node requests)
    (hserved : ∀ q ∈ requests.map Prod.fst, Served limits node requests q)
    (hoffered : Offered node requests) {p : ℕ} (hactive : p ∈ node.activeConnections) :
    Scheduled limits node (node.schedule limits requests p) ∧
      Offered node (node.schedule limits requests p) ∧
      (∀ q ∈ (node.schedule limits requests p).map Prod.fst,
        Served limits node (node.schedule limits requests p) q) ∧
      (node.eligible p = true → Served limits node (node.schedule limits requests p) p) ∧
      ∃ more, node.schedule limits requests p = requests ++ more := by
  unfold SyncNode.schedule
  by_cases hp : p ∉ requests.map Prod.fst ∧ node.eligible p
  · rw [if_pos hp]
    obtain ⟨hnodup, hwants, hfew, -, hfrom, hall⟩ := picks_pickItems limits.maximumBlocksPerPeer
      (fun h ↦ node.wanted (requests.flatMap Prod.snd) h) (node.peers p).idsOfItemsToGet
      List.nodup_nil (fun h hh ↦ absurd hh List.not_mem_nil) (by simp)
    generalize pickItems limits.maximumBlocksPerPeer
      (fun h ↦ node.wanted (requests.flatMap Prod.snd) h) []
      (node.peers p).idsOfItemsToGet = items at hnodup hwants hfew hfrom hall ⊢
    simp only [wanted_iff] at hwants hall
    dsimp only
    split_ifs with hempty
    · refine ⟨hs, hoffered, hserved, fun _ h hh ↦ ?_, [], (List.append_nil _).symm⟩
      by_contra hnone
      simp only [not_or] at hnone
      subst hempty
      rcases hall h hh ⟨hnone.1, hnone.2.2.1, hnone.2.1⟩ with hmem | hfull
      · exact absurd hmem List.not_mem_nil
      · simp at hfull
    · have hflat : (requests ++ [(p, items)]).flatMap Prod.snd =
          requests.flatMap Prod.snd ++ items := by
        rw [List.flatMap_append, List.flatMap_singleton]
      have hnew : Served limits node (requests ++ [(p, items)]) p := by
        intro h hh
        rw [hflat]
        by_contra hnone
        simp only [not_or, List.mem_append] at hnone
        obtain ⟨honHand, hactive, ⟨hscheduled, hitems⟩, hfull⟩ := hnone
        rcases hall h hh ⟨honHand, hscheduled, hactive⟩ with hmem | hlong
        · exact hitems hmem
        · exact hfull ⟨items, .inr (List.mem_singleton_self _), hlong⟩
      refine ⟨⟨?_, ?_, fun h hh ↦ ?_, fun h hh ↦ ?_, fun request hrequest ↦ ?_,
        fun request hrequest ↦ ?_⟩, fun request hrequest ↦ ?_, fun q hq ↦ ?_, fun _ ↦ hnew, _, rfl⟩
      · rw [List.map_append, List.map_singleton, List.nodup_append_comm]
        exact List.nodup_cons.mpr ⟨hp.1, hs.peers⟩
      · rw [hflat]
        refine List.nodup_append.mpr ⟨hs.nodup, hnodup, ?_⟩
        rintro h hold _ hitems rfl
        exact (hwants h hitems).2.1 hold
      · rw [hflat] at hh
        rcases List.mem_append.mp hh with hold | hitems
        · exact hs.onHand h hold
        · exact (hwants h hitems).1
      · rw [hflat] at hh
        rcases List.mem_append.mp hh with hold | hitems
        · exact hs.active h hold
        · exact (hwants h hitems).2.2
      · rcases List.mem_append.mp hrequest with hold | hlast
        · exact hs.idle request hold
        · rw [List.mem_singleton.mp hlast]
          exact owed_of_eligible hp.2
      · rcases List.mem_append.mp hrequest with hold | hlast
        · exact hs.few request hold
        · rw [List.mem_singleton.mp hlast]
          exact hfew
      · rcases List.mem_append.mp hrequest with hold | hlast
        · exact hoffered request hold
        · rw [List.mem_singleton.mp hlast]
          exact ⟨hactive, hp.2, fun h hh ↦ (hfrom h hh).resolve_left List.not_mem_nil⟩
      · rw [List.map_append] at hq
        rcases List.mem_append.mp hq with hold | hlast
        · exact (hserved q hold).append _
        · rw [List.map_singleton, List.mem_singleton] at hlast
          exact hlast ▸ hnew
  · rw [if_neg hp]
    refine ⟨hs, hoffered, hserved, fun helig ↦ ?_, [], (List.append_nil _).symm⟩
    exact hserved p (by_contra fun hnot ↦ hp ⟨hnot, helig⟩)

theorem scheduled_foldl {ps : List ℕ} (hps : ps ⊆ node.activeConnections)
    (hs : Scheduled limits node requests)
    (hserved : ∀ q ∈ requests.map Prod.fst, Served limits node requests q)
    (hoffered : Offered node requests) :
    Scheduled limits node (ps.foldl (node.schedule limits) requests) ∧
      Offered node (ps.foldl (node.schedule limits) requests) ∧
      (∃ more, ps.foldl (node.schedule limits) requests = requests ++ more) ∧
      ∀ p ∈ ps, node.eligible p = true →
        Served limits node (ps.foldl (node.schedule limits) requests) p := by
  induction ps generalizing requests with
  | nil =>
      exact ⟨hs, hoffered, ⟨[], (List.append_nil _).symm⟩, fun p hp ↦ absurd hp List.not_mem_nil⟩
  | cons q ps ih =>
      obtain ⟨hfirst, hlaters⟩ := List.cons_subset.mp hps
      obtain ⟨hs', hoffered', hserved', hq, more, hmore⟩ :=
        scheduled_schedule hs hserved hoffered hfirst
      obtain ⟨hall, hoffers, ⟨rest, hrest⟩, hserves⟩ := ih hlaters hs' hserved' hoffered'
      rw [List.foldl_cons]
      refine ⟨hall, hoffers, ⟨more ++ rest, ?_⟩, fun p hp helig ↦ ?_⟩
      · rw [hrest, hmore, List.append_assoc]
      · rcases List.mem_cons.mp hp with rfl | hlater
        · rw [hrest]
          exact (hq helig).append rest
        · exact hserves p hlater helig

/-- The requests have been made. -/
structure Requested (node : SyncNode H) (requests : List (ℕ × List H)) (node' : SyncNode H) :
    Prop where
  active : ∀ h, h ∈ node'.activeSyncRequests ↔
    h ∈ node.activeSyncRequests ∨ h ∈ requests.flatMap Prod.snd
  onHand : node'.onHand = node.onHand
  asked : ∀ request ∈ requests, node'.owed request.1 = request.2
  others : ∀ p, p ∉ requests.map Prod.fst → node'.owed p = node.owed p

theorem requested_foldl (hs : Scheduled limits node requests) :
    Requested node requests (requests.foldl requestSyncItemsFromPeer node) := by
  induction requests generalizing node with
  | nil => exact ⟨fun h ↦ by simp, rfl, fun _ h ↦ absurd h List.not_mem_nil, fun _ _ ↦ rfl⟩
  | cons request requests ih =>
      obtain ⟨p, items⟩ := request
      obtain ⟨hp, hpeers⟩ := List.nodup_cons.mp hs.peers
      have hnodup := hs.nodup
      rw [List.flatMap_cons, List.nodup_append] at hnodup
      obtain ⟨-, hrest, hapart⟩ := hnodup
      have hnone : node.owed p = [] := hs.idle (p, items) List.mem_cons_self
      have hactive : ∀ h, h ∈ (node.requestSyncItemsFromPeer (p, items)).activeSyncRequests ↔
          h ∈ node.activeSyncRequests ∨ h ∈ items := by
        intro h
        simp only [requestSyncItemsFromPeer, List.mem_append, List.mem_filter, decide_eq_true_eq]
        tauto
      have hself : (node.requestSyncItemsFromPeer (p, items)).owed p = items := by
        simp only [requestSyncItemsFromPeer, hnone, List.nil_append, List.not_mem_nil,
          not_false_eq_true, decide_true, List.filter_true]
        simp only [SyncNode.owed, Function.update_self]
      have hothers : ∀ q, q ≠ p →
          (node.requestSyncItemsFromPeer (p, items)).owed q = node.owed q := by
        intro q hq
        simp only [requestSyncItemsFromPeer, SyncNode.owed, Function.update_of_ne hq]
      have hlater : ∀ other ∈ requests, other.1 ≠ p := by
        intro other hother heq
        have hmem := List.mem_map_of_mem (f := Prod.fst) hother
        exact hp (heq ▸ hmem)
      have hnext : Scheduled limits (node.requestSyncItemsFromPeer (p, items)) requests := by
        refine ⟨hpeers, hrest, fun h hh ↦ ?_, fun h hh ↦ ?_, fun other hother ↦ ?_,
          fun other hother ↦ hs.few other (List.mem_cons_of_mem _ hother)⟩
        · exact hs.onHand h (by rw [List.flatMap_cons]; exact List.mem_append_right _ hh)
        · rw [hactive, not_or]
          refine ⟨hs.active h (by rw [List.flatMap_cons]; exact List.mem_append_right _ hh), ?_⟩
          exact fun hitem ↦ hapart h hitem h hh rfl
        · rw [hothers _ (hlater other hother)]
          exact hs.idle other (List.mem_cons_of_mem _ hother)
      obtain ⟨hall, hhand, hasked, hrested⟩ := ih hnext
      rw [List.foldl_cons]
      refine ⟨fun h ↦ ?_, hhand, fun other hother ↦ ?_, fun q hq ↦ ?_⟩
      · rw [hall, hactive, List.flatMap_cons, List.mem_append, or_assoc]
      · rcases List.mem_cons.mp hother with rfl | hrequest
        · rw [hrested p hp, hself]
        · exact hasked other hrequest
      · rw [List.map_cons, List.mem_cons, not_or] at hq
        rw [hrested q hq.2, hothers q hq.1]

omit [DecidableEq H] in
theorem scheduled_nil : Scheduled limits node [] :=
  ⟨List.nodup_nil, List.nodup_nil, fun _ h ↦ absurd h List.not_mem_nil,
    fun _ h ↦ absurd h List.not_mem_nil, fun _ h ↦ absurd h List.not_mem_nil,
    fun _ h ↦ absurd h List.not_mem_nil⟩

/-- What a turn of the loop does. -/
theorem fetchSyncItems_cases (limits : SyncLimits) (node : SyncNode H) :
    node.fetchSyncItems limits = node ∧ node.suspendFetchingSyncBlocks = true ∨
      ∃ requests, Scheduled limits node requests ∧ Offered node requests ∧
        Requested node requests (node.fetchSyncItems limits) ∧
        ∀ p ∈ node.activeConnections, node.eligible p = true → Served limits node requests p := by
  unfold fetchSyncItems
  split_ifs with hsuspended
  · exact .inl ⟨rfl, hsuspended⟩
  · have hstart : Scheduled limits node [] := scheduled_nil
    obtain ⟨hs, hoffered, -, hserved⟩ := scheduled_foldl (List.Subset.refl _) hstart
      (fun q hq ↦ absurd hq List.not_mem_nil) (fun request h ↦ absurd h List.not_mem_nil)
    exact .inr ⟨_, hs, hoffered, requested_foldl hs, hserved⟩

end SyncNode

end KarmaCore.Net
