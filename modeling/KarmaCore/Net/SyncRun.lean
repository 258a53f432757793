import Mathlib
import KarmaCore.Net.SyncRequests

/-!
# Runs of the synchronization

A block is asked of one peer at a time, and what a peer has reported not to have is lost.
-/

namespace KarmaCore.Net

variable {H : Type*} [DecidableEq H] {limits : SyncLimits} {node node' : SyncNode H}
  {r : SyncRun H}

namespace SyncRun

open SyncNode

/-- What is asked for is owed by one peer, or was reported; and it is not on hand. -/
structure Tracked (limits : SyncLimits) (r : SyncRun H) : Prop where
  active : ∀ h, h ∈ r.node.activeSyncRequests ↔ (∃ p, h ∈ r.node.owed p) ∨ h ∈ r.reported
  apart : ∀ p, ∀ h ∈ r.node.owed p, h ∉ r.reported
  single : ∀ p q h, h ∈ r.node.owed p → h ∈ r.node.owed q → p = q
  onHand : ∀ h ∈ r.node.activeSyncRequests, h ∉ r.node.onHand
  nodup : r.node.onHand.Nodup
  few : ∀ p, (r.node.owed p).length ≤ max limits.maximumBlocksPerPeer 1

omit [DecidableEq H] in
theorem Tracked.same (ht : Tracked limits r) (h : SameRequests r.node node') :
    Tracked limits ⟨node', r.reported⟩ where
  active h' := by simp only [h.active, h.owed, ht.active]
  apart p := by simpa only [h.owed] using ht.apart p
  single p q := by simpa only [h.owed] using ht.single p q
  onHand h' hh hmem := ht.onHand h' (h.active ▸ hh) (h.onHand.subset hmem)
  nodup := by
    obtain ⟨onHand, hperm, hsub⟩ := h.onHand
    exact hperm.nodup_iff.mp (hsub.nodup ht.nodup)
  few p := by simpa only [h.owed] using ht.few p

theorem Tracked.fetchSyncItems (ht : Tracked limits r) :
    Tracked limits ⟨r.node.fetchSyncItems limits, r.reported⟩ := by
  rcases fetchSyncItems_cases limits r.node with ⟨hsame, -⟩ | ⟨requests, hs, -, hrequested, -⟩
  · rw [hsame]
    exact ht
  · generalize r.node.fetchSyncItems limits = node' at hrequested ⊢
    -- a peer owes what it is asked for now, or what it owed before
    have howed : ∀ p h, h ∈ node'.owed p ↔
        (∃ request ∈ requests, request.1 = p ∧ h ∈ request.2) ∨ h ∈ r.node.owed p := by
      intro p h
      by_cases hp : p ∈ requests.map Prod.fst
      · obtain ⟨request, hrequest, rfl⟩ := List.mem_map.mp hp
        rw [hrequested.asked request hrequest, hs.idle request hrequest]
        refine ⟨fun hh ↦ .inl ⟨request, hrequest, rfl, hh⟩, ?_⟩
        rintro (⟨other, hother, hsame, hh⟩ | hnone)
        · rwa [← hrequested.asked request hrequest, ← hsame, hrequested.asked other hother]
        · exact absurd hnone List.not_mem_nil
      · rw [hrequested.others p hp]
        refine ⟨.inr, ?_⟩
        rintro (⟨request, hrequest, rfl, -⟩ | hold)
        · exact absurd (List.mem_map_of_mem hrequest) hp
        · exact hold
    have hflat : ∀ {request h}, request ∈ requests → h ∈ request.2 →
        h ∈ requests.flatMap Prod.snd :=
      fun hrequest hh ↦ List.mem_flatMap.mpr ⟨_, hrequest, hh⟩
    refine ⟨fun h ↦ ?_, fun p h hh ↦ ?_, fun p q h hp hq ↦ ?_, fun h hh ↦ ?_, ?_, fun p ↦ ?_⟩
    · simp only [hrequested.active, ht.active, howed, List.mem_flatMap]
      constructor
      · rintro ((⟨p, hp⟩ | hreported) | ⟨request, hrequest, hh⟩)
        · exact .inl ⟨p, .inr hp⟩
        · exact .inr hreported
        · exact .inl ⟨request.1, .inl ⟨request, hrequest, rfl, hh⟩⟩
      · rintro (⟨p, ⟨request, hrequest, -, hh⟩ | hp⟩ | hreported)
        · exact .inr ⟨request, hrequest, hh⟩
        · exact .inl (.inl ⟨p, hp⟩)
        · exact .inl (.inr hreported)
    · rcases (howed p h).mp hh with ⟨request, hrequest, -, hmem⟩ | hold
      · intro hreported
        exact hs.active h (hflat hrequest hmem) ((ht.active h).mpr (.inr hreported))
      · exact ht.apart p h hold
    · rcases (howed p h).mp hp with ⟨request, hrequest, rfl, hmem⟩ | hold
      · rcases (howed q h).mp hq with ⟨other, hother, rfl, hmem'⟩ | hold'
        · by_contra hne
          have hsymm : Std.Symm (Function.onFun List.Disjoint (Prod.snd (α := ℕ) (β := List H))) :=
            ⟨fun _ _ hxy ↦ hxy.symm⟩
          have hdisjoint := (List.nodup_flatMap.mp hs.nodup).2.forall hrequest hother
            fun heq ↦ hne (congrArg Prod.fst heq)
          exact hdisjoint hmem hmem'
        · exact absurd ((ht.active h).mpr (.inl ⟨q, hold'⟩))
            (hs.active h (hflat hrequest hmem))
      · rcases (howed q h).mp hq with ⟨other, hother, rfl, hmem'⟩ | hold'
        · exact absurd ((ht.active h).mpr (.inl ⟨p, hold⟩)) (hs.active h (hflat hother hmem'))
        · exact ht.single p q h hold hold'
    · rw [hrequested.onHand]
      rcases (hrequested.active h).mp hh with hold | hnew
      · exact ht.onHand h hold
      · exact hs.onHand h hnew
    · rw [hrequested.onHand]
      exact ht.nodup
    · by_cases hp : p ∈ requests.map Prod.fst
      · obtain ⟨request, hrequest, rfl⟩ := List.mem_map.mp hp
        rw [hrequested.asked request hrequest]
        exact hs.few request hrequest
      · rw [hrequested.others p hp]
        exact ht.few p

omit [DecidableEq H] in
theorem owed_setPeer {p q : ℕ} {f : SyncPeer H → SyncPeer H} :
    (node.setPeer p f).owed q =
      if q = p then (f (node.peers p)).syncItemsRequestedFromPeer else node.owed q := by
  simp only [SyncNode.owed, setPeer]
  split_ifs with hq
  · rw [hq, Function.update_self]
  · rw [Function.update_of_ne hq]

theorem mem_owed_settle {p q : ℕ} {h x : H} :
    x ∈ (node.settle p h).owed q ↔ x ∈ node.owed q ∧ ¬(q = p ∧ x = h) := by
  rw [settle, owed_setPeer]
  split_ifs with hq
  · subst hq
    simp [SyncNode.owed]
  · simp [hq]

theorem length_owed_settle {p q : ℕ} {h : H} :
    ((node.settle p h).owed q).length ≤ (node.owed q).length := by
  rw [settle, owed_setPeer]
  split_ifs with hq
  · subst hq
    exact List.length_filter_le _ _
  · exact le_rfl

theorem Tracked.onBlockMessage (ht : Tracked limits r) (p : ℕ) (h : H) :
    Tracked limits ⟨r.node.onBlockMessage p h, r.reported⟩ := by
  unfold SyncNode.onBlockMessage
  split_ifs with hasked
  · have hactive : h ∈ r.node.activeSyncRequests := (ht.active h).mpr (.inl ⟨p, hasked⟩)
    refine ⟨fun x ↦ ?_, fun q x hx ↦ ?_, fun q q' x hq hq' ↦ ?_, fun x hx ↦ ?_, ?_, fun q ↦ ?_⟩
    · change x ∈ r.node.activeSyncRequests.filter (· ≠ h) ↔
        (∃ q, x ∈ (r.node.settle p h).owed q) ∨ x ∈ r.reported
      simp only [mem_owed_settle, List.mem_filter, decide_eq_true_eq, ht.active]
      constructor
      · rintro ⟨⟨q, hq⟩ | hreported, hne⟩
        · exact .inl ⟨q, hq, fun hsame ↦ hne hsame.2⟩
        · exact .inr hreported
      · rintro (⟨q, hq, hnot⟩ | hreported)
        · refine ⟨.inl ⟨q, hq⟩, ?_⟩
          rintro rfl
          exact hnot ⟨ht.single q p x hq hasked, rfl⟩
        · refine ⟨.inr hreported, ?_⟩
          rintro rfl
          exact ht.apart p x hasked hreported
    · exact ht.apart q x (mem_owed_settle.mp hx).1
    · exact ht.single q q' x (mem_owed_settle.mp hq).1 (mem_owed_settle.mp hq').1
    · change x ∈ r.node.activeSyncRequests.filter (· ≠ h) at hx
      simp only [List.mem_filter, decide_eq_true_eq] at hx
      change x ∉ h :: r.node.onHand
      rw [List.mem_cons, not_or]
      exact ⟨hx.2, ht.onHand x hx.1⟩
    · exact List.nodup_cons.mpr ⟨ht.onHand h hactive, ht.nodup⟩
    · exact length_owed_settle.trans (ht.few q)
  · exact ht.same (sameRequests_disconnect [p])

/-- An id that is reported is owed no more, but it stays with the active requests. -/
theorem Tracked.settle (ht : Tracked limits r) {p : ℕ} {h : H} (hasked : h ∈ r.node.owed p) :
    Tracked limits ⟨r.node.settle p h, h :: r.reported⟩ := by
  refine ⟨fun x ↦ ?_, fun q x hx ↦ ?_, fun q q' x hq hq' ↦ ?_, ht.onHand, ht.nodup,
    fun q ↦ length_owed_settle.trans (ht.few q)⟩
  · change x ∈ r.node.activeSyncRequests ↔ _
    simp only [mem_owed_settle, List.mem_cons, ht.active]
    constructor
    · rintro (⟨q, hq⟩ | hreported)
      · by_cases hsame : q = p ∧ x = h
        · exact .inr (.inl hsame.2)
        · exact .inl ⟨q, hq, hsame⟩
      · exact .inr (.inr hreported)
    · rintro (⟨q, hq, -⟩ | rfl | hreported)
      · exact .inl ⟨q, hq⟩
      · exact .inl ⟨p, hasked⟩
      · exact .inr hreported
  · obtain ⟨hold, hnot⟩ := mem_owed_settle.mp hx
    change x ∉ h :: r.reported
    rw [List.mem_cons, not_or]
    refine ⟨?_, ht.apart q x hold⟩
    rintro rfl
    exact hnot ⟨ht.single q p x hold hasked, rfl⟩
  · exact ht.single q q' x (mem_owed_settle.mp hq).1 (mem_owed_settle.mp hq').1

theorem Tracked.onItemNotAvailable (ht : Tracked limits r) (p : ℕ) (h : H) :
    Tracked limits (r.step limits (.notAvailable p h)) := by
  unfold SyncRun.step
  simp only [SyncNode.step, SyncNode.onItemNotAvailable]
  split_ifs with hasked hneeds
  · exact (ht.settle hasked).same (sameRequests_setPeer fun _ ↦ rfl)
  · exact (ht.settle hasked).same (sameRequests_disconnect [p])
  · exact ht

theorem Tracked.onConnectionClosed (ht : Tracked limits r) (p : ℕ) :
    Tracked limits ⟨r.node.onConnectionClosed p, r.reported⟩ := by
  have howed : ∀ q, (r.node.onConnectionClosed p).owed q = if q = p then [] else r.node.owed q := by
    intro q
    change ((r.node.disconnect [p]).setPeer p fun _ ↦ {}).owed q = _
    rw [owed_setPeer]
    rfl
  have hmem : ∀ q x, x ∈ (r.node.onConnectionClosed p).owed q ↔ x ∈ r.node.owed q ∧ q ≠ p := by
    intro q x
    rw [howed]
    split_ifs with hq <;> simp [hq]
  refine ⟨fun x ↦ ?_, fun q x hx ↦ ?_, fun q q' x hq hq' ↦ ?_, fun x hx ↦ ?_, ht.nodup,
    fun q ↦ ?_⟩
  · change x ∈ r.node.activeSyncRequests.filter (· ∉ r.node.owed p) ↔
      (∃ q, x ∈ (r.node.onConnectionClosed p).owed q) ∨ x ∈ r.reported
    simp only [hmem, List.mem_filter, decide_eq_true_eq, ht.active]
    constructor
    · rintro ⟨⟨q, hq⟩ | hreported, hnot⟩
      · refine .inl ⟨q, hq, ?_⟩
        rintro rfl
        exact hnot hq
      · exact .inr hreported
    · rintro (⟨q, hq, hne⟩ | hreported)
      · exact ⟨.inl ⟨q, hq⟩, fun hp ↦ hne (ht.single q p x hq hp)⟩
      · exact ⟨.inr hreported, fun hp ↦ ht.apart p x hp hreported⟩
  · exact ht.apart q x ((hmem q x).mp hx).1
  · exact ht.single q q' x ((hmem q x).mp hq).1 ((hmem q' x).mp hq').1
  · exact ht.onHand x (List.mem_filter.mp hx).1
  · change ((r.node.onConnectionClosed p).owed q).length ≤ _
    rw [howed]
    split_ifs
    · exact Nat.zero_le _
    · exact ht.few q

theorem Tracked.step (ht : Tracked limits r) (event : SyncBlockEvent H) :
    Tracked limits (r.step limits event) := by
  cases event with
  | activate p =>
      have hsame : SameRequests r.node (r.node.step limits (.activate p)) := by
        simp only [SyncNode.step]
        split_ifs
        · exact .refl _
        · exact .of_fields rfl rfl rfl
      exact ht.same hsame
  | attend p peer =>
      have hsame : SameRequests r.node (r.node.step limits (.attend p peer)) := by
        simp only [SyncNode.step]
        exact sameRequests_setPeer fun _ ↦ rfl
      exact ht.same hsame
  | fetchSyncItems => exact ht.fetchSyncItems
  | block p h => exact ht.onBlockMessage p h
  | notAvailable p h => exact ht.onItemNotAvailable p h
  | processBacklog => exact ht.same sameRequests_processBacklog
  | verdict h verdict => exact ht.same sameRequests_onVerdict
  | disconnect p => exact ht.same (sameRequests_disconnect [p])
  | closed p => exact ht.onConnectionClosed p

omit [DecidableEq H] in
theorem tracked_start : Tracked limits ({} : SyncRun H) := by
  have hnone : ∀ (p : ℕ) (h : H), h ∉ ({} : SyncRun H).node.owed p :=
    fun _ _ ↦ List.not_mem_nil
  refine ⟨fun h ↦ ?_, fun p h hh ↦ absurd hh (hnone p h),
    fun p q h hh ↦ absurd hh (hnone p h), fun h hh ↦ absurd hh List.not_mem_nil, List.nodup_nil,
    fun p ↦ Nat.zero_le _⟩
  refine ⟨fun hh ↦ absurd hh List.not_mem_nil, ?_⟩
  rintro (⟨p, hp⟩ | hreported)
  · exact absurd hp (hnone p h)
  · exact absurd hreported List.not_mem_nil

def run (limits : SyncLimits) (events : List (SyncBlockEvent H)) : SyncRun H :=
  events.foldl (step limits) {}

theorem tracked_foldl (events : List (SyncBlockEvent H)) (ht : Tracked limits r) :
    Tracked limits (events.foldl (SyncRun.step limits) r) ∧
      r.reported ⊆ (events.foldl (SyncRun.step limits) r).reported := by
  induction events generalizing r with
  | nil => exact ⟨ht, List.Subset.refl _⟩
  | cons event events ih =>
      obtain ⟨hrest, hsub⟩ := ih (ht.step event)
      refine ⟨hrest, fun h hh ↦ hsub ?_⟩
      simp only [SyncRun.step]
      split
      · split_ifs
        · exact List.mem_cons_of_mem _ hh
        · exact hh
      · exact hh

/-- In any run a block is asked of one peer at a time, of each peer no more than the largest number,
and none that is on hand is asked for; the active requests are for what some peer owes or for what
peers have reported not to have. -/
theorem syncRequests_of_run (limits : SyncLimits) (events : List (SyncBlockEvent H)) :
    Tracked limits (run limits events) :=
  (tracked_foldl events tracked_start).1

/-- Both peers offer block 7. -/
def twoOffers : List (SyncBlockEvent ℕ) :=
  [.activate 0, .activate 1, .attend 0 { idsOfItemsToGet := [7, 8] },
    .attend 1 { idsOfItemsToGet := [7] }]

end SyncRun

end KarmaCore.Net
