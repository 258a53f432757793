import Mathlib
import KarmaCore.Chain.Replay

/-!
# The head of the fork database

The fork database takes a block before it is applied.  Its head is the head block
as long as every block that becomes its head applies, and no branch is switched.
-/

namespace KarmaCore.Chain

variable {Tx Res Rest : Type} {code : Code Tx Res Rest} {b : SignedBlock Tx Res}
  {skip : SkipFlags}

/-! ## Links -/

namespace ForkDatabase

variable {f f' : ForkDatabase Tx Res} {hash : SignedBlock Tx Res → ℕ} {item : ForkItem Tx Res}

/-- The items that a weak pointer may reach. -/
def items (f : ForkDatabase Tx Res) : List (ForkItem Tx Res) := f.head.toList ++ f.index

/-- An item has the id of its block, and what it points to is its predecessor. -/
structure Linked (hash : SignedBlock Tx Res → ℕ) (f : ForkDatabase Tx Res) : Prop where
  held : f.held = []
  ids : ∀ i ∈ f.items, i.id = i.data.id hash
  fresh : ∀ i ∈ f.items, i.serial < f.nextSerial ∧ ∀ s ∈ i.prev, s < f.nextSerial
  serials : ∀ i ∈ f.items, ∀ j ∈ f.items, i.serial = j.serial → i.id = j.id
  prev : ∀ i ∈ f.items, ∀ j ∈ f.items, i.prev = some j.serial → j.id = i.previousId

theorem Linked.mono (h : f.Linked hash) (hitems : ∀ i ∈ f'.items, i ∈ f.items)
    (hheld : f'.held = f.held) (hserial : f'.nextSerial = f.nextSerial) : f'.Linked hash where
  held := hheld.trans h.held
  ids i hi := h.ids i (hitems i hi)
  fresh i hi := by
    rw [hserial]
    exact h.fresh i (hitems i hi)
  serials i hi j hj := h.serials i (hitems i hi) j (hitems j hj)
  prev i hi j hj := h.prev i (hitems i hi) j (hitems j hj)

/-- The item a new block becomes points to an item with the id of its predecessor. -/
theorem link_cases {id : BlockId} (h : f.link id b = .ok item) :
    item.id = id ∧ item.data = b ∧ item.serial = f.nextSerial ∧
      ∀ s ∈ item.prev, ∃ j ∈ f.items, j.serial = s ∧ j.id = b.previous := by
  unfold link at h
  split_ifs at h
  · split at h
    case h_1 => cases h
    case h_2 prev hprev =>
      cases h
      refine ⟨rfl, rfl, rfl, fun s hs ↦ ?_⟩
      cases hs
      refine ⟨prev, List.mem_append_right _ (List.mem_of_find?_eq_some hprev), rfl, ?_⟩
      simpa using List.find?_some hprev
  · cases h
    exact ⟨rfl, rfl, rfl, by simp⟩

theorem Linked.pushed (h : f.Linked hash) (hlink : f.link (b.id hash) b = .ok item)
    (hitems : ∀ i ∈ f'.items, i = item ∨ i ∈ f.items) (hheld : f'.held = f.held)
    (hserial : f'.nextSerial = f.nextSerial + 1) : f'.Linked hash := by
  obtain ⟨hid, hdata, hitemSerial, hprev⟩ := link_cases hlink
  have hold : ∀ i ∈ f.items, i.serial ≠ item.serial := by
    intro i hi
    rw [hitemSerial]
    exact (h.fresh i hi).1.ne
  have hunpointed : ∀ i ∈ f.items, i.prev ≠ some item.serial := by
    intro i hi heq
    have hlt := (h.fresh i hi).2 item.serial heq
    rw [hitemSerial] at hlt
    exact lt_irrefl _ hlt
  refine ⟨hheld.trans h.held, fun i hi ↦ ?_, fun i hi ↦ ?_, fun i hi j hj ↦ ?_, fun i hi j hj ↦ ?_⟩
  · rcases hitems i hi with rfl | hi
    · rw [hid, hdata]
    · exact h.ids i hi
  · rw [hserial]
    rcases hitems i hi with rfl | hi
    · refine ⟨by omega, fun s hs ↦ ?_⟩
      obtain ⟨j, hj, rfl, -⟩ := hprev s hs
      exact (h.fresh j hj).1.trans (Nat.lt_succ_self _)
    · obtain ⟨hlt, hprevs⟩ := h.fresh i hi
      exact ⟨hlt.trans (Nat.lt_succ_self _), fun s hs ↦ (hprevs s hs).trans (Nat.lt_succ_self _)⟩
  · rcases hitems i hi with rfl | hi <;> rcases hitems j hj with rfl | hj
    · exact fun _ ↦ rfl
    · exact fun heq ↦ absurd heq.symm (hold j hj)
    · exact fun heq ↦ absurd heq (hold i hi)
    · exact h.serials i hi j hj
  · rcases hitems i hi with rfl | hi <;> rcases hitems j hj with rfl | hj
    · intro heq
      obtain ⟨k, hk, hserials, -⟩ := hprev _ heq
      exact absurd hserials (hold k hk)
    · intro heq
      obtain ⟨k, hk, hserials, hkid⟩ := hprev _ heq
      rw [h.serials j hj k hk hserials.symm, hkid, ForkItem.previousId, hdata]
    · exact fun heq ↦ absurd heq (hunpointed i hi)
    · exact h.prev i hi j hj

theorem items_insert {i : ForkItem Tx Res} (h : i ∈ (f.insert item).items) :
    i = item ∨ i ∈ f.items := by
  unfold items insert at h
  dsimp only at h
  rcases List.mem_append.mp h with hhead | hindex
  · exact .inr (List.mem_append_left _ hhead)
  · split_ifs at hindex
    · exact .inr (List.mem_append_right _ hindex)
    · rcases List.mem_cons.mp hindex with rfl | hindex
      · exact .inl rfl
      · exact .inr (List.mem_append_right _ hindex)

theorem items_raise {i : ForkItem Tx Res} (h : i ∈ (f.raise item).items) :
    i = item ∨ i ∈ f.items := by
  unfold raise at h
  cases hhead : f.head with
  | none =>
      simp only [hhead] at h
      rcases List.mem_append.mp h with htop | hindex
      · exact .inl (List.mem_singleton.mp htop)
      · exact .inr (List.mem_append_right _ hindex)
  | some head =>
      simp only [hhead] at h
      split_ifs at h
      · rcases List.mem_append.mp h with htop | hindex
        · exact .inl (List.mem_singleton.mp htop)
        · exact .inr (List.mem_append_right _ (List.mem_of_mem_filter hindex))
      · exact .inr h

theorem items_setMaxSize {size : ℕ} {i : ForkItem Tx Res} (h : i ∈ (f.setMaxSize size).items) :
    i ∈ f.items := by
  unfold setMaxSize at h
  cases hhead : f.head with
  | none => simpa [items, hhead] using h
  | some head =>
      simp only [hhead] at h
      rcases List.mem_append.mp h with htop | hindex
      · exact List.mem_append_left _ (by rw [hhead]; exact htop)
      · exact List.mem_append_right _ (List.mem_of_mem_filter hindex)

/-- What a pop makes the head has the id of the predecessor. -/
theorem Linked.popBlock (h : f.Linked hash) (hpop : f.popBlock = .ok f') : ∃ head prev,
    f.head = some head ∧ prev ∈ f.items ∧ prev.id = head.previousId ∧
      f' = { f with head := some prev } := by
  unfold ForkDatabase.popBlock at hpop
  cases hhead : f.head with
  | none =>
      simp only [hhead] at hpop
      cases hpop
  | some head =>
      simp only [hhead] at hpop
      cases hlock : f.lock head with
      | none =>
          simp only [hlock] at hpop
          cases hpop
      | some prev =>
          simp only [hlock] at hpop
          cases hpop
          simp only [lock, Option.bind_eq_bind, Option.bind_eq_some_iff, h.held,
            List.append_nil] at hlock
          obtain ⟨serial, hserial, hfind⟩ := hlock
          have hprev : prev ∈ f.items := List.mem_of_find?_eq_some hfind
          have hsame : prev.serial = serial := by simpa using List.find?_some hfind
          have hheadMem : head ∈ f.items := by
            unfold items
            rw [hhead]
            exact List.mem_cons_self
          exact ⟨head, prev, rfl, hprev, h.prev head hheadMem prev hprev (by rw [hserial, hsame]),
            rfl⟩

/-- The head is the block, or was before. -/
theorem Linked.pushBlock (h : f.Linked hash) (hpush : f.pushBlock (b.id hash) b = .ok f') :
    f'.Linked hash ∧
      ((∀ head ∈ f.head, head.num < b.blockNum) → ∃ item, f'.head = some item ∧ item.data = b ∧
        item.id = b.id hash ∧ ∃ i ∈ f'.index, i.id = b.id hash) ∧
      ∀ head, f.head = some head → b.blockNum ≤ head.num →
        f'.head = some head ∧ ∀ i ∈ f.index, i ∈ f'.index := by
  simp only [ForkDatabase.pushBlock, Checked.bind_eq_ok, require_eq_ok, Checked.pure_eq_ok]
    at hpush
  obtain ⟨-, -, item, hlink, rfl⟩ := hpush
  obtain ⟨hid, hdata, -, -⟩ := link_cases hlink
  have hnum : item.num = b.blockNum := by rw [ForkItem.num, hdata]
  have hraised : ((f.insert item).raise item).held = f.held ∧
      ((f.insert item).raise item).nextSerial = f.nextSerial + 1 := by
    unfold raise
    split
    · exact ⟨rfl, rfl⟩
    · split_ifs <;> exact ⟨rfl, rfl⟩
  have hitems : ∀ i ∈ ((f.insert item).raise item).items, i = item ∨ i ∈ f.items := by
    intro i hi
    rcases items_raise hi with rfl | hi
    · exact .inl rfl
    · exact items_insert hi
  have hinserted : ∃ i ∈ (f.insert item).index, i.id = b.id hash ∧ i.num = item.num := by
    unfold ForkDatabase.insert
    dsimp only
    split_ifs with hthere
    · obtain ⟨i, hi, hfound⟩ := List.find?_isSome.mp hthere
      have hiId : i.id = b.id hash := by rw [← hid]; simpa using hfound
      have hiNum : (i.data.id hash).num = (b.id hash).num := by
        rw [← h.ids i (List.mem_append_right _ hi), hiId]
      exact ⟨i, hi, hiId, by rw [hnum]; exact hiNum⟩
    · exact ⟨item, List.mem_cons_self, hid, rfl⟩
  have hkept : ∀ i ∈ f.index, i ∈ (f.insert item).index := by
    intro i hi
    unfold ForkDatabase.insert
    dsimp only
    split_ifs
    · exact hi
    · exact List.mem_cons_of_mem _ hi
  refine ⟨h.pushed hlink hitems hraised.1 hraised.2, fun hlow ↦ ?_, fun head hhead hle ↦ ?_⟩
  · obtain ⟨i, hi, hiId, hiNum⟩ := hinserted
    unfold raise
    cases hhead : (f.insert item).head with
    | none => exact ⟨item, rfl, hdata, hid, i, hi, hiId⟩
    | some head =>
        have hlower : head.num < item.num := by
          rw [hnum]
          exact hlow head hhead
        simp only [if_pos hlower]
        refine ⟨item, rfl, hdata, hid, i, List.mem_filter.mpr ⟨hi, ?_⟩, hiId⟩
        simp only [decide_eq_true_eq]
        omega
  · have hinsert : (f.insert item).head = some head := hhead
    unfold raise
    simp only [hinsert]
    rw [if_neg (by rw [hnum]; omega)]
    exact ⟨hinsert, hkept⟩

/-- The head item is that of the head block, which the index contains. -/
def Agrees (f : ForkDatabase Tx Res) (o : Objects Tx Res Rest) : Prop :=
  match f.head with
  | none => o.blocks = []
  | some item => item.id = o.head.id ∧ ∃ i ∈ f.index, i.id = item.id

theorem Linked.setMaxSize (h : f.Linked hash) (size : ℕ) : (f.setMaxSize size).Linked hash := by
  refine h.mono (fun i ↦ items_setMaxSize) ?_ ?_
  · unfold ForkDatabase.setMaxSize
    split <;> rfl
  · unfold ForkDatabase.setMaxSize
    split <;> rfl

theorem Agrees.setMaxSize {o : Objects Tx Res Rest} (hlinked : f.Linked hash) (h : f.Agrees o)
    (size : ℕ) : (f.setMaxSize size).Agrees o := by
  unfold Agrees ForkDatabase.setMaxSize at *
  cases hhead : f.head with
  | none =>
      simp only [hhead] at h ⊢
      exact h
  | some item =>
      simp only [hhead] at h ⊢
      obtain ⟨hid, i, hi, hiId⟩ := h
      refine ⟨hid, i, List.mem_filter.mpr ⟨hi, ?_⟩, hiId⟩
      have hitem : item ∈ f.items := by
        unfold items
        rw [hhead]
        exact List.mem_cons_self
      have hnum : (i.data.id hash).num = (item.data.id hash).num := by
        rw [← hlinked.ids i (List.mem_append_right _ hi), ← hlinked.ids item hitem, hiId]
      have hnum' : i.num = item.num := hnum
      simp only [decide_eq_true_eq]
      omega

end ForkDatabase

/-! ## States of a chain -/

namespace Objects

variable {o o' : Objects Tx Res Rest}

/-- The objects one block later. -/
def Extends (code : Code Tx Res Rest) (o o' : Objects Tx Res Rest) : Prop :=
  ∃ b : SignedBlock Tx Res, o.blocks = b :: o'.blocks ∧ b.previous = o'.head.id ∧
    o.head.id = b.id code.blockHash

/-- The number of the head counts the blocks. -/
def Numbered (o : Objects Tx Res Rest) : Prop :=
  o.head.number = o.blocks.length ∧ o.head.id.num = o.head.number

theorem extends_of_applyBlock (h : o.applyBlock code {} b = .ok o') : o'.Extends code o := by
  obtain ⟨hprevious, -, hid, hblocks, -⟩ := applyBlock_records h
  exact ⟨b, hblocks, hprevious, hid⟩

theorem numbered_of_applyBlock (hnumbered : o.Numbered) (h : o.applyBlock code {} b = .ok o') :
    o'.Numbered := by
  obtain ⟨hprevious, hnumber, hid, hblocks, -⟩ := applyBlock_records h
  refine ⟨?_, ?_⟩
  · rw [hnumber, SignedBlock.blockNum, hprevious, hblocks, List.length_cons, hnumbered.2,
      hnumbered.1]
  · rw [hid, hnumber]
    rfl

end Objects

namespace Database

variable {db start : Database Tx Res Rest}

/-- The fork database tracks a chain of states, the last first. -/
structure Tracked (code : Code Tx Res Rest) (f : ForkDatabase Tx Res) (o : Objects Tx Res Rest)
    (states : List (Objects Tx Res Rest)) : Prop where
  linked : f.Linked code.blockHash
  chain : states.IsChain (Objects.Extends code)
  agrees : f.Agrees o

/-- Every state is numbered, and the fork database tracks the committed ones. -/
structure Tracks (code : Code Tx Res Rest) (db : Database Tx Res Rest) : Prop
    extends db.Holds Objects.Numbered where
  tracked : Tracked code db.forkDb db.base db.committed

/-- The calls that leave the head of the fork database at the head block: a pushed block is
refused by the fork database, or it is the next block and applies, or it belongs to another
branch that is not higher; and a pop finds the state below the head. -/
def KeepsHead (code : Code Tx Res Rest) (db : Database Tx Res Rest) : ChainEvent Tx Res → Prop
  | .pushBlock b => (∃ e, db.forkDb.pushBlock (b.id code.blockHash) b = .error e) ∨
      (b.previous = db.base.head.id ∧ ∃ o, db.base.applyBlock code {} b = .ok o) ∨
      b.previous ≠ db.base.head.id ∧ b.blockNum ≤ db.base.head.id.num
  | .popBlock => 2 ≤ db.committed.length
  | .pushTransaction _ => True
  | .generateBlock _ _ _ => False

/-- The head item has the number of the head block. -/
theorem Tracked.head_num {f : ForkDatabase Tx Res} {o : Objects Tx Res Rest}
    {states : List (Objects Tx Res Rest)} (h : Tracked code f o states)
    {item : ForkItem Tx Res} (hitem : f.head = some item) :
    item.id = o.head.id ∧ item.num = o.head.id.num ∧ item ∈ f.items := by
  have hmem : item ∈ f.items := by
    unfold ForkDatabase.items
    rw [hitem]
    exact List.mem_cons_self
  have hagrees := h.agrees
  unfold ForkDatabase.Agrees at hagrees
  simp only [hitem] at hagrees
  have hnum : item.num = (item.data.id code.blockHash).num := rfl
  refine ⟨hagrees.1, ?_, hmem⟩
  rw [hnum, ← h.linked.ids item hmem, hagrees.1]

theorem tracked_of_pushNewBlock (henabled : db.undoDisabled = false)
    (hnumbered : db.objects.Numbered)
    (h : Tracked code db.forkDb db.objects (db.objects :: db.stack))
    (hkeeps : (∃ e, db.forkDb.pushBlock (b.id code.blockHash) b = .error e) ∨
      (b.previous = db.objects.head.id ∧ ∃ o, db.objects.applyBlock code {} b = .ok o) ∨
      b.previous ≠ db.objects.head.id ∧ b.blockNum ≤ db.objects.head.id.num) :
    Tracked code (db.pushNewBlock code {} b).state.forkDb (db.pushNewBlock code {} b).state.objects
      ((db.pushNewBlock code {} b).state.objects :: (db.pushNewBlock code {} b).state.stack) := by
  unfold pushNewBlock
  rw [if_neg (by simp)]
  cases hfork : db.forkDb.pushBlock (b.id code.blockHash) b with
  | error e => exact h
  | ok f =>
      obtain ⟨hlinked, hhigher, hlower⟩ := h.linked.pushBlock hfork
      rcases hkeeps with ⟨e, herror⟩ | ⟨hprevious, o, happly⟩ | ⟨-, hle⟩
      · rw [hfork] at herror
        cases herror
      · have hlow : ∀ head ∈ db.forkDb.head, head.num < b.blockNum := by
          intro head hhead
          rw [(h.head_num hhead).2.1, SignedBlock.blockNum, hprevious]
          exact Nat.lt_succ_self _
        obtain ⟨item, hitem, hdata, hid, i, hi, hiId⟩ := hhigher hlow
        have hbuilds : item.data.previous = db.objects.head.id := by rw [hdata, hprevious]
        simp only [hitem]
        rw [if_pos hbuilds]
        obtain ⟨size, -, hextend⟩ := extendHead_returned
          (show ({ db with forkDb := f } : Database Tx Res Rest).undoDisabled = false from henabled)
          (show ({ db with forkDb := f } : Database Tx Res Rest).objects.applyBlock code {} b = .ok o
            from happly)
        rw [hextend]
        have hagrees : f.Agrees o := by
          unfold ForkDatabase.Agrees
          simp only [hitem]
          exact ⟨hid.trans (Objects.applyBlock_records happly).2.2.1.symm, i, hi,
            hiId.trans hid.symm⟩
        have hbelow : (db.objects :: db.stack.take db.maxSize).IsChain (Objects.Extends code) :=
          List.IsChain.prefix h.chain ((List.prefix_cons_inj _).mpr (List.take_prefix _ _))
        refine ⟨hlinked.setMaxSize size, ?_, hagrees.setMaxSize hlinked size⟩
        exact List.isChain_cons_cons.mpr ⟨Objects.extends_of_applyBlock happly, hbelow⟩
      · cases hhead : db.forkDb.head with
        | none =>
            have hblocks : db.objects.blocks = [] := by
              have hagrees := h.agrees
              unfold ForkDatabase.Agrees at hagrees
              simpa only [hhead] using hagrees
            have hpos : 0 < b.blockNum := Nat.succ_pos _
            rw [hnumbered.2, hnumbered.1, hblocks] at hle
            exact absurd hle hpos.not_ge
        | some head =>
            obtain ⟨hheadId, hheadNum, -⟩ := h.head_num hhead
            obtain ⟨hsame, hkept⟩ := hlower head hhead (by rw [hheadNum]; exact hle)
            have hother : head.data.previous ≠ db.objects.head.id := by
              intro heq
              have hnum : head.num = head.data.previous.num + 1 := rfl
              rw [heq] at hnum
              omega
            have hnot : ¬db.objects.head.number < head.num := by
              rw [hheadNum, hnumbered.2]
              exact lt_irrefl _
            simp only [hsame]
            rw [if_neg hother, if_neg hnot]
            refine ⟨hlinked, h.chain, ?_⟩
            have hagrees := h.agrees
            unfold ForkDatabase.Agrees at hagrees ⊢
            simp only [hhead] at hagrees
            simp only [Outcome.state_returned, hsame]
            obtain ⟨hid, i, hi, hiId⟩ := hagrees
            exact ⟨hid, i, hkept i hi, hiId⟩

theorem Tracked.front {f : ForkDatabase Tx Res} {o : Objects Tx Res Rest}
    {states states' : List (Objects Tx Res Rest)} (h : Tracked code f o states)
    (hfront : states' <+: states) : Tracked code f o states' :=
  ⟨h.linked, List.IsChain.prefix h.chain hfront, h.agrees⟩

theorem tracks_of_pushBlock (h : db.Tracks code) (hkeeps : db.KeepsHead code (.pushBlock b)) :
    (db.pushBlock code {} b).state.Tracks code := by
  have hP : ∀ (o o' : Objects Tx Res Rest) (b : SignedBlock Tx Res), o.Numbered →
      o.applyBlock code {} b = .ok o' → o'.Numbered :=
    fun _ _ _ ↦ Objects.numbered_of_applyBlock
  obtain ⟨hsettled, hobjects⟩ := settled_of_clearPending h.toHolds
  have hmid : (db.clearPending.pushNewBlock code {} b).state.Settled Objects.Numbered [] :=
    settled_of_pushNewBlock hP hsettled
  obtain ⟨stack, hcommitted, hreset⟩ := resetPendingSession_cases h.toReady
  have hclear : db.clearPending =
      { db with objects := db.base, stack, pendingSession := false, pendingTx := [] } := by
    rw [clearPending, hreset]
  have htracked : Tracked code (db.clearPending.pushNewBlock code {} b).state.forkDb
      (db.clearPending.pushNewBlock code {} b).state.objects
      ((db.clearPending.pushNewBlock code {} b).state.objects ::
        (db.clearPending.pushNewBlock code {} b).state.stack) := by
    refine tracked_of_pushNewBlock hsettled.enabled hsettled.objects ?_ ?_
    · rw [hclear]
      have hdb := h.tracked
      rw [hcommitted] at hdb
      exact hdb
    · rw [hclear]
      exact hkeeps
  obtain ⟨hbase, hfront, -, -, hforkDb⟩ := sameChain_of_restorePending code {} hmid db.pendingTx
  refine ⟨holds_of_pushBlock hP h.toHolds b, ?_⟩
  rw [state_pushBlock, hbase, hforkDb]
  rw [committed_of_noSession hmid.noSession] at hfront
  exact htracked.front hfront

/-- A pop moves the head of the fork database to the predecessor, on which the state below was
built. -/
theorem tracks_of_popBlock
    (hhash : ∀ b b' : SignedBlock Tx Res, b.id code.blockHash = b'.id code.blockHash →
      b.previous = b'.previous)
    (h : db.Tracks code) (hbelow : 2 ≤ db.committed.length) :
    (db.popBlock code).state.Tracks code := by
  refine ⟨holds_of_popBlock h.toHolds, ?_⟩
  obtain ⟨stack, hcommitted, hreset⟩ := resetPendingSession_cases h.toReady
  have htracked := h.tracked
  rw [hcommitted] at htracked hbelow
  obtain ⟨o, below, rfl⟩ := List.exists_cons_of_length_pos (Nat.lt_of_succ_lt_succ hbelow)
  unfold popBlock
  simp only [hreset]
  split
  case h_1 => exact htracked
  case h_2 b' hfetch =>
    cases hpop : db.forkDb.popBlock with
    | error e => exact htracked
    | ok f =>
        obtain ⟨head, prev, hhead, hprev, hprevId, rfl⟩ := htracked.linked.popBlock hpop
        obtain ⟨hheadId, -, hheadMem⟩ := htracked.head_num hhead
        obtain ⟨⟨b₁, hblocks, hprevious, hid⟩, hchain⟩ := List.isChain_cons_cons.mp htracked.chain
        have hsame : head.previousId = o.head.id := by
          rw [← hprevious]
          refine hhash _ _ ?_
          rw [← htracked.linked.ids head hheadMem, hheadId, hid]
        have hmem : ∀ i ∈ ForkDatabase.items { db.forkDb with head := some prev },
            i ∈ db.forkDb.items := by
          intro i hi
          rcases List.mem_append.mp hi with htop | hindex
          · rw [List.mem_singleton.mp htop]
            exact hprev
          · exact List.mem_append_right _ hindex
        have hknown : ∃ i ∈ db.forkDb.index, i.id = prev.id := by
          rcases List.mem_append.mp hprev with htop | hindex
          · have hagrees := htracked.agrees
            unfold ForkDatabase.Agrees at hagrees
            simp only [hhead] at hagrees htop
            rw [List.mem_singleton.mp htop]
            exact hagrees.2
          · exact ⟨prev, hindex, rfl⟩
        exact ⟨htracked.linked.mono hmem rfl rfl, hchain, hprevId.trans hsame, hknown⟩

theorem tracks_of_step
    (hhash : ∀ b b' : SignedBlock Tx Res, b.id code.blockHash = b'.id code.blockHash →
      b.previous = b'.previous)
    (h : db.Tracks code) {event : ChainEvent Tx Res} (hkeeps : db.KeepsHead code event) :
    (db.step code event).Tracks code := by
  cases event with
  | pushBlock b => exact tracks_of_pushBlock h hkeeps
  | popBlock => exact tracks_of_popBlock hhash h hkeeps
  | pushTransaction trx =>
      obtain ⟨db', hstate, hsame, -, hstack, -⟩ :=
        pushTransaction_cases code {} h.toReady trx
      refine ⟨holds_of_pushTransaction h.toHolds trx, ?_⟩
      change Tracked code (db.pushTransaction code {} trx).state.forkDb _ _
      rw [step, hstate, hsame.forkDb, hsame.base]
      exact h.tracked.front hsame.committed
  | generateBlock time witness key => exact hkeeps.elim

/-- In every run of such calls the head item of the fork database is the head block, and the
index contains it. -/
theorem forkHead_agrees
    (hhash : ∀ b b' : SignedBlock Tx Res, b.id code.blockHash = b'.id code.blockHash →
      b.previous = b'.previous)
    (hstart : start.Genesis) (hnumber : start.objects.head.number = 0)
    (hid : start.objects.head.id = .null) (hfork : start.forkDb.head = none)
    (hindex : start.forkDb.index = []) (hheld : start.forkDb.held = [])
    (hdb : Run.Reaches (step code) (KeepsHead code) start db) : db.forkDb.Agrees db.base := by
  have hnumbered : start.objects.Numbered := by
    refine ⟨?_, ?_⟩
    · rw [hnumber, hstart.blocks]
      rfl
    · rw [hid, hnumber]
      rfl
  have hitems : start.forkDb.items = [] := by
    unfold ForkDatabase.items
    rw [hfork, hindex]
    rfl
  have hbase : start.base = start.objects := base_of_noSession hstart.noSession
  have htracked : Tracked code start.forkDb start.base start.committed := by
    refine ⟨⟨hheld, ?_, ?_, ?_, ?_⟩, ?_, ?_⟩
    · simp [hitems]
    · simp [hitems]
    · simp [hitems]
    · simp [hitems]
    · rw [committed_of_noSession hstart.noSession, hstart.stack]
      exact List.isChain_singleton _
    · unfold ForkDatabase.Agrees
      rw [hfork, hbase]
      exact hstart.blocks
  have hfirst : start.Tracks code := ⟨holds_of_genesis hstart hnumbered, htracked⟩
  exact (hdb.invariant (Tracks code) hfirst fun _ _ h hkeeps ↦
    tracks_of_step hhash h hkeeps).tracked.agrees

end Database

/-! ## An invalid block -/

/-- The id of a block is made of all of its header. -/
def pairedCode : Code ℕ ℕ ℕ := { countingCode with
  blockHash := fun b ↦ Nat.pair b.previous.hash (Nat.pair b.timestamp b.transactionMerkleRoot) }

theorem previous_of_pairedCode_id (b b' : SignedBlock ℕ ℕ)
    (h : b.id pairedCode.blockHash = b'.id pairedCode.blockHash) : b.previous = b'.previous := by
  obtain ⟨hnum, hhash⟩ := BlockId.mk.injEq .. ▸ h
  have hprevious := (Nat.pair_eq_pair.mp hhash).1
  have hnumber : b.previous.num = b'.previous.num := Nat.succ_injective hnum
  cases b with
  | mk previous =>
      cases b' with
      | mk previous' =>
          cases previous
          cases previous'
          exact BlockId.mk.injEq .. ▸ ⟨hnumber, hprevious⟩

/-- A first block with a wrong merkle root. -/
def invalidBlock : SignedBlock ℕ ℕ := ⟨.null, 5, 0, 4, 7, [⟨3, 0⟩]⟩

/-- The block that did not apply is removed, but is the head of the fork database. -/
theorem forkHead_invalid : ∃ e db', freshDatabase.pushBlock pairedCode {} invalidBlock =
      .threw e db' ∧ db'.base.blocks = [] ∧ db'.forkDb.index = [] ∧
      db'.forkDb.head.map (·.id) = some (invalidBlock.id pairedCode.blockHash) ∧
      ¬db'.forkDb.Agrees db'.base := by
  refine ⟨_, _, rfl, rfl, rfl, rfl, ?_⟩
  rintro ⟨hid, -⟩
  exact absurd hid (by decide)

/-- The block after the first one. -/
def nextBlock : SignedBlock ℕ ℕ := ⟨firstBlock.id pairedCode.blockHash, 10, 0, 4, 7, [⟨4, 1⟩]⟩

def firstDatabase : Database ℕ ℕ ℕ := freshDatabase.step pairedCode (.pushBlock firstBlock)

def nextDatabase : Database ℕ ℕ ℕ := firstDatabase.step pairedCode (.pushBlock nextBlock)

/-- Two blocks are pushed and one is popped. -/
theorem forkHead_agrees_popped :
    (nextDatabase.step pairedCode .popBlock).forkDb.head.map (·.id) =
      some (firstBlock.id pairedCode.blockHash) ∧
    (nextDatabase.step pairedCode .popBlock).forkDb.Agrees
      (nextDatabase.step pairedCode .popBlock).base := by
  have hfirst : freshDatabase.KeepsHead pairedCode (.pushBlock firstBlock) :=
    .inr (.inl ⟨rfl, _, rfl⟩)
  have hnext : firstDatabase.KeepsHead pairedCode (.pushBlock nextBlock) :=
    .inr (.inl ⟨by decide, _, rfl⟩)
  have hpop : nextDatabase.KeepsHead pairedCode .popBlock :=
    (by decide : 2 ≤ nextDatabase.committed.length)
  have hrun₁ : Run.Reaches (Database.step pairedCode) (Database.KeepsHead pairedCode) freshDatabase
      firstDatabase := .next (ChainEvent.pushBlock firstBlock) .refl hfirst
  have hrun₂ : Run.Reaches (Database.step pairedCode) (Database.KeepsHead pairedCode) freshDatabase
      nextDatabase := .next (ChainEvent.pushBlock nextBlock) hrun₁ hnext
  exact ⟨by decide, Database.forkHead_agrees previous_of_pairedCode_id genesis_freshDatabase rfl rfl
    rfl rfl rfl (.next ChainEvent.popBlock hrun₂ hpop)⟩

end KarmaCore.Chain
