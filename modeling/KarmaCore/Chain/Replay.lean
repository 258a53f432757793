import Mathlib
import KarmaCore.Chain.Reindex

/-!
# What a replay restores

The blocks of the main chain apply again, and all objects are restored but the
recorded transactions, of which there are none after a replay.
-/

namespace KarmaCore.Chain

variable {Tx Res Rest : Type} {code : Code Tx Res Rest} {b : SignedBlock Tx Res}
  {skip : SkipFlags}

/-! ## What blocks record -/

namespace Objects

variable {o o' start : Objects Tx Res Rest}

theorem applyTransaction_records {trx : Tx} {ptx : ProcessedTransaction Tx Res}
    (h : o.applyTransaction code skip trx = .ok (ptx, o')) :
    o'.head = o.head ∧ o'.blocks = o.blocks ∧
      (skip.transactionDupeCheck = true → o'.transactions = o.transactions) ∧
      (skip.transactionDupeCheck = false →
        o'.transactions.nextId = o.transactions.nextId + 1) := by
  simp only [applyTransaction, Checked.bind_eq_ok, Checked.pure_eq_ok] at h
  obtain ⟨u, -, ⟨res, rest⟩, -, heq⟩ := h
  obtain ⟨-, rfl⟩ := Prod.mk.inj heq
  unfold recordTransaction
  split_ifs with hdupe
  · exact ⟨rfl, rfl, fun _ ↦ rfl, fun hfalse ↦ absurd (hdupe.symm.trans hfalse) (by simp)⟩
  · exact ⟨rfl, rfl, fun htrue ↦ absurd htrue hdupe, fun _ ↦ rfl⟩

theorem applyTransactions_records {ptxs : List (ProcessedTransaction Tx Res)}
    (h : applyTransactions code skip ptxs o = .ok o') :
    o'.head = o.head ∧ o'.blocks = o.blocks ∧
      (skip.transactionDupeCheck = true → o'.transactions = o.transactions) ∧
      (skip.transactionDupeCheck = false →
        o'.transactions.nextId = o.transactions.nextId + ptxs.length) := by
  induction ptxs generalizing o with
  | nil =>
      cases h
      exact ⟨rfl, rfl, fun _ ↦ rfl, fun _ ↦ rfl⟩
  | cons ptx ptxs ih =>
      simp only [applyTransactions, Checked.bind_eq_ok] at h
      obtain ⟨⟨ptx', o₁⟩, hfirst, hrest⟩ := h
      obtain ⟨hhead, hblocks, hsame, hcount⟩ := applyTransaction_records hfirst
      obtain ⟨hhead', hblocks', hsame', hcount'⟩ := ih hrest
      refine ⟨hhead'.trans hhead, hblocks'.trans hblocks, fun hdupe ↦ ?_, fun hdupe ↦ ?_⟩
      · rw [hsame' hdupe, hsame hdupe]
      · rw [hcount' hdupe, hcount hdupe, List.length_cons]
        omega

/-- Whether the transactions of a block are recorded. -/
def Records (code : Code Tx Res Rest) (b : SignedBlock Tx Res) : Prop :=
  code.skipFor b {} = .ok {} ∧ b.transactions ≠ []

/-- A block counts the transactions it records. -/
theorem applyBlock_records (h : o.applyBlock code {} b = .ok o') :
    b.previous = o.head.id ∧ o'.head.number = b.blockNum ∧ o'.head.id = b.id code.blockHash ∧
      o'.blocks = b :: o.blocks ∧ o.transactions.nextId ≤ o'.transactions.nextId ∧
      (Records code b → o.transactions.nextId < o'.transactions.nextId) ∧
      (¬Records code b → o.transactions.objects = [] → o'.transactions = o.transactions) := by
  simp only [applyBlock, applyBody, validateBlockHeader, advanceHead, finish, Checked.bind_eq_ok,
    require_eq_ok, Checked.pure_eq_ok] at h
  obtain ⟨skip, hskip, body, ⟨-, -, -, ⟨-, hprevious, -⟩, hbody⟩, advanced, ⟨rest, -, -, -, rfl⟩,
    rest', -, rfl⟩ := h
  obtain ⟨-, hblocks, hsame, hcount⟩ := applyTransactions_records hbody
  have hnext : ∀ o : Objects Tx Res Rest,
      (o.clearExpiredTransactions code).transactions.nextId = o.transactions.nextId :=
    fun o ↦ nextId_foldl_remove _ _
  have hclear : ∀ o : Objects Tx Res Rest, o.transactions.objects = [] →
      (o.clearExpiredTransactions code).transactions = o.transactions := by
    intro o hnone
    simp [clearExpiredTransactions, expiredTransactions, hnone]
  rcases Code.skipFor_cases hskip with ⟨rfl, -⟩ | ⟨rfl, hall⟩
  · refine ⟨hprevious.symm, rfl, rfl, by rw [← hblocks]; rfl, ?_, fun hrecords ↦ ?_,
      fun hquiet hnone ↦ ?_⟩
    · simp only [hnext, hcount rfl]
      exact Nat.le_add_right _ _
    · have hpos := List.length_pos_of_ne_nil hrecords.2
      simp only [hnext, hcount rfl]
      omega
    · have hempty : b.transactions = [] := by_contra fun hne ↦ hquiet ⟨hskip, hne⟩
      rw [hempty] at hbody
      cases hbody
      exact hclear _ hnone
  · refine ⟨hprevious.symm, rfl, rfl, by rw [← hblocks]; rfl, ?_, fun hrecords ↦ ?_,
      fun hquiet hnone ↦ ?_⟩
    · simp only [hnext, hsame rfl]
      exact le_rfl
    · have hflags := (hall {}).symm.trans hrecords.1
      cases hflags
    · rw [← hsame rfl] at hnone ⊢
      exact hclear _ hnone

/-! ## The main chain -/

/-- The blocks of a chain, the lowest first. -/
def applyBlocks (code : Code Tx Res Rest) (skip : SkipFlags) :
    List (SignedBlock Tx Res) → Objects Tx Res Rest → Checked (Objects Tx Res Rest)
  | [], o => .ok o
  | b :: bs, o => do applyBlocks code skip bs (← o.applyBlock code skip b)

theorem applyBlocks_concat {bs : List (SignedBlock Tx Res)} {mid : Objects Tx Res Rest}
    (h : applyBlocks code skip bs o = .ok mid) (hlast : mid.applyBlock code skip b = .ok o') :
    applyBlocks code skip (bs ++ [b]) o = .ok o' := by
  induction bs generalizing o with
  | nil =>
      cases h
      rw [List.nil_append, applyBlocks, hlast]
      rfl
  | cons b' bs ih =>
      simp only [applyBlocks, List.cons_append, Checked.bind_eq_ok] at h ⊢
      obtain ⟨o₁, hfirst, hrest⟩ := h
      exact ⟨o₁, hfirst, ih hrest⟩

/-- The objects are the result of their blocks, whose numbers count up from one. -/
structure Replays (code : Code Tx Res Rest) (start o : Objects Tx Res Rest) : Prop where
  blocks : applyBlocks code {} o.blocks.reverse start = .ok o
  number : o.head.number = o.blocks.length
  newest : ∀ b ∈ o.blocks.head?, b.blockNum = o.blocks.length
  id : o.head.id.num = o.head.number
  grows : start.transactions.nextId ≤ o.transactions.nextId
  counted : (∃ b ∈ o.blocks, Records code b) → start.transactions.nextId < o.transactions.nextId
  quiet : (∀ b ∈ o.blocks, ¬Records code b) → o.transactions = start.transactions

theorem replays_of_applyBlock (hnone : start.transactions.objects = [])
    (hreplays : Replays code start o) (h : o.applyBlock code {} b = .ok o') :
    Replays code start o' := by
  obtain ⟨hprevious, hnumber, hid, hblocks, hle, hlt, hsame⟩ := applyBlock_records h
  have hlength : b.blockNum = o'.blocks.length := by
    rw [SignedBlock.blockNum, hprevious, hreplays.id, hreplays.number, hblocks, List.length_cons]
  refine ⟨?_, hnumber.trans hlength, fun b' hb' ↦ ?_, ?_, hreplays.grows.trans hle, ?_, ?_⟩
  · rw [hblocks, List.reverse_cons]
    exact applyBlocks_concat hreplays.blocks h
  · rw [hblocks] at hb'
    cases hb'
    exact hlength
  · rw [hid, hnumber]
    rfl
  · rintro ⟨b', hb', hrecords⟩
    rw [hblocks] at hb'
    rcases List.mem_cons.mp hb' with rfl | hold
    · exact hreplays.grows.trans_lt (hlt hrecords)
    · exact (hreplays.counted ⟨b', hold, hrecords⟩).trans_le hle
  · intro hquiet
    rw [hblocks, List.forall_mem_cons] at hquiet
    have hold := hreplays.quiet hquiet.2
    rw [hsame hquiet.1 (by rw [hold, hnone]), hold]

end Objects

/-! ## The fork database of a replay -/

namespace ForkDatabase

variable {f : ForkDatabase Tx Res}

/-- The ids in the index begin with the numbers of their blocks, and what is there is not higher
than the head block. -/
structure Follows (f : ForkDatabase Tx Res) (id : BlockId) : Prop where
  size : 0 < f.maxSize
  ids : ∀ item ∈ f.index, item.num = item.id.num
  head : ∀ item ∈ f.head, item.num ≤ id.num
  known : f.head.isSome → ∃ item ∈ f.index, item.id = id

theorem Follows.setMaxSize {id : BlockId} {size : ℕ} (h : f.Follows id) (hsize : 0 < size) :
    (f.setMaxSize size).Follows id := by
  unfold ForkDatabase.setMaxSize
  split
  case h_1 hnone =>
    exact ⟨hsize, h.ids, h.head, h.known⟩
  case h_2 top htop =>
    refine ⟨hsize, fun item hitem ↦ h.ids item (List.mem_of_mem_filter hitem), h.head, fun hsome ↦ ?_⟩
    obtain ⟨item, hitem, hid⟩ := h.known hsome
    have hle := h.head top htop
    have hnum := h.ids item hitem
    rw [hid] at hnum
    exact ⟨item, List.mem_filter.mpr ⟨hitem, by simp only [decide_eq_true_eq]; omega⟩, hid⟩

/-- The next block becomes the head. -/
theorem Follows.pushBlock (hash : SignedBlock Tx Res → ℕ) (h : f.Follows b.previous) :
    ∃ f' item, f.pushBlock (b.id hash) b = .ok f' ∧ f'.head = some item ∧ item.data = b ∧
      f'.Follows (b.id hash) := by
  have hnew : ∀ head ∈ f.head, head.num - f.maxSize < b.blockNum := by
    intro head hhead
    have hle := h.head head hhead
    rw [SignedBlock.blockNum]
    omega
  obtain ⟨item, hlink, hdata, hid⟩ : ∃ item, f.link (b.id hash) b = .ok item ∧ item.data = b ∧
      item.id = b.id hash := by
    unfold ForkDatabase.link
    split_ifs with hlinked
    · obtain ⟨prev, hprev, hprevId⟩ := h.known hlinked.1
      have hfound : (f.fetchBlock b.previous).isSome :=
        List.find?_isSome.mpr ⟨prev, hprev, by simpa using hprevId⟩
      obtain ⟨found, hfound⟩ := Option.isSome_iff_exists.mp hfound
      rw [hfound]
      exact ⟨_, rfl, rfl, rfl⟩
    · exact ⟨_, rfl, rfl, rfl⟩
  have hnum : item.num = b.blockNum := by rw [ForkItem.num, hdata]
  -- the index of the inserted item, where a block of its id was there before or is now
  have hinsert : (∀ i ∈ (f.insert item).index, i.num = i.id.num) ∧
      ∃ i ∈ (f.insert item).index, i.id = b.id hash := by
    unfold ForkDatabase.insert
    dsimp only
    split_ifs with hthere
    · obtain ⟨i, hi, hfound⟩ := List.find?_isSome.mp hthere
      exact ⟨h.ids, i, hi, by rw [← hid]; simpa using hfound⟩
    · refine ⟨List.forall_mem_cons.mpr ⟨?_, h.ids⟩, item, List.mem_cons_self, hid⟩
      rw [hnum, hid]
      rfl
  have hkeep : ∀ i : ForkItem Tx Res, i.id = b.id hash → i.num = i.id.num → i.num = item.num := by
    intro i hi hiNum
    rw [hiNum, hi, hnum]
    rfl
  have hpush : f.pushBlock (b.id hash) b = .ok ((f.insert item).raise item) := by
    simp only [ForkDatabase.pushBlock, Checked.bind_eq_ok, require_eq_ok]
    exact ⟨(), hnew, item, hlink, rfl⟩
  obtain ⟨hids, i, hi, hiId⟩ := hinsert
  refine ⟨_, item, hpush, ?_⟩
  unfold ForkDatabase.raise
  cases hhead : (f.insert item).head with
  | none =>
      refine ⟨rfl, hdata, h.size, hids, fun top htop ↦ ?_, fun _ ↦ ⟨i, hi, hiId⟩⟩
      cases htop
      exact hnum.le
  | some head =>
      have hlower : head.num < item.num := by
        have hle := h.head head hhead
        rw [hnum, SignedBlock.blockNum]
        omega
      simp only [if_pos hlower]
      refine ⟨trivial, hdata, h.size, fun j hj ↦ hids j (List.mem_of_mem_filter hj), fun top htop ↦ ?_,
        fun _ ↦ ⟨i, List.mem_filter.mpr ⟨hi, ?_⟩, hiId⟩⟩
      · cases htop
        exact hnum.le
      · have hsame := hkeep i hiId (hids i hi)
        simp only [decide_eq_true_eq]
        omega

end ForkDatabase

namespace BlockDatabase

variable {log : BlockDatabase Tx Res} {hash : SignedBlock Tx Res → ℕ}

/-- A block is stored under its own number only. -/
theorem fetchByNumber_store {n : ℕ} (hn : n ≠ b.blockNum) :
    (log.store hash (b.id hash) b).fetchByNumber hash n = log.fetchByNumber hash n := by
  unfold fetchByNumber store
  dsimp only
  rw [ite_self, Function.update_of_ne]
  exact hn

theorem lastUpTo_of_last {n : ℕ} (h : log.fetchByNumber hash n = some b) :
    log.lastUpTo hash n = some b := by
  cases n with
  | zero => exact h
  | succ n => rw [lastUpTo, h, Option.some_or]

end BlockDatabase

/-! ## The steps of a replay -/

namespace Database

variable {db start : Database Tx Res Rest} {o : Objects Tx Res Rest}

/-- A block that applies is applied, and the sizes are set. -/
theorem applyBlock_returned (h : db.objects.applyBlock code skip b = .ok o) :
    ∃ size, 0 < size ∧ db.applyBlock code skip b = .returned
      { db with objects := o, maxSize := size, forkDb := db.forkDb.setMaxSize size } := by
  simp only [Objects.applyBlock, Checked.bind_eq_ok] at h
  obtain ⟨flags, hskip, body, hbody, advanced, hadvanced, hfinish⟩ := h
  refine ⟨advanced.historySize code, Nat.succ_pos _, ?_⟩
  simp [applyBlock, hskip, hbody, hadvanced, hfinish, bind, Except.bind, pure, Except.pure,
    setHistorySize]

/-- A block that applies extends the head, in a session that is kept. -/
theorem extendHead_returned (henabled : db.undoDisabled = false)
    (h : db.objects.applyBlock code skip b = .ok o) :
    ∃ size, 0 < size ∧ db.extendHead code skip b = .returned { db with
      objects := o, stack := db.objects :: db.stack.take db.maxSize, maxSize := size,
      forkDb := db.forkDb.setMaxSize size,
      blockLog := db.blockLog.store code.blockHash (b.id code.blockHash) b } := by
  have hstart : db.startUndoSession =
      { db with stack := db.objects :: db.stack.take db.maxSize } := by
    simp [startUndoSession, henabled]
  obtain ⟨size, hsize, hreturned⟩ := applyBlock_returned
    (show ({ db with stack := db.objects :: db.stack.take db.maxSize } :
      Database Tx Res Rest).objects.applyBlock code skip b = .ok o from h)
  refine ⟨size, hsize, ?_⟩
  unfold extendHead applyInSession
  rw [hstart, hreturned]

/-- Between two blocks of a replay. -/
structure Replaying (db : Database Tx Res Rest) : Prop where
  maxSize : 1 ≤ db.maxSize
  noSession : db.pendingSession = false
  pendingTx : db.pendingTx = []
  poppedTx : db.poppedTx = []
  forkDb : db.forkDb.Follows db.objects.head.id

theorem Replaying.clearPending (h : db.Replaying) : db.clearPending = db := by
  rw [clearPending_of_noSession h.noSession, ← h.pendingTx]

/-- The next block is pushed onto the head. -/
theorem Replaying.pushBlock (h : db.Replaying) (henabled : db.undoDisabled = false)
    (hskip : skip.forkDb = false) (hprevious : b.previous = db.objects.head.id)
    (happly : db.objects.applyBlock code skip b = .ok o) (hid : o.head.id = b.id code.blockHash) :
    ∃ db', db.pushBlock code skip b = .returned db' ∧ db'.objects = o ∧ db'.Replaying ∧
      db'.blockLog = db.blockLog.store code.blockHash (b.id code.blockHash) b := by
  obtain ⟨forkDb, item, hfork, hitem, hdata, hfollows⟩ :=
    ForkDatabase.Follows.pushBlock code.blockHash (hprevious ▸ h.forkDb)
  have hbuilds : item.data.previous = db.objects.head.id := by rw [hdata, hprevious]
  have hnew : db.pushNewBlock code skip b = extendHead code { db with forkDb } skip b := by
    unfold pushNewBlock
    rw [if_neg (by simp [hskip])]
    simp only [hfork, hitem]
    rw [if_pos hbuilds]
  obtain ⟨size, hsize, hextend⟩ := extendHead_returned
    (show ({ db with forkDb } : Database Tx Res Rest).undoDisabled = false from henabled)
    (show ({ db with forkDb } : Database Tx Res Rest).objects.applyBlock code skip b = .ok o
      from happly)
  refine ⟨{ db with
    objects := o, stack := db.objects :: db.stack.take db.maxSize, maxSize := size,
    forkDb := forkDb.setMaxSize size,
    blockLog := db.blockLog.store code.blockHash (b.id code.blockHash) b
    poppedTx := [], poppedBlocks := [] }, ?_, rfl,
    ⟨hsize, h.noSession, h.pendingTx, rfl, hid ▸ hfollows.setMaxSize hsize⟩, rfl⟩
  unfold Database.pushBlock withoutPendingTransactions
  rw [h.clearPending]
  beta_reduce
  rw [hnew, hextend]
  simp [Outcome.map, restorePending, h.pendingTx, h.poppedTx]

/-- The same without sessions, while the fork database is empty. -/
theorem Replaying.applyBlock (h : db.Replaying) (hfork : db.forkDb.head = none)
    (happly : db.objects.applyBlock code skip b = .ok o) :
    ∃ db', db.applyBlock code skip b = .returned db' ∧ db'.objects = o ∧ db'.Replaying ∧
      db'.forkDb.head = none ∧ db'.blockLog = db.blockLog := by
  obtain ⟨size, hsize, hreturned⟩ := applyBlock_returned happly
  have hset : db.forkDb.setMaxSize size = { db.forkDb with maxSize := size } := by
    simp only [ForkDatabase.setMaxSize, hfork]
  rw [hset] at hreturned
  refine ⟨_, hreturned, rfl, ⟨hsize, h.noSession, h.pendingTx, h.poppedTx, hsize, h.forkDb.ids,
    ?_, ?_⟩, hfork, rfl⟩
  · simp [hfork]
  · simp [hfork]

/-- The replay of blocks that were applied without skipping a check. -/
theorem replay_returned (hcode : code.Replayable)
    {transactions : ObjectIndex (TransactionObject Tx)} (hnone : transactions.objects = [])
    {undoPoint i : ℕ} {bs : List (SignedBlock Tx Res)} {o' : Objects Tx Res Rest}
    (hlive : Objects.applyBlocks code {} bs o = .ok o')
    (hobjects : db.objects = o.withTransactions transactions) (h : db.Replaying)
    (hfork : i < undoPoint → db.forkDb.head = none) (hnumber : o.head.id.num = o.head.number)
    (hi : i = o.head.number + 1)
    (hlog : ∀ k (hk : k < bs.length), db.blockLog.fetchByNumber code.blockHash (i + k) =
      some bs[k]) :
    ∃ db', replay code undoPoint bs.length i db = .returned db' ∧
      db'.objects = o'.withTransactions transactions := by
  induction bs generalizing o db i with
  | nil =>
      cases hlive
      exact ⟨db, rfl, hobjects⟩
  | cons b bs ih =>
      simp only [Objects.applyBlocks, Checked.bind_eq_ok] at hlive
      obtain ⟨o₁, hfirst, hrest⟩ := hlive
      obtain ⟨hprevious, hnumber₁, hid₁, -⟩ := Objects.applyBlock_records hfirst
      have hblock : db.blockLog.fetchByNumber code.blockHash i = some b :=
        hlog 0 (Nat.succ_pos _)
      have happly : db.objects.applyBlock code .reindex b =
          .ok (o₁.withTransactions transactions) := by
        rw [hobjects]
        exact Objects.applyBlock_reindex hcode hnone hfirst
      have hhead : b.previous = db.objects.head.id := by rw [hobjects, hprevious]; rfl
      have hnum : b.blockNum = i := by rw [SignedBlock.blockNum, hprevious, hnumber, hi]
      have hnumber' : o₁.head.id.num = o₁.head.number := by rw [hid₁, hnumber₁]; rfl
      have hi' : i + 1 = o₁.head.number + 1 := by rw [hnumber₁, hnum]
      unfold replay
      simp only [List.length_cons, hblock]
      split_ifs with hbelow
      · obtain ⟨db₁, hreturned, hobjects₁, h₁, hfork₁, hlog₁⟩ :=
          h.applyBlock (hfork hbelow) happly
        rw [hreturned, Outcome.returned_andThen]
        refine ih hrest hobjects₁ h₁ (fun _ ↦ hfork₁) hnumber' hi' fun k hk ↦ ?_
        rw [hlog₁, Nat.add_assoc, Nat.add_comm 1]
        exact hlog (k + 1) (Nat.succ_lt_succ hk)
      · obtain ⟨db₁, hreturned, hobjects₁, h₁, hlog₁⟩ := Replaying.pushBlock
          (show Replaying { db with undoDisabled := false } from
            ⟨h.maxSize, h.noSession, h.pendingTx, h.poppedTx, h.forkDb⟩) rfl rfl hhead happly hid₁
        rw [hreturned, Outcome.returned_andThen]
        refine ih hrest hobjects₁ h₁ (fun hlt ↦ absurd hlt (by omega)) hnumber' hi' fun k hk ↦ ?_
        rw [hlog₁, BlockDatabase.fetchByNumber_store (by omega), Nat.add_assoc, Nat.add_comm 1]
        exact hlog (k + 1) (Nat.succ_lt_succ hk)

/-! ## A node that starts again -/

/-- The block log holds the main chain and nothing else. -/
structure LogHolds (code : Code Tx Res Rest) (db : Database Tx Res Rest) : Prop where
  last : db.blockLog.last = db.base.blocks.length
  zero : db.blockLog.fetchByNumber code.blockHash 0 = none
  blocks : ∀ n, db.blockLog.fetchByNumber code.blockHash (n + 1) = db.base.blocks.reverse[n]?

/-- The node that was started with `start`, without its objects but with its block log. -/
def restarted (start db : Database Tx Res Rest) : Database Tx Res Rest where
  objects := start.objects
  blockLog := db.blockLog

theorem lastBlock_of_logHolds (h : db.LogHolds code) :
    db.blockLog.lastBlock code.blockHash = db.base.blocks.head? := by
  unfold BlockDatabase.lastBlock
  rw [h.last]
  cases hblocks : db.base.blocks with
  | nil => exact h.zero
  | cons b bs =>
      apply BlockDatabase.lastUpTo_of_last
      rw [List.length_cons, h.blocks, hblocks, List.reverse_cons,
        List.getElem?_append_right (by simp)]
      simp

theorem reindex_returned (hcode : code.Replayable) (hlog : db.LogHolds code)
    (hnumber : start.objects.head.number = 0) (hid : start.objects.head.id = .null)
    (hnone : start.objects.transactions.objects = [])
    (hreplays : Objects.Replays code start.objects db.base) :
    ∃ db', (restarted start db).reindex code = .returned db' ∧
      db'.objects = db.base.withTransactions start.objects.transactions := by
  have hlast := lastBlock_of_logHolds hlog
  have hblocks := hreplays.blocks
  unfold reindex
  rw [show (restarted start db).blockLog = db.blockLog from rfl, hlast]
  cases hchain : db.base.blocks with
  | nil =>
      rw [hchain] at hblocks
      refine ⟨restarted start db, rfl, ?_⟩
      rw [← Except.ok.inj hblocks]
      rfl
  | cons b bs =>
      have hcount : b.blockNum = db.base.blocks.reverse.length := by
        rw [List.length_reverse]
        exact hreplays.newest b (by rw [hchain]; rfl)
      have hhead : (restarted start db).objects.head.number = 0 := hnumber
      have hpos : 0 < b.blockNum := Nat.succ_pos _
      dsimp only [List.head?_cons]
      rw [if_neg (by omega)]
      obtain ⟨fresh, hfresh, hobjects, hreplaying, hfork, hfreshLog⟩ : ∃ fresh,
          (restarted start db).startReplay code (b.blockNum - 50) = .returned fresh ∧
            fresh.objects = start.objects ∧ fresh.Replaying ∧ fresh.forkDb.head = none ∧
            fresh.blockLog = db.blockLog := by
        have hfollows : ForkDatabase.Follows ({} : ForkDatabase Tx Res) start.objects.head.id :=
          ⟨Nat.succ_pos 1023, by simp, by simp, by simp⟩
        unfold startReplay
        rw [hhead]
        split_ifs with hpushed hsome
        · exact absurd hsome (lt_irrefl 0)
        · exact ⟨restarted start db, rfl, rfl, ⟨Nat.succ_pos 255, rfl, rfl, rfl, hfollows⟩, rfl,
            rfl⟩
        · exact ⟨{ restarted start db with undoDisabled := true }, rfl, rfl,
            ⟨Nat.succ_pos 255, rfl, rfl, rfl, hfollows⟩, rfl, rfl⟩
      have hstored : ∀ k (hk : k < db.base.blocks.reverse.length),
          fresh.blockLog.fetchByNumber code.blockHash (0 + 1 + k) =
            some db.base.blocks.reverse[k] := by
        intro k hk
        rw [hfreshLog, Nat.zero_add, Nat.add_comm, hlog.blocks, List.getElem?_eq_getElem hk]
      obtain ⟨db', hreplay, hdb'⟩ : ∃ db', replay code (b.blockNum - 50)
          db.base.blocks.reverse.length (0 + 1) fresh = .returned db' ∧
            db'.objects = db.base.withTransactions start.objects.transactions :=
        replay_returned hcode hnone hblocks
          (show fresh.objects = start.objects.withTransactions start.objects.transactions
            from hobjects) hreplaying (fun _ ↦ hfork) (by rw [hid, hnumber]; rfl)
          (show 0 + 1 = start.objects.head.number + 1 by rw [hnumber]) hstored
      rw [← hcount] at hreplay
      refine ⟨{ db' with undoDisabled := false }, ?_, hdb'⟩
      rw [hfresh, hhead, Nat.sub_zero, Outcome.returned_andThen, hreplay,
        Outcome.returned_andThen]

/-- The replay of the block log of a run restores all objects but the recorded transactions. It
restores the objects exactly when no block of the main chain that was applied without skipping
a check has a transaction. -/
theorem reindex_restores_iff (hcode : code.Replayable) (hstart : start.Genesis)
    (hnumber : start.objects.head.number = 0) (hid : start.objects.head.id = .null)
    (hdb : Run.Reaches (step code) (fun _ _ ↦ True) start db) (hlog : db.LogHolds code) :
    ∃ db', (restarted start db).reindex code = .returned db' ∧
      db'.objects = db.base.withTransactions start.objects.transactions ∧
      (db'.objects = db.base ↔ ∀ b ∈ db.base.blocks, ¬Objects.Records code b) := by
  have hfirst : Objects.Replays code start.objects start.objects := by
    refine ⟨?_, ?_, ?_, by rw [hid, hnumber]; rfl, le_rfl, ?_, fun _ ↦ rfl⟩
    · rw [hstart.blocks]
      rfl
    · rw [hstart.blocks, hnumber]
      rfl
    · simp [hstart.blocks]
    · simp [hstart.blocks]
  have hreplays : db.Holds (Objects.Replays code start.objects) :=
    hdb.invariant _ (holds_of_genesis hstart hfirst) fun _ event h _ ↦
      holds_of_step (fun _ _ _ ho ↦ Objects.replays_of_applyBlock hstart.transactions ho) h event
  obtain ⟨db', hreindex, hobjects⟩ :=
    reindex_returned hcode hlog hnumber hid hstart.transactions hreplays.base
  refine ⟨db', hreindex, hobjects, ?_⟩
  rw [hobjects]
  constructor
  · intro hsame b hb hrecords
    have hcounted := hreplays.base.counted ⟨b, hb, hrecords⟩
    rw [← hsame] at hcounted
    exact lt_irrefl _ hcounted
  · intro hquiet
    rw [← hreplays.base.quiet hquiet]
    rfl

end Database

/-! ## A duplicate after a restart -/

/-- Transaction 3 again, in the second block. -/
def secondBlock : SignedBlock ℕ ℕ := ⟨firstBlock.id countingCode.blockHash, 10, 0, 3, 7, [⟨3, 1⟩]⟩

def liveDatabase : Database ℕ ℕ ℕ := freshDatabase.step countingCode (.pushBlock firstBlock)

theorem replayable_countingCode : countingCode.Replayable where
  operate _ _ _ _ := id
  updateGlobalDynamicData _ _ _ _ := id
  finishBlock _ _ _ _ := id

/-- After a restart the node accepts a block that repeats a transaction, which the live node
refuses. -/
theorem reindex_forgets_transactions : ∃ db',
    Run.Reaches (Database.step countingCode) (fun _ _ ↦ True) freshDatabase liveDatabase ∧
      (Database.restarted freshDatabase liveDatabase).reindex countingCode = .returned db' ∧
      db'.objects.transactions.nextId ≠ liveDatabase.base.transactions.nextId ∧
      (∃ e db'', liveDatabase.pushBlock countingCode {} secondBlock = .threw e db'') ∧
      ∃ db'', db'.pushBlock countingCode {} secondBlock = .returned db'' := by
  refine ⟨_, .next (ChainEvent.pushBlock firstBlock) .refl trivial, rfl, by decide, ⟨_, _, rfl⟩,
    _, rfl⟩

theorem logHolds_liveDatabase : liveDatabase.LogHolds countingCode where
  last := rfl
  zero := rfl
  blocks n := by
    cases n with
    | zero => rfl
    | succ n =>
        have hbase : liveDatabase.base.blocks = [firstBlock] := rfl
        have hlog : liveDatabase.blockLog = BlockDatabase.store countingCode.blockHash {}
            (firstBlock.id countingCode.blockHash) firstBlock := rfl
        have hother : n + 1 + 1 ≠ firstBlock.blockNum := Nat.succ_succ_ne_one n
        rw [hlog, BlockDatabase.fetchByNumber_store hother, hbase]
        rfl

/-- A replay of the first block does not restore its transaction. -/
theorem reindex_restores_iff_first : ∃ db',
    (Database.restarted freshDatabase liveDatabase).reindex countingCode = .returned db' ∧
      db'.objects = liveDatabase.base.withTransactions .empty ∧
      db'.objects ≠ liveDatabase.base := by
  have hrun : Run.Reaches (Database.step countingCode) (fun _ _ ↦ True) freshDatabase
      liveDatabase :=
    .next (ChainEvent.pushBlock firstBlock) .refl trivial
  obtain ⟨db', hreindex, hobjects, hiff⟩ := Database.reindex_restores_iff replayable_countingCode
    genesis_freshDatabase rfl rfl hrun logHolds_liveDatabase
  refine ⟨db', hreindex, hobjects, fun hsame ↦ ?_⟩
  exact hiff.mp hsame firstBlock List.mem_cons_self ⟨rfl, by simp [firstBlock]⟩

end KarmaCore.Chain
