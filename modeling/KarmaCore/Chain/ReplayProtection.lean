import Mathlib
import KarmaCore.Chain.ProducedBlock
import KarmaCore.Lib.Run

/-!
# A transaction is applied once

The index of recent transactions holds every transaction of the main chain that
could still be accepted, so none is applied twice.
-/

namespace KarmaCore.Chain

open ObjectIndex

variable {Tx Res Rest : Type} {code : Code Tx Res Rest} {o o' : Objects Tx Res Rest}
  {skip : SkipFlags} {b : SignedBlock Tx Res}

/-- The ids of the transactions of a block. -/
def SignedBlock.trxIds (code : Code Tx Res Rest) (b : SignedBlock Tx Res) : List ℕ :=
  b.transactions.map fun ptx ↦ code.trxId ptx.trx

namespace Objects

/-- The ids of all transactions of the main chain. -/
def chainIds (code : Code Tx Res Rest) (o : Objects Tx Res Rest) : List ℕ :=
  o.blocks.flatMap (·.trxIds code)

/-- A transaction is in the index or past its expiration. -/
def Covers (code : Code Tx Res Rest) (o : Objects Tx Res Rest) (trx : Tx) : Prop :=
  o.IsKnownTransaction (code.trxId trx) ∨ code.expiration trx < o.head.time

/-- The index guards the transactions of the main chain. -/
structure Guarded (code : Code Tx Res Rest) (o : Objects Tx Res Rest) : Prop where
  nodup : (o.chainIds code).Nodup
  covers : ∀ b ∈ o.blocks, ∀ ptx ∈ b.transactions, o.Covers code ptx.trx
  recorded : ∀ id r, o.transactions.find id = some r → r.trxId = code.trxId r.trx
  start : o.head.number = 0 → o.blocks = []

/-! ## The index of recent transactions -/

theorem isKnownTransaction_iff {trxId : ℕ} :
    o.IsKnownTransaction trxId ↔ ∃ id r, o.transactions.find id = some r ∧ r.trxId = trxId := by
  unfold IsKnownTransaction
  constructor
  · rintro ⟨⟨id, r⟩, hmem, hid⟩
    exact ⟨id, r, find_eq_some.mpr hmem, hid⟩
  · rintro ⟨id, r, hfind, hid⟩
    exact ⟨(id, r), find_eq_some.mp hfind, hid⟩

theorem find_foldl_remove {α : Type} (ids : List ℕ) (ix : ObjectIndex α) (id : ℕ) :
    (ids.foldl ObjectIndex.remove ix).find id = if id ∈ ids then none else ix.find id := by
  induction ids generalizing ix with
  | nil => simp
  | cons i ids ih =>
      rw [List.foldl_cons, ih, find_remove]
      by_cases hid : id = i
      · simp [hid]
      · simp [hid]

theorem nextId_foldl_remove {α : Type} (ids : List ℕ) (ix : ObjectIndex α) :
    (ids.foldl ObjectIndex.remove ix).nextId = ix.nextId := by
  induction ids generalizing ix with
  | nil => rfl
  | cons i ids ih => exact ih (ix.remove i)

/-- An entry is removed exactly when its transaction has expired. -/
theorem find_clearExpiredTransactions {id : ℕ} {r : TransactionObject Tx} :
    (o.clearExpiredTransactions code).transactions.find id = some r ↔
      o.transactions.find id = some r ∧ o.head.time ≤ code.expiration r.trx := by
  simp only [clearExpiredTransactions, find_foldl_remove]
  have hmem : id ∈ o.expiredTransactions code ↔
      ∃ r, o.transactions.find id = some r ∧ code.expiration r.trx < o.head.time := by
    simp only [expiredTransactions, List.mem_map, List.mem_filter, decide_eq_true_eq]
    constructor
    · rintro ⟨⟨i, r⟩, ⟨hr, hexpired⟩, rfl⟩
      exact ⟨r, find_eq_some.mpr hr, hexpired⟩
    · rintro ⟨r, hr, hexpired⟩
      exact ⟨(id, r), ⟨find_eq_some.mp hr, hexpired⟩, rfl⟩
  split_ifs with hexpired
  · obtain ⟨r', hr', hlt⟩ := hmem.mp hexpired
    constructor
    · simp
    · rintro ⟨hr, hle⟩
      rw [hr', Option.some.injEq] at hr
      subst hr
      omega
  · constructor
    · intro hr
      refine ⟨hr, ?_⟩
      by_contra hlt
      exact hexpired (hmem.mpr ⟨r, hr, not_le.mp hlt⟩)
    · exact fun h ↦ h.1

/-! ## One transaction -/

/-- What an applied transaction met and did, under flags that skip no check. -/
theorem applyTransaction_cases {trx : Tx} {ptx : ProcessedTransaction Tx Res}
    (hskip : skip.transactionDupeCheck = false)
    (h : o.applyTransaction code skip trx = .ok (ptx, o')) :
    ptx.trx = trx ∧ ¬o.IsKnownTransaction (code.trxId trx) ∧
      (0 < o.head.number → o.head.time ≤ code.expiration trx) ∧
      o'.transactions = o.transactions.create ⟨code.trxId trx, trx⟩ ∧ o'.head = o.head ∧
      o'.blocks = o.blocks := by
  have htrx := applyTransaction_trx h
  simp only [applyTransaction, checkTransaction, checkExpiration, Checked.bind_eq_ok,
    require_eq_ok, Checked.pure_eq_ok] at h
  obtain ⟨_, ⟨-, -, -, hnew, -, -, hexpiration⟩, ⟨res, rest⟩, -, heq⟩ := h
  obtain ⟨-, rfl⟩ := Prod.mk.inj heq
  refine ⟨htrx, ?_, fun hnumber ↦ ?_, ?_, ?_, ?_⟩
  · rcases hnew with hdupe | hnew
    · exact absurd (hdupe.symm.trans hskip) (by simp)
    · exact hnew
  · rw [if_pos hnumber] at hexpiration
    simp only [Checked.bind_eq_ok, require_eq_ok] at hexpiration
    exact hexpiration.choose_spec.2.choose_spec.2
  · simp [recordTransaction, hskip]
  · unfold recordTransaction
    split_ifs <;> rfl
  · unfold recordTransaction
    split_ifs <;> rfl

theorem isKnownTransaction_of_create {trx : Tx} {trxId : ℕ}
    (h : o'.transactions = o.transactions.create ⟨code.trxId trx, trx⟩) :
    o'.IsKnownTransaction trxId ↔ o.IsKnownTransaction trxId ∨ trxId = code.trxId trx := by
  unfold IsKnownTransaction
  simp only [h, mem_create]
  constructor
  · rintro ⟨p, hp | rfl, rfl⟩
    · exact .inl ⟨p, hp, rfl⟩
    · exact .inr rfl
  · rintro (⟨p, hp, rfl⟩ | rfl)
    · exact ⟨p, .inl hp, rfl⟩
    · exact ⟨_, .inr rfl, rfl⟩

/-- A transaction that applies is not on the main chain. -/
theorem Guarded.notMem_chainIds (h : o.Guarded code)
    (hexpiration : ∀ t t', code.trxId t = code.trxId t' → code.expiration t = code.expiration t')
    {trx : Tx} (hnew : ¬o.IsKnownTransaction (code.trxId trx))
    (hlive : 0 < o.head.number → o.head.time ≤ code.expiration trx) :
    code.trxId trx ∉ o.chainIds code := by
  intro hmem
  obtain ⟨b, hb, hid⟩ := List.mem_flatMap.mp hmem
  obtain ⟨ptx, hptx, heq⟩ := List.mem_map.mp hid
  rcases Nat.eq_zero_or_pos o.head.number with hzero | hpos
  · rw [h.start hzero] at hb
    simp at hb
  · rcases h.covers b hb ptx hptx with hknown | hexpired
    · rw [heq] at hknown
      exact hnew hknown
    · have hlive' := hlive hpos
      rw [hexpiration _ _ heq] at hexpired
      omega

theorem guarded_of_create {trx : Tx} (h : o.Guarded code)
    (htransactions : o'.transactions = o.transactions.create ⟨code.trxId trx, trx⟩)
    (hhead : o'.head = o.head) (hblocks : o'.blocks = o.blocks) : o'.Guarded code where
  nodup := by
    unfold chainIds
    rw [hblocks]
    exact h.nodup
  covers b hb ptx hptx := by
    rw [hblocks] at hb
    unfold Covers
    rw [isKnownTransaction_of_create htransactions, hhead]
    rcases h.covers b hb ptx hptx with hknown | hexpired
    · exact .inl (.inl hknown)
    · exact .inr hexpired
  recorded id r hr := by
    rw [htransactions, find_create] at hr
    split_ifs at hr
    · cases hr
      rfl
    · exact h.recorded id r hr
  start hnumber := by
    rw [hhead] at hnumber
    rw [hblocks]
    exact h.start hnumber

/-- The transactions of a block are new to the chain and to each other, and are recorded.
`done` are those before them. -/
theorem applyTransactions_cases {ptxs : List (ProcessedTransaction Tx Res)} {done : List ℕ}
    (hskip : skip.transactionDupeCheck = false)
    (hexpiration : ∀ t t', code.trxId t = code.trxId t' → code.expiration t = code.expiration t')
    (hguarded : o.Guarded code) (hnodup : (o.chainIds code ++ done).Nodup)
    (hdone : ∀ id ∈ done, o.IsKnownTransaction id)
    (h : applyTransactions code skip ptxs o = .ok o') :
    o'.Guarded code ∧ o'.head = o.head ∧ o'.blocks = o.blocks ∧
      (o.chainIds code ++ (done ++ ptxs.map fun ptx ↦ code.trxId ptx.trx)).Nodup ∧
      ∀ id ∈ done ++ ptxs.map fun ptx ↦ code.trxId ptx.trx, o'.IsKnownTransaction id := by
  induction ptxs generalizing o done with
  | nil =>
      cases h
      exact ⟨hguarded, rfl, rfl, by simpa using hnodup, by simpa using hdone⟩
  | cons ptx ptxs ih =>
      simp only [applyTransactions, Checked.bind_eq_ok] at h
      obtain ⟨⟨ptx', o₁⟩, hfirst, hrest⟩ := h
      obtain ⟨-, hnew, hlive, hcreate, hhead, hblocks⟩ := applyTransaction_cases hskip hfirst
      have hnotChain := hguarded.notMem_chainIds hexpiration hnew hlive
      have hnotDone : code.trxId ptx.trx ∉ done := fun hmem ↦ hnew (hdone _ hmem)
      have hchain : o₁.chainIds code = o.chainIds code := by
        unfold chainIds
        rw [hblocks]
      have hnodup₁ : (o₁.chainIds code ++ (done ++ [code.trxId ptx.trx])).Nodup := by
        rw [hchain, ← List.append_assoc, List.nodup_append]
        refine ⟨hnodup, by simp, ?_⟩
        intro id hid id' hid' heq
        rw [List.mem_singleton] at hid'
        subst hid' heq
        rcases List.mem_append.mp hid with hmem | hmem
        · exact hnotChain hmem
        · exact hnotDone hmem
      have hdone₁ : ∀ id ∈ done ++ [code.trxId ptx.trx], o₁.IsKnownTransaction id := by
        intro id hid
        rw [isKnownTransaction_of_create hcreate]
        rcases List.mem_append.mp hid with hmem | hmem
        · exact .inl (hdone id hmem)
        · exact .inr (List.mem_singleton.mp hmem)
      obtain ⟨hguarded', hhead', hblocks', hnodup', hknown'⟩ :=
        ih (guarded_of_create hguarded hcreate hhead hblocks) hnodup₁ hdone₁ hrest
      rw [hchain] at hnodup'
      refine ⟨hguarded', hhead'.trans hhead, hblocks'.trans hblocks, ?_, ?_⟩
      · simpa using hnodup'
      · simpa using hknown'

/-! ## A block -/

theorem skipFor_of_noCheckpoints (h : code.checkpoints = []) (b : SignedBlock Tx Res)
    (skip : SkipFlags) : code.skipFor b skip = .ok skip := by simp [Code.skipFor, h]

/-- What leaves the index has expired. -/
theorem covers_of_clearExpiredTransactions {trx : Tx}
    (hexpiration : ∀ t t', code.trxId t = code.trxId t' → code.expiration t = code.expiration t')
    (hrecorded : ∀ id r, o.transactions.find id = some r → r.trxId = code.trxId r.trx)
    (h : o.Covers code trx) : (o.clearExpiredTransactions code).Covers code trx := by
  rcases h with hknown | hexpired
  · obtain ⟨id, r, hr, hid⟩ := isKnownTransaction_iff.mp hknown
    have hsame : code.expiration r.trx = code.expiration trx :=
      hexpiration _ _ ((hrecorded id r hr).symm.trans hid)
    rcases le_or_gt o.head.time (code.expiration r.trx) with hlive | hlt
    · exact .inl (isKnownTransaction_iff.mpr ⟨id, r, find_clearExpiredTransactions.mpr ⟨hr, hlive⟩,
        hid⟩)
    · exact .inr (hsame ▸ hlt)
  · exact .inr hexpired

/-- A block that is applied without skipping a check keeps the chain guarded. -/
theorem guarded_of_applyBlock (hcheckpoints : code.checkpoints = [])
    (hskip : skip.transactionDupeCheck = false)
    (hexpiration : ∀ t t', code.trxId t = code.trxId t' → code.expiration t = code.expiration t')
    (hguarded : o.Guarded code) (h : o.applyBlock code skip b = .ok o') : o'.Guarded code := by
  simp only [applyBlock, skipFor_of_noCheckpoints hcheckpoints, Checked.bind_eq_ok,
    Except.ok.injEq, exists_eq_left', applyBody, advanceHead, finish, validateBlockHeader,
    require_eq_ok, Checked.pure_eq_ok] at h
  obtain ⟨body, ⟨-, -, -, ⟨-, -, -, htime, -⟩, hbody⟩, advanced, ⟨rest, -, -, -, rfl⟩, rest', -,
    rfl⟩ := h
  have hnone : (o.chainIds code ++ ([] : List ℕ)).Nodup := by simpa using hguarded.nodup
  obtain ⟨hbodyGuarded, hhead, hblocks, hnodup, hknown⟩ :=
    applyTransactions_cases hskip hexpiration hguarded hnone (by simp) hbody
  -- the state in which the expired transactions are cleared
  have hadvanced : ∀ b' ∈ b :: body.blocks, ∀ ptx ∈ b'.transactions, Covers code
      { body with
        head := ⟨b.blockNum, b.id code.blockHash, b.timestamp⟩, rest, blocks := b :: body.blocks }
      ptx.trx := by
    intro b' hb' ptx hptx
    rcases List.mem_cons.mp hb' with rfl | hold
    · refine .inl (hknown _ ?_)
      simpa using ⟨ptx, hptx, rfl⟩
    · rcases hbodyGuarded.covers b' hold ptx hptx with hk | hexpired
      · exact .inl hk
      · rw [hhead] at hexpired
        exact .inr (hexpired.trans htime)
  refine ⟨?_, fun b' hb' ptx hptx ↦ ?_, fun id r hr ↦ ?_, fun hnumber ↦ ?_⟩
  · have hids : chainIds code { clearExpiredTransactions code { body with
        head := ⟨b.blockNum, b.id code.blockHash, b.timestamp⟩, rest, blocks := b :: body.blocks }
        with rest := rest' } = b.trxIds code ++ o.chainIds code := by
      simp [chainIds, clearExpiredTransactions, hblocks]
    rw [hids]
    exact (List.perm_append_comm.nodup_iff).mp (by simpa [SignedBlock.trxIds] using hnodup)
  · exact covers_of_clearExpiredTransactions hexpiration hbodyGuarded.recorded
      (hadvanced b' hb' ptx hptx)
  · exact hbodyGuarded.recorded id r (find_clearExpiredTransactions.mp hr).1
  · exact absurd hnumber (Nat.succ_ne_zero _)

end Objects

/-! ## Runs -/

/-- The calls that move the chain, none of which skips a check. -/
inductive ChainEvent (Tx Res : Type)
  | pushBlock (b : SignedBlock Tx Res)
  | popBlock
  | pushTransaction (trx : Tx)
  | generateBlock (time witness key : ℕ)

namespace Database

variable {db start : Database Tx Res Rest} {P : Objects Tx Res Rest → Prop}

/-- A call that throws leaves behind the state of that moment. -/
def step (code : Code Tx Res Rest) (db : Database Tx Res Rest) :
    ChainEvent Tx Res → Database Tx Res Rest
  | .pushBlock b => (db.pushBlock code {} b).state
  | .popBlock => (db.popBlock code).state
  | .pushTransaction trx => (db.pushTransaction code {} trx).state
  | .generateBlock time witness key => (db.generateBlock code {} time witness key).state

theorem holds_of_step (hP : ∀ o o' b, P o → o.applyBlock code {} b = .ok o' → P o')
    (h : db.Holds P) (event : ChainEvent Tx Res) : (db.step code event).Holds P := by
  cases event with
  | pushBlock b => exact holds_of_pushBlock hP h b
  | popBlock => exact holds_of_popBlock h
  | pushTransaction trx => exact holds_of_pushTransaction h trx
  | generateBlock time witness key => exact holds_of_generateBlock hP h

/-- Nothing has been applied and nothing is pending. -/
structure Genesis (db : Database Tx Res Rest) : Prop where
  blocks : db.objects.blocks = []
  transactions : db.objects.transactions.objects = []
  stack : db.stack = []
  maxSize : 1 ≤ db.maxSize
  enabled : db.undoDisabled = false
  pendingTx : db.pendingTx = []
  noSession : db.pendingSession = false
  poppedTx : db.poppedTx = []
  poppedBlocks : db.poppedBlocks = []

theorem holds_of_genesis (h : start.Genesis) (hP : P start.objects) : start.Holds P := by
  refine ⟨⟨h.maxSize, h.enabled, fun hs ↦ ?_⟩, ?_, ?_⟩
  · exact absurd (hs.symm.trans h.noSession) (by simp)
  · rw [committed_of_noSession h.noSession, h.stack]
    simpa using hP
  · rw [h.poppedTx, h.poppedBlocks]
    rfl

theorem holds_of_reaches {guard : Database Tx Res Rest → ChainEvent Tx Res → Prop}
    (hstart : start.Genesis) (hdb : Run.Reaches (step code) guard start db) :
    db.Holds fun _ ↦ True :=
  hdb.invariant _ (holds_of_genesis hstart trivial) fun _ event h _ ↦
    holds_of_step (fun _ _ _ _ _ ↦ trivial) h event

/-- In a run without skip flags all committed states are guarded. -/
theorem holds_guarded (hcheckpoints : code.checkpoints = [])
    (hexpiration : ∀ t t', code.trxId t = code.trxId t' → code.expiration t = code.expiration t')
    (hstart : start.Genesis)
    (hdb : Run.Reaches (step code) (fun _ _ ↦ True) start db) :
    db.Holds (Objects.Guarded code) := by
  have hguarded : start.objects.Guarded code := by
    refine ⟨?_, ?_, fun id r hr ↦ ?_, fun _ ↦ hstart.blocks⟩
    · simp [Objects.chainIds, hstart.blocks]
    · simp [hstart.blocks]
    · rw [find_eq_some, hstart.transactions] at hr
      simp at hr
  exact hdb.invariant _ (holds_of_genesis hstart hguarded) fun _ event h _ ↦
    holds_of_step (fun _ _ _ ho ↦ Objects.guarded_of_applyBlock hcheckpoints rfl hexpiration ho) h
      event

/-- No transaction id occurs twice on the main chain, nor does a pending transaction that
applies repeat one of it. -/
theorem chainIds_nodup_of_reaches (hcheckpoints : code.checkpoints = [])
    (hexpiration : ∀ t t', code.trxId t = code.trxId t' → code.expiration t = code.expiration t')
    (hstart : start.Genesis) (hdb : Run.Reaches (step code) (fun _ _ ↦ True) start db) :
    (db.base.chainIds code).Nodup ∧ ∀ trx ptx o, db.base.applyTransaction code {} trx =
      .ok (ptx, o) → code.trxId trx ∉ db.base.chainIds code := by
  have hguarded := (holds_guarded hcheckpoints hexpiration hstart hdb).base
  refine ⟨hguarded.nodup, fun trx ptx o h ↦ ?_⟩
  obtain ⟨-, hnew, hlive, -⟩ := Objects.applyTransaction_cases rfl h
  exact hguarded.notMem_chainIds hexpiration hnew hlive

end Database

/-! ## A small chain -/

/-- Transactions are their ids, and what they do is count. Blocks come every five seconds and
are signed with their time. -/
def countingCode : Code ℕ ℕ ℕ where
  trxId t := t
  expiration _ := 100
  validate _ := .ok ()
  verifyAuthority _ _ := .ok ()
  checkTapos _ _ := .ok ()
  operate _ _ _ n := .ok (n, n + 1)
  updateGlobalDynamicData _ _ _ n := .ok n
  finishBlock _ _ _ n := .ok n
  signingKey _ _ := .ok 7
  scheduledWitness _ _ := .ok 0
  lastIrreversibleBlockNum _ := 0
  maximumTimeUntilExpiration _ := 1000
  maximumBlockSize _ := 1000
  blockInterval _ := 5
  maintenanceFlag _ := false
  maintenanceSkipSlots _ := 0
  blockHash b := b.timestamp + 1000 * b.transactionMerkleRoot
  merkleRoot ptxs := ptxs.foldl (fun h ptx ↦ 31 * h + ptx.trx) 0
  publicKey k := k
  sign k _ := k
  validateSignee b k := b.witnessSignature = k
  transactionSize _ := 20
  blockSize b := 10 + 20 * b.transactions.length
  maxBlockHeaderSize := 14
  checkpoints := []

/-- A chain with nothing on it. -/
def freshDatabase : Database ℕ ℕ ℕ where
  objects := ⟨⟨0, .null, 0⟩, .empty, 0, []⟩

theorem genesis_freshDatabase : freshDatabase.Genesis where
  blocks := rfl
  transactions := rfl
  stack := rfl
  maxSize := by decide
  enabled := rfl
  pendingTx := rfl
  noSession := rfl
  poppedTx := rfl
  poppedBlocks := rfl

/-- The first block, with transaction 3 in it. -/
def firstBlock : SignedBlock ℕ ℕ := ⟨.null, 5, 0, 3, 7, [⟨3, 0⟩]⟩

/-- After the first block its transaction is on the chain once. -/
theorem chainIds_nodup_of_reaches_first : ∃ db : Database ℕ ℕ ℕ,
    db.base.chainIds countingCode = [3] ∧ (db.base.chainIds countingCode).Nodup := by
  have hrun : Run.Reaches (Database.step countingCode) (fun _ _ ↦ True) freshDatabase
      (freshDatabase.step countingCode (.pushBlock firstBlock)) :=
    .next (ChainEvent.pushBlock firstBlock) .refl trivial
  have hnodup := Database.chainIds_nodup_of_reaches (rfl : countingCode.checkpoints = [])
    (fun _ _ _ ↦ rfl) genesis_freshDatabase hrun
  exact ⟨_, by decide, hnodup.1⟩

end KarmaCore.Chain
