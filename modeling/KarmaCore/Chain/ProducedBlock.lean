import Mathlib
import KarmaCore.Chain.Pending

/-!
# Producing a block

The block a witness builds holds a part of the pending transactions that applies
on the head.  What is left of the pending session when the call throws depends
on where it throws.
-/

namespace KarmaCore.Chain

variable {Tx Res Rest : Type} {code : Code Tx Res Rest} {db : Database Tx Res Rest}
  {P : Objects Tx Res Rest → Prop} {skip : SkipFlags} {time witness key : ℕ}

/-! ## The transactions of the block -/

/-- The transactions that fit and apply, and the objects after them. -/
def chooseTransactions (code : Code Tx Res Rest) (skip : SkipFlags) (maximumBlockSize : ℕ) :
    List (ProcessedTransaction Tx Res) → ℕ → Objects Tx Res Rest →
      List (ProcessedTransaction Tx Res) × Objects Tx Res Rest
  | [], _, o => ([], o)
  | tx :: txs, size, o =>
      if maximumBlockSize ≤ size + code.transactionSize tx then
        chooseTransactions code skip maximumBlockSize txs size o
      else
        match o.applyTransaction code skip tx.trx with
        | .error _ => chooseTransactions code skip maximumBlockSize txs size o
        | .ok (ptx, o) =>
            let (ptxs, o) := chooseTransactions code skip maximumBlockSize txs
              (size + code.transactionSize ptx) o
            (ptx :: ptxs, o)

/-- The chosen transactions are pending ones in their order. -/
theorem chooseTransactions_sublist {maximumBlockSize : ℕ}
    {txs : List (ProcessedTransaction Tx Res)} {size : ℕ} {o : Objects Tx Res Rest} :
    ((chooseTransactions code skip maximumBlockSize txs size o).1.map (·.trx)).Sublist
      (txs.map (·.trx)) := by
  induction txs generalizing size o with
  | nil => exact .slnil
  | cons tx txs ih =>
      unfold chooseTransactions
      split_ifs
      · exact ih.cons _
      · cases happly : o.applyTransaction code skip tx.trx with
        | error e => exact ih.cons _
        | ok r =>
            simp only [List.map_cons]
            rw [applyTransaction_trx happly]
            exact ih.cons_cons _

/-- They apply again, without sessions, in a block on the same objects. -/
theorem applyTransactions_chooseTransactions {maximumBlockSize : ℕ}
    {txs : List (ProcessedTransaction Tx Res)} {size : ℕ} {o : Objects Tx Res Rest} :
    Objects.applyTransactions code skip
      (chooseTransactions code skip maximumBlockSize txs size o).1 o =
        .ok (chooseTransactions code skip maximumBlockSize txs size o).2 := by
  induction txs generalizing size o with
  | nil => rfl
  | cons tx txs ih =>
      unfold chooseTransactions
      split_ifs
      · exact ih
      · cases happly : o.applyTransaction code skip tx.trx with
        | error e => exact ih
        | ok r =>
            obtain ⟨ptx, o'⟩ := r
            simp only [Objects.applyTransactions]
            rw [applyTransaction_trx happly, happly]
            exact ih

/-- A block that builds on a block of which no higher one is known becomes the head. -/
theorem ForkDatabase.head_of_pushBlock {f f' : ForkDatabase Tx Res} {id : BlockId}
    {b : SignedBlock Tx Res} (h : f.pushBlock id b = .ok f')
    (hahead : ∀ item ∈ f.head, item.num ≤ b.previous.num ∨ item.previousId = b.previous) :
    ∃ item, f'.head = some item ∧ item.previousId = b.previous := by
  simp only [ForkDatabase.pushBlock, Checked.bind_eq_ok, require_eq_ok, Checked.pure_eq_ok] at h
  obtain ⟨-, -, item, hlink, rfl⟩ := h
  have hdata : item.data = b := by
    unfold ForkDatabase.link at hlink
    split_ifs at hlink
    · split at hlink
      · cases hlink
      · cases hlink
        rfl
    · cases hlink
      rfl
  unfold ForkDatabase.raise
  cases hhead : f.head with
  | none =>
      have hinsert : (f.insert item).head = none := hhead
      simp only [hinsert]
      exact ⟨item, rfl, by rw [ForkItem.previousId, hdata]⟩
  | some head =>
      have hinsert : (f.insert item).head = some head := hhead
      simp only [hinsert]
      split_ifs with hlower
      · exact ⟨item, rfl, by rw [ForkItem.previousId, hdata]⟩
      · refine ⟨head, hinsert, (hahead head hhead).resolve_left fun hle ↦ hlower ?_⟩
        have hnum : item.num = b.previous.num + 1 := by
          rw [ForkItem.num, hdata]
          rfl
        omega

namespace Database

/-- The loop in its sessions chooses the transactions and leaves the states below alone. -/
theorem collectTransactions_cases (code : Code Tx Res Rest) (skip : SkipFlags)
    (maximumBlockSize : ℕ) (txs : List (ProcessedTransaction Tx Res)) {base : Objects Tx Res Rest}
    {below : List (Objects Tx Res Rest)} (db : Database Tx Res Rest) (size : ℕ)
    (hsize : 1 ≤ db.maxSize) (henabled : db.undoDisabled = false)
    (hstack : db.stack = base :: below) : ∃ below',
    (∀ o ∈ below', o ∈ below) ∧
      collectTransactions code skip maximumBlockSize txs size db =
        ((chooseTransactions code skip maximumBlockSize txs size db.objects).1, { db with
          objects := (chooseTransactions code skip maximumBlockSize txs size db.objects).2,
          stack := base :: below' }) := by
  induction txs generalizing size db below with
  | nil =>
      refine ⟨below, fun _ ↦ id, ?_⟩
      cases db
      simp_all [collectTransactions, chooseTransactions]
  | cons tx txs ih =>
      obtain ⟨n, hn⟩ : ∃ n, db.maxSize = n + 1 := ⟨db.maxSize - 1, by omega⟩
      have htake : ∀ o ∈ below.take n, o ∈ below := fun o ho ↦ List.mem_of_mem_take ho
      have hstart : db.startUndoSession =
          { db with stack := db.objects :: base :: below.take n } := by
        simp [startUndoSession, henabled, hstack, hn]
      unfold collectTransactions chooseTransactions
      split_ifs
      · exact ih db size hsize henabled hstack
      · cases happly : db.objects.applyTransaction code skip tx.trx with
        | error e =>
            obtain ⟨below', hbelow, hcollect⟩ :=
              ih { db with stack := base :: below.take n } size hsize henabled rfl
            refine ⟨below', fun o ho ↦ htake o (hbelow o ho), ?_⟩
            simpa [hstart, happly, undo, henabled] using hcollect
        | ok r =>
            obtain ⟨below', hbelow, hcollect⟩ :=
              ih { db with objects := r.2, stack := base :: below.take n }
                (size + code.transactionSize r.1) hsize henabled rfl
            refine ⟨below', fun o ho ↦ htake o (hbelow o ho), ?_⟩
            simp [hstart, happly, merge, henabled] at hcollect ⊢
            simp [hcollect]

/-- The transactions of the block of a database, chosen on its head. -/
def chosen (code : Code Tx Res Rest) (skip : SkipFlags) (db : Database Tx Res Rest) :
    List (ProcessedTransaction Tx Res) × Objects Tx Res Rest :=
  chooseTransactions code skip (code.maximumBlockSize db.objects.rest) db.pendingTx
    code.maxBlockHeaderSize db.base

/-- Once the block is built there is no pending session, and the head is as it was. -/
theorem buildTransactions_cases (code : Code Tx Res Rest) (skip : SkipFlags) (h : db.Ready) :
    ∃ below, (∀ o ∈ below, o ∈ db.committed) ∧
    db.buildTransactions code skip = ((db.chosen code skip).1,
      { db with objects := db.base, stack := below, pendingSession := false }) := by
  obtain ⟨below, hcommitted, hreset⟩ := resetPendingSession_cases h
  have hbelow : ∀ o ∈ below, o ∈ db.committed := by
    rw [hcommitted]
    exact fun o ho ↦ List.mem_cons_of_mem _ ho
  have hstart : db.resetPendingSession.startPendingSession = { db with
      objects := db.base, stack := db.base :: below.take db.maxSize, pendingSession := true } := by
    rw [hreset]
    simp [startPendingSession, startUndoSession, h.enabled]
  obtain ⟨below', hbelow', hcollect⟩ := collectTransactions_cases code skip
    (code.maximumBlockSize db.objects.rest) db.pendingTx
    { db with
      objects := db.base, stack := db.base :: below.take db.maxSize, pendingSession := true }
    code.maxBlockHeaderSize h.maxSize h.enabled rfl
  refine ⟨below', fun o ho ↦ hbelow o (List.mem_of_mem_take (hbelow' o ho)), ?_⟩
  unfold buildTransactions
  simp only [hstart, hcollect]
  simp [resetPendingSession, undo, h.enabled, chosen]

theorem producedBlock_eq (h : db.Ready) : db.producedBlock code skip time witness key =
    assemble code { db with objects := db.base } skip time witness key
      (db.chosen code skip).1 := by
  obtain ⟨below, -, hbuild⟩ := buildTransactions_cases code skip h
  unfold producedBlock
  rw [hbuild]
  rfl

theorem holds_of_buildTransactions (h : db.Holds P) :
    (db.buildTransactions code skip).2.Holds P := by
  obtain ⟨below, hbelow, hbuild⟩ := buildTransactions_cases code skip h.toReady
  rw [hbuild]
  refine ⟨⟨h.maxSize, h.enabled, by simp⟩, fun o ho ↦ ?_, h.popped⟩
  rcases List.mem_cons.mp (show o ∈ db.base :: below from ho) with rfl | ho
  · exact h.base
  · exact h.committed o (hbelow o ho)

/-- However the production of a block ends, what blocks preserve holds of all committed
states. -/
theorem holds_of_generateBlock (hP : ∀ o o' b, P o → o.applyBlock code skip b = .ok o' → P o')
    (h : db.Holds P) :
    (db.generateBlock code skip time witness key).state.Holds P := by
  unfold generateBlock
  split
  · exact h
  · dsimp only
    split_ifs
    · exact holds_of_pushBlock hP (holds_of_buildTransactions h) _
    · exact holds_of_buildTransactions h

/-! ## When the production of a block throws -/

/-- The block that is built is not larger than a block may be. -/
def Fits (code : Code Tx Res Rest) (skip : SkipFlags) (time witness key : ℕ)
    (db : Database Tx Res Rest) : Prop :=
  skip.blockSizeCheck = true ∨
    code.blockSize (db.producedBlock code skip time witness key) ≤
      code.maximumBlockSize db.base.rest

instance (code : Code Tx Res Rest) (skip : SkipFlags) (time witness key : ℕ)
    (db : Database Tx Res Rest) : Decidable (db.Fits code skip time witness key) :=
  inferInstanceAs (Decidable (_ ∨ _))

/-- The fork database has no block above the head that does not build on it. -/
def NotAhead (db : Database Tx Res Rest) : Prop :=
  ∀ item ∈ db.forkDb.head, item.num ≤ db.base.head.id.num ∨ item.previousId = db.base.head.id

theorem generateBlock_cases (code : Code Tx Res Rest) (skip : SkipFlags)
    (time witness key : ℕ) (h : db.Ready) : ∃ below, (∀ o ∈ below, o ∈ db.committed) ∧
    db.generateBlock code skip time witness key =
      match db.checkProducer code skip time witness key with
      | .error e => .threw e db
      | .ok () =>
          let cleared : Database Tx Res Rest :=
            { db with objects := db.base, stack := below, pendingSession := false }
          if skip.blockSizeCheck = true ∨
              code.blockSize (db.producedBlock code skip time witness key) ≤
                code.maximumBlockSize db.base.rest then
            cleared.pushBlock code skip (db.producedBlock code skip time witness key)
          else .threw
            (.assertion "fc::raw::pack_size(pending_block) <= parameters.maximum_block_size")
            cleared := by
  obtain ⟨below, hbelow, hbuild⟩ := buildTransactions_cases code skip h
  refine ⟨below, hbelow, ?_⟩
  unfold generateBlock
  rewrite [hbuild]
  rfl

/-- A push leaves the pending session built from the pending list, whatever it does. -/
theorem restored_of_pushBlock (code : Code Tx Res Rest) {allowed : SkipFlags → Prop}
    (hskip : allowed skip) (h : db.Holds fun _ ↦ True) (b : SignedBlock Tx Res) :
    (db.pushBlock code skip b).state.Restored code allowed := by
  have hsettled : (db.clearPending.pushNewBlock code skip b).state.Settled (fun _ ↦ True) [] :=
    settled_of_pushNewBlock (fun _ _ _ _ _ ↦ trivial) (settled_of_clearPending h).1
  rw [state_pushBlock]
  exact restored_of_restorePending hskip hsettled db.pendingTx

/-- A block on the head is applied there, unless the fork database refuses it. -/
theorem pushNewBlock_cases (code : Code Tx Res Rest) (skip : SkipFlags)
    {b : SignedBlock Tx Res} (hprevious : b.previous = db.objects.head.id)
    (hahead : ∀ item ∈ db.forkDb.head,
      item.num ≤ db.objects.head.id.num ∨ item.previousId = db.objects.head.id) :
    (∃ e, db.forkDb.pushBlock (b.id code.blockHash) b = .error e ∧
      db.pushNewBlock code skip b = .threw e db) ∨
    ∃ forkDb, db.pushNewBlock code skip b = extendHead code { db with forkDb } skip b := by
  unfold pushNewBlock
  split_ifs
  · exact .inr ⟨db.forkDb, rfl⟩
  · cases hfork : db.forkDb.pushBlock (b.id code.blockHash) b with
    | error e => exact .inl ⟨e, rfl, rfl⟩
    | ok forkDb =>
        rw [← hprevious] at hahead
        obtain ⟨item, hitem, hitemPrevious⟩ := ForkDatabase.head_of_pushBlock hfork hahead
        have hbuilds : item.data.previous = db.objects.head.id := hitemPrevious.trans hprevious
        refine .inr ⟨forkDb, ?_⟩
        simp only [hitem]
        rw [if_pos hbuilds]

/-- A block on the head that throws leaves the head as it was. -/
theorem objects_of_pushNewBlock {b : SignedBlock Tx Res} {e : ChainError}
    {db' : Database Tx Res Rest} (henabled : db.undoDisabled = false)
    (hprevious : b.previous = db.objects.head.id)
    (hahead : ∀ item ∈ db.forkDb.head,
      item.num ≤ db.objects.head.id.num ∨ item.previousId = db.objects.head.id)
    (h : db.pushNewBlock code skip b = .threw e db') : db'.objects = db.objects := by
  rcases pushNewBlock_cases code skip hprevious hahead with
    ⟨e', -, hthrew⟩ | ⟨forkDb, hextend⟩
  · rw [hthrew] at h
    cases h
    rfl
  · rw [hextend, extendHead] at h
    obtain ⟨size, forkDb', -, hcases⟩ := applyInSession_cases
      (show ({ db with forkDb } : Database Tx Res Rest).undoDisabled = false from henabled) code
      skip b (b.id code.blockHash)
    cases happly : db.objects.applyBlock code skip b with
    | error e' =>
        simp only [happly] at hcases
        rw [hcases] at h
        cases h
        rfl
    | ok o =>
        simp only [happly] at hcases
        rw [hcases] at h
        cases h

/-- A push on the head that throws leaves the head as it was. -/
theorem base_of_pushBlock {b : SignedBlock Tx Res} {e : ChainError} {db' : Database Tx Res Rest}
    (h : db.Holds fun _ ↦ True) (hsession : db.pendingSession = false)
    (hprevious : b.previous = db.base.head.id) (hahead : db.NotAhead)
    (hthrew : db.pushBlock code skip b = .threw e db') : db'.base = db.base := by
  have hsettled := (settled_of_clearPending h).1
  have hbase : db.base = db.clearPending.objects := (settled_of_clearPending h).2.symm
  have hmid : (db.clearPending.pushNewBlock code skip b).state.Settled (fun _ ↦ True) [] :=
    settled_of_pushNewBlock (fun _ _ _ _ _ ↦ trivial) hsettled
  have hforkDb : db.clearPending.forkDb = db.forkDb := by
    rw [clearPending_of_noSession hsession]
  rw [NotAhead, hbase, ← hforkDb] at hahead
  rw [hbase] at hprevious
  unfold pushBlock withoutPendingTransactions at hthrew
  beta_reduce at hthrew
  cases hnew : db.clearPending.pushNewBlock code skip b with
  | returned mid =>
      rw [hnew] at hthrew
      cases hthrew
  | threw e' mid =>
      rw [hnew] at hthrew hmid
      cases hthrew
      have hrestore := (sameChain_of_restorePending code skip hmid db.pendingTx).1
      have hobjects := objects_of_pushNewBlock hsettled.enabled hprevious hahead hnew
      exact (hrestore.trans hobjects).trans hbase.symm

theorem producedBlock_previous (h : db.Ready) :
    (db.producedBlock code skip time witness key).previous = db.base.head.id := by
  rw [producedBlock_eq h]
  unfold assemble
  split_ifs <;> rfl

/-- A block whose production throws leaves behind a pending session built from the pending
list exactly when it failed for another reason than its size or nothing was pending; and the
head is as it was, as long as the fork database is not ahead on another branch. -/
theorem restored_of_thrown_generateBlock {allowed : SkipFlags → Prop} (hskip : allowed skip)
    (h : db.Holds fun _ ↦ True) (hrestored : db.Restored code allowed) {e : ChainError}
    {db' : Database Tx Res Rest}
    (hthrew : db.generateBlock code skip time witness key = .threw e db') :
    (db'.Restored code allowed ↔
      db.checkProducer code skip time witness key ≠ .ok () ∨
        db.Fits code skip time witness key ∨ db.pendingTx = []) ∧
      (db.NotAhead → db'.base = db.base) := by
  obtain ⟨below, hbelow, hcases⟩ :=
    generateBlock_cases code skip time witness key h.toReady
  rw [hthrew] at hcases
  cases hcheck : db.checkProducer code skip time witness key with
  | error e' =>
      simp only [hcheck] at hcases
      cases hcases
      exact ⟨iff_of_true hrestored (.inl (by simp)), fun _ ↦ rfl⟩
  | ok u =>
      simp only [hcheck] at hcases
      have hcleared : Holds (fun _ ↦ True) ({ db with
          objects := db.base, stack := below, pendingSession := false } : Database Tx Res Rest) :=
        ⟨⟨h.maxSize, h.enabled, by simp⟩, fun _ _ ↦ trivial, h.popped⟩
      split_ifs at hcases with hfits
      · have hpush := restored_of_pushBlock code hskip hcleared
          (db.producedBlock code skip time witness key)
        rw [← hcases] at hpush
        refine ⟨iff_of_true hpush (.inr (.inl hfits)), fun hahead ↦ ?_⟩
        have hclearedBase := base_of_pushBlock hcleared rfl
          (producedBlock_previous h.toReady : _ = db.base.head.id) hahead hcases.symm
        exact hclearedBase
      · cases hcases
        refine ⟨⟨fun hrestored' ↦ .inr (.inr (hrestored'.idle rfl)), ?_⟩, fun _ ↦ rfl⟩
        rintro (hne | hfits' | hnone)
        · exact absurd rfl hne
        · exact absurd hfits' hfits
        · refine ⟨hcleared.toReady, fun _ ↦ hnone, ?_⟩
          rw [hnone]
          exact .nil

end Database

end KarmaCore.Chain
