import Mathlib
import KarmaCore.Chain.Committed

/-!
# The pending transactions after a push

When a push is over, the transactions of the popped blocks and then those that
were pending are tried one after another on the new head.  The ones that apply
are the new pending transactions.
-/

namespace KarmaCore.Chain

variable {Tx Res Rest : Type} {code : Code Tx Res Rest} {db db' : Database Tx Res Rest}
  {P : Objects Tx Res Rest → Prop} {skip : SkipFlags}

/-! ## Trying transactions -/

/-- A transaction is kept when it applies on top of the ones kept before it. -/
def tryTransaction (code : Code Tx Res Rest) (skip : SkipFlags)
    (kept : Objects Tx Res Rest × List (ProcessedTransaction Tx Res))
    (ptx : ProcessedTransaction Tx Res) :
    Objects Tx Res Rest × List (ProcessedTransaction Tx Res) :=
  match kept.1.applyTransaction code skip ptx.trx with
  | .ok (ptx', o) => (o, kept.2 ++ [ptx'])
  | .error _ => kept

def tryTransactions (code : Code Tx Res Rest) (skip : SkipFlags) (o : Objects Tx Res Rest)
    (ptxs : List (ProcessedTransaction Tx Res)) :
    Objects Tx Res Rest × List (ProcessedTransaction Tx Res) :=
  ptxs.foldl (tryTransaction code skip) (o, [])

/-- The objects are the result of applying a list of transactions, each under allowed flags. -/
inductive Applies (code : Code Tx Res Rest) (allowed : SkipFlags → Prop) (o : Objects Tx Res Rest) :
    List (ProcessedTransaction Tx Res) → Objects Tx Res Rest → Prop
  | nil : Applies code allowed o [] o
  | snoc {ptxs : List (ProcessedTransaction Tx Res)} {o' o'' : Objects Tx Res Rest}
      {ptx : ProcessedTransaction Tx Res} {skip : SkipFlags} (h : Applies code allowed o ptxs o')
      (hskip : allowed skip) (happly : o'.applyTransaction code skip ptx.trx = .ok (ptx, o'')) :
      Applies code allowed o (ptxs ++ [ptx]) o''

theorem applyTransaction_trx {o o' : Objects Tx Res Rest} {trx : Tx}
    {ptx : ProcessedTransaction Tx Res} (h : o.applyTransaction code skip trx = .ok (ptx, o')) :
    ptx.trx = trx := by
  simp only [Objects.applyTransaction, Checked.bind_eq_ok, Checked.pure_eq_ok] at h
  obtain ⟨-, -, ⟨res, rest⟩, -, heq⟩ := h
  rw [← (Prod.mk.inj heq).1]

/-- A transaction that is recorded is not applied again. -/
theorem applyTransaction_of_known {o : Objects Tx Res Rest} {trx : Tx}
    (hskip : skip.transactionDupeCheck = false) (hknown : o.IsKnownTransaction (code.trxId trx)) :
    ∃ e, o.applyTransaction code skip trx = .error e := by
  cases h : o.applyTransaction code skip trx with
  | error e => exact ⟨e, rfl⟩
  | ok r =>
      simp only [Objects.applyTransaction, Objects.checkTransaction, Checked.bind_eq_ok,
        require_eq_ok] at h
      obtain ⟨-, ⟨-, -, -, hnew, -⟩, -⟩ := h
      rcases hnew with hdupe | hnew
      · exact absurd (hdupe.symm.trans hskip) (by simp)
      · exact absurd hknown hnew

namespace Database

/-! ## Pushing a transaction -/

/-- The parts of a database that pending transactions leave alone; the stack may only lose
states. -/
structure SameChain (db db' : Database Tx Res Rest) : Prop where
  base : db'.base = db.base
  committed : db'.committed <+: db.committed
  maxSize : db'.maxSize = db.maxSize
  undoDisabled : db'.undoDisabled = db.undoDisabled
  forkDb : db'.forkDb = db.forkDb
  blockLog : db'.blockLog = db.blockLog
  poppedTx : db'.poppedTx = db.poppedTx
  poppedBlocks : db'.poppedBlocks = db.poppedBlocks

theorem SameChain.refl (db : Database Tx Res Rest) : SameChain db db :=
  ⟨rfl, List.prefix_refl _, rfl, rfl, rfl, rfl, rfl, rfl⟩

theorem SameChain.trans {db'' : Database Tx Res Rest} (h : SameChain db db')
    (h' : SameChain db' db'') : SameChain db db'' :=
  ⟨h'.base.trans h.base, h'.committed.trans h.committed,
    h'.maxSize.trans h.maxSize, h'.undoDisabled.trans h.undoDisabled, h'.forkDb.trans h.forkDb,
    h'.blockLog.trans h.blockLog, h'.poppedTx.trans h.poppedTx,
    h'.poppedBlocks.trans h.poppedBlocks⟩

/-- The pending session lies on the committed states. -/
theorem startPendingSession_cases (h : db.Ready) : ∃ below,
    db.startPendingSession = { db with stack := db.base :: below, pendingSession := true } ∧
      db.base :: below <+: db.committed ∧ db.startPendingSession.objects = db.objects := by
  unfold startPendingSession
  cases hsession : db.pendingSession with
  | true =>
      obtain ⟨o, stack, hstack⟩ := List.exists_cons_of_ne_nil (h.session hsession)
      refine ⟨stack, ?_, ?_, rfl⟩
      · rw [if_pos rfl]
        simp only [base, hsession, hstack, if_true, List.head?_cons, Option.getD_some]
        cases db
        simp_all
      · simp [committed_of_session hsession, base, hsession, hstack]
  | false =>
      refine ⟨db.stack.take db.maxSize, ?_, ?_, ?_⟩
      · simp [startUndoSession, h.enabled, base, hsession]
      · rw [committed_of_noSession hsession, base_of_noSession hsession, List.prefix_cons_inj]
        exact List.take_prefix _ _
      · simp [startUndoSession, h.enabled]

/-- A pushed transaction is tried in the pending session. -/
theorem pushTransaction_cases (code : Code Tx Res Rest) (skip : SkipFlags) (h : db.Ready)
    (trx : Tx) : ∃ db',
    (db.pushTransaction code skip trx).state = db' ∧ SameChain db db' ∧
      db'.pendingSession = true ∧ db'.stack ≠ [] ∧
      match db.objects.applyTransaction code skip trx with
      | .ok (ptx, o) => db'.objects = o ∧ db'.pendingTx = db.pendingTx ++ [ptx]
      | .error _ => db'.objects = db.objects ∧ db'.pendingTx = db.pendingTx := by
  obtain ⟨below, hstart, hbelow, hobjects⟩ := startPendingSession_cases h
  obtain ⟨n, hn⟩ : ∃ n, db.maxSize = n + 1 := ⟨db.maxSize - 1, by have := h.maxSize; omega⟩
  have htemp : db.startPendingSession.startUndoSession = { db with
      stack := db.objects :: db.base :: below.take n, pendingSession := true } := by
    simp [startUndoSession, hstart, h.enabled, hn]
  have hsame : ∀ (o : Objects Tx Res Rest) (ptxs : List (ProcessedTransaction Tx Res)),
      SameChain db { db with
        objects := o, stack := db.base :: below.take n, pendingSession := true,
        pendingTx := ptxs } := by
    refine fun o ptxs ↦ ⟨rfl, ?_, rfl, rfl, rfl, rfl, rfl, rfl⟩
    exact ((List.prefix_cons_inj _).mpr (List.take_prefix n below)).trans hbelow
  cases happly : db.objects.applyTransaction code skip trx with
  | error e =>
      have hstate : (db.pushTransaction code skip trx).state = { db with
          stack := db.base :: below.take n, pendingSession := true } := by
        unfold pushTransaction
        simp only [htemp, happly]
        simp [undo, h.enabled]
      exact ⟨_, hstate, hsame _ _, rfl, by simp, rfl, rfl⟩
  | ok r =>
      have hstate : (db.pushTransaction code skip trx).state = { db with
          objects := r.2, stack := db.base :: below.take n, pendingSession := true,
          pendingTx := db.pendingTx ++ [r.1] } := by
        unfold pushTransaction
        simp only [htemp, happly]
        simp [merge, h.enabled]
      exact ⟨_, hstate, hsame _ _, rfl, by simp, rfl, rfl⟩

theorem SameChain.ready (hsame : SameChain db db') (h : db.Ready) (hstack : db'.stack ≠ []) :
    db'.Ready :=
  ⟨hsame.maxSize ▸ h.maxSize, hsame.undoDisabled ▸ h.enabled, fun _ ↦ hstack⟩

theorem SameChain.holds (hsame : SameChain db db') (h : db.Holds P) (hready : db'.Ready) :
    db'.Holds P :=
  ⟨hready, fun o ho ↦ h.committed o (hsame.committed.subset ho), by
    rw [hsame.poppedTx, hsame.poppedBlocks, h.popped]⟩

theorem holds_of_pushTransaction (h : db.Holds P) (trx : Tx) :
    (db.pushTransaction code skip trx).state.Holds P := by
  obtain ⟨db', hstate, hsame, -, hstack, -⟩ :=
    pushTransaction_cases code skip h.toReady trx
  rw [hstate]
  exact hsame.holds h (hsame.ready h.toReady hstack)

/-! ## Restoring what was pending -/

/-- The pending session was built from the head by transactions that applied, or is not there
and nothing is pending. -/
structure Restored (code : Code Tx Res Rest) (allowed : SkipFlags → Prop)
    (db : Database Tx Res Rest) : Prop extends db.Ready where
  idle : db.pendingSession = false → db.pendingTx = []
  applies : Applies code allowed db.base db.pendingTx db.objects

theorem restored_of_pushTransaction {allowed : SkipFlags → Prop} (hskip : allowed skip)
    (h : db.Restored code allowed) (trx : Tx) :
    (db.pushTransaction code skip trx).state.Restored code allowed := by
  obtain ⟨db', hstate, hsame, hsession, hstack, hcases⟩ :=
    pushTransaction_cases code skip h.toReady trx
  rw [hstate]
  refine ⟨hsame.ready h.toReady hstack, fun hs ↦ absurd (hsession.symm.trans hs) (by simp), ?_⟩
  rw [hsame.base]
  cases happly : db.objects.applyTransaction code skip trx with
  | error e =>
      simp only [happly] at hcases
      rw [hcases.1, hcases.2]
      exact h.applies
  | ok r =>
      simp only [happly] at hcases
      rw [hcases.1, hcases.2]
      refine h.applies.snoc hskip ?_
      rw [applyTransaction_trx happly]
      exact happly

theorem sameChain_of_restoreTransaction (code : Code Tx Res Rest) (skip : SkipFlags)
    (h : db.Ready) (ptx : ProcessedTransaction Tx Res) :
    (restoreTransaction code skip db ptx).Ready ∧
      SameChain db (restoreTransaction code skip db ptx) := by
  unfold restoreTransaction
  split_ifs
  · exact ⟨h, .refl db⟩
  · obtain ⟨db', hstate, hsame, -, hstack, -⟩ := pushTransaction_cases code skip h ptx.trx
    rw [hstate]
    exact ⟨hsame.ready h hstack, hsame⟩

theorem sameChain_of_restoreTransactions (code : Code Tx Res Rest) (skip : SkipFlags)
    (h : db.Ready) (ptxs : List (ProcessedTransaction Tx Res)) :
    (ptxs.foldl (restoreTransaction code skip) db).Ready ∧
      SameChain db (ptxs.foldl (restoreTransaction code skip) db) := by
  induction ptxs generalizing db with
  | nil => exact ⟨h, .refl db⟩
  | cons ptx ptxs ih =>
      obtain ⟨hready, hsame⟩ := sameChain_of_restoreTransaction code skip h ptx
      obtain ⟨hready', hsame'⟩ := ih hready
      exact ⟨hready', hsame.trans hsame'⟩

/-- One turn of the restorer tries a transaction. -/
theorem restoreTransaction_eq_try (hskip : skip.transactionDupeCheck = false) (h : db.Ready)
    (ptx : ProcessedTransaction Tx Res) :
    ((restoreTransaction code skip db ptx).objects,
      (restoreTransaction code skip db ptx).pendingTx) =
        tryTransaction code skip (db.objects, db.pendingTx) ptx := by
  unfold restoreTransaction tryTransaction
  split_ifs with hknown
  · obtain ⟨e, herror⟩ := applyTransaction_of_known hskip hknown
    simp only [herror]
  · obtain ⟨db', hstate, -, -, -, hcases⟩ := pushTransaction_cases code skip h ptx.trx
    rw [hstate]
    cases happly : db.objects.applyTransaction code skip ptx.trx with
    | error e =>
        simp only [happly] at hcases ⊢
        rw [hcases.1, hcases.2]
    | ok r =>
        simp only [happly] at hcases ⊢
        rw [hcases.1, hcases.2]

theorem restoreTransactions_eq_try (code : Code Tx Res Rest)
    (hskip : skip.transactionDupeCheck = false) (h : db.Ready)
    (ptxs : List (ProcessedTransaction Tx Res)) :
    ((ptxs.foldl (restoreTransaction code skip) db).objects,
      (ptxs.foldl (restoreTransaction code skip) db).pendingTx) =
        ptxs.foldl (tryTransaction code skip) (db.objects, db.pendingTx) := by
  induction ptxs generalizing db with
  | nil => rfl
  | cons ptx ptxs ih =>
      rw [List.foldl_cons, List.foldl_cons, ih (sameChain_of_restoreTransaction code skip h ptx).1,
        restoreTransaction_eq_try hskip h ptx]

theorem restored_of_restoreTransaction {allowed : SkipFlags → Prop} (hskip : allowed skip)
    (h : db.Restored code allowed) (ptx : ProcessedTransaction Tx Res) :
    (restoreTransaction code skip db ptx).Restored code allowed := by
  unfold restoreTransaction
  split_ifs
  · exact h
  · exact restored_of_pushTransaction hskip h ptx.trx

theorem restored_of_restoreTransactions {allowed : SkipFlags → Prop} (hskip : allowed skip)
    (h : db.Restored code allowed) (ptxs : List (ProcessedTransaction Tx Res)) :
    (ptxs.foldl (restoreTransaction code skip) db).Restored code allowed := by
  induction ptxs generalizing db with
  | nil => exact h
  | cons ptx ptxs ih => exact ih (restored_of_restoreTransaction hskip h ptx)

theorem Settled.restored {allowed : SkipFlags → Prop} (h : db.Settled P []) :
    db.Restored code allowed := by
  refine ⟨h.ready, fun _ ↦ h.pendingTx, ?_⟩
  rw [base_of_noSession h.noSession, h.pendingTx]
  exact .nil

/-- Once a push is over the pending session is the result of the pending transactions on the
head. -/
theorem restored_of_restorePending {allowed : SkipFlags → Prop} (hskip : allowed skip)
    (h : db.Settled P []) (ptxs : List (ProcessedTransaction Tx Res)) :
    (db.restorePending code skip ptxs).Restored code allowed := by
  have hpopped := restored_of_restoreTransactions hskip
    (h.restored : db.Restored code allowed) db.poppedTx
  apply restored_of_restoreTransactions hskip
  exact ⟨⟨hpopped.maxSize, hpopped.enabled, hpopped.session⟩, hpopped.idle, hpopped.applies⟩

/-- The head is the one the push has left. -/
theorem sameChain_of_restorePending (code : Code Tx Res Rest) (skip : SkipFlags) {pending :
    List (ProcessedTransaction Tx Res)} (h : db.Settled P pending)
    (ptxs : List (ProcessedTransaction Tx Res)) :
    (db.restorePending code skip ptxs).base = db.objects ∧
      (db.restorePending code skip ptxs).committed <+: db.committed ∧
      (db.restorePending code skip ptxs).poppedTx = [] ∧
      (db.restorePending code skip ptxs).poppedBlocks = [] ∧
      (db.restorePending code skip ptxs).forkDb = db.forkDb := by
  obtain ⟨hready, hsame⟩ := sameChain_of_restoreTransactions code skip h.ready db.poppedTx
  obtain ⟨-, hsame'⟩ := sameChain_of_restoreTransactions code skip
    (⟨hready.maxSize, hready.enabled, hready.session⟩ : Ready
      { db.poppedTx.foldl (restoreTransaction code skip) db with
        poppedTx := [], poppedBlocks := [] }) ptxs
  exact ⟨(hsame'.base.trans hsame.base).trans (base_of_noSession h.noSession),
    hsame'.committed.trans hsame.committed, hsame'.poppedTx, hsame'.poppedBlocks,
    hsame'.forkDb.trans hsame.forkDb⟩

/-- The popped transactions are tried first and then the ones that were pending. -/
theorem restorePending_eq_try (hskip : skip.transactionDupeCheck = false) (h : db.Settled P [])
    (ptxs : List (ProcessedTransaction Tx Res)) :
    ((db.restorePending code skip ptxs).objects, (db.restorePending code skip ptxs).pendingTx) =
      tryTransactions code skip db.objects (db.poppedTx ++ ptxs) := by
  have hready := (sameChain_of_restoreTransactions code skip h.ready db.poppedTx).1
  have hpopped := restoreTransactions_eq_try code hskip h.ready db.poppedTx
  have hpending := restoreTransactions_eq_try code hskip
    (⟨hready.maxSize, hready.enabled, hready.session⟩ : Ready
      { db.poppedTx.foldl (restoreTransaction code skip) db with
        poppedTx := [], poppedBlocks := [] }) ptxs
  rw [tryTransactions, List.foldl_append]
  rw [h.pendingTx] at hpopped
  exact hpending.trans (by rw [← hpopped])

theorem state_pushBlock (code : Code Tx Res Rest) (skip : SkipFlags) (db : Database Tx Res Rest)
    (b : SignedBlock Tx Res) : (db.pushBlock code skip b).state =
      (db.clearPending.pushNewBlock code skip b).state.restorePending code skip db.pendingTx := by
  unfold pushBlock withoutPendingTransactions
  rw [Outcome.state_map]

/-- However a push ends, what blocks preserve holds of all committed states. -/
theorem holds_of_pushBlock (hP : ∀ o o' b, P o → o.applyBlock code skip b = .ok o' → P o')
    (h : db.Holds P) (b : SignedBlock Tx Res) : (db.pushBlock code skip b).state.Holds P := by
  have hsettled : (db.clearPending.pushNewBlock code skip b).state.Settled P [] :=
    settled_of_pushNewBlock hP (settled_of_clearPending h).1
  have hrestored : Restored code (Eq skip) ((db.clearPending.pushNewBlock code skip
      b).state.restorePending code skip db.pendingTx) :=
    restored_of_restorePending rfl hsettled db.pendingTx
  obtain ⟨-, hcommitted, htx, hblocks, -⟩ :=
    sameChain_of_restorePending code skip hsettled db.pendingTx
  rw [state_pushBlock]
  exact ⟨hrestored.toReady, fun o ho ↦ hsettled.toHolds.committed o (hcommitted.subset ho), by
    rw [htx, hblocks]
    rfl⟩

end Database

end KarmaCore.Chain
