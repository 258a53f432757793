import Mathlib
import KarmaCore.Chain.Database

/-!
# What holds of every committed state

Sessions, pops and pushed blocks only ever bring back a committed state or apply
a block to one.  So what applying a block preserves holds of the head and of all
states below it, however the calls end.
-/

namespace KarmaCore.Chain

variable {Tx Res Rest : Type} {code : Code Tx Res Rest} {db db' : Database Tx Res Rest}
  {P : Objects Tx Res Rest → Prop} {pending : List (ProcessedTransaction Tx Res)}
  {skip : SkipFlags}

/-- What a block does to the objects when it is applied. -/
def Objects.applyBlock (code : Code Tx Res Rest) (skip : SkipFlags) (b : SignedBlock Tx Res)
    (o : Objects Tx Res Rest) : Checked (Objects Tx Res Rest) := do
  let skip ← code.skipFor b skip
  let body ← o.applyBody code skip b
  let advanced ← body.advanceHead code skip b
  advanced.finish code skip b

namespace Database

/-- The objects of the head block and of those below it. -/
def base (db : Database Tx Res Rest) : Objects Tx Res Rest :=
  if db.pendingSession then db.stack.head?.getD db.objects else db.objects

def committed (db : Database Tx Res Rest) : List (Objects Tx Res Rest) :=
  if db.pendingSession then db.stack else db.objects :: db.stack

/-- No session is lost to the size of the stack. -/
structure Ready (db : Database Tx Res Rest) : Prop where
  maxSize : 1 ≤ db.maxSize
  enabled : db.undoDisabled = false
  session : db.pendingSession = true → db.stack ≠ []

/-- A database between transactions and blocks: `P` holds of all its committed states, and
`poppedTx` is what was popped. -/
structure Holds (P : Objects Tx Res Rest → Prop) (db : Database Tx Res Rest) : Prop
    extends db.Ready where
  committed : ∀ o ∈ db.committed, P o
  popped : db.poppedTx = db.poppedBlocks.flatMap (·.transactions)

/-- The same without a pending session. -/
structure Settled (P : Objects Tx Res Rest → Prop)
    (pending : List (ProcessedTransaction Tx Res)) (db : Database Tx Res Rest) : Prop where
  maxSize : 1 ≤ db.maxSize
  enabled : db.undoDisabled = false
  noSession : db.pendingSession = false
  pendingTx : db.pendingTx = pending
  objects : P db.objects
  stack : ∀ o ∈ db.stack, P o
  popped : db.poppedTx = db.poppedBlocks.flatMap (·.transactions)

/-! ## Sessions -/

theorem committed_of_noSession (h : db.pendingSession = false) :
    db.committed = db.objects :: db.stack := by simp [committed, h]

theorem committed_of_session (h : db.pendingSession = true) : db.committed = db.stack := by
  simp [committed, h]

theorem resetPendingSession_of_noSession (h : db.pendingSession = false) :
    db.resetPendingSession = db := by simp [resetPendingSession, h]

theorem clearPending_of_noSession (h : db.pendingSession = false) :
    db.clearPending = { db with pendingTx := [] } := by
  rw [clearPending, resetPendingSession_of_noSession h]

theorem base_of_noSession (h : db.pendingSession = false) : db.base = db.objects := by
  simp [base, h]

theorem base_mem_committed (h : db.Ready) : db.base ∈ db.committed := by
  cases hsession : db.pendingSession with
  | false => simp [base, committed, hsession]
  | true =>
      obtain ⟨o, stack, hstack⟩ := List.exists_cons_of_ne_nil (h.session hsession)
      simp [base, committed, hsession, hstack]

theorem Holds.base (h : db.Holds P) : P db.base := h.committed _ (base_mem_committed h.toReady)

/-- The pending session is undone to the head. -/
theorem resetPendingSession_cases (h : db.Ready) : ∃ stack, db.committed = db.base :: stack ∧
    db.resetPendingSession =
      { db with objects := db.base, stack, pendingSession := false } := by
  unfold resetPendingSession
  cases hsession : db.pendingSession with
  | false =>
      refine ⟨db.stack, ?_, ?_⟩
      · rw [committed_of_noSession hsession, base_of_noSession hsession]
      · rw [if_neg (by simp), base_of_noSession hsession]
        cases db
        simp_all
  | true =>
      obtain ⟨o, stack, hstack⟩ := List.exists_cons_of_ne_nil (h.session hsession)
      refine ⟨stack, ?_, ?_⟩
      · simp [committed_of_session hsession, base, hsession, hstack]
      · rw [if_pos rfl]
        simp [undo, h.enabled, hstack, base, hsession]

theorem settled_of_resetPendingSession (h : db.Holds P) :
    db.resetPendingSession.Holds P ∧ db.resetPendingSession.pendingSession = false ∧
      db.resetPendingSession.objects = db.base := by
  obtain ⟨stack, hcommitted, hreset⟩ := resetPendingSession_cases h.toReady
  have hstates := h.committed
  rw [hcommitted] at hstates
  rw [hreset]
  exact ⟨⟨⟨h.maxSize, h.enabled, by simp⟩, hstates, h.popped⟩, rfl, rfl⟩

theorem settled_of_clearPending (h : db.Holds P) :
    db.clearPending.Settled P [] ∧ db.clearPending.objects = db.base := by
  obtain ⟨hholds, hsession, hobjects⟩ := settled_of_resetPendingSession h
  have hcommitted := hholds.committed
  rw [committed_of_noSession hsession, List.forall_mem_cons] at hcommitted
  exact ⟨⟨hholds.maxSize, hholds.enabled, hsession, rfl, hcommitted.1, hcommitted.2,
    hholds.popped⟩, hobjects⟩

theorem Settled.toHolds (h : db.Settled P pending) : db.Holds P where
  maxSize := h.maxSize
  enabled := h.enabled
  session hs := absurd (hs.symm.trans h.noSession) (by simp)
  committed := by
    rw [committed_of_noSession h.noSession, List.forall_mem_cons]
    exact ⟨h.objects, h.stack⟩
  popped := h.popped

theorem Settled.ready (h : db.Settled P pending) : db.Ready := h.toHolds.toReady

/-! ## Blocks -/

section blocks

variable {b : SignedBlock Tx Res} {id : BlockId}

theorem Settled.withForkDb (h : db.Settled P pending) (forkDb : ForkDatabase Tx Res) :
    Database.Settled P pending { db with forkDb } :=
  ⟨h.maxSize, h.enabled, h.noSession, h.pendingTx, h.objects, h.stack, h.popped⟩

theorem settled_of_popBlock (h : db.Settled P pending) :
    (db.popBlock code).state.Settled P pending := by
  unfold popBlock
  simp only [resetPendingSession_of_noSession h.noSession]
  split
  case h_1 => exact h
  case h_2 b hfetch =>
    split
    case h_1 => exact h
    case h_2 forkDb hfork =>
      simp only [popUndo]
      split
      case h_1 => exact h.withForkDb forkDb
      case h_2 o stack hstack =>
        have hstates := h.stack
        rw [hstack, List.forall_mem_cons] at hstates
        exact ⟨h.maxSize, h.enabled, h.noSession, h.pendingTx, hstates.1, hstates.2,
          by simp [h.popped]⟩

theorem resetPendingSession_pendingTx (db : Database Tx Res Rest) :
    db.resetPendingSession.pendingTx = db.pendingTx := by
  unfold resetPendingSession undo
  split_ifs
  · rfl
  · split <;> rfl
  · rfl

/-- A pop ends the pending session but keeps the list. -/
theorem settled_of_popBlock_of_holds (h : db.Holds P) :
    (db.popBlock code).state.Settled P db.pendingTx := by
  obtain ⟨hreset, hsession, -⟩ := settled_of_resetPendingSession h
  have hcommitted := hreset.committed
  rw [committed_of_noSession hsession, List.forall_mem_cons] at hcommitted
  have hsettled : db.resetPendingSession.Settled P db.pendingTx :=
    ⟨hreset.maxSize, hreset.enabled, hsession, resetPendingSession_pendingTx db, hcommitted.1,
      hcommitted.2, hreset.popped⟩
  have htwice := resetPendingSession_of_noSession hsession
  have hpop : db.popBlock code = db.resetPendingSession.popBlock code := by
    simp only [popBlock, htwice]
  rw [hpop]
  exact settled_of_popBlock hsettled

theorem holds_of_popBlock (h : db.Holds P) : (db.popBlock code).state.Holds P :=
  (settled_of_popBlock_of_holds h).toHolds

/-- A block changes the objects as `Objects.applyBlock` says, beside the sizes. -/
theorem applyBlock_cases (code : Code Tx Res Rest) (db : Database Tx Res Rest) (skip : SkipFlags)
    (b : SignedBlock Tx Res) :
    ∃ size forkDb, (1 ≤ db.maxSize → 1 ≤ size) ∧
      match db.objects.applyBlock code skip b with
      | .error e => db.applyBlock code skip b = .threw e { db with maxSize := size, forkDb }
      | .ok o =>
          db.applyBlock code skip b = .returned { db with objects := o, maxSize := size, forkDb } := by
  unfold applyBlock Objects.applyBlock
  cases hskip : code.skipFor b skip with
  | error e => exact ⟨db.maxSize, db.forkDb, id, rfl⟩
  | ok skip' =>
      cases hbody : db.objects.applyBody code skip' b with
      | error e =>
          refine ⟨db.maxSize, db.forkDb, id, ?_⟩
          simp [bind, Except.bind, hbody]
      | ok body =>
          cases hadvance : body.advanceHead code skip' b with
          | error e =>
              refine ⟨db.maxSize, db.forkDb, id, ?_⟩
              simp [bind, Except.bind, hbody, hadvance]
          | ok advanced =>
              refine ⟨advanced.historySize code, db.forkDb.setMaxSize (advanced.historySize code),
                fun _ ↦ Nat.le_add_left 1 _, ?_⟩
              cases hfinish : advanced.finish code skip' b with
              | error e =>
                  simp [bind, Except.bind, pure, Except.pure, hbody, hadvance, hfinish,
                    setHistorySize]
              | ok o =>
                  simp [bind, Except.bind, pure, Except.pure, hbody, hadvance, hfinish,
                    setHistorySize]

/-- A block in its session: the objects are back where they were, or the block is applied and
stored. -/
theorem applyInSession_cases (hdb : db.undoDisabled = false) (code : Code Tx Res Rest)
    (skip : SkipFlags) (b : SignedBlock Tx Res) (id : BlockId) :
    ∃ size forkDb, (1 ≤ db.maxSize → 1 ≤ size) ∧
      match db.objects.applyBlock code skip b with
      | .error e => db.applyInSession code skip b id =
          .threw e { db with stack := db.stack.take db.maxSize, maxSize := size, forkDb }
      | .ok o => db.applyInSession code skip b id = .returned { db with
          objects := o, stack := db.objects :: db.stack.take db.maxSize, maxSize := size, forkDb,
          blockLog := db.blockLog.store code.blockHash id b } := by
  have hstart : db.startUndoSession =
      { db with stack := db.objects :: db.stack.take db.maxSize } := by
    simp [startUndoSession, hdb]
  obtain ⟨size, forkDb, hsize, hcases⟩ := applyBlock_cases code db.startUndoSession skip b
  refine ⟨size, forkDb, by simpa [hstart] using hsize, ?_⟩
  have hobjects : db.startUndoSession.objects = db.objects := by rw [hstart]
  rw [hobjects] at hcases
  unfold applyInSession
  cases happly : db.objects.applyBlock code skip b with
  | error e =>
      simp only [happly] at hcases
      rw [hcases]
      simp [undo, hstart, hdb]
  | ok o =>
      simp only [happly] at hcases
      rw [hcases]
      simp [hstart]

variable (hP : ∀ o o' b, P o → o.applyBlock code skip b = .ok o' → P o')

include hP

theorem settled_of_applyInSession (h : db.Settled P pending) :
    (db.applyInSession code skip b id).state.Settled P pending := by
  obtain ⟨size, forkDb, hsize, hcases⟩ := applyInSession_cases h.enabled code skip b id
  have hstack : ∀ o ∈ db.stack.take db.maxSize, P o := fun o ho ↦
    h.stack o (List.mem_of_mem_take ho)
  cases happly : db.objects.applyBlock code skip b with
  | error e =>
      simp only [happly] at hcases
      rw [hcases]
      exact ⟨hsize h.maxSize, h.enabled, h.noSession, h.pendingTx, h.objects, hstack, h.popped⟩
  | ok o =>
      simp only [happly] at hcases
      rw [hcases]
      exact ⟨hsize h.maxSize, h.enabled, h.noSession, h.pendingTx, hP _ _ _ h.objects happly,
        List.forall_mem_cons.mpr ⟨h.objects, hstack⟩, h.popped⟩

theorem settled_of_applyBranch {idFor : ForkItem Tx Res → BlockId} {items : List (ForkItem Tx Res)}
    (h : db.Settled P pending) : (applyBranch code skip idFor items db).state.Settled P pending :=
  Outcome.state_forEach h fun _ _ _ ↦ settled_of_applyInSession hP

omit hP in
theorem settled_of_popUntil {fuel : ℕ} (h : db.Settled P pending) :
    (popUntil code id fuel db).state.Settled P pending := by
  induction fuel generalizing db with
  | zero =>
      unfold popUntil
      split_ifs
      · exact h
      · exact settled_of_popBlock h
  | succ fuel ih =>
      unfold popUntil
      split_ifs
      · exact h
      · exact Outcome.state_andThen (settled_of_popBlock h) fun _ ↦ ih

theorem settled_of_restoreBranch {newId ancestor : BlockId}
    {invalid second : List (ForkItem Tx Res)} {top : ForkItem Tx Res} (h : db.Settled P pending) :
    (db.restoreBranch code skip newId invalid top ancestor second).state.Settled P pending := by
  have hremove : (db.removeAll code invalid).Settled P pending := h.withForkDb _
  exact Outcome.state_andThen (settled_of_popUntil (hremove.withForkDb _)) fun _ ↦
    settled_of_applyBranch hP

theorem settled_of_pushBranch {newId ancestor : BlockId} {second items : List (ForkItem Tx Res)}
    {top : ForkItem Tx Res} (h : db.Settled P pending) :
    (pushBranch code skip newId top ancestor second items db).state.Settled P pending := by
  induction items generalizing db with
  | nil => exact h
  | cons item items ih =>
      have hfirst : (db.applyInSession code skip item.data item.id).state.Settled P pending :=
        settled_of_applyInSession hP h
      unfold pushBranch
      cases hitem : db.applyInSession code skip item.data item.id with
      | returned db' =>
          rw [hitem] at hfirst
          exact ih hfirst
      | threw e db' =>
          rw [hitem] at hfirst
          exact Outcome.state_andThen (settled_of_restoreBranch hP hfirst) fun _ ↦ id

theorem settled_of_switchForks {newId : BlockId} {newHead : ForkItem Tx Res}
    (h : db.Settled P pending) :
    (db.switchForks code skip newId newHead).state.Settled P pending := by
  unfold switchForks
  split
  case h_1 => exact h
  case h_2 first second hbranches =>
    split
    case h_1 top bottom htop hbottom =>
      dsimp only
      rw [Outcome.state_map]
      have hheld := h.withForkDb { db.forkDb with held := first ++ second }
      exact (Outcome.state_andThen (settled_of_popUntil hheld) fun _ ↦
        settled_of_pushBranch hP : Settled P pending _).withForkDb _
    case h_2 => exact h

theorem settled_of_extendHead (h : db.Settled P pending) :
    (db.extendHead code skip b).state.Settled P pending := by
  have hblock : (db.applyInSession code skip b (b.id code.blockHash)).state.Settled P pending :=
    settled_of_applyInSession hP h
  unfold extendHead
  cases hitem : db.applyInSession code skip b (b.id code.blockHash) with
  | returned db' => rwa [hitem] at hblock
  | threw e db' =>
      rw [hitem] at hblock
      exact hblock.withForkDb _

/-- However a push ends, `P` holds of all committed states. -/
theorem settled_of_pushNewBlock (h : db.Settled P pending) :
    (db.pushNewBlock code skip b).state.Settled P pending := by
  unfold pushNewBlock
  split_ifs
  · exact settled_of_extendHead hP h
  · split
    case h_1 => exact h
    case h_2 forkDb hfork =>
      dsimp only
      split
      case h_1 => exact h.withForkDb forkDb
      case h_2 newHead hhead =>
        split_ifs
        · exact settled_of_extendHead hP (h.withForkDb forkDb)
        · exact settled_of_switchForks hP (h.withForkDb forkDb)
        · exact h.withForkDb forkDb

end blocks

end Database

end KarmaCore.Chain
