import Mathlib
import KarmaCore.Chain.AcceptableBlock

/-!
# Replaying the block log

A node that starts without its objects applies the blocks of its log again, with
most checks left out: the old ones without sessions, the last ones as pushes.
-/

namespace KarmaCore.Chain

variable {Tx Res Rest : Type} (code : Code Tx Res Rest)

namespace BlockDatabase

variable (hash : SignedBlock Tx Res → ℕ) (log : BlockDatabase Tx Res)

/-- The highest block up to a number that can be read. -/
def lastUpTo : ℕ → Option (SignedBlock Tx Res)
  | 0 => log.fetchByNumber hash 0
  | n + 1 => (log.fetchByNumber hash (n + 1)).or (lastUpTo n)

/-- `last`. -/
def lastBlock : Option (SignedBlock Tx Res) := log.lastUpTo hash log.last

def remove (id : BlockId) : BlockDatabase Tx Res :=
  match log.entries id.num with
  | some (stored, _) =>
      if stored = id then { log with entries := Function.update log.entries id.num none } else log
  | none => log

/-- The blocks from after a gap at `i` are dropped. -/
def dropAfter (i : ℕ) : ℕ → BlockDatabase Tx Res → BlockDatabase Tx Res
  | 0, log => log
  | fuel + 1, log =>
      match log.lastBlock hash with
      | none => log
      | some b => if b.blockNum ≤ i then log else dropAfter i fuel (log.remove (b.id hash))

end BlockDatabase

namespace Database

variable (db : Database Tx Res Rest)

/-- A block that is the only one of its number is taken from the fork database. -/
def fetchBlockByNumber (num : ℕ) : Option (SignedBlock Tx Res) :=
  match db.forkDb.fetchBlockByNumber num with
  | [item] => some item.data
  | _ => db.blockLog.fetchByNumber code.blockHash num

/-- The loop of `reindex`: `count` blocks from block `i` on, those from the undo point on in
sessions. -/
def replay (undoPoint : ℕ) : ℕ → ℕ → Database Tx Res Rest →
    Outcome ChainError (Database Tx Res Rest)
  | 0, _, db => .returned db
  | count + 1, i, db =>
      match db.blockLog.fetchByNumber code.blockHash i with
      | none => .returned { db with
          blockLog := db.blockLog.dropAfter code.blockHash i (db.blockLog.last + 1) }
      | some b =>
          if i < undoPoint then
            (db.applyBlock code .reindex b).andThen (replay undoPoint count (i + 1))
          else
            ({ db with undoDisabled := false }.pushBlock code .reindex b).andThen
              (replay undoPoint count (i + 1))

/-- The fork database begins at the head when all blocks are pushed. -/
def startReplay (undoPoint : ℕ) : Outcome ChainError (Database Tx Res Rest) :=
  if undoPoint ≤ db.objects.head.number then
    if 0 < db.objects.head.number then
      match db.fetchBlockByNumber code db.objects.head.number with
      | none => .threw .danglingReference db
      | some b => .returned
          { db with forkDb := db.forkDb.startBlock (b.id code.blockHash) b }
    else .returned db
  else .returned { db with undoDisabled := true }

def reindex : Outcome ChainError (Database Tx Res Rest) :=
  match db.blockLog.lastBlock code.blockHash with
  | none => .returned db
  | some last =>
      if last.blockNum ≤ db.objects.head.number then .returned db
      else
        let undoPoint := last.blockNum - 50
        ((db.startReplay code undoPoint).andThen
          (replay code undoPoint (last.blockNum - db.objects.head.number)
            (db.objects.head.number + 1))).andThen
          fun db ↦ .returned { db with undoDisabled := false }

end Database

variable {code}

/-! ## A block under the flags of a replay -/

/-- What evaluators and passes do is the same under the flags of a replay, once all checks
hold. -/
structure Code.Replayable (code : Code Tx Res Rest) : Prop where
  operate : ∀ trx head rest r, code.operate {} trx head rest = .ok r →
    code.operate .reindex trx head rest = .ok r
  updateGlobalDynamicData : ∀ b head rest rest',
    code.updateGlobalDynamicData {} b head rest = .ok rest' →
      code.updateGlobalDynamicData .reindex b head rest = .ok rest'
  finishBlock : ∀ b head rest rest', code.finishBlock {} b head rest = .ok rest' →
    code.finishBlock .reindex b head rest = .ok rest'

/-- What applies under the first flags applies under the second, which record no transaction. -/
structure Code.Relaxes (code : Code Tx Res Rest) (skip skip' : SkipFlags) : Prop where
  dupe : skip'.transactionDupeCheck = true
  authority : skip'.authorityCheck = true
  tapos : skip'.taposCheck = true
  signature : skip'.witnessSignature = true
  schedule : skip'.witnessScheduleCheck = true
  merkle : skip.merkleCheck = true → skip'.merkleCheck = true
  undoHistory : skip.undoHistoryCheck = true → skip'.undoHistoryCheck = true
  operate : ∀ trx head rest r, code.operate skip trx head rest = .ok r →
    code.operate skip' trx head rest = .ok r
  updateGlobalDynamicData : ∀ b head rest rest',
    code.updateGlobalDynamicData skip b head rest = .ok rest' →
      code.updateGlobalDynamicData skip' b head rest = .ok rest'
  finishBlock : ∀ b head rest rest', code.finishBlock skip b head rest = .ok rest' →
    code.finishBlock skip' b head rest = .ok rest'

theorem Code.Replayable.relaxes (h : code.Replayable) : code.Relaxes {} .reindex where
  dupe := rfl
  authority := rfl
  tapos := rfl
  signature := rfl
  schedule := rfl
  merkle := id
  undoHistory := id
  operate := h.operate
  updateGlobalDynamicData := h.updateGlobalDynamicData
  finishBlock := h.finishBlock

theorem Code.relaxes_all (code : Code Tx Res Rest) : code.Relaxes .all .all where
  dupe := rfl
  authority := rfl
  tapos := rfl
  signature := rfl
  schedule := rfl
  merkle := id
  undoHistory := id
  operate _ _ _ _ := id
  updateGlobalDynamicData _ _ _ _ := id
  finishBlock _ _ _ _ := id

/-- The flags of a block depend on the checkpoints alone, or are those of the caller. -/
theorem Code.skipFor_cases {b : SignedBlock Tx Res} {skip skip' : SkipFlags}
    (h : code.skipFor b skip = .ok skip') :
    (skip' = skip ∧ ∀ s, code.skipFor b s = .ok s) ∨
      (skip' = .all ∧ ∀ s, code.skipFor b s = .ok .all) := by
  unfold skipFor at h ⊢
  cases hlast : code.checkpoints.getLast? with
  | none =>
      simp only [hlast, Except.ok.injEq] at h
      exact .inl ⟨h.symm, fun _ ↦ rfl⟩
  | some last =>
      simp only [hlast] at h
      dsimp only
      split_ifs at h ⊢ with hnull hcovered
      · exact .inl ⟨(Except.ok.inj h).symm, fun _ ↦ rfl⟩
      · simp only [Checked.bind_eq_ok, require_eq_ok, Checked.pure_eq_ok] at h ⊢
        obtain ⟨u, hmet, rfl⟩ := h
        exact .inr ⟨rfl, fun _ ↦ ⟨u, hmet, trivial⟩⟩
      · simp only [Checked.bind_eq_ok, require_eq_ok, Checked.pure_eq_ok] at h ⊢
        obtain ⟨u, hmet, rfl⟩ := h
        exact .inl ⟨rfl, fun _ ↦ ⟨u, hmet, trivial⟩⟩

namespace Objects

variable {o o' : Objects Tx Res Rest} {b : SignedBlock Tx Res} {skip skip' : SkipFlags}
  {transactions : ObjectIndex (TransactionObject Tx)}

/-- The objects with another index of transactions. -/
def withTransactions (o : Objects Tx Res Rest)
    (transactions : ObjectIndex (TransactionObject Tx)) : Objects Tx Res Rest :=
  { o with transactions }

section relaxed

variable (hrelaxes : code.Relaxes skip skip')

include hrelaxes

theorem applyTransaction_relaxed {trx : Tx} {ptx : ProcessedTransaction Tx Res}
    (h : o.applyTransaction code skip trx = .ok (ptx, o')) :
    (o.withTransactions transactions).applyTransaction code skip' trx =
      .ok (ptx, o'.withTransactions transactions) := by
  simp only [applyTransaction, checkTransaction, Checked.bind_eq_ok, require_eq_ok,
    Checked.pure_eq_ok] at h ⊢
  obtain ⟨u, ⟨u₁, hvalid, u₂, -, u₃, -, hexpiration⟩, ⟨res, rest⟩, hoperate, heq⟩ := h
  obtain ⟨rfl, rfl⟩ := Prod.mk.inj heq
  have hrecord : (o.withTransactions transactions).recordTransaction code skip' trx =
      o.withTransactions transactions := by
    rw [recordTransaction, if_pos hrelaxes.dupe]
  have hrest : (o.recordTransaction code skip trx).head = o.head ∧
      (o.recordTransaction code skip trx).blocks = o.blocks := by
    unfold recordTransaction
    split_ifs <;> exact ⟨rfl, rfl⟩
  refine ⟨u, ⟨u₁, hvalid, u₂, .inl hrelaxes.dupe, u₃, ?_, ?_⟩, ⟨res, rest⟩,
    hrelaxes.operate _ _ _ _ hoperate, ?_⟩
  · rw [whenever_eq_ok]
    exact .inr ⟨by simp [hrelaxes.authority], rfl⟩
  · unfold checkExpiration at hexpiration ⊢
    by_cases hnumber : 0 < o.head.number
    · rw [if_pos hnumber] at hexpiration
      rw [if_pos (show 0 < (o.withTransactions transactions).head.number from hnumber)]
      simp only [Checked.bind_eq_ok, require_eq_ok] at hexpiration ⊢
      obtain ⟨v, -, w, hlate, hlive⟩ := hexpiration
      refine ⟨v, ?_, w, hlate, hlive⟩
      rw [whenever_eq_ok]
      exact .inr ⟨by simp [hrelaxes.tapos], rfl⟩
    · rw [if_neg (show ¬0 < (o.withTransactions transactions).head.number from hnumber)]
  · rw [hrecord, withTransactions, withTransactions, hrest.1, hrest.2]

theorem applyTransactions_relaxed {ptxs : List (ProcessedTransaction Tx Res)}
    (h : applyTransactions code skip ptxs o = .ok o') :
    applyTransactions code skip' ptxs (o.withTransactions transactions) =
      .ok (o'.withTransactions transactions) := by
  induction ptxs generalizing o with
  | nil =>
      cases h
      rfl
  | cons ptx ptxs ih =>
      simp only [applyTransactions, Checked.bind_eq_ok] at h ⊢
      obtain ⟨⟨ptx', o₁⟩, hfirst, hrest⟩ := h
      exact ⟨_, applyTransaction_relaxed hrelaxes hfirst, ih hrest⟩

theorem applyBody_relaxed (h : o.applyBody code skip b = .ok o') :
    (o.withTransactions transactions).applyBody code skip' b =
      .ok (o'.withTransactions transactions) := by
  simp only [applyBody, validateBlockHeader, Checked.bind_eq_ok, require_eq_ok] at h ⊢
  obtain ⟨u, hmerkle, v, ⟨w, hprevious, x, htime, signingKey, hsigningKey, y, -, -⟩, hbody⟩ := h
  refine ⟨u, hmerkle.imp_left hrelaxes.merkle, v, ⟨w, hprevious, x, htime, signingKey,
    hsigningKey, y, .inl hrelaxes.signature, ?_⟩, applyTransactions_relaxed hrelaxes hbody⟩
  rw [whenever_eq_ok]
  exact .inr ⟨by simp [hrelaxes.schedule], rfl⟩

theorem advanceHead_relaxed (h : o.advanceHead code skip b = .ok o') :
    (o.withTransactions transactions).advanceHead code skip' b =
      .ok (o'.withTransactions transactions) := by
  simp only [advanceHead, Checked.bind_eq_ok, require_eq_ok, Checked.pure_eq_ok] at h ⊢
  obtain ⟨rest, hupdate, u, hhistory, rfl⟩ := h
  exact ⟨rest, hrelaxes.updateGlobalDynamicData _ _ _ _ hupdate, u,
    hhistory.imp_left hrelaxes.undoHistory, rfl⟩

theorem finish_relaxed (hnone : transactions.objects = []) (h : o.finish code skip b = .ok o') :
    (o.withTransactions transactions).finish code skip' b =
      .ok (o'.withTransactions transactions) := by
  simp only [finish, Checked.bind_eq_ok, Checked.pure_eq_ok] at h ⊢
  obtain ⟨rest, hfinish, rfl⟩ := h
  refine ⟨rest, hrelaxes.finishBlock _ _ _ _ hfinish, ?_⟩
  simp [withTransactions, clearExpiredTransactions, expiredTransactions, hnone]

end relaxed

/-- A block that was applied without skipping a check applies in a replay, to the same
objects without their transactions. -/
theorem applyBlock_reindex (hcode : code.Replayable) (hnone : transactions.objects = [])
    (h : o.applyBlock code {} b = .ok o') :
    (o.withTransactions transactions).applyBlock code .reindex b =
      .ok (o'.withTransactions transactions) := by
  simp only [applyBlock, Checked.bind_eq_ok] at h ⊢
  obtain ⟨skip, hskip, body, hbody, advanced, hadvanced, hfinish⟩ := h
  rcases Code.skipFor_cases hskip with ⟨rfl, hflags⟩ | ⟨rfl, hflags⟩
  · exact ⟨_, hflags _, _, applyBody_relaxed hcode.relaxes hbody, _,
      advanceHead_relaxed hcode.relaxes hadvanced, finish_relaxed hcode.relaxes hnone hfinish⟩
  · exact ⟨_, hflags _, _, applyBody_relaxed code.relaxes_all hbody, _,
      advanceHead_relaxed code.relaxes_all hadvanced,
      finish_relaxed code.relaxes_all hnone hfinish⟩

end Objects

end KarmaCore.Chain
