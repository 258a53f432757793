import Mathlib
import KarmaCore.Chain.FailedProduction

/-!
# A produced block is accepted

The transactions of a produced block apply again without sessions, and the block
meets every check that a push makes before the passes, when its producer is the
one of the slot on the head.
-/

namespace KarmaCore.Chain

variable {Tx Res Rest : Type} {code : Code Tx Res Rest} {time witness key : ℕ}

/-! ## The checks of the header -/

/-- A slot lies after the head. -/
theorem Objects.time_lt_of_getSlotAtTime {o : Objects Tx Res Rest}
    (hinterval : 0 < code.blockInterval o.rest) (hslot : 0 < o.getSlotAtTime code time) :
    o.head.time < time := by
  have hfirst : o.head.time < o.getSlotTime code 1 := by
    unfold getSlotTime
    dsimp only
    rw [if_neg one_ne_zero]
    split_ifs
    · omega
    · have hmod := Nat.div_add_mod o.head.time (code.blockInterval o.rest)
      have hlt := Nat.mod_lt o.head.time hinterval
      nlinarith [hmod, hlt]
    · have hmod := Nat.div_add_mod o.head.time (code.blockInterval o.rest)
      have hlt := Nat.mod_lt o.head.time hinterval
      nlinarith [hmod, hlt]
  unfold getSlotAtTime at hslot
  dsimp only at hslot
  split_ifs at hslot with hearly
  · omega
  · omega

/-- No checkpoint is at or above a block on a head that is above all of them. -/
theorem Code.skipFor_of_above {b : SignedBlock Tx Res} {skip : SkipFlags}
    (h : ∀ c ∈ code.checkpoints, c.1 < b.blockNum) : code.skipFor b skip = .ok skip := by
  unfold skipFor
  cases hlast : code.checkpoints.getLast? with
  | none => rfl
  | some last =>
      have hbelow := h last (List.mem_of_getLast? hlast)
      have hnone : ∀ c ∈ code.checkpoints, c.1 = b.blockNum → b.id code.blockHash = c.2 :=
        fun c hc heq ↦ absurd heq (h c hc).ne
      have hmet : require (∀ c ∈ code.checkpoints, c.1 = b.blockNum → b.id code.blockHash = c.2)
          "Block did not match checkpoint" = .ok () := require_eq_ok.mpr hnone
      dsimp only
      split_ifs with hnull hcovered
      · rfl
      · exact absurd hcovered hbelow.not_ge
      · rw [hmet]
        rfl

namespace Database

variable {db start : Database Tx Res Rest}

/-! ## The fork database -/

/-- The fork database knows the head block, once it has any, and is not ahead of it. -/
structure InStep (db : Database Tx Res Rest) : Prop where
  notAhead : db.NotAhead
  known : db.forkDb.head.isSome → db.base.head.id ≠ .null →
    (db.forkDb.fetchBlock db.base.head.id).isSome
  size : 0 < db.forkDb.maxSize

theorem pushBlock_forkDb_of_inStep {b : SignedBlock Tx Res} (h : db.InStep)
    (hprevious : b.previous = db.base.head.id) (id : BlockId) :
    ∃ forkDb, db.forkDb.pushBlock id b = .ok forkDb := by
  have hnew : ∀ head ∈ db.forkDb.head, head.num - db.forkDb.maxSize < b.blockNum := by
    intro head hhead
    have hsize := h.size
    have hnum : b.blockNum = db.base.head.id.num + 1 := by rw [SignedBlock.blockNum, hprevious]
    rcases h.notAhead head hhead with hle | hbuilds
    · omega
    · have hhigher : head.num = db.base.head.id.num + 1 := by
        rw [ForkItem.num, SignedBlock.blockNum, ← hbuilds]
        rfl
      omega
  obtain ⟨item, hlink⟩ : ∃ item, db.forkDb.link id b = .ok item := by
    unfold ForkDatabase.link
    split_ifs with hlinked
    · obtain ⟨prev, hprev⟩ := Option.isSome_iff_exists.mp
        (h.known hlinked.1 (hprevious ▸ hlinked.2))
      rw [hprevious, hprev]
      exact ⟨_, rfl⟩
    · exact ⟨_, rfl⟩
  refine ⟨(db.forkDb.insert item).raise item, ?_⟩
  simp only [ForkDatabase.pushBlock, Checked.bind_eq_ok, require_eq_ok]
  exact ⟨(), hnew, item, hlink, rfl⟩

/-- A block on the head is accepted exactly when it applies there. -/
theorem pushBlock_returned_iff (code : Code Tx Res Rest) (skip : SkipFlags) {b : SignedBlock Tx Res}
    (h : db.Holds fun _ ↦ True) (hsession : db.pendingSession = false)
    (hprevious : b.previous = db.base.head.id) (hinStep : db.InStep) :
    (∃ db', db.pushBlock code skip b = .returned db') ↔
      ∃ o, db.base.applyBlock code skip b = .ok o := by
  have hbase : db.base = db.clearPending.objects := (settled_of_clearPending h).2.symm
  have henabled : db.clearPending.undoDisabled = false := (settled_of_clearPending h).1.enabled
  have hmap : (∃ db', db.pushBlock code skip b = .returned db') ↔
      ∃ mid, db.clearPending.pushNewBlock code skip b = .returned mid := by
    unfold pushBlock withoutPendingTransactions
    simp only [Outcome.map_eq_returned]
    constructor
    · rintro ⟨_, mid, hmid, -⟩
      exact ⟨mid, hmid⟩
    · rintro ⟨mid, hmid⟩
      exact ⟨_, mid, hmid, rfl⟩
  have hforkDb : db.clearPending.forkDb = db.forkDb := by
    rw [clearPending_of_noSession hsession]
  have hahead := hinStep.notAhead
  rw [NotAhead, hbase, ← hforkDb] at hahead
  obtain ⟨forkDb', hfork⟩ := pushBlock_forkDb_of_inStep hinStep hprevious (b.id code.blockHash)
  rw [hmap, hbase]
  rw [hbase] at hprevious
  rcases pushNewBlock_cases code skip hprevious hahead with ⟨e, herror, -⟩ | ⟨forkDb, hextend⟩
  · rw [hforkDb, hfork] at herror
    cases herror
  · rw [hextend, extendHead]
    obtain ⟨size, forkDb'', -, hcases⟩ := applyInSession_cases
      (show ({ db.clearPending with forkDb } : Database Tx Res Rest).undoDisabled = false
        from henabled) code skip b (b.id code.blockHash)
    cases happly : db.clearPending.objects.applyBlock code skip b with
    | error e =>
        simp only [happly] at hcases
        rw [hcases]
        simp
    | ok o =>
        simp only [happly] at hcases
        rw [hcases]
        simp

/-! ## The block of the production -/

section

variable (hsign : ∀ key (b : SignedBlock Tx Res), code.validateSignee
    { b with witnessSignature := code.sign key b } (code.publicKey key) = true)
  (hinterval : ∀ rest, 0 < code.blockInterval rest)

include hsign hinterval

/-- The producer that is checked on the head makes a block with the right header. -/
theorem validateBlockHeader_of_checkProducer
    (hproducer : db.checkProducer code {} time witness key = .ok ())
    (ptxs : List (ProcessedTransaction Tx Res)) :
    db.objects.validateBlockHeader code {} (db.assemble code {} time witness key ptxs) =
      .ok () := by
  simp only [checkProducer, Checked.bind_eq_ok, require_eq_ok] at hproducer
  obtain ⟨-, hslot, scheduled, hscheduled, -, hwitness, signingKey, hsigningKey, hkey⟩ := hproducer
  have hsignee : code.validateSignee (db.assemble code {} time witness key ptxs) signingKey =
      true := by
    rw [hkey.resolve_left (by simp)]
    exact hsign key _
  have htime : db.objects.head.time < time :=
    Objects.time_lt_of_getSlotAtTime (hinterval _) hslot
  simp only [Objects.validateBlockHeader, Checked.bind_eq_ok, require_eq_ok, whenever_eq_ok]
  refine ⟨(), rfl, (), htime, signingKey, hsigningKey, (), .inr hsignee, .inl ⟨trivial, ?_⟩⟩
  exact ⟨(), hslot, scheduled, hscheduled, hwitness.symm⟩

/-- The body of the block applies on the head, with the objects of the production. -/
theorem applyBody_producedBlock (h : db.Ready)
    (hproducer : Database.checkProducer code { db with objects := db.base } {} time witness key =
      .ok ()) :
    db.base.applyBody code {} (db.producedBlock code {} time witness key) =
      .ok (db.chosen code {}).2 := by
  have hheader := validateBlockHeader_of_checkProducer hsign hinterval hproducer
    (db.chosen code {}).1
  rw [producedBlock_eq h]
  simp only [Objects.applyBody, Checked.bind_eq_ok, require_eq_ok]
  exact ⟨(), .inr rfl, (), hheader, applyTransactions_chooseTransactions⟩

/-- A produced block has pending transactions in their order, and all checks of its body hold
on the head when the producer is the one of the slot there. It is accepted exactly when the
head may advance and the passes after the transactions do not throw, on a head above the
checkpoints that the fork database is in step with. -/
theorem generateBlock_returned_iff (hstart : start.Genesis)
    (hdb : Run.Reaches (step code) (fun _ _ ↦ True) start db)
    (hreaches : db.checkProducer code {} time witness key = .ok ())
    (hfits : db.Fits code {} time witness key)
    (hproducer : Database.checkProducer code { db with objects := db.base } {} time witness key =
      .ok ())
    (hcheckpoints : ∀ c ∈ code.checkpoints, c.1 ≤ db.base.head.id.num) :
    ((db.producedBlock code {} time witness key).transactions.map (·.trx)).Sublist
        (db.pendingTx.map (·.trx)) ∧
      db.base.applyBody code {} (db.producedBlock code {} time witness key) =
        .ok (db.chosen code {}).2 ∧
      (db.InStep → ((∃ db', db.generateBlock code {} time witness key = .returned db') ↔
        ∃ advanced o, (db.chosen code {}).2.advanceHead code {}
            (db.producedBlock code {} time witness key) = .ok advanced ∧
          advanced.finish code {} (db.producedBlock code {} time witness key) = .ok o)) := by
  have h : db.Holds fun _ ↦ True := holds_of_reaches hstart hdb
  have hbody := applyBody_producedBlock hsign hinterval h.toReady hproducer
  have hprevious : (db.producedBlock code {} time witness key).previous = db.base.head.id :=
    producedBlock_previous h.toReady
  have hskip : code.skipFor (db.producedBlock code {} time witness key) {} = .ok {} := by
    refine Code.skipFor_of_above fun c hc ↦ ?_
    rw [SignedBlock.blockNum, hprevious]
    exact Nat.lt_succ_of_le (hcheckpoints c hc)
  refine ⟨?_, hbody, fun hinStep ↦ ?_⟩
  · rw [producedBlock_eq h.toReady]
    exact chooseTransactions_sublist
  · obtain ⟨below, hbelow, hcases⟩ := generateBlock_cases code {} time witness key h.toReady
    rw [hreaches] at hcases
    dsimp only at hcases
    rw [if_pos (show false = true ∨ _ from hfits)] at hcases
    have hcleared : Holds (fun _ ↦ True) ({ db with
        objects := db.base, stack := below, pendingSession := false } : Database Tx Res Rest) :=
      ⟨⟨h.maxSize, h.enabled, by simp⟩, fun _ _ ↦ trivial, h.popped⟩
    have hpush := pushBlock_returned_iff code {} hcleared rfl
      (hprevious : (db.producedBlock code {} time witness key).previous = _)
      ⟨hinStep.notAhead, hinStep.known, hinStep.size⟩
    rw [hcases]
    refine hpush.trans ?_
    change (∃ o, db.base.applyBlock code {} _ = .ok o) ↔ _
    simp only [Objects.applyBlock, Checked.bind_eq_ok, hskip, hbody, Except.ok.injEq,
      exists_eq_left']
    exact exists_comm

end

end Database

/-! ## Checkpoints -/

/-- A checkpoint names another first block. -/
def checkpointCode : Code ℕ ℕ ℕ := { countingCode with checkpoints := [(1, ⟨1, 999⟩)] }

/-- A node whose checkpoint names another block refuses the block it produces itself. -/
theorem producedBlock_refused_checkpoint :
    freshDatabase.checkProducer checkpointCode {} 5 0 7 = .ok () ∧
      freshDatabase.Fits checkpointCode {} 5 0 7 ∧
      ∃ db', freshDatabase.generateBlock checkpointCode {} 5 0 7 =
        .threw (.assertion "Block did not match checkpoint") db' := by
  exact ⟨rfl, by decide, _, rfl⟩

/-- The first block of a chain, with its two pending transactions, is accepted. -/
theorem generateBlock_returned_iff_first : ∃ db : Database ℕ ℕ ℕ,
    db.pendingTx.length = 2 ∧ ∃ db', db.generateBlock countingCode {} 5 0 7 = .returned db' := by
  let db := (freshDatabase.step countingCode (.pushTransaction 3)).step countingCode
    (.pushTransaction 4)
  have hrun : Run.Reaches (Database.step countingCode) (fun _ _ ↦ True) freshDatabase db :=
    .next (ChainEvent.pushTransaction 4) (.next (ChainEvent.pushTransaction 3) .refl trivial)
      trivial
  have hforkDb : db.forkDb.head = none := rfl
  have haccepted := Database.generateBlock_returned_iff
    (fun _ _ ↦ by simp [countingCode] : ∀ key (b : SignedBlock ℕ ℕ), countingCode.validateSignee
      { b with witnessSignature := countingCode.sign key b } (countingCode.publicKey key) = true)
    (fun _ ↦ Nat.succ_pos 4) genesis_freshDatabase hrun
    (rfl : db.checkProducer countingCode {} 5 0 7 = .ok ()) (by decide) rfl
    (by simp [countingCode])
  have hadvances : (do
      let advanced ← (db.chosen countingCode {}).2.advanceHead countingCode {}
        (db.producedBlock countingCode {} 5 0 7)
      advanced.finish countingCode {} (db.producedBlock countingCode {} 5 0 7)).toBool = true := by
    decide
  cases hrest : (do
      let advanced ← (db.chosen countingCode {}).2.advanceHead countingCode {}
        (db.producedBlock countingCode {} 5 0 7)
      advanced.finish countingCode {} (db.producedBlock countingCode {} 5 0 7)) with
  | error e =>
      rw [hrest] at hadvances
      cases hadvances
  | ok o =>
      obtain ⟨advanced, hadvanced, hfinished⟩ := Checked.bind_eq_ok.mp hrest
      exact ⟨db, by decide, (haccepted.2.2 ⟨by simp [Database.NotAhead, hforkDb], by simp [hforkDb],
        by decide⟩).mpr ⟨advanced, o, hadvanced, hfinished⟩⟩

end KarmaCore.Chain
