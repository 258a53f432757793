import Mathlib
import KarmaCore.Chain.ReplayProtection

/-!
# What is pending after a push

No transaction is lost or duplicated by a push, whether it returns or throws:
the pending list is what is left of the popped and the pending transactions once
each was tried on the new head.
-/

namespace KarmaCore.Chain

variable {Tx Res Rest : Type} {code : Code Tx Res Rest} {o o' : Objects Tx Res Rest}
  {ptxs : List (ProcessedTransaction Tx Res)}

/-- The ids of a list of transactions. -/
def trxIds (code : Code Tx Res Rest) (ptxs : List (ProcessedTransaction Tx Res)) : List ℕ :=
  ptxs.map fun ptx ↦ code.trxId ptx.trx

/-- Transactions that apply one after another are new to the chain and to each other. -/
theorem Applies.nodup (h : Applies code (Eq {}) o ptxs o')
    (hexpiration : ∀ t t', code.trxId t = code.trxId t' → code.expiration t = code.expiration t')
    (hguarded : o.Guarded code) : o'.Guarded code ∧ o'.chainIds code = o.chainIds code ∧
      (o.chainIds code ++ trxIds code ptxs).Nodup ∧
      ∀ id ∈ trxIds code ptxs, o'.IsKnownTransaction id := by
  induction h with
  | nil => exact ⟨hguarded, rfl, by simpa [trxIds] using hguarded.nodup, by simp [trxIds]⟩
  | snoc happlies hskip happly ih =>
      obtain ⟨hguarded', hchain, hnodup, hknown⟩ := ih
      subst hskip
      obtain ⟨-, hnew, hlive, hcreate, hhead, hblocks⟩ :=
        Objects.applyTransaction_cases rfl happly
      have hnotChain := hguarded'.notMem_chainIds hexpiration hnew hlive
      refine ⟨Objects.guarded_of_create hguarded' hcreate hhead hblocks, ?_, ?_, ?_⟩
      · rw [← hchain]
        unfold Objects.chainIds
        rw [hblocks]
      · rw [trxIds, List.map_append, ← List.append_assoc, List.nodup_append]
        refine ⟨hnodup, by simp, ?_⟩
        intro id hid id' hid' heq
        rw [List.map_singleton, List.mem_singleton] at hid'
        subst hid' heq
        rcases List.mem_append.mp hid with hmem | hmem
        · exact hnotChain (hchain ▸ hmem)
        · exact hnew (hknown _ hmem)
      · intro id hid
        rw [Objects.isKnownTransaction_of_create hcreate]
        rw [trxIds, List.map_append, List.mem_append, List.map_singleton, List.mem_singleton] at hid
        exact hid.imp_left (hknown id)

namespace Database

variable {start db : Database Tx Res Rest}

/-- After a push the pending transactions are those of the popped blocks and those that were
pending before, as far as each applies on the new head and the ones kept before it. Each is
there once, none is on the main chain, and the pending session is the result of applying
them. -/
theorem pending_of_pushBlock (hcheckpoints : code.checkpoints = [])
    (hexpiration : ∀ t t', code.trxId t = code.trxId t' → code.expiration t = code.expiration t')
    (hstart : start.Genesis) (hdb : Run.Reaches (step code) (fun _ _ ↦ True) start db)
    (b : SignedBlock Tx Res) :
    let pushed := (db.clearPending.pushNewBlock code {} b).state
    let db' := (db.pushBlock code {} b).state
    db'.base = pushed.objects ∧
      (db'.objects, db'.pendingTx) = tryTransactions code {} db'.base
        (pushed.poppedBlocks.flatMap (·.transactions) ++ db.pendingTx) ∧
      db'.Restored code (Eq {}) ∧ (trxIds code db'.pendingTx).Nodup ∧
      ∀ id ∈ trxIds code db'.pendingTx, id ∉ db'.base.chainIds code := by
  intro pushed db'
  have hguarded := holds_guarded hcheckpoints hexpiration hstart hdb
  have hP : ∀ (o o' : Objects Tx Res Rest) (b : SignedBlock Tx Res), o.Guarded code →
      o.applyBlock code {} b = .ok o' → o'.Guarded code :=
    fun _ _ _ ho ↦ Objects.guarded_of_applyBlock hcheckpoints rfl hexpiration ho
  have hsettled : pushed.Settled (Objects.Guarded code) [] :=
    settled_of_pushNewBlock hP (settled_of_clearPending hguarded).1
  have hdb' : db' = pushed.restorePending code {} db.pendingTx := state_pushBlock code {} db b
  have hrestored : db'.Restored code (Eq {}) := by
    rw [hdb']
    exact restored_of_restorePending rfl hsettled db.pendingTx
  have hbase : db'.base = pushed.objects := by
    rw [hdb']
    exact (sameChain_of_restorePending code {} hsettled db.pendingTx).1
  have hguarded' : db'.base.Guarded code := hbase ▸ hsettled.objects
  obtain ⟨-, -, hnodup, -⟩ := hrestored.applies.nodup hexpiration hguarded'
  refine ⟨hbase, ?_, hrestored, (List.nodup_append.mp hnodup).2.1, fun id hid hmem ↦ ?_⟩
  · rw [hbase, hdb', ← hsettled.popped]
    exact restorePending_eq_try rfl hsettled db.pendingTx
  · exact (List.nodup_append.mp hnodup).2.2 id hmem id hid rfl

end Database

/-- Of two pending transactions one comes with the block and the other stays pending. -/
theorem pending_of_pushBlock_first : ∃ db : Database ℕ ℕ ℕ,
    trxIds countingCode db.pendingTx = [3, 4] ∧
      (trxIds countingCode (db.pushBlock countingCode {} firstBlock).state.pendingTx).Nodup ∧
      trxIds countingCode (db.pushBlock countingCode {} firstBlock).state.pendingTx = [4] := by
  have hrun : Run.Reaches (Database.step countingCode) (fun _ _ ↦ True) freshDatabase
      ((freshDatabase.step countingCode (.pushTransaction 3)).step countingCode
        (.pushTransaction 4)) :=
    .next (ChainEvent.pushTransaction 4) (.next (ChainEvent.pushTransaction 3) .refl trivial)
      trivial
  have hpending := Database.pending_of_pushBlock (rfl : countingCode.checkpoints = [])
    (fun _ _ _ ↦ rfl) genesis_freshDatabase hrun firstBlock
  exact ⟨_, by decide, hpending.2.2.2.1, by decide⟩

end KarmaCore.Chain
