import Mathlib
import KarmaCore.Chain.ReplayProtection

/-!
# A production that fails

The pending session is gone while a block is built.  Most failures bring it back,
the check of the size of the block does not.
-/

namespace KarmaCore.Chain

variable {Tx Res Rest : Type} {code : Code Tx Res Rest} {skip : SkipFlags}
  {time witness key : ℕ}

theorem Applies.mono {allowed allowed' : SkipFlags → Prop} {o o' : Objects Tx Res Rest}
    {ptxs : List (ProcessedTransaction Tx Res)}
    (hallowed : ∀ skip, allowed skip → allowed' skip) (h : Applies code allowed o ptxs o') :
    Applies code allowed' o ptxs o' := by
  induction h with
  | nil => exact .nil
  | snoc _ hskip happly ih => exact ih.snoc (hallowed _ hskip) happly

namespace Database

variable {db start : Database Tx Res Rest}

theorem Restored.mono {allowed allowed' : SkipFlags → Prop}
    (hallowed : ∀ skip, allowed skip → allowed' skip) (h : db.Restored code allowed) :
    db.Restored code allowed' :=
  ⟨h.toReady, h.idle, h.applies.mono hallowed⟩

/-- A block that is produced is pushed, and the push restores what is pending. -/
theorem restored_of_produced_generateBlock {allowed : SkipFlags → Prop} (hskip : allowed skip)
    (h : db.Holds fun _ ↦ True) {db' : Database Tx Res Rest}
    (hproduced : db.generateBlock code skip time witness key = .returned db') :
    db'.Restored code allowed := by
  have hbuilt : (db.buildTransactions code skip).2.Holds fun _ ↦ True :=
    holds_of_buildTransactions h
  unfold generateBlock at hproduced
  split at hproduced
  · cases hproduced
  · dsimp only at hproduced
    split_ifs at hproduced
    have hpushed := restored_of_pushBlock code hskip hbuilt
      (db.producedBlock code skip time witness key)
    rwa [hproduced] at hpushed

/-- The calls that leave a session for every pending transaction: blocks are not popped while
one is pending, nor is a block built that is too large. -/
def Keeps (code : Code Tx Res Rest) (db : Database Tx Res Rest) : ChainEvent Tx Res → Prop
  | .popBlock => db.pendingTx = []
  | .generateBlock time witness key => db.checkProducer code {} time witness key ≠ .ok () ∨
      db.Fits code {} time witness key ∨ db.pendingTx = []
  | _ => True

theorem restored_of_step (h : db.Holds fun _ ↦ True) (hrestored : db.Restored code (Eq {}))
    {event : ChainEvent Tx Res} (hkeeps : db.Keeps code event) :
    (db.step code event).Restored code (Eq {}) := by
  cases event with
  | pushBlock b => exact restored_of_pushBlock code rfl h b
  | popBlock =>
      have hpopped : (db.popBlock code).state.Settled (fun _ ↦ True) db.pendingTx :=
        settled_of_popBlock_of_holds h
      rw [show db.pendingTx = [] from hkeeps] at hpopped
      exact hpopped.restored
  | pushTransaction trx => exact restored_of_pushTransaction rfl hrestored trx
  | generateBlock time witness key =>
      change (db.generateBlock code {} time witness key).state.Restored code (Eq {})
      cases hproduced : db.generateBlock code {} time witness key with
      | returned db' => exact restored_of_produced_generateBlock rfl h hproduced
      | threw e db' =>
          exact (restored_of_thrown_generateBlock rfl h hrestored hproduced).1.mpr hkeeps

end Database

/-! ## A block that is too large -/

/-- Transaction 1 is large. The others settle: their result is an amount, or a smaller id when
something came before them. -/
def settlingCode : Code ℕ ℕ ℕ := { countingCode with
  operate := fun _ _ _ n ↦ .ok (if n = 0 then 17 else 9, n + 1)
  maximumBlockSize := fun _ ↦ 100
  transactionSize := fun ptx ↦ if ptx.trx = 1 then 95 else 74 + ptx.operationResults
  blockSize := fun b ↦
    14 + (b.transactions.map fun ptx ↦ if ptx.trx = 1 then 95 else 74 + ptx.operationResults).sum }

def settlingDatabase : Database ℕ ℕ ℕ :=
  (freshDatabase.step settlingCode (.pushTransaction 1)).step settlingCode (.pushTransaction 2)

end KarmaCore.Chain
