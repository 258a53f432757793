import Mathlib
import KarmaCore.Db.SecondaryIndex
import KarmaCore.Proposal.PushProposal

/-!
# The index of required approvals

The proposals that each account is asked to approve or has approved, as a
secondary index over the proposals.  It is right as long as no update changes
who approves and no removed proposal comes back.
-/

namespace KarmaCore.Proposals

open Authorities IndexedDatabase

variable {Body : Type}

/-- The accounts `object_inserted` and `object_removed` loop over. -/
def ProposalObject.approvers (p : ProposalObject Body) : List AccountId :=
  p.requiredActiveApprovals ++ p.requiredOwnerApprovals ++ p.availableActiveApprovals ++
    p.availableOwnerApprovals

/-- The proposals with `required_approval_index`. -/
abbrev ApprovalDatabase (Body : Type) := IndexedDatabase (ProposalObject Body) AccountId

namespace ApprovalDatabase

def step (d : ApprovalDatabase Body) (event : IndexedEvent (ProposalObject Body)) :
    ApprovalDatabase Body := IndexedDatabase.step ProposalObject.approvers d event

def KeepsApprovers (d : ApprovalDatabase Body) (event : IndexedEvent (ProposalObject Body)) :
    Prop := KeepsMarks ProposalObject.approvers d event

/-- An account has the proposals that exist and name it. -/
def Coherent (d : ApprovalDatabase Body) : Prop :=
  ∀ a id, id ∈ d.entries a ↔ ∃ p, d.db.store.objects.lookup id = some p ∧
    (a ∈ p.requiredActiveApprovals ∨ a ∈ p.requiredOwnerApprovals ∨
      a ∈ p.availableActiveApprovals ∨ a ∈ p.availableOwnerApprovals)

theorem coherent_iff {d : ApprovalDatabase Body} :
    Coherent d ↔ IndexedDatabase.Coherent ProposalObject.approvers d := by
  refine forall₂_congr fun a id ↦ iff_congr Iff.rfl (exists_congr fun p ↦ and_congr Iff.rfl ?_)
  simp only [ProposalObject.approvers, List.mem_append, or_assoc]

end ApprovalDatabase

open ApprovalDatabase

/-- The index is coherent in every run whose modifications keep the approvers and whose undos
bring back no removed proposal. A modification alone keeps it coherent exactly when it keeps
the approvers of its proposal, and so does an insertion by an undo exactly when the proposal
has none. -/
theorem approvals_coherent {start d : ApprovalDatabase Body} (hstart : Coherent start)
    (h : Run.Reaches step KeepsApprovers start d) : Coherent d ∧
    (∀ (d : ApprovalDatabase Body) (id : ObjectId)
        (f : ProposalObject Body → Option (ProposalObject Body)) (p p' : ProposalObject Body),
      Coherent d → d.db.store.objects.lookup id = some p → f p = some p' →
      (Coherent (d.modify id f).state ↔ SameMarks ProposalObject.approvers p p')) ∧
    ∀ (d : ApprovalDatabase Body) (id : ObjectId) (p : ProposalObject Body),
      Coherent d → id ∉ d.db.store.objects →
      (Coherent (d.setStore ⟨{ d.db.store with objects := d.db.store.objects.insert id p },
        d.entries⟩) ↔ p.approvers = []) := by
  refine ⟨coherent_iff.mpr (coherent_of_reaches (coherent_iff.mp hstart) h), ?_, ?_⟩
  · intro d id f p p' hd hp hf
    rw [coherent_iff]
    exact modify_coherent_iff (coherent_iff.mp hd) hp hf
  · intro d id p hd hid
    rw [coherent_iff]
    exact IndexedStore.coherent_reinsert_iff (s := d.indexedStore) (coherent_iff.mp hd) hid

/-! One proposal, which account 7 is asked to approve. -/

def proposals : IndexId := (1, 10)

def asked : ProposalObject Unit where
  id := 0
  expirationTime := 10
  reviewPeriodTime := none
  operations := [.other ()]
  requiredActiveApprovals := [7]
  requiredOwnerApprovals := []

def noProposals : ApprovalDatabase Unit where
  db := { store := ⟨∅, fun _ ↦ 0⟩, undoStack := .empty 256 }
  entries _ := ∅

def oneProposal : ApprovalDatabase Unit := step noProposals (.db (.write (.create proposals asked)))

/-- What an update does to the object. -/
def update (o : UpdateOperation) : IndexedEvent (ProposalObject Unit) :=
  .db (.write (.modify ⟨proposals, 0⟩ fun p ↦ some (p.updateApprovals o)))

theorem noProposals_coherent : Coherent noProposals := by
  intro a id
  constructor
  · intro h
    exact absurd h (Finset.notMem_empty _)
  · rintro ⟨p, hp, -⟩
    cases hp

/-- The account that is asked approves. -/
def approved : IndexedEvent (ProposalObject Unit) :=
  update { feePayingAccount := 7, proposal := 0, activeApprovalsToAdd := [7] }

theorem approved_reaches :
    Run.Reaches step KeepsApprovers noProposals (step oneProposal approved) := by
  have hone : Run.Reaches step KeepsApprovers noProposals oneProposal := by
    apply Run.Reaches.next
    · exact .refl
    · trivial
  apply hone.next
  rintro p hp
  obtain rfl : asked = p := Option.some.inj hp
  refine ⟨_, rfl, fun a ↦ ?_⟩
  simp [ProposalObject.approvers, ProposalObject.updateApprovals, asked, flatInsertAll, flatInsert]

theorem approvals_coherent_approved : Coherent (step oneProposal approved) :=
  (approvals_coherent noProposals_coherent approved_reaches).1

/-- The approval of an account that was not asked is missing from the index, and so is a
proposal that an undo brings back. -/
theorem approvals_incoherent :
    ¬Coherent (step oneProposal (update { feePayingAccount := 9, proposal := 0,
                                          activeApprovalsToAdd := [9] })) ∧
    ¬Coherent (step (step (step oneProposal (.db (.startSession false)))
      (.db (.write (.remove ⟨proposals, 0⟩)))) (.db (.undo ⟨[], [], [⟨proposals, 0⟩]⟩))) := by
  constructor
  · intro h
    exact absurd ((h 9 ⟨proposals, 0⟩).mpr ⟨_, rfl, by decide⟩) (by decide)
  · intro h
    exact absurd ((h 7 ⟨proposals, 0⟩).mpr ⟨_, rfl, by decide⟩) (by decide)

end KarmaCore.Proposals
