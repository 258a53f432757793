import Mathlib
import KarmaCore.Db.UndoRun

/-!
# When undo completes

Whatever the writes of a run were, and whether they threw or not, `undo` and
`pop_commit` complete exactly when the newest state is unobstructed, and then
the store in which it began is back.
-/

namespace KarmaCore

open Run

variable {Obj κ : Type} [DecidableEq κ]

namespace UndoRun

/-- No state is applied while something obstructs it. -/
def Unimpeded (keys : Obj → List κ) (r : UndoRun Obj) : DbEvent Obj → Prop
  | .undo order => 0 < r.db.undoStack.activeSessions →
      r.db.EnumeratesTop order ∧ r.db.Unobstructed keys order
  | .popCommit order => r.db.undoStack.activeSessions = 0 → r.db.undoStack.stack ≠ [] →
      r.db.EnumeratesTop order ∧ r.db.Unobstructed keys order
  | _ => True

/-- The call returned, with every object and id counter as in the frame's
store, the newest state gone and undo enabled. -/
def BackIn (r : UndoRun Obj) (stack : SessionStack (UndoState Obj))
    (result : Outcome DbError (ObjectDatabase Obj)) : Prop :=
  ∃ frame ∈ r.frames.head?, result = .returned ⟨frame.saved, stack, false⟩

variable {keys : Obj → List κ} {r start : UndoRun Obj} {order : VisitOrder}

theorem Consistent.of_reaches (hr : Reaches (step keys) (Unimpeded keys) start r)
    (hstart : start.Initial keys) : r.Consistent keys := by
  refine hr.invariant (Consistent keys) (.initial hstart) fun s event hs hevent ↦ ?_
  cases event with
  | write w => exact hs.write w
  | startSession forceEnable => exact hs.startSession forceEnable
  | undo order => exact hs.undo hevent
  | merge => exact hs.merge
  | commit => exact hs.commit
  | popCommit order => exact hs.popCommit hevent

theorem Consistent.undo_backIn_iff (h : r.Consistent keys)
    (hactive : 0 < r.db.undoStack.activeSessions) (horder : r.db.EnumeratesTop order) :
    r.BackIn r.db.undoStack.drop (r.db.undo keys order) ↔ r.db.Unobstructed keys order := by
  rw [← h.undo_returns_iff hactive horder]
  constructor
  · rintro ⟨frame, -, hundo⟩
    exact ⟨_, hundo⟩
  · rintro ⟨db, hundo⟩
    obtain ⟨frame, rest, hframes, -, rfl⟩ := h.undo_returned horder hundo
    refine ⟨frame, by simp [hframes], ?_⟩
    simp [hundo, h.enabled]

theorem Consistent.popCommit_backIn_iff (h : r.Consistent keys)
    (hactive : r.db.undoStack.activeSessions = 0) (horder : r.db.EnumeratesTop order) :
    r.BackIn r.db.undoStack.pop (r.db.popCommit keys order) ↔ r.db.Unobstructed keys order := by
  rw [← h.popCommit_returns_iff hactive horder]
  constructor
  · rintro ⟨frame, -, hpop⟩
    exact ⟨_, hpop⟩
  · rintro ⟨db, hpop⟩
    obtain ⟨frame, rest, hframes, -, rfl⟩ := h.popCommit_returned horder hpop
    refine ⟨frame, by simp [hframes], ?_⟩
    simp [hpop, h.enabled]

/-- In every run, `undo` and `pop_commit` restore every object exactly when
nothing obstructs the newest state. -/
theorem undo_completes_iff (hstart : start.Initial keys)
    (hr : Reaches (step keys) (Unimpeded keys) start r) (horder : r.db.EnumeratesTop order) :
    (0 < r.db.undoStack.activeSessions →
      (r.BackIn r.db.undoStack.drop (r.db.undo keys order) ↔ r.db.Unobstructed keys order)) ∧
    (r.db.undoStack.activeSessions = 0 →
      (r.BackIn r.db.undoStack.pop (r.db.popCommit keys order) ↔
        r.db.Unobstructed keys order)) := by
  have h := Consistent.of_reaches hr hstart
  exact ⟨fun hactive ↦ h.undo_backIn_iff hactive horder,
    fun hactive ↦ h.popCommit_backIn_iff hactive horder⟩

/-! The account with the name 7 gets another one. -/

def renamed : UndoRun ℕ :=
  (oneAccount.step name (.startSession false)).step name
    (.write (.modify (account 0) fun _ ↦ some 8))

theorem renamed_reaches : Reaches (step name) (Unimpeded name) oneAccount renamed := by
  have hstarted : Reaches (step name) (Unimpeded name) oneAccount
      (oneAccount.step name (.startSession false)) := .next _ .refl trivial
  exact .next _ hstarted trivial

def renamedOrder : VisitOrder := ⟨[account 0], [], []⟩

theorem renamed_stack : renamed.db.undoStack.stack =
    [{ oldValues := Function.update (fun _ ↦ none) (account 0) (some 7) }] := rfl

theorem renamed_enumerates : renamed.db.EnumeratesTop renamedOrder := by
  intro state hstate
  rw [renamed_stack] at hstate
  obtain rfl := Option.some.inj hstate
  constructor <;> simp [renamedOrder, Function.update_apply]

theorem renamed_unobstructed : renamed.db.Unobstructed name renamedOrder := by
  refine ⟨_, by rw [renamed_stack]; rfl, ?_, by decide⟩
  intro id hid
  obtain rfl : id = account 0 := by
    by_contra hne
    simp [hne] at hid
  decide

theorem undo_completes_iff_renamed :
    renamed.BackIn renamed.db.undoStack.drop (renamed.db.undo name renamedOrder) :=
  ((undo_completes_iff oneAccount_initial renamed_reaches renamed_enumerates).1
    (by decide)).mpr renamed_unobstructed

/-- The old name of the account goes to a new one. -/
def nameTaken : UndoRun ℕ := renamed.step name (.write (.create (1, 2) 7))

def nameTakenOrder : VisitOrder := ⟨[account 0], [account 1], []⟩

theorem nameTaken_stack : nameTaken.db.undoStack.stack =
    [{ oldValues := Function.update (fun _ ↦ none) (account 0) (some 7)
       oldIndexNextIds := Function.update (fun _ ↦ none) (1, 2) (some 1)
       newIds := Function.update (fun _ ↦ false) (account 1) true }] := rfl

theorem nameTaken_undo_throws :
    Reaches (step name) (fun _ _ ↦ True) oneAccount nameTaken ∧
      nameTaken.db.EnumeratesTop nameTakenOrder ∧ 0 < nameTaken.db.undoStack.activeSessions ∧
      ∃ db, nameTaken.db.undo name nameTakenOrder = .threw .uniquenessViolated db ∧
        db.disabled = true ∧ account 0 ∉ db.store.objects := by
  refine ⟨.next _ (.next _ (.next _ .refl trivial) trivial) trivial, ?_, by decide, _, rfl, rfl,
    by decide⟩
  intro state hstate
  rw [nameTaken_stack] at hstate
  obtain rfl := Option.some.inj hstate
  constructor <;> simp [nameTakenOrder, Function.update_apply]

end UndoRun

end KarmaCore
