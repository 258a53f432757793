import Mathlib
import KarmaCore.Db.UndoRun

/-!
# Undo is exact

While nothing clashes and only an outermost session is committed, the states on
top of the stack are those of the active sessions: undoing a session brings back
the store in which it started, and merging it into its parent first makes no
difference.
-/

namespace KarmaCore

open Run

variable {Obj κ : Type} [DecidableEq κ] {keys : Obj → List κ}

/-! ## A history that loses no object can be undone -/

def Change.Keeps : Change Obj → Prop
  | .lost _ _ => False
  | _ => True

omit [DecidableEq κ] in
/-- What is updated or new is still there. -/
theorem UndoState.Present.record {state : UndoState Obj} {current saved : Store Obj}
    {change : Change Obj} (h : state.Present current) (hundoes : Undoes state current saved)
    (hchange : change.Valid keys current) (hkeeps : change.Keeps) :
    (change.record state).Present (change.apply current) := by
  intro id hid
  by_cases hself : id = change.id
  · subst hself
    cases change with
    | created id o => exact Finmap.mem_insert.mpr (.inl rfl)
    | modified id old new => exact Finmap.mem_insert.mpr (.inl rfl)
    | lost id old => exact hkeeps.elim
    | removed id old =>
        have hforgets := (hundoes.objects id).onRemove_forgets hchange
        have hentry := Change.entry_record_self (.removed id old) state
        simp only [Change.id, Change.recordEntry, UndoState.entry] at hentry hforgets
        rw [← hentry] at hforgets
        obtain ⟨hold, hnew⟩ := hforgets
        dsimp only at hold hnew
        simp [Change.id, hold, hnew] at hid
  · have hentry := Change.entry_record_of_ne state hself
    simp only [UndoState.entry, Entry.mk.injEq] at hentry
    have hmem := h id (by rwa [← hentry.1, ← hentry.2.1])
    rwa [← Finmap.lookup_isSome, Change.apply_lookup_of_ne current hself, Finmap.lookup_isSome]

omit [DecidableEq κ] in
theorem present_of_runs {saved current : Store Obj} {history : List (Change Obj)}
    (h : Runs keys saved history current) (hsaved : saved.WellFormed keys)
    (hkeeps : ∀ change ∈ history, change.Keeps) : (stateOf history).Present current := by
  induction h with
  | nil => simp [UndoState.Present, stateOf, UndoState.empty]
  | snoc h hchange ih =>
      rw [stateOf_append_singleton]
      exact (ih fun change hmem ↦ hkeeps change (by simp [hmem])).record
        (undoes_of_runs h hsaved) hchange (hkeeps _ (by simp))

/-- The write clashes with no unique key and its callback does not throw. -/
def Write.Clear (keys : Obj → List κ) (s : Store Obj) : Write Obj → Prop
  | create index o => ¬Taken keys s.objects (s.nextId index) o
  | modify id f => ∀ old ∈ s.objects.lookup id, ∃ new ∈ f old, ¬Taken keys s.objects id new
  | remove _ => True

theorem Write.Clear.keeps {s : Store Obj} {w : Write Obj} {change : Change Obj}
    (h : w.Clear keys s) (hchange : w.change keys s = some change) : change.Keeps := by
  cases w with
  | create index o =>
      simp only [Write.change] at hchange
      split_ifs at hchange
      obtain rfl := Option.some.inj hchange
      trivial
  | modify id f =>
      cases hold : s.objects.lookup id with
      | none => simp [Write.change, hold] at hchange
      | some old =>
          obtain ⟨new, hnew, hfree⟩ := h old hold
          simp only [Write.change, hold, Option.mem_def.mp hnew, hfree, if_false] at hchange
          obtain rfl := Option.some.inj hchange
          trivial
  | remove id =>
      obtain ⟨old, -, rfl⟩ := Option.map_eq_some_iff.mp hchange
      trivial

/-- Applying the newest state in this order clashes with no unique key. -/
def ObjectDatabase.ClearToApply (keys : Obj → List κ) (order : VisitOrder)
    (db : ObjectDatabase Obj) : Prop :=
  db.EnumeratesTop order ∧
    ∀ state ∈ db.undoStack.stack.head?, ¬state.Blocked keys db.store.objects order.oldValues

namespace UndoRun

variable {r start : UndoRun Obj} {order : VisitOrder}

/-- Nothing clashes, the stack is within its bound, and only an outermost
session is committed. -/
def WellBehaved (keys : Obj → List κ) (r : UndoRun Obj) : DbEvent Obj → Prop
  | .write w => w.Clear keys r.db.store
  | .startSession _ => r.db.undoStack.size ≤ r.db.undoStack.maxSize
  | .undo order => r.db.ClearToApply keys order
  | .merge => True
  | .commit => r.db.undoStack.activeSessions ≤ 1
  | .popCommit order => r.db.ClearToApply keys order

/-- The newest frames are those of the active sessions. -/
structure Nested (keys : Obj → List κ) (r : UndoRun Obj) : Prop where
  consistent : r.Consistent keys
  keeps : ∀ frame ∈ r.frames, ∀ change ∈ frame.history, change.Keeps
  active_le : r.db.undoStack.activeSessions ≤ r.frames.length
  sessions : r.sessions = (r.frames.take r.db.undoStack.activeSessions).map Frame.saved

namespace Nested

omit [DecidableEq κ] in
theorem unobstructed (h : r.Nested keys) (hclear : r.db.ClearToApply keys order)
    (hframes : r.frames ≠ []) : r.db.Unobstructed keys order := by
  have hkeeps := h.keeps
  have hlinked := h.consistent.linked
  have hstack := h.consistent.stack
  cases hr : r.frames with
  | nil => exact absurd hr hframes
  | cons frame rest =>
      rw [hr] at hkeeps hlinked hstack
      have htop : stateOf frame.history ∈ r.db.undoStack.stack.head? := by simp [hstack]
      cases hlinked with
      | cons _ hrun hrest =>
          have hpresent := present_of_runs hrun hrest.wellFormed (hkeeps frame (by simp))
          exact ⟨_, htop, hpresent, hclear.2 _ htop⟩

omit [DecidableEq κ] in
theorem initial (h : r.Initial keys) : r.Nested keys where
  consistent := .initial h
  keeps := by simp [h.frames]
  active_le := by simp [h.activeSessions]
  sessions := by simp [h.sessions, h.activeSessions]

omit [DecidableEq κ] in
theorem addChange_keeps {s : Store Obj} {change : Change Obj} {frames : List (Frame Obj)}
    (hframes : ∀ frame ∈ frames, ∀ change ∈ frame.history, change.Keeps) (hkeeps : change.Keeps) :
    ∀ frame ∈ addChange s change frames, ∀ change ∈ frame.history, change.Keeps := by
  cases frames with
  | nil => simpa [addChange] using hkeeps
  | cons frame rest =>
      intro x hx c hc
      rcases List.mem_cons.mp hx with rfl | hx
      · rcases List.mem_append.mp hc with hc | hc
        · exact hframes frame (by simp) c hc
        · obtain rfl : c = change := by simpa using hc
          exact hkeeps
      · exact hframes x (by simp [hx]) c hc

omit [DecidableEq κ] in
theorem take_addChange {s : Store Obj} {change : Change Obj} {frames : List (Frame Obj)} {n : ℕ}
    (hn : n ≤ frames.length) :
    ((addChange s change frames).take n).map Frame.saved = (frames.take n).map Frame.saved := by
  cases frames with
  | nil =>
      obtain rfl : n = 0 := by simpa using hn
      rfl
  | cons frame rest => cases n <;> simp [addChange]

theorem write (h : r.Nested keys) {w : Write Obj} (hclear : w.Clear keys r.db.store) :
    (r.step keys (.write w)).Nested keys := by
  have hconsistent := h.consistent.write w
  cases hchange : w.change keys r.db.store with
  | none =>
      have hstep : r.step keys (.write w) = r := by
        simp [step, DbEvent.call, Write.call_state, nextFrames, hchange]
      rwa [hstep]
  | some change =>
      have hkeeps := hclear.keeps hchange
      have hdb : (r.step keys (.write w)).db = r.db.applyChange change := by
        simp [step, DbEvent.call, Write.call_state, hchange]
      have hframes : (r.step keys (.write w)).frames = addChange r.db.store change r.frames := by
        simp [step, nextFrames, hchange]
      have hactive : (r.step keys (.write w)).db.undoStack.activeSessions =
          r.db.undoStack.activeSessions := by
        rw [hdb, ObjectDatabase.applyChange, ObjectDatabase.activeSessions_record]
      refine ⟨hconsistent, ?_, ?_, ?_⟩
      · rw [hframes]
        exact addChange_keeps h.keeps hkeeps
      · rw [hactive, hframes]
        refine h.active_le.trans ?_
        cases r.frames <;> simp [addChange]
      · rw [hactive, hframes, take_addChange h.active_le]
        exact h.sessions

theorem startSession (h : r.Nested keys) (forceEnable : Bool)
    (hsize : r.db.undoStack.size ≤ r.db.undoStack.maxSize) :
    (r.step keys (.startSession forceEnable)).Nested keys := by
  have hconsistent := h.consistent.startSession forceEnable
  have hlength : r.frames.length ≤ r.db.undoStack.maxSize := by
    simpa [SessionStack.size, h.consistent.stack] using hsize
  have hstep : r.step keys (.startSession forceEnable) =
      { db := { r.db with undoStack := r.db.undoStack.start .empty, disabled := false }
        frames := ⟨r.db.store, []⟩ :: r.frames
        sessions := r.db.store :: r.sessions } := by
    simp [step, DbEvent.call, ObjectDatabase.startUndoSession, h.consistent.enabled, nextFrames,
      nextSessions, List.take_of_length_le hlength]
  rw [hstep] at hconsistent ⊢
  refine ⟨hconsistent, ?_, ?_, ?_⟩
  · simpa using h.keeps
  · simpa using h.active_le
  · simp [h.sessions]

omit [DecidableEq κ] in
/-- A session that ends with its frame leaves those of the others. -/
theorem tail {db : ObjectDatabase Obj} (h : r.Nested keys)
    (hactive : db.undoStack.activeSessions = r.db.undoStack.activeSessions - 1)
    (hconsistent : (UndoRun.mk db r.frames.tail r.sessions.tail).Consistent keys) :
    (UndoRun.mk db r.frames.tail r.sessions.tail).Nested keys := by
  refine ⟨hconsistent, fun frame hframe ↦ h.keeps frame (List.mem_of_mem_tail hframe), ?_, ?_⟩
  · have hle := h.active_le
    simp only [hactive, List.length_tail]
    omega
  · simp only [hactive, h.sessions]
    rw [← List.map_tail]
    cases r.frames with
    | nil => simp
    | cons frame rest => cases r.db.undoStack.activeSessions <;> simp

omit [DecidableEq κ] in
theorem frames_ne_nil (h : r.Nested keys) (hactive : 0 < r.db.undoStack.activeSessions) :
    r.frames ≠ [] :=
  List.ne_nil_of_length_pos (hactive.trans_le h.active_le)

/-- The undone session's store is back. -/
theorem undo_returned (h : r.Nested keys) (hactive : 0 < r.db.undoStack.activeSessions)
    (hclear : r.db.ClearToApply keys order) :
    ∃ s, r.sessions.head? = some s ∧
      r.db.undo keys order =
        .returned { r.db with store := s, undoStack := r.db.undoStack.drop } := by
  have hunobstructed := h.unobstructed hclear (h.frames_ne_nil hactive)
  obtain ⟨db, hundo⟩ := (h.consistent.undo_returns_iff hactive hclear.1).mpr hunobstructed
  obtain ⟨frame, rest, hframes, -, rfl⟩ := h.consistent.undo_returned hclear.1 hundo
  refine ⟨frame.saved, ?_, hundo⟩
  obtain ⟨n, hn⟩ := Nat.exists_eq_add_of_lt hactive
  simp [h.sessions, hframes, hn]

theorem undo (h : r.Nested keys) (hclear : r.db.ClearToApply keys order) :
    (r.step keys (.undo order)).Nested keys := by
  rcases Nat.eq_zero_or_pos r.db.undoStack.activeSessions with hactive | hactive
  · have hundo : r.db.undo keys order = .threw (.assertion "_active_sessions > 0") r.db := by
      simp [ObjectDatabase.undo, h.consistent.enabled, hactive]
    simpa only [step, DbEvent.call, hundo] using h
  · have hconsistent := h.consistent.undo fun _ ↦
      ⟨hclear.1, h.unobstructed hclear (h.frames_ne_nil hactive)⟩
    obtain ⟨s, -, hundo⟩ := h.undo_returned hactive hclear
    simp only [step, DbEvent.call, hundo, nextFrames, nextSessions] at hconsistent ⊢
    exact h.tail rfl hconsistent

theorem popCommit (h : r.Nested keys) (hclear : r.db.ClearToApply keys order) :
    (r.step keys (.popCommit order)).Nested keys := by
  by_cases hactive : r.db.undoStack.activeSessions = 0
  · by_cases hstack : r.db.undoStack.stack = []
    · have hpop : r.db.popCommit keys order = .threw (.assertion "!_stack.empty()") r.db := by
        simp [ObjectDatabase.popCommit, hactive, hstack]
      simpa only [step, DbEvent.call, hpop] using h
    · have hframes : r.frames ≠ [] := by simpa [h.consistent.stack] using hstack
      have hunobstructed := h.unobstructed hclear hframes
      have hconsistent := h.consistent.popCommit fun _ _ ↦ ⟨hclear.1, hunobstructed⟩
      obtain ⟨db, hpop⟩ :=
        (h.consistent.popCommit_returns_iff hactive hclear.1).mpr hunobstructed
      obtain ⟨frame, rest, -, -, rfl⟩ := h.consistent.popCommit_returned hclear.1 hpop
      have hsessions : r.sessions.tail = r.sessions := by simp [h.sessions, hactive]
      simp only [step, DbEvent.call, hpop, nextFrames, nextSessions] at hconsistent ⊢
      rw [← hsessions] at hconsistent ⊢
      exact h.tail (by simp [hactive]) hconsistent
  · have hpop : r.db.popCommit keys order = .threw (.assertion "_active_sessions == 0") r.db := by
      simp [ObjectDatabase.popCommit, hactive]
    simpa only [step, DbEvent.call, hpop] using h

theorem merge (h : r.Nested keys) : (r.step keys .merge).Nested keys := by
  have hconsistent := h.consistent.merge
  by_cases hactive : r.db.undoStack.activeSessions = 0
  · simpa only [step, DbEvent.call, ObjectDatabase.merge, hactive, if_true] using h
  by_cases hlast : r.db.undoStack.activeSessions = 1 ∧ r.db.undoStack.size = 1
  · simp only [step, DbEvent.call, ObjectDatabase.merge, hlast, and_self, if_true, nextFrames,
      nextSessions] at hconsistent ⊢
    exact h.tail rfl hconsistent
  · have hsize : r.db.undoStack.size = r.frames.length := by
      simp [SessionStack.size, h.consistent.stack]
    have hle := h.active_le
    obtain ⟨frame, prev, rest, hframes⟩ :
        ∃ frame prev rest, r.frames = frame :: prev :: rest := by
      rcases hframes : r.frames with _ | ⟨frame, _ | ⟨prev, rest⟩⟩
      · simp [hframes, hactive] at hle
      · simp only [hframes, List.length_singleton] at hle hsize
        omega
      · exact ⟨frame, prev, rest, rfl⟩
    have hmerge := h.consistent.merge_returned (Nat.pos_of_ne_zero hactive) hframes
    simp only [step, DbEvent.call, hmerge, nextFrames, nextSessions, hlast, if_false, hframes,
      joinFrames] at hconsistent ⊢
    obtain ⟨n, hn⟩ := Nat.exists_eq_succ_of_ne_zero hactive
    refine ⟨hconsistent, ?_, ?_, ?_⟩
    · intro x hx change hchange
      have hkeeps := h.keeps
      simp only [hframes, List.mem_cons] at hx hkeeps
      rcases hx with rfl | hx
      · rcases List.mem_append.mp hchange with hc | hc
        · exact hkeeps prev (by simp) change hc
        · exact hkeeps frame (by simp) change hc
      · exact hkeeps x (by simp [hx]) change hchange
    · simp only [hframes, List.length_cons] at hle
      simp only [SessionStack.activeSessions_drop, List.length_cons]
      omega
    · simp only [h.sessions, hframes, SessionStack.activeSessions_drop, hn]
      cases n <;> simp

theorem commit (h : r.Nested keys) (hactive : r.db.undoStack.activeSessions ≤ 1) :
    (r.step keys .commit).Nested keys := by
  have hconsistent := h.consistent.commit
  by_cases hzero : r.db.undoStack.activeSessions = 0
  · simpa only [step, DbEvent.call, ObjectDatabase.commit, hzero, if_true] using h
  · have hone : r.db.undoStack.activeSessions = 1 := by omega
    simp only [step, DbEvent.call, ObjectDatabase.commit, hzero, if_false, nextFrames,
      nextSessions] at hconsistent ⊢
    refine ⟨hconsistent, h.keeps, by simp [hone], ?_⟩
    cases hframes : r.frames <;> simp [h.sessions, hone, hframes]

theorem of_reaches (hr : Reaches (step keys) (WellBehaved keys) start r)
    (hstart : start.Initial keys) : r.Nested keys := by
  refine hr.invariant (Nested keys) (.initial hstart) fun s event hs hevent ↦ ?_
  cases event with
  | write w => exact hs.write hevent
  | startSession forceEnable => exact hs.startSession forceEnable hevent
  | undo order => exact hs.undo hevent
  | merge => exact hs.merge
  | commit => exact hs.commit hevent
  | popCommit order => exact hs.popCommit hevent

omit [DecidableEq κ] in
/-- Two active sessions have the two newest frames. -/
theorem frames_eq (h : r.Nested keys) (hactive : 2 ≤ r.db.undoStack.activeSessions) :
    ∃ frame prev rest, r.frames = frame :: prev :: rest := by
  have hle := h.active_le
  match hframes : r.frames with
  | [] =>
      simp only [hframes, List.length_nil] at hle
      omega
  | [frame] =>
      simp only [hframes, List.length_singleton] at hle
      omega
  | frame :: prev :: rest => exact ⟨frame, prev, rest, rfl⟩

end Nested

/-- The state that merging the two newest ones leaves is that of one session
which made the changes of both. -/
def MergesTo (keys : Obj → List κ) (r : UndoRun Obj) (merged : ObjectDatabase Obj) : Prop :=
  ∃ frame prev rest, r.frames = frame :: prev :: rest ∧
    Runs keys prev.saved (prev.history ++ frame.history) r.db.store ∧
    merged = { r.db with
      undoStack := { r.db.undoStack.drop with
        stack := stateOf (prev.history ++ frame.history) ::
          rest.map fun frame ↦ stateOf frame.history } }

omit [DecidableEq κ] in
theorem Nested.merge_mergesTo (h : r.Nested keys)
    (hactive : 2 ≤ r.db.undoStack.activeSessions) :
    ∃ merged, r.db.merge = .returned merged ∧ r.MergesTo keys merged := by
  obtain ⟨frame, prev, rest, hframes⟩ := h.frames_eq hactive
  have hlinked := h.consistent.linked
  refine ⟨_, h.consistent.merge_returned (by omega) hframes, frame, prev, rest, hframes, ?_, rfl⟩
  rw [hframes] at hlinked
  cases hlinked with
  | cons _ hrun hrest =>
      cases hrest with
      | cons _ hprev _ => exact hprev.trans hrun

/-- Merge and undo, or undo twice. -/
theorem Nested.undo_merged (h : r.Nested keys) (hactive : 2 ≤ r.db.undoStack.activeSessions)
    {merged undone : ObjectDatabase Obj} {inner outer both : VisitOrder}
    (hmerge : r.db.merge = .returned merged) (hundo : r.db.undo keys inner = .returned undone)
    (hinner : r.db.ClearToApply keys inner) (houter : undone.ClearToApply keys outer)
    (hboth : merged.ClearToApply keys both) :
    ∃ db, merged.undo keys both = .returned db ∧ undone.undo keys outer = .returned db := by
  have hnestedMerge := h.merge
  have hnestedUndo := h.undo hinner
  obtain ⟨frame, prev, rest, hframes⟩ := h.frames_eq hactive
  have hmerged := h.consistent.merge_returned (by omega) hframes
  obtain ⟨s, -, hundone⟩ := h.undo_returned (by omega) hinner
  obtain rfl := Outcome.returned.inj (hmerge.symm.trans hmerged)
  obtain rfl := Outcome.returned.inj (hundo.symm.trans hundone)
  simp only [step, DbEvent.call, hmerged, hundone, nextSessions] at hnestedMerge hnestedUndo
  obtain ⟨u, hu, hbothReturned⟩ := hnestedMerge.undo_returned (by simp; omega) hboth
  obtain ⟨v, hv, houterReturned⟩ := hnestedUndo.undo_returned (by simp; omega) houter
  obtain rfl : u = v := Option.some.inj (hu.symm.trans hv)
  refine ⟨_, hbothReturned, houterReturned.trans ?_⟩
  simp [SessionStack.drop, h.consistent.stack, hframes]

/-- Undoing a session brings back the objects and id counters with which it
started, and merging it into its parent first makes no difference. -/
theorem undo_restores_session (hstart : start.Initial keys)
    (hr : Reaches (step keys) (WellBehaved keys) start r) :
    (∀ order, 0 < r.db.undoStack.activeSessions → r.db.ClearToApply keys order →
      ∃ s, r.sessions.head? = some s ∧ r.db.undo keys order =
        .returned { r.db with store := s, undoStack := r.db.undoStack.drop }) ∧
    (2 ≤ r.db.undoStack.activeSessions →
      ∃ merged, r.db.merge = .returned merged ∧ r.MergesTo keys merged ∧
        ∀ inner outer both undone, r.db.ClearToApply keys inner →
          r.db.undo keys inner = .returned undone → undone.ClearToApply keys outer →
          merged.ClearToApply keys both →
          ∃ db, merged.undo keys both = .returned db ∧
            undone.undo keys outer = .returned db) := by
  have h := Nested.of_reaches hr hstart
  refine ⟨fun order hactive hclear ↦ h.undo_returned hactive hclear, fun hactive ↦ ?_⟩
  obtain ⟨merged, hmerge, hmergesTo⟩ := h.merge_mergesTo hactive
  exact ⟨merged, hmerge, hmergesTo, fun inner outer both undone hinner hundo houter hboth ↦
    h.undo_merged hactive hmerge hundo hinner houter hboth⟩

/-! The account gets a new name in each of two sessions. -/

def rename (n : ℕ) : DbEvent ℕ := .write (.modify (account 0) fun _ ↦ some n)

def renamedTwice : UndoRun ℕ :=
  [.startSession false, rename 8, .startSession false, rename 9].foldl (step name) oneAccount

def renameOrder : VisitOrder := ⟨[account 0], [], []⟩

/-- The state of a session that renamed the account. -/
def renameState (old : ℕ) : UndoState ℕ :=
  { oldValues := Function.update (fun _ ↦ none) (account 0) (some old) }

theorem enumerates_renameState (old : ℕ) : Enumerates renameOrder (renameState old) := by
  constructor <;> simp [renameOrder, renameState, Function.update_apply]

theorem clearToApply_renameState {db : ObjectDatabase ℕ} {old : ℕ}
    (hstack : db.undoStack.stack.head? = some (renameState old))
    (hblocked : ¬(renameState old).Blocked name db.store.objects [account 0]) :
    db.ClearToApply name renameOrder := by
  constructor
  · intro state hstate
    obtain rfl := Option.some.inj (hstack.symm.trans hstate)
    exact enumerates_renameState old
  · intro state hstate
    obtain rfl := Option.some.inj (hstack.symm.trans hstate)
    exact hblocked

theorem renamedTwice_reaches :
    Reaches (step name) (WellBehaved name) oneAccount renamedTwice := by
  have hfirst : Reaches (step name) (WellBehaved name) oneAccount
      (oneAccount.step name (.startSession false)) := .next _ .refl (Nat.zero_le _)
  have hrename := hfirst.next (rename 8) fun _ _ ↦ ⟨8, rfl, by decide⟩
  have hsecond := hrename.next (.startSession false) (Nat.le_of_ble_eq_true rfl)
  exact hsecond.next (rename 9) fun _ _ ↦ ⟨9, rfl, by decide⟩

theorem undo_restores_session_renamedTwice :
    ∃ merged undone db, renamedTwice.db.merge = .returned merged ∧
      renamedTwice.db.undo name renameOrder = .returned undone ∧
      merged.undo name renameOrder = .returned db ∧
      undone.undo name renameOrder = .returned db := by
  have h := undo_restores_session oneAccount_initial renamedTwice_reaches
  have hinner : renamedTwice.db.ClearToApply name renameOrder :=
    clearToApply_renameState rfl (by decide)
  obtain ⟨s, hs, hundo⟩ := h.1 renameOrder (by decide) hinner
  obtain ⟨merged, hmerge, hmergesTo, hboth⟩ := h.2 (by decide)
  have houter : ({ renamedTwice.db with
      store := s, undoStack := renamedTwice.db.undoStack.drop } : ObjectDatabase ℕ).ClearToApply
        name renameOrder := by
    obtain rfl := Option.some.inj hs
    exact clearToApply_renameState rfl (by decide)
  have hmerged : merged.ClearToApply name renameOrder := by
    obtain ⟨frame, prev, rest, hframes, -, rfl⟩ := hmergesTo
    have hheads : frame.history = [.modified (account 0) 8 9] ∧
        prev.history = [.modified (account 0) 7 8] := by
      injection hframes with hframe hframes
      injection hframes with hprev hrest
      exact ⟨hframe ▸ rfl, hprev ▸ rfl⟩
    have hstate : stateOf (prev.history ++ frame.history) = renameState 7 := by
      rw [hheads.1, hheads.2]
      rfl
    have hblocked : ¬(renameState 7).Blocked name renamedTwice.db.store.objects [account 0] := by
      decide
    exact clearToApply_renameState (congrArg some hstate) hblocked
  obtain ⟨db, hmergedUndo, hundoneUndo⟩ :=
    hboth renameOrder renameOrder renameOrder _ hinner hundo houter hmerged
  exact ⟨merged, _, db, hmerge, hundo, hmergedUndo, hundoneUndo⟩

/-- The inner session is committed, not merged. -/
def committedInside : UndoRun ℕ := renamedTwice.step name .commit

theorem committedInside_undo_keeps_outer_rename :
    Reaches (step name) (fun _ _ ↦ True) oneAccount committedInside ∧
      committedInside.sessions.head? = some oneAccount.db.store ∧
      committedInside.db.undoStack.size ≤ committedInside.db.undoStack.maxSize ∧
      committedInside.db.ClearToApply name renameOrder ∧
      ∃ db, committedInside.db.undo name renameOrder = .returned db ∧
        db.store.objects.lookup (account 0) = some 8 ∧
        oneAccount.db.store.objects.lookup (account 0) = some 7 :=
  ⟨(renamedTwice_reaches.mono fun _ _ _ ↦ trivial).next DbEvent.commit trivial, rfl, by decide,
    clearToApply_renameState rfl (by decide), _, rfl, by decide, by decide⟩

end UndoRun

end KarmaCore
