import Mathlib
import KarmaCore.Lib.Run
import KarmaCore.Db.Restore

/-!
# Runs of the undo database

A run of object and session operations, together with a record of what has
happened: for every state on the undo stack the store in which it began and the
changes since, and for every active session the store in which it started.
-/

namespace KarmaCore

variable {Obj κ : Type} [DecidableEq κ]

/-- An operation on one object. -/
inductive Write (Obj : Type)
  | create (index : IndexId) (o : Obj)
  | modify (id : ObjectId) (f : Obj → Option Obj)
  | remove (id : ObjectId)

/-- One operation on the database.  The order of a visit is the hash
containers' own. -/
inductive DbEvent (Obj : Type)
  | write (w : Write Obj)
  | startSession (forceEnable : Bool)
  | undo (order : VisitOrder)
  | merge
  | commit
  | popCommit (order : VisitOrder)

def Write.call (keys : Obj → List κ) (db : ObjectDatabase Obj) :
    Write Obj → Outcome DbError (ObjectDatabase Obj)
  | create index o => db.create keys index o
  | modify id f => db.modify keys id f
  | remove id => db.remove id

def DbEvent.call (keys : Obj → List κ) (db : ObjectDatabase Obj) :
    DbEvent Obj → Outcome DbError (ObjectDatabase Obj)
  | write w => w.call keys db
  | startSession forceEnable => .returned (db.startUndoSession forceEnable)
  | undo order => db.undo keys order
  | merge => db.merge
  | commit => db.commit
  | popCommit order => db.popCommit keys order

/-- A failed creation changes nothing, a failed modification loses the object. -/
def Write.change (keys : Obj → List κ) (s : Store Obj) : Write Obj → Option (Change Obj)
  | create index o =>
      if s.nextId index ∈ s.objects ∨ Taken keys s.objects (s.nextId index) o then none
      else some (.created (s.nextId index) o)
  | modify id f =>
      match s.objects.lookup id with
      | none => none
      | some old =>
        match f old with
        | none => some (.lost id old)
        | some new =>
            if Taken keys s.objects id new then some (.lost id old)
            else some (.modified id old new)
  | remove id => (s.objects.lookup id).map (.removed id)

/-- The store in which a state of the undo stack began and the changes since. -/
structure Frame (Obj : Type) where
  saved : Store Obj
  history : List (Change Obj)

/-- The database and what has happened to it. -/
structure UndoRun (Obj : Type) where
  db : ObjectDatabase Obj
  frames : List (Frame Obj) := []
  sessions : List (Store Obj) := []

namespace UndoRun

/-- A change without a state on the stack opens one that belongs to no session. -/
def addChange (s : Store Obj) (change : Change Obj) : List (Frame Obj) → List (Frame Obj)
  | [] => [⟨s, [change]⟩]
  | frame :: rest => { frame with history := frame.history ++ [change] } :: rest

def joinFrames : List (Frame Obj) → List (Frame Obj)
  | frame :: prev :: rest => { prev with history := prev.history ++ frame.history } :: rest
  | frames => frames

/-- What an operation that returned did to the frames; a write may have thrown. -/
def nextFrames (keys : Obj → List κ) (r : UndoRun Obj) : DbEvent Obj → List (Frame Obj)
  | .write w =>
      match w.change keys r.db.store with
      | none => r.frames
      | some change => addChange r.db.store change r.frames
  | .startSession _ => ⟨r.db.store, []⟩ :: r.frames.take r.db.undoStack.maxSize
  | .undo _ => r.frames.tail
  | .merge =>
      if r.db.undoStack.activeSessions = 1 ∧ r.db.undoStack.size = 1 then r.frames.tail
      else joinFrames r.frames
  | .commit => r.frames
  | .popCommit _ => r.frames.tail

def nextSessions (r : UndoRun Obj) : DbEvent Obj → List (Store Obj)
  | .write _ => r.sessions
  | .startSession _ => r.db.store :: r.sessions
  | .undo _ => r.sessions.tail
  | .merge => r.sessions.tail
  | .commit => r.sessions.tail
  | .popCommit _ => r.sessions

def step (keys : Obj → List κ) (r : UndoRun Obj) (event : DbEvent Obj) : UndoRun Obj :=
  match event, event.call keys r.db with
  | .write w, result => { r with db := result.state, frames := r.nextFrames keys (.write w) }
  | event, .returned db => ⟨db, r.nextFrames keys event, r.nextSessions event⟩
  | _, .threw _ db => { r with db }

/-- A database with undo enabled and nothing to undo. -/
structure Initial (keys : Obj → List κ) (r : UndoRun Obj) : Prop where
  store : r.db.store.WellFormed keys
  stack : r.db.undoStack.stack = []
  activeSessions : r.db.undoStack.activeSessions = 0
  enabled : r.db.disabled = false
  frames : r.frames = []
  sessions : r.sessions = []

/-- Each frame's changes lead to the store where the next one began. -/
inductive Linked (keys : Obj → List κ) : Store Obj → List (Frame Obj) → Prop
  | nil (s : Store Obj) (hs : s.WellFormed keys) : Linked keys s []
  | cons {s : Store Obj} (frame : Frame Obj) {rest : List (Frame Obj)}
      (hrun : Runs keys frame.saved frame.history s) (hrest : Linked keys frame.saved rest) :
      Linked keys s (frame :: rest)

/-- The undo stack is what its frames' changes were recorded as. -/
structure Consistent (keys : Obj → List κ) (r : UndoRun Obj) : Prop where
  enabled : r.db.disabled = false
  linked : Linked keys r.db.store r.frames
  stack : r.db.undoStack.stack = r.frames.map fun frame ↦ stateOf frame.history

variable {keys : Obj → List κ} {r : UndoRun Obj} {s t : Store Obj}
  {frames : List (Frame Obj)}

omit [DecidableEq κ] in
theorem Linked.wellFormed (h : Linked keys s frames) : s.WellFormed keys := by
  induction h with
  | nil s hs => exact hs
  | cons frame hrun _ ih => exact hrun.wellFormed ih

omit [DecidableEq κ] in
theorem Linked.take (h : Linked keys s frames) (n : ℕ) : Linked keys s (frames.take n) := by
  induction h generalizing n with
  | nil s hs => simpa using Linked.nil s hs
  | @cons s frame rest hrun hrest ih =>
      cases n with
      | zero => exact .nil s (hrun.wellFormed hrest.wellFormed)
      | succ n => exact .cons frame hrun (ih n)

omit [DecidableEq κ] in
theorem Linked.addChange (h : Linked keys s frames) {change : Change Obj}
    (hchange : change.Valid keys s) :
    Linked keys (change.apply s) (addChange s change frames) := by
  cases h with
  | nil s hs => exact .cons _ (Runs.nil.snoc hchange) (.nil s hs)
  | cons frame hrun hrest => exact .cons _ (hrun.snoc hchange) hrest

omit [DecidableEq κ] in
theorem Linked.join (h : Linked keys s frames) : Linked keys s (joinFrames frames) := by
  cases h with
  | nil s hs => exact .nil s hs
  | cons frame hrun hrest =>
      cases hrest with
      | nil s hs => exact .cons frame hrun (.nil _ hs)
      | cons prev hprev hrest => exact .cons _ (hprev.trans hrun) hrest

end UndoRun

/-! ## Writes make a change and record it -/

/-- Make a change and record it. -/
def ObjectDatabase.applyChange (db : ObjectDatabase Obj) (change : Change Obj) :
    ObjectDatabase Obj :=
  ({ db with store := change.apply db.store }).record change.record

theorem ObjectDatabase.record_store (db : ObjectDatabase Obj) (s : Store Obj)
    (f : UndoState Obj → UndoState Obj) :
    { db.record f with store := s } = ({ db with store := s }).record f := by
  obtain ⟨store, ⟨stack, activeSessions, maxSize⟩, disabled⟩ := db
  cases disabled with
  | true => simp [record]
  | false => cases stack <;> simp [record]

@[simp] theorem ObjectDatabase.store_record (db : ObjectDatabase Obj)
    (f : UndoState Obj → UndoState Obj) : (db.record f).store = db.store := by
  unfold record
  split_ifs with hdisabled
  · rfl
  · split <;> rfl

@[simp] theorem ObjectDatabase.activeSessions_record (db : ObjectDatabase Obj)
    (f : UndoState Obj → UndoState Obj) :
    (db.record f).undoStack.activeSessions = db.undoStack.activeSessions := by
  unfold record
  split_ifs with hdisabled
  · rfl
  · split <;> rfl

namespace Write

variable {keys : Obj → List κ} {db : ObjectDatabase Obj} {w : Write Obj} {change : Change Obj}

theorem change_valid {s : Store Obj} (h : w.change keys s = some change) :
    change.Valid keys s := by
  cases w with
  | create index o =>
      simp only [Write.change] at h
      split_ifs at h with hfree
      obtain rfl := Option.some.inj h
      exact ⟨rfl, (not_or.mp hfree).2⟩
  | modify id f =>
      simp only [Write.change] at h
      split at h
      · cases h
      · rename_i old hold
        split at h
        · obtain rfl := Option.some.inj h
          exact hold
        · split_ifs at h with htaken
          · obtain rfl := Option.some.inj h
            exact hold
          · obtain rfl := Option.some.inj h
            exact ⟨hold, htaken⟩
  | remove id =>
      obtain ⟨old, hold, rfl⟩ := Option.map_eq_some_iff.mp h
      exact hold

theorem call_state (keys : Obj → List κ) (db : ObjectDatabase Obj) (w : Write Obj) :
    (w.call keys db).state =
      match w.change keys db.store with
      | none => db
      | some change => db.applyChange change := by
  cases w with
  | create index o =>
      by_cases hfree : db.store.nextId index ∈ db.store.objects ∨
          Taken keys db.store.objects (db.store.nextId index) o
      · simp [call, Write.change, ObjectDatabase.create, Store.create, Store.insert, hfree]
      · simp [call, Write.change, ObjectDatabase.create, Store.create, Store.insert, hfree]
        rfl
  | modify id f =>
      cases hold : db.store.objects.lookup id with
      | none => simp [call, Write.change, ObjectDatabase.modify, hold]
      | some old =>
          cases hnew : f old with
          | none =>
              simp [call, Write.change, ObjectDatabase.modify, Store.modify, Outcome.map, hold,
                hnew, ObjectDatabase.record_store]
              rfl
          | some new =>
              by_cases htaken : Taken keys db.store.objects id new
              · simp [call, Write.change, ObjectDatabase.modify, Store.modify, Outcome.map, hold,
                  hnew, htaken, ObjectDatabase.record_store]
                rfl
              · simp [call, Write.change, ObjectDatabase.modify, Store.modify, Outcome.map, hold,
                  hnew, htaken, ObjectDatabase.record_store]
                rfl
  | remove id =>
      cases hold : db.store.objects.lookup id with
      | none => simp [call, Write.change, ObjectDatabase.remove, hold]
      | some old =>
          have hmem := Finmap.mem_of_lookup_eq_some hold
          simp [call, Write.change, ObjectDatabase.remove, Store.remove, Outcome.map, hold, hmem,
            ObjectDatabase.record_store]
          rfl

end Write

/-! ## Every operation keeps the record right -/

namespace ObjectDatabase

/-- The order lists the containers of the newest state. -/
def EnumeratesTop (order : VisitOrder) (db : ObjectDatabase Obj) : Prop :=
  ∀ state ∈ db.undoStack.stack.head?, Enumerates order state

/-- The newest state can be applied: the objects it looks up are there, and no
old value needs a key that an object still to be restored has. -/
def Unobstructed (keys : Obj → List κ) (order : VisitOrder) (db : ObjectDatabase Obj) : Prop :=
  ∃ state ∈ db.undoStack.stack.head?,
    state.Present db.store ∧ ¬state.Blocked keys db.store.objects order.oldValues

end ObjectDatabase

namespace UndoRun.Consistent

variable {keys : Obj → List κ} {r : UndoRun Obj} {order : VisitOrder} {db : ObjectDatabase Obj}

omit [DecidableEq κ] in
theorem initial (h : r.Initial keys) : r.Consistent keys where
  enabled := h.enabled
  linked := h.frames ▸ .nil _ h.store
  stack := by rw [h.stack, h.frames, List.map_nil]

theorem write (h : r.Consistent keys) (w : Write Obj) :
    (r.step keys (.write w)).Consistent keys := by
  obtain ⟨⟨store, ⟨stack, activeSessions, maxSize⟩, disabled⟩, frames, sessions⟩ := r
  obtain ⟨hdisabled, hlinked, hstack⟩ := h
  dsimp only at hdisabled hlinked hstack
  subst hdisabled hstack
  simp only [step, DbEvent.call, Write.call_state, nextFrames]
  cases hchange : w.change keys store with
  | none => exact ⟨rfl, hlinked, rfl⟩
  | some change =>
      have hrecord := hlinked.addChange (Write.change_valid hchange)
      cases frames with
      | nil => exact ⟨rfl, hrecord, by simp [ObjectDatabase.applyChange, ObjectDatabase.record,
          addChange, stateOf]⟩
      | cons frame rest =>
          refine ⟨rfl, hrecord, ?_⟩
          simp [ObjectDatabase.applyChange, ObjectDatabase.record, addChange,
            stateOf_append_singleton]

theorem startSession (h : r.Consistent keys) (forceEnable : Bool) :
    (r.step keys (.startSession forceEnable)).Consistent keys := by
  have hdisabled : ¬(r.db.disabled ∧ ¬forceEnable) := by simp [h.enabled]
  simp only [step, DbEvent.call, ObjectDatabase.startUndoSession, hdisabled, if_false, nextFrames]
  refine ⟨rfl, .cons _ .nil (h.linked.take _), ?_⟩
  simp [h.stack, List.map_take, stateOf]

omit [DecidableEq κ] in
theorem topFrame (h : r.Consistent keys) {state : UndoState Obj}
    (hstate : state ∈ r.db.undoStack.stack.head?) :
    ∃ frame rest, r.frames = frame :: rest ∧ state = stateOf frame.history ∧
      Undoes state r.db.store frame.saved ∧ frame.saved.WellFormed keys ∧
      Linked keys frame.saved rest := by
  have hlinked := h.linked
  rw [h.stack] at hstate
  cases hframes : r.frames with
  | nil => simp [hframes] at hstate
  | cons frame rest =>
      obtain rfl : stateOf frame.history = state := by simpa [hframes] using hstate
      rw [hframes] at hlinked
      cases hlinked with
      | cons _ hrun hrest =>
          have hsaved := hrest.wellFormed
          exact ⟨frame, rest, rfl, rfl, undoes_of_runs hrun hsaved, hsaved, hrest⟩

theorem restore_returns_iff {state : UndoState Obj} (h : r.Consistent keys)
    (horder : r.db.EnumeratesTop order) (hstate : state ∈ r.db.undoStack.stack.head?) :
    (∃ s, state.restore keys order r.db.store = .returned s) ↔ r.db.Unobstructed keys order := by
  obtain ⟨frame, rest, -, -, hundoes, hsaved, -⟩ := h.topFrame hstate
  rw [UndoState.restore_returns_iff hundoes hsaved (horder state hstate)]
  simp [ObjectDatabase.Unobstructed, Option.mem_def.mp hstate]

theorem restore_returned {state : UndoState Obj} {s : Store Obj} (h : r.Consistent keys)
    (horder : r.db.EnumeratesTop order) (hstate : state ∈ r.db.undoStack.stack.head?)
    (hrestore : state.restore keys order r.db.store = .returned s) :
    ∃ frame rest, r.frames = frame :: rest ∧ Linked keys frame.saved rest ∧ s = frame.saved := by
  obtain ⟨frame, rest, hframes, -, hundoes, hsaved, hrest⟩ := h.topFrame hstate
  exact ⟨frame, rest, hframes, hrest,
    UndoState.restore_eq_saved hundoes hsaved (horder state hstate) hrestore⟩

/-- `undo` completes exactly when nothing stands in the way. -/
theorem undo_returns_iff (h : r.Consistent keys) (hactive : 0 < r.db.undoStack.activeSessions)
    (horder : r.db.EnumeratesTop order) :
    (∃ db, r.db.undo keys order = .returned db) ↔ r.db.Unobstructed keys order := by
  cases hstack : r.db.undoStack.stack with
  | nil => simp [ObjectDatabase.undo, ObjectDatabase.Unobstructed, h.enabled, hactive.ne', hstack]
  | cons state rest =>
      have hstate : state ∈ r.db.undoStack.stack.head? := by simp [hstack]
      rw [← h.restore_returns_iff horder hstate]
      simp only [ObjectDatabase.undo, h.enabled, hactive.ne', hstack, if_false]
      cases state.restore keys order r.db.store <;> simp

theorem undo_returned (h : r.Consistent keys) (horder : r.db.EnumeratesTop order)
    (hundo : r.db.undo keys order = .returned db) :
    ∃ frame rest, r.frames = frame :: rest ∧ Linked keys frame.saved rest ∧
      db = { r.db with store := frame.saved, undoStack := r.db.undoStack.drop } := by
  have hdisabled := h.enabled
  unfold ObjectDatabase.undo at hundo
  split_ifs at hundo with hactive
  cases hstack : r.db.undoStack.stack with
  | nil => simp [hstack] at hundo
  | cons state rest =>
      simp only [hstack] at hundo
      cases hrestore : state.restore keys order r.db.store with
      | threw e s => simp [hrestore] at hundo
      | returned s =>
          obtain ⟨frame, rest, hframes, hrest, rfl⟩ :=
            h.restore_returned horder (by simp [hstack]) hrestore
          refine ⟨frame, rest, hframes, hrest, ?_⟩
          simpa [hrestore, hdisabled, eq_comm] using hundo

theorem popCommit_returns_iff (h : r.Consistent keys)
    (hactive : r.db.undoStack.activeSessions = 0) (horder : r.db.EnumeratesTop order) :
    (∃ db, r.db.popCommit keys order = .returned db) ↔ r.db.Unobstructed keys order := by
  cases hstack : r.db.undoStack.stack with
  | nil => simp [ObjectDatabase.popCommit, ObjectDatabase.Unobstructed, hactive, hstack]
  | cons state rest =>
      have hstate : state ∈ r.db.undoStack.stack.head? := by simp [hstack]
      rw [← h.restore_returns_iff horder hstate]
      simp only [ObjectDatabase.popCommit, hactive, hstack]
      cases state.restore keys order r.db.store <;> simp

theorem popCommit_returned (h : r.Consistent keys) (horder : r.db.EnumeratesTop order)
    (hpop : r.db.popCommit keys order = .returned db) :
    ∃ frame rest, r.frames = frame :: rest ∧ Linked keys frame.saved rest ∧
      db = { r.db with store := frame.saved, undoStack := r.db.undoStack.pop } := by
  have hdisabled := h.enabled
  unfold ObjectDatabase.popCommit at hpop
  split_ifs at hpop with hactive
  cases hstack : r.db.undoStack.stack with
  | nil => simp [hstack] at hpop
  | cons state rest =>
      simp only [hstack] at hpop
      cases hrestore : state.restore keys order r.db.store with
      | threw e s => simp [hrestore] at hpop
      | returned s =>
          obtain ⟨frame, rest, hframes, hrest, rfl⟩ :=
            h.restore_returned horder (by simp [hstack]) hrestore
          refine ⟨frame, rest, hframes, hrest, ?_⟩
          simpa [hrestore, hdisabled, eq_comm] using hpop

theorem undo (h : r.Consistent keys) (hclear : 0 < r.db.undoStack.activeSessions →
    r.db.EnumeratesTop order ∧ r.db.Unobstructed keys order) :
    (r.step keys (.undo order)).Consistent keys := by
  rcases Nat.eq_zero_or_pos r.db.undoStack.activeSessions with hactive | hactive
  · have hundo : r.db.undo keys order = .threw (.assertion "_active_sessions > 0") r.db := by
      simp [ObjectDatabase.undo, h.enabled, hactive]
    simpa only [step, DbEvent.call, hundo] using h
  · obtain ⟨horder, hunobstructed⟩ := hclear hactive
    obtain ⟨db, hundo⟩ := (h.undo_returns_iff hactive horder).mpr hunobstructed
    obtain ⟨frame, rest, hframes, hrest, rfl⟩ := h.undo_returned horder hundo
    simp only [step, DbEvent.call, hundo, nextFrames]
    refine ⟨h.enabled, ?_, ?_⟩
    · simpa [hframes] using hrest
    · simp [h.stack, hframes]

theorem popCommit (h : r.Consistent keys) (hclear : r.db.undoStack.activeSessions = 0 →
    r.db.undoStack.stack ≠ [] → r.db.EnumeratesTop order ∧ r.db.Unobstructed keys order) :
    (r.step keys (.popCommit order)).Consistent keys := by
  by_cases hactive : r.db.undoStack.activeSessions = 0
  · by_cases hstack : r.db.undoStack.stack = []
    · have hpop : r.db.popCommit keys order = .threw (.assertion "!_stack.empty()") r.db := by
        simp [ObjectDatabase.popCommit, hactive, hstack]
      simpa only [step, DbEvent.call, hpop] using h
    · obtain ⟨horder, hunobstructed⟩ := hclear hactive hstack
      obtain ⟨db, hpop⟩ := (h.popCommit_returns_iff hactive horder).mpr hunobstructed
      obtain ⟨frame, rest, hframes, hrest, rfl⟩ := h.popCommit_returned horder hpop
      simp only [step, DbEvent.call, hpop, nextFrames]
      refine ⟨h.enabled, ?_, ?_⟩
      · simpa [hframes] using hrest
      · simp [h.stack, hframes]
  · have hpop : r.db.popCommit keys order = .threw (.assertion "_active_sessions == 0") r.db := by
      simp [ObjectDatabase.popCommit, hactive]
    simpa only [step, DbEvent.call, hpop] using h

omit [DecidableEq κ] in
/-- The two newest frames become one. -/
theorem merge_join {frame prev : Frame Obj} {rest : List (Frame Obj)} (h : r.Consistent keys)
    (hframes : r.frames = frame :: prev :: rest) :
    (stateOf prev.history).merge (stateOf frame.history) =
      stateOf (prev.history ++ frame.history) := by
  have hlinked := h.linked
  rw [hframes] at hlinked
  cases hlinked with
  | cons _ hrun hrest =>
      cases hrest with
      | cons _ hprev hrest => exact merge_stateOf hprev hrun hrest.wellFormed

omit [DecidableEq κ] in
/-- The two newest states become the one of both histories. -/
theorem merge_returned {frame prev : Frame Obj} {rest : List (Frame Obj)} (h : r.Consistent keys)
    (hactive : 0 < r.db.undoStack.activeSessions) (hframes : r.frames = frame :: prev :: rest) :
    r.db.merge = .returned { r.db with
      undoStack := { r.db.undoStack.drop with
        stack := stateOf (prev.history ++ frame.history) ::
          rest.map fun frame ↦ stateOf frame.history } } := by
  have hstack := h.stack
  rw [hframes, List.map_cons, List.map_cons] at hstack
  have hsize : r.db.undoStack.size ≠ 1 := by simp [SessionStack.size, hstack]
  simp only [ObjectDatabase.merge, hactive.ne', hsize, and_false, if_false, hstack,
    h.merge_join hframes]

theorem merge (h : r.Consistent keys) : (r.step keys .merge).Consistent keys := by
  have hsize : r.db.undoStack.size = r.frames.length := by simp [SessionStack.size, h.stack]
  by_cases hactive : r.db.undoStack.activeSessions = 0
  · simpa only [step, DbEvent.call, ObjectDatabase.merge, hactive, if_true] using h
  by_cases hlast : r.db.undoStack.activeSessions = 1 ∧ r.db.undoStack.size = 1
  · simp only [step, DbEvent.call, ObjectDatabase.merge, hlast, and_self, if_true, nextFrames]
    refine ⟨h.enabled, ?_, by simp [h.stack, List.map_tail]⟩
    have hlength : r.frames.tail = [] := by
      rw [← List.length_eq_zero_iff, List.length_tail]
      omega
    rw [hlength]
    exact .nil _ h.linked.wellFormed
  · match hframes : r.frames with
    | [] =>
        have hmerge : r.db.merge = .threw (.assertion "_stack.size() >=2") r.db := by
          simp [ObjectDatabase.merge, hactive, hlast, h.stack, hframes]
        simpa only [step, DbEvent.call, hmerge] using h
    | [frame] =>
        have hmerge : r.db.merge = .threw (.assertion "_stack.size() >=2") r.db := by
          simp [ObjectDatabase.merge, hactive, hlast, h.stack, hframes]
        simpa only [step, DbEvent.call, hmerge] using h
    | frame :: prev :: rest =>
        have hlinked := h.linked.join
        simp only [step, DbEvent.call, h.merge_returned (Nat.pos_of_ne_zero hactive) hframes,
          nextFrames, hlast, if_false]
        refine ⟨h.enabled, hlinked, ?_⟩
        simp [joinFrames, hframes]

theorem commit (h : r.Consistent keys) : (r.step keys .commit).Consistent keys := by
  by_cases hactive : r.db.undoStack.activeSessions = 0
  · simpa only [step, DbEvent.call, ObjectDatabase.commit, hactive, if_true] using h
  · simp only [step, DbEvent.call, ObjectDatabase.commit, hactive, if_false, nextFrames]
    exact ⟨h.enabled, h.linked, h.stack⟩

end UndoRun.Consistent

namespace UndoRun

/-! A database with one account, whose name is 7. -/

def account (number : ℕ) : ObjectId := ⟨(1, 2), number⟩

def name (n : ℕ) : List ℕ := [n]

def oneAccount : UndoRun ℕ where
  db :=
    { store := ⟨Finmap.insert (account 0) 7 ∅, fun index ↦ if index = (1, 2) then 1 else 0⟩
      undoStack := .empty 256 }

theorem oneAccount_initial : oneAccount.Initial name where
  store := by
    have hlookup : ∀ id o, oneAccount.db.store.objects.lookup id = some o →
        id = account 0 ∧ o = 7 := by
      intro id o ho
      by_cases hid : id = account 0
      · subst hid
        exact ⟨rfl, (Option.some.inj ho).symm⟩
      · rw [oneAccount, Finmap.lookup_insert_of_ne _ hid] at ho
        simp at ho
    constructor
    · intro id hid
      obtain ⟨o, ho⟩ := Option.isSome_iff_exists.mp (Finmap.lookup_isSome.mpr hid)
      obtain ⟨rfl, -⟩ := hlookup id o ho
      decide
    · intro id o id' o' ho ho' hne
      exact absurd ((hlookup id o ho).1.trans (hlookup id' o' ho').1.symm) hne
  stack := rfl
  activeSessions := rfl
  enabled := rfl
  frames := rfl
  sessions := rfl

end UndoRun

end KarmaCore
