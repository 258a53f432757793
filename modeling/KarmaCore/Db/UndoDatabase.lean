import Mathlib
import KarmaCore.Lib.Outcome
import KarmaCore.Lib.SessionStack

/-!
# The object database and its undo states

Objects by id with unique secondary keys in each index, the undo states that
record changes, and the operations on sessions.  Hash containers are functions
here; the order a loop visits one in is an argument of the operation.
-/

namespace KarmaCore

/-- The space and type of an object. -/
abbrev IndexId := ℕ × ℕ

structure ObjectId where
  index : IndexId
  number : ℕ
  deriving DecidableEq, Repr

inductive DbError
  | unableToFindObject
  | uniquenessViolated
  | callbackThrew
  | assertion (message : String)
  deriving DecidableEq, Repr

/-- All indexes with their id counters. -/
structure Store (Obj : Type) where
  objects : Finmap fun _ : ObjectId ↦ Obj
  nextIds : IndexId → ℕ

/-- What one session changed. -/
structure UndoState (Obj : Type) where
  oldValues : ObjectId → Option Obj := fun _ ↦ none
  oldIndexNextIds : IndexId → Option ℕ := fun _ ↦ none
  newIds : ObjectId → Bool := fun _ ↦ false
  removed : ObjectId → Option Obj := fun _ ↦ none

/-- The order in which `undo` visits the containers of a state. -/
structure VisitOrder where
  oldValues : List ObjectId
  newIds : List ObjectId
  removed : List ObjectId

variable {Obj κ : Type} [DecidableEq κ] (keys : Obj → List κ)

/-- Two objects of one index have a unique key in common. -/
def Clash (id : ObjectId) (o : Obj) (id' : ObjectId) (o' : Obj) : Prop :=
  id.index = id'.index ∧ ∃ k ∈ keys o, k ∈ keys o'

instance (id id' : ObjectId) (o o' : Obj) : Decidable (Clash keys id o id' o') :=
  inferInstanceAs (Decidable (_ ∧ _))

/-- Another object holds a unique key that `o` under `id` needs. -/
def Taken (objects : Finmap fun _ : ObjectId ↦ Obj) (id : ObjectId) (o : Obj) : Prop :=
  ∃ other ∈ objects.keys, other ≠ id ∧ ∃ o' ∈ objects.lookup other, Clash keys id o other o'

instance (objects : Finmap fun _ : ObjectId ↦ Obj) (id : ObjectId) (o : Obj) :
    Decidable (Taken keys objects id o) :=
  inferInstanceAs (Decidable (∃ other ∈ objects.keys, _))

namespace Store

/-- `generic_index::insert`. -/
def insert (id : ObjectId) (o : Obj) (s : Store Obj) : Outcome DbError (Store Obj) :=
  if id ∈ s.objects ∨ Taken keys s.objects id o then .threw .uniquenessViolated s
  else .returned { s with objects := s.objects.insert id o }

def nextId (index : IndexId) (s : Store Obj) : ObjectId := ⟨index, s.nextIds index⟩

/-- `generic_index::create`: the counter moves only after the insertion. -/
def create (index : IndexId) (o : Obj) (s : Store Obj) : Outcome DbError (Store Obj) :=
  (s.insert keys (s.nextId index) o).andThen fun t ↦
    .returned { t with nextIds := Function.update t.nextIds index (t.nextIds index + 1) }

/-- `generic_index::modify` of the object `get_object` finds.  A callback that
throws and a violated key both erase the element. -/
def modify (id : ObjectId) (f : Obj → Option Obj) (s : Store Obj) : Outcome DbError (Store Obj) :=
  match s.objects.lookup id with
  | none => .threw .unableToFindObject s
  | some o =>
    match f o with
    | none => .threw .callbackThrew { s with objects := s.objects.erase id }
    | some o' =>
      if Taken keys s.objects id o' then
        .threw .uniquenessViolated { s with objects := s.objects.erase id }
      else .returned { s with objects := s.objects.insert id o' }

/-- `generic_index::remove` of the object `get_object` finds. -/
def remove (id : ObjectId) (s : Store Obj) : Outcome DbError (Store Obj) :=
  if id ∈ s.objects then .returned { s with objects := s.objects.erase id }
  else .threw .unableToFindObject s

end Store

namespace UndoState

def empty : UndoState Obj := {}

def onCreate (id : ObjectId) (state : UndoState Obj) : UndoState Obj :=
  { state with
    oldIndexNextIds := Function.update state.oldIndexNextIds id.index
      ((state.oldIndexNextIds id.index).or (some id.number))
    newIds := Function.update state.newIds id true }

def onModify (id : ObjectId) (o : Obj) (state : UndoState Obj) : UndoState Obj :=
  if state.newIds id then state
  else if (state.oldValues id).isSome then state
  else { state with oldValues := Function.update state.oldValues id (some o) }

def onRemove (id : ObjectId) (o : Obj) (state : UndoState Obj) : UndoState Obj :=
  if state.newIds id then { state with newIds := Function.update state.newIds id false }
  else
    match state.oldValues id with
    | some old =>
        { state with
          removed := Function.update state.removed id (some old)
          oldValues := Function.update state.oldValues id none }
    | none =>
        if (state.removed id).isSome then state
        else { state with removed := Function.update state.removed id (some o) }

/-! The four loops of `merge`: `state` goes into `prev`. -/

def mergeOldValues (state prev : UndoState Obj) : UndoState Obj :=
  { prev with
    oldValues := fun id ↦
      if prev.newIds id then prev.oldValues id
      else (prev.oldValues id).or (state.oldValues id) }

def mergeNewIds (state prev : UndoState Obj) : UndoState Obj :=
  { prev with newIds := fun id ↦ prev.newIds id || state.newIds id }

def mergeNextIds (state prev : UndoState Obj) : UndoState Obj :=
  { prev with
    oldIndexNextIds := fun index ↦
      (prev.oldIndexNextIds index).or (state.oldIndexNextIds index) }

def mergeRemoved (state prev : UndoState Obj) : UndoState Obj :=
  { prev with
    newIds := fun id ↦ prev.newIds id && (state.removed id).isNone
    oldValues := fun id ↦
      if prev.newIds id ∨ state.removed id = none then prev.oldValues id else none
    removed := fun id ↦
      if prev.newIds id ∨ state.removed id = none then prev.removed id
      else (prev.oldValues id).or (state.removed id) }

def merge (prev state : UndoState Obj) : UndoState Obj :=
  mergeRemoved state (mergeNextIds state (mergeNewIds state (mergeOldValues state prev)))

/-! What `undo` and `pop_commit` do with a state. -/

def restoreValue (state : UndoState Obj) (id : ObjectId) (s : Store Obj) :
    Outcome DbError (Store Obj) :=
  match state.oldValues id with
  | some old => s.modify keys id fun _ ↦ some old
  | none => .returned s

def restoreNextIds (state : UndoState Obj) (s : Store Obj) : Store Obj :=
  { s with nextIds := fun index ↦ (state.oldIndexNextIds index).getD (s.nextIds index) }

def reinsert (state : UndoState Obj) (id : ObjectId) (s : Store Obj) :
    Outcome DbError (Store Obj) :=
  match state.removed id with
  | some old => s.insert keys id old
  | none => .returned s

def restore (state : UndoState Obj) (order : VisitOrder) (s : Store Obj) :
    Outcome DbError (Store Obj) :=
  ((Outcome.forEach (state.restoreValue keys) order.oldValues s).andThen
    (Outcome.forEach Store.remove order.newIds)).andThen fun s ↦
      Outcome.forEach (state.reinsert keys) order.removed (state.restoreNextIds s)

end UndoState

/-- The indexes with the undo stack, whose newest state is the first. -/
structure ObjectDatabase (Obj : Type) where
  store : Store Obj
  undoStack : SessionStack (UndoState Obj)
  disabled : Bool := false

namespace ObjectDatabase

/-- Record a change in the newest state; without one, in a state that belongs
to no session. -/
def record (f : UndoState Obj → UndoState Obj) (db : ObjectDatabase Obj) : ObjectDatabase Obj :=
  if db.disabled then db
  else
    match db.undoStack.stack with
    | [] => { db with undoStack := { db.undoStack with stack := [f .empty] } }
    | state :: rest => { db with undoStack := { db.undoStack with stack := f state :: rest } }

/-- An object is recorded after it is created. -/
def create (index : IndexId) (o : Obj) (db : ObjectDatabase Obj) :
    Outcome DbError (ObjectDatabase Obj) :=
  match db.store.create keys index o with
  | .returned store => .returned ({ db with store }.record (·.onCreate (db.store.nextId index)))
  | .threw e store => .threw e { db with store }

/-- An object is recorded before it is modified. -/
def modify (id : ObjectId) (f : Obj → Option Obj) (db : ObjectDatabase Obj) :
    Outcome DbError (ObjectDatabase Obj) :=
  match db.store.objects.lookup id with
  | none => .threw .unableToFindObject db
  | some o =>
      let db := db.record (·.onModify id o)
      (db.store.modify keys id f).map fun store ↦ { db with store }

/-- An object is recorded before it is removed. -/
def remove (id : ObjectId) (db : ObjectDatabase Obj) : Outcome DbError (ObjectDatabase Obj) :=
  match db.store.objects.lookup id with
  | none => .threw .unableToFindObject db
  | some o =>
      let db := db.record (·.onRemove id o)
      (db.store.remove id).map fun store ↦ { db with store }

/-- A session that finds the database disabled and does not force it has no
state. -/
def startUndoSession (forceEnable : Bool) (db : ObjectDatabase Obj) : ObjectDatabase Obj :=
  if db.disabled ∧ ¬forceEnable then db
  else { db with undoStack := db.undoStack.start .empty, disabled := false }

/-- An exception leaves the database disabled. -/
def undo (order : VisitOrder) (db : ObjectDatabase Obj) : Outcome DbError (ObjectDatabase Obj) :=
  if db.disabled then .threw (.assertion "!_disabled") db
  else if db.undoStack.activeSessions = 0 then .threw (.assertion "_active_sessions > 0") db
  else
    match db.undoStack.stack with
    | [] => .threw (.assertion "_stack.back()") { db with disabled := true }
    | state :: _ =>
      match state.restore keys order db.store with
      | .returned store =>
          .returned { db with store, undoStack := db.undoStack.drop, disabled := false }
      | .threw e store => .threw e { db with store, disabled := true }

def merge (db : ObjectDatabase Obj) : Outcome DbError (ObjectDatabase Obj) :=
  if db.undoStack.activeSessions = 0 then .threw (.assertion "_active_sessions > 0") db
  else if db.undoStack.activeSessions = 1 ∧ db.undoStack.size = 1 then
    .returned { db with undoStack := db.undoStack.drop }
  else
    match db.undoStack.stack with
    | state :: prev :: rest =>
        .returned { db with
          undoStack := { db.undoStack.drop with stack := prev.merge state :: rest } }
    | _ => .threw (.assertion "_stack.size() >=2") db

def commit (db : ObjectDatabase Obj) : Outcome DbError (ObjectDatabase Obj) :=
  if db.undoStack.activeSessions = 0 then .threw (.assertion "_active_sessions > 0") db
  else .returned { db with undoStack := db.undoStack.commit }

/-- An exception leaves the database enabled. -/
def popCommit (order : VisitOrder) (db : ObjectDatabase Obj) :
    Outcome DbError (ObjectDatabase Obj) :=
  if db.undoStack.activeSessions ≠ 0 then .threw (.assertion "_active_sessions == 0") db
  else
    match db.undoStack.stack with
    | [] => .threw (.assertion "!_stack.empty()") db
    | state :: _ =>
      match state.restore keys order db.store with
      | .returned store =>
          .returned { db with store, undoStack := db.undoStack.pop, disabled := false }
      | .threw e store => .threw e { db with store, disabled := false }

end ObjectDatabase

end KarmaCore
