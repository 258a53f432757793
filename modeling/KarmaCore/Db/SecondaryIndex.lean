import Mathlib
import KarmaCore.Db.UndoRun

/-!
# Secondary indexes

A secondary index keeps, for each mark, the objects that have it.  It is told of
the objects that are created, loaded and removed; it takes no note of
modifications, and what an undo inserts again is not told to it.
-/

namespace KarmaCore

variable {Obj α : Type}

/-- The objects that have each mark. -/
abbrev Entries (α : Type) := α → Finset ObjectId

/-- The indexes with the entries of the secondary index. -/
structure IndexedStore (Obj α : Type) where
  store : Store Obj
  entries : Entries α

/-- The two objects have the same marks. -/
def SameMarks (marks : Obj → List α) (o o' : Obj) : Prop := ∀ a, a ∈ marks o ↔ a ∈ marks o'

theorem SameMarks.refl (marks : Obj → List α) (o : Obj) : SameMarks marks o o := fun _ ↦ Iff.rfl

theorem SameMarks.symm {marks : Obj → List α} {o o' : Obj} (h : SameMarks marks o o') :
    SameMarks marks o' o := fun a ↦ (h a).symm

theorem SameMarks.trans {marks : Obj → List α} {o o' o'' : Obj} (h : SameMarks marks o o')
    (h' : SameMarks marks o' o'') : SameMarks marks o o'' := fun a ↦ (h a).trans (h' a)

/-- Objects with no unique key beside their ids. -/
def noKeys (_ : Obj) : List Empty := []

theorem not_taken_noKeys (objects : Finmap fun _ : ObjectId ↦ Obj) (id : ObjectId) (o : Obj) :
    ¬Taken noKeys objects id o := by
  rintro ⟨other, -, -, o', -, -, k, -⟩
  exact k.elim

/-! ## Silent writes -/

namespace IndexedStore

/-- The entries are what they would be if they were made anew from the objects. -/
def Coherent (marks : Obj → List α) (s : IndexedStore Obj α) : Prop :=
  ∀ a id, id ∈ s.entries a ↔ ∃ o, s.store.objects.lookup id = some o ∧ a ∈ marks o

variable {marks : Obj → List α} {s s' : IndexedStore Obj α} {id : ObjectId} {o o' : Obj}

/-- A silent write of an object keeps the entries exactly when it keeps the marks. -/
theorem coherent_set_iff (hs : s.Coherent marks) (ho : s.store.objects.lookup id = some o) :
    (⟨{ s.store with objects := s.store.objects.insert id o' }, s.entries⟩ :
      IndexedStore Obj α).Coherent marks ↔ SameMarks marks o o' := by
  constructor
  · intro h a
    have hnew := h a id
    rw [hs a id] at hnew
    simpa [ho] using hnew
  · intro hsame a x
    rw [hs a x]
    by_cases hx : x = id
    · subst hx
      simp [ho, hsame a]
    · simp [Finmap.lookup_insert_of_ne _ hx]

/-- A silent insertion keeps the entries exactly when the object has no marks. -/
theorem coherent_reinsert_iff (hs : s.Coherent marks) (hid : id ∉ s.store.objects) :
    (⟨{ s.store with objects := s.store.objects.insert id o }, s.entries⟩ :
      IndexedStore Obj α).Coherent marks ↔ marks o = [] := by
  constructor
  · intro h
    refine List.eq_nil_iff_forall_not_mem.mpr fun a ha ↦ ?_
    have hnew := h a id
    rw [hs a id] at hnew
    simp [Finmap.lookup_eq_none.mpr hid, ha] at hnew
  · intro hnone a x
    rw [hs a x]
    by_cases hx : x = id
    · subst hx
      simp [Finmap.lookup_eq_none.mpr hid, hnone]
    · simp [Finmap.lookup_insert_of_ne _ hx]

end IndexedStore

/-! ## Writes that are told -/

variable [DecidableEq α]

section Entries

variable (marks : Obj → List α)

def objectInserted (id : ObjectId) (o : Obj) (e : Entries α) : Entries α :=
  (marks o).foldl (fun e a ↦ Function.update e a (insert id (e a))) e

def objectRemoved (id : ObjectId) (o : Obj) (e : Entries α) : Entries α :=
  (marks o).foldl (fun e a ↦ Function.update e a ((e a).erase id)) e

variable {marks} {id x : ObjectId} {o o' : Obj} {e : Entries α} {a : α}

theorem mem_objectInserted :
    x ∈ objectInserted marks id o e a ↔ x ∈ e a ∨ x = id ∧ a ∈ marks o := by
  unfold objectInserted
  induction marks o generalizing e with
  | nil => simp
  | cons b bs ih =>
      rw [List.foldl_cons, ih]
      by_cases hb : a = b
      · subst hb
        simp only [Function.update_self, Finset.mem_insert, List.mem_cons, true_or, and_true]
        tauto
      · simp [hb]

theorem mem_objectRemoved :
    x ∈ objectRemoved marks id o e a ↔ x ∈ e a ∧ ¬(x = id ∧ a ∈ marks o) := by
  unfold objectRemoved
  induction marks o generalizing e with
  | nil => simp
  | cons b bs ih =>
      rw [List.foldl_cons, ih]
      by_cases hb : a = b
      · subst hb
        simp only [Function.update_self, Finset.mem_erase, List.mem_cons, true_or, and_true]
        tauto
      · simp [hb]

end Entries

namespace IndexedStore

variable (marks : Obj → List α)

def remove (id : ObjectId) (s : IndexedStore Obj α) : Outcome DbError (IndexedStore Obj α) :=
  match s.store.objects.lookup id with
  | none => .threw .unableToFindObject s
  | some o =>
      let s := { s with entries := objectRemoved marks id o s.entries }
      (s.store.remove id).map fun store ↦ { s with store }

/-- A write of the store that is not told to the secondary index. -/
def silently (f : Store Obj → Outcome DbError (Store Obj)) (s : IndexedStore Obj α) :
    Outcome DbError (IndexedStore Obj α) :=
  (f s.store).map fun store ↦ { s with store }

/-- The part of `undo` and `pop_commit` that restores the objects: only the removal of new
objects is told to the secondary index. -/
def restore (state : UndoState Obj) (order : VisitOrder) (s : IndexedStore Obj α) :
    Outcome DbError (IndexedStore Obj α) :=
  ((Outcome.forEach (fun id ↦ silently (state.restoreValue noKeys id)) order.oldValues s).andThen
    (Outcome.forEach (remove marks) order.newIds)).andThen fun s ↦
      Outcome.forEach (fun id ↦ silently (state.reinsert noKeys id)) order.removed
        { s with store := state.restoreNextIds s.store }

variable {marks} {s s' : IndexedStore Obj α} {id : ObjectId} {o : Obj}

theorem Coherent.insert (hs : s.Coherent marks) (hid : id ∉ s.store.objects) :
    (⟨{ s.store with objects := s.store.objects.insert id o }, objectInserted marks id o s.entries⟩ :
      IndexedStore Obj α).Coherent marks := by
  intro a x
  rw [mem_objectInserted, hs a x]
  by_cases hx : x = id
  · subst hx
    simp [Finmap.lookup_eq_none.mpr hid]
  · simp [Finmap.lookup_insert_of_ne _ hx, hx]

theorem Coherent.erase (hs : s.Coherent marks) (ho : s.store.objects.lookup id = some o) :
    (⟨{ s.store with objects := s.store.objects.erase id }, objectRemoved marks id o s.entries⟩ :
      IndexedStore Obj α).Coherent marks := by
  intro a x
  rw [mem_objectRemoved, hs a x]
  by_cases hx : x = id
  · subst hx
    simp [ho]
  · simp [Finmap.lookup_erase_ne hx, hx]

theorem Coherent.remove (hs : s.Coherent marks) : (s.remove marks id).state.Coherent marks := by
  unfold IndexedStore.remove
  cases ho : s.store.objects.lookup id with
  | none => exact hs
  | some o =>
      have hmem : id ∈ s.store.objects := Finmap.lookup_isSome.mp (by rw [ho]; rfl)
      simp only [Store.remove, hmem, if_true, Outcome.map]
      exact hs.erase ho

/-! ## Restoring -/

/-- The objects of a store are those of another with other marks at most. -/
def MarkedAs (marks : Obj → List α) (current : Store Obj) (s : Store Obj) : Prop :=
  ∀ id o, s.objects.lookup id = some o →
    ∃ o', current.objects.lookup id = some o' ∧ SameMarks marks o o'

/-- The values a state restores have the marks that the objects have now. -/
def RestoresMarks (marks : Obj → List α) (state : UndoState Obj) (order : VisitOrder)
    (current : Store Obj) : Prop :=
  (∀ id ∈ order.oldValues, ∀ old o, state.oldValues id = some old →
    current.objects.lookup id = some o → SameMarks marks o old) ∧
  ∀ id ∈ order.removed, ∀ old, state.removed id = some old → marks old = []

omit [DecidableEq α] in
theorem Coherent.restoreValue {state : UndoState Obj} {current : Store Obj}
    (hs : s.Coherent marks ∧ MarkedAs marks current s.store)
    (hold : ∀ old o, state.oldValues id = some old → current.objects.lookup id = some o →
      SameMarks marks o old) :
    (silently (state.restoreValue noKeys id) s).state.Coherent marks ∧
      MarkedAs marks current (silently (state.restoreValue noKeys id) s).state.store := by
  obtain ⟨hs, hmarked⟩ := hs
  unfold silently UndoState.restoreValue
  cases hvalue : state.oldValues id with
  | none => exact ⟨hs, hmarked⟩
  | some old =>
      simp only [Store.modify]
      cases ho : s.store.objects.lookup id with
      | none => exact ⟨hs, hmarked⟩
      | some o =>
          simp only [not_taken_noKeys, if_false, Outcome.map, Outcome.state_returned]
          obtain ⟨o', ho', hsame⟩ := hmarked id o ho
          have hkeeps := hsame.trans (hold old o' hvalue ho')
          refine ⟨(coherent_set_iff hs ho).mpr hkeeps, fun x y hy ↦ ?_⟩
          by_cases hx : x = id
          · subst hx
            rw [Finmap.lookup_insert] at hy
            obtain rfl := Option.some.inj hy
            exact ⟨o', ho', hkeeps.symm.trans hsame⟩
          · rw [Finmap.lookup_insert_of_ne _ hx] at hy
            exact hmarked x y hy

omit [DecidableEq α] in
theorem Coherent.reinsert {state : UndoState Obj} (hs : s.Coherent marks)
    (hnone : ∀ old, state.removed id = some old → marks old = []) :
    (silently (state.reinsert noKeys id) s).state.Coherent marks := by
  unfold silently UndoState.reinsert
  cases hvalue : state.removed id with
  | none => exact hs
  | some old =>
      simp only [Store.insert, not_taken_noKeys, or_false]
      split_ifs with hid
      · exact hs
      · exact (coherent_reinsert_iff hs hid).mpr (hnone old hvalue)

theorem Coherent.restore {state : UndoState Obj} {order : VisitOrder} (hs : s.Coherent marks)
    (h : RestoresMarks marks state order s.store) :
    (s.restore marks state order).state.Coherent marks := by
  have hvalues : (Outcome.forEach (fun id ↦ silently (state.restoreValue noKeys id))
      order.oldValues s).state.Coherent marks :=
    (Outcome.state_forEach (p := fun t ↦ Coherent marks t ∧ MarkedAs marks s.store t.store)
      ⟨hs, fun id o ho ↦ ⟨o, ho, .refl marks o⟩⟩
      fun id hid t ht ↦ Coherent.restoreValue ht fun old o ↦ h.1 id hid old o).1
  unfold IndexedStore.restore
  cases hfirst : Outcome.forEach (fun id ↦ silently (state.restoreValue noKeys id))
      order.oldValues s with
  | threw e t =>
      rw [hfirst] at hvalues
      exact hvalues
  | returned t =>
      rw [hfirst] at hvalues
      have hremoved : (Outcome.forEach (IndexedStore.remove marks) order.newIds t).state.Coherent
          marks := Outcome.state_forEach hvalues fun id _ t ht ↦ ht.remove
      rw [Outcome.returned_andThen]
      cases hsecond : Outcome.forEach (IndexedStore.remove marks) order.newIds t with
      | threw e u =>
          rw [hsecond] at hremoved
          exact hremoved
      | returned u =>
          rw [hsecond] at hremoved
          refine Outcome.state_forEach (p := Coherent marks) ?_ fun id hid t ht ↦ ht.reinsert (h.2 id hid)
          exact hremoved

end IndexedStore

/-! ## The database -/

structure IndexedDatabase (Obj α : Type) where
  db : ObjectDatabase Obj
  entries : Entries α

/-- What happens to the database, or its being saved and loaded again in some order. -/
inductive IndexedEvent (Obj : Type)
  | db (event : DbEvent Obj)
  | reload (order : List ObjectId)

namespace IndexedDatabase

variable (marks : Obj → List α)

def indexedStore (d : IndexedDatabase Obj α) : IndexedStore Obj α := ⟨d.db.store, d.entries⟩

def setStore (d : IndexedDatabase Obj α) (s : IndexedStore Obj α) : IndexedDatabase Obj α :=
  ⟨{ d.db with store := s.store }, s.entries⟩

def create (index : IndexId) (o : Obj) (d : IndexedDatabase Obj α) :
    Outcome DbError (IndexedDatabase Obj α) :=
  match d.db.create noKeys index o with
  | .returned db => .returned ⟨db, objectInserted marks (d.db.store.nextId index) o d.entries⟩
  | .threw e db => .threw e { d with db }

def modify (id : ObjectId) (f : Obj → Option Obj) (d : IndexedDatabase Obj α) :
    Outcome DbError (IndexedDatabase Obj α) :=
  (d.db.modify noKeys id f).map fun db ↦ { d with db }

def remove (id : ObjectId) (d : IndexedDatabase Obj α) :
    Outcome DbError (IndexedDatabase Obj α) :=
  match d.db.store.objects.lookup id with
  | none => .threw .unableToFindObject d
  | some o => (d.db.remove id).map fun db ↦ ⟨db, objectRemoved marks id o d.entries⟩

def undo (order : VisitOrder) (d : IndexedDatabase Obj α) :
    Outcome DbError (IndexedDatabase Obj α) :=
  if d.db.disabled then .threw (.assertion "!_disabled") d
  else if d.db.undoStack.activeSessions = 0 then .threw (.assertion "_active_sessions > 0") d
  else
    match d.db.undoStack.stack with
    | [] => .threw (.assertion "_stack.back()") { d with db := { d.db with disabled := true } }
    | state :: _ =>
      match d.indexedStore.restore marks state order with
      | .returned s =>
          .returned ⟨{ store := s.store, undoStack := d.db.undoStack.drop }, s.entries⟩
      | .threw e s => .threw e ⟨{ d.db with store := s.store, disabled := true }, s.entries⟩

def popCommit (order : VisitOrder) (d : IndexedDatabase Obj α) :
    Outcome DbError (IndexedDatabase Obj α) :=
  if d.db.undoStack.activeSessions ≠ 0 then .threw (.assertion "_active_sessions == 0") d
  else
    match d.db.undoStack.stack with
    | [] => .threw (.assertion "!_stack.empty()") d
    | state :: _ =>
      match d.indexedStore.restore marks state order with
      | .returned s =>
          .returned ⟨{ store := s.store, undoStack := d.db.undoStack.pop }, s.entries⟩
      | .threw e s => .threw e ⟨{ d.db with store := s.store, disabled := false }, s.entries⟩

/-- The entries that the objects give when they are loaded in some order. -/
def loadedEntries (objects : Finmap fun _ : ObjectId ↦ Obj) (order : List ObjectId) : Entries α :=
  order.foldl (fun e id ↦
    match objects.lookup id with
    | some o => objectInserted marks id o e
    | none => e) fun _ ↦ ∅

/-- Saving keeps the objects and the id counters; loading fills an empty database. -/
def reload (order : List ObjectId) (d : IndexedDatabase Obj α) : IndexedDatabase Obj α where
  db := { store := d.db.store, undoStack := .empty d.db.undoStack.maxSize }
  entries := loadedEntries marks d.db.store.objects order

def call (d : IndexedDatabase Obj α) : IndexedEvent Obj → Outcome DbError (IndexedDatabase Obj α)
  | .db (.write (.create index o)) => d.create marks index o
  | .db (.write (.modify id f)) => d.modify id f
  | .db (.write (.remove id)) => d.remove marks id
  | .db (.startSession forceEnable) =>
      .returned { d with db := d.db.startUndoSession forceEnable }
  | .db (.undo order) => d.undo marks order
  | .db .merge => d.db.merge.map fun db ↦ { d with db }
  | .db .commit => d.db.commit.map fun db ↦ { d with db }
  | .db (.popCommit order) => d.popCommit marks order
  | .reload order => .returned (d.reload marks order)

def step (d : IndexedDatabase Obj α) (event : IndexedEvent Obj) : IndexedDatabase Obj α :=
  (d.call marks event).state

/-! ## The objects do not depend on the entries -/

theorem restore_store (state : UndoState Obj) (order : VisitOrder) (s : IndexedStore Obj α) :
    (s.restore marks state order).map (·.store) = state.restore noKeys order s.store := by
  have hsilent : ∀ (f : ObjectId → Store Obj → Outcome DbError (Store Obj)) (ids : List ObjectId)
      (s : IndexedStore Obj α), (Outcome.forEach (fun id ↦ IndexedStore.silently (f id)) ids s).map
        (·.store) = Outcome.forEach f ids s.store := fun f ids s ↦
    Outcome.map_forEach fun id s ↦ by
      unfold IndexedStore.silently
      cases f id s.store <;> rfl
  have hremove : ∀ (ids : List ObjectId) (s : IndexedStore Obj α),
      (Outcome.forEach (IndexedStore.remove marks) ids s).map (·.store) =
        Outcome.forEach Store.remove ids s.store := fun ids s ↦
    Outcome.map_forEach fun id s ↦ by
      unfold IndexedStore.remove
      cases ho : s.store.objects.lookup id with
      | none =>
          have hid : id ∉ s.store.objects := Finmap.lookup_eq_none.mp ho
          simp [Store.remove, hid, Outcome.map]
      | some o =>
          have hid : id ∈ s.store.objects := Finmap.lookup_isSome.mp (by rw [ho]; rfl)
          simp [Store.remove, hid, Outcome.map]
  unfold IndexedStore.restore UndoState.restore
  refine Outcome.map_andThen (Outcome.map_andThen (hsilent _ _ s) fun s ↦ hremove _ s) fun s ↦ ?_
  exact hsilent _ _ _

/-- What an event does to the objects and to the undo stack is what it does without the
secondary index. -/
theorem call_db (d : IndexedDatabase Obj α) (event : DbEvent Obj) :
    (d.call marks (.db event)).map (·.db) = event.call noKeys d.db := by
  match event with
  | .write (.create index o) =>
      simp only [call, DbEvent.call, Write.call, create]
      split <;> simp_all [Outcome.map]
  | .write (.modify id f) =>
      simp only [call, DbEvent.call, Write.call, modify]
      cases d.db.modify noKeys id f <;> rfl
  | .write (.remove id) =>
      simp only [call, DbEvent.call, Write.call, remove]
      cases ho : d.db.store.objects.lookup id with
      | none => simp [ObjectDatabase.remove, ho, Outcome.map]
      | some o => cases d.db.remove id <;> rfl
  | .startSession forceEnable => rfl
  | .undo order =>
      simp only [call, DbEvent.call, undo, ObjectDatabase.undo]
      split_ifs
      · rfl
      · rfl
      · cases hstack : d.db.undoStack.stack with
        | nil => rfl
        | cons state states =>
            have hrestore := restore_store marks state order d.indexedStore
            simp only [indexedStore] at hrestore ⊢
            rw [← hrestore]
            cases IndexedStore.restore marks state order ⟨d.db.store, d.entries⟩ <;> rfl
  | .merge =>
      simp only [call, DbEvent.call]
      cases d.db.merge <;> rfl
  | .commit =>
      simp only [call, DbEvent.call]
      cases d.db.commit <;> rfl
  | .popCommit order =>
      simp only [call, DbEvent.call, popCommit, ObjectDatabase.popCommit]
      split_ifs
      · rfl
      · cases hstack : d.db.undoStack.stack with
        | nil => rfl
        | cons state states =>
            have hrestore := restore_store marks state order d.indexedStore
            simp only [indexedStore] at hrestore ⊢
            rw [← hrestore]
            cases IndexedStore.restore marks state order ⟨d.db.store, d.entries⟩ <;> rfl

/-- The event in a database that has no secondary index. -/
def plainStep (db : ObjectDatabase Obj) : IndexedEvent Obj → ObjectDatabase Obj
  | .db event => (event.call noKeys db).state
  | .reload _ => { store := db.store, undoStack := .empty db.undoStack.maxSize }

theorem step_db (d : IndexedDatabase Obj α) (event : IndexedEvent Obj) :
    (d.step marks event).db = plainStep d.db event := by
  cases event with
  | db event =>
      have hcall := congrArg Outcome.state (call_db marks d event)
      rw [Outcome.state_map] at hcall
      exact hcall
  | reload order => rfl

def Coherent (d : IndexedDatabase Obj α) : Prop := d.indexedStore.Coherent marks

/-- A modification keeps the marks of its object, an undo restores objects with the marks they
have now and inserts none with marks again, and a loading finds every object. -/
def KeepsMarks (d : IndexedDatabase Obj α) : IndexedEvent Obj → Prop
  | .db (.write (.modify id f)) => ∀ o, d.db.store.objects.lookup id = some o →
      ∃ o', f o = some o' ∧ SameMarks marks o o'
  | .db (.undo order) => d.db.disabled = false → d.db.undoStack.activeSessions ≠ 0 →
      ∀ state ∈ d.db.undoStack.stack.head?,
        IndexedStore.RestoresMarks marks state order d.db.store
  | .db (.popCommit order) => d.db.undoStack.activeSessions = 0 →
      ∀ state ∈ d.db.undoStack.stack.head?,
        IndexedStore.RestoresMarks marks state order d.db.store
  | .reload order => ∀ id ∈ d.db.store.objects, id ∈ order
  | _ => True

variable {marks} {d : IndexedDatabase Obj α} {id : ObjectId} {order : VisitOrder}

theorem mem_loadedEntries {objects : Finmap fun _ : ObjectId ↦ Obj} {ids : List ObjectId}
    {e : Entries α} {a : α} {x : ObjectId} :
    x ∈ ids.foldl (fun e id ↦
      match objects.lookup id with
      | some o => objectInserted marks id o e
      | none => e) e a ↔
      x ∈ e a ∨ x ∈ ids ∧ ∃ o, objects.lookup x = some o ∧ a ∈ marks o := by
  induction ids generalizing e with
  | nil => simp
  | cons id ids ih =>
      rw [List.foldl_cons, ih]
      cases ho : objects.lookup id with
      | none =>
          by_cases hx : x = id
          · subst hx
            simp [ho]
          · simp [hx]
      | some o =>
          rw [mem_objectInserted]
          by_cases hx : x = id
          · subst hx
            simp only [true_and, ho, Option.some.injEq, exists_eq_left', List.mem_cons, true_or]
            tauto
          · simp [hx]

omit [DecidableEq α] in
theorem store_record (db : ObjectDatabase Obj) (f : UndoState Obj → UndoState Obj) :
    (db.record f).store = db.store := by
  unfold ObjectDatabase.record
  split_ifs
  · rfl
  · split <;> rfl

theorem Coherent.create (hd : d.Coherent marks) {index : IndexId} {o : Obj} :
    (d.create marks index o).state.Coherent marks := by
  unfold IndexedDatabase.create ObjectDatabase.create Store.create Store.insert
  by_cases hid : d.db.store.nextId index ∈ d.db.store.objects
  · simp only [hid, true_or, if_true, Outcome.threw_andThen]
    exact hd
  · simp only [hid, not_taken_noKeys, or_self, if_false, Outcome.returned_andThen]
    unfold Coherent indexedStore
    simp only [Outcome.state_returned, store_record]
    exact IndexedStore.Coherent.insert hd hid

omit [DecidableEq α] in
/-- A modification keeps the entries exactly when it keeps the marks of its object. -/
theorem modify_coherent_iff (hd : d.Coherent marks) {f : Obj → Option Obj} {o o' : Obj}
    (ho : d.db.store.objects.lookup id = some o) (hf : f o = some o') :
    (d.modify id f).state.Coherent marks ↔ SameMarks marks o o' := by
  simp only [IndexedDatabase.modify, ObjectDatabase.modify, ho, Store.modify, store_record, hf,
    not_taken_noKeys, if_false, Outcome.map, Outcome.state_returned]
  exact IndexedStore.coherent_set_iff (s := d.indexedStore) hd ho

omit [DecidableEq α] in
theorem Coherent.modify (hd : d.Coherent marks) {f : Obj → Option Obj}
    (hf : ∀ o, d.db.store.objects.lookup id = some o → ∃ o', f o = some o' ∧ SameMarks marks o o') :
    (d.modify id f).state.Coherent marks := by
  cases ho : d.db.store.objects.lookup id with
  | none =>
      simp only [IndexedDatabase.modify, ObjectDatabase.modify, ho]
      exact hd
  | some o =>
      obtain ⟨o', hf, hsame⟩ := hf o ho
      exact (modify_coherent_iff hd ho hf).mpr hsame

theorem Coherent.remove (hd : d.Coherent marks) : (d.remove marks id).state.Coherent marks := by
  unfold IndexedDatabase.remove
  cases ho : d.db.store.objects.lookup id with
  | none => exact hd
  | some o =>
      have hmem : id ∈ d.db.store.objects := Finmap.lookup_isSome.mp (by rw [ho]; rfl)
      simp only [ObjectDatabase.remove, ho, Store.remove, store_record, hmem, if_true, Outcome.map]
      exact IndexedStore.Coherent.erase (s := d.indexedStore) hd ho

theorem Coherent.undo (hd : d.Coherent marks) (h : d.KeepsMarks marks (.db (.undo order))) :
    (d.undo marks order).state.Coherent marks := by
  unfold IndexedDatabase.undo
  split_ifs with hdisabled hactive
  · exact hd
  · exact hd
  · cases hstack : d.db.undoStack.stack with
    | nil => exact hd
    | cons state states =>
        have hrestored := IndexedStore.Coherent.restore (s := d.indexedStore) hd
          (h (by simpa using hdisabled) hactive state (by simp [hstack]))
        dsimp only
        split
        · rename_i s hs
          rw [hs] at hrestored
          exact hrestored
        · rename_i e s hs
          rw [hs] at hrestored
          exact hrestored

theorem Coherent.popCommit (hd : d.Coherent marks)
    (h : d.KeepsMarks marks (.db (.popCommit order))) :
    (d.popCommit marks order).state.Coherent marks := by
  unfold IndexedDatabase.popCommit
  split_ifs with hactive
  · exact hd
  · cases hstack : d.db.undoStack.stack with
    | nil => exact hd
    | cons state states =>
        have hrestored := IndexedStore.Coherent.restore (s := d.indexedStore) hd
          (h (not_not.mp hactive) state (by simp [hstack]))
        dsimp only
        split
        · rename_i s hs
          rw [hs] at hrestored
          exact hrestored
        · rename_i e s hs
          rw [hs] at hrestored
          exact hrestored

omit [DecidableEq α] in
theorem Coherent.of_store {db : ObjectDatabase Obj} (hd : d.Coherent marks)
    (h : db.store = d.db.store) : ({ d with db } : IndexedDatabase Obj α).Coherent marks := by
  unfold Coherent indexedStore
  rw [h]
  exact hd

theorem Coherent.step (hd : d.Coherent marks) {event : IndexedEvent Obj}
    (h : d.KeepsMarks marks event) : (d.step marks event).Coherent marks := by
  unfold IndexedDatabase.step
  match event with
  | .db (.write (.create index o)) => exact hd.create
  | .db (.write (.modify id f)) => exact hd.modify h
  | .db (.write (.remove id)) => exact hd.remove
  | .db (.startSession forceEnable) =>
      apply hd.of_store
      unfold ObjectDatabase.startUndoSession
      split_ifs <;> rfl
  | .db (.undo order) => exact hd.undo h
  | .db .merge =>
      simp only [call, ObjectDatabase.merge]
      split_ifs
      · exact hd
      · exact hd.of_store rfl
      · split
        · exact hd.of_store rfl
        · exact hd
  | .db .commit =>
      simp only [call, ObjectDatabase.commit]
      split_ifs
      · exact hd
      · exact hd.of_store rfl
  | .db (.popCommit order) => exact hd.popCommit h
  | .reload ids =>
      intro a x
      refine mem_loadedEntries.trans ?_
      constructor
      · rintro (hx | ⟨-, hx⟩)
        · simp at hx
        · exact hx
      · rintro ⟨o, ho, ha⟩
        have ho' : d.db.store.objects.lookup x = some o := ho
        exact .inr ⟨h x (Finmap.lookup_isSome.mp (by rw [ho']; rfl)), o, ho, ha⟩

/-- The entries are coherent in every run whose events keep the marks. -/
theorem coherent_of_reaches {start : IndexedDatabase Obj α} (hstart : start.Coherent marks)
    (h : Run.Reaches (IndexedDatabase.step marks) (KeepsMarks marks) start d) :
    d.Coherent marks :=
  h.invariant (Coherent marks) hstart fun _ _ hs hguard ↦ hs.step hguard

end IndexedDatabase

end KarmaCore
