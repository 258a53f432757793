import Mathlib
import KarmaCore.Db.UndoDatabase

/-!
# Histories of changes and the undo states that record them

A history of changes is recorded by an undo state.  The state of a history
undoes it, and merging the states of two consecutive histories gives the state
of the one history made of both.
-/

namespace KarmaCore

variable {Obj κ : Type} {keys : Obj → List κ}

/-- A change of one object as the undo database sees it.  A `lost` object is
one that a failed modification erased. -/
inductive Change (Obj : Type)
  | created (id : ObjectId) (o : Obj)
  | modified (id : ObjectId) (old new : Obj)
  | lost (id : ObjectId) (old : Obj)
  | removed (id : ObjectId) (old : Obj)

namespace Store

/-- Ids below the counters, and no unique key held twice. -/
structure WellFormed (keys : Obj → List κ) (s : Store Obj) : Prop where
  bounded : ∀ id ∈ s.objects, id.number < s.nextIds id.index
  unique : ∀ id o id' o', s.objects.lookup id = some o → s.objects.lookup id' = some o' →
    id ≠ id' → ¬Clash keys id o id' o'

theorem ext_lookup {s t : Store Obj} (hobjects : ∀ id, s.objects.lookup id = t.objects.lookup id)
    (hnext : ∀ index, s.nextIds index = t.nextIds index) : s = t := by
  obtain ⟨objects, nextIds⟩ := s
  obtain ⟨objects', nextIds'⟩ := t
  have hmap : objects = objects' := Finmap.ext_lookup hobjects
  have hids : nextIds = nextIds' := funext hnext
  rw [hmap, hids]

end Store

theorem not_taken_iff {objects : Finmap fun _ : ObjectId ↦ Obj} {id : ObjectId} {o : Obj} :
    ¬Taken keys objects id o ↔ ∀ other o', other ≠ id → objects.lookup other = some o' →
      ¬Clash keys id o other o' := by
  constructor
  · intro h other o' hne ho' hclash
    exact h ⟨other, Finmap.mem_keys.mpr (Finmap.mem_of_lookup_eq_some ho'), hne, o', ho', hclash⟩
  · rintro h ⟨other, -, hne, o', ho', hclash⟩
    exact h other o' hne ho' hclash

theorem Clash.symm {id id' : ObjectId} {o o' : Obj} (h : Clash keys id o id' o') :
    Clash keys id' o' id o := by
  obtain ⟨hindex, k, hk, hk'⟩ := h
  exact ⟨hindex.symm, k, hk', hk⟩

namespace Change

/-- The object a change is about. -/
def id : Change Obj → ObjectId
  | created id _ => id
  | modified id _ _ => id
  | lost id _ => id
  | removed id _ => id

def apply (s : Store Obj) : Change Obj → Store Obj
  | created id o =>
      ⟨s.objects.insert id o, Function.update s.nextIds id.index (id.number + 1)⟩
  | modified id _ new => { s with objects := s.objects.insert id new }
  | lost id _ => { s with objects := s.objects.erase id }
  | removed id _ => { s with objects := s.objects.erase id }

def Valid (keys : Obj → List κ) (s : Store Obj) : Change Obj → Prop
  | created id o => id.number = s.nextIds id.index ∧ ¬Taken keys s.objects id o
  | modified id old new => s.objects.lookup id = some old ∧ ¬Taken keys s.objects id new
  | lost id old => s.objects.lookup id = some old
  | removed id old => s.objects.lookup id = some old

/-- The calls of `on_create`, `on_modify` and `on_remove`. -/
def record (state : UndoState Obj) : Change Obj → UndoState Obj
  | created id _ => state.onCreate id
  | modified id old _ => state.onModify id old
  | lost id old => state.onModify id old
  | removed id old => state.onRemove id old

end Change

/-- The undo state of a session that made a history of changes. -/
def stateOf (history : List (Change Obj)) : UndoState Obj :=
  history.foldl Change.record .empty

theorem stateOf_append_singleton (history : List (Change Obj)) (change : Change Obj) :
    stateOf (history ++ [change]) = change.record (stateOf history) := by
  simp [stateOf]

/-- A history of valid changes from one store to another. -/
inductive Runs (keys : Obj → List κ) (s : Store Obj) : List (Change Obj) → Store Obj → Prop
  | nil : Runs keys s [] s
  | snoc {history : List (Change Obj)} {t : Store Obj} {change : Change Obj}
      (h : Runs keys s history t) (hchange : change.Valid keys t) :
      Runs keys s (history ++ [change]) (change.apply t)

theorem Runs.trans {s m t : Store Obj} {history history' : List (Change Obj)}
    (h : Runs keys s history m) (h' : Runs keys m history' t) :
    Runs keys s (history ++ history') t := by
  induction h' with
  | nil => simpa using h
  | snoc _ hchange ih =>
      rw [← List.append_assoc]
      exact ih.snoc hchange

namespace Store

theorem WellFormed.insert {s : Store Obj} (h : s.WellFormed keys) {id : ObjectId} {o : Obj}
    {nextIds : IndexId → ℕ} (hfree : ¬Taken keys s.objects id o)
    (hnext : ∀ index, s.nextIds index ≤ nextIds index) (hid : id.number < nextIds id.index) :
    (Store.mk (s.objects.insert id o) nextIds).WellFormed keys := by
  rw [not_taken_iff] at hfree
  constructor
  · intro other hother
    rcases Finmap.mem_insert.mp hother with rfl | hother
    · exact hid
    · exact (h.bounded other hother).trans_le (hnext _)
  · intro x ox y oy hx hy hne
    by_cases hxid : x = id
    · subst hxid
      rw [Finmap.lookup_insert] at hx
      rw [Finmap.lookup_insert_of_ne _ hne.symm] at hy
      exact Option.some.inj hx ▸ hfree y oy hne.symm hy
    · rw [Finmap.lookup_insert_of_ne _ hxid] at hx
      by_cases hyid : y = id
      · subst hyid
        rw [Finmap.lookup_insert] at hy
        exact fun hclash ↦ hfree x ox hxid hx (Option.some.inj hy ▸ hclash.symm)
      · rw [Finmap.lookup_insert_of_ne _ hyid] at hy
        exact h.unique x ox y oy hx hy hne

/-- Ids from the counter on are free. -/
theorem WellFormed.lookup_eq_none {s : Store Obj} (h : s.WellFormed keys) {id : ObjectId}
    (hid : s.nextIds id.index ≤ id.number) : s.objects.lookup id = none :=
  Finmap.lookup_eq_none.mpr fun hmem ↦ (h.bounded id hmem).not_ge hid

theorem WellFormed.erase {s : Store Obj} (h : s.WellFormed keys) (id : ObjectId) :
    (Store.mk (s.objects.erase id) s.nextIds).WellFormed keys := by
  have hsub : ∀ {x o}, (s.objects.erase id).lookup x = some o → s.objects.lookup x = some o := by
    intro x o hx
    by_cases hxid : x = id
    · subst hxid
      simp [Finmap.lookup_erase] at hx
    · rwa [Finmap.lookup_erase_ne hxid] at hx
  constructor
  · intro x hx
    exact h.bounded x (Finmap.mem_erase.mp hx).2
  · intro x ox y oy hx hy
    exact h.unique x ox y oy (hsub hx) (hsub hy)

end Store

theorem Change.Valid.wellFormed {s : Store Obj} {change : Change Obj} (hs : s.WellFormed keys)
    (h : change.Valid keys s) : (change.apply s).WellFormed keys := by
  cases change with
  | created id o =>
      obtain ⟨hid, hfree⟩ := h
      refine hs.insert hfree (fun index ↦ ?_) (by simp)
      by_cases hindex : index = id.index
      · subst hindex
        rw [Function.update_self]
        omega
      · rw [Function.update_of_ne hindex]
  | modified id old new =>
      obtain ⟨hold, hfree⟩ := h
      exact hs.insert hfree (fun _ ↦ le_rfl)
        (hs.bounded id (Finmap.mem_of_lookup_eq_some hold))
  | lost id old => exact hs.erase id
  | removed id old => exact hs.erase id

theorem Runs.wellFormed {s t : Store Obj} {history : List (Change Obj)}
    (h : Runs keys s history t) (hs : s.WellFormed keys) : t.WellFormed keys := by
  induction h with
  | nil => exact hs
  | snoc _ hchange ih => exact hchange.wellFormed ih

/-! ## What a state says about one object -/

/-- The part of an undo state that is about one object. -/
structure Entry (Obj : Type) where
  old : Option Obj := none
  isNew : Bool := false
  removed : Option Obj := none

namespace Entry

def onCreate (e : Entry Obj) : Entry Obj := { e with isNew := true }

def onModify (o : Obj) (e : Entry Obj) : Entry Obj :=
  if e.isNew ∨ e.old.isSome then e else { e with old := some o }

def onRemove (o : Obj) (e : Entry Obj) : Entry Obj :=
  if e.isNew then { e with isNew := false }
  else
    match e.old with
    | some old => { e with removed := some old, old := none }
    | none => if e.removed.isSome then e else { e with removed := some o }

def merge (prev e : Entry Obj) : Entry Obj :=
  let old := if prev.isNew then prev.old else prev.old.or e.old
  if prev.isNew ∨ e.isNew ∨ e.removed.isNone then
    { old, isNew := (prev.isNew || e.isNew) && e.removed.isNone, removed := prev.removed }
  else { removed := old.or e.removed }

end Entry

namespace UndoState

def entry (state : UndoState Obj) (id : ObjectId) : Entry Obj :=
  { old := state.oldValues id, isNew := state.newIds id, removed := state.removed id }

theorem ext_entry {state state' : UndoState Obj}
    (hentry : ∀ id, state.entry id = state'.entry id)
    (hnext : ∀ index, state.oldIndexNextIds index = state'.oldIndexNextIds index) :
    state = state' := by
  obtain ⟨oldValues, oldIndexNextIds, newIds, removed⟩ := state
  obtain ⟨oldValues', oldIndexNextIds', newIds', removed'⟩ := state'
  simp only [entry, Entry.mk.injEq] at hentry
  have hold : oldValues = oldValues' := funext fun id ↦ (hentry id).1
  have hnew : newIds = newIds' := funext fun id ↦ (hentry id).2.1
  have hremoved : removed = removed' := funext fun id ↦ (hentry id).2.2
  have hids : oldIndexNextIds = oldIndexNextIds' := funext hnext
  rw [hold, hnew, hremoved, hids]

@[simp] theorem entry_empty (id : ObjectId) : (empty : UndoState Obj).entry id = {} := rfl

@[simp] theorem entry_onCreate (state : UndoState Obj) (id : ObjectId) :
    (state.onCreate id).entry id = (state.entry id).onCreate := by
  simp [entry, onCreate, Entry.onCreate]

@[simp] theorem entry_onModify (state : UndoState Obj) (id : ObjectId) (o : Obj) :
    (state.onModify id o).entry id = (state.entry id).onModify o := by
  simp only [entry, onModify, Entry.onModify]
  split_ifs <;> simp_all

@[simp] theorem entry_onRemove (state : UndoState Obj) (id : ObjectId) (o : Obj) :
    (state.onRemove id o).entry id = (state.entry id).onRemove o := by
  simp only [entry, onRemove, Entry.onRemove]
  cases hold : state.oldValues id with
  | none => split_ifs <;> simp_all
  | some old => split_ifs <;> simp_all

@[simp] theorem entry_merge (prev state : UndoState Obj) (id : ObjectId) :
    (prev.merge state).entry id = (prev.entry id).merge (state.entry id) := by
  simp only [entry, merge, mergeRemoved, mergeNextIds, mergeNewIds, mergeOldValues, Entry.merge]
  by_cases hprev : prev.newIds id <;> by_cases hnew : state.newIds id <;>
    by_cases hremoved : state.removed id = none <;> simp [hprev, hnew, hremoved]

@[simp] theorem onModify_oldIndexNextIds (state : UndoState Obj) (id : ObjectId) (o : Obj) :
    (state.onModify id o).oldIndexNextIds = state.oldIndexNextIds := by
  unfold onModify
  split_ifs <;> rfl

@[simp] theorem onRemove_oldIndexNextIds (state : UndoState Obj) (id : ObjectId) (o : Obj) :
    (state.onRemove id o).oldIndexNextIds = state.oldIndexNextIds := by
  unfold onRemove
  cases state.oldValues id with
  | none => split_ifs <;> rfl
  | some => split_ifs <;> rfl

@[simp] theorem merge_oldIndexNextIds (prev state : UndoState Obj) (index : IndexId) :
    (prev.merge state).oldIndexNextIds index =
      (prev.oldIndexNextIds index).or (state.oldIndexNextIds index) := rfl

end UndoState

namespace Change

def recordEntry : Change Obj → Entry Obj → Entry Obj
  | created _ _ => Entry.onCreate
  | modified _ old _ => Entry.onModify old
  | lost _ old => Entry.onModify old
  | removed _ old => Entry.onRemove old

theorem entry_record_self (change : Change Obj) (state : UndoState Obj) :
    (change.record state).entry change.id = change.recordEntry (state.entry change.id) := by
  cases change <;> simp [record, recordEntry, id]

theorem entry_record_of_ne {change : Change Obj} {x : ObjectId} (state : UndoState Obj)
    (h : x ≠ change.id) : (change.record state).entry x = state.entry x := by
  cases change with
  | created y o =>
      have hne : x ≠ y := h
      simp [record, UndoState.entry, UndoState.onCreate, hne]
  | modified y old new =>
      have hne : x ≠ y := h
      simp only [record, UndoState.onModify]
      split_ifs <;> simp [UndoState.entry, hne]
  | lost y old =>
      have hne : x ≠ y := h
      simp only [record, UndoState.onModify]
      split_ifs <;> simp [UndoState.entry, hne]
  | removed y old =>
      have hne : x ≠ y := h
      simp only [record, UndoState.onRemove]
      cases state.oldValues y with
      | none => split_ifs <;> simp [UndoState.entry, hne]
      | some => split_ifs <;> simp [UndoState.entry, hne]

theorem apply_lookup_of_ne {change : Change Obj} {x : ObjectId} (s : Store Obj)
    (h : x ≠ change.id) : (change.apply s).objects.lookup x = s.objects.lookup x := by
  cases change with
  | created y o => exact Finmap.lookup_insert_of_ne _ h
  | modified y old new => exact Finmap.lookup_insert_of_ne _ h
  | lost y old => exact Finmap.lookup_erase_ne h
  | removed y old => exact Finmap.lookup_erase_ne h

theorem Valid.nextIds_le {change : Change Obj} {s : Store Obj} (h : change.Valid keys s)
    (index : IndexId) : s.nextIds index ≤ (change.apply s).nextIds index := by
  cases change with
  | created y o =>
      obtain ⟨hid, -⟩ := h
      by_cases hindex : index = y.index
      · subst hindex
        simp [apply, hid]
      · simp [apply, hindex]
  | modified => exact le_rfl
  | lost => exact le_rfl
  | removed => exact le_rfl

end Change

/-! ## The state of a history undoes it -/

/-- What a state has about an object leads from `current` back to `saved`.  An
object that was updated or created may have been lost meanwhile. -/
inductive UndoesAt (current saved : Store Obj) (id : ObjectId) : Entry Obj → Prop
  | untouched (h : current.objects.lookup id = saved.objects.lookup id) :
      UndoesAt current saved id {}
  | created (hsaved : saved.nextIds id.index ≤ id.number)
      (hcurrent : id.number < current.nextIds id.index) :
      UndoesAt current saved id { isNew := true }
  | updated (old : Obj) (hsaved : saved.objects.lookup id = some old) :
      UndoesAt current saved id { old := some old }
  | removed (old : Obj) (hsaved : saved.objects.lookup id = some old)
      (hcurrent : current.objects.lookup id = none) :
      UndoesAt current saved id { removed := some old }

namespace UndoesAt

variable {current current' middle saved : Store Obj} {id : ObjectId} {e e' : Entry Obj} {old : Obj}

/-- An object that is created now is in no state before. -/
theorem eq_untouched (h : UndoesAt current saved id e) (hsaved : saved.WellFormed keys)
    (hgrown : saved.nextIds id.index ≤ id.number) (hid : current.nextIds id.index ≤ id.number) :
    e = {} := by
  have hgone : saved.objects.lookup id = none := hsaved.lookup_eq_none hgrown
  cases h with
  | untouched => rfl
  | created _ hlt => omega
  | updated old hold => simp [hold] at hgone
  | removed old hold => simp [hold] at hgone

theorem saved_of_old (h : UndoesAt current saved id e) (hold : e.old = some old) :
    saved.objects.lookup id = some old := by
  cases h with
  | updated first hsaved => exact hsaved.trans hold
  | untouched => simp at hold
  | created => simp at hold
  | removed => simp at hold

theorem saved_of_removed (h : UndoesAt current saved id e) (hold : e.removed = some old) :
    saved.objects.lookup id = some old := by
  cases h with
  | removed first hsaved => exact hsaved.trans hold
  | untouched => simp at hold
  | created => simp at hold
  | updated => simp at hold

theorem not_isNew_of_old (h : UndoesAt current saved id e) (hold : e.old = some old) :
    e.isNew = false := by
  cases h with
  | created => simp at hold
  | untouched => rfl
  | updated => rfl
  | removed => rfl

theorem of_lookup_eq (h : UndoesAt current saved id e)
    (hlookup : current'.objects.lookup id = current.objects.lookup id)
    (hgrown : current.nextIds id.index ≤ current'.nextIds id.index) :
    UndoesAt current' saved id e := by
  cases h with
  | untouched h => exact .untouched (hlookup.trans h)
  | created hsaved hcurrent => exact .created hsaved (hcurrent.trans_le hgrown)
  | updated old hsaved => exact .updated old hsaved
  | removed old hsaved hcurrent => exact .removed old hsaved (hlookup.trans hcurrent)

theorem onModify (h : UndoesAt current saved id e) (hid : current.objects.lookup id = some old)
    (hgrown : current.nextIds id.index ≤ current'.nextIds id.index) :
    UndoesAt current' saved id (e.onModify old) := by
  cases h with
  | untouched h => exact .updated old (h.symm.trans hid)
  | created hsaved hcurrent => exact .created hsaved (hcurrent.trans_le hgrown)
  | updated first hsaved => exact .updated first hsaved
  | removed first hsaved hcurrent => simp [hcurrent] at hid

theorem onRemove (h : UndoesAt current saved id e) (hsaved : saved.WellFormed keys)
    (hid : current.objects.lookup id = some old) (hid' : current'.objects.lookup id = none) :
    UndoesAt current' saved id (e.onRemove old) := by
  cases h with
  | untouched h => exact .removed old (h.symm.trans hid) hid'
  | created hgrown hcurrent =>
      -- A new object that goes again was not there when the session started.
      exact .untouched (hid'.trans (hsaved.lookup_eq_none hgrown).symm)
  | updated first hfirst => exact .removed first hfirst hid'
  | removed first hfirst hcurrent => simp [hcurrent] at hid

theorem onRemove_forgets (h : UndoesAt current saved id e)
    (hid : current.objects.lookup id = some old) :
    (e.onRemove old).old = none ∧ (e.onRemove old).isNew = false := by
  cases h with
  | untouched => exact ⟨rfl, rfl⟩
  | created => exact ⟨rfl, rfl⟩
  | updated => exact ⟨rfl, rfl⟩
  | removed _ _ hgone => simp [hgone] at hid

/-! Recording a change after a merge or before it makes no difference. -/

theorem merge_onModify (h : UndoesAt middle saved id e) (h' : UndoesAt current middle id e')
    (hid : current.objects.lookup id = some old) :
    e.merge (e'.onModify old) = (e.merge e').onModify old := by
  cases h' with
  | untouched hmiddle =>
      cases h with
      | untouched => rfl
      | created => rfl
      | updated => rfl
      | removed first _ hgone => simp [hmiddle, hgone] at hid
  | created => cases h <;> rfl
  | updated => cases h <;> rfl
  | removed _ _ hgone => simp [hgone] at hid

theorem merge_onRemove (h : UndoesAt middle saved id e) (h' : UndoesAt current middle id e')
    (hsaved : saved.WellFormed keys)
    (hgrown : saved.nextIds id.index ≤ middle.nextIds id.index)
    (hid : current.objects.lookup id = some old) :
    e.merge (e'.onRemove old) = (e.merge e').onRemove old := by
  cases h' with
  | untouched hmiddle =>
      cases h with
      | untouched => rfl
      | created => rfl
      | updated => rfl
      | removed first _ hgone => simp [hmiddle, hgone] at hid
  | created hmiddle =>
      obtain rfl := h.eq_untouched hsaved (hgrown.trans hmiddle) hmiddle
      rfl
  | updated next hnext =>
      cases h with
      | untouched => rfl
      | created => rfl
      | updated => rfl
      | removed first _ hgone => simp [hgone] at hnext
  | removed _ _ hgone => simp [hgone] at hid

end UndoesAt

/-- The changes a state has recorded lead from `current` back to `saved`. -/
structure Undoes (state : UndoState Obj) (current saved : Store Obj) : Prop where
  objects : ∀ id, UndoesAt current saved id (state.entry id)
  nextIds : ∀ index, (state.oldIndexNextIds index).getD (current.nextIds index) =
    saved.nextIds index
  grown : ∀ index, saved.nextIds index ≤ current.nextIds index

theorem Undoes.refl (s : Store Obj) : Undoes .empty s s where
  objects id := .untouched rfl
  nextIds := by simp [UndoState.empty]
  grown := by simp

/-- The new state undoes the new change too. -/
theorem Undoes.record {state : UndoState Obj} {current saved : Store Obj} {change : Change Obj}
    (h : Undoes state current saved) (hsaved : saved.WellFormed keys)
    (hchange : change.Valid keys current) :
    Undoes (change.record state) (change.apply current) saved := by
  have hle := Change.Valid.nextIds_le hchange
  have hself := h.objects change.id
  refine ⟨fun id ↦ ?_, fun index ↦ ?_, fun index ↦ (h.grown index).trans (hle index)⟩
  · by_cases hid : id = change.id
    · subst hid
      rw [Change.entry_record_self]
      cases change with
      | created id o =>
          have hid : id.number = current.nextIds id.index := hchange.1
          have hgrown : saved.nextIds id.index ≤ id.number := (h.grown _).trans_eq hid.symm
          rw [hself.eq_untouched hsaved hgrown hid.ge]
          exact .created hgrown (by simp [Change.apply, Change.id])
      | modified id old new => exact hself.onModify hchange.1 le_rfl
      | lost id old => exact hself.onModify hchange le_rfl
      | removed id old => exact hself.onRemove hsaved hchange (Finmap.lookup_erase id _)
    · rw [Change.entry_record_of_ne state hid]
      exact (h.objects id).of_lookup_eq (Change.apply_lookup_of_ne current hid) (hle id.index)
  · have hindex := h.nextIds index
    cases change with
    | created id o =>
        by_cases hid : index = id.index
        · subst hid
          cases hold : state.oldIndexNextIds id.index with
          | none => simp_all [Change.record, UndoState.onCreate, Change.Valid]
          | some n => simp_all [Change.record, UndoState.onCreate]
        · simpa [Change.record, UndoState.onCreate, Change.apply, hid] using hindex
    | modified => simpa [Change.record, Change.apply] using hindex
    | lost => simpa [Change.record, Change.apply] using hindex
    | removed => simpa [Change.record, Change.apply] using hindex

theorem Undoes.saved_of_oldValues {state : UndoState Obj} {current saved : Store Obj}
    {id : ObjectId} {old : Obj} (h : Undoes state current saved)
    (hold : state.oldValues id = some old) : saved.objects.lookup id = some old :=
  (h.objects id).saved_of_old hold

theorem undoes_of_runs {saved current : Store Obj} {history : List (Change Obj)}
    (h : Runs keys saved history current) (hsaved : saved.WellFormed keys) :
    Undoes (stateOf history) current saved := by
  induction h with
  | nil => exact .refl saved
  | snoc _ hchange ih =>
      rw [stateOf_append_singleton]
      exact ih.record hsaved hchange

/-! ## Merging the states of consecutive histories -/

theorem merge_record {prev state : UndoState Obj} {saved middle current : Store Obj}
    {change : Change Obj} (hprev : Undoes prev middle saved) (hstate : Undoes state current middle)
    (hsaved : saved.WellFormed keys) (hmiddle : middle.WellFormed keys)
    (hchange : change.Valid keys current) :
    prev.merge (change.record state) = change.record (prev.merge state) := by
  refine UndoState.ext_entry (fun id ↦ ?_) fun index ↦ ?_
  · rw [UndoState.entry_merge]
    by_cases hid : id = change.id
    · subst hid
      rw [Change.entry_record_self, Change.entry_record_self, UndoState.entry_merge]
      have hprevSelf := hprev.objects change.id
      have hself := hstate.objects change.id
      cases change with
      | created id o =>
          have hid : id.number = current.nextIds id.index := hchange.1
          have hgrown : middle.nextIds id.index ≤ id.number := (hstate.grown _).trans_eq hid.symm
          have hgrown' : saved.nextIds id.index ≤ id.number := (hprev.grown _).trans hgrown
          rw [hself.eq_untouched hmiddle hgrown hid.ge,
            hprevSelf.eq_untouched hsaved hgrown' hgrown]
          rfl
      | modified id old new => exact hprevSelf.merge_onModify hself hchange.1
      | lost id old => exact hprevSelf.merge_onModify hself hchange
      | removed id old => exact hprevSelf.merge_onRemove hself hsaved (hprev.grown _) hchange
    · rw [Change.entry_record_of_ne _ hid, Change.entry_record_of_ne _ hid, UndoState.entry_merge]
  · cases change with
    | created id o =>
        by_cases hindex : index = id.index
        · subst hindex
          simp [Change.record, UndoState.onCreate]
        · simp [Change.record, UndoState.onCreate, hindex]
    | modified => simp [Change.record]
    | lost => simp [Change.record]
    | removed => simp [Change.record]

/-- The merged state is that of one session which made both histories. -/
theorem merge_stateOf {saved middle current : Store Obj} {history history' : List (Change Obj)}
    (h : Runs keys saved history middle) (h' : Runs keys middle history' current)
    (hsaved : saved.WellFormed keys) :
    (stateOf history).merge (stateOf history') = stateOf (history ++ history') := by
  have hmiddle := h.wellFormed hsaved
  have hprev := undoes_of_runs h hsaved
  induction h' with
  | nil =>
      rw [List.append_nil]
      refine UndoState.ext_entry (fun id ↦ ?_) fun index ↦ ?_
      · have hentry := hprev.objects id
        rw [UndoState.entry_merge]
        generalize (stateOf history).entry id = e at hentry
        cases hentry <;> rfl
      · simp [stateOf, UndoState.empty]
  | snoc h' hchange ih =>
      rw [stateOf_append_singleton, ← List.append_assoc, stateOf_append_singleton, ← ih]
      exact merge_record hprev (undoes_of_runs h' hmiddle) hsaved hmiddle hchange

end KarmaCore
