import Mathlib
import KarmaCore.Db.Journal

/-!
# When an undo state can be applied

`undo` and `pop_commit` write the old values back one by one before they remove
the new objects, so an object may need a unique key that another one still has
at that moment.  When none does, the state before the session comes back.
-/

namespace KarmaCore

variable {Obj κ : Type} [DecidableEq κ] {keys : Obj → List κ}

/-- The order lists each container of the state. -/
structure Enumerates (order : VisitOrder) (state : UndoState Obj) : Prop where
  oldValues : order.oldValues.Nodup ∧ ∀ id, id ∈ order.oldValues ↔ (state.oldValues id).isSome
  newIds : order.newIds.Nodup ∧ ∀ id, id ∈ order.newIds ↔ state.newIds id
  removed : order.removed.Nodup ∧ ∀ id, id ∈ order.removed ↔ (state.removed id).isSome

namespace UndoState

/-- The objects that `undo` looks up are there. -/
def Present (state : UndoState Obj) (s : Store Obj) : Prop :=
  ∀ id, (state.oldValues id).isSome ∨ state.newIds id → id ∈ s.objects

/-- Writing the old values of `ids` back in this order, one of them needs a key
that an object whose turn has not come still has. -/
def Blocked (keys : Obj → List κ) (state : UndoState Obj) :
    (Finmap fun _ : ObjectId ↦ Obj) → List ObjectId → Prop
  | _, [] => False
  | objects, id :: ids =>
      (∃ old ∈ state.oldValues id, Taken keys objects id old) ∨
        state.Blocked keys (objects.erase id) ids

instance decidableBlocked (keys : Obj → List κ) (state : UndoState Obj) :
    ∀ objects ids, Decidable (state.Blocked keys objects ids)
  | _, [] => inferInstanceAs (Decidable False)
  | objects, id :: ids =>
      have := decidableBlocked keys state (objects.erase id) ids
      inferInstanceAs (Decidable ((∃ old ∈ state.oldValues id, Taken keys objects id old) ∨ _))

/-- The store after the old values of `ids` have been written back. -/
structure Restored (state : UndoState Obj) (current : Store Obj) (ids : List ObjectId)
    (s : Store Obj) : Prop where
  lookup : ∀ id, s.objects.lookup id =
    if id ∈ ids then state.oldValues id else current.objects.lookup id
  nextIds : s.nextIds = current.nextIds

variable {state : UndoState Obj} {current saved s t : Store Obj}

theorem restoreValue_eq_returned {id : ObjectId} {old : Obj} (hold : state.oldValues id = some old) :
    state.restoreValue keys id s = .returned t ↔
      id ∈ s.objects ∧ ¬Taken keys s.objects id old ∧
        t = { s with objects := s.objects.insert id old } := by
  simp only [restoreValue, hold, Store.modify]
  cases hid : s.objects.lookup id with
  | none => simp [Finmap.lookup_eq_none.mp hid]
  | some o =>
      have hmem := Finmap.mem_of_lookup_eq_some hid
      by_cases htaken : Taken keys s.objects id old
      · simp [htaken]
      · simp [htaken, hmem, eq_comm]

/-- The objects whose old values have not been written back yet. -/
def Pending (current : Store Obj) (done : List ObjectId)
    (objects : Finmap fun _ : ObjectId ↦ Obj) : Prop :=
  ∀ id, objects.lookup id = if id ∈ done then none else current.objects.lookup id

theorem Pending.erase {done : List ObjectId} {objects : Finmap fun _ : ObjectId ↦ Obj}
    (h : Pending current done objects) (id : ObjectId) :
    Pending current (done ++ [id]) (objects.erase id) := by
  intro other
  by_cases hother : other = id
  · subst hother
    simp
  · simp [Finmap.lookup_erase_ne hother, h other, hother]

omit [DecidableEq κ] in
/-- Objects that have their old values back do not stand in the way. -/
theorem Restored.taken_iff {done : List ObjectId} {id : ObjectId} {old : Obj}
    {objects : Finmap fun _ : ObjectId ↦ Obj} (h : state.Restored current done s)
    (hpending : Pending current done objects) (hundoes : Undoes state current saved)
    (hsaved : saved.WellFormed keys) (hold : state.oldValues id = some old) :
    Taken keys s.objects id old ↔ Taken keys objects id old := by
  have hkeep : ∀ other first, state.oldValues other = some first →
      saved.objects.lookup other = some first := fun other first ↦ hundoes.saved_of_oldValues
  rw [← not_iff_not, not_taken_iff, not_taken_iff]
  constructor
  · intro hfree other o hne ho
    rw [hpending other] at ho
    by_cases hdone : other ∈ done
    · simp [hdone] at ho
    · exact hfree other o hne (by simpa [h.lookup, hdone] using ho)
  · intro hfree other o hne ho
    by_cases hdone : other ∈ done
    · rw [h.lookup, if_pos hdone] at ho
      exact hsaved.unique id old other o (hkeep id old hold) (hkeep other o ho) hne.symm
    · exact hfree other o hne (by simpa [hpending other, h.lookup, hdone] using ho)

theorem Restored.restoreValue {done : List ObjectId} {id : ObjectId} {old : Obj}
    (h : state.Restored current done s) (hold : state.oldValues id = some old) :
    state.Restored current (done ++ [id]) { s with objects := s.objects.insert id old } := by
  refine ⟨fun other ↦ ?_, h.nextIds⟩
  by_cases hother : other = id
  · subst hother
    simp [hold]
  · simp [Finmap.lookup_insert_of_ne _ hother, h.lookup, hother]

theorem forEach_restoreValue {done ids : List ObjectId} (h : state.Restored current done s)
    (hold : ∀ id ∈ ids, (state.oldValues id).isSome)
    (ht : Outcome.forEach (state.restoreValue keys) ids s = .returned t) :
    state.Restored current (done ++ ids) t := by
  induction ids generalizing done s with
  | nil =>
      obtain rfl : s = t := by simpa using ht
      simpa using h
  | cons id ids ih =>
      obtain ⟨old, hid⟩ := Option.isSome_iff_exists.mp (hold id (by simp))
      rw [Outcome.forEach_cons, Outcome.andThen_eq_returned] at ht
      obtain ⟨mid, hmid, ht⟩ := ht
      obtain ⟨-, -, rfl⟩ := (restoreValue_eq_returned hid).mp hmid
      rw [List.append_cons]
      exact ih (h.restoreValue hid) (fun x hx ↦ hold x (by simp [hx])) ht

theorem forEach_restoreValue_returns_iff {done ids : List ObjectId}
    {objects : Finmap fun _ : ObjectId ↦ Obj} (h : state.Restored current done s)
    (hpending : Pending current done objects) (hundoes : Undoes state current saved)
    (hsaved : saved.WellFormed keys) (hnodup : (done ++ ids).Nodup)
    (hold : ∀ id ∈ ids, (state.oldValues id).isSome) :
    (∃ t, Outcome.forEach (state.restoreValue keys) ids s = .returned t) ↔
      (∀ id ∈ ids, id ∈ current.objects) ∧ ¬state.Blocked keys objects ids := by
  induction ids generalizing done s objects with
  | nil => simp [Blocked]
  | cons id ids ih =>
      obtain ⟨old, hid⟩ := Option.isSome_iff_exists.mp (hold id (by simp))
      have hnotDone : id ∉ done := by
        intro hmem
        exact (List.nodup_append.mp hnodup).2.2 id hmem id (by simp) rfl
      have hlookup : id ∈ s.objects ↔ id ∈ current.objects := by
        rw [← Finmap.lookup_isSome, ← Finmap.lookup_isSome, h.lookup, if_neg hnotDone]
      have htaken := h.taken_iff hpending hundoes hsaved hid
      have hrest := ih (h.restoreValue hid) (hpending.erase id) (by simpa using hnodup)
        fun x hx ↦ hold x (by simp [hx])
      simp only [Outcome.forEach_cons, Outcome.andThen_eq_returned, restoreValue_eq_returned hid,
        Blocked, hid]
      constructor
      · rintro ⟨t, mid, ⟨hmem, hfree, rfl⟩, ht⟩
        obtain ⟨hpresent, hblocked⟩ := hrest.mp ⟨t, ht⟩
        refine ⟨?_, ?_⟩
        · simpa [← hlookup, hmem] using hpresent
        · simpa [← htaken, hfree] using hblocked
      · rintro ⟨hpresent, hblocked⟩
        obtain ⟨hfree, hblocked⟩ := not_or.mp hblocked
        obtain ⟨t, ht⟩ := hrest.mpr ⟨fun x hx ↦ hpresent x (by simp [hx]), hblocked⟩
        refine ⟨t, _, ⟨hlookup.mpr (hpresent id (by simp)), ?_, rfl⟩, ht⟩
        rw [htaken]
        simpa using hfree

/-! The new objects go, and the removed ones come back. -/

theorem remove_eq_returned {id : ObjectId} :
    s.remove id = .returned t ↔ id ∈ s.objects ∧ t = { s with objects := s.objects.erase id } := by
  unfold Store.remove
  split_ifs with hid <;> simp [hid, eq_comm]

theorem forEach_remove {ids : List ObjectId} (hnodup : ids.Nodup) :
    (∃ t, Outcome.forEach Store.remove ids s = .returned t) ↔ ∀ id ∈ ids, id ∈ s.objects := by
  induction ids generalizing s with
  | nil => simp
  | cons id ids ih =>
      obtain ⟨hid, hnodup⟩ := List.nodup_cons.mp hnodup
      by_cases hmem : id ∈ s.objects
      · have hrest : ∀ x ∈ ids, x ∈ s.objects.erase id ↔ x ∈ s.objects := by
          intro x hx
          have hne : x ≠ id := fun heq ↦ hid (heq ▸ hx)
          simp [Finmap.mem_erase, hne]
        simp only [Outcome.forEach_cons, Store.remove, hmem, if_true, Outcome.returned_andThen,
          List.mem_cons, forall_eq_or_imp, true_and]
        rw [ih hnodup]
        exact forall₂_congr hrest
      · simp [Store.remove, hmem]

theorem lookup_forEach_remove {ids : List ObjectId}
    (ht : Outcome.forEach Store.remove ids s = .returned t) :
    t.nextIds = s.nextIds ∧
      ∀ id, t.objects.lookup id = if id ∈ ids then none else s.objects.lookup id := by
  induction ids generalizing s with
  | nil =>
      obtain rfl : s = t := by simpa using ht
      simp
  | cons id ids ih =>
      rw [Outcome.forEach_cons, Outcome.andThen_eq_returned] at ht
      obtain ⟨mid, hmid, ht⟩ := ht
      obtain ⟨hmem, rfl⟩ := remove_eq_returned.mp hmid
      obtain ⟨hnext, hlookup⟩ := ih ht
      refine ⟨hnext, fun other ↦ ?_⟩
      rw [hlookup other]
      by_cases hother : other = id
      · subst hother
        simp
      · simp [hother, Finmap.lookup_erase_ne hother]

/-- What is missing from the saved store can be inserted in any order. -/
theorem forEach_reinsert {ids : List ObjectId} (hnodup : ids.Nodup)
    (hremoved : ∀ id ∈ ids, ∃ old, state.removed id = some old ∧
      saved.objects.lookup id = some old)
    (hsaved : saved.WellFormed keys)
    (hlookup : ∀ id, s.objects.lookup id = if id ∈ ids then none else saved.objects.lookup id)
    (hnext : s.nextIds = saved.nextIds) :
    Outcome.forEach (state.reinsert keys) ids s = .returned saved := by
  induction ids generalizing s with
  | nil =>
      rw [Outcome.forEach_nil, Store.ext_lookup (by simpa using hlookup) (congrFun hnext)]
  | cons id ids ih =>
      obtain ⟨hid, hnodup⟩ := List.nodup_cons.mp hnodup
      obtain ⟨old, hold, hsavedId⟩ := hremoved id (by simp)
      have hnotMem : id ∉ s.objects := by
        rw [← Finmap.lookup_eq_none, hlookup]
        simp
      have hfree : ¬Taken keys s.objects id old := by
        rw [not_taken_iff]
        intro other o hne ho
        by_cases hother : other ∈ id :: ids
        · simp [hlookup, hother] at ho
        · rw [hlookup, if_neg hother] at ho
          exact hsaved.unique id old other o hsavedId ho hne.symm
      rw [Outcome.forEach_cons, reinsert, hold]
      simp only [Store.insert, hnotMem, hfree, or_self, if_false, Outcome.returned_andThen]
      refine ih hnodup (fun x hx ↦ hremoved x (by simp [hx])) (fun x ↦ ?_) hnext
      by_cases hx : x = id
      · subst hx
        simp [hid, hsavedId]
      · simp [Finmap.lookup_insert_of_ne _ hx, hlookup, hx]

/-! ## The whole of `undo` -/

theorem restored_nil : state.Restored current [] current := ⟨by simp, rfl⟩

section Restore

variable {order : VisitOrder} (hundoes : Undoes state current saved)
  (hsaved : saved.WellFormed keys) (horder : Enumerates order state)

include hundoes hsaved horder

omit [DecidableEq κ] in
/-- After the first two loops only the removed objects are missing. -/
theorem lookup_after_remove {mid : Store Obj} (hmid : state.Restored current order.oldValues mid)
    (ht : Outcome.forEach Store.remove order.newIds mid = .returned t) (id : ObjectId) :
    t.objects.lookup id = if id ∈ order.removed then none else saved.objects.lookup id := by
  have hold := horder.oldValues.2 id
  have hnew := horder.newIds.2 id
  have hremoved := horder.removed.2 id
  rw [(lookup_forEach_remove ht).2, hmid.lookup]
  have hid := hundoes.objects id
  generalize hentry : state.entry id = e at hid
  cases hid with
  | untouched hsame =>
      simp only [entry, Entry.mk.injEq] at hentry
      simp_all
  | created hgrown =>
      simp only [entry, Entry.mk.injEq] at hentry
      simp_all [hsaved.lookup_eq_none hgrown]
  | updated old hsavedId =>
      simp only [entry, Entry.mk.injEq] at hentry
      simp_all
  | removed old hsavedId hgone =>
      simp only [entry, Entry.mk.injEq] at hentry
      simp_all

theorem forEach_reinsert_after_remove {mid : Store Obj}
    (hmid : state.Restored current order.oldValues mid)
    (ht : Outcome.forEach Store.remove order.newIds mid = .returned t) :
    Outcome.forEach (state.reinsert keys) order.removed (state.restoreNextIds t) =
      .returned saved := by
  refine forEach_reinsert horder.removed.1 (fun id hid ↦ ?_) hsaved
    (fun id ↦ lookup_after_remove hundoes hsaved horder hmid ht id) (funext fun index ↦ ?_)
  · obtain ⟨old, hold⟩ := Option.isSome_iff_exists.mp ((horder.removed.2 id).mp hid)
    exact ⟨old, hold, (hundoes.objects id).saved_of_removed hold⟩
  · rw [restoreNextIds, (lookup_forEach_remove ht).1, hmid.nextIds]
    exact hundoes.nextIds index

omit hundoes hsaved in
theorem forEach_restoreValue_order
    (ht : Outcome.forEach (state.restoreValue keys) order.oldValues current = .returned t) :
    state.Restored current order.oldValues t := by
  simpa using forEach_restoreValue restored_nil (fun id ↦ (horder.oldValues.2 id).mp) ht

/-- An undo that completes brings the saved store back. -/
theorem restore_eq_saved (h : state.restore keys order current = .returned s) : s = saved := by
  rw [restore, Outcome.andThen_eq_returned] at h
  obtain ⟨t, ht, h⟩ := h
  obtain ⟨mid, hmid, ht⟩ := Outcome.andThen_eq_returned.mp ht
  have hreinsert := forEach_reinsert_after_remove hundoes hsaved horder
    (forEach_restoreValue_order horder hmid) ht
  rw [hreinsert, Outcome.returned.injEq] at h
  exact h.symm

omit [DecidableEq κ] hsaved in
/-- The first loop does not touch the new objects. -/
theorem mem_newIds_iff {mid : Store Obj} (hmid : state.Restored current order.oldValues mid) :
    (∀ id ∈ order.newIds, id ∈ mid.objects) ↔ ∀ id, state.newIds id → id ∈ current.objects := by
  simp only [horder.newIds.2]
  refine forall₂_congr fun id hnew ↦ ?_
  have hid : id ∉ order.oldValues := by
    rw [horder.oldValues.2]
    intro hsome
    obtain ⟨old, hold⟩ := Option.isSome_iff_exists.mp hsome
    have hfalse := (hundoes.objects id).not_isNew_of_old hold
    simp_all [entry]
  rw [← Finmap.lookup_isSome, hmid.lookup, if_neg hid, Finmap.lookup_isSome]

theorem restore_returns_iff :
    (∃ s, state.restore keys order current = .returned s) ↔
      state.Present current ∧ ¬state.Blocked keys current.objects order.oldValues := by
  have hpending : Pending current [] current.objects := by simp [Pending]
  have hnodup : ([] ++ order.oldValues).Nodup := by simpa using horder.oldValues.1
  have hvalues := forEach_restoreValue_returns_iff restored_nil hpending hundoes hsaved hnodup
    fun id ↦ (horder.oldValues.2 id).mp
  simp only [horder.oldValues.2] at hvalues
  simp only [restore, Outcome.andThen_eq_returned]
  constructor
  · rintro ⟨s, t, ⟨mid, hmid, ht⟩, -⟩
    have hrestored := forEach_restoreValue_order horder hmid
    have hremoved := (forEach_remove horder.newIds.1).mp ⟨t, ht⟩
    have hnew := (mem_newIds_iff hundoes horder hrestored).mp hremoved
    obtain ⟨hpresent, hblocked⟩ := hvalues.mp ⟨mid, hmid⟩
    exact ⟨fun id hid ↦ hid.elim (hpresent id) (hnew id), hblocked⟩
  · rintro ⟨hpresent, hblocked⟩
    obtain ⟨mid, hmid⟩ := hvalues.mpr ⟨fun id hid ↦ hpresent id (.inl hid), hblocked⟩
    have hrestored := forEach_restoreValue_order horder hmid
    have hnew := (mem_newIds_iff hundoes horder hrestored).mpr
      fun id hid ↦ hpresent id (.inr hid)
    obtain ⟨t, ht⟩ := (forEach_remove horder.newIds.1).mpr hnew
    exact ⟨saved, t, ⟨mid, hmid, ht⟩,
      forEach_reinsert_after_remove hundoes hsaved horder hrestored ht⟩

end Restore

end UndoState

end KarmaCore
