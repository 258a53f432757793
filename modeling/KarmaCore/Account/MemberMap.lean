import Mathlib
import KarmaCore.Db.SecondaryIndex

/-!
# Reverse maps that are told of modifications

A map from members to the objects that have them.  It takes the members an object had
before a modification and, when the modification is over, moves the object by the
differences.  Only one set of former members is kept.
-/

namespace KarmaCore

variable {Obj α : Type}

structure MemberMap (α : Type) where
  memberships : Entries α := fun _ ↦ ∅
  before : List α := []

namespace MemberMap

def aboutToModify (members : List α) (m : MemberMap α) : MemberMap α :=
  { m with before := members }

/-- The object is under its members and no others. -/
def Lists (m : MemberMap α) (id : ObjectId) (members : List α) : Prop :=
  ∀ a, id ∈ m.memberships a ↔ a ∈ members

/-- Where the map differs from the new members it agrees with the former ones. -/
def Tells (m : MemberMap α) (id : ObjectId) (after : List α) : Prop :=
  ∀ a, (id ∈ m.memberships a ↔ a ∈ after) ∨ (id ∈ m.memberships a ↔ a ∈ m.before)

/-- The map is what the objects give, but for those that are being modified. -/
def CoherentExcept (members : Obj → List α) (modifying : List ObjectId)
    (objects : Finmap fun _ : ObjectId ↦ Obj) (m : MemberMap α) : Prop :=
  ∀ a, ∀ id ∉ modifying,
    (id ∈ m.memberships a ↔ ∃ o, objects.lookup id = some o ∧ a ∈ members o)

variable {m : MemberMap α} {id x : ObjectId} {a : α} {after : List α}

@[simp] theorem memberships_aboutToModify (l : List α) (m : MemberMap α) :
    (m.aboutToModify l).memberships = m.memberships := rfl

@[simp] theorem before_aboutToModify (l : List α) (m : MemberMap α) :
    (m.aboutToModify l).before = l := rfl

/-! ## Coherence -/

variable {members : Obj → List α} {modifying : List ObjectId}
  {objects : Finmap fun _ : ObjectId ↦ Obj} {o : Obj}

theorem CoherentExcept.lists (hm : m.CoherentExcept members modifying objects)
    (hid : id ∉ modifying) (ho : objects.lookup id = some o) : m.Lists id (members o) := by
  intro a
  rw [hm a id hid]
  simp [ho]

/-- A modification begins. -/
theorem CoherentExcept.aboutToModify (hm : m.CoherentExcept members modifying objects)
    (l : List α) : (m.aboutToModify l).CoherentExcept members (id :: modifying) objects :=
  fun a x hx ↦ hm a x fun hmem ↦ hx (List.mem_cons_of_mem _ hmem)

/-- The callback writes to its object. -/
theorem CoherentExcept.write (hm : m.CoherentExcept members modifying objects)
    (hid : id ∈ modifying) : m.CoherentExcept members modifying (objects.insert id o) := by
  intro a x hx
  have hne : x ≠ id := fun heq ↦ hx (heq ▸ hid)
  rw [hm a x hx, Finmap.lookup_insert_of_ne _ hne]

/-- A modification can be told when the former members are those of its object. -/
theorem CoherentExcept.tells (hm : m.CoherentExcept members modifying objects)
    (hid : id ∉ modifying) (ho : objects.lookup id = some o) (after : List α) :
    (m.aboutToModify (members o)).Tells id after :=
  fun a ↦ .inr (hm.lists hid ho a)

/-! ## Notifications -/

variable [DecidableEq α] {l : List α}

def objectInserted (id : ObjectId) (members : List α) (m : MemberMap α) : MemberMap α :=
  { m with memberships := KarmaCore.objectInserted (fun l ↦ l) id members m.memberships }

def objectRemoved (id : ObjectId) (members : List α) (m : MemberMap α) : MemberMap α :=
  { m with memberships := KarmaCore.objectRemoved (fun l ↦ l) id members m.memberships }

def objectModified (id : ObjectId) (after : List α) (m : MemberMap α) : MemberMap α :=
  let removed := m.before.filter (· ∉ after)
  let added := after.filter (· ∉ m.before)
  (m.objectRemoved id removed).objectInserted id added

@[simp] theorem mem_objectInserted :
    x ∈ (m.objectInserted id l).memberships a ↔ x ∈ m.memberships a ∨ x = id ∧ a ∈ l :=
  KarmaCore.mem_objectInserted

@[simp] theorem mem_objectRemoved :
    x ∈ (m.objectRemoved id l).memberships a ↔ x ∈ m.memberships a ∧ ¬(x = id ∧ a ∈ l) :=
  KarmaCore.mem_objectRemoved

theorem mem_objectModified :
    x ∈ (m.objectModified id after).memberships a ↔
      x ∈ m.memberships a ∧ ¬(x = id ∧ a ∈ m.before ∧ a ∉ after) ∨
        x = id ∧ a ∈ after ∧ a ∉ m.before := by
  simp [objectModified]

theorem mem_objectModified_of_ne (hx : x ≠ id) :
    x ∈ (m.objectModified id after).memberships a ↔ x ∈ m.memberships a := by
  simp [mem_objectModified, hx]

/-- The differences bring an object under its new members exactly when they can be told. -/
theorem objectModified_lists_iff :
    (m.objectModified id after).Lists id after ↔ m.Tells id after := by
  refine forall_congr' fun a ↦ ?_
  rw [mem_objectModified]
  by_cases hlisted : id ∈ m.memberships a <;> by_cases hafter : a ∈ after <;>
    by_cases hbefore : a ∈ m.before <;> simp [hlisted, hafter, hbefore]

theorem CoherentExcept.insert (hm : m.CoherentExcept members modifying objects)
    (hid : id ∉ objects) :
    (m.objectInserted id (members o)).CoherentExcept members modifying (objects.insert id o) := by
  intro a x hx
  rw [mem_objectInserted, hm a x hx]
  by_cases heq : x = id
  · subst heq
    simp [Finmap.lookup_eq_none.mpr hid]
  · simp [Finmap.lookup_insert_of_ne _ heq, heq]

theorem CoherentExcept.erase (hm : m.CoherentExcept members modifying objects)
    (ho : objects.lookup id = some o) :
    (m.objectRemoved id (members o)).CoherentExcept members modifying (objects.erase id) := by
  intro a x hx
  rw [mem_objectRemoved, hm a x hx]
  by_cases heq : x = id
  · subst heq
    simp [ho]
  · simp [Finmap.lookup_erase_ne heq, heq]

/-- A modification that can be told ends. -/
theorem CoherentExcept.objectModified (hm : m.CoherentExcept members (id :: modifying) objects)
    (ho : objects.lookup id = some o) (htells : m.Tells id (members o)) :
    (m.objectModified id (members o)).CoherentExcept members modifying objects := by
  intro a x hx
  by_cases heq : x = id
  · subst heq
    rw [objectModified_lists_iff.mpr htells a]
    simp [ho]
  · rw [mem_objectModified_of_ne heq]
    exact hm a x (by simp [heq, hx])

end MemberMap

end KarmaCore
