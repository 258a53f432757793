import Mathlib
import KarmaCore.Lib.Run

/-!
# `simple_index` beside `generic_index`

`simple_index` keeps its objects in the slots of a vector, at the position their
id tells; `generic_index` keeps them in a container that is ordered by id.  Both
are driven by the same operations.  A debug build asserts that `insert` finds an
empty slot, a release build overwrites the slot.
-/

namespace KarmaCore.Db

structure Entry (T : Type) where
  id : ℕ
  value : T
  deriving DecidableEq

/-- `std::function<void(object&)>`: what it leaves of the object, also when it throws. -/
abbrev Constructor (T : Type) := Entry T → Except (Entry T) (Entry T)

inductive IndexOperation (T : Type)
  | create (constructor : Constructor T)
  | insert (obj : Entry T)
  | modify (id : ℕ) (callback : Entry T → Entry T)
  | remove (id : ℕ)
  | setNextId (id : ℕ)

variable {T : Type}

/-! ## The vector of slots -/

structure SimpleIndex (T : Type) where
  nextId : ℕ := 0
  objects : List (Option (Entry T)) := []

namespace SimpleIndex

def find (index : SimpleIndex T) (id : ℕ) : Option (Entry T) := (index.objects[id]?).join

/-- Resizes the vector when the slot is past its end. -/
def resized (id : ℕ) (objects : List (Option (Entry T))) : List (Option (Entry T)) :=
  objects ++ List.replicate (id + 1 - objects.length) none

/-- `_objects[instance].reset( obj )`. -/
def store (index : SimpleIndex T) (id : ℕ) (obj : Entry T) : SimpleIndex T :=
  { index with objects := (resized id index.objects).set id (some obj) }

/-- The slot is taken before the constructor runs. -/
def create [Inhabited T] (index : SimpleIndex T) (constructor : Constructor T) :
    Bool × SimpleIndex T :=
  match constructor ⟨index.nextId, default⟩ with
  | .ok built =>
      (true, { index.store index.nextId { built with id := index.nextId } with
        nextId := index.nextId + 1 })
  | .error left => (false, index.store index.nextId left)

def insert (index : SimpleIndex T) (obj : Entry T) : Bool × SimpleIndex T :=
  (true, index.store obj.id obj)

def modify (index : SimpleIndex T) (id : ℕ) (callback : Entry T → Entry T) : Bool × SimpleIndex T :=
  match index.find id with
  | some obj => (true, { index with objects := index.objects.set id (some (callback obj)) })
  | none => (true, index)

/-- Empty slots at the end are dropped. -/
def remove (index : SimpleIndex T) (id : ℕ) : Bool × SimpleIndex T :=
  match index.find id with
  | some _ =>
      (true, { index with objects := (index.objects.set id none).rdropWhile Option.isNone })
  | none => (true, index)

def apply [Inhabited T] (index : SimpleIndex T) : IndexOperation T → Bool × SimpleIndex T
  | .create constructor => index.create constructor
  | .insert obj => index.insert obj
  | .modify id callback => index.modify id callback
  | .remove id => index.remove id
  | .setNextId id => (true, { index with nextId := id })

/-- The slots an iterator stands on from a position to the end: `++` skips empty slots, and
the position it starts from is taken as it is. -/
def walk : List (Option (Entry T)) → List (Option (Entry T))
  | [] => []
  | slot :: slots => slot :: walk (slots.dropWhile Option.isNone)
termination_by slots => slots.length
decreasing_by exact Nat.lt_succ_of_le (List.length_dropWhile_le _ _)

/-- What `begin()` to `end()` dereferences. -/
def visited (index : SimpleIndex T) : List (Option (Entry T)) := walk index.objects

def size (index : SimpleIndex T) : ℕ := index.objects.length

/-- `ptr->hash()` needs an object in every slot. -/
def hash (digest : Entry T → BitVec 128) (index : SimpleIndex T) : Option (BitVec 128) :=
  index.objects.foldlM (fun result slot ↦ slot.map fun obj ↦ result + digest obj) 0

end SimpleIndex

/-! ## The container ordered by id -/

structure GenericIndex (T : Type) where
  nextId : ℕ := 0
  objects : List (Entry T) := []

namespace GenericIndex

def find (index : GenericIndex T) (id : ℕ) : Option (Entry T) :=
  index.objects.find? fun obj ↦ obj.id = id

/-- `_indices.insert`: nothing is inserted where the id is taken. -/
def emplace (index : GenericIndex T) (obj : Entry T) : Bool × GenericIndex T :=
  if (index.find obj.id).isSome then (false, index)
  else (true, { index with objects :=
    index.objects.takeWhile (fun other ↦ other.id < obj.id) ++
      obj :: index.objects.dropWhile (fun other ↦ other.id < obj.id) })

def create [Inhabited T] (index : GenericIndex T) (constructor : Constructor T) :
    Bool × GenericIndex T :=
  match constructor ⟨index.nextId, default⟩ with
  | .ok built =>
      match index.emplace built with
      | (true, index') => (true, { index' with nextId := index.nextId + 1 })
      | (false, index') => (false, index')
  | .error _ => (false, index)

def insert (index : GenericIndex T) (obj : Entry T) : Bool × GenericIndex T := index.emplace obj

def erase (index : GenericIndex T) (id : ℕ) : GenericIndex T :=
  { index with objects := index.objects.eraseP (fun obj ↦ obj.id = id) }

def replace (index : GenericIndex T) (id : ℕ) (obj : Entry T) : GenericIndex T :=
  { index with objects := index.objects.map (fun other ↦ if other.id = id then obj else other) }

/-- An object whose id changes is moved, and lost where the new id is taken. -/
def modify (index : GenericIndex T) (id : ℕ) (callback : Entry T → Entry T) :
    Bool × GenericIndex T :=
  match index.find id with
  | some obj =>
      if (callback obj).id = id then
        (true, index.replace id (callback obj))
      else (index.erase id).emplace (callback obj)
  | none => (true, index)

def remove (index : GenericIndex T) (id : ℕ) : Bool × GenericIndex T :=
  match index.find id with
  | some _ => (true, index.erase id)
  | none => (true, index)

def apply [Inhabited T] (index : GenericIndex T) : IndexOperation T → Bool × GenericIndex T
  | .create constructor => index.create constructor
  | .insert obj => index.insert obj
  | .modify id callback => index.modify id callback
  | .remove id => index.remove id
  | .setNextId id => (true, { index with nextId := id })

def size (index : GenericIndex T) : ℕ := index.objects.length

def hash (digest : Entry T → BitVec 128) (index : GenericIndex T) : BitVec 128 :=
  index.objects.foldl (fun result obj ↦ result + digest obj) 0

end GenericIndex

/-! ## The two side by side -/

structure IndexPair (T : Type) where
  simple : SimpleIndex T := {}
  generic : GenericIndex T := {}

/-- Every observation of the two indexes is the same, and none meets an empty slot. -/
structure IndexPair.Agrees (s : IndexPair T) : Prop where
  nextId : s.simple.nextId = s.generic.nextId
  find : ∀ id, s.simple.find id = s.generic.find id
  visited : s.simple.visited = s.generic.objects.map some
  size : s.simple.size = s.generic.size
  hash : ∀ digest, s.simple.hash digest = some (s.generic.hash digest)

def IndexPair.step [Inhabited T] (s : IndexPair T) (op : IndexOperation T) : IndexPair T :=
  ⟨(s.simple.apply op).2, (s.generic.apply op).2⟩

/-- The constructor of the operation throws. -/
def IndexPair.Throws [Inhabited T] (s : IndexPair T) : IndexOperation T → Prop
  | .create constructor => ∃ left, constructor ⟨s.simple.nextId, default⟩ = .error left
  | _ => False

/-- Both indexes return or both throw, they agree afterwards, and a constructor that throws
leaves `simple_index` as it was. -/
structure IndexPair.StepAgrees [Inhabited T] (s : IndexPair T) (op : IndexOperation T) : Prop where
  outcome : (s.simple.apply op).1 = (s.generic.apply op).1
  agrees : (s.step op).Agrees
  unchanged : s.Throws op → (s.step op).simple = s.simple

/-! ## Vectors without empty slots -/

/-- Every object is at the position its id tells. -/
def Dense (objects : List (Entry T)) : Prop :=
  ∀ i (obj : Entry T), objects[i]? = some obj → obj.id = i

/-- The two indexes over the same objects, with no empty slot. -/
def IndexPair.full (nextId : ℕ) (objects : List (Entry T)) : IndexPair T :=
  ⟨⟨nextId, objects.map some⟩, ⟨nextId, objects⟩⟩

variable {nextId id : ℕ} {objects : List (Entry T)} {obj : Entry T}

theorem SimpleIndex.walk_dropWhile (slots : List (Option (Entry T))) :
    SimpleIndex.walk (slots.dropWhile Option.isNone) = slots.filter Option.isSome := by
  induction slots with
  | nil => rw [List.dropWhile_nil, SimpleIndex.walk, List.filter_nil]
  | cons slot slots ih =>
      cases slot with
      | none => exact ih
      | some obj =>
          rw [List.dropWhile_cons_of_neg (by simp), SimpleIndex.walk, ih,
            List.filter_cons_of_pos (by simp)]

theorem SimpleIndex.walk_cons (slot : Option (Entry T)) (slots : List (Option (Entry T))) :
    SimpleIndex.walk (slot :: slots) = slot :: slots.filter Option.isSome := by
  rw [SimpleIndex.walk, SimpleIndex.walk_dropWhile]

theorem SimpleIndex.walk_map_some (objects : List (Entry T)) :
    SimpleIndex.walk (objects.map some) = objects.map some := by
  cases objects with
  | nil => rw [List.map_nil, SimpleIndex.walk]
  | cons obj objects =>
      rw [List.map_cons, SimpleIndex.walk_cons, List.filter_eq_self.mpr]
      intro slot hslot
      obtain ⟨other, -, rfl⟩ := List.mem_map.mp hslot
      exact Option.isSome_some

theorem IndexPair.simple_find_full :
    (IndexPair.full nextId objects).simple.find id = objects[id]? := by
  rw [IndexPair.full, SimpleIndex.find, List.getElem?_map]
  cases objects[id]? with
  | none => rfl
  | some obj => rfl

theorem Dense.find?_eq (h : Dense objects) (id : ℕ) :
    (objects.find? fun (obj : Entry T) ↦ obj.id = id) = objects[id]? := by
  cases hget : objects[id]? with
  | none =>
      rw [List.find?_eq_none]
      intro obj hobj
      obtain ⟨i, hi⟩ := List.mem_iff_getElem?.mp hobj
      have hid := h i obj hi
      have hrange := (List.getElem?_eq_some_iff.mp hi).1
      have hend := List.getElem?_eq_none_iff.mp hget
      rw [decide_eq_true_eq]
      omega
  | some obj =>
      obtain ⟨hid, hobj⟩ := List.getElem?_eq_some_iff.mp hget
      rw [List.find?_eq_some_iff_getElem]
      refine ⟨decide_eq_true (h id obj hget), id, hid, hobj, ?_⟩
      intro j hj
      have hother := h j objects[j] (List.getElem?_eq_getElem (hj.trans hid))
      rw [Bool.not_eq_true', decide_eq_false_iff_not, hother]
      exact hj.ne

theorem SimpleIndex.hash_map_some (digest : Entry T → BitVec 128) (objects : List (Entry T))
    (result : BitVec 128) :
    (objects.map some).foldlM (fun result slot ↦ slot.map fun obj ↦ result + digest obj) result =
      some (objects.foldl (fun result obj ↦ result + digest obj) result) := by
  induction objects generalizing result with
  | nil => rfl
  | cons obj objects ih => exact ih (result + digest obj)

theorem IndexPair.agrees_full (h : Dense objects) : (IndexPair.full nextId objects).Agrees where
  nextId := rfl
  find id := by
    rw [simple_find_full]
    exact (h.find?_eq id).symm
  visited := SimpleIndex.walk_map_some objects
  size := List.length_map some
  hash digest := SimpleIndex.hash_map_some digest objects 0

theorem GenericIndex.id_of_find {index : GenericIndex T} (h : index.find id = some obj) :
    obj.id = id := by
  rw [GenericIndex.find] at h
  simpa using List.find?_some h

/-- Two indexes that agree hold the same objects, with no empty slot. -/
theorem IndexPair.Agrees.eq_full {s : IndexPair T} (h : s.Agrees) :
    s = IndexPair.full s.generic.nextId s.generic.objects ∧ Dense s.generic.objects := by
  obtain ⟨⟨nextId, slots⟩, ⟨nextId', objects⟩⟩ := s
  obtain ⟨hnext, hfind, hvisited, hsize, -⟩ := h
  obtain rfl : nextId = nextId' := hnext
  simp only [SimpleIndex.visited, SimpleIndex.size, GenericIndex.size] at hvisited hsize
  have hslots : slots = objects.map some := by
    cases slots with
    | nil => rwa [SimpleIndex.walk] at hvisited
    | cons slot slots =>
        rw [SimpleIndex.walk_cons] at hvisited
        have hlength := congrArg List.length hvisited
        rw [List.length_cons, List.length_map, ← hsize, List.length_cons] at hlength
        rw [← hvisited, List.filter_sublist.eq_of_length (Nat.succ.inj hlength)]
  subst hslots
  refine ⟨rfl, ?_⟩
  intro i obj hobj
  have hi : GenericIndex.find ⟨nextId, objects⟩ i = some obj := by
    rw [← hfind, ← hobj]
    exact IndexPair.simple_find_full
  exact GenericIndex.id_of_find hi

theorem IndexPair.agrees_iff {s : IndexPair T} :
    s.Agrees ↔ ∃ nextId objects, s = IndexPair.full nextId objects ∧ Dense objects := by
  constructor
  · exact fun h ↦ ⟨_, _, h.eq_full⟩
  · rintro ⟨nextId, objects, rfl, h⟩
    exact IndexPair.agrees_full h

theorem IndexPair.agrees_empty : ({} : IndexPair T).Agrees :=
  IndexPair.agrees_iff.mpr ⟨0, [], rfl, fun _ _ hobj ↦ nomatch hobj⟩

/-! ## What one operation does to the two -/

theorem SimpleIndex.size_store (index : SimpleIndex T) (id : ℕ) (obj : Entry T) :
    (index.store id obj).size = max index.size (id + 1) := by
  simp only [SimpleIndex.store, SimpleIndex.size, SimpleIndex.resized, List.length_set,
    List.length_append, List.length_replicate]
  omega

theorem SimpleIndex.find_store_self (index : SimpleIndex T) (id : ℕ) (obj : Entry T) :
    (index.store id obj).find id = some obj := by
  have hid : id < (SimpleIndex.resized id index.objects).length := by
    rw [SimpleIndex.resized, List.length_append, List.length_replicate]
    omega
  rw [SimpleIndex.find, SimpleIndex.store, List.getElem?_set_self hid]
  rfl

/-- A slot that holds the object already. -/
theorem SimpleIndex.store_of_find {index : SimpleIndex T} (h : index.find id = some obj) :
    index.store id obj = index := by
  have hslot : index.objects[id]? = some (some obj) := Option.join_eq_some_iff.mp h
  obtain ⟨hid, hobj⟩ := List.getElem?_eq_some_iff.mp hslot
  rw [SimpleIndex.store, SimpleIndex.resized, Nat.sub_eq_zero_of_le hid, List.replicate_zero,
    List.append_nil, ← hobj, List.set_getElem_self]

theorem SimpleIndex.store_end (nextId : ℕ) (objects : List (Entry T)) (obj : Entry T) :
    SimpleIndex.store ⟨nextId, objects.map some⟩ objects.length obj =
      ⟨nextId, (objects ++ [obj]).map some⟩ := by
  rw [SimpleIndex.store, SimpleIndex.resized]
  simp

theorem Dense.lt_length (h : Dense objects) (hobj : obj ∈ objects) : obj.id < objects.length := by
  obtain ⟨i, hi⟩ := List.mem_iff_getElem?.mp hobj
  rw [h i obj hi]
  exact (List.getElem?_eq_some_iff.mp hi).1

theorem Dense.append (h : Dense objects) (hid : obj.id = objects.length) :
    Dense (objects ++ [obj]) := by
  intro i other hother
  rcases List.getElem?_eq_some_iff.mp hother with ⟨hi, hget⟩
  rw [List.length_append, List.length_singleton] at hi
  by_cases hlast : i < objects.length
  · rw [List.getElem?_append_left hlast] at hother
    exact h i other hother
  · obtain rfl : i = objects.length := by omega
    rw [List.getElem?_concat_length] at hother
    exact Option.some.inj hother ▸ hid

theorem GenericIndex.emplace_end (h : Dense objects) (hid : obj.id = objects.length) :
    GenericIndex.emplace ⟨nextId, objects⟩ obj = (true, ⟨nextId, objects ++ [obj]⟩) := by
  have hbelow : ∀ other ∈ objects, decide (other.id < obj.id) = true := by
    intro other hother
    rw [hid]
    exact decide_eq_true (h.lt_length hother)
  have hfree : ¬((GenericIndex.mk nextId objects).find obj.id).isSome = true := by
    rw [GenericIndex.find, h.find?_eq, hid, List.getElem?_length]
    simp
  rw [GenericIndex.emplace, if_neg hfree, List.takeWhile_eq_self_iff.mpr hbelow,
    List.dropWhile_eq_nil_iff.mpr hbelow]

theorem GenericIndex.emplace_of_returns {index : GenericIndex T}
    (h : (index.emplace obj).1 = true) :
    index.find obj.id = none ∧ (index.emplace obj).2.size = index.size + 1 ∧
      obj ∈ (index.emplace obj).2.objects := by
  rw [emplace] at h ⊢
  by_cases htaken : (index.find obj.id).isSome = true
  · rw [if_pos htaken] at h
    exact absurd h Bool.false_ne_true
  · rw [if_neg htaken]
    refine ⟨Option.not_isSome_iff_eq_none.mp htaken, ?_, List.mem_append_right _ List.mem_cons_self⟩
    have hsplit := congrArg List.length
      (List.takeWhile_append_dropWhile (p := fun other : Entry T ↦ decide (other.id < obj.id))
        (l := index.objects))
    simp only [List.length_append] at hsplit
    simp only [size, List.length_append, List.length_cons]
    omega

theorem GenericIndex.create_of_ok [Inhabited T] {index : GenericIndex T} {built : Entry T}
    {constructor : Constructor T} (h : constructor ⟨index.nextId, default⟩ = .ok built) :
    (index.create constructor).1 = (index.emplace built).1 ∧
      (index.create constructor).2.objects = (index.emplace built).2.objects := by
  rw [create, h]
  rcases hemplace : index.emplace built with ⟨_ | _, index'⟩
  · simp only [hemplace, and_self]
  · simp only [hemplace, and_self]

theorem Dense.replace (h : Dense objects) (hobj : obj.id = id) :
    objects.map (fun other ↦ if other.id = id then obj else other) = objects.set id obj ∧
      Dense (objects.set id obj) := by
  constructor
  · apply List.ext_getElem?
    intro i
    rw [List.getElem?_map, List.getElem?_set]
    cases hget : objects[i]? with
    | none =>
        have hend := List.getElem?_eq_none_iff.mp hget
        split_ifs with hid hlt
        · exact absurd (hid ▸ hlt) hend.not_gt
        · rfl
        · rfl
    | some other =>
        have hother := h i other hget
        have hlt := (List.getElem?_eq_some_iff.mp hget).1
        rw [Option.map_some, hother]
        by_cases hid : i = id
        · rw [if_pos hid, if_pos hid.symm, if_pos (hid ▸ hlt)]
        · rw [if_neg hid, if_neg (Ne.symm hid)]
  · intro i other hother
    rw [List.getElem?_set] at hother
    split_ifs at hother with hid hlt
    · rw [← Option.some.inj hother, hobj, hid]
    · exact h i other hother

/-- The last slot stays, and so do all before it. -/
theorem SimpleIndex.rdropWhile_set (hid : id + 1 < objects.length) :
    ((objects.map some).set id none).rdropWhile Option.isNone = (objects.map some).set id none := by
  rw [List.rdropWhile_eq_self_iff]
  intro hne
  rw [List.getLast_eq_getElem, List.getElem_set_ne, List.getElem_map]
  · simp
  · rw [List.length_set, List.length_map]
    omega

theorem Dense.remove_last (h : Dense objects) (hid : id + 1 = objects.length) :
    ((objects.map some).set id none).rdropWhile Option.isNone = objects.dropLast.map some ∧
      objects.eraseP (fun obj ↦ obj.id = id) = objects.dropLast ∧ Dense objects.dropLast := by
  rcases List.eq_nil_or_concat' objects with rfl | ⟨init, last, rfl⟩
  · exact absurd hid (Nat.succ_ne_zero id)
  · rw [List.length_append, List.length_singleton, Nat.add_right_cancel_iff] at hid
    subst hid
    have hinit : Dense init := by
      intro i obj hobj
      apply h i obj
      rw [List.getElem?_append_left (List.getElem?_eq_some_iff.mp hobj).1]
      exact hobj
    rw [List.dropLast_concat]
    refine ⟨?_, ?_, hinit⟩
    · rw [List.map_append, ← List.length_map some, List.set_append_right _ _ le_rfl, Nat.sub_self,
        List.map_singleton, List.set_cons_zero, List.rdropWhile_concat_pos _ _ _ rfl,
        List.rdropWhile_eq_self_iff]
      intro hne
      rw [List.getLast_map]
      exact Bool.false_ne_true
    · rw [List.eraseP_append_right]
      · have hlast : last.id = init.length := h init.length last List.getElem?_concat_length
        simp [hlast]
      · intro obj hobj
        simpa using (hinit.lt_length hobj).ne

/-- The operations after which the two still agree, told from the state before. -/
def IndexPair.Ready [Inhabited T] (s : IndexPair T) : IndexOperation T → Prop
  | .create constructor =>
      match constructor ⟨s.simple.nextId, default⟩ with
      | .ok built => built.id = s.simple.nextId ∧ s.simple.nextId = s.simple.size
      | .error left => s.simple.find s.simple.nextId = some left
  | .insert obj => obj.id = s.simple.size
  | .modify id callback => ∀ obj, s.simple.find id = some obj → (callback obj).id = id
  | .remove id => ∀ obj, s.simple.find id = some obj → id + 1 = s.simple.size
  | .setNextId _ => True

namespace IndexPair

variable [Inhabited T] {s : IndexPair T} {op : IndexOperation T} {constructor : Constructor T}
  {callback : Entry T → Entry T}

/-- Both return, and hold the same objects afterwards. -/
theorem StepAgrees.of_full (hdense : Dense objects) (hthrows : ¬s.Throws op)
    (hsimple : s.simple.apply op = (true, ⟨nextId, objects.map some⟩))
    (hgeneric : s.generic.apply op = (true, ⟨nextId, objects⟩)) : s.StepAgrees op := by
  have hstep : s.step op = full nextId objects :=
    congrArg₂ IndexPair.mk (congrArg Prod.snd hsimple) (congrArg Prod.snd hgeneric)
  refine ⟨by rw [hsimple, hgeneric], ?_, fun h ↦ absurd h hthrows⟩
  rw [hstep]
  exact agrees_full hdense

theorem stepAgrees_insert (h : s.Agrees) :
    s.StepAgrees (.insert obj) ↔ obj.id = s.simple.size := by
  constructor
  · intro hstep
    have hreturns : (s.generic.emplace obj).1 = true := hstep.outcome.symm
    have hgeneric := (GenericIndex.emplace_of_returns hreturns).2.1
    have hsize : (s.simple.store obj.id obj).size = (s.generic.emplace obj).2.size :=
      hstep.agrees.size
    rw [SimpleIndex.size_store, hgeneric, ← h.size] at hsize
    omega
  · intro hid
    obtain ⟨nextId, objects, rfl, hdense⟩ := agrees_iff.mp h
    have hend : obj.id = objects.length := hid.trans (List.length_map some)
    have hstore := SimpleIndex.store_end nextId objects obj
    rw [← hend] at hstore
    exact .of_full (hdense.append hend) not_false (congrArg (Prod.mk true) hstore)
      (GenericIndex.emplace_end hdense hend)

theorem stepAgrees_modify (h : s.Agrees) :
    s.StepAgrees (.modify id callback) ↔
      ∀ obj, s.simple.find id = some obj → (callback obj).id = id := by
  constructor
  · intro hstep obj hobj
    have hslot : s.simple.objects[id]? = some (some obj) := Option.join_eq_some_iff.mp hobj
    have hid := (List.getElem?_eq_some_iff.mp hslot).1
    have hafter : (s.step (.modify id callback)).simple.find id = some (callback obj) := by
      simp only [step, SimpleIndex.apply, SimpleIndex.modify, hobj]
      rw [SimpleIndex.find, List.getElem?_set_self hid]
      rfl
    rw [hstep.agrees.find] at hafter
    exact GenericIndex.id_of_find hafter
  · intro hkeeps
    obtain ⟨nextId, objects, rfl, hdense⟩ := agrees_iff.mp h
    have hsimple : (full nextId objects).simple.find id = objects[id]? := simple_find_full
    have hgeneric : (full nextId objects).generic.find id = objects[id]? := hdense.find?_eq id
    cases hget : objects[id]? with
    | none =>
        rw [hget] at hsimple hgeneric
        refine StepAgrees.of_full hdense not_false (?_ : _ = (true, SimpleIndex.mk nextId _)) ?_
        · rw [SimpleIndex.apply, SimpleIndex.modify, hsimple]
          rfl
        · rw [GenericIndex.apply, GenericIndex.modify, hgeneric]
          rfl
    | some obj =>
        rw [hget] at hsimple hgeneric
        have hid := hkeeps obj hsimple
        obtain ⟨hreplace, hdense'⟩ := Dense.replace hdense hid
        refine StepAgrees.of_full hdense' not_false (?_ : _ = (true, SimpleIndex.mk nextId _)) ?_
        · rw [SimpleIndex.apply, SimpleIndex.modify, hsimple, List.map_set]
          rfl
        · rw [GenericIndex.apply, GenericIndex.modify, hgeneric, ← hreplace]
          exact if_pos hid

theorem stepAgrees_remove (h : s.Agrees) :
    s.StepAgrees (.remove id) ↔ ∀ obj, s.simple.find id = some obj → id + 1 = s.simple.size := by
  obtain ⟨nextId, objects, rfl, hdense⟩ := agrees_iff.mp h
  have hsimple : (full nextId objects).simple.find id = objects[id]? := simple_find_full
  have hgeneric : (full nextId objects).generic.find id = objects[id]? := hdense.find?_eq id
  have hsize : (full nextId objects).simple.size = objects.length := List.length_map some
  rw [hsize, hsimple]
  cases hget : objects[id]? with
  | none =>
      rw [hget] at hsimple hgeneric
      refine ⟨fun _ _ hobj ↦ (nomatch hobj), fun _ ↦ ?_⟩
      refine StepAgrees.of_full hdense not_false (?_ : _ = (true, SimpleIndex.mk nextId _)) ?_
      · rw [SimpleIndex.apply, SimpleIndex.remove, hsimple]
        rfl
      · rw [GenericIndex.apply, GenericIndex.remove, hgeneric]
        rfl
  | some obj =>
      rw [hget] at hsimple hgeneric
      have hid := (List.getElem?_eq_some_iff.mp hget).1
      have hsimple' : (full nextId objects).simple.apply (.remove id) =
          (true, ⟨nextId, ((objects.map some).set id none).rdropWhile Option.isNone⟩) := by
        rw [SimpleIndex.apply, SimpleIndex.remove, hsimple]
        rfl
      have hgeneric' : (full nextId objects).generic.apply (.remove id) =
          (true, ⟨nextId, objects.eraseP fun obj ↦ obj.id = id⟩) := by
        rw [GenericIndex.apply, GenericIndex.remove, hgeneric]
        rfl
      constructor
      · intro hstep _ _
        by_contra hinner
        have hsizes := hstep.agrees.size
        rw [step, hsimple', hgeneric', SimpleIndex.size, GenericIndex.size,
          SimpleIndex.rdropWhile_set (by omega), List.length_set, List.length_map,
          List.length_eraseP_of_mem (List.mem_of_getElem? hget) (decide_eq_true (hdense id obj hget))]
          at hsizes
        omega
      · intro hlast
        obtain ⟨hslots, hobjects, hdense'⟩ := hdense.remove_last (hlast obj rfl)
        rw [hslots] at hsimple'
        rw [hobjects] at hgeneric'
        exact .of_full hdense' not_false hsimple' hgeneric'

/-- A constructor that throws leaves its half-built object in the slot. -/
theorem stepAgrees_create (h : s.Agrees) :
    s.StepAgrees (.create constructor) ↔ s.Ready (.create constructor) := by
  rw [Ready]
  cases hbuilt : constructor ⟨s.simple.nextId, default⟩ with
  | error left =>
      have hsimple : s.simple.create constructor =
          (false, s.simple.store s.simple.nextId left) := by
        rw [SimpleIndex.create, hbuilt]
      have hgeneric : s.generic.create constructor = (false, s.generic) := by
        rw [GenericIndex.create, ← h.nextId, hbuilt]
      have hstep : s.step (.create constructor) =
          ⟨s.simple.store s.simple.nextId left, s.generic⟩ :=
        congrArg₂ IndexPair.mk (congrArg Prod.snd hsimple) (congrArg Prod.snd hgeneric)
      constructor
      · intro hright
        have hfind := hright.agrees.find s.simple.nextId
        rw [hstep, SimpleIndex.find_store_self] at hfind
        rw [h.find]
        exact hfind.symm
      · intro hfind
        have hsame : s.step (.create constructor) = s := by
          rw [hstep, SimpleIndex.store_of_find hfind]
        refine ⟨?_, hsame.symm ▸ h, fun _ ↦ congrArg IndexPair.simple hsame⟩
        exact (congrArg Prod.fst hsimple).trans (congrArg Prod.fst hgeneric).symm
  | ok built =>
      have hthrows : ¬s.Throws (.create constructor) := by
        rintro ⟨left, hleft⟩
        exact nomatch hbuilt.symm.trans hleft
      constructor
      · intro hright
        have hsimple : s.simple.apply (.create constructor) =
            (true, { s.simple.store s.simple.nextId { built with id := s.simple.nextId } with
              nextId := s.simple.nextId + 1 }) := by
          rw [SimpleIndex.apply, SimpleIndex.create, hbuilt]
        have hcreate := GenericIndex.create_of_ok (h.nextId ▸ hbuilt)
        have hreturns : (s.generic.emplace built).1 = true := by
          rw [← hcreate.1]
          exact hright.outcome.symm.trans (congrArg Prod.fst hsimple)
        obtain ⟨hfree, hgeneric, hmem⟩ := GenericIndex.emplace_of_returns hreturns
        have hobjects : (s.step (.create constructor)).generic.objects =
            (s.generic.emplace built).2.objects := hcreate.2
        have hsizes := hright.agrees.size
        have hdense := hright.agrees.eq_full.2
        rw [hobjects] at hdense
        have hbuilt_lt := hdense.lt_length hmem
        rw [step, hsimple] at hsizes
        have hsizes' : (s.simple.store s.simple.nextId
            { built with id := s.simple.nextId }).size = (s.generic.emplace built).2.size :=
          hsizes.trans (congrArg List.length hobjects)
        rw [SimpleIndex.size_store, hgeneric, ← h.size] at hsizes'
        rw [← GenericIndex.size, hgeneric, ← h.size] at hbuilt_lt
        have hnew : s.simple.size ≤ built.id := by
          rw [GenericIndex.find, h.eq_full.2.find?_eq] at hfree
          exact h.size.trans_le (List.getElem?_eq_none_iff.mp hfree)
        exact ⟨by omega, by omega⟩
      · rintro ⟨hid, hend⟩
        obtain ⟨nextId, objects, rfl, hdense⟩ := agrees_iff.mp h
        have hlength : nextId = objects.length := hend.trans (List.length_map some)
        have hsame : { built with id := nextId } = built := by
          rw [← show built.id = nextId from hid]
        subst hlength
        refine StepAgrees.of_full (hdense.append hid) hthrows
          (?_ : _ = (true, SimpleIndex.mk (objects.length + 1) _)) ?_
        · have hstore := SimpleIndex.store_end objects.length objects built
          rw [SimpleIndex.apply, SimpleIndex.create, hbuilt]
          change (true, SimpleIndex.mk (objects.length + 1) (SimpleIndex.store
            ⟨objects.length, objects.map some⟩ objects.length
            { built with id := objects.length }).objects) = _
          rw [hsame, hstore]
        · have hemplace : GenericIndex.emplace ⟨objects.length, objects⟩ built =
              (true, ⟨objects.length, objects ++ [built]⟩) := GenericIndex.emplace_end hdense hid
          have hbuilt' : constructor ⟨(full objects.length objects).generic.nextId, default⟩ =
            .ok built := hbuilt
          rw [GenericIndex.apply, GenericIndex.create, hbuilt']
          simp only [full, hemplace]

/-- An operation is answered the same way exactly when it leaves no empty slot, keeps the ids
and throws no half-built object into a slot. -/
theorem stepAgrees_iff (h : s.Agrees) : s.StepAgrees op ↔ s.Ready op := by
  cases op with
  | create constructor => exact stepAgrees_create h
  | insert obj => exact stepAgrees_insert h
  | modify id callback => exact stepAgrees_modify h
  | remove id => exact stepAgrees_remove h
  | setNextId id =>
      obtain ⟨nextId, objects, rfl, hdense⟩ := agrees_iff.mp h
      refine ⟨fun _ ↦ trivial, fun _ ↦ ⟨rfl, ?_, fun hthrows ↦ hthrows.elim⟩⟩
      exact agrees_full hdense

/-- A run in which every operation agrees is a run in which every operation is ready. -/
theorem meets_stepAgrees_iff {ops : List (IndexOperation T)} (h : s.Agrees) :
    Run.Meets step StepAgrees s ops ↔ Run.Meets step Ready s ops := by
  induction ops generalizing s with
  | nil => exact Iff.rfl
  | cons op ops ih =>
      constructor
      · rintro ⟨hop, hops⟩
        exact ⟨(stepAgrees_iff h).mp hop, (ih hop.agrees).mp hops⟩
      · rintro ⟨hop, hops⟩
        have hstep := (stepAgrees_iff h).mpr hop
        exact ⟨hstep, (ih hstep.agrees).mpr hops⟩

/-- From the empty indexes on, the two agree at every operation of exactly the runs that leave
no empty slot. -/
theorem run_agrees_iff (ops : List (IndexOperation T)) :
    Run.Meets step StepAgrees {} ops ↔ Run.Meets step Ready {} ops :=
  meets_stepAgrees_iff agrees_empty

end IndexPair

/-- Of three objects the first is removed, which leaves the size at three, and a constructor
that throws leaves its half-built object. -/
theorem not_run_agrees :
    ¬Run.Meets (IndexPair.step (T := ℕ)) IndexPair.StepAgrees {}
        [.create .ok, .create .ok, .create .ok, .remove 0] ∧
      ¬Run.Meets (IndexPair.step (T := ℕ)) IndexPair.StepAgrees {} [.create .error] := by
  constructor
  · intro h
    have hsize := h.2.2.2.1.agrees.size
    exact absurd hsize (by decide)
  · intro h
    have hsame := h.1.unchanged ⟨_, rfl⟩
    exact absurd (congrArg SimpleIndex.size hsame) (by decide)

end KarmaCore.Db
