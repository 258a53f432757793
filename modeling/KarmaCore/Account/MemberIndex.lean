import Mathlib
import KarmaCore.Account.MemberMap
import KarmaCore.Authority.AddressSignature

/-!
# The accounts that mention a key, an address or an account

`account_member_index` has three maps that follow the accounts through creations,
modifications and undos.  A callback may modify other accounts, and the index keeps only
the members of the account that was about to be modified last.
-/

namespace KarmaCore.Accounts

open Authorities

/-- The entries of an authority without their weights. -/
structure AuthorityEntries where
  accountAuths : List AccountId := []
  keyAuths : List PublicKey := []
  addressAuths : List Address := []
  deriving DecidableEq

structure AccountObject where
  name : String
  owner : AuthorityEntries
  active : AuthorityEntries
  memoKey : PublicKey
  deriving DecidableEq

namespace AccountObject

def getAccountMembers (a : AccountObject) : List AccountId :=
  a.owner.accountAuths ++ a.active.accountAuths

def getKeyMembers (a : AccountObject) : List PublicKey :=
  a.owner.keyAuths ++ a.active.keyAuths ++ [a.memoKey]

def getAddressMembers (h : AddressHashes) (a : AccountObject) : List Address :=
  a.owner.addressAuths ++ a.active.addressAuths ++ [h.address a.memoKey]

/-- The key of the index `by_name`. -/
def keys (a : AccountObject) : List String := [a.name]

end AccountObject

structure AccountMemberIndex where
  accounts : MemberMap AccountId := {}
  keys : MemberMap PublicKey := {}
  addresses : MemberMap Address := {}

namespace AccountMemberIndex

variable (h : AddressHashes)

def objectInserted (id : ObjectId) (a : AccountObject) (ix : AccountMemberIndex) :
    AccountMemberIndex where
  accounts := ix.accounts.objectInserted id a.getAccountMembers
  keys := ix.keys.objectInserted id a.getKeyMembers
  addresses := ix.addresses.objectInserted id (a.getAddressMembers h)

def objectRemoved (id : ObjectId) (a : AccountObject) (ix : AccountMemberIndex) :
    AccountMemberIndex where
  accounts := ix.accounts.objectRemoved id a.getAccountMembers
  keys := ix.keys.objectRemoved id a.getKeyMembers
  addresses := ix.addresses.objectRemoved id (a.getAddressMembers h)

def aboutToModify (before : AccountObject) (ix : AccountMemberIndex) : AccountMemberIndex where
  accounts := ix.accounts.aboutToModify before.getAccountMembers
  keys := ix.keys.aboutToModify before.getKeyMembers
  addresses := ix.addresses.aboutToModify (before.getAddressMembers h)

def objectModified (id : ObjectId) (after : AccountObject) (ix : AccountMemberIndex) :
    AccountMemberIndex where
  accounts := ix.accounts.objectModified id after.getAccountMembers
  keys := ix.keys.objectModified id after.getKeyMembers
  addresses := ix.addresses.objectModified id (after.getAddressMembers h)

/-- The account is under its members in all maps. -/
structure Lists (ix : AccountMemberIndex) (id : ObjectId) (a : AccountObject) : Prop where
  accounts : ix.accounts.Lists id a.getAccountMembers
  keys : ix.keys.Lists id a.getKeyMembers
  addresses : ix.addresses.Lists id (a.getAddressMembers h)

/-- Each member that the account gains or loses can be told from the members that the index
has kept. -/
structure Tells (ix : AccountMemberIndex) (id : ObjectId) (after : AccountObject) : Prop where
  accounts : ix.accounts.Tells id after.getAccountMembers
  keys : ix.keys.Tells id after.getKeyMembers
  addresses : ix.addresses.Tells id (after.getAddressMembers h)

structure CoherentExcept (ix : AccountMemberIndex) (modifying : List ObjectId)
    (objects : Finmap fun _ : ObjectId ↦ AccountObject) : Prop where
  accounts : ix.accounts.CoherentExcept AccountObject.getAccountMembers modifying objects
  keys : ix.keys.CoherentExcept AccountObject.getKeyMembers modifying objects
  addresses : ix.addresses.CoherentExcept (AccountObject.getAddressMembers h) modifying objects

end AccountMemberIndex

/-! ## The accounts with their index -/

/-- The accounts, `account_member_index`, and the accounts whose modification has begun and not
ended, the innermost first. -/
structure AccountDatabase where
  db : ObjectDatabase AccountObject
  index : AccountMemberIndex := {}
  modifying : List ObjectId := []

/-- What happens to the accounts. A modification begins, lets its callback write, and ends; in
between there may be others. -/
inductive AccountEvent
  | create (a : AccountObject)
  | beginModify (id : ObjectId)
  | write (f : AccountObject → AccountObject)
  | endModify
  | startSession (forceEnable : Bool)
  | undo (order : VisitOrder)
  | merge
  | commit
  | popCommit (order : VisitOrder)

def accountObjects : IndexId := (1, 2)

structure IndexedAccounts where
  store : Store AccountObject
  index : AccountMemberIndex

namespace IndexedAccounts

variable (h : AddressHashes)

/-- `undo` gives an object its old value: a modification with a callback that only writes. -/
def restoreValue (state : UndoState AccountObject) (id : ObjectId) (s : IndexedAccounts) :
    Outcome DbError IndexedAccounts :=
  match state.oldValues id with
  | none => .returned s
  | some old =>
    match s.store.objects.lookup id with
    | none => .threw .unableToFindObject s
    | some a =>
      let index := s.index.aboutToModify h a
      match s.store.modify AccountObject.keys id fun _ ↦ some old with
      | .returned store => .returned ⟨store, index.objectModified h id old⟩
      | .threw e store => .threw e ⟨store, index⟩

def remove (id : ObjectId) (s : IndexedAccounts) : Outcome DbError IndexedAccounts :=
  match s.store.objects.lookup id with
  | none => .threw .unableToFindObject s
  | some a => (s.store.remove id).map fun store ↦ ⟨store, s.index.objectRemoved h id a⟩

/-- What an undo inserts again is not told to the index. -/
def reinsert (state : UndoState AccountObject) (id : ObjectId) (s : IndexedAccounts) :
    Outcome DbError IndexedAccounts :=
  (state.reinsert AccountObject.keys id s.store).map fun store ↦ { s with store }

def restore (state : UndoState AccountObject) (order : VisitOrder) (s : IndexedAccounts) :
    Outcome DbError IndexedAccounts :=
  ((Outcome.forEach (restoreValue h state) order.oldValues s).andThen
    (Outcome.forEach (remove h) order.newIds)).andThen fun s ↦
      Outcome.forEach (reinsert state) order.removed
        { s with store := state.restoreNextIds s.store }

end IndexedAccounts

namespace AccountDatabase

variable (h : AddressHashes)

def create (a : AccountObject) (d : AccountDatabase) : Outcome DbError AccountDatabase :=
  match d.db.create AccountObject.keys accountObjects a with
  | .returned db =>
      .returned { d with
        db, index := d.index.objectInserted h (d.db.store.nextId accountObjects) a }
  | .threw e db => .threw e { d with db }

/-- `primary_index::modify` up to its callback. -/
def beginModify (id : ObjectId) (d : AccountDatabase) : Outcome DbError AccountDatabase :=
  match d.db.store.objects.lookup id with
  | none => .threw .unableToFindObject d
  | some a =>
      .returned ⟨d.db.record (·.onModify id a), d.index.aboutToModify h a, id :: d.modifying⟩

/-- The innermost callback writes to its account. -/
def write (f : AccountObject → AccountObject) (d : AccountDatabase) : AccountDatabase :=
  match d.modifying with
  | [] => d
  | id :: _ =>
    match d.db.store.objects.lookup id with
    | none => d
    | some a =>
        { d with
          db := { d.db with store := { d.db.store with
            objects := d.db.store.objects.insert id (f a) } } }

/-- `primary_index::modify` from the end of its callback. -/
def endModify (d : AccountDatabase) : Outcome DbError AccountDatabase :=
  match d.modifying with
  | [] => .returned d
  | id :: modifying =>
    match d.db.store.objects.lookup id with
    | none => .threw .unableToFindObject { d with modifying }
    | some a =>
      if Taken AccountObject.keys d.db.store.objects id a then
        .threw .uniquenessViolated
          ⟨{ d.db with store := { d.db.store with objects := d.db.store.objects.erase id } },
            d.index, modifying⟩
      else .returned ⟨d.db, d.index.objectModified h id a, modifying⟩

def undo (order : VisitOrder) (d : AccountDatabase) : Outcome DbError AccountDatabase :=
  if d.db.disabled then .threw (.assertion "!_disabled") d
  else if d.db.undoStack.activeSessions = 0 then .threw (.assertion "_active_sessions > 0") d
  else
    match d.db.undoStack.stack with
    | [] => .threw (.assertion "_stack.back()") { d with db := { d.db with disabled := true } }
    | state :: _ =>
      match IndexedAccounts.restore h state order ⟨d.db.store, d.index⟩ with
      | .returned s =>
          .returned { d with
            db := { store := s.store, undoStack := d.db.undoStack.drop }, index := s.index }
      | .threw e s =>
          .threw e { d with
            db := { d.db with store := s.store, disabled := true }, index := s.index }

def popCommit (order : VisitOrder) (d : AccountDatabase) : Outcome DbError AccountDatabase :=
  if d.db.undoStack.activeSessions ≠ 0 then .threw (.assertion "_active_sessions == 0") d
  else
    match d.db.undoStack.stack with
    | [] => .threw (.assertion "!_stack.empty()") d
    | state :: _ =>
      match IndexedAccounts.restore h state order ⟨d.db.store, d.index⟩ with
      | .returned s =>
          .returned { d with
            db := { store := s.store, undoStack := d.db.undoStack.pop }, index := s.index }
      | .threw e s =>
          .threw e { d with
            db := { d.db with store := s.store, disabled := false }, index := s.index }

def call (d : AccountDatabase) : AccountEvent → Outcome DbError AccountDatabase
  | .create a => d.create h a
  | .beginModify id => d.beginModify h id
  | .write f => .returned (d.write f)
  | .endModify => d.endModify h
  | .startSession forceEnable => .returned { d with db := d.db.startUndoSession forceEnable }
  | .undo order => d.undo h order
  | .merge => d.db.merge.map fun db ↦ { d with db }
  | .commit => d.db.commit.map fun db ↦ { d with db }
  | .popCommit order => d.popCommit h order

def step (d : AccountDatabase) (event : AccountEvent) : AccountDatabase := (d.call h event).state

def initial (maxSize : ℕ) : AccountDatabase where
  db := { store := ⟨∅, fun _ ↦ 0⟩, undoStack := .empty maxSize }

/-- Every key, address and account has the accounts that mention it in `owner`, `active` or
`memo_key`. -/
structure Coherent (d : AccountDatabase) : Prop where
  accounts : ∀ b id, id ∈ d.index.accounts.memberships b ↔
    ∃ a, d.db.store.objects.lookup id = some a ∧
      (b ∈ a.owner.accountAuths ∨ b ∈ a.active.accountAuths)
  keys : ∀ k id, id ∈ d.index.keys.memberships k ↔
    ∃ a, d.db.store.objects.lookup id = some a ∧
      (k ∈ a.owner.keyAuths ∨ k ∈ a.active.keyAuths ∨ k = a.memoKey)
  addresses : ∀ b id, id ∈ d.index.addresses.memberships b ↔
    ∃ a, d.db.store.objects.lookup id = some a ∧
      (b ∈ a.owner.addressAuths ∨ b ∈ a.active.addressAuths ∨ b = h.address a.memoKey)

/-- When a modification ends, the name of its account is free and the index can tell what has
changed; an undo waits until no account is being modified, and completes. -/
def Told (d : AccountDatabase) : AccountEvent → Prop
  | .endModify => ∀ id ∈ d.modifying.head?, ∀ a, d.db.store.objects.lookup id = some a →
      ¬Taken AccountObject.keys d.db.store.objects id a ∧ d.index.Tells h id a
  | .undo order => d.modifying = [] ∧ ∃ d', d.undo h order = .returned d'
  | .popCommit order => d.modifying = [] ∧ ∃ d', d.popCommit h order = .returned d'
  | _ => True

end AccountDatabase

variable {h : AddressHashes} {id : ObjectId} {a o : AccountObject} {modifying : List ObjectId}
  {objects : Finmap fun _ : ObjectId ↦ AccountObject}

/-! ## The three maps together -/

namespace AccountMemberIndex

variable {ix : AccountMemberIndex}

/-- The differences bring an account under its new members exactly when they can be told. -/
theorem objectModified_lists_iff :
    (ix.objectModified h id a).Lists h id a ↔ ix.Tells h id a := by
  constructor
  · intro hlists
    exact ⟨MemberMap.objectModified_lists_iff.mp hlists.accounts,
      MemberMap.objectModified_lists_iff.mp hlists.keys,
      MemberMap.objectModified_lists_iff.mp hlists.addresses⟩
  · intro htells
    exact ⟨MemberMap.objectModified_lists_iff.mpr htells.accounts,
      MemberMap.objectModified_lists_iff.mpr htells.keys,
      MemberMap.objectModified_lists_iff.mpr htells.addresses⟩

/-- A modification that changes no members can be told, whatever its callback modifies. -/
theorem Lists.tells (hix : ix.Lists h id a) : ix.Tells h id a :=
  ⟨fun b ↦ .inl (hix.accounts b), fun k ↦ .inl (hix.keys k), fun b ↦ .inl (hix.addresses b)⟩

/-- The end of a modification leaves the other accounts where they are. -/
theorem Lists.objectModified_of_ne {other : ObjectId} (hix : ix.Lists h id a) (hne : id ≠ other) :
    (ix.objectModified h other o).Lists h id a :=
  ⟨fun b ↦ (MemberMap.mem_objectModified_of_ne hne).trans (hix.accounts b),
    fun k ↦ (MemberMap.mem_objectModified_of_ne hne).trans (hix.keys k),
    fun b ↦ (MemberMap.mem_objectModified_of_ne hne).trans (hix.addresses b)⟩

namespace CoherentExcept

theorem lists (hix : ix.CoherentExcept h modifying objects) (hid : id ∉ modifying)
    (ha : objects.lookup id = some a) : ix.Lists h id a :=
  ⟨hix.accounts.lists hid ha, hix.keys.lists hid ha, hix.addresses.lists hid ha⟩

theorem insert (hix : ix.CoherentExcept h modifying objects) (hid : id ∉ objects) :
    (ix.objectInserted h id a).CoherentExcept h modifying (objects.insert id a) :=
  ⟨hix.accounts.insert hid, hix.keys.insert hid, hix.addresses.insert hid⟩

theorem erase (hix : ix.CoherentExcept h modifying objects) (ha : objects.lookup id = some a) :
    (ix.objectRemoved h id a).CoherentExcept h modifying (objects.erase id) :=
  ⟨hix.accounts.erase ha, hix.keys.erase ha, hix.addresses.erase ha⟩

theorem aboutToModify (hix : ix.CoherentExcept h modifying objects) (a : AccountObject) :
    (ix.aboutToModify h a).CoherentExcept h (id :: modifying) objects :=
  ⟨hix.accounts.aboutToModify _, hix.keys.aboutToModify _, hix.addresses.aboutToModify _⟩

theorem write (hix : ix.CoherentExcept h modifying objects) (hid : id ∈ modifying) :
    ix.CoherentExcept h modifying (objects.insert id a) :=
  ⟨hix.accounts.write hid, hix.keys.write hid, hix.addresses.write hid⟩

theorem objectModified (hix : ix.CoherentExcept h (id :: modifying) objects)
    (ha : objects.lookup id = some a) (htells : ix.Tells h id a) :
    (ix.objectModified h id a).CoherentExcept h modifying objects :=
  ⟨hix.accounts.objectModified ha htells.accounts, hix.keys.objectModified ha htells.keys,
    hix.addresses.objectModified ha htells.addresses⟩

theorem tells (hix : ix.CoherentExcept h modifying objects) (hid : id ∉ modifying)
    (ha : objects.lookup id = some a) : (ix.aboutToModify h a).Tells h id o :=
  ⟨hix.accounts.tells hid ha _, hix.keys.tells hid ha _, hix.addresses.tells hid ha _⟩

end CoherentExcept

end AccountMemberIndex

/-! ## Undoing -/

namespace IndexedAccounts

variable {s t : IndexedAccounts} {state : UndoState AccountObject}

/-- The index is right and no account is being modified. -/
def Coherent (h : AddressHashes) (s : IndexedAccounts) : Prop :=
  s.index.CoherentExcept h [] s.store.objects

theorem restoreValue_coherent (hs : s.Coherent h)
    (hreturned : restoreValue h state id s = .returned t) : t.Coherent h := by
  unfold restoreValue at hreturned
  cases hold : state.oldValues id with
  | none =>
      rw [hold] at hreturned
      obtain rfl := Outcome.returned.inj hreturned
      exact hs
  | some old =>
      simp only [hold] at hreturned
      cases ha : s.store.objects.lookup id with
      | none => simp [ha] at hreturned
      | some a =>
          simp only [ha, Store.modify] at hreturned
          split_ifs at hreturned with htaken
          simp only [Outcome.returned.injEq] at hreturned
          subst hreturned
          refine AccountMemberIndex.CoherentExcept.objectModified ?_ (Finmap.lookup_insert _) ?_
          · exact (hs.aboutToModify a).write List.mem_cons_self
          · exact hs.tells List.not_mem_nil ha

theorem remove_coherent (hs : s.Coherent h) (hreturned : remove h id s = .returned t) :
    t.Coherent h := by
  unfold remove at hreturned
  cases ha : s.store.objects.lookup id with
  | none => simp [ha] at hreturned
  | some a =>
      have hmem : id ∈ s.store.objects := Finmap.lookup_isSome.mp (by rw [ha]; rfl)
      simp only [ha, Store.remove, hmem, if_true, Outcome.map, Outcome.returned.injEq] at hreturned
      subst hreturned
      exact hs.erase ha

/-- An undo that completes leaves the index right, when it has no removed account to insert. -/
theorem restore_coherent {order : VisitOrder} (hs : s.Coherent h)
    (hremoved : ∀ id, state.removed id = none)
    (hreturned : restore h state order s = .returned t) : t.Coherent h := by
  unfold restore at hreturned
  obtain ⟨u, hu, hinserted⟩ := Outcome.andThen_eq_returned.mp hreturned
  obtain ⟨v, hv, hnew⟩ := Outcome.andThen_eq_returned.mp hu
  have hvCoherent : v.Coherent h :=
    Outcome.forEach_returned hs (fun _ _ _ hs ht ↦ restoreValue_coherent hs ht) hv
  have huCoherent : u.Coherent h :=
    Outcome.forEach_returned hvCoherent (fun _ _ _ hs ht ↦ remove_coherent hs ht) hnew
  have hnextIds : Coherent h { u with store := state.restoreNextIds u.store } := huCoherent
  refine Outcome.forEach_returned hnextIds (fun id s t hs ht ↦ ?_) hinserted
  simp only [reinsert, UndoState.reinsert, hremoved, Outcome.map, Outcome.returned.injEq] at ht
  exact ht ▸ hs

end IndexedAccounts

/-! ## Runs -/

namespace AccountDatabase

variable {d d' : AccountDatabase} {order : VisitOrder}

/-- No state of the undo stack has a removed account. -/
def NoneRemoved (db : ObjectDatabase AccountObject) : Prop :=
  ∀ state ∈ db.undoStack.stack, ∀ id, state.removed id = none

theorem NoneRemoved.record {db : ObjectDatabase AccountObject} (hdb : NoneRemoved db)
    {f : UndoState AccountObject → UndoState AccountObject}
    (hf : ∀ state, (f state).removed = state.removed) : NoneRemoved (db.record f) := by
  unfold ObjectDatabase.record
  split_ifs
  · exact hdb
  · cases hstack : db.undoStack.stack with
    | nil =>
        intro state hstate id
        obtain rfl := List.mem_singleton.mp hstate
        rw [hf]
        rfl
    | cons newest states =>
        intro state hstate id
        rcases List.mem_cons.mp hstate with rfl | hstate
        · rw [hf]
          exact hdb newest (by simp [hstack]) id
        · exact hdb state (by simp [hstack, hstate]) id

theorem NoneRemoved.of_subset {db db' : ObjectDatabase AccountObject} (hdb : NoneRemoved db)
    (hsub : db'.undoStack.stack ⊆ db.undoStack.stack) : NoneRemoved db' :=
  fun state hstate ↦ hdb state (hsub hstate)

theorem removed_onModify (id : ObjectId) (a : AccountObject) (state : UndoState AccountObject) :
    (state.onModify id a).removed = state.removed := by
  unfold UndoState.onModify
  split_ifs <;> rfl

theorem NoneRemoved.merge {db db' : ObjectDatabase AccountObject} (hdb : NoneRemoved db)
    (hmerge : db.merge.state = db') : NoneRemoved db' := by
  subst hmerge
  unfold ObjectDatabase.merge
  split_ifs
  · exact hdb
  · exact hdb.of_subset (List.tail_subset _)
  · split
    · rename_i state prev rest hstack
      rintro merged hmerged id
      rcases List.mem_cons.mp hmerged with rfl | hmerged
      · have hstate := hdb state (by simp [hstack]) id
        have hprev := hdb prev (by simp [hstack]) id
        simp [UndoState.merge, UndoState.mergeRemoved, UndoState.mergeNextIds,
          UndoState.mergeNewIds, UndoState.mergeOldValues, hstate, hprev]
      · exact hdb merged (by simp [hstack, hmerged]) id
    · exact hdb

variable (h) in
/-- What a run keeps. -/
structure Sound (d : AccountDatabase) : Prop where
  coherent : d.index.CoherentExcept h d.modifying d.db.store.objects
  present : ∀ id ∈ d.modifying, id ∈ d.db.store.objects
  noneRemoved : NoneRemoved d.db

theorem Sound.coherent_of_done (hd : d.Sound h) (hdone : d.modifying = []) : d.Coherent h := by
  have hcoherent := hd.coherent
  rw [hdone] at hcoherent
  refine ⟨fun b id ↦ ?_, fun k id ↦ ?_, fun b id ↦ ?_⟩
  · simpa [AccountObject.getAccountMembers] using hcoherent.accounts b id List.not_mem_nil
  · simpa [AccountObject.getKeyMembers] using hcoherent.keys k id List.not_mem_nil
  · simpa [AccountObject.getAddressMembers] using hcoherent.addresses b id List.not_mem_nil

theorem Sound.of_undoStack {db : ObjectDatabase AccountObject} (hd : d.Sound h)
    (hstore : db.store = d.db.store) (hdb : NoneRemoved db) : Sound h { d with db } := by
  refine ⟨?_, ?_, hdb⟩
  · dsimp only
    rw [hstore]
    exact hd.coherent
  · dsimp only
    rw [hstore]
    exact hd.present

theorem Sound.create (hd : d.Sound h) : (d.create h a).state.Sound h := by
  unfold AccountDatabase.create ObjectDatabase.create Store.create Store.insert
  by_cases htaken : d.db.store.nextId accountObjects ∈ d.db.store.objects ∨
      Taken AccountObject.keys d.db.store.objects (d.db.store.nextId accountObjects) a
  · simp only [htaken, if_true, Outcome.threw_andThen, Outcome.state_threw]
    exact hd
  · simp only [htaken, if_false, Outcome.returned_andThen, Outcome.state_returned]
    refine ⟨?_, ?_, ?_⟩
    · simp only [IndexedDatabase.store_record]
      exact hd.coherent.insert fun hmem ↦ htaken (.inl hmem)
    · simp only [IndexedDatabase.store_record, Finmap.mem_insert]
      exact fun id hid ↦ .inr (hd.present id hid)
    · apply NoneRemoved.record
      · exact hd.noneRemoved
      · exact fun state ↦ rfl

theorem Sound.beginModify (hd : d.Sound h) : (d.beginModify h id).state.Sound h := by
  unfold AccountDatabase.beginModify
  cases ha : d.db.store.objects.lookup id with
  | none => exact hd
  | some a =>
      simp only [Outcome.state_returned]
      refine ⟨?_, ?_, hd.noneRemoved.record fun state ↦ removed_onModify id a state⟩
      · simp only [IndexedDatabase.store_record]
        exact hd.coherent.aboutToModify a
      · simp only [IndexedDatabase.store_record, List.mem_cons]
        rintro x (rfl | hx)
        · exact Finmap.lookup_isSome.mp (by rw [ha]; rfl)
        · exact hd.present x hx

theorem Sound.write (hd : d.Sound h) (f : AccountObject → AccountObject) :
    (d.write f).Sound h := by
  unfold AccountDatabase.write
  split
  · exact hd
  · rename_i id modifying hmodifying
    split
    · exact hd
    · refine ⟨hd.coherent.write ?_, fun x hx ↦ ?_, hd.noneRemoved⟩
      · rw [hmodifying]
        exact List.mem_cons_self
      · exact Finmap.mem_insert.mpr (.inr (hd.present x hx))

theorem Sound.endModify (hd : d.Sound h) (htold : d.Told h .endModify) :
    (d.endModify h).state.Sound h := by
  obtain ⟨hcoherent, hpresent, hremoved⟩ := hd
  unfold AccountDatabase.endModify
  split
  · exact ⟨hcoherent, hpresent, hremoved⟩
  · rename_i id modifying hmodifying
    rw [hmodifying] at hcoherent hpresent
    have hmem := hpresent id List.mem_cons_self
    obtain ⟨a, ha⟩ := Finmap.mem_iff.mp hmem
    obtain ⟨hfree, htells⟩ := htold id (by rw [hmodifying]; rfl) a ha
    simp only [ha, if_neg hfree, Outcome.state_returned]
    exact ⟨hcoherent.objectModified ha htells,
      fun x hx ↦ hpresent x (List.mem_cons_of_mem _ hx), hremoved⟩

/-- An undo that completes, when no account is being modified. -/
theorem Sound.restored {s : IndexedAccounts} {state : UndoState AccountObject}
    {undoStack : SessionStack (UndoState AccountObject)} (hd : d.Sound h)
    (hdone : d.modifying = []) (hstate : state ∈ d.db.undoStack.stack)
    (hstack : undoStack.stack ⊆ d.db.undoStack.stack)
    (hrestore : IndexedAccounts.restore h state order ⟨d.db.store, d.index⟩ = .returned s) :
    Sound h { d with db := { store := s.store, undoStack }, index := s.index } := by
  have hcoherent := hd.coherent
  rw [hdone] at hcoherent
  refine ⟨?_, by simp [hdone], fun other hother ↦ hd.noneRemoved other (hstack hother)⟩
  dsimp only
  rw [hdone]
  exact IndexedAccounts.restore_coherent (s := ⟨d.db.store, d.index⟩) hcoherent
    (hd.noneRemoved state hstate) hrestore

theorem Sound.undo (hd : d.Sound h) (hdone : d.modifying = [])
    (hreturned : d.undo h order = .returned d') : d'.Sound h := by
  unfold AccountDatabase.undo at hreturned
  split_ifs at hreturned
  split at hreturned
  · cases hreturned
  · rename_i state states hstack
    split at hreturned
    · rename_i s hrestore
      obtain rfl := Outcome.returned.inj hreturned
      exact hd.restored hdone (by simp [hstack]) (List.tail_subset _) hrestore
    · cases hreturned

theorem Sound.popCommit (hd : d.Sound h) (hdone : d.modifying = [])
    (hreturned : d.popCommit h order = .returned d') : d'.Sound h := by
  unfold AccountDatabase.popCommit at hreturned
  split_ifs at hreturned
  split at hreturned
  · cases hreturned
  · rename_i state states hstack
    split at hreturned
    · rename_i s hrestore
      obtain rfl := Outcome.returned.inj hreturned
      exact hd.restored hdone (by simp [hstack]) (List.tail_subset _) hrestore
    · cases hreturned

theorem Sound.step (hd : d.Sound h) {event : AccountEvent} (htold : d.Told h event) :
    (d.step h event).Sound h := by
  unfold AccountDatabase.step
  match event with
  | .create a => exact hd.create
  | .beginModify id => exact hd.beginModify
  | .write f => exact hd.write f
  | .endModify => exact hd.endModify htold
  | .startSession forceEnable =>
      simp only [call, ObjectDatabase.startUndoSession, Outcome.state_returned]
      split_ifs
      · exact hd
      · refine hd.of_undoStack rfl fun state hstate id ↦ ?_
        rcases List.mem_cons.mp hstate with rfl | hstate
        · rfl
        · exact hd.noneRemoved state (List.mem_of_mem_take hstate) id
  | .undo order =>
      obtain ⟨hdone, d', hreturned⟩ := htold
      simp only [call, hreturned, Outcome.state_returned]
      exact hd.undo hdone hreturned
  | .merge =>
      simp only [call, Outcome.state_map]
      refine hd.of_undoStack ?_ (hd.noneRemoved.merge rfl)
      unfold ObjectDatabase.merge
      split_ifs
      · rfl
      · rfl
      · split <;> rfl
  | .commit =>
      simp only [call, Outcome.state_map]
      unfold ObjectDatabase.commit
      split_ifs
      · exact hd
      · exact hd.of_undoStack rfl (hd.noneRemoved.of_subset (List.Subset.refl _))
  | .popCommit order =>
      obtain ⟨hdone, d', hreturned⟩ := htold
      simp only [call, hreturned, Outcome.state_returned]
      exact hd.popCommit hdone hreturned

theorem sound_initial (maxSize : ℕ) : (initial maxSize).Sound h := by
  have hnone : ∀ {α : Type} (members : AccountObject → List α),
      ({} : MemberMap α).CoherentExcept members [] ∅ := fun members a id _ ↦
    iff_of_false (Finset.notMem_empty id) fun ⟨a, ha, _⟩ ↦ by simp at ha
  exact ⟨⟨hnone _, hnone _, hnone _⟩, by simp [initial], fun state hstate ↦ by cases hstate⟩

theorem sound_of_reaches {maxSize : ℕ} (hd : Run.Reaches (step h) (Told h) (initial maxSize) d) :
    d.Sound h :=
  hd.invariant (Sound h) (sound_initial maxSize) fun _ _ hs htold ↦ hs.step htold

/-- Whenever no account is being modified, the maps are what the accounts give, in every run in
which the ends of modifications can be told; and the end of a modification brings its account
under its members exactly when it can be told. -/
theorem members_of_reaches {maxSize : ℕ} (hd : Run.Reaches (step h) (Told h) (initial maxSize) d) :
    (d.modifying = [] → d.Coherent h) ∧
      ∀ id a, (d.index.objectModified h id a).Lists h id a ↔ d.index.Tells h id a :=
  ⟨(sound_of_reaches hd).coherent_of_done, fun _ _ ↦ AccountMemberIndex.objectModified_lists_iff⟩

/-! Two accounts. The callback of a modification of the first modifies the second. -/

def noHashes : AddressHashes := ⟨fun _ _ _ ↦ 0, fun k ↦ k⟩

def alice : AccountObject := ⟨"alice", { keyAuths := [1] }, { keyAuths := [1] }, 1⟩

def bob : AccountObject := ⟨"bob", { keyAuths := [2] }, { keyAuths := [2] }, 2⟩

def aliceId : ObjectId := ⟨accountObjects, 0⟩

def bobId : ObjectId := ⟨accountObjects, 1⟩

/-- `f` is what the callback writes to the first account. -/
def nestedModification (f : AccountObject → AccountObject) : List AccountEvent :=
  [.create alice, .create bob, .beginModify aliceId, .write f, .beginModify bobId, .write fun a ↦ a,
    .endModify, .endModify]

def afterNested (f : AccountObject → AccountObject) : AccountDatabase :=
  (nestedModification f).foldl (step noHashes) (initial 16)

/-- Where the first account writes a key that neither had, its modification can be told. -/
theorem members_of_reaches_nested :
    (afterNested fun a ↦ { a with active := { keyAuths := [1, 3] } }).Coherent noHashes := by
  have hreaches : Run.Reaches (step noHashes) (Told noHashes) (initial 16)
      (afterNested fun a ↦ { a with active := { keyAuths := [1, 3] } }) := by
    refine Run.reaches_foldl ⟨trivial, trivial, trivial, trivial, trivial, trivial, ?_, ?_, trivial⟩
    · rintro id hid a ha
      obtain rfl : bobId = id := Option.some.inj hid
      obtain rfl : bob = a := Option.some.inj ((by decide +kernel : _ = some bob).symm.trans ha)
      have hsound : Sound noHashes ([.create alice, .create bob, .beginModify aliceId,
          .write fun a ↦ { a with active := { keyAuths := [1, 3] } }].foldl (step noHashes)
          (initial 16)) :=
        sound_of_reaches (Run.reaches_foldl ⟨trivial, trivial, trivial, trivial, trivial⟩)
      exact ⟨by decide +kernel, hsound.coherent.tells (by decide) (by decide +kernel)⟩
    · rintro id hid a ha
      obtain rfl : aliceId = id := Option.some.inj hid
      obtain rfl : { alice with active := { keyAuths := [1, 3] } } = a :=
        Option.some.inj ((by decide +kernel : _ = some _).symm.trans ha)
      have hsound : Sound noHashes ([.create alice, .create bob].foldl (step noHashes) (initial 16)) :=
        sound_of_reaches (Run.reaches_foldl ⟨trivial, trivial, trivial⟩)
      have halice : AccountMemberIndex.Lists noHashes ([.create alice, .create bob].foldl
          (step noHashes) (initial 16)).index aliceId alice :=
        hsound.coherent.lists List.not_mem_nil (by decide +kernel)
      have hlists : AccountMemberIndex.Lists noHashes (((([.create alice, .create bob].foldl (step noHashes)
          (initial 16)).index.aboutToModify noHashes alice).aboutToModify noHashes
          bob).objectModified noHashes bobId bob) aliceId alice :=
        AccountMemberIndex.Lists.objectModified_of_ne
          ⟨halice.accounts, halice.keys, halice.addresses⟩ (by decide)
      refine ⟨by decide +kernel, fun b ↦ .inl (hlists.accounts b), fun k ↦ ?_,
        fun b ↦ .inl (hlists.addresses b)⟩
      by_cases hk : k = 3
      · subst hk
        exact .inr ((hlists.keys 3).trans (by decide))
      · refine .inl ((hlists.keys k).trans ?_)
        simp [AccountObject.getKeyMembers, alice, hk]
  exact (members_of_reaches hreaches).1 (by decide +kernel)

/-- A key that the second account has already is added to the first and not found there. -/
theorem members_lost :
    (afterNested fun a ↦ { a with active := { keyAuths := [1, 2] } }).modifying = [] ∧
      ¬ (afterNested fun a ↦ { a with active := { keyAuths := [1, 2] } }).Coherent noHashes := by
  refine ⟨by decide +kernel, fun hcoherent ↦ ?_⟩
  have hmem := (hcoherent.keys 2 aliceId).mpr
    ⟨{ alice with active := { keyAuths := [1, 2] } }, by decide +kernel, by decide⟩
  revert hmem
  decide +kernel

end AccountDatabase

end KarmaCore.Accounts
