import Mathlib

/-!
# The database of potential peers

The records of peers are kept in the order of the times the peers were last seen and
found by their endpoints.  Between two runs of the node they are in a file.
-/

namespace KarmaCore.Net

/-- `potential_peer_record`; `data` stands for the fields the database does not look at. -/
structure PotentialPeerRecord (E D : Type*) where
  endpoint : E
  lastSeenTime : ℕ
  data : D

/-- `peer_database_impl`, and the file it was opened with; JSON reads back what it wrote. -/
structure PeerDatabase (E D : Type*) where
  potentialPeerSet : List (PotentialPeerRecord E D) := []
  file : Option (List (PotentialPeerRecord E D)) := none

/-- `MAXIMUM_PEERDB_SIZE`. -/
def maximumPeerdbSize : ℕ := 1000

variable {E D : Type*}

/-- The records go by the times the peers were last seen. -/
def Ordered (records : List (PotentialPeerRecord E D)) : Prop :=
  (records.map PotentialPeerRecord.lastSeenTime).Pairwise (· ≤ ·)

instance (records : List (PotentialPeerRecord E D)) : Decidable (Ordered records) :=
  inferInstanceAs (Decidable (List.Pairwise _ _))

/-- A new record goes behind those that were last seen at the same time. -/
def insertBySeen (record : PotentialPeerRecord E D) :
    List (PotentialPeerRecord E D) → List (PotentialPeerRecord E D)
  | [] => [record]
  | other :: records =>
      if record.lastSeenTime < other.lastSeenTime then record :: other :: records
      else other :: insertBySeen record records

variable [DecidableEq E]

namespace PeerDatabase

def find (endpoint : E) (records : List (PotentialPeerRecord E D)) :
    Option (PotentialPeerRecord E D) :=
  records.find? (·.endpoint = endpoint)

/-- `potential_peer_set::insert`: the record that is there stays. -/
def insert (records : List (PotentialPeerRecord E D)) (record : PotentialPeerRecord E D) :
    List (PotentialPeerRecord E D) :=
  if (find record.endpoint records).isSome then records else insertBySeen record records

def openFile (db : PeerDatabase E D) : PeerDatabase E D :=
  match db.file with
  | some peerRecords =>
      let potentialPeerSet := peerRecords.foldl insert db.potentialPeerSet
      { db with
        potentialPeerSet :=
          if maximumPeerdbSize < potentialPeerSet.length then
            potentialPeerSet.take maximumPeerdbSize
          else potentialPeerSet }
  | none => db

def close (db : PeerDatabase E D) : PeerDatabase E D where
  potentialPeerSet := []
  file := some db.potentialPeerSet

def clear (db : PeerDatabase E D) : PeerDatabase E D :=
  { db with potentialPeerSet := [] }

def erase (endpoint : E) (db : PeerDatabase E D) : PeerDatabase E D :=
  { db with potentialPeerSet := db.potentialPeerSet.filter (·.endpoint ≠ endpoint) }

/-- A record that is changed keeps its place as long as that is in order. -/
def updateEntry (updatedRecord : PotentialPeerRecord E D) (db : PeerDatabase E D) :
    PeerDatabase E D :=
  let modified := db.potentialPeerSet.map fun record ↦
    if record.endpoint = updatedRecord.endpoint then updatedRecord else record
  { db with
    potentialPeerSet :=
      if (find updatedRecord.endpoint db.potentialPeerSet).isSome ∧ Ordered modified then modified
      else insertBySeen updatedRecord
        (db.potentialPeerSet.filter (·.endpoint ≠ updatedRecord.endpoint)) }

def lookupEntryForEndpoint (endpoint : E) (db : PeerDatabase E D) :
    Option (PotentialPeerRecord E D) :=
  find endpoint db.potentialPeerSet

/-! ## What the set holds -/

variable {record : PotentialPeerRecord E D} {records : List (PotentialPeerRecord E D)}
  {endpoint : E} {db : PeerDatabase E D}

omit [DecidableEq E] in
theorem insertBySeen_perm (record : PotentialPeerRecord E D)
    (records : List (PotentialPeerRecord E D)) :
    (insertBySeen record records).Perm (record :: records) := by
  induction records with
  | nil => exact .refl _
  | cons other records ih =>
      simp only [insertBySeen]
      split
      · exact .refl _
      · exact (ih.cons other).trans (.swap ..)

omit [DecidableEq E] in
theorem ordered_insertBySeen (h : Ordered records) : Ordered (insertBySeen record records) := by
  induction records with
  | nil => simp [insertBySeen, Ordered]
  | cons other records ih =>
      obtain ⟨hother, hrecords⟩ := List.pairwise_cons.mp h
      simp only [insertBySeen]
      split
      · rename_i hlt
        refine List.pairwise_cons.mpr ⟨?_, h⟩
        intro time htime
        rcases List.mem_cons.mp htime with rfl | htime
        · exact hlt.le
        · exact hlt.le.trans (hother time htime)
      · rename_i hle
        refine List.pairwise_cons.mpr ⟨?_, ih hrecords⟩
        intro time htime
        obtain ⟨r, hr, rfl⟩ := List.mem_map.mp htime
        rcases List.mem_cons.mp ((insertBySeen_perm record records).mem_iff.mp hr) with rfl | hr
        · exact not_lt.mp hle
        · exact hother _ (List.mem_map_of_mem hr)

/-- No endpoint has two records, and they are in order. -/
structure Sound (records : List (PotentialPeerRecord E D)) : Prop where
  ordered : Ordered records
  distinct : (records.map PotentialPeerRecord.endpoint).Nodup

omit [DecidableEq E] in
theorem Sound.sublist {records' : List (PotentialPeerRecord E D)} (h : Sound records)
    (hsub : records'.Sublist records) : Sound records' :=
  ⟨h.ordered.sublist (hsub.map _), h.distinct.sublist (hsub.map _)⟩

theorem find_eq_some (h : (records.map PotentialPeerRecord.endpoint).Nodup) :
    find endpoint records = some record ↔ record ∈ records ∧ record.endpoint = endpoint := by
  constructor
  · intro hfind
    exact ⟨List.mem_of_find?_eq_some hfind, by simpa using List.find?_some hfind⟩
  · rintro ⟨hmem, rfl⟩
    cases hfind : find record.endpoint records with
    | none => simpa using List.find?_eq_none.mp hfind record hmem
    | some other =>
        have hsame : other.endpoint = record.endpoint := by simpa using List.find?_some hfind
        rw [List.inj_on_of_nodup_map h (List.mem_of_find?_eq_some hfind) hmem hsame]

theorem find_eq_none : find endpoint records = none ↔
    endpoint ∉ records.map PotentialPeerRecord.endpoint := by
  simp [find, List.find?_eq_none]

theorem Sound.insertBySeen (h : Sound records) (hnew : find record.endpoint records = none) :
    Sound (insertBySeen record records) ∧ ∀ endpoint,
      find endpoint (Net.insertBySeen record records) =
        if endpoint = record.endpoint then some record else find endpoint records := by
  have hperm := insertBySeen_perm record records
  have hdistinct : ((Net.insertBySeen record records).map PotentialPeerRecord.endpoint).Nodup :=
    (hperm.map _).nodup_iff.mpr (List.nodup_cons.mpr ⟨find_eq_none.mp hnew, h.distinct⟩)
  refine ⟨⟨ordered_insertBySeen h.ordered, hdistinct⟩, ?_⟩
  intro endpoint
  apply Option.ext
  intro other
  rw [find_eq_some hdistinct, hperm.mem_iff, List.mem_cons]
  split_ifs with heq
  · subst heq
    constructor
    · rintro ⟨rfl | hmem, hsame⟩
      · rfl
      · exact absurd (hsame ▸ List.mem_map_of_mem hmem) (find_eq_none.mp hnew)
    · rintro h
      cases h
      exact ⟨.inl rfl, rfl⟩
  · rw [find_eq_some h.distinct]
    constructor
    · rintro ⟨rfl | hmem, hsame⟩
      · exact absurd hsame.symm heq
      · exact ⟨hmem, hsame⟩
    · rintro ⟨hmem, hsame⟩
      exact ⟨.inr hmem, hsame⟩

theorem Sound.insert (h : Sound records) (record : PotentialPeerRecord E D) :
    Sound (insert records record) ∧ ∀ endpoint, find endpoint (insert records record) =
      (find endpoint records).or (if record.endpoint = endpoint then some record else none) := by
  unfold PeerDatabase.insert
  cases hfind : find record.endpoint records with
  | some other =>
      simp only [Option.isSome_some, if_true]
      refine ⟨h, fun endpoint ↦ ?_⟩
      by_cases heq : record.endpoint = endpoint
      · subst heq
        simp [hfind]
      · simp [heq]
  | none =>
      simp only [Option.isSome_none, Bool.false_eq_true, if_false]
      obtain ⟨hsound, hlookup⟩ := h.insertBySeen hfind
      refine ⟨hsound, fun endpoint ↦ ?_⟩
      rw [hlookup]
      by_cases heq : record.endpoint = endpoint
      · subst heq
        simp [hfind]
      · simp [heq, Ne.symm heq]

theorem Sound.foldl_insert (h : Sound records) (peerRecords : List (PotentialPeerRecord E D)) :
    Sound (peerRecords.foldl PeerDatabase.insert records) ∧ ∀ endpoint,
      find endpoint (peerRecords.foldl PeerDatabase.insert records) =
        (find endpoint records).or (find endpoint peerRecords) := by
  induction peerRecords generalizing records with
  | nil => exact ⟨h, fun endpoint ↦ by simp [find]⟩
  | cons record peerRecords ih =>
      obtain ⟨hsound, hlookup⟩ := h.insert record
      obtain ⟨hrest, hfind⟩ := ih hsound
      refine ⟨hrest, fun endpoint ↦ ?_⟩
      rw [List.foldl_cons, hfind, hlookup, Option.or_assoc]
      congr 1
      by_cases heq : record.endpoint = endpoint <;> simp [find, heq]

theorem Sound.erase (h : Sound records) (erased : E) :
    Sound (records.filter (·.endpoint ≠ erased)) ∧ ∀ endpoint,
      find endpoint (records.filter (·.endpoint ≠ erased)) =
        if endpoint = erased then none else find endpoint records := by
  have hsound := h.sublist (List.filter_sublist (p := fun r ↦ decide (r.endpoint ≠ erased)))
  refine ⟨hsound, fun endpoint ↦ ?_⟩
  apply Option.ext
  intro other
  rw [find_eq_some hsound.distinct, List.mem_filter]
  split_ifs with heq
  · subst heq
    simp only [decide_eq_true_eq, iff_false]
    rintro ⟨⟨-, hne⟩, hsame⟩
    exact hne hsame
  · rw [find_eq_some h.distinct, decide_eq_true_eq]
    constructor
    · rintro ⟨⟨hmem, -⟩, hsame⟩
      exact ⟨hmem, hsame⟩
    · rintro ⟨hmem, rfl⟩
      exact ⟨⟨hmem, heq⟩, rfl⟩

theorem Sound.update (h : Sound records) (updatedRecord : PotentialPeerRecord E D)
    (file : Option (List (PotentialPeerRecord E D))) :
    Sound (updateEntry updatedRecord ⟨records, file⟩).potentialPeerSet ∧ ∀ endpoint,
      find endpoint (updateEntry updatedRecord ⟨records, file⟩).potentialPeerSet =
        if endpoint = updatedRecord.endpoint then some updatedRecord
        else find endpoint records := by
  simp only [updateEntry]
  split_ifs with hplace
  · -- the record keeps its place, and no endpoint changes
    obtain ⟨hpresent, hordered⟩ := hplace
    have hendpoints : (records.map fun record ↦
        if record.endpoint = updatedRecord.endpoint then updatedRecord else record).map
          PotentialPeerRecord.endpoint = records.map PotentialPeerRecord.endpoint := by
      rw [List.map_map]
      apply List.map_congr_left
      intro record _
      by_cases heq : record.endpoint = updatedRecord.endpoint <;> simp [heq]
    refine ⟨⟨hordered, hendpoints ▸ h.distinct⟩, fun endpoint ↦ ?_⟩
    apply Option.ext
    intro other
    rw [find_eq_some (hendpoints ▸ h.distinct), List.mem_map]
    split_ifs with heq
    · subst heq
      obtain ⟨old, hold⟩ := Option.isSome_iff_exists.mp hpresent
      obtain ⟨hmem, hsame⟩ := (find_eq_some h.distinct).mp hold
      constructor
      · rintro ⟨⟨record, -, rfl⟩, hother⟩
        by_cases hrecord : record.endpoint = updatedRecord.endpoint
        · rw [if_pos hrecord]
        · rw [if_neg hrecord] at hother
          exact absurd hother hrecord
      · intro hother
        cases hother
        exact ⟨⟨old, hmem, if_pos hsame⟩, rfl⟩
    · rw [find_eq_some h.distinct]
      constructor
      · rintro ⟨⟨record, hmem, rfl⟩, hother⟩
        by_cases hrecord : record.endpoint = updatedRecord.endpoint
        · rw [if_pos hrecord] at hother
          exact absurd hother.symm heq
        · rw [if_neg hrecord] at hother ⊢
          exact ⟨hmem, hother⟩
      · rintro ⟨hmem, rfl⟩
        exact ⟨⟨other, hmem, if_neg heq⟩, rfl⟩
  · obtain ⟨herased, hlookup⟩ := h.erase updatedRecord.endpoint
    have hnew : find updatedRecord.endpoint
        (records.filter (·.endpoint ≠ updatedRecord.endpoint)) = none := by
      rw [hlookup, if_pos rfl]
    obtain ⟨hsound, hinsert⟩ := herased.insertBySeen hnew
    refine ⟨hsound, fun endpoint ↦ ?_⟩
    rw [hinsert, hlookup]
    split_ifs <;> rfl

/-! ## What it is for -/

/-- The records of peers by their endpoints, and those saved when the node last closed. -/
structure PeerBook (E D : Type*) where
  known : E → Option (PotentialPeerRecord E D)
  saved : Option (E → Option (PotentialPeerRecord E D))

/-- `kept` are `maximumPeerdbSize` of the peers known, and the others were seen no earlier. -/
structure Pruned (known : E → Option (PotentialPeerRecord E D)) (kept : List E) : Prop where
  nodup : kept.Nodup
  length_eq : kept.length = maximumPeerdbSize
  isSome : ∀ endpoint ∈ kept, (known endpoint).isSome
  earliest : ∀ old new, old.endpoint ∈ kept → new.endpoint ∉ kept →
    known old.endpoint = some old → known new.endpoint = some new →
      old.lastSeenTime ≤ new.lastSeenTime

/-- The calls made on the database. -/
inductive Event (E D : Type*)
  | opened
  | closed
  | cleared
  | erased (endpoint : E)
  | updated (record : PotentialPeerRecord E D)

/-- What a call does to the book: opening it loses peers only to come down to the bound. -/
inductive PeerBook.Step : Event E D → PeerBook E D → PeerBook E D → Prop
  | fresh (known) : Step .opened ⟨known, none⟩ ⟨known, none⟩
  | opened (known saved) : Step .opened ⟨known, some saved⟩
      ⟨fun endpoint ↦ (known endpoint).or (saved endpoint), some saved⟩
  | pruned (known saved kept)
      (h : Pruned (fun endpoint ↦ (known endpoint).or (saved endpoint)) kept) :
      Step .opened ⟨known, some saved⟩
        ⟨fun endpoint ↦ if endpoint ∈ kept then (known endpoint).or (saved endpoint) else none,
          some saved⟩
  | closed (book) : Step .closed book ⟨fun _ ↦ none, some book.known⟩
  | cleared (book) : Step .cleared book { book with known := fun _ ↦ none }
  | erased (book endpoint) : Step (.erased endpoint) book
      { book with known := fun other ↦ if other = endpoint then none else book.known other }
  | updated (book record) : Step (.updated record) book
      { book with
        known := fun other ↦ if other = record.endpoint then some record else book.known other }

/-- The call itself. -/
def step (db : PeerDatabase E D) : Event E D → PeerDatabase E D
  | .opened => openFile db
  | .closed => close db
  | .cleared => clear db
  | .erased endpoint => erase endpoint db
  | .updated record => updateEntry record db

def run (events : List (Event E D)) : PeerDatabase E D := events.foldl step {}

/-- The book the database stands for. -/
def book (db : PeerDatabase E D) : PeerBook E D where
  known := fun endpoint ↦ lookupEntryForEndpoint endpoint db
  saved := db.file.map fun records endpoint ↦ find endpoint records

theorem book_mk {known : E → Option (PotentialPeerRecord E D)}
    (file : Option (List (PotentialPeerRecord E D)))
    (h : ∀ endpoint, find endpoint records = known endpoint) :
    book ⟨records, file⟩ = ⟨known, file.map fun saved endpoint ↦ find endpoint saved⟩ := by
  rw [book, ← funext h]
  rfl

/-- The set in memory and the one in the file are both sound. -/
structure Good (db : PeerDatabase E D) : Prop where
  memory : Sound db.potentialPeerSet
  file : ∀ records ∈ db.file, Sound records

omit [DecidableEq E] in
theorem sound_nil : Sound ([] : List (PotentialPeerRecord E D)) :=
  ⟨List.Pairwise.nil, List.nodup_nil⟩

/-- What `take` keeps of a sound set. -/
theorem Sound.take (h : Sound records) (hlong : maximumPeerdbSize < records.length) :
    Pruned (fun endpoint ↦ find endpoint records)
        ((records.take maximumPeerdbSize).map PotentialPeerRecord.endpoint) ∧
      ∀ endpoint, find endpoint (records.take maximumPeerdbSize) =
        if endpoint ∈ (records.take maximumPeerdbSize).map PotentialPeerRecord.endpoint then
          find endpoint records
        else none := by
  have hkept := h.sublist (List.take_sublist maximumPeerdbSize records)
  have hmem : ∀ record ∈ records, record.endpoint ∈
      (records.take maximumPeerdbSize).map PotentialPeerRecord.endpoint →
        record ∈ records.take maximumPeerdbSize := by
    intro record hrecord hendpoint
    obtain ⟨other, hother, hsame⟩ := List.mem_map.mp hendpoint
    rwa [← List.inj_on_of_nodup_map h.distinct (List.mem_of_mem_take hother) hrecord hsame]
  refine ⟨⟨hkept.distinct, ?_, ?_, ?_⟩, ?_⟩
  · rw [List.length_map, List.length_take, min_eq_left hlong.le]
  · intro endpoint hendpoint
    obtain ⟨record, hrecord, rfl⟩ := List.mem_map.mp hendpoint
    exact Option.isSome_iff_exists.mpr
      ⟨record, (find_eq_some h.distinct).mpr ⟨List.mem_of_mem_take hrecord, rfl⟩⟩
  · intro old new hold hnew hfindOld hfindNew
    have holdMem := hmem old ((find_eq_some h.distinct).mp hfindOld).1 hold
    have hnewMem := ((find_eq_some h.distinct).mp hfindNew).1
    have hordered := h.ordered
    rw [Ordered, ← List.take_append_drop maximumPeerdbSize records, List.map_append,
      List.pairwise_append] at hordered
    rw [← List.take_append_drop maximumPeerdbSize records, List.mem_append] at hnewMem
    rcases hnewMem with hkeptNew | hdropped
    · exact absurd (List.mem_map_of_mem hkeptNew) hnew
    · exact hordered.2.2 _ (List.mem_map_of_mem holdMem) _ (List.mem_map_of_mem hdropped)
  · intro endpoint
    split_ifs with hendpoint
    · apply Option.ext
      intro record
      rw [find_eq_some hkept.distinct, find_eq_some h.distinct]
      constructor
      · rintro ⟨hrecord, hsame⟩
        exact ⟨List.mem_of_mem_take hrecord, hsame⟩
      · rintro ⟨hrecord, rfl⟩
        exact ⟨hmem record hrecord hendpoint, rfl⟩
    · exact find_eq_none.mpr hendpoint

/-- Every call keeps the database sound and does to the book what it is for. -/
theorem Good.step (h : Good db) (event : Event E D) :
    Good (step db event) ∧ PeerBook.Step event (book db) (book (step db event)) := by
  obtain ⟨records, file⟩ := db
  cases event with
  | opened =>
      cases file with
      | none => exact ⟨h, .fresh _⟩
      | some saved =>
          obtain ⟨hsound, hlookup⟩ := h.memory.foldl_insert saved
          by_cases hlong : maximumPeerdbSize < (saved.foldl PeerDatabase.insert records).length
          · obtain ⟨hpruned, hkept⟩ := hsound.take hlong
            simp only [PeerDatabase.step, openFile, if_pos hlong]
            refine ⟨⟨hsound.sublist (List.take_sublist _ _), h.file⟩, ?_⟩
            simp only [hlookup] at hpruned hkept
            rw [book_mk (some saved) hkept]
            exact .pruned _ _ _ hpruned
          · simp only [PeerDatabase.step, openFile, if_neg hlong]
            refine ⟨⟨hsound, h.file⟩, ?_⟩
            rw [book_mk (some saved) hlookup]
            exact .opened _ _
  | closed =>
      refine ⟨⟨sound_nil, ?_⟩, .closed _⟩
      intro saved hsaved
      cases hsaved
      exact h.memory
  | cleared => exact ⟨⟨sound_nil, h.file⟩, .cleared _⟩
  | erased endpoint =>
      obtain ⟨hsound, hlookup⟩ := h.memory.erase endpoint
      simp only [PeerDatabase.step, PeerDatabase.erase]
      refine ⟨⟨hsound, h.file⟩, ?_⟩
      rw [book_mk file hlookup]
      exact .erased _ _
  | updated record =>
      obtain ⟨hsound, hlookup⟩ := h.memory.update record file
      refine ⟨⟨hsound, h.file⟩, ?_⟩
      have hbook := book_mk file hlookup
      exact hbook ▸ .updated _ _

/-- The runs of the book: one step a call. -/
inductive PeerBook.Run : List (Event E D) → PeerBook E D → Prop
  | nil : Run [] ⟨fun _ ↦ none, none⟩
  | snoc {events event before after} (h : Run events before)
      (hstep : PeerBook.Step event before after) : Run (events ++ [event]) after

theorem good_run (events : List (Event E D)) :
    Good (run events) ∧ PeerBook.Run events (book (run events)) := by
  induction events using List.reverseRecOn with
  | nil =>
      refine ⟨⟨sound_nil, ?_⟩, .nil⟩
      intro records hrecords
      cases hrecords
  | append_singleton events event ih =>
      obtain ⟨hgood, hrun⟩ := ih
      obtain ⟨hstep, hbook⟩ := hgood.step event
      rw [run, List.foldl_append]
      exact ⟨hstep, hrun.snoc hbook⟩

/-- Whatever calls are made, the database does what a book of records by their endpoints does,
and goes by the times the peers were last seen with one record an endpoint.  Opening it never
leaves out a peer for one that was seen later. -/
theorem book_of_run (events : List (Event E D)) :
    PeerBook.Run events (book (run events)) ∧
      ((run events).potentialPeerSet.map PotentialPeerRecord.lastSeenTime).Pairwise (· ≤ ·) ∧
      ((run events).potentialPeerSet.map PotentialPeerRecord.endpoint).Nodup := by
  obtain ⟨hgood, hrun⟩ := good_run events
  exact ⟨hrun, hgood.memory.ordered, hgood.memory.distinct⟩

end PeerDatabase

end KarmaCore.Net
