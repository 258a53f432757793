import Mathlib
import KarmaCore.Lib.LinkedHistory
import KarmaCore.Lib.ObjectIndex
import KarmaCore.Lib.Run
import KarmaCore.Protocol.Asset

/-!
# The histories of accounts

The account history plugin keeps, for every account that is tracked, its last operations
as entries that are numbered and linked.  An operation object is shared by the entries of
all accounts that the operation concerns.
-/

namespace KarmaCore.AccountHistory

open LinkedHistory

structure AccountTransactionHistoryObject where
  account : AccountId
  operationId : ℕ
  sequence : UInt32
  next : ℕ
  deriving DecidableEq

/-- `account_transaction_history_id_type()`. -/
def noEntry : ℕ := 0

structure AccountStatistics where
  mostRecentOp : ℕ := noEntry
  totalOps : UInt32 := 0
  removedOps : UInt32 := 0
  deriving DecidableEq

structure Options where
  trackedAccounts : Finset AccountId := ∅
  partialOperations : Bool := false
  maxOpsPerAccount : UInt32 := 4294967295

variable {Operation : Type}

/-- The operation objects, the entries, and the statistics of the accounts that exist. -/
structure HistoryState (Operation : Type) where
  operations : ObjectIndex Operation
  entries : ObjectIndex AccountTransactionHistoryObject
  statistics : AccountId → Option AccountStatistics

namespace HistoryState

def empty : HistoryState Operation := ⟨.empty, .empty, fun _ ↦ none⟩

/-- `_oho_index->use_next_id()`. -/
def useNextId (s : HistoryState Operation) : HistoryState Operation :=
  { s with operations := { s.operations with
      nextId := s.operations.nextId + 1
      fresh := fun o ho ↦ (s.operations.fresh o ho).trans (Nat.lt_succ_self _) } }

/-- The entries of an account, the oldest first. -/
def entriesOf (a : AccountId) (s : HistoryState Operation) :
    List (ℕ × AccountTransactionHistoryObject) :=
  s.entries.matching fun entry ↦ entry.account = a

/-- The entries of an account in the index `by_seq`. -/
def bySeq (a : AccountId) (s : HistoryState Operation) :
    List (ℕ × AccountTransactionHistoryObject) :=
  s.entries.select (fun _ entry ↦ entry.account = a) fun entry entry' ↦
    entry'.sequence < entry.sequence

/-- The keys of the indexes `by_seq` and `by_op` are unique. -/
def Taken (entry : AccountTransactionHistoryObject) (s : HistoryState Operation) : Prop :=
  ∃ o ∈ s.entries.objects, o.2.account = entry.account ∧
    (o.2.sequence = entry.sequence ∨ o.2.operationId = entry.operationId)

instance (entry : AccountTransactionHistoryObject) (s : HistoryState Operation) :
    Decidable (s.Taken entry) := inferInstanceAs (Decidable (∃ o ∈ s.entries.objects, _))

def modifyStatistics (a : AccountId) (stats : AccountStatistics) (s : HistoryState Operation) :
    HistoryState Operation :=
  { s with statistics := Function.update s.statistics a (some stats) }

def newEntry (a : AccountId) (opId : ℕ) (stats : AccountStatistics) :
    AccountTransactionHistoryObject where
  account := a
  operationId := opId
  sequence := stats.totalOps + 1
  next := stats.mostRecentOp

/-- The new entry and the statistics that name it. -/
def createEntry (a : AccountId) (opId : ℕ) (stats : AccountStatistics)
    (s : HistoryState Operation) : Option (HistoryState Operation × AccountStatistics) :=
  let entry := newEntry a opId stats
  if s.Taken entry then none
  else
    let stats := { stats with mostRecentOp := s.entries.nextId, totalOps := entry.sequence }
    some (({ s with entries := s.entries.create entry } : HistoryState _).modifyStatistics a stats,
      stats)

/-- The operation object goes when no entry refers to it. -/
def removeOperation (opId : ℕ) (s : HistoryState Operation) : Option (HistoryState Operation) :=
  if ∃ o ∈ s.entries.objects, o.2.operationId = opId then some s
  else
    match s.operations.find opId with
    | none => none
    | some _ => some { s with operations := s.operations.remove opId }

/-- The entry after the removed one leads nowhere now. -/
def unlink (rest : List (ℕ × AccountTransactionHistoryObject)) (s : HistoryState Operation) :
    HistoryState Operation :=
  match rest with
  | [] => s
  | (id, entry) :: _ => { s with entries := s.entries.set id { entry with next := noEntry } }

/-- The earliest entry goes, unless it is the new one. -/
def removeEarliest (o : Options) (a : AccountId) (newId : ℕ) (stats : AccountStatistics)
    (s : HistoryState Operation) : Option (HistoryState Operation) :=
  match s.bySeq a with
  | [] => some s
  | (id, entry) :: rest =>
    if id = newId then some s
    else
      let s := { s with entries := s.entries.remove id }
      let s := s.modifyStatistics a { stats with removedOps := stats.removedOps + 1 }
      let s := s.unlink rest
      if o.partialOperations then s.removeOperation entry.operationId else some s

def addAccountHistory (o : Options) (a : AccountId) (opId : ℕ) (s : HistoryState Operation) :
    Option (HistoryState Operation) := do
  let stats ← s.statistics a
  let newId := s.entries.nextId
  let (s, stats) ← s.createEntry a opId stats
  if o.maxOpsPerAccount < stats.totalOps - stats.removedOps then
    s.removeEarliest o a newId stats
  else some s

/-- `create_oho`, unless there is one; the operation object's id. -/
def ensureOho (op : Operation) (oho : Option ℕ) (s : HistoryState Operation) :
    ℕ × HistoryState Operation :=
  match oho with
  | some id => (id, s)
  | none => (s.operations.nextId, { s with operations := s.operations.create op })

/-- The histories of some accounts, with an operation object from the first on. -/
def addHistories (o : Options) (op : Operation) :
    List AccountId → Option ℕ → HistoryState Operation →
      Option (Option ℕ × HistoryState Operation)
  | [], oho, s => some (oho, s)
  | a :: as, oho, s => do
      let (opId, s) := s.ensureOho op oho
      let s ← s.addAccountHistory o a opId
      addHistories o op as (some opId) s

/-- The histories that an operation goes into. -/
def recordOperation (o : Options) (impacted : Finset AccountId) (op : Operation)
    (oho : Option ℕ) (s : HistoryState Operation) : Option (Option ℕ × HistoryState Operation) :=
  if o.trackedAccounts = ∅ then
    let (oho, s) := if impacted.Nonempty then (s.ensureOho op oho).map some id else (oho, s)
    if 0 < o.maxOpsPerAccount then addHistories o op (impacted.sort (· ≤ ·)) oho s
    else some (oho, s)
  else if 0 < o.maxOpsPerAccount then
    addHistories o op ((o.trackedAccounts.sort (· ≤ ·)).filter (· ∈ impacted)) oho s
  else some (oho, s)

/-- The body of the loop of `update_account_histories`; there is no result where it throws. -/
def updateAccountHistories (o : Options) (impacted : Operation → Finset AccountId)
    (op : Option Operation) (s : HistoryState Operation) : Option (HistoryState Operation) :=
  match op with
  | none => some s.useNextId
  | some op =>
    if o.maxOpsPerAccount = 0 ∧ o.partialOperations then some s.useNextId
    else do
      let (oho, s) :=
        if o.partialOperations then (none, s) else (s.ensureOho op none).map some id
      let (oho, s) ← recordOperation o (impacted op) op oho s
      if o.partialOperations ∧ oho = none then some s.useNextId else some s

end HistoryState

/-! ## The history of one account -/

/-- What the entries of an account, the oldest first, and its statistics are to be. -/
structure RightHistory (most : ℕ) (entries : List (ℕ × AccountTransactionHistoryObject))
    (stats : AccountStatistics) : Prop where
  sequences : NumberedFrom (fun entry ↦ entry.sequence.toNat) (stats.removedOps.toNat + 1) entries
  total : stats.removedOps.toNat + entries.length = stats.totalOps.toNat
  linked : Linked AccountTransactionHistoryObject.next noEntry entries
  mostRecent : stats.mostRecentOp = newest noEntry entries
  few : entries.length ≤ most

variable {most newId opId : ℕ} {a b : AccountId} {stats stats' : AccountStatistics}
  {entries : List (ℕ × AccountTransactionHistoryObject)}

theorem toNat_succ {n : UInt32} (h : n.toNat + 1 < 2 ^ 32) : (n + 1).toNat = n.toNat + 1 := by
  rw [UInt32.toNat_add]
  exact Nat.mod_eq_of_lt h

namespace RightHistory

theorem fresh : RightHistory most [] {} := ⟨rfl, rfl, trivial, rfl, Nat.zero_le most⟩

/-- The difference of the counters is the number of entries. -/
theorem toNat_sub (h : RightHistory most entries stats) :
    (stats.totalOps - stats.removedOps).toNat = entries.length := by
  have htotal := h.total
  rw [UInt32.toNat_sub_of_le]
  · omega
  · rw [UInt32.le_iff_toNat_le]
    omega

theorem append (h : RightHistory most entries stats) (hroom : stats.totalOps.toNat + 1 < 2 ^ 32) :
    RightHistory (most + 1)
      (entries ++ [(newId, HistoryState.newEntry a opId stats)])
      { stats with mostRecentOp := newId, totalOps := stats.totalOps + 1 } where
  sequences := by
    rw [numberedFrom_append]
    refine ⟨h.sequences, ?_⟩
    have htotal := h.total
    simp only [HistoryState.newEntry, toNat_succ hroom]
    omega
  total := by
    have htotal := h.total
    simp only [toNat_succ hroom, List.length_append, List.length_singleton]
    omega
  linked := linked_append.mpr ⟨h.linked, h.mostRecent⟩
  mostRecent := by rw [newest_append]
  few := by
    rw [List.length_append, List.length_singleton]
    exact Nat.succ_le_succ h.few

/-- The entry after the oldest becomes the oldest. -/
theorem dropOldest {first second : ℕ × AccountTransactionHistoryObject}
    (h : RightHistory (most + 1) (first :: second :: entries) stats) :
    RightHistory most ((second.1, { second.2 with next := noEntry }) :: entries)
      { stats with removedOps := stats.removedOps + 1 } := by
  have htotal := h.total
  have hlt := stats.totalOps.toNat_lt
  have hremoved : (stats.removedOps + 1).toNat = stats.removedOps.toNat + 1 := by
    apply toNat_succ
    simp only [List.length_cons] at htotal
    omega
  refine ⟨?_, ?_, ⟨rfl, h.linked.2.2⟩, ?_, ?_⟩
  · rw [hremoved]
    exact h.sequences.tail
  · rw [hremoved]
    simp only [List.length_cons] at htotal ⊢
    omega
  · simpa using h.mostRecent
  · simpa using h.few

end RightHistory

/-! ## One more entry -/

namespace HistoryState

variable {o : Options} {s s' : HistoryState Operation} {impacted : Operation → Finset AccountId}

/-- Every account has the history it is to have, and every entry its operation object. -/
structure Right (o : Options) (s : HistoryState Operation) : Prop where
  histories : ∀ a stats, s.statistics a = some stats →
    RightHistory o.maxOpsPerAccount.toNat (s.entriesOf a) stats
  nothing : ∀ a, s.statistics a = none → s.entriesOf a = []
  operations : ∀ id entry, s.entries.find id = some entry →
    (s.operations.find entry.operationId).isSome

/-- The same, but one account may have an entry too many. -/
structure RightBut (o : Options) (a : AccountId) (stats : AccountStatistics)
    (s : HistoryState Operation) : Prop where
  here : s.statistics a = some stats
  history : RightHistory (o.maxOpsPerAccount.toNat + 1) (s.entriesOf a) stats
  histories : ∀ b ≠ a, ∀ stats, s.statistics b = some stats →
    RightHistory o.maxOpsPerAccount.toNat (s.entriesOf b) stats
  nothing : ∀ b, s.statistics b = none → s.entriesOf b = []
  operations : ∀ id entry, s.entries.find id = some entry →
    (s.operations.find entry.operationId).isSome

theorem RightBut.right (hs : s.RightBut o a stats)
    (hfew : (s.entriesOf a).length ≤ o.maxOpsPerAccount.toNat) : s.Right o where
  histories b stats' hb := by
    by_cases heq : b = a
    · subst heq
      obtain rfl := Option.some.inj (hs.here.symm.trans hb)
      exact ⟨hs.history.sequences, hs.history.total, hs.history.linked, hs.history.mostRecent, hfew⟩
    · exact hs.histories b heq stats' hb
  nothing := hs.nothing
  operations := hs.operations

/-- The entries of an account in the order of `by_seq` are those in the order of their ids. -/
theorem bySeq_eq {n : ℕ}
    (h : NumberedFrom (fun entry ↦ entry.sequence.toNat) n (s.entriesOf a)) :
    s.bySeq a = s.entriesOf a := by
  refine List.Pairwise.insertionSort_eq (h.pairwise.imp fun hlt ↦ ?_)
  dsimp only
  rw [UInt32.lt_iff_toNat_lt]
  exact hlt.le.not_gt

theorem createEntry_spec (hs : s.Right o) (hop : (s.operations.find opId).isSome)
    (hstats : s.statistics a = some stats) (hroom : stats.totalOps.toNat + 1 < 2 ^ 32)
    (h : s.createEntry a opId stats = some (s', stats')) :
    s'.RightBut o a stats' ∧ (∃ entry, entry.operationId = opId ∧
      s'.entriesOf a = s.entriesOf a ++ [(s.entries.nextId, entry)]) ∧
      s'.operations = s.operations ∧ ∀ b ≠ a, s'.statistics b = s.statistics b := by
  unfold createEntry at h
  dsimp only at h
  split_ifs at h with htaken
  simp only [Option.some.injEq, Prod.mk.injEq] at h
  obtain ⟨rfl, rfl⟩ := h
  have hcreate : ∀ b, (s.entries.create (newEntry a opId stats)).matching
      (fun entry ↦ entry.account = b) = s.entriesOf b ++
        if a = b then [(s.entries.nextId, newEntry a opId stats)] else [] :=
    fun b ↦ ObjectIndex.matching_create
  have hhere : (s.entries.create (newEntry a opId stats)).matching (fun entry ↦ entry.account = a) =
      s.entriesOf a ++ [(s.entries.nextId, newEntry a opId stats)] := by rw [hcreate, if_pos rfl]
  have hother : ∀ b ≠ a, (s.entries.create (newEntry a opId stats)).matching
      (fun entry ↦ entry.account = b) = s.entriesOf b := fun b hb ↦ by
    rw [hcreate, if_neg (Ne.symm hb), List.append_nil]
  have hsame : ∀ b ≠ a, Function.update s.statistics a (some
      { stats with mostRecentOp := s.entries.nextId, totalOps := stats.totalOps + 1 }) b =
        s.statistics b := fun b hb ↦ Function.update_of_ne hb _ _
  refine ⟨⟨Function.update_self _ _ _, ?_, fun b hb stats' hstats' ↦ ?_, fun b hb ↦ ?_,
    fun id entry hentry ↦ ?_⟩, ⟨newEntry a opId stats, rfl, hhere⟩, rfl, hsame⟩
  · have happend : RightHistory _ (s.entriesOf a ++ [(s.entries.nextId, newEntry a opId stats)]) _ :=
      (hs.histories a stats hstats).append hroom
    rw [← hhere] at happend
    exact happend
  · have hright := hs.histories b stats' ((hsame b hb).symm.trans hstats')
    rw [← hother b hb] at hright
    exact hright
  · have hne : b ≠ a := by
      rintro rfl
      exact absurd ((Function.update_self _ _ _).symm.trans hb) (by simp)
    exact (hother b hne).trans (hs.nothing b ((hsame b hne).symm.trans hb))
  · have hcases : (if id = s.entries.nextId then some (newEntry a opId stats)
        else s.entries.find id) = some entry := ObjectIndex.find_create.symm.trans hentry
    split_ifs at hcases
    · obtain rfl := Option.some.inj hcases
      exact hop
    · exact hs.operations id entry hcases

/-! ## One entry less -/

variable {first second : ℕ × AccountTransactionHistoryObject}
  {rest : List (ℕ × AccountTransactionHistoryObject)}

/-- The state after the first two edits: the oldest entry is gone, and the next one is the oldest. -/
def withoutOldest (a : AccountId) (stats : AccountStatistics)
    (first second : ℕ × AccountTransactionHistoryObject) (s : HistoryState Operation) :
    HistoryState Operation :=
  { s with entries := (s.entries.remove first.1).set second.1 { second.2 with next := noEntry }
           statistics := Function.update s.statistics a (some
             { stats with removedOps := stats.removedOps + 1 }) }

theorem statistics_withoutOldest : (s.withoutOldest a stats first second).statistics a =
    some { stats with removedOps := stats.removedOps + 1 } := Function.update_self _ _ _

theorem statistics_withoutOldest_of_ne (hb : b ≠ a) :
    (s.withoutOldest a stats first second).statistics b = s.statistics b :=
  Function.update_of_ne hb _ _

theorem entriesOf_withoutOldest (ha : s.entriesOf a = first :: second :: rest) :
    (s.withoutOldest a stats first second).entriesOf a =
      (second.1, { second.2 with next := noEntry }) :: rest := by
  have hremoved := ObjectIndex.matching_remove_head ha
  have hsecond := (ObjectIndex.mem_matching.mp (hremoved ▸ List.mem_cons_self :
    second ∈ (s.entries.remove first.1).matching fun entry ↦ entry.account = a)).2
  exact ObjectIndex.matching_set_head hremoved hsecond

theorem entriesOf_withoutOldest_of_ne (ha : s.entriesOf a = first :: second :: rest) (hb : b ≠ a) :
    (s.withoutOldest a stats first second).entriesOf b = s.entriesOf b := by
  have hremoved := ObjectIndex.matching_remove_head ha
  obtain ⟨hfirst, hfirstAccount⟩ := ObjectIndex.mem_matching.mp
    (ha ▸ List.mem_cons_self : first ∈ s.entriesOf a)
  obtain ⟨hsecond, hsecondAccount⟩ := ObjectIndex.mem_matching.mp
    (hremoved ▸ List.mem_cons_self :
      second ∈ (s.entries.remove first.1).matching fun entry ↦ entry.account = a)
  have hne : ∀ entry : AccountTransactionHistoryObject, entry.account = a → entry.account ≠ b :=
    fun entry hentry heq ↦ hb (heq.symm.trans hentry)
  unfold withoutOldest entriesOf
  dsimp only
  rw [ObjectIndex.matching_set_of_not hsecond (hne _ hsecondAccount) (hne _ hsecondAccount),
    ObjectIndex.matching_remove_of_not hfirst (hne _ hfirstAccount)]

/-- The entries that are left refer to the operations they referred to. -/
theorem find_withoutOldest {id : ℕ} {entry : AccountTransactionHistoryObject}
    (ha : s.entriesOf a = first :: second :: rest)
    (hentry : (s.withoutOldest a stats first second).entries.find id = some entry) :
    ∃ entry', s.entries.find id = some entry' ∧ entry'.operationId = entry.operationId := by
  have hremoved := ObjectIndex.matching_remove_head ha
  have hsecond := (ObjectIndex.mem_matching.mp (hremoved ▸ List.mem_cons_self :
    second ∈ (s.entries.remove first.1).matching fun entry ↦ entry.account = a)).1
  have hcases := (ObjectIndex.find_set hsecond).symm.trans hentry
  split_ifs at hcases with hid
  · obtain rfl := Option.some.inj hcases
    rw [ObjectIndex.find_remove] at hsecond
    split_ifs at hsecond
    exact ⟨second.2, hid ▸ hsecond, rfl⟩
  · rw [ObjectIndex.find_remove] at hcases
    split_ifs at hcases
    exact ⟨entry, hcases, rfl⟩

/-- The newest entry stays, and refers to the operation it referred to. -/
theorem newest_withoutOldest {entry : AccountTransactionHistoryObject}
    (ha : s.entriesOf a = first :: second :: rest) (hentry : (newId, entry) ∈ second :: rest) :
    ∃ entry', (s.withoutOldest a stats first second).entries.find newId = some entry' ∧
      entry'.operationId = entry.operationId := by
  have hmem : ∃ entry', (newId, entry') ∈
      (second.1, { second.2 with next := noEntry }) :: rest ∧
        entry'.operationId = entry.operationId := by
    rcases List.mem_cons.mp hentry with rfl | hrest
    · exact ⟨_, List.mem_cons_self, rfl⟩
    · exact ⟨entry, List.mem_cons_of_mem _ hrest, rfl⟩
  obtain ⟨entry', hmem, heq⟩ := hmem
  rw [← entriesOf_withoutOldest ha] at hmem
  exact ⟨entry', (ObjectIndex.mem_matching.mp hmem).1, heq⟩

theorem withoutOldest_right (hs : s.RightBut o a stats)
    (ha : s.entriesOf a = first :: second :: rest) :
    (s.withoutOldest a stats first second).Right o where
  histories b stats' hb := by
    by_cases heq : b = a
    · subst heq
      obtain rfl := Option.some.inj (statistics_withoutOldest.symm.trans hb)
      rw [entriesOf_withoutOldest ha]
      have hhistory := hs.history
      rw [ha] at hhistory
      exact hhistory.dropOldest
    · rw [entriesOf_withoutOldest_of_ne ha heq]
      exact hs.histories b heq stats' ((statistics_withoutOldest_of_ne heq).symm.trans hb)
  nothing b hb := by
    have hne : b ≠ a := by
      rintro rfl
      exact absurd (statistics_withoutOldest.symm.trans hb) (by simp)
    rw [entriesOf_withoutOldest_of_ne ha hne]
    exact hs.nothing b ((statistics_withoutOldest_of_ne hne).symm.trans hb)
  operations id entry hentry := by
    obtain ⟨entry', hentry', heq⟩ := find_withoutOldest ha hentry
    exact heq ▸ hs.operations id entry' hentry'

/-- An operation that an entry refers to keeps its object. -/
theorem removeOperation_spec {removedId : ℕ} (h : s.removeOperation removedId = some s') :
    s'.entries = s.entries ∧ s'.statistics = s.statistics ∧
      ∀ id entry, s.entries.find id = some entry → (s.operations.find entry.operationId).isSome →
        (s'.operations.find entry.operationId).isSome := by
  unfold removeOperation at h
  split_ifs at h with hreferred
  · obtain rfl := Option.some.inj h
    exact ⟨rfl, rfl, fun _ _ _ hop ↦ hop⟩
  · split at h
    · cases h
    · obtain rfl := Option.some.inj h
      refine ⟨rfl, rfl, fun id entry hentry hop ↦ ?_⟩
      have hne : entry.operationId ≠ removedId := fun heq ↦
        hreferred ⟨(id, entry), ObjectIndex.find_eq_some.mp hentry, heq⟩
      rw [ObjectIndex.find_remove, if_neg hne]
      exact hop

theorem Right.removeOperation {removedId : ℕ} (hs : s.Right o)
    (h : s.removeOperation removedId = some s') : s'.Right o := by
  obtain ⟨hentries, hstatistics, hoperations⟩ := removeOperation_spec h
  have heq : ∀ b, s'.entriesOf b = s.entriesOf b := fun b ↦ by
    unfold entriesOf
    rw [hentries]
  refine ⟨fun b stats hb ↦ ?_, fun b hb ↦ ?_, fun id entry hentry ↦ ?_⟩
  · rw [heq]
    exact hs.histories b stats (hstatistics ▸ hb)
  · rw [heq]
    exact hs.nothing b (hstatistics ▸ hb)
  · rw [hentries] at hentry
    exact hoperations id entry hentry (hs.operations id entry hentry)

theorem Right.removeEarliest {entry : AccountTransactionHistoryObject} (hs : s.RightBut o a stats)
    (ha : s.entriesOf a = first :: rest ++ [(newId, entry)])
    (h : s.removeEarliest o a newId stats = some s') :
    s'.Right o ∧ (∀ b ≠ a, s'.statistics b = s.statistics b) ∧
      ((s.operations.find entry.operationId).isSome →
        (s'.operations.find entry.operationId).isSome) := by
  obtain ⟨second, tail, hrest⟩ : ∃ second tail, rest ++ [(newId, entry)] = second :: tail :=
    List.exists_cons_of_ne_nil (by simp)
  have hlist : s.entriesOf a = first :: second :: tail := by
    rw [ha, List.cons_append, hrest]
  have hne : first.1 ≠ newId := by
    have hsorted := s.entries.matching_sorted fun entry ↦ entry.account = a
    rw [show s.entries.matching _ = _ from ha, List.cons_append, List.map_cons,
      List.pairwise_cons] at hsorted
    exact (hsorted.1 newId (by simp)).ne
  have hlast : (newId, entry) ∈ second :: tail := by
    rw [← hrest]
    exact List.mem_append_right rest List.mem_cons_self
  have hright := withoutOldest_right hs hlist
  unfold HistoryState.removeEarliest at h
  rw [bySeq_eq hs.history.sequences, hlist] at h
  simp only [if_neg hne] at h
  change (if o.partialOperations then (s.withoutOldest a stats first second).removeOperation
    first.2.operationId else some (s.withoutOldest a stats first second)) = some s' at h
  split_ifs at h
  · obtain ⟨hentries, hstatistics, hoperations⟩ := removeOperation_spec h
    refine ⟨hright.removeOperation h, fun b hb ↦ ?_, fun hop ↦ ?_⟩
    · rw [hstatistics]
      exact statistics_withoutOldest_of_ne hb
    · obtain ⟨entry', hentry', heq⟩ := newest_withoutOldest hlist hlast
      rw [← heq] at hop ⊢
      exact hoperations newId entry' hentry' hop
  · obtain rfl := Option.some.inj h
    exact ⟨hright, fun b hb ↦ statistics_withoutOldest_of_ne hb, fun hop ↦ hop⟩

/-- Adding an entry keeps every history right while the account's counter has room. -/
theorem Right.addAccountHistory (hs : s.Right o) (hop : (s.operations.find opId).isSome)
    (hmax : 0 < o.maxOpsPerAccount)
    (hroom : ∀ stats, s.statistics a = some stats → stats.totalOps.toNat + 1 < 2 ^ 32)
    (h : s.addAccountHistory o a opId = some s') :
    s'.Right o ∧ (s'.operations.find opId).isSome ∧ ∀ b ≠ a, s'.statistics b = s.statistics b := by
  unfold HistoryState.addAccountHistory at h
  obtain ⟨stats, hstats, hbind⟩ := Option.bind_eq_some_iff.mp h
  obtain ⟨⟨t, stats'⟩, hcreate, htrim⟩ := Option.bind_eq_some_iff.mp hbind
  obtain ⟨ht, ⟨entry, rfl, hentries⟩, hoperations, hsame⟩ :=
    createEntry_spec hs hop hstats (hroom stats hstats) hcreate
  dsimp only at htrim
  split_ifs at htrim with hmany
  · rw [UInt32.lt_iff_toNat_lt, ht.history.toNat_sub] at hmany
    obtain ⟨first, rest, hfirst⟩ : ∃ first rest, s.entriesOf a = first :: rest := by
      refine List.exists_cons_of_ne_nil fun hnil ↦ ?_
      rw [UInt32.lt_iff_toNat_lt] at hmax
      rw [hentries, hnil, List.nil_append, List.length_singleton] at hmany
      have hzero : (0 : UInt32).toNat = 0 := rfl
      omega
    rw [hfirst] at hentries
    obtain ⟨hright, hother, hkeeps⟩ := Right.removeEarliest ht hentries htrim
    exact ⟨hright, hkeeps (hoperations ▸ hop), fun b hb ↦ (hother b hb).trans (hsame b hb)⟩
  · rw [UInt32.lt_iff_toNat_lt, ht.history.toNat_sub, not_lt] at hmany
    obtain rfl := Option.some.inj htrim
    exact ⟨ht.right hmany, hoperations ▸ hop, hsame⟩

/-! ## An applied operation -/

theorem Right.useNextId (hs : s.Right o) : s.useNextId.Right o := ⟨hs.1, hs.2, hs.3⟩

theorem Right.ensureOho (hs : s.Right o) (op : Operation) (oho : Option ℕ)
    (hoho : ∀ id ∈ oho, (s.operations.find id).isSome) :
    (s.ensureOho op oho).2.Right o ∧
      ((s.ensureOho op oho).2.operations.find (s.ensureOho op oho).1).isSome ∧
      (s.ensureOho op oho).2.statistics = s.statistics := by
  cases oho with
  | some id => exact ⟨hs, hoho id rfl, rfl⟩
  | none =>
      refine ⟨⟨hs.histories, hs.nothing, fun id entry hentry ↦ ?_⟩, ?_, rfl⟩
      · have hop := hs.operations id entry hentry
        dsimp only [HistoryState.ensureOho]
        rw [ObjectIndex.find_create]
        split_ifs
        · rfl
        · exact hop
      · dsimp only [HistoryState.ensureOho]
        rw [ObjectIndex.find_create, if_pos rfl]
        rfl

theorem Right.addHistories {op : Operation} {as : List AccountId} {oho oho' : Option ℕ}
    (hs : s.Right o) (hoho : ∀ id ∈ oho, (s.operations.find id).isSome)
    (hmax : 0 < o.maxOpsPerAccount) (has : as.Nodup)
    (hroom : ∀ a ∈ as, ∀ stats, s.statistics a = some stats → stats.totalOps.toNat + 1 < 2 ^ 32)
    (h : addHistories o op as oho s = some (oho', s')) : s'.Right o := by
  induction as generalizing oho s with
  | nil =>
      obtain rfl := (Prod.mk.inj (Option.some.inj h)).2
      exact hs
  | cons a as ih =>
      obtain ⟨hensured, hop, hstatistics⟩ := hs.ensureOho op oho hoho
      unfold HistoryState.addHistories at h
      obtain ⟨t, hadd, hrest⟩ := Option.bind_eq_some_iff.mp h
      obtain ⟨ht, hkept, hsame⟩ := hensured.addAccountHistory hop hmax
        (fun stats hstats ↦ hroom a List.mem_cons_self stats (hstatistics ▸ hstats)) hadd
      refine ih ht (fun id hid ↦ ?_) (List.nodup_cons.mp has).2 (fun b hb stats hstats ↦ ?_) hrest
      · obtain rfl := Option.some.inj hid
        exact hkept
      · have hne : b ≠ a := fun heq ↦ (List.nodup_cons.mp has).1 (heq ▸ hb)
        rw [hsame b hne, hstatistics] at hstats
        exact hroom b (List.mem_cons_of_mem _ hb) stats hstats

/-- The accounts whose histories an operation goes into. -/
def recorded (o : Options) (impacted : Finset AccountId) : Finset AccountId :=
  if o.maxOpsPerAccount = 0 then ∅
  else if o.trackedAccounts = ∅ then impacted else o.trackedAccounts ∩ impacted

theorem Right.recordOperation {op : Operation} {accounts : Finset AccountId}
    {oho oho' : Option ℕ} (hs : s.Right o) (hoho : ∀ id ∈ oho, (s.operations.find id).isSome)
    (hroom : ∀ a ∈ recorded o accounts, ∀ stats, s.statistics a = some stats →
      stats.totalOps.toNat + 1 < 2 ^ 32)
    (h : recordOperation o accounts op oho s = some (oho', s')) : s'.Right o := by
  have hzero : 0 < o.maxOpsPerAccount → o.maxOpsPerAccount ≠ 0 := fun hlt heq ↦ by
    rw [heq] at hlt
    exact absurd hlt (by decide)
  unfold HistoryState.recordOperation at h
  split_ifs at h with htracked hnonempty hmax hmax hmax
  · obtain ⟨hensured, hop, hstatistics⟩ := hs.ensureOho op oho hoho
    refine hensured.addHistories ?_ hmax (Finset.sort_nodup _ _) (fun a ha stats hstats ↦ ?_) h
    · rintro id hid
      obtain rfl := Option.some.inj hid
      exact hop
    · refine hroom a ?_ stats (hstatistics ▸ hstats)
      rw [recorded, if_neg (hzero hmax), if_pos htracked]
      exact (Finset.mem_sort _).mp ha
  · obtain rfl := (Prod.mk.inj (Option.some.inj h)).2
    exact (hs.ensureOho op oho hoho).1
  · refine hs.addHistories hoho hmax (Finset.sort_nodup _ _) (fun a ha ↦ ?_) h
    refine hroom a ?_
    rw [recorded, if_neg (hzero hmax), if_pos htracked]
    exact (Finset.mem_sort _).mp ha
  · obtain rfl := (Prod.mk.inj (Option.some.inj h)).2
    exact hs
  · refine hs.addHistories hoho hmax ((Finset.sort_nodup _ _).filter _) (fun a ha ↦ ?_) h
    refine hroom a ?_
    rw [recorded, if_neg (hzero hmax), if_neg htracked, Finset.mem_inter]
    simpa using ha
  · obtain rfl := (Prod.mk.inj (Option.some.inj h)).2
    exact hs

theorem Right.updateAccountHistories {op : Option Operation} (hs : s.Right o)
    (hroom : ∀ op' ∈ op, ∀ a ∈ recorded o (impacted op'), ∀ stats, s.statistics a = some stats →
      stats.totalOps.toNat + 1 < 2 ^ 32)
    (h : s.updateAccountHistories o impacted op = some s') : s'.Right o := by
  unfold HistoryState.updateAccountHistories at h
  cases op with
  | none => exact Option.some.inj h ▸ hs.useNextId
  | some op =>
      dsimp only at h
      split_ifs at h with hskip hpartial
      · exact Option.some.inj h ▸ hs.useNextId
      · obtain ⟨⟨oho, t⟩, hrecord, hrest⟩ := Option.bind_eq_some_iff.mp h
        have ht := hs.recordOperation (by simp) (hroom op rfl) hrecord
        dsimp only at hrest
        split_ifs at hrest
        · exact Option.some.inj hrest ▸ ht.useNextId
        · exact Option.some.inj hrest ▸ ht
      · obtain ⟨⟨oho, t⟩, hrecord, hrest⟩ := Option.bind_eq_some_iff.mp h
        obtain ⟨hensured, hop, hstatistics⟩ := hs.ensureOho op none (by simp)
        have ht : t.Right o := by
          refine hensured.recordOperation ?_ (fun a ha stats hstats ↦ ?_) hrecord
          · rintro id hid
            obtain rfl := Option.some.inj hid
            exact hop
          · exact hroom op rfl a ha stats (hstatistics ▸ hstats)
        dsimp only at hrest
        split_ifs at hrest
        · exact Option.some.inj hrest ▸ ht.useNextId
        · exact Option.some.inj hrest ▸ ht

end HistoryState

/-! ## Runs -/

/-- An account is registered, or an operation is in the list of a block. -/
inductive HistoryEvent (Operation : Type)
  | createAccount (a : AccountId)
  | applied (op : Option Operation)

namespace HistoryState

variable (o : Options) (impacted : Operation → Finset AccountId)

/-- An exception undoes the block, which leads to a state that was there before. -/
def step (s : HistoryState Operation) : HistoryEvent Operation → HistoryState Operation
  | .createAccount a => if (s.statistics a).isSome then s else s.modifyStatistics a {}
  | .applied op => (s.updateAccountHistories o impacted op).getD s

/-- No account that the operation is recorded for has as many operations as can be counted. -/
def HasRoom (s : HistoryState Operation) : HistoryEvent Operation → Prop
  | .createAccount _ => True
  | .applied op => ∀ op' ∈ op, ∀ a ∈ recorded o (impacted op'), ∀ stats,
      s.statistics a = some stats → stats.totalOps.toNat + 1 < 2 ^ 32

variable {o impacted} {s : HistoryState Operation}

theorem right_empty : (empty : HistoryState Operation).Right o where
  histories _ _ h := nomatch h
  nothing _ _ := rfl
  operations _ _ h := nomatch h

theorem Right.step (hs : s.Right o) {event : HistoryEvent Operation}
    (hroom : s.HasRoom o impacted event) : (s.step o impacted event).Right o := by
  cases event with
  | createAccount a =>
      unfold HistoryState.step
      dsimp only
      split_ifs with hsome
      · exact hs
      · have hnone : s.statistics a = none := by simpa using hsome
        refine ⟨fun b stats hb ↦ ?_, fun b hb ↦ ?_, hs.operations⟩
        · by_cases heq : b = a
          · subst heq
            obtain rfl := Option.some.inj ((Function.update_self b _ s.statistics).symm.trans hb)
            have hentries : (s.modifyStatistics b {}).entriesOf b = [] := hs.nothing b hnone
            rw [hentries]
            exact .fresh
          · exact hs.histories b stats ((Function.update_of_ne heq _ _).symm.trans hb)
        · by_cases heq : b = a
          · exact hs.nothing b (heq ▸ hnone)
          · exact hs.nothing b ((Function.update_of_ne heq _ _).symm.trans hb)
  | applied op =>
      unfold HistoryState.step
      dsimp only
      cases hupdate : s.updateAccountHistories o impacted op with
      | none => exact hs
      | some s' => exact hs.updateAccountHistories hroom hupdate

/-- In every run in which no counter of operations runs out, every account has the entries
with the numbers from `removed_ops + 1` to `total_ops`, no more than are configured, each leading
to the one before it, and each with its operation object. -/
theorem histories_of_reaches
    (hs : Run.Reaches (step o impacted) (HasRoom o impacted) empty s) : s.Right o :=
  hs.invariant (Right o) right_empty fun _ _ hs hroom ↦ hs.step hroom

/-! One account that keeps one operation. -/

def keepOne : Options := { partialOperations := true, maxOpsPerAccount := 1 }

def impactSeven (_ : Unit) : Finset AccountId := {7}

def applyOne : HistoryEvent Unit := .applied (some ())

/-- What is left of `n + 1` operations. -/
def lone (n : ℕ) : HistoryState Unit where
  operations := {
    nextId := n + 1
    objects := [(n, ())]
    sorted := by simp
    fresh := by simp }
  entries := {
    nextId := n + 1
    objects := [(n, ⟨7, n, UInt32.ofNat (n + 1), noEntry⟩)]
    sorted := by simp
    fresh := by simp }
  statistics := Function.update (fun _ ↦ none) 7
    (some ⟨n, UInt32.ofNat (n + 1), UInt32.ofNat n⟩)

theorem step_lone {n : ℕ} (hn : n + 2 < 2 ^ 32) :
    (lone n).step keepOne impactSeven applyOne = lone (n + 1) := by
  have hsort : ({7} : Finset ℕ).sort (· ≤ ·) = [7] := Finset.sort_singleton _ _
  have hmany : (1 : UInt32) < UInt32.ofNat n + 1 + 1 - UInt32.ofNat n := by
    rw [show UInt32.ofNat n + 1 + 1 - UInt32.ofNat n = 2 by grind]
    decide
  have horder : UInt32.ofNat n + 1 ≤ UInt32.ofNat n + 1 + 1 := by
    rw [UInt32.le_iff_toNat_le]
    simp
    omega
  simp [step, applyOne, updateAccountHistories, keepOne, recordOperation, impactSeven, ensureOho,
    addHistories, hsort, addAccountHistory, createEntry, Taken, newEntry, lone, modifyStatistics,
    removeEarliest, bySeq, ObjectIndex.create, ObjectIndex.select, hmany, horder, unlink,
    removeOperation, ObjectIndex.remove, ObjectIndex.set, ObjectIndex.replace, ObjectIndex.find]

/-- The number after the last one is zero, and the entry with that number is not the latest. -/
theorem step_lone_last :
    ((lone (2 ^ 32 - 2)).step keepOne impactSeven applyOne).statistics 7 =
        some ⟨4294967295, 0, 4294967294⟩ ∧
      (((lone (2 ^ 32 - 2)).step keepOne impactSeven applyOne).entriesOf 7).length = 2 := by
  have hsort : ({7} : Finset ℕ).sort (· ≤ ·) = [7] := Finset.sort_singleton _ _
  simp [step, applyOne, updateAccountHistories, keepOne, recordOperation, impactSeven, ensureOho,
    addHistories, hsort, addAccountHistory, createEntry, Taken, newEntry, lone, modifyStatistics,
    removeEarliest, bySeq, ObjectIndex.create, ObjectIndex.select, entriesOf, ObjectIndex.matching]

theorem step_empty : ([.createAccount 7, applyOne] : List (HistoryEvent Unit)).foldl
    (step keepOne impactSeven) empty = lone 0 := by
  have hsort : ({7} : Finset ℕ).sort (· ≤ ·) = [7] := Finset.sort_singleton _ _
  simp [step, applyOne, updateAccountHistories, keepOne, recordOperation, impactSeven, ensureOho,
    addHistories, hsort, addAccountHistory, createEntry, Taken, newEntry, lone, modifyStatistics,
    ObjectIndex.create, empty, ObjectIndex.empty]

theorem foldl_lone {n : ℕ} (hn : n + 1 < 2 ^ 32) :
    (List.replicate n applyOne).foldl (step keepOne impactSeven) (lone 0) = lone n := by
  induction n with
  | zero => rfl
  | succ n ih =>
      rw [List.replicate_succ', List.foldl_append, ih (by omega)]
      exact step_lone hn

theorem hasRoom_applyOne {stats : AccountStatistics} {s : HistoryState Unit}
    (hs : s.statistics 7 = some stats) (hroom : stats.totalOps.toNat + 1 < 2 ^ 32) :
    s.HasRoom keepOne impactSeven applyOne := by
  rintro op - a ha stats' hstats'
  obtain rfl : a = 7 := by simpa [recorded, keepOne, impactSeven] using ha
  obtain rfl := Option.some.inj (hs.symm.trans hstats')
  exact hroom

theorem histories_of_reaches_twice :
    (([.createAccount 7, applyOne, applyOne] : List (HistoryEvent Unit)).foldl
      (step keepOne impactSeven) empty).Right keepOne := by
  have hcreated : (step keepOne impactSeven empty (.createAccount 7)).statistics 7 = some {} := by
    simp [step, empty, modifyStatistics]
  have hlone : (lone 0).statistics 7 = some ⟨0, 1, 0⟩ := by simp [lone]
  refine histories_of_reaches (Run.reaches_foldl ⟨trivial, ?_, ?_, trivial⟩)
  · exact hasRoom_applyOne hcreated (by decide)
  · exact hasRoom_applyOne ((congrArg (fun s ↦ s.statistics 7) step_empty).trans hlone) (by decide)

/-- The account has two entries where one is configured, after as many operations as the counter
can count. -/
theorem histories_overflow :
    ¬((.createAccount 7 :: List.replicate (2 ^ 32) applyOne).foldl (step keepOne impactSeven)
      empty).Right keepOne := by
  have hrun : ∀ n, n + 1 < 2 ^ 32 → (.createAccount 7 :: List.replicate (n + 2) applyOne).foldl
      (step keepOne impactSeven) empty = (lone n).step keepOne impactSeven applyOne := by
    intro n hn
    have hsplit : HistoryEvent.createAccount 7 :: List.replicate (n + 2) applyOne =
        [.createAccount 7, applyOne] ++ List.replicate n applyOne ++ [applyOne] := by
      rw [List.replicate_succ, List.replicate_succ']
      rfl
    rw [hsplit, List.foldl_append, List.foldl_append, step_empty, foldl_lone hn]
    rfl
  intro hright
  have hlast := hrun (2 ^ 32 - 2) (by norm_num)
  rw [show 2 ^ 32 - 2 + 2 = 2 ^ 32 by norm_num] at hlast
  rw [hlast] at hright
  have hfew := (hright.histories 7 _ step_lone_last.1).few
  rw [step_lone_last.2] at hfew
  exact absurd hfew (by decide)

end HistoryState

end KarmaCore.AccountHistory
