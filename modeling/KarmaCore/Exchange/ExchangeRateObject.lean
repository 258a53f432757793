import Mathlib
import KarmaCore.Credit.CreditObject

/-!
# The exchange rate object

Witnesses vote on the rate of a currency in rounds.  Every block looks at the
rounds whose check is due: enough votes set the rate to their median, and a
round ends with that or when it has lasted too long.  The loop over the rounds
erases the entry it stands on and then advances from it.
-/

namespace KarmaCore

/-- `current_exchange_rate_interval` of one currency: when its first vote came
and when it was last looked at. -/
structure RateInterval where
  currency : String
  start : ℕ
  lastCheck : ℕ
  deriving DecidableEq, Repr

/-- The votes on the rates and the rates themselves. -/
structure RateBoard where
  currentExchangeRate : String → List (AccountId × ℚ)
  lastExchangeRate : String → Option ℚ

structure ExchangeRateObject where
  board : RateBoard
  intervals : List RateInterval
  distinct : (intervals.map RateInterval.currency).Nodup

/-- The middle vote, or the mean of the two middle ones. -/
def medianVote (votes : List ℚ) : Option ℚ :=
  let sorted := votes.insertionSort (· ≤ ·)
  if votes.length % 2 = 1 then sorted[votes.length / 2]?
  else do
    let low ← sorted[votes.length / 2 - 1]?
    let high ← sorted[votes.length / 2]?
    return (low + high) / 2

namespace RateBoard

def setLast (b : RateBoard) (currency : String) (rate : ℚ) : RateBoard :=
  { b with lastExchangeRate := Function.update b.lastExchangeRate currency (some rate) }

def clearVotes (b : RateBoard) (currency : String) : RateBoard :=
  { b with currentExchangeRate := Function.update b.currentExchangeRate currency [] }

/-- A witness has one vote on each currency. -/
def vote (b : RateBoard) (witness : AccountId) (currency : String) (rate : ℚ) : RateBoard :=
  { b with
    currentExchangeRate := Function.update b.currentExchangeRate currency
      ((witness, rate) :: (b.currentExchangeRate currency).filter (·.1 ≠ witness)) }

end RateBoard

section

variable (options : CreditOptions) (now : ℕ)

def RateInterval.due (e : RateInterval) : Prop :=
  options.exchangeRateSetMinInterval ≤ wrap32 (now - e.lastCheck)

def RateInterval.over (e : RateInterval) : Prop :=
  options.exchangeRateSetMaxInterval ≤ wrap32 (now - e.start)

/-- `vec_size >= min_witnesses`. -/
def RateBoard.enough (b : RateBoard) (currency : String) : Prop :=
  options.minWitnessesForExchangeRate ≤ wrap32 (b.currentExchangeRate currency).length

instance (e : RateInterval) : Decidable (e.due options now) := inferInstanceAs (Decidable (_ ≤ _))

instance (e : RateInterval) : Decidable (e.over options now) := inferInstanceAs (Decidable (_ ≤ _))

instance (b : RateBoard) (currency : String) : Decidable (b.enough options currency) :=
  inferInstanceAs (Decidable (_ ≤ _))

/-- The body of the loop, with the entry it leaves or none where it is erased.
Without a vote the median would be read outside of its vector. -/
def processInterval (b : RateBoard) (e : RateInterval) :
    Checked (RateBoard × Option RateInterval) :=
  if e.due options now then
    if b.enough options e.currency then
      match medianVote ((b.currentExchangeRate e.currency).map Prod.snd) with
      | none => .error .danglingReference
      | some median => .ok ((b.setLast e.currency median).clearVotes e.currency, none)
    else if e.over options now then .ok (b.clearVotes e.currency, none)
    else .ok (b, some { e with lastCheck := now })
  else .ok (b, some e)

/-- The loop.  After an erased entry `it_interval++` starts from one that is gone. -/
def processIntervals : RateBoard → List RateInterval → Checked (RateBoard × List RateInterval)
  | b, [] => .ok (b, [])
  | b, e :: es => do
      let (b, kept) ← processInterval options now b e
      match kept with
      | none => .error .danglingReference
      | some e => do
          let (b, es) ← processIntervals b es
          return (b, e :: es)

/-- The round of an entry ends in this pass. -/
def RateBoard.Ends (b : RateBoard) (e : RateInterval) : Prop :=
  e.due options now ∧ (b.enough options e.currency ∨ e.over options now)

instance (b : RateBoard) (e : RateInterval) : Decidable (b.Ends options now e) :=
  inferInstanceAs (Decidable (_ ∧ _))

/-- An entry that stays, with its new check time where it was due. -/
def RateInterval.checked (e : RateInterval) : RateInterval :=
  if e.due options now then { e with lastCheck := now } else e

end

variable {options : CreditOptions} {now : ℕ} {b b' : RateBoard} {e : RateInterval}
  {es es' : List RateInterval}

theorem processInterval_kept : processInterval options now b e = .ok (b', some e') ↔
    ¬b.Ends options now e ∧ b' = b ∧ e' = e.checked options now := by
  unfold processInterval RateBoard.Ends RateInterval.checked
  split_ifs with hdue henough hover
  · split <;> simp [hdue, henough]
  · simp [hdue, hover]
  · simp [hdue, henough, hover, eq_comm]
  · simp [hdue, eq_comm]

/-- The loop ends well exactly when no round does. -/
theorem processIntervals_eq_ok : processIntervals options now b es = .ok (b', es') ↔
    (∀ e ∈ es, ¬b.Ends options now e) ∧ b' = b ∧
      es' = es.map (·.checked options now) := by
  induction es generalizing b' es' with
  | nil => simp [processIntervals, eq_comm]
  | cons e es ih =>
      simp only [processIntervals, Checked.bind_eq_ok, List.forall_mem_cons, List.map_cons]
      constructor
      · rintro ⟨⟨b₁, kept⟩, hentry, hrest⟩
        cases kept with
        | none => simp at hrest
        | some e₁ =>
            obtain ⟨hends, rfl, rfl⟩ := processInterval_kept.mp hentry
            simp only [Checked.bind_eq_ok, Checked.pure_eq_ok] at hrest
            obtain ⟨⟨b₂, es₂⟩, hes, hpair⟩ := hrest
            obtain ⟨rfl, rfl⟩ := Prod.mk.inj hpair
            obtain ⟨hall, rfl, rfl⟩ := ih.mp hes
            exact ⟨⟨hends, hall⟩, rfl, rfl⟩
      · rintro ⟨⟨hends, hall⟩, rfl, rfl⟩
        refine ⟨_, processInterval_kept.mpr ⟨hends, rfl, rfl⟩, ?_⟩
        simp only [Checked.bind_eq_ok, Checked.pure_eq_ok]
        exact ⟨_, ih.mpr ⟨hall, rfl, rfl⟩, rfl⟩

@[simp] theorem RateInterval.checked_currency (e : RateInterval) (options : CreditOptions) (now : ℕ) :
    (e.checked options now).currency = e.currency := by
  unfold checked
  split_ifs <;> rfl

theorem processIntervals_distinct (h : processIntervals options now b es = .ok (b', es'))
    (hes : (es.map RateInterval.currency).Nodup) : (es'.map RateInterval.currency).Nodup := by
  obtain ⟨-, -, rfl⟩ := processIntervals_eq_ok.mp h
  simpa [Function.comp_def] using hes

/-- `exchange_rate_object::process`. -/
def ExchangeRateObject.process (options : CreditOptions) (now : ℕ) (o : ExchangeRateObject) :
    Checked ExchangeRateObject :=
  match h : processIntervals options now o.board o.intervals with
  | .error error => .error error
  | .ok (board, intervals) => .ok ⟨board, intervals, processIntervals_distinct h o.distinct⟩

theorem ExchangeRateObject.process_eq_ok {o o' : ExchangeRateObject} :
    o.process options now = .ok o' ↔
      processIntervals options now o.board o.intervals = .ok (o'.board, o'.intervals) := by
  unfold process
  split
  · rename_i error h
    simp [h]
  · rename_i board intervals h
    cases o'
    simp [h]

/-! ## What a pass does to a currency -/

/-- The round of one currency. -/
structure Round where
  interval : Option (ℕ × ℕ)
  votes : List (AccountId × ℚ)
  last : Option ℚ

def RateBoard.round (b : RateBoard) (currency : String) (entry : Option RateInterval) : Round where
  interval := entry.map fun e ↦ (e.start, e.lastCheck)
  votes := b.currentExchangeRate currency
  last := b.lastExchangeRate currency

def ExchangeRateObject.round (o : ExchangeRateObject) (currency : String) : Round :=
  o.board.round currency (o.intervals.find? (·.currency = currency))

/-- What a pass is for: a due round with enough votes sets the rate to their
median and ends, any other due round is checked and ends only when it is over. -/
def Round.handled (options : CreditOptions) (now : ℕ) (r : Round) : Round :=
  match r.interval with
  | none => r
  | some (start, lastCheck) =>
      if options.exchangeRateSetMinInterval ≤ wrap32 (now - lastCheck) then
        if options.minWitnessesForExchangeRate ≤ wrap32 r.votes.length then
          ⟨none, [], medianVote (r.votes.map Prod.snd)⟩
        else if options.exchangeRateSetMaxInterval ≤ wrap32 (now - start) then ⟨none, [], r.last⟩
        else ⟨some (start, now), r.votes, r.last⟩
      else r

/-- The body of the loop handles its currency and no other. -/
theorem processInterval_handled {kept : Option RateInterval}
    (h : processInterval options now b e = .ok (b', kept)) :
    b'.round e.currency kept = (b.round e.currency (some e)).handled options now ∧
      ∀ other ≠ e.currency, ∀ entry, b'.round other entry = b.round other entry := by
  unfold processInterval at h
  split_ifs at h with hdue henough hover
  · split at h
    · cases h
    · rename_i median hmedian
      simp only [Except.ok.injEq, Prod.mk.injEq] at h
      obtain ⟨rfl, rfl⟩ := h
      have hhandled : (b.round e.currency (some e)).handled options now =
          ⟨none, [], medianVote ((b.currentExchangeRate e.currency).map Prod.snd)⟩ := by
        simp only [Round.handled, RateBoard.round, Option.map_some]
        exact (if_pos hdue).trans (if_pos henough)
      refine ⟨?_, fun other hother entry ↦ ?_⟩
      · rw [hhandled, hmedian]
        simp [RateBoard.round, RateBoard.clearVotes, RateBoard.setLast]
      · simp [RateBoard.round, RateBoard.clearVotes, RateBoard.setLast, hother]
  · simp only [Except.ok.injEq, Prod.mk.injEq] at h
    obtain ⟨rfl, rfl⟩ := h
    have hhandled : (b.round e.currency (some e)).handled options now =
        ⟨none, [], b.lastExchangeRate e.currency⟩ := by
      simp only [Round.handled, RateBoard.round, Option.map_some]
      exact (if_pos hdue).trans ((if_neg henough).trans (if_pos hover))
    refine ⟨?_, fun other hother entry ↦ ?_⟩
    · rw [hhandled]
      simp [RateBoard.round, RateBoard.clearVotes]
    · simp [RateBoard.round, RateBoard.clearVotes, hother]
  · simp only [Except.ok.injEq, Prod.mk.injEq] at h
    obtain ⟨rfl, rfl⟩ := h
    refine ⟨?_, fun _ _ _ ↦ rfl⟩
    simp only [Round.handled, RateBoard.round, Option.map_some]
    exact ((if_pos hdue).trans ((if_neg henough).trans (if_neg hover))).symm
  · simp only [Except.ok.injEq, Prod.mk.injEq] at h
    obtain ⟨rfl, rfl⟩ := h
    refine ⟨?_, fun _ _ _ ↦ rfl⟩
    simp only [Round.handled, RateBoard.round, Option.map_some]
    exact (if_neg hdue).symm

/-- A round that does not end keeps its entry. -/
theorem round_checked (h : ¬b.Ends options now e) :
    b.round e.currency (some (e.checked options now)) =
      (b.round e.currency (some e)).handled options now :=
  (processInterval_handled (processInterval_kept.mpr ⟨h, rfl, rfl⟩)).1

theorem find_checked (es : List RateInterval) (currency : String) :
    (es.map (·.checked options now)).find? (·.currency = currency) =
      (es.find? (·.currency = currency)).map (·.checked options now) := by
  rw [List.find?_map]
  simp

/-- A pass handles every currency once exactly when it ends no round; and the
body of the loop handles the currency of its entry in any case. -/
theorem process_handles_iff {o : ExchangeRateObject} {options : CreditOptions} {now : ℕ} :
    ((∃ o', o.process options now = .ok o' ∧
        ∀ currency, o'.round currency = (o.round currency).handled options now) ↔
      ∀ e ∈ o.intervals, ¬o.board.Ends options now e) ∧
      ∀ b e b' kept, processInterval options now b e = .ok (b', kept) →
        b'.round e.currency kept = (b.round e.currency (some e)).handled options now ∧
        ∀ other ≠ e.currency, ∀ entry, b'.round other entry = b.round other entry := by
  refine ⟨⟨?_, fun hends ↦ ?_⟩, fun b e b' kept ↦ processInterval_handled⟩
  · rintro ⟨o', hprocess, -⟩
    exact (processIntervals_eq_ok.mp (ExchangeRateObject.process_eq_ok.mp hprocess)).1
  · have hintervals : processIntervals options now o.board o.intervals =
        .ok (o.board, o.intervals.map (·.checked options now)) :=
      processIntervals_eq_ok.mpr ⟨hends, rfl, rfl⟩
    refine ⟨⟨_, _, processIntervals_distinct hintervals o.distinct⟩,
      ExchangeRateObject.process_eq_ok.mpr hintervals, fun currency ↦ ?_⟩
    simp only [ExchangeRateObject.round, find_checked]
    rcases hfind : o.intervals.find? (·.currency = currency) with _ | e
    · rw [hfind]
      rfl
    · obtain rfl : e.currency = currency := by simpa using List.find?_some hfind
      rw [hfind]
      exact round_checked (hends e (List.mem_of_find?_eq_some hfind))

/-! ## Votes -/

structure ExchangeRateSetOperation where
  witness : AccountId
  exchangeRate : List (String × ℚ)

/-- What the evaluator looks up. -/
structure WitnessView where
  witnessByAccount : AccountId → Option ℕ
  activeWitnesses : List ℕ
  hasAssetSymbol : String → Bool

/-- `GRAPHENE_SYMBOL`. -/
def grapheneSymbol : String := "KRM"

namespace ExchangeRateObject

/-- The first vote on a currency starts its round. -/
def startRound (o : ExchangeRateObject) (now : ℕ) (currency : String) : ExchangeRateObject :=
  if h : currency ∈ o.intervals.map RateInterval.currency then o
  else
    { o with
      intervals := o.intervals.orderedInsert (·.currency ≤ ·.currency) ⟨currency, now, now⟩
      distinct := by
        have hperm := List.perm_orderedInsert (fun e d : RateInterval ↦ e.currency ≤ d.currency)
          ⟨currency, now, now⟩ o.intervals
        rw [(hperm.map _).nodup_iff]
        exact List.nodup_cons.mpr ⟨h, o.distinct⟩ }

def setRate (o : ExchangeRateObject) (now : ℕ) (witness : AccountId) (vote : String × ℚ) :
    ExchangeRateObject :=
  { o with board := o.board.vote witness vote.1 vote.2 }.startRound now vote.1

end ExchangeRateObject

namespace ExchangeRateSetOperation

def validate (op : ExchangeRateSetOperation) : Checked Unit := do
  require (op.exchangeRate.length > 0) "No one asset value is set!"
  op.exchangeRate.forM fun vote ↦
    require (0 < vote.2) "Exchange rate for ${asset} must be greater then zero!"

def checkVote (v : WitnessView) (vote : String × ℚ) : Checked Unit := do
  require (vote.1 ≠ grapheneSymbol) "It is forbidden to set exchange rate for core asset: ${asset}!"
  require (v.hasAssetSymbol vote.1) "Could not find asset matching ${asset}"
  require (0 < vote.2) "Exchange rate for ${asset} must be greater then zero!"

def doEvaluate (v : WitnessView) (op : ExchangeRateSetOperation) : Checked Unit :=
  match v.witnessByAccount op.witness with
  | none => .error (.assertion "Only witness can set exchange rate!")
  | some witness => do
      require (witness ∈ v.activeWitnesses) "Only active witness can set exchange rate!"
      op.exchangeRate.forM (checkVote v)

def doApply (now : ℕ) (op : ExchangeRateSetOperation) (o : ExchangeRateObject) :
    ExchangeRateObject :=
  op.exchangeRate.foldl (fun o vote ↦ o.setRate now op.witness vote) o

end ExchangeRateSetOperation

/-- The object before the first vote. -/
def ExchangeRateObject.initial : ExchangeRateObject := ⟨⟨fun _ ↦ [], fun _ ↦ none⟩, [], List.nodup_nil⟩

/-- Seven witnesses are active. -/
def sevenWitnesses : WitnessView where
  witnessByAccount account := some account
  activeWitnesses := [1, 2, 3, 4, 5, 6, 7]
  hasAssetSymbol symbol := symbol = "KUSD"

def usdVote (witness : AccountId) : ExchangeRateSetOperation := ⟨witness, [("KUSD", 2)]⟩

def votedObject : ExchangeRateObject :=
  [1, 2, 3, 4, 5, 6, 7].foldl (fun o witness ↦ (usdVote witness).doApply 1000 o) .initial

/-- All seven votes are accepted, and the pass that should set the rate
advances from the entry it has erased. -/
theorem votedObject_dangles :
    (∀ witness ∈ [1, 2, 3, 4, 5, 6, 7],
        (usdVote witness).validate = .ok () ∧ (usdVote witness).doEvaluate sevenWitnesses = .ok ()) ∧
      (votedObject.round "KUSD").interval = some (1000, 1000) ∧
      ((votedObject.round "KUSD").handled {} 1075).last = some 2 ∧
      ¬∃ o', votedObject.process {} 1075 = .ok o' := by
  refine ⟨by decide +kernel, by decide +kernel, by decide +kernel, ?_⟩
  rintro ⟨o', hprocess⟩
  have hends := (processIntervals_eq_ok.mp (ExchangeRateObject.process_eq_ok.mp hprocess)).1
  exact absurd hends (by decide +kernel)

end KarmaCore
