import Mathlib
import KarmaCore.Lib.ObjectIndex
import KarmaCore.Lib.Run
import KarmaCore.Market.Price

/-!
# The ticker of the market history plugin

The plugin records every fill of an order.  The ticker of a market adds the amounts of maker
fills up and, at the end of each block, takes those away that have become older than a day.
A meta object remembers which record is the first that may have to be taken away, and
whether it has been already.
-/

namespace KarmaCore.MarketHistory

open Market

/-- A fill of an order, whose assets are those of a market. -/
structure FillOrderOperation where
  pays : Asset
  receives : Asset
  fillPrice : Price
  isMaker : Bool
  distinct : pays.assetId ≠ receives.assetId
  deriving DecidableEq

abbrev MarketKey := AssetId × AssetId

namespace FillOrderOperation

/-- The smaller asset id is the base. -/
def market (o : FillOrderOperation) : MarketKey :=
  if o.receives.assetId < o.pays.assetId then (o.receives.assetId, o.pays.assetId)
  else (o.pays.assetId, o.receives.assetId)

/-- The price that is traded at, its base being the base of the market. -/
def tradePrice (o : FillOrderOperation) : Price :=
  if o.receives.assetId < o.pays.assetId then ⟨o.receives, o.pays⟩ else ⟨o.pays, o.receives⟩

/-- `fill_price`, its base being the base of the market. -/
def orientedFillPrice (o : FillOrderOperation) : Price :=
  if o.fillPrice.quote.assetId < o.fillPrice.base.assetId then o.fillPrice.inverse else o.fillPrice

end FillOrderOperation

/-- `time_point_sec`. -/
abbrev TimePointSec := UInt32

structure OrderHistoryObject where
  market : MarketKey
  sequence : ℤ
  time : TimePointSec
  op : FillOrderOperation
  deriving DecidableEq

structure MarketTickerObject where
  lastDayBase : ℤ
  lastDayQuote : ℤ
  latestBase : ℤ
  latestQuote : ℤ
  baseVolume : BitVec 128
  quoteVolume : BitVec 128
  deriving DecidableEq

structure MarketTickerMetaObject where
  rollingMinOrderHisId : ℕ
  skipMinOrderHisId : Bool
  deriving DecidableEq

structure Options where
  maxOrderHisRecordsPerMarket : UInt32 := 1000
  maxOrderHisSecondsPerMarket : UInt32 := 259200

/-- The records, the tickers by market, and the meta object once there is one. -/
structure TickerState where
  history : ObjectIndex OrderHistoryObject
  tickers : MarketKey → Option MarketTickerObject
  metaObject : Option MarketTickerMetaObject

namespace TickerState

def empty : TickerState := ⟨.empty, fun _ ↦ none, none⟩

/-- The records of a market in the index `by_key`. -/
def byKey (market : MarketKey) (s : TickerState) : List (ℕ × OrderHistoryObject) :=
  s.history.select (fun _ r ↦ r.market = market) fun r r' ↦ r'.sequence < r.sequence

/-- The records of a market in the index `by_market_time`. -/
def byMarketTime (market : MarketKey) (s : TickerState) : List (ℕ × OrderHistoryObject) :=
  s.history.select (fun _ r ↦ r.market = market) fun r r' ↦
    r.time < r'.time ∨ r.time = r'.time ∧ r'.sequence < r.sequence

/-- The new record of a fill comes first in its market. -/
def nextSequence (market : MarketKey) (s : TickerState) : ℤ :=
  match s.byKey market with
  | (_, r) :: _ => r.sequence - 1
  | [] => 0

/-- The records that are beyond the number and older than the time for which they are kept. -/
def outdated (c : Options) (now : TimePointSec) (market : MarketKey) (sequence : ℤ)
    (s : TickerState) : List (ℕ × OrderHistoryObject) :=
  let sequence := sequence + c.maxOrderHisRecordsPerMarket.toNat
  match (s.byKey market).dropWhile fun o ↦ o.2.sequence < sequence with
  | [] => []
  | (id, r) :: older =>
    let minTime :=
      if c.maxOrderHisSecondsPerMarket < now then now - c.maxOrderHisSecondsPerMarket else 0
    match (s.byMarketTime market).dropWhile fun o ↦ minTime < o.2.time with
    | [] => []
    | (id', r') :: expired =>
      if r'.sequence ≤ r.sequence then (id, r) :: older else (id', r') :: expired

def removeAll (records : List (ℕ × OrderHistoryObject)) (s : TickerState) : TickerState :=
  { s with history := records.foldl (fun history o ↦ history.remove o.1) s.history }

def modifyTicker (market : MarketKey) (ticker : MarketTickerObject)
    (tickers : MarketKey → Option MarketTickerObject) : MarketKey → Option MarketTickerObject :=
  Function.update tickers market (some ticker)

/-- A maker fill is added. -/
def addToTicker (o : FillOrderOperation) (tickers : MarketKey → Option MarketTickerObject) :
    MarketKey → Option MarketTickerObject :=
  let base := BitVec.ofInt 128 o.tradePrice.base.amount
  let quote := BitVec.ofInt 128 o.tradePrice.quote.amount
  match tickers o.market with
  | none =>
      modifyTicker o.market
        { lastDayBase := 0
          lastDayQuote := 0
          latestBase := o.orientedFillPrice.base.amount
          latestQuote := o.orientedFillPrice.quote.amount
          baseVolume := base
          quoteVolume := quote } tickers
  | some ticker =>
      modifyTicker o.market
        { ticker with
          latestBase := o.orientedFillPrice.base.amount
          latestQuote := o.orientedFillPrice.quote.amount
          baseVolume := ticker.baseVolume + base
          quoteVolume := ticker.quoteVolume + quote } tickers

/-- A maker fill is taken away. -/
def takeFromTicker (o : FillOrderOperation) (tickers : MarketKey → Option MarketTickerObject) :
    MarketKey → Option MarketTickerObject :=
  match tickers o.market with
  | none => tickers
  | some ticker =>
      modifyTicker o.market
        { ticker with
          lastDayBase := o.orientedFillPrice.base.amount
          lastDayQuote := o.orientedFillPrice.quote.amount
          baseVolume := ticker.baseVolume - BitVec.ofInt 128 o.tradePrice.base.amount
          quoteVolume := ticker.quoteVolume - BitVec.ofInt 128 o.tradePrice.quote.amount } tickers

def newRecord (now : TimePointSec) (o : FillOrderOperation) (s : TickerState) :
    OrderHistoryObject where
  market := o.market
  sequence := s.nextSequence o.market
  time := now
  op := o

/-- The fill is recorded, and the first one of all makes the meta object. -/
def record (now : TimePointSec) (o : FillOrderOperation) (s : TickerState) : TickerState :=
  { s with
    history := s.history.create (s.newRecord now o)
    metaObject := s.metaObject.or (some ⟨s.history.nextId, false⟩) }

/-- `operation_process_fill_order` up to the buckets. -/
def processFillOrder (c : Options) (now : TimePointSec) (s : TickerState)
    (o : FillOrderOperation) : TickerState :=
  let sequence := s.nextSequence o.market
  let s := s.record now o
  let s := s.removeAll (s.outdated c now o.market sequence)
  if o.isMaker then { s with tickers := addToTicker o s.tickers } else s

/-- The loop over the records from the remembered one on that are older than a day: the records
that are left, the last one that was passed, the tickers. -/
def rollOutLoop (rolling : ℕ) (lastDay : TimePointSec) :
    List (ℕ × OrderHistoryObject) → Bool → ℕ → (MarketKey → Option MarketTickerObject) →
      List (ℕ × OrderHistoryObject) × ℕ × (MarketKey → Option MarketTickerObject)
  | [], _, last, tickers => ([], last, tickers)
  | (id, r) :: records, skip, last, tickers =>
    if r.time < lastDay then
      if skip ∧ id = rolling then rollOutLoop rolling lastDay records false id tickers
      else if r.op.isMaker then
        rollOutLoop rolling lastDay records skip id (takeFromTicker r.op tickers)
      else rollOutLoop rolling lastDay records skip id tickers
    else ((id, r) :: records, last, tickers)

/-- The records from the remembered one on. -/
def rollingRecords (m : MarketTickerMetaObject) (s : TickerState) : List (ℕ × OrderHistoryObject) :=
  s.history.objects.filter fun o ↦ m.rollingMinOrderHisId ≤ o.1

/-- The meta object after the loop. -/
def updateMeta (m : MarketTickerMetaObject) (left : List (ℕ × OrderHistoryObject)) (last : ℕ) :
    MarketTickerMetaObject :=
  match left with
  | (id, _) :: _ => if id ≠ m.rollingMinOrderHisId then ⟨id, false⟩ else m
  | [] => if last ≠ m.rollingMinOrderHisId then ⟨last, true⟩ else m

/-- Expired data is rolled out of the tickers. -/
def rollOut (timestamp : TimePointSec) (s : TickerState) : TickerState :=
  match s.metaObject with
  | none => s
  | some m =>
    let (left, last, tickers) := rollOutLoop m.rollingMinOrderHisId (timestamp - 86400)
      (s.rollingRecords m) m.skipMinOrderHisId m.rollingMinOrderHisId s.tickers
    { s with tickers, metaObject := some (updateMeta m left last) }

def updateMarketHistories (c : Options) (timestamp : TimePointSec)
    (fills : List FillOrderOperation) (s : TickerState) : TickerState :=
  (fills.foldl (processFillOrder c timestamp) s).rollOut timestamp

end TickerState

/-! ## The last day -/

/-- The amounts that a fill counts for, in the base and in the quote of its market. -/
def FillOrderOperation.amounts (o : FillOrderOperation) : ℤ × ℤ :=
  (o.tradePrice.base.amount, o.tradePrice.quote.amount)

/-- Amounts in `uint128`. -/
def ofAmounts (x : ℤ × ℤ) : BitVec 128 × BitVec 128 := (BitVec.ofInt 128 x.1, BitVec.ofInt 128 x.2)

/-- The volumes of a ticker, of which there need not be one. -/
def volumes : Option MarketTickerObject → BitVec 128 × BitVec 128
  | none => (0, 0)
  | some ticker => (ticker.baseVolume, ticker.quoteVolume)

/-- What fills of one market count for together. -/
def amountsIn (market : MarketKey) (fills : List (TimePointSec × FillOrderOperation)) : ℤ × ℤ :=
  ((fills.filter fun f ↦ f.2.market = market).map fun f ↦ f.2.amounts).sum

structure Block where
  timestamp : TimePointSec
  fills : List FillOrderOperation

/-- The state of the plugin, with all fills so far and the time of the head block. -/
structure TickerRun where
  state : TickerState := .empty
  fills : List (TimePointSec × FillOrderOperation) := []
  headTime : TimePointSec := 0

namespace TickerRun

variable (c : Options)

/-- A block that is not later than the head block is not applied. -/
def step (r : TickerRun) (b : Block) : TickerRun :=
  if r.headTime < b.timestamp then
    { state := r.state.updateMarketHistories c b.timestamp b.fills
      fills := r.fills ++ b.fills.map fun o ↦ (b.timestamp, o)
      headTime := b.timestamp }
  else r

/-- The maker fills of the last 86400 seconds. -/
def lastDay (r : TickerRun) : List (TimePointSec × FillOrderOperation) :=
  r.fills.filter fun f ↦ f.2.isMaker ∧ r.headTime.toNat ≤ f.1.toNat + 86400

/-- The volumes are the sums over the maker fills of the last day. -/
def TickersRight (r : TickerRun) : Prop :=
  ∀ market, volumes (r.state.tickers market) = ofAmounts (amountsIn market r.lastDay)

end TickerRun

/-! ## Records that are not rolled out yet -/

namespace TickerState

/-- The record has not been rolled out. -/
def Live (m : Option MarketTickerMetaObject) (id : ℕ) : Prop :=
  ∃ m' ∈ m, m'.rollingMinOrderHisId ≤ id ∧
    ¬(m'.skipMinOrderHisId ∧ id = m'.rollingMinOrderHisId)

instance (m : Option MarketTickerMetaObject) (id : ℕ) : Decidable (Live m id) :=
  match m with
  | none => isFalse fun ⟨_, h, _⟩ ↦ nomatch h
  | some m => decidable_of_iff (m.rollingMinOrderHisId ≤ id ∧
      ¬(m.skipMinOrderHisId ∧ id = m.rollingMinOrderHisId))
      ⟨fun h ↦ ⟨m, rfl, h⟩, fun ⟨_, rfl, h⟩ ↦ h⟩

/-- No record of a maker fill is given up before it is rolled out. -/
def KeepsLive (c : Options) (now : TimePointSec) (s : TickerState) (o : FillOrderOperation) : Prop :=
  ∀ old ∈ (s.record now o).outdated c now o.market (s.nextSequence o.market),
    old.2.op.isMaker → ¬Live (s.record now o).metaObject old.1

/-- The remembered record is the only one that is left, and is rolled out now. -/
def Stuck (timestamp : TimePointSec) (s : TickerState) : Prop :=
  ∃ m ∈ s.metaObject, m.skipMinOrderHisId = false ∧ ∃ o ∈ s.rollingRecords m,
    s.rollingRecords m = [o] ∧ o.1 = m.rollingMinOrderHisId ∧ o.2.time < timestamp - 86400 ∧
      o.2.op.isMaker

instance (c : Options) (now : TimePointSec) (s : TickerState) (o : FillOrderOperation) :
    Decidable (s.KeepsLive c now o) := inferInstanceAs (Decidable (∀ old ∈ _, _ → ¬_))

instance (timestamp : TimePointSec) (s : TickerState) : Decidable (s.Stuck timestamp) :=
  inferInstanceAs (Decidable (∃ m ∈ s.metaObject, _))

/-- The fills of the live records of maker fills. -/
def liveFills (s : TickerState) : List (TimePointSec × FillOrderOperation) :=
  (s.history.objects.filter fun o ↦ o.2.op.isMaker ∧ Live s.metaObject o.1).map fun o ↦
    (o.2.time, o.2.op)

end TickerState

/-- A block is at least a day after the epoch, gives up no record of a maker fill before it is
rolled out, and does not leave the remembered record alone. -/
def TickerRun.RollsOut (c : Options) (r : TickerRun) (b : Block) : Prop :=
  r.headTime < b.timestamp → 86400 ≤ b.timestamp ∧
    Run.Meets (TickerState.processFillOrder c b.timestamp) (TickerState.KeepsLive c b.timestamp)
      r.state b.fills ∧
    ¬(b.fills.foldl (TickerState.processFillOrder c b.timestamp) r.state).Stuck b.timestamp

/-! ## Volumes -/

variable {market : MarketKey} {tickers : MarketKey → Option MarketTickerObject}
  {o : FillOrderOperation} {fills fills' : List (TimePointSec × FillOrderOperation)}

theorem ofAmounts_add (x y : ℤ × ℤ) : ofAmounts (x + y) = ofAmounts x + ofAmounts y :=
  Prod.ext (BitVec.ofInt_add _ _) (BitVec.ofInt_add _ _)

theorem amountsIn_append :
    amountsIn market (fills ++ fills') = amountsIn market fills + amountsIn market fills' := by
  simp [amountsIn]

theorem amountsIn_cons (f : TimePointSec × FillOrderOperation) :
    amountsIn market (f :: fills) =
      (if f.2.market = market then f.2.amounts else 0) + amountsIn market fills := by
  unfold amountsIn
  by_cases hf : f.2.market = market <;> simp [hf]

namespace TickerState

theorem volumes_addToTicker : volumes (addToTicker o tickers market) =
    volumes (tickers market) + ofAmounts (if o.market = market then o.amounts else 0) := by
  unfold addToTicker modifyTicker
  by_cases hmarket : o.market = market
  · subst hmarket
    rw [if_pos rfl]
    cases hticker : tickers o.market with
    | none => simp [volumes, ofAmounts, FillOrderOperation.amounts]
    | some ticker => simp [volumes, ofAmounts, FillOrderOperation.amounts]
  · rw [if_neg hmarket]
    have hzero : ofAmounts 0 = 0 := rfl
    cases hticker : tickers o.market <;>
      simp [hzero, Function.update_of_ne (Ne.symm hmarket)]

theorem isSome_addToTicker (h : (tickers market).isSome ∨ o.market = market) :
    (addToTicker o tickers market).isSome := by
  unfold addToTicker modifyTicker
  by_cases hmarket : market = o.market
  · subst hmarket
    cases hticker : tickers o.market <;> simp
  · have hsome := h.resolve_right fun heq ↦ hmarket heq.symm
    cases hticker : tickers o.market <;> simpa [Function.update_of_ne hmarket]

theorem volumes_takeFromTicker (h : (tickers o.market).isSome) :
    volumes (takeFromTicker o tickers market) +
      ofAmounts (if o.market = market then o.amounts else 0) = volumes (tickers market) := by
  obtain ⟨ticker, hticker⟩ := Option.isSome_iff_exists.mp h
  unfold takeFromTicker modifyTicker
  rw [hticker]
  by_cases hmarket : o.market = market
  · subst hmarket
    simp [hticker, volumes, ofAmounts, FillOrderOperation.amounts]
  · rw [if_neg hmarket]
    have hzero : ofAmounts 0 = 0 := rfl
    simp [hzero, Function.update_of_ne (Ne.symm hmarket)]

theorem isSome_takeFromTicker :
    (takeFromTicker o tickers market).isSome = (tickers market).isSome := by
  unfold takeFromTicker modifyTicker
  cases hticker : tickers o.market with
  | none => rfl
  | some ticker =>
      by_cases hmarket : market = o.market
      · subst hmarket
        simp [hticker]
      · simp [Function.update_of_ne hmarket]

/-- Fills that are taken away one after the other. -/
def takeAll (fills : List FillOrderOperation) (tickers : MarketKey → Option MarketTickerObject) :
    MarketKey → Option MarketTickerObject :=
  fills.foldl (fun tickers o ↦ takeFromTicker o tickers) tickers

theorem isSome_takeAll {fills : List FillOrderOperation} :
    (takeAll fills tickers market).isSome = (tickers market).isSome := by
  induction fills generalizing tickers with
  | nil => rfl
  | cons o fills ih =>
      have hrest : (takeAll fills (takeFromTicker o tickers) market).isSome =
        (takeFromTicker o tickers market).isSome := ih
      exact hrest.trans isSome_takeFromTicker

theorem volumes_takeAll (market : MarketKey) (h : ∀ f ∈ fills, (tickers f.2.market).isSome) :
    volumes (takeAll (fills.map Prod.snd) tickers market) + ofAmounts (amountsIn market fills) =
      volumes (tickers market) := by
  induction fills generalizing tickers with
  | nil =>
      have hzero : ofAmounts 0 = 0 := rfl
      simp [takeAll, amountsIn, hzero]
  | cons f fills ih =>
      have hrest : volumes (takeAll (fills.map Prod.snd) (takeFromTicker f.2 tickers) market) +
          ofAmounts (amountsIn market fills) = volumes (takeFromTicker f.2 tickers market) := by
        refine ih fun f' hf' ↦ ?_
        rw [isSome_takeFromTicker]
        exact h f' (List.mem_cons_of_mem _ hf')
      rw [amountsIn_cons, ofAmounts_add, add_comm (ofAmounts _) (ofAmounts _), ← add_assoc,
        ← volumes_takeFromTicker (h f List.mem_cons_self), ← hrest]
      rfl

/-! ## The loop -/

variable {rolling last : ℕ} {lastDay : TimePointSec} {records : List (ℕ × OrderHistoryObject)}
  {skip : Bool}

/-- The fills that the loop takes away, among the records that it passes. -/
def takenFills (rolling : ℕ) (skip : Bool) (records : List (ℕ × OrderHistoryObject)) :
    List FillOrderOperation :=
  (records.filter fun o ↦ o.2.op.isMaker ∧ ¬(skip ∧ o.1 = rolling)).map fun o ↦ o.2.op

theorem rollOutLoop_eq (hids : (records.map Prod.fst).Pairwise (· < ·)) :
    rollOutLoop rolling lastDay records skip last tickers =
      (records.dropWhile fun o ↦ o.2.time < lastDay,
        ((records.takeWhile fun o ↦ o.2.time < lastDay).map Prod.fst).getLastD last,
        takeAll (takenFills rolling skip (records.takeWhile fun o ↦ o.2.time < lastDay)) tickers) := by
  induction records generalizing skip last tickers with
  | nil => rfl
  | cons o records ih =>
      obtain ⟨id, r⟩ := o
      rw [List.map_cons, List.pairwise_cons] at hids
      unfold rollOutLoop
      by_cases hdue : r.time < lastDay
      · rw [if_pos hdue, List.dropWhile_cons_of_pos (by simpa using hdue),
          List.takeWhile_cons_of_pos (by simpa using hdue), List.map_cons, List.getLastD_cons]
        split_ifs with hskip hmaker
        · rw [ih hids.2]
          -- the remembered record comes first, so that the flag is not asked for again
          have hfree : takenFills rolling skip ((id, r) :: records.takeWhile fun o ↦ o.2.time < lastDay) =
              takenFills rolling false (records.takeWhile fun o ↦ o.2.time < lastDay) := by
            unfold takenFills
            rw [List.filter_cons_of_neg (by simp [hskip])]
            congr 1
            refine List.filter_congr fun o ho ↦ ?_
            have hne : o.1 ≠ rolling := by
              have hlt := hids.1 o.1 (List.mem_map_of_mem (List.takeWhile_subset _ ho))
              rw [hskip.2] at hlt
              exact hlt.ne'
            simp [hne]
          rw [hfree]
        · rw [ih hids.2]
          unfold takenFills
          rw [List.filter_cons_of_pos (by simpa [hmaker, imp_iff_not_or] using hskip)]
          rfl
        · rw [ih hids.2]
          unfold takenFills
          rw [List.filter_cons_of_neg (by simp [hmaker])]
      · rw [if_neg hdue, List.dropWhile_cons_of_neg (by simpa using hdue),
          List.takeWhile_cons_of_neg (by simpa using hdue)]
        rfl

/-! ## What holds between blocks -/

/-- The live records are the maker fills since some time, and the tickers count them. -/
structure Tracks (since : ℕ) (latest : TimePointSec)
    (fills : List (TimePointSec × FillOrderOperation)) (s : TickerState) : Prop where
  times : s.history.objects.Pairwise fun o o' ↦ o.2.time ≤ o'.2.time
  past : ∀ o ∈ s.history.objects, o.2.time ≤ latest
  live : s.liveFills = fills.filter fun f ↦ f.2.isMaker ∧ since ≤ f.1.toNat
  volumes : ∀ market, volumes (s.tickers market) = ofAmounts (amountsIn market s.liveFills)
  tickers : ∀ f ∈ s.liveFills, (s.tickers f.2.market).isSome
  nothing : s.metaObject = none → s.history.objects = []
  remembered : ∀ m ∈ s.metaObject, m.rollingMinOrderHisId < s.history.nextId

variable {since : ℕ} {latest timestamp : TimePointSec} {s : TickerState} {c : Options}

theorem tracks_empty : Tracks 0 0 [] empty where
  times := .nil
  past _ h := nomatch h
  live := rfl
  volumes _ := rfl
  tickers _ h := nomatch h
  nothing _ := rfl
  remembered _ h := nomatch h

theorem live_some {m : MarketTickerMetaObject} {id : ℕ} : Live (some m) id ↔
    m.rollingMinOrderHisId ≤ id ∧ ¬(m.skipMinOrderHisId ∧ id = m.rollingMinOrderHisId) :=
  ⟨fun ⟨_, rfl, h⟩ ↦ h, fun h ↦ ⟨m, rfl, h⟩⟩

theorem liveFills_of_meta {m : MarketTickerMetaObject} (hm : s.metaObject = some m) :
    s.liveFills = ((s.rollingRecords m).filter fun o ↦ o.2.op.isMaker ∧
      ¬(m.skipMinOrderHisId ∧ o.1 = m.rollingMinOrderHisId)).map fun o ↦ (o.2.time, o.2.op) := by
  unfold liveFills rollingRecords
  rw [List.filter_filter]
  congr 1
  refine List.filter_congr fun o _ ↦ ?_
  rw [← Bool.decide_and, decide_eq_decide, hm, live_some]
  tauto

/-- What a loop over records in the order of their times leaves is not older. -/
theorem le_of_mem_dropWhile (hrecords : records.Pairwise fun o o' ↦ o.2.time ≤ o'.2.time)
    {o : ℕ × OrderHistoryObject} (ho : o ∈ records.dropWhile fun o ↦ o.2.time < lastDay) :
    lastDay ≤ o.2.time := by
  induction records with
  | nil => cases ho
  | cons o' records ih =>
      rw [List.pairwise_cons] at hrecords
      by_cases hdue : o'.2.time < lastDay
      · rw [List.dropWhile_cons_of_pos (by simpa using hdue)] at ho
        exact ih hrecords.2 ho
      · rw [List.dropWhile_cons_of_neg (by simpa using hdue)] at ho
        have hle := UInt32.not_lt.mp hdue
        rcases List.mem_cons.mp ho with rfl | ho
        · exact hle
        · exact UInt32.le_trans hle (hrecords.1 o ho)

theorem filter_le_of_sorted {pre tail : List (ℕ × OrderHistoryObject)}
    {o : ℕ × OrderHistoryObject}
    (h : ((pre ++ o :: tail).map Prod.fst).Pairwise (· < ·)) :
    ((pre ++ o :: tail).filter fun o' ↦ o.1 ≤ o'.1) = o :: tail := by
  rw [List.map_append, List.map_cons, List.pairwise_append, List.pairwise_cons] at h
  obtain ⟨-, ⟨htail, -⟩, hpre⟩ := h
  rw [List.filter_append, List.filter_eq_nil_iff.mpr, List.nil_append,
    List.filter_cons_of_pos (by simp), List.filter_eq_self.mpr]
  · exact fun o' ho' ↦ by simpa using (htail o'.1 (List.mem_map_of_mem ho')).le
  · exact fun o' ho' ↦ by
      simpa using hpre o'.1 (List.mem_map_of_mem ho') o.1 List.mem_cons_self

theorem rollingRecords_sorted (m : MarketTickerMetaObject) (s : TickerState) :
    ((s.rollingRecords m).map Prod.fst).Pairwise (· < ·) :=
  s.history.sorted.sublist (List.filter_sublist.map Prod.fst)

theorem mem_rollingRecords {m : MarketTickerMetaObject} {o : ℕ × OrderHistoryObject} :
    o ∈ s.rollingRecords m ↔ o ∈ s.history.objects ∧ m.rollingMinOrderHisId ≤ o.1 := by
  simp [rollingRecords]

theorem rollOut_eq (timestamp : TimePointSec) {m : MarketTickerMetaObject}
    (hm : s.metaObject = some m) :
    s.rollOut timestamp = { s with
      tickers := takeAll (takenFills m.rollingMinOrderHisId m.skipMinOrderHisId
        ((s.rollingRecords m).takeWhile fun o ↦ o.2.time < timestamp - 86400)) s.tickers
      metaObject := some (updateMeta m
        ((s.rollingRecords m).dropWhile fun o ↦ o.2.time < timestamp - 86400)
        ((((s.rollingRecords m).takeWhile fun o ↦ o.2.time < timestamp - 86400).map
          Prod.fst).getLastD m.rollingMinOrderHisId)) } := by
  unfold rollOut
  rw [hm]
  dsimp only
  rw [rollOutLoop_eq (s.rollingRecords_sorted m)]

theorem le_getLastD_of_sorted {ids : List ℕ} {d : ℕ} (h : ids.Pairwise (· < ·)) :
    ∀ id ∈ ids, id ≤ ids.getLastD d := by
  intro id hid
  obtain rfl | ⟨pre, last, rfl⟩ := List.eq_nil_or_concat ids
  · cases hid
  · rw [List.concat_eq_append] at hid h ⊢
    rw [List.getLastD_concat]
    rcases List.mem_append.mp hid with hpre | hlast
    · exact ((List.pairwise_append.mp h).2.2 id hpre last List.mem_cons_self).le
    · exact (List.mem_singleton.mp hlast).le

/-- What is left begins after the remembered record. -/
theorem liveFills_left {m : MarketTickerMetaObject} {expired tail : List (ℕ × OrderHistoryObject)}
    {o : ℕ × OrderHistoryObject} (hrecords : s.rollingRecords m = expired ++ o :: tail)
    (hne : o.1 ≠ m.rollingMinOrderHisId)
    (hmeta : s.metaObject = some ⟨o.1, false⟩) :
    s.liveFills = ((o :: tail).filter fun o ↦ o.2.op.isMaker ∧
      ¬(m.skipMinOrderHisId ∧ o.1 = m.rollingMinOrderHisId)).map fun o ↦ (o.2.time, o.2.op) := by
  have hmem : o ∈ s.rollingRecords m := hrecords ▸ List.mem_append_right _ List.mem_cons_self
  have hle := (mem_rollingRecords.mp hmem).2
  have hsorted := s.rollingRecords_sorted m
  rw [hrecords] at hsorted
  have hleft : s.rollingRecords ⟨o.1, false⟩ = o :: tail := by
    rw [← filter_le_of_sorted hsorted, ← hrecords]
    unfold rollingRecords
    rw [List.filter_filter]
    refine List.filter_congr fun o' _ ↦ ?_
    rw [← Bool.decide_and, decide_eq_decide]
    dsimp only
    omega
  rw [liveFills_of_meta hmeta, hleft]
  congr 1
  refine List.filter_congr fun o' ho' ↦ ?_
  have hfar : o'.1 ≠ m.rollingMinOrderHisId := by
    rw [← hleft] at ho'
    have hge : o.1 ≤ o'.1 := (mem_rollingRecords.mp ho').2
    omega
  simp [hfar]

/-- All records have been passed. -/
theorem liveFills_none {m : MarketTickerMetaObject} {last : ℕ}
    (hrecords : ∀ o ∈ s.rollingRecords m, o.1 ≤ last) (hlast : m.rollingMinOrderHisId ≤ last)
    (hmeta : s.metaObject = some ⟨last, true⟩) : s.liveFills = [] := by
  rw [liveFills_of_meta hmeta]
  refine List.map_eq_nil_iff.mpr (List.filter_eq_nil_iff.mpr fun o ho ↦ ?_)
  obtain ⟨hmem, hle⟩ := mem_rollingRecords.mp ho
  have hge := hrecords o (mem_rollingRecords.mpr ⟨hmem, hlast.trans hle⟩)
  have heq : o.1 = last := le_antisymm hge hle
  simp [heq]

/-- The live records after the loop are those that it left, when it is not stuck. -/
theorem liveFills_rollOut {m : MarketTickerMetaObject} (hm : s.metaObject = some m)
    (hstuck : ¬s.Stuck timestamp) :
    (s.rollOut timestamp).liveFills =
      (((s.rollingRecords m).dropWhile fun o ↦ o.2.time < timestamp - 86400).filter fun o ↦
        o.2.op.isMaker ∧ ¬(m.skipMinOrderHisId ∧ o.1 = m.rollingMinOrderHisId)).map fun o ↦
          (o.2.time, o.2.op) := by
  have hsorted := s.rollingRecords_sorted m
  have hsplit := (s.rollingRecords m).takeWhile_append_dropWhile
    (p := fun o ↦ decide (o.2.time < timestamp - 86400))
  have hdue : ∀ o ∈ (s.rollingRecords m).takeWhile fun o ↦ o.2.time < timestamp - 86400,
      o.2.time < timestamp - 86400 := fun o ho ↦ by simpa using List.mem_takeWhile_imp ho
  rw [rollOut_eq _ hm]
  generalize (s.rollingRecords m).takeWhile _ = expired at hsplit hdue ⊢
  generalize (s.rollingRecords m).dropWhile _ = left at hsplit ⊢
  cases left with
  | cons o tail =>
      by_cases hne : o.1 = m.rollingMinOrderHisId
      · have hmeta : updateMeta m (o :: tail)
            ((expired.map Prod.fst).getLastD m.rollingMinOrderHisId) = m := if_neg (not_not.mpr hne)
        have hnone : expired = [] := by
          refine List.eq_nil_iff_forall_not_mem.mpr fun o' ho' ↦ ?_
          rw [← hsplit, List.map_append, List.map_cons, List.pairwise_append] at hsorted
          have hlt := hsorted.2.2 o'.1 (List.mem_map_of_mem ho') o.1 List.mem_cons_self
          have hge := (mem_rollingRecords.mp (hsplit ▸ List.mem_append_left _ ho')).2
          omega
        rw [hnone, List.nil_append] at hsplit
        rw [hmeta, hsplit]
        exact liveFills_of_meta rfl
      · have hmeta : updateMeta m (o :: tail)
            ((expired.map Prod.fst).getLastD m.rollingMinOrderHisId) = ⟨o.1, false⟩ := if_pos hne
        rw [hmeta]
        exact liveFills_left hsplit.symm hne rfl
  | nil =>
      rw [List.append_nil] at hsplit
      subst hsplit
      have hids := le_getLastD_of_sorted (d := m.rollingMinOrderHisId) hsorted
      by_cases hlast : ((s.rollingRecords m).map Prod.fst).getLastD m.rollingMinOrderHisId =
          m.rollingMinOrderHisId
      · rw [hlast] at hids ⊢
        have hmeta : updateMeta m [] m.rollingMinOrderHisId = m := if_neg (not_not.mpr rfl)
        have hlive := liveFills_of_meta (s := { s with
          tickers := takeAll (takenFills m.rollingMinOrderHisId m.skipMinOrderHisId
            (s.rollingRecords m)) s.tickers
          metaObject := some m }) rfl
        rw [hmeta]
        refine hlive.trans (List.map_eq_nil_iff.mpr (List.filter_eq_nil_iff.mpr fun o ho hfill ↦ ?_))
        obtain ⟨hmaker, hfree⟩ := of_decide_eq_true hfill
        change o ∈ s.rollingRecords m at ho
        have hid : ∀ o ∈ s.rollingRecords m, o.1 = m.rollingMinOrderHisId := fun o ho ↦
          le_antisymm (hids o.1 (List.mem_map_of_mem ho)) (mem_rollingRecords.mp ho).2
        have hone : s.rollingRecords m = [o] := by
          cases hrecords : s.rollingRecords m with
          | nil => simp [hrecords] at ho
          | cons first rest =>
              rw [hrecords, List.map_cons, List.pairwise_cons] at hsorted
              have hrest : rest = [] := List.eq_nil_iff_forall_not_mem.mpr fun o' ho' ↦ by
                have hlt := hsorted.1 o'.1 (List.mem_map_of_mem ho')
                have hfirst := hid first (hrecords ▸ List.mem_cons_self)
                have hother := hid o' (hrecords ▸ List.mem_cons_of_mem _ ho')
                omega
              subst hrest
              rw [hrecords] at ho
              rw [List.mem_singleton.mp ho]
        have hkey := hid o ho
        exact hstuck ⟨m, hm, by simpa [hkey] using hfree, o, ho, hone, hkey, hdue o ho, hmaker⟩
      · have hmeta : updateMeta m []
            (((s.rollingRecords m).map Prod.fst).getLastD m.rollingMinOrderHisId) =
              ⟨((s.rollingRecords m).map Prod.fst).getLastD m.rollingMinOrderHisId, true⟩ :=
          if_pos hlast
        rw [hmeta]
        refine liveFills_none (m := m) (fun o ho ↦ hids o.1 (List.mem_map_of_mem ho)) ?_ rfl
        rcases List.mem_cons.mp (List.getLastD_mem_cons (l := (s.rollingRecords m).map Prod.fst)
          (a := m.rollingMinOrderHisId)) with heq | hmem
        · exact absurd heq hlast
        · obtain ⟨o, ho, heq⟩ := List.mem_map.mp hmem
          exact heq ▸ (mem_rollingRecords.mp ho).2

theorem updateMeta_lt {m : MarketTickerMetaObject} {left : List (ℕ × OrderHistoryObject)}
    {n : ℕ} (hm : m.rollingMinOrderHisId < n) (hleft : ∀ o ∈ left, o.1 < n) (hlast : last < n) :
    (updateMeta m left last).rollingMinOrderHisId < n := by
  unfold updateMeta
  split
  · split_ifs
    · exact hleft _ List.mem_cons_self
    · exact hm
  · split_ifs
    · exact hlast
    · exact hm

theorem rollOut_of_none (hm : s.metaObject = none) : s.rollOut timestamp = s := by
  unfold rollOut
  rw [hm]

theorem takenFills_eq (m : MarketTickerMetaObject) (expired : List (ℕ × OrderHistoryObject)) :
    takenFills m.rollingMinOrderHisId m.skipMinOrderHisId expired =
      ((expired.filter fun o ↦ o.2.op.isMaker ∧
        ¬(m.skipMinOrderHisId ∧ o.1 = m.rollingMinOrderHisId)).map fun o ↦
          (o.2.time, o.2.op)).map Prod.snd := by
  rw [List.map_map]
  rfl

/-- The record that is remembered after the loop is not a future one. -/
theorem rollOut_remembered (timestamp : TimePointSec) {m : MarketTickerMetaObject}
    (hm : s.metaObject = some m)
    (hlt : m.rollingMinOrderHisId < s.history.nextId) :
    ∀ m' ∈ (s.rollOut timestamp).metaObject, m'.rollingMinOrderHisId < s.history.nextId := by
  have hrecord : ∀ o ∈ s.rollingRecords m, o.1 < s.history.nextId := fun o ho ↦
    s.history.fresh o (mem_rollingRecords.mp ho).1
  rw [rollOut_eq timestamp hm]
  intro m' hm'
  obtain rfl := Option.some.inj hm'
  refine updateMeta_lt hlt (fun o ho ↦ hrecord o (List.dropWhile_subset _ ho)) ?_
  rcases List.mem_cons.mp (List.getLastD_mem_cons (l := ((s.rollingRecords m).takeWhile
    fun o ↦ o.2.time < timestamp - 86400).map Prod.fst) (a := m.rollingMinOrderHisId)) with
    hlast | hmem
  · rw [hlast]
    exact hlt
  · obtain ⟨o, ho, hid⟩ := List.mem_map.mp hmem
    exact hid ▸ hrecord o (List.takeWhile_subset _ ho)

/-- The fills since a later beginning are among the live ones. -/
theorem Tracks.since_later {fills : List (TimePointSec × FillOrderOperation)} {later : ℕ}
    (hs : s.Tracks since latest fills) (hlater : since ≤ later) :
    (fills.filter fun f ↦ f.2.isMaker ∧ later ≤ f.1.toNat) =
      s.liveFills.filter fun f ↦ later ≤ f.1.toNat := by
  rw [hs.live, List.filter_filter]
  refine List.filter_congr fun f _ ↦ ?_
  rw [← Bool.decide_and, decide_eq_decide]
  constructor
  · exact fun ⟨hmaker, hle⟩ ↦ ⟨hle, hmaker, hlater.trans hle⟩
  · exact fun ⟨hle, hmaker, _⟩ ↦ ⟨hmaker, hle⟩

/-- Rolling out moves the beginning of the day. -/
theorem Tracks.rollOut {fills : List (TimePointSec × FillOrderOperation)}
    (hs : s.Tracks since timestamp fills) (hday : 86400 ≤ timestamp)
    (hsince : since ≤ timestamp.toNat - 86400) (hstuck : ¬s.Stuck timestamp) :
    (s.rollOut timestamp).Tracks (timestamp.toNat - 86400) timestamp fills := by
  have hlastDay : (timestamp - 86400).toNat = timestamp.toNat - 86400 :=
    UInt32.toNat_sub_of_le _ _ hday
  have hlater := hs.since_later hsince
  cases hm : s.metaObject with
  | none =>
      have hnone : s.liveFills = [] := by
        unfold liveFills
        rw [hs.nothing hm]
        rfl
      rw [rollOut_of_none hm]
      refine ⟨hs.times, hs.past, ?_, hs.volumes, hs.tickers, hs.nothing, hs.remembered⟩
      rw [hlater, hnone, List.filter_nil]
  | some m =>
      have hsplit := (s.rollingRecords m).takeWhile_append_dropWhile
        (p := fun o ↦ decide (o.2.time < timestamp - 86400))
      have hsorted : (s.rollingRecords m).Pairwise fun o o' ↦ o.2.time ≤ o'.2.time :=
        hs.times.sublist List.filter_sublist
      have hleft : ∀ o ∈ (s.rollingRecords m).dropWhile fun o ↦ o.2.time < timestamp - 86400,
          timestamp - 86400 ≤ o.2.time := fun o ho ↦ le_of_mem_dropWhile hsorted ho
      have hdue : ∀ o ∈ (s.rollingRecords m).takeWhile fun o ↦ o.2.time < timestamp - 86400,
          o.2.time < timestamp - 86400 := fun o ho ↦ by simpa using List.mem_takeWhile_imp ho
      have hremembered := rollOut_remembered timestamp hm (hs.remembered m hm)
      have hbefore := liveFills_of_meta hm
      have hafter := liveFills_rollOut hm hstuck
      have heq := rollOut_eq timestamp hm
      generalize (s.rollingRecords m).takeWhile _ = expired at hsplit hdue heq
      generalize (s.rollingRecords m).dropWhile _ = left at hsplit hleft hafter heq
      rw [← hsplit, List.filter_append, List.map_append, ← hafter] at hbefore
      have hsub : ∀ f ∈ (s.rollOut timestamp).liveFills, f ∈ s.liveFills := fun f hf ↦
        hbefore ▸ List.mem_append_right _ hf
      refine ⟨?_, ?_, ?_, fun market ↦ ?_, fun f hf ↦ ?_, ?_, ?_⟩
      · rw [heq]
        exact hs.times
      · rw [heq]
        exact hs.past
      · rw [hlater, hbefore, List.filter_append, List.filter_eq_nil_iff.mpr, List.nil_append,
          List.filter_eq_self.mpr]
        · intro f hf
          rw [hafter] at hf
          obtain ⟨o, ho, rfl⟩ := List.mem_map.mp hf
          have hle := hleft o (List.mem_of_mem_filter ho)
          rw [UInt32.le_iff_toNat_le, hlastDay] at hle
          exact decide_eq_true hle
        · intro f hf
          obtain ⟨o, ho, rfl⟩ := List.mem_map.mp hf
          have hlt := hdue o (List.mem_of_mem_filter ho)
          rw [UInt32.lt_iff_toNat_lt, hlastDay] at hlt
          simp only [decide_eq_true_eq]
          exact not_le.mpr hlt
      · have hvolumes := hs.volumes market
        rw [hbefore, amountsIn_append, ofAmounts_add] at hvolumes
        have htakeAll := volumes_takeAll market fun f hf ↦
          hs.tickers f (hbefore ▸ List.mem_append_left _ hf)
        rw [← takenFills_eq, hvolumes, add_comm (ofAmounts _) (ofAmounts _)] at htakeAll
        have hright := add_right_cancel htakeAll
        rw [heq] at hright ⊢
        exact hright
      · rw [heq]
        exact isSome_takeAll.trans (hs.tickers f (hsub f hf))
      · rw [heq]
        exact fun h ↦ nomatch h
      · have hhistory : (s.rollOut timestamp).history = s.history := by rw [heq]
        rw [hhistory]
        exact hremembered

/-! ## A fill is processed -/

variable {now : TimePointSec}

theorem removeAll_objects (records : List (ℕ × OrderHistoryObject)) (s : TickerState) :
    (s.removeAll records).history.nextId = s.history.nextId ∧
      (s.removeAll records).history.objects =
        s.history.objects.filter fun o ↦ o.1 ∉ records.map Prod.fst := by
  suffices h : ∀ history : ObjectIndex OrderHistoryObject,
      (records.foldl (fun history o ↦ history.remove o.1) history).nextId = history.nextId ∧
        (records.foldl (fun history o ↦ history.remove o.1) history).objects =
          history.objects.filter fun o ↦ o.1 ∉ records.map Prod.fst from h s.history
  induction records with
  | nil => simp
  | cons old records ih =>
      intro history
      obtain ⟨hnextId, hobjects⟩ := ih (history.remove old.1)
      refine ⟨hnextId, hobjects.trans ?_⟩
      unfold ObjectIndex.remove
      rw [List.filter_filter]
      refine List.filter_congr fun o _ ↦ ?_
      rw [← Bool.decide_and, decide_eq_decide, List.map_cons, List.mem_cons]
      tauto

theorem metaObject_record {m : MarketTickerMetaObject} (hm : s.metaObject = some m) :
    (s.record now o).metaObject = some m := by
  simp [record, hm]

theorem liveFills_record {fills : List (TimePointSec × FillOrderOperation)}
    (hs : s.Tracks since latest fills) :
    (s.record now o).liveFills = s.liveFills ++ if o.isMaker then [(now, o)] else [] := by
  have hobjects : (s.record now o).history.objects =
      s.history.objects ++ [(s.history.nextId, s.newRecord now o)] := rfl
  have hlive : Live (s.record now o).metaObject s.history.nextId := by
    cases hm : s.metaObject with
    | none =>
        refine ⟨⟨s.history.nextId, false⟩, by simp [record, hm], le_rfl, by simp⟩
    | some m =>
        have hlt := hs.remembered m hm
        rw [metaObject_record hm, live_some]
        exact ⟨hlt.le, fun h ↦ hlt.ne h.2.symm⟩
  have hold : ((s.history.objects.filter fun o' ↦ o'.2.op.isMaker ∧
      Live (s.record now o).metaObject o'.1).map fun o ↦ (o.2.time, o.2.op)) = s.liveFills := by
    cases hm : s.metaObject with
    | none =>
        unfold liveFills
        rw [hs.nothing hm]
        rfl
    | some m =>
        unfold liveFills
        rw [metaObject_record hm, hm]
  unfold liveFills
  rw [hobjects, List.filter_append, List.map_append]
  refine congr_arg₂ _ hold ?_
  by_cases hmaker : o.isMaker <;> simp [newRecord, hmaker, hlive]

theorem find_of_mem_outdated {sequence : ℤ} {old : ℕ × OrderHistoryObject}
    (h : old ∈ s.outdated c now market sequence) : s.history.find old.1 = some old.2 := by
  have hkey : ∀ {p : ℕ × OrderHistoryObject → Bool}, old ∈ (s.byKey market).dropWhile p →
      s.history.find old.1 = some old.2 := fun hmem ↦
    (ObjectIndex.mem_select.mp (List.dropWhile_subset _ hmem)).1
  have htime : ∀ {p : ℕ × OrderHistoryObject → Bool}, old ∈ (s.byMarketTime market).dropWhile p →
      s.history.find old.1 = some old.2 := fun hmem ↦
    (ObjectIndex.mem_select.mp (List.dropWhile_subset _ hmem)).1
  unfold outdated at h
  dsimp only at h
  split at h
  · cases h
  · rename_i hbeyond
    split at h
    · cases h
    · rename_i hexpired
      split_ifs at h
      · exact hkey (hbeyond ▸ h)
      · exact htime (hexpired ▸ h)

theorem liveFills_removeAll {records : List (ℕ × OrderHistoryObject)}
    (hrecords : ∀ old ∈ records, s.history.find old.1 = some old.2)
    (hlive : ∀ old ∈ records, old.2.op.isMaker → ¬Live s.metaObject old.1) :
    (s.removeAll records).liveFills = s.liveFills := by
  unfold liveFills
  rw [(removeAll_objects records s).2, List.filter_filter]
  congr 1
  refine List.filter_congr fun o ho ↦ ?_
  rw [← Bool.decide_and, decide_eq_decide]
  refine and_iff_left_of_imp fun ⟨hmaker, ho'⟩ hmem ↦ ?_
  obtain ⟨old, hold, heq⟩ := List.mem_map.mp hmem
  have hsame : old.2 = o.2 := by
    have hfind := ObjectIndex.find_eq_some.mpr ho
    rw [← heq, hrecords old hold] at hfind
    exact Option.some.inj hfind
  exact hlive old hold (hsame ▸ hmaker) (heq ▸ ho')

theorem processFillOrder_history : (s.processFillOrder c now o).history =
    ((s.record now o).removeAll
      ((s.record now o).outdated c now o.market (s.nextSequence o.market))).history := by
  unfold processFillOrder
  dsimp only
  split_ifs <;> rfl

theorem processFillOrder_tickers : (s.processFillOrder c now o).tickers =
    if o.isMaker then addToTicker o s.tickers else s.tickers := by
  unfold processFillOrder
  dsimp only
  split_ifs <;> rfl

theorem processFillOrder_metaObject : (s.processFillOrder c now o).metaObject =
    s.metaObject.or (some ⟨s.history.nextId, false⟩) := by
  unfold processFillOrder
  dsimp only
  split_ifs <;> rfl

theorem liveFills_processFillOrder {fills : List (TimePointSec × FillOrderOperation)}
    (hs : s.Tracks since latest fills) (hkeeps : s.KeepsLive c now o) :
    (s.processFillOrder c now o).liveFills =
      s.liveFills ++ if o.isMaker then [(now, o)] else [] := by
  rw [← liveFills_record hs, ← liveFills_removeAll (fun old h ↦ find_of_mem_outdated h) hkeeps]
  unfold processFillOrder
  dsimp only
  split_ifs <;> rfl

/-- What is kept of the history and of the new record. -/
theorem processFillOrder_sublist : (s.processFillOrder c now o).history.objects.Sublist
    (s.history.objects ++ [(s.history.nextId, s.newRecord now o)]) := by
  rw [processFillOrder_history, (removeAll_objects _ _).2]
  exact List.filter_sublist

theorem processFillOrder_nextId :
    (s.processFillOrder c now o).history.nextId = s.history.nextId + 1 := by
  rw [processFillOrder_history, (removeAll_objects _ _).1]
  rfl

/-- A fill is added to the tickers and to the live records. -/
theorem Tracks.processFillOrder {fills : List (TimePointSec × FillOrderOperation)}
    (hs : s.Tracks since latest fills) (hlatest : latest ≤ now) (hsince : since ≤ now.toNat)
    (hkeeps : s.KeepsLive c now o) :
    (s.processFillOrder c now o).Tracks since now (fills ++ [(now, o)]) := by
  have hlive := liveFills_processFillOrder hs hkeeps
  have hpast : ∀ o' ∈ s.history.objects, o'.2.time ≤ now := fun o' ho' ↦
    UInt32.le_trans (hs.past o' ho') hlatest
  refine ⟨?_, fun o' ho' ↦ ?_, ?_, fun market ↦ ?_, fun f hf ↦ ?_, ?_, ?_⟩
  · refine List.Pairwise.sublist processFillOrder_sublist (List.pairwise_append.mpr ⟨hs.times, by simp, ?_⟩)
    rintro o' ho' new hnew
    obtain rfl := List.mem_singleton.mp hnew
    exact hpast o' ho'
  · rcases List.mem_append.mp (processFillOrder_sublist.subset ho') with hold | hnew
    · exact hpast o' hold
    · obtain rfl := List.mem_singleton.mp hnew
      exact UInt32.le_refl now
  · rw [hlive, hs.live, List.filter_append]
    by_cases hmaker : o.isMaker <;> simp [hmaker, hsince]
  · rw [hlive, processFillOrder_tickers, amountsIn_append, ofAmounts_add, ← hs.volumes]
    split_ifs
    · rw [volumes_addToTicker, amountsIn_cons]
      simp [amountsIn]
    · have hzero : ofAmounts (amountsIn market []) = 0 := rfl
      rw [hzero, add_zero]
  · rw [hlive] at hf
    rw [processFillOrder_tickers]
    split_ifs at hf ⊢ with hmaker
    · refine isSome_addToTicker ?_
      rcases List.mem_append.mp hf with hold | hnew
      · exact .inl (hs.tickers f hold)
      · obtain rfl := List.mem_singleton.mp hnew
        exact .inr rfl
    · rw [List.append_nil] at hf
      exact hs.tickers f hf
  · rw [processFillOrder_metaObject]
    cases s.metaObject <;> simp
  · rw [processFillOrder_metaObject, processFillOrder_nextId]
    intro m hm
    cases hold : s.metaObject with
    | none =>
        rw [hold] at hm
        obtain rfl := Option.some.inj hm
        exact Nat.lt_succ_self _
    | some m' =>
        rw [hold] at hm
        obtain rfl := Option.some.inj hm
        exact (hs.remembered m' hold).trans (Nat.lt_succ_self _)

theorem Tracks.processFills {fills : List (TimePointSec × FillOrderOperation)}
    {os : List FillOrderOperation} (hs : s.Tracks since latest fills) (hlatest : latest ≤ now)
    (hsince : since ≤ now.toNat)
    (hkeeps : Run.Meets (TickerState.processFillOrder c now) (KeepsLive c now) s os) :
    (os.foldl (TickerState.processFillOrder c now) s).Tracks since now
      (fills ++ os.map fun o ↦ (now, o)) := by
  induction os generalizing s latest fills with
  | nil =>
      rw [List.map_nil, List.append_nil]
      exact { hs with past := fun o ho ↦ UInt32.le_trans (hs.past o ho) hlatest }
  | cons o os ih =>
      have hrest := ih (hs.processFillOrder hlatest hsince hkeeps.1) (UInt32.le_refl now) hkeeps.2
      rw [List.append_assoc] at hrest
      exact hrest

end TickerState

/-! ## Runs -/

namespace TickerRun

variable {c : Options} {r : TickerRun} {b : Block}

/-- The plugin tracks the fills of the last day. -/
def Tracked (r : TickerRun) : Prop := r.state.Tracks (r.headTime.toNat - 86400) r.headTime r.fills

theorem Tracked.tickersRight (hr : r.Tracked) : r.TickersRight := by
  have hday : (r.fills.filter fun f ↦ f.2.isMaker ∧ r.headTime.toNat - 86400 ≤ f.1.toNat) =
      r.lastDay := by
    refine List.filter_congr fun f _ ↦ ?_
    rw [decide_eq_decide, Nat.sub_le_iff_le_add]
  intro market
  rw [hr.volumes market, hr.live, hday]

theorem Tracked.step (hr : r.Tracked) (hrolls : r.RollsOut c b) : (r.step c b).Tracked := by
  unfold TickerRun.step
  split_ifs with hlater
  · obtain ⟨hday, hkeeps, hstuck⟩ := hrolls hlater
    have hlt : r.headTime.toNat < b.timestamp.toNat := UInt32.lt_iff_toNat_lt.mp hlater
    have hfilled := TickerState.Tracks.processFills hr (UInt32.le_of_lt hlater) (by omega) hkeeps
    exact hfilled.rollOut hday (by omega) hstuck
  · exact hr

/-- After each block of a run whose blocks roll out, the volumes of every ticker are the sums
over the maker fills of the last day. -/
theorem tickers_of_reaches (hr : Run.Reaches (step c) (RollsOut c) {} r) : r.TickersRight :=
  (hr.invariant Tracked TickerState.tracks_empty fun _ _ hr hrolls ↦ hr.step hrolls).tickersRight

/-! One maker fill. -/

def fiveForTen : FillOrderOperation where
  pays := ⟨5, 0⟩
  receives := ⟨10, 1⟩
  fillPrice := ⟨⟨5, 0⟩, ⟨10, 1⟩⟩
  isMaker := true
  distinct := by decide

theorem tickers_of_reaches_twice : (([⟨100000, [fiveForTen]⟩, ⟨100003, [fiveForTen]⟩] : List Block).foldl
    (step {}) {}).TickersRight := by
  refine tickers_of_reaches (Run.reaches_foldl ⟨fun _ ↦ ⟨by decide, ⟨?_, trivial⟩, ?_⟩,
    fun _ ↦ ⟨by decide, ⟨?_, trivial⟩, ?_⟩, trivial⟩) <;> decide +kernel

/-- The fill is taken away a day later, and once more with the next block. -/
theorem tickers_wrong : ¬(([⟨100000, [fiveForTen]⟩, ⟨200000, []⟩, ⟨200003, []⟩] : List Block).foldl
    (step {}) {}).TickersRight := by
  intro h
  have hmarket := h (0, 1)
  revert hmarket
  decide +kernel

end TickerRun

end KarmaCore.MarketHistory
