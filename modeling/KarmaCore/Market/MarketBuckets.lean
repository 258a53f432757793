import Mathlib
import KarmaCore.Market.MarketTicker
import KarmaCore.Market.PriceOrder

/-!
# The buckets of the market history plugin

For each size that is tracked, the maker fills of a market in a period of that size are put
together in a bucket: the first and the last price, the highest and the lowest, and the volume.
Buckets that are too many periods old go.
-/

namespace KarmaCore.MarketHistory

open Market

/-- The price of a fill is one of its market, and no amount is negative. -/
structure MarketFill extends FillOrderOperation where
  positive : toFillOrderOperation.orientedFillPrice.Positive
  pair : toFillOrderOperation.orientedFillPrice.OfPair toFillOrderOperation.market.1
    toFillOrderOperation.market.2
  base_nonneg : 0 ≤ toFillOrderOperation.tradePrice.base.amount
  base_lt : toFillOrderOperation.tradePrice.base.amount < shareEnd
  quote_nonneg : 0 ≤ toFillOrderOperation.tradePrice.quote.amount
  quote_lt : toFillOrderOperation.tradePrice.quote.amount < shareEnd

structure BucketKey where
  market : MarketKey
  seconds : ℕ
  openTime : ℕ
  deriving DecidableEq

structure BucketObject where
  highBase : ℤ
  highQuote : ℤ
  lowBase : ℤ
  lowQuote : ℤ
  openBase : ℤ
  openQuote : ℤ
  closeBase : ℤ
  closeQuote : ℤ
  baseVolume : ℤ
  quoteVolume : ℤ
  deriving DecidableEq

/-- `_tracked_buckets`, from which 0 is erased, and `_maximum_history_per_bucket_size`. -/
structure BucketOptions where
  trackedBuckets : List ℕ
  maximumHistory : ℕ := 1000
  nodup : trackedBuckets.Nodup
  pos : ∀ seconds ∈ trackedBuckets, 0 < seconds

/-- The index of the buckets by key. -/
abbrev Buckets := BucketKey → Option BucketObject

namespace BucketObject

def high (key : BucketKey) (b : BucketObject) : Price :=
  ⟨⟨b.highBase, key.market.1⟩, ⟨b.highQuote, key.market.2⟩⟩

def low (key : BucketKey) (b : BucketObject) : Price :=
  ⟨⟨b.lowBase, key.market.1⟩, ⟨b.lowQuote, key.market.2⟩⟩

/-- A volume that would overflow stays at the largest number; amounts are not negative, and none
underflows. -/
def addVolume (volume amount : ℤ) : ℤ := min (volume + amount) (shareEnd - 1)

/-- The bucket of a first fill. -/
def ofFill (o : FillOrderOperation) : BucketObject where
  highBase := o.orientedFillPrice.base.amount
  highQuote := o.orientedFillPrice.quote.amount
  lowBase := o.orientedFillPrice.base.amount
  lowQuote := o.orientedFillPrice.quote.amount
  openBase := o.orientedFillPrice.base.amount
  openQuote := o.orientedFillPrice.quote.amount
  closeBase := o.orientedFillPrice.base.amount
  closeQuote := o.orientedFillPrice.quote.amount
  baseVolume := o.tradePrice.base.amount
  quoteVolume := o.tradePrice.quote.amount

def raiseHigh (key : BucketKey) (price : Price) (b : BucketObject) : BucketObject :=
  if (b.high key).Lt price then
    { b with highBase := price.base.amount, highQuote := price.quote.amount }
  else b

def dropLow (key : BucketKey) (price : Price) (b : BucketObject) : BucketObject :=
  if (b.low key).Gt price then
    { b with lowBase := price.base.amount, lowQuote := price.quote.amount }
  else b

def addFill (key : BucketKey) (o : FillOrderOperation) (b : BucketObject) : BucketObject :=
  { b with
    baseVolume := addVolume b.baseVolume o.tradePrice.base.amount
    quoteVolume := addVolume b.quoteVolume o.tradePrice.quote.amount
    closeBase := o.orientedFillPrice.base.amount
    closeQuote := o.orientedFillPrice.quote.amount }
    |>.raiseHigh key o.orientedFillPrice |>.dropLow key o.orientedFillPrice

end BucketObject

namespace Buckets

/-- Buckets that open before this time are too old. -/
def cutoff (c : BucketOptions) (seconds now : ℕ) : ℕ :=
  if c.maximumHistory < now / seconds then seconds * (now / seconds - c.maximumHistory) else 0

/-- The loop from the first bucket of a market and a size on. -/
def removeOld (market : MarketKey) (seconds cutoff : ℕ) (buckets : Buckets) : Buckets :=
  fun key ↦
    if key.market = market ∧ key.seconds = seconds ∧ key.openTime < cutoff then none
    else buckets key

def updateBucket (c : BucketOptions) (now : ℕ) (o : FillOrderOperation) (buckets : Buckets)
    (seconds : ℕ) : Buckets :=
  let key : BucketKey := ⟨o.market, seconds, now / seconds * seconds⟩
  let bucket :=
    match buckets key with
    | none => .ofFill o
    | some b => b.addFill key o
  removeOld o.market seconds (cutoff c seconds now) (Function.update buckets key (some bucket))

/-- `operation_process_fill_order` from the buckets on. -/
def processFillOrder (c : BucketOptions) (now : ℕ) (buckets : Buckets) (o : FillOrderOperation) :
    Buckets :=
  if o.isMaker = false ∨ c.maximumHistory = 0 then buckets
  else c.trackedBuckets.foldl (updateBucket c now o) buckets

end Buckets

structure MarketBlock where
  timestamp : TimePointSec
  fills : List MarketFill

/-- The buckets, with all fills so far and the time of the head block. -/
structure BucketRun where
  buckets : Buckets := fun _ ↦ none
  fills : List (ℕ × MarketFill) := []
  headTime : TimePointSec := 0

namespace BucketRun

variable (c : BucketOptions)

def processFill (now : ℕ) (r : BucketRun) (o : MarketFill) : BucketRun :=
  { r with
    buckets := r.buckets.processFillOrder c now o.toFillOrderOperation
    fills := r.fills ++ [(now, o)] }

/-- A block that is not later than the head block is not applied. -/
def step (r : BucketRun) (b : MarketBlock) : BucketRun :=
  if r.headTime < b.timestamp then
    { b.fills.foldl (processFill c b.timestamp.toNat) r with headTime := b.timestamp }
  else r

end BucketRun

/-! ## What a bucket says -/

/-- The maker fills in the period of a bucket. -/
def fillsIn (key : BucketKey) (fills : List (ℕ × MarketFill)) : List (ℕ × MarketFill) :=
  fills.filter fun f ↦
    f.2.isMaker ∧ f.2.market = key.market ∧ f.1 / key.seconds * key.seconds = key.openTime

/-- A bucket of the period is kept: it is not too old for any fill of its market. -/
def Kept (c : BucketOptions) (fills : List (ℕ × MarketFill)) (key : BucketKey) : Prop :=
  key.seconds ∈ c.trackedBuckets ∧ c.maximumHistory ≠ 0 ∧ fillsIn key fills ≠ [] ∧
    ∀ f ∈ fills, f.2.isMaker → f.2.market = key.market →
      Buckets.cutoff c key.seconds f.1 ≤ key.openTime

/-- The bucket is the candle of the fills. -/
structure Candle (key : BucketKey) (fills : List (ℕ × MarketFill)) (b : BucketObject) :
    Prop where
  opens : ∃ f ∈ fills.head?, b.openBase = f.2.orientedFillPrice.base.amount ∧
    b.openQuote = f.2.orientedFillPrice.quote.amount
  closes : ∃ f ∈ fills.getLast?, b.closeBase = f.2.orientedFillPrice.base.amount ∧
    b.closeQuote = f.2.orientedFillPrice.quote.amount
  high_mem : ∃ f ∈ fills, b.high key = f.2.orientedFillPrice
  le_high : ∀ f ∈ fills, f.2.orientedFillPrice.Le (b.high key)
  low_mem : ∃ f ∈ fills, b.low key = f.2.orientedFillPrice
  low_le : ∀ f ∈ fills, (b.low key).Le f.2.orientedFillPrice
  baseVolume : b.baseVolume =
    min (fills.map fun f ↦ f.2.tradePrice.base.amount).sum (shareEnd - 1)
  quoteVolume : b.quoteVolume =
    min (fills.map fun f ↦ f.2.tradePrice.quote.amount).sum (shareEnd - 1)

/-- There is a bucket if the period is kept, and it is the candle of the fills in it. -/
def Tells (c : BucketOptions) (fills : List (ℕ × MarketFill)) (key : BucketKey)
    (bucket : Option BucketObject) : Prop :=
  (bucket.isSome ↔ Kept c fills key) ∧ ∀ b, bucket = some b → Candle key (fillsIn key fills) b

def Charted (c : BucketOptions) (r : BucketRun) : Prop :=
  ∀ key, Tells c r.fills key (r.buckets key)

/-! ## One fill -/

variable {c : BucketOptions} {r : BucketRun} {key : BucketKey} {b : BucketObject}
  {fills : List (ℕ × MarketFill)} {now : ℕ} {o : MarketFill}

namespace Buckets

theorem cutoff_mono (seconds : ℕ) {t t' : ℕ} (h : t ≤ t') :
    cutoff c seconds t ≤ cutoff c seconds t' := by
  have hdiv : t / seconds ≤ t' / seconds := Nat.div_le_div_right h
  unfold cutoff
  split_ifs with hlate hlate'
  · exact Nat.mul_le_mul_left seconds (Nat.sub_le_sub_right hdiv _)
  · exact absurd (hlate.trans_le hdiv) hlate'
  all_goals exact Nat.zero_le _

/-- What a fill does to a bucket of its market. -/
def turned (c : BucketOptions) (now : ℕ) (o : FillOrderOperation) (key : BucketKey)
    (old : Option BucketObject) : Option BucketObject :=
  if key.openTime < cutoff c key.seconds now then none
  else if now / key.seconds * key.seconds = key.openTime then
    match old with
    | none => some (.ofFill o)
    | some b => some (b.addFill key o)
  else old

theorem updateBucket_apply (o : FillOrderOperation) (buckets : Buckets) (seconds : ℕ) :
    updateBucket c now o buckets seconds key =
      if key.market = o.market ∧ key.seconds = seconds then turned c now o key (buckets key)
      else buckets key := by
  obtain ⟨market, size, openTime⟩ := key
  unfold updateBucket removeOld
  dsimp only
  by_cases hkey : market = o.market ∧ size = seconds
  · obtain ⟨rfl, rfl⟩ := hkey
    simp only [turned, true_and, and_self, if_true]
    by_cases hold : openTime < cutoff c size now
    · rw [if_pos hold, if_pos hold]
    · rw [if_neg hold, if_neg hold]
      by_cases hperiod : now / size * size = openTime
      · subst hperiod
        rw [Function.update_self, if_pos rfl]
        cases buckets ⟨o.market, size, now / size * size⟩ <;> rfl
      · rw [Function.update_of_ne, if_neg hperiod]
        intro heq
        exact hperiod (congrArg BucketKey.openTime heq).symm
  · rw [if_neg fun h ↦ hkey ⟨h.1, h.2.1⟩, if_neg hkey, Function.update_of_ne]
    intro heq
    exact hkey ⟨congrArg BucketKey.market heq, congrArg BucketKey.seconds heq⟩

/-- The sizes that are tracked do not meet. -/
theorem foldl_updateBucket (o : FillOrderOperation) {sizes : List ℕ} (hnodup : sizes.Nodup)
    (buckets : Buckets) :
    sizes.foldl (updateBucket c now o) buckets key =
      if key.market = o.market ∧ key.seconds ∈ sizes then turned c now o key (buckets key)
      else buckets key := by
  induction sizes generalizing buckets with
  | nil => simp
  | cons seconds sizes ih =>
      obtain ⟨hnotin, hrest⟩ := List.nodup_cons.mp hnodup
      rw [List.foldl_cons, ih hrest, updateBucket_apply]
      by_cases hmarket : key.market = o.market
      · by_cases hsize : key.seconds = seconds
        · subst hsize
          rw [if_neg fun h ↦ hnotin h.2, if_pos ⟨hmarket, rfl⟩,
            if_pos ⟨hmarket, List.mem_cons_self⟩]
        · simp [hmarket, hsize]
      · simp [hmarket]

theorem processFillOrder_apply (o : FillOrderOperation) (buckets : Buckets) :
    processFillOrder c now buckets o key =
      if (o.isMaker = true ∧ c.maximumHistory ≠ 0) ∧
          key.market = o.market ∧ key.seconds ∈ c.trackedBuckets then
        turned c now o key (buckets key)
      else buckets key := by
  unfold processFillOrder
  by_cases hskip : o.isMaker = false ∨ c.maximumHistory = 0
  · rw [if_pos hskip, if_neg]
    rintro ⟨⟨hmaker, hhistory⟩, -⟩
    rcases hskip with hnot | hzero
    · rw [hmaker] at hnot
      cases hnot
    · exact hhistory hzero
  · rw [if_neg hskip, foldl_updateBucket o c.nodup]
    obtain ⟨hmaker, hhistory⟩ := not_or.mp hskip
    rw [Bool.not_eq_false] at hmaker
    simp only [hmaker, hhistory, ne_eq, not_false_eq_true, and_self, true_and]

end Buckets

/-! ## Candles -/

namespace BucketObject

variable {price : Price}

theorem high_raiseHigh (hpair : price.OfPair key.market.1 key.market.2) :
    (b.raiseHigh key price).high key = if (b.high key).Lt price then price else b.high key := by
  unfold raiseHigh
  split_ifs
  · change Price.mk ⟨price.base.amount, key.market.1⟩ ⟨price.quote.amount, key.market.2⟩ = price
    rw [← hpair.1, ← hpair.2]
  · rfl

theorem low_dropLow (hpair : price.OfPair key.market.1 key.market.2) :
    (b.dropLow key price).low key = if (b.low key).Gt price then price else b.low key := by
  unfold dropLow
  split_ifs
  · change Price.mk ⟨price.base.amount, key.market.1⟩ ⟨price.quote.amount, key.market.2⟩ = price
    rw [← hpair.1, ← hpair.2]
  · rfl

theorem low_raiseHigh : (b.raiseHigh key price).low key = b.low key := by
  unfold raiseHigh
  split_ifs <;> rfl

theorem high_dropLow : (b.dropLow key price).high key = b.high key := by
  unfold dropLow
  split_ifs <;> rfl

/-- Neither the highest nor the lowest price is written with the others. -/
theorem addFill_rest (key : BucketKey) (b : BucketObject) (o : FillOrderOperation) :
    (b.addFill key o).openBase = b.openBase ∧ (b.addFill key o).openQuote = b.openQuote ∧
      (b.addFill key o).closeBase = o.orientedFillPrice.base.amount ∧
      (b.addFill key o).closeQuote = o.orientedFillPrice.quote.amount ∧
      (b.addFill key o).baseVolume = addVolume b.baseVolume o.tradePrice.base.amount ∧
      (b.addFill key o).quoteVolume = addVolume b.quoteVolume o.tradePrice.quote.amount := by
  unfold addFill raiseHigh dropLow
  split_ifs <;> exact ⟨rfl, rfl, rfl, rfl, rfl, rfl⟩

theorem addVolume_min {sum amount : ℤ} (h : 0 ≤ amount) :
    addVolume (min sum (shareEnd - 1)) amount = min (sum + amount) (shareEnd - 1) := by
  unfold addVolume
  omega

end BucketObject

open BucketObject

theorem candle_single (hmarket : o.market = key.market) :
    Candle key [(now, o)] (.ofFill o.toFillOrderOperation) := by
  have hpair := o.pair
  rw [hmarket] at hpair
  have hprice : Price.mk ⟨o.orientedFillPrice.base.amount, key.market.1⟩
      ⟨o.orientedFillPrice.quote.amount, key.market.2⟩ = o.orientedFillPrice := by
    rw [← hpair.1, ← hpair.2]
  have hself : o.orientedFillPrice.Le o.orientedFillPrice := .inl ⟨rfl, rfl, rfl⟩
  have hmem : ((now, o) : ℕ × MarketFill) ∈ [(now, o)] := List.mem_singleton_self _
  refine ⟨⟨_, rfl, rfl, rfl⟩, ⟨_, rfl, rfl, rfl⟩, ⟨_, hmem, hprice⟩, fun f hf ↦ ?_,
    ⟨_, hmem, hprice⟩, fun f hf ↦ ?_, ?_, ?_⟩
  · rw [List.mem_singleton.mp hf]
    exact hprice.symm ▸ hself
  · rw [List.mem_singleton.mp hf]
    exact hprice.symm ▸ hself
  · have hlt := o.base_lt
    simp only [List.map_singleton, List.sum_singleton, ofFill]
    omega
  · have hlt := o.quote_lt
    simp only [List.map_singleton, List.sum_singleton, ofFill]
    omega

/-- The candle of the fills so far becomes that of one more. -/
theorem Candle.addFill (h : Candle key fills b) (hfills : ∀ f ∈ fills, f.2.market = key.market)
    (hmarket : o.market = key.market) :
    Candle key (fills ++ [(now, o)]) (b.addFill key o.toFillOrderOperation) := by
  obtain ⟨hopenBase, hopenQuote, hcloseBase, hcloseQuote, hbaseVolume, hquoteVolume⟩ :=
    addFill_rest key b o.toFillOrderOperation
  have hpair := o.pair
  rw [hmarket] at hpair
  have hprice : ∀ f ∈ fills, f.2.orientedFillPrice.Positive ∧
      f.2.orientedFillPrice.OfPair key.market.1 key.market.2 := by
    intro f hf
    have hf' := f.2.pair
    rw [hfills f hf] at hf'
    exact ⟨f.2.positive, hf'⟩
  have hself : o.orientedFillPrice.Le o.orientedFillPrice := .inl ⟨rfl, rfl, rfl⟩
  have hmem : ((now, o) : ℕ × MarketFill) ∈ fills ++ [(now, o)] :=
    List.mem_append_right _ (List.mem_singleton_self _)
  obtain ⟨top, htop, hhigh⟩ := h.high_mem
  obtain ⟨bottom, hbottom, hlow⟩ := h.low_mem
  -- the new price is compared with a price of a fill, and prices of fills are ordered
  have hnewHigh : (b.addFill key o.toFillOrderOperation).high key =
      if (b.high key).Lt o.orientedFillPrice then o.orientedFillPrice else b.high key := by
    unfold BucketObject.addFill
    rw [high_dropLow, high_raiseHigh hpair]
    rfl
  have hnewLow : (b.addFill key o.toFillOrderOperation).low key =
      if (b.low key).Gt o.orientedFillPrice then o.orientedFillPrice else b.low key := by
    unfold BucketObject.addFill
    rw [low_dropLow hpair, low_raiseHigh]
    rfl
  refine ⟨?_, ?_, ?_, fun f hf ↦ ?_, ?_, fun f hf ↦ ?_, ?_, ?_⟩
  · obtain ⟨first, hfirst, hbase, hquote⟩ := h.opens
    refine ⟨first, ?_, hopenBase.trans hbase, hopenQuote.trans hquote⟩
    rw [List.head?_append, hfirst]
    rfl
  · exact ⟨(now, o), by simp, hcloseBase, hcloseQuote⟩
  · rw [hnewHigh]
    split_ifs
    · exact ⟨_, hmem, rfl⟩
    · exact ⟨top, List.mem_append_left _ htop, hhigh⟩
  · rw [hnewHigh]
    rcases List.mem_append.mp hf with hold | hnew
    · have hle := h.le_high f hold
      split_ifs with hlt
      · rw [hhigh] at hle hlt
        have horder := Price.ordered_of_positive (hprice f hold).1 (hprice top htop).1 o.positive
        have hnext := Price.ordered_of_positive (hprice top htop).1 o.positive o.positive
        exact horder.trans hle (hnext.lt_iff.mp hlt).1
      · exact hle
    · rw [List.mem_singleton.mp hnew]
      split_ifs with hlt
      · exact hself
      · rw [hhigh] at hlt ⊢
        have horder := Price.ordered_of_positive (hprice top htop).1 o.positive o.positive
        exact horder.ge_iff.mp hlt
  · rw [hnewLow]
    split_ifs
    · exact ⟨_, hmem, rfl⟩
    · exact ⟨bottom, List.mem_append_left _ hbottom, hlow⟩
  · rw [hnewLow]
    rcases List.mem_append.mp hf with hold | hnew
    · have hle := h.low_le f hold
      split_ifs with hgt
      · rw [hlow] at hle hgt
        have horder := Price.ordered_of_positive o.positive (hprice bottom hbottom).1
          (hprice f hold).1
        have hnext := Price.ordered_of_positive (hprice bottom hbottom).1 o.positive o.positive
        exact horder.trans (horder.lt_iff.mp (hnext.gt_iff.mp hgt)).1 hle
      · exact hle
    · rw [List.mem_singleton.mp hnew]
      split_ifs with hgt
      · exact hself
      · exact not_not.mp hgt
  · rw [hbaseVolume, h.baseVolume, addVolume_min o.base_nonneg]
    simp
  · rw [hquoteVolume, h.quoteVolume, addVolume_min o.quote_nonneg]
    simp

/-! ## Runs -/

theorem fillsIn_append_single :
    fillsIn key (fills ++ [(now, o)]) =
      if o.isMaker ∧ o.market = key.market ∧ now / key.seconds * key.seconds = key.openTime then
        fillsIn key fills ++ [(now, o)]
      else fillsIn key fills := by
  unfold fillsIn
  rw [List.filter_append]
  split_ifs with h
  · rw [List.filter_cons_of_pos (by simpa using h), List.filter_nil]
  · rw [List.filter_cons_of_neg (by simpa using h), List.filter_nil, List.append_nil]

theorem market_of_fillsIn {f : ℕ × MarketFill} (hf : f ∈ fillsIn key fills) :
    f ∈ fills ∧ f.2.isMaker = true ∧ f.2.market = key.market := by
  obtain ⟨hmem, hsel⟩ := List.mem_filter.mp hf
  obtain ⟨hmaker, hmarket, -⟩ := of_decide_eq_true hsel
  exact ⟨hmem, hmaker, hmarket⟩

/-- A fill that is not for the bucket changes nothing. -/
theorem kept_of_other (hother : ¬(o.isMaker = true ∧ o.market = key.market)) :
    Kept c (fills ++ [(now, o)]) key ↔ Kept c fills key := by
  have hsame : fillsIn key (fills ++ [(now, o)]) = fillsIn key fills := by
    rw [fillsIn_append_single, if_neg fun h ↦ hother ⟨h.1, h.2.1⟩]
  unfold Kept
  rw [hsame]
  refine and_congr_right fun _ ↦ and_congr_right fun _ ↦ and_congr_right fun _ ↦ ⟨?_, ?_⟩
  · intro h f hf
    exact h f (List.mem_append_left _ hf)
  · intro h f hf hmaker hmarket
    rcases List.mem_append.mp hf with hold | hnew
    · exact h f hold hmaker hmarket
    · rw [List.mem_singleton.mp hnew] at hmaker hmarket
      exact absurd ⟨hmaker, hmarket⟩ hother

theorem cutoff_le_of_later (hlater : ∀ f ∈ fills, f.1 ≤ now)
    (hnot : ¬key.openTime < Buckets.cutoff c key.seconds now) {f : ℕ × MarketFill}
    (hf : f ∈ fills ++ [(now, o)]) : Buckets.cutoff c key.seconds f.1 ≤ key.openTime := by
  rcases List.mem_append.mp hf with hold | hnew
  · exact (Buckets.cutoff_mono key.seconds (hlater f hold)).trans (not_lt.mp hnot)
  · rw [List.mem_singleton.mp hnew]
    exact not_lt.mp hnot

/-- A fill of the period begins the bucket or goes on with it. -/
theorem tells_of_period {old : Option BucketObject} (hlater : ∀ f ∈ fills, f.1 ≤ now)
    (hown : o.isMaker = true ∧ o.market = key.market)
    (htracked : c.maximumHistory ≠ 0 ∧ key.seconds ∈ c.trackedBuckets)
    (hnot : ¬key.openTime < Buckets.cutoff c key.seconds now)
    (hperiod : now / key.seconds * key.seconds = key.openTime) :
    Tells c fills key old → Tells c (fills ++ [(now, o)]) key (match old with
      | none => some (.ofFill o.toFillOrderOperation)
      | some b => some (b.addFill key o.toFillOrderOperation)) := by
  rintro ⟨hkept, hcandle⟩
  have hfills : fillsIn key (fills ++ [(now, o)]) = fillsIn key fills ++ [(now, o)] := by
    rw [fillsIn_append_single, if_pos ⟨hown.1, hown.2, hperiod⟩]
  have hkept' : Kept c (fills ++ [(now, o)]) key := by
    refine ⟨htracked.2, htracked.1, ?_, fun f hf _ _ ↦ cutoff_le_of_later hlater hnot hf⟩
    rw [hfills]
    exact List.append_ne_nil_of_right_ne_nil _ (List.cons_ne_nil _ _)
  unfold Tells
  rw [hfills]
  cases old with
  | none =>
      have hempty : fillsIn key fills = [] := by
        by_contra hne
        have hsome := hkept.mpr ⟨htracked.2, htracked.1, hne, fun f hf _ _ ↦
          cutoff_le_of_later (o := o) hlater hnot (List.mem_append_left _ hf)⟩
        cases hsome
      refine ⟨⟨fun _ ↦ hkept', fun _ ↦ rfl⟩, fun b hb ↦ ?_⟩
      cases hb
      rw [hempty]
      exact candle_single hown.2
  | some old =>
      refine ⟨⟨fun _ ↦ hkept', fun _ ↦ rfl⟩, fun b hb ↦ ?_⟩
      cases hb
      exact (hcandle old rfl).addFill (fun f hf ↦ (market_of_fillsIn hf).2.2) hown.2

/-- A fill of another period leaves the bucket as it is. -/
theorem tells_of_otherPeriod {old : Option BucketObject} (htells : Tells c fills key old)
    (hlater : ∀ f ∈ fills, f.1 ≤ now)
    (hnot : ¬key.openTime < Buckets.cutoff c key.seconds now)
    (hperiod : ¬now / key.seconds * key.seconds = key.openTime) :
    Tells c (fills ++ [(now, o)]) key old := by
  obtain ⟨hkept, hcandle⟩ := htells
  have hfills : fillsIn key (fills ++ [(now, o)]) = fillsIn key fills := by
    rw [fillsIn_append_single, if_neg fun h ↦ hperiod h.2.2]
  unfold Tells
  rw [hfills, hkept]
  refine ⟨⟨fun hkept' ↦ ?_, fun hkept' ↦ ?_⟩, hcandle⟩
  · exact ⟨hkept'.1, hkept'.2.1, hfills.symm ▸ hkept'.2.2.1, fun f hf _ _ ↦
      cutoff_le_of_later hlater hnot hf⟩
  · exact ⟨hkept'.1, hkept'.2.1, hfills ▸ hkept'.2.2.1, fun f hf ↦
      hkept'.2.2.2 f (List.mem_append_left _ hf)⟩

/-- One more fill, no earlier than the others. -/
theorem Charted.processFill (h : Charted c r) (hlater : ∀ f ∈ r.fills, f.1 ≤ now) (o : MarketFill) :
    Charted c (r.processFill c now o) := by
  intro key
  obtain ⟨hkept, hcandle⟩ := h key
  simp only [BucketRun.processFill, Buckets.processFillOrder_apply]
  by_cases hown : o.isMaker = true ∧ o.market = key.market
  · by_cases htracked : c.maximumHistory ≠ 0 ∧ key.seconds ∈ c.trackedBuckets
    · rw [if_pos ⟨⟨hown.1, htracked.1⟩, hown.2.symm, htracked.2⟩]
      unfold Buckets.turned
      split_ifs with hold hperiod
      · -- too old for the new fill
        refine ⟨⟨fun hsome ↦ (nomatch hsome), fun hkept' ↦ ?_⟩, fun b hb ↦ nomatch hb⟩
        have hnew := hkept'.2.2.2 (now, o)
          (List.mem_append_right _ (List.mem_singleton_self _)) hown.1 hown.2
        exact absurd hold (not_lt.mpr hnew)
      · exact tells_of_period hlater hown htracked hold hperiod (h key)
      · exact tells_of_otherPeriod (h key) hlater hold hperiod
    · -- the size is not tracked
      have hnone : ∀ fills, ¬Kept c fills key := fun fills hkept' ↦
        htracked ⟨hkept'.2.1, hkept'.1⟩
      rw [if_neg fun h ↦ htracked ⟨h.1.2, h.2.2⟩]
      have hbucket : r.buckets key = none := by
        rw [← Option.not_isSome_iff_eq_none, hkept]
        exact hnone _
      rw [hbucket]
      exact ⟨⟨fun hsome ↦ (nomatch hsome), fun hkept' ↦ absurd hkept' (hnone _)⟩,
        fun b hb ↦ nomatch hb⟩
  · have hfills : fillsIn key (r.fills ++ [(now, o)]) = fillsIn key r.fills := by
      rw [fillsIn_append_single, if_neg fun h ↦ hown ⟨h.1, h.2.1⟩]
    rw [if_neg fun h ↦ hown ⟨h.1.1, h.2.1.symm⟩]
    unfold Tells
    rw [hfills, kept_of_other hown]
    exact ⟨hkept, hcandle⟩

/-- The fills are in the order of their times, none later than the head block. -/
def Timed (r : BucketRun) : Prop := ∀ f ∈ r.fills, f.1 ≤ r.headTime.toNat

theorem charted_foldl (newFills : List MarketFill) (h : Charted c r)
    (hlater : ∀ f ∈ r.fills, f.1 ≤ now) :
    Charted c (newFills.foldl (BucketRun.processFill c now) r) ∧
      ∀ f ∈ (newFills.foldl (BucketRun.processFill c now) r).fills, f.1 ≤ now := by
  induction newFills generalizing r with
  | nil => exact ⟨h, hlater⟩
  | cons o newFills ih =>
      refine ih (h.processFill hlater o) fun f hf ↦ ?_
      rcases List.mem_append.mp hf with hold | hnew
      · exact hlater f hold
      · rw [List.mem_singleton.mp hnew]

theorem charted_step (b : MarketBlock) (h : Charted c r) (ht : Timed r) :
    Charted c (r.step c b) ∧ Timed (r.step c b) := by
  unfold BucketRun.step
  split_ifs with hlater
  · have htime : r.headTime.toNat ≤ b.timestamp.toNat := (UInt32.lt_iff_toNat_lt.mp hlater).le
    exact charted_foldl b.fills h fun f hf ↦ (ht f hf).trans htime
  · exact ⟨h, ht⟩

/-- After any blocks there is a bucket exactly for each tracked period with maker fills that is
not too old for any of the fills of its market, and it holds the first and the last price of
these fills, the highest and the lowest one, and their volume. -/
theorem buckets_of_run (c : BucketOptions) (blocks : List MarketBlock) :
    Charted c (blocks.foldl (BucketRun.step c) {}) := by
  have hstart : Charted c {} ∧ Timed {} := by
    refine ⟨fun key ↦ ⟨⟨fun hsome ↦ (nomatch hsome), fun hkept ↦ ?_⟩, fun b hb ↦ nomatch hb⟩,
      fun f hf ↦ absurd hf List.not_mem_nil⟩
    exact absurd rfl hkept.2.2.1
  have hrun : ∀ r, Charted c r ∧ Timed r → Charted c (blocks.foldl (BucketRun.step c) r) := by
    induction blocks with
    | nil => exact fun r hr ↦ hr.1
    | cons b blocks ih => exact fun r hr ↦ ih _ (charted_step b hr.1 hr.2)
  exact hrun {} hstart

def twoSizes : BucketOptions where
  trackedBuckets := [60, 3600]
  maximumHistory := 2
  nodup := by decide
  pos := by decide

theorem ten_pos : (0 : ℤ) < 10 := by decide

theorem ten_lt : (10 : ℤ) < shareEnd := by decide

/-- Ten of one asset for so many of another. -/
def tenFor (amount : ℤ) (hpos : 0 < amount) (hlt : amount < shareEnd) : MarketFill where
  pays := ⟨10, 0⟩
  receives := ⟨amount, 1⟩
  fillPrice := ⟨⟨10, 0⟩, ⟨amount, 1⟩⟩
  isMaker := true
  distinct := Nat.zero_ne_one
  positive := ⟨ten_pos, ten_lt, hpos, hlt⟩
  pair := ⟨rfl, rfl⟩
  base_nonneg := ten_pos.le
  base_lt := ten_lt
  quote_nonneg := hpos.le
  quote_lt := hlt

example :
    let r := [MarketBlock.mk 7200 [tenFor 20 (by decide) (by decide)],
      ⟨7230, [tenFor 30 (by decide) (by decide), tenFor 25 (by decide) (by decide)]⟩,
      ⟨7400, [tenFor 40 (by decide) (by decide)]⟩].foldl (BucketRun.step twoSizes) {}
    r.buckets ⟨(0, 1), 60, 7200⟩ = none ∧
      r.buckets ⟨(0, 1), 3600, 7200⟩ = some ⟨10, 20, 10, 40, 10, 20, 10, 40, 40, 115⟩ := by
  decide

end KarmaCore.MarketHistory
