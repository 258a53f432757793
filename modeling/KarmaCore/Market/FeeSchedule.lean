import Mathlib
import KarmaCore.Market.Fee

/-!
# The fee of an operation in another asset

`calculate_fee` converts the scaled core fee at an exchange rate, rounding down,
and raises the result until it is worth the fee again.
-/

namespace KarmaCore.Market

open Transfer (get get_eq_ok)

/-- The fee in core, `base_value * scale / GRAPHENE_100_PERCENT`. -/
def scaledFee (baseValue : UInt64) (scale : UInt32) : ℤ :=
  mul128 baseValue.toNat scale.toNat / percent100

/-- The loop that raises the fee. -/
def raiseFee (rate : Price) (scaled result : Asset) : Checked Asset :=
  match times result rate with
  | .error e => .error e
  | .ok value =>
    match value.lt scaled with
    | .error e => .error e
    | .ok false => .ok result
    | .ok true =>
      if _ : InShareRange (result.amount + 1) then
        raiseFee rate scaled { result with amount := result.amount + 1 }
      else .error .shareOverflow
termination_by (shareEnd - result.amount).toNat
decreasing_by
  obtain ⟨-, hlt⟩ := ‹InShareRange (result.amount + 1)›
  omega

/-- `calculate_fee`, given the fee the schedule has for the operation. -/
def calculateFee (baseValue : UInt64) (scale : UInt32) (rate : Price) : Checked Asset := do
  let scaled := scaledFee baseValue scale
  require (scaled ≤ maxShareSupply) "scaled <= GRAPHENE_MAX_SHARE_SUPPLY"
  let result ← times ⟨scaled, coreAsset⟩ rate
  let result ← raiseFee rate ⟨scaled, coreAsset⟩ result
  require (result.amount ≤ maxShareSupply) "result.amount <= GRAPHENE_MAX_SHARE_SUPPLY"
  return result

/-- What a fee is worth in core. -/
def coreValue (rate : Price) (fee : Asset) : Checked ℤ :=
  if fee.assetId = coreAsset then return fee.amount
  else do
    let value ← times fee rate
    require (value.assetId = coreAsset) "fee_from_pool.asset_id == asset_id_type()"
    return value.amount

/-- `prepare_fee` takes a fee for what it is worth at the rate of its asset. -/
theorem coreValue_of_prepareFee {s : MarketState} {payer : AccountId} {fee : Asset} {coreFeePaid : ℤ}
    (h : s.prepareFee payer fee = .ok coreFeePaid) : ∃ asset, s.assets.find fee.assetId = some asset ∧
      coreValue asset.options.coreExchangeRate fee = .ok coreFeePaid := by
  simp only [MarketState.prepareFee, Checked.bind_eq_ok, require_eq_ok, get_eq_ok] at h
  obtain ⟨_, -, _, -, asset, hasset, _, -, _, -, h⟩ := h
  refine ⟨asset, hasset, ?_⟩
  unfold coreValue
  split_ifs at h ⊢
  · exact h
  · simp only [Checked.bind_eq_ok, require_eq_ok] at h ⊢
    obtain ⟨value, hvalue, _, hid, _, -, h⟩ := h
    exact ⟨value, hvalue, (), hid, h⟩

/-! ## Rates -/

namespace Price

/-- A positive rate between core and the asset of the fee; between core and itself it is
`unit_price` or a multiple of it. -/
structure Relates (rate : Price) (feeAsset : AssetId) : Prop where
  base_pos : 0 < rate.base.amount
  base_lt : rate.base.amount < shareEnd
  quote_pos : 0 < rate.quote.amount
  quote_lt : rate.quote.amount < shareEnd
  sides : rate.base.assetId = coreAsset ∧ rate.quote.assetId = feeAsset ∨
    rate.quote.assetId = coreAsset ∧ rate.base.assetId = feeAsset
  unit : feeAsset = coreAsset → rate.base.amount = rate.quote.amount

def coreAmount (rate : Price) : ℤ :=
  if rate.base.assetId = coreAsset then rate.base.amount else rate.quote.amount

def feeAmount (rate : Price) : ℤ :=
  if rate.base.assetId = coreAsset then rate.quote.amount else rate.base.amount

end Price

variable {rate : Price} {feeAsset : AssetId} {scaled x : ℤ} {fee : Asset}

namespace Price.Relates

theorem coreAmount_pos (h : rate.Relates feeAsset) : 0 < rate.coreAmount := by
  unfold coreAmount
  split_ifs
  · exact h.base_pos
  · exact h.quote_pos

theorem feeAmount_pos (h : rate.Relates feeAsset) : 0 < rate.feeAmount := by
  unfold feeAmount
  split_ifs
  · exact h.quote_pos
  · exact h.base_pos

/-- One core is worth one core. -/
theorem coreAmount_eq (h : rate.Relates coreAsset) : rate.coreAmount = rate.feeAmount := by
  unfold coreAmount feeAmount
  split_ifs
  · exact h.unit rfl
  · exact (h.unit rfl).symm

theorem times_core (h : rate.Relates feeAsset) (hx : 0 ≤ x) (hlt : x < shareEnd) :
    times ⟨x, coreAsset⟩ rate = .ok fee ↔
      x * rate.feeAmount / rate.coreAmount ≤ maxShareSupply ∧
        ⟨x * rate.feeAmount / rate.coreAmount, feeAsset⟩ = fee := by
  have hquote := mul128_eq hx hlt h.quote_pos.le h.quote_lt
  have hbase := mul128_eq hx hlt h.base_pos.le h.base_lt
  rw [times_eq_ok, hquote, hbase, coreAmount, feeAmount]
  rcases h.sides with ⟨hcore, hfee⟩ | ⟨hcore, hfee⟩
  · simp only [hcore, hfee, if_true, h.base_pos, true_and, ne_eq, not_true, false_and, or_false]
  · by_cases hsame : feeAsset = coreAsset
    · simp only [hsame, hcore, hfee, if_true, h.base_pos, true_and, ne_eq, not_true, false_and, or_false]
    · simp only [hsame, Ne.symm hsame, hcore, hfee, if_false, h.quote_pos, true_and, ne_eq,
        not_false_eq_true, false_and, false_or]

theorem times_fee (h : rate.Relates feeAsset) (hx : 0 ≤ x) (hlt : x < shareEnd) :
    times ⟨x, feeAsset⟩ rate = .ok fee ↔
      x * rate.coreAmount / rate.feeAmount ≤ maxShareSupply ∧
        ⟨x * rate.coreAmount / rate.feeAmount, coreAsset⟩ = fee := by
  by_cases hcore : feeAsset = coreAsset
  · subst hcore
    rw [h.times_core hx hlt, h.coreAmount_eq]
  · have hquote := mul128_eq hx hlt h.quote_pos.le h.quote_lt
    have hbase := mul128_eq hx hlt h.base_pos.le h.base_lt
    rw [times_eq_ok, hquote, hbase, coreAmount, feeAmount]
    rcases h.sides with ⟨hbaseId, hquoteId⟩ | ⟨hquoteId, hbaseId⟩
    · simp only [hbaseId, hquoteId, hcore, if_true, h.quote_pos, true_and, ne_eq, not_false_eq_true,
        false_and, false_or]
    · simp only [hbaseId, hquoteId, hcore, if_false, h.base_pos, true_and, ne_eq, not_true, false_and,
        or_false]

end Price.Relates

/-! ## The least fee -/

/-- The fee that covers a fee in core, rounded up. -/
def leastFee (rate : Price) (scaled : ℤ) : ℤ :=
  (scaled * rate.feeAmount + rate.coreAmount - 1) / rate.coreAmount

/-- The fee is worth at least the fee in core. -/
theorem covers_iff (h : rate.Relates feeAsset) :
    scaled ≤ x * rate.coreAmount / rate.feeAmount ↔ leastFee rate scaled ≤ x := by
  have hcore := h.coreAmount_pos
  have hle : leastFee rate scaled ≤ x ↔ leastFee rate scaled < x + 1 := Int.lt_add_one_iff.symm
  rw [Int.le_ediv_iff_mul_le h.feeAmount_pos, hle, leastFee, Int.ediv_lt_iff_lt_mul hcore, add_mul]
  omega

/-- The fee rounded down is the least one or one below it. -/
theorem start_cases (scaled : ℤ) (h : rate.Relates feeAsset) :
    leastFee rate scaled = scaled * rate.feeAmount / rate.coreAmount ∨
      leastFee rate scaled = scaled * rate.feeAmount / rate.coreAmount + 1 := by
  have hcore := h.coreAmount_pos
  have hlow : scaled * rate.feeAmount / rate.coreAmount ≤ leastFee rate scaled :=
    Int.ediv_le_ediv hcore (by omega)
  have hhigh : leastFee rate scaled ≤ scaled * rate.feeAmount / rate.coreAmount + 1 := by
    have hstep : scaled * rate.feeAmount + rate.coreAmount - 1 ≤
        scaled * rate.feeAmount + 1 * rate.coreAmount := by omega
    exact (Int.ediv_le_ediv hcore hstep).trans_eq (Int.add_mul_ediv_right _ _ hcore.ne')
  omega

theorem value_mono (h : rate.Relates feeAsset) {y : ℤ} (hxy : x ≤ y) :
    x * rate.coreAmount / rate.feeAmount ≤ y * rate.coreAmount / rate.feeAmount :=
  Int.ediv_le_ediv h.feeAmount_pos (mul_le_mul_of_nonneg_right hxy h.coreAmount_pos.le)

/-- A fee that is not worth enough is raised by one. -/
theorem raiseFee_eq_ok (h : rate.Relates feeAsset) (hx : 0 ≤ x) (hlt : x < shareEnd) :
    raiseFee rate ⟨scaled, coreAsset⟩ ⟨x, feeAsset⟩ = .ok fee ↔
      x * rate.coreAmount / rate.feeAmount ≤ maxShareSupply ∧
        if leastFee rate scaled ≤ x then ⟨x, feeAsset⟩ = fee
        else x + 1 < shareEnd ∧ raiseFee rate ⟨scaled, coreAsset⟩ ⟨x + 1, feeAsset⟩ = .ok fee := by
  by_cases hmax : x * rate.coreAmount / rate.feeAmount ≤ maxShareSupply
  · have hvalue := (h.times_fee hx hlt).mpr ⟨hmax, rfl⟩
    have hless : Asset.lt ⟨x * rate.coreAmount / rate.feeAmount, coreAsset⟩ ⟨scaled, coreAsset⟩ =
        .ok (decide (x * rate.coreAmount / rate.feeAmount < scaled)) := Asset.lt_eq_ok.mpr ⟨rfl, rfl⟩
    have hrange : InShareRange (x + 1) ↔ x + 1 < shareEnd := by
      unfold InShareRange shareMin
      omega
    rw [raiseFee, hvalue]
    simp only [hless, hmax, true_and]
    by_cases hcover : leastFee rate scaled ≤ x
    · rw [decide_eq_false (not_lt.mpr ((covers_iff h).mpr hcover)), if_pos hcover]
      simp
    · rw [decide_eq_true (lt_of_not_ge fun hge ↦ hcover ((covers_iff h).mp hge)), if_neg hcover]
      by_cases hnext : x + 1 < shareEnd
      · simp only [hrange, hnext, dif_pos, true_and]
      · simp [hrange, hnext]
  · refine ⟨fun hraise ↦ absurd hraise ?_, fun hok ↦ absurd hok.1 hmax⟩
    have hthrows : ∀ value, times ⟨x, feeAsset⟩ rate ≠ .ok value :=
      fun value hvalue ↦ hmax ((h.times_fee hx hlt).mp hvalue).1
    rw [raiseFee]
    cases hvalue : times ⟨x, feeAsset⟩ rate with
    | error e => simp
    | ok value => exact absurd hvalue (hthrows value)

/-- No product on the way to the least fee is above `GRAPHENE_MAX_SHARE_SUPPLY`. -/
def NoProductExceeds (rate : Price) (scaled : ℤ) : Prop :=
  scaled ≤ maxShareSupply ∧ leastFee rate scaled ≤ maxShareSupply ∧
    leastFee rate scaled * rate.coreAmount / rate.feeAmount ≤ maxShareSupply

theorem scaledFee_nonneg (baseValue : UInt64) (scale : UInt32) : 0 ≤ scaledFee baseValue scale :=
  Int.ediv_nonneg (mul128_nonneg _ _) (by decide)

theorem raiseFee_start (h : rate.Relates feeAsset) (hscaled : 0 ≤ scaled)
    (hstart : scaled * rate.feeAmount / rate.coreAmount ≤ maxShareSupply) :
    raiseFee rate ⟨scaled, coreAsset⟩ ⟨scaled * rate.feeAmount / rate.coreAmount, feeAsset⟩ = .ok fee ↔
      leastFee rate scaled * rate.coreAmount / rate.feeAmount ≤ maxShareSupply ∧
        ⟨leastFee rate scaled, feeAsset⟩ = fee := by
  set start := scaled * rate.feeAmount / rate.coreAmount with hdef
  have hnonneg : 0 ≤ start :=
    Int.ediv_nonneg (mul_nonneg hscaled h.feeAmount_pos.le) h.coreAmount_pos.le
  have hend : start + 1 < shareEnd := by
    have : maxShareSupply + 1 < shareEnd := by decide
    omega
  rw [raiseFee_eq_ok h hnonneg (by omega)]
  rcases start_cases scaled h with hleast | hleast
  · rw [hleast, if_pos le_rfl]
  · rw [hleast, ← hdef, if_neg (by omega), raiseFee_eq_ok h (by omega) hend, hleast, if_pos le_rfl]
    have hmono : start * rate.coreAmount / rate.feeAmount ≤ (start + 1) * rate.coreAmount / rate.feeAmount :=
      value_mono h (by omega)
    constructor
    · rintro ⟨-, -, hmax, hfee⟩
      exact ⟨hmax, hfee⟩
    · rintro ⟨hmax, hfee⟩
      exact ⟨hmono.trans hmax, hend, hmax, hfee⟩

theorem calculateFee_eq_ok (h : rate.Relates feeAsset) (baseValue : UInt64) (scale : UInt32) :
    calculateFee baseValue scale rate = .ok fee ↔
      NoProductExceeds rate (scaledFee baseValue scale) ∧
        ⟨leastFee rate (scaledFee baseValue scale), feeAsset⟩ = fee := by
  have hnonneg := scaledFee_nonneg baseValue scale
  have hmax : maxShareSupply < shareEnd := by decide
  unfold calculateFee NoProductExceeds
  set scaled := scaledFee baseValue scale
  simp only [Checked.bind_eq_ok, require_eq_ok, Checked.pure_eq_ok]
  constructor
  · rintro ⟨_, hscaled, result, htimes, result, hraise, _, hresult, rfl⟩
    obtain ⟨hstart, rfl⟩ := (h.times_core hnonneg (by omega)).mp htimes
    obtain ⟨hvalue, rfl⟩ := (raiseFee_start h hnonneg hstart).mp hraise
    exact ⟨⟨hscaled, hresult, hvalue⟩, rfl⟩
  · rintro ⟨⟨hscaled, hresult, hvalue⟩, rfl⟩
    have hstart : scaled * rate.feeAmount / rate.coreAmount ≤ maxShareSupply := by
      rcases start_cases scaled h with hleast | hleast <;> omega
    exact ⟨(), hscaled, _, (h.times_core hnonneg (by omega)).mpr ⟨hstart, rfl⟩, _,
      (raiseFee_start h hnonneg hstart).mpr ⟨hvalue, rfl⟩, (), hresult, rfl⟩

theorem coreValue_eq_ok (h : rate.Relates feeAsset) (hx : 0 ≤ x) (hlt : x < shareEnd)
    (hmax : x * rate.coreAmount / rate.feeAmount ≤ maxShareSupply) :
    coreValue rate ⟨x, feeAsset⟩ = .ok (x * rate.coreAmount / rate.feeAmount) := by
  have hvalue := (h.times_fee hx hlt).mpr ⟨hmax, rfl⟩
  unfold coreValue
  split_ifs with hcore
  · obtain rfl : feeAsset = coreAsset := hcore
    rw [h.coreAmount_eq, Int.mul_ediv_cancel _ h.feeAmount_pos.ne']
    rfl
  · rw [hvalue]
    rfl

/-- The fee a schedule asks for in an asset is the least one worth the fee in core. It is had
unless a product exceeds the greatest supply. -/
theorem calculateFee_isLeast (h : rate.Relates feeAsset) (baseValue : UInt64) (scale : UInt32) :
    ((∃ fee, calculateFee baseValue scale rate = .ok fee) ↔
      NoProductExceeds rate (scaledFee baseValue scale)) ∧
    ∀ fee, calculateFee baseValue scale rate = .ok fee → fee.assetId = feeAsset ∧
      IsLeast {x | 0 ≤ x ∧ ∃ v, coreValue rate ⟨x, feeAsset⟩ = .ok v ∧ scaledFee baseValue scale ≤ v}
        fee.amount := by
  have hnonneg := scaledFee_nonneg baseValue scale
  have hend : maxShareSupply < shareEnd := by decide
  refine ⟨by simp only [calculateFee_eq_ok h, exists_and_left, exists_eq', and_true], ?_⟩
  intro fee hfee
  obtain ⟨⟨-, hleast, hvalue⟩, rfl⟩ := (calculateFee_eq_ok h baseValue scale).mp hfee
  have hleastNonneg : 0 ≤ leastFee rate (scaledFee baseValue scale) :=
    Int.ediv_nonneg (by
      have := h.coreAmount_pos
      have := mul_nonneg hnonneg h.feeAmount_pos.le
      omega) h.coreAmount_pos.le
  refine ⟨rfl, ⟨hleastNonneg, _, coreValue_eq_ok h hleastNonneg (hleast.trans_lt hend) hvalue,
    (covers_iff h).mpr le_rfl⟩, ?_⟩
  rintro y ⟨hy, v, hv, hcover⟩
  by_contra hlt
  have hlt := not_le.mp hlt
  have hsmall := (value_mono h hlt.le).trans hvalue
  rw [coreValue_eq_ok h hy ((hlt.le.trans hleast).trans_lt hend) hsmall, Except.ok.injEq] at hv
  exact hlt.not_ge ((covers_iff h).mp (hv ▸ hcover))

/-- 3 units of an asset for 2 of core. -/
theorem calculateFee_isLeast_rate :
    let rate : Price := ⟨⟨2, coreAsset⟩, ⟨3, 7⟩⟩
    rate.Relates 7 ∧ ∀ fee, calculateFee 5 10000 rate = .ok fee → fee.assetId = 7 ∧
      IsLeast {x | 0 ≤ x ∧ ∃ v, coreValue rate ⟨x, 7⟩ = .ok v ∧ scaledFee 5 10000 ≤ v} fee.amount :=
  have h : Price.Relates ⟨⟨2, coreAsset⟩, ⟨3, 7⟩⟩ 7 :=
    ⟨by decide, by decide, by decide, by decide, .inl ⟨rfl, rfl⟩, fun h ↦ absurd h (by decide)⟩
  ⟨h, (calculateFee_isLeast h 5 10000).2⟩

end KarmaCore.Market
