import Mathlib
import KarmaCore.Market.BookOrder

/-!
# The order of prices

Prices are ordered by their pair and then by their ratio, and an amount that is
exchanged at a price is rounded down both ways.
-/

namespace KarmaCore.Market

namespace Price

variable {p q r : Price} {a a' b b' : Asset}

/-- Both amounts are shares above zero. -/
structure Positive (p : Price) : Prop where
  base : 0 < p.base.amount
  base_lt : p.base.amount < shareEnd
  quote : 0 < p.quote.amount
  quote_lt : p.quote.amount < shareEnd

theorem Positive.comparable (hp : p.Positive) : p.Comparable :=
  ⟨hp.base.le, hp.base_lt, hp.quote, hp.quote_lt⟩

theorem Positive.inverse (hp : p.Positive) : p.inverse.Positive :=
  ⟨hp.quote, hp.quote_lt, hp.base, hp.base_lt⟩

theorem Positive.rate_pos (hp : p.Positive) : 0 < p.rate := by
  have hbase : (0 : ℚ) < p.base.amount := by exact_mod_cast hp.base
  have hquote : (0 : ℚ) < p.quote.amount := by exact_mod_cast hp.quote
  exact div_pos hbase hquote

def SamePair (p q : Price) : Prop := q.OfPair p.base.assetId p.quote.assetId

/-! ## The order -/

theorem Comparable.le_iff (hp : p.Comparable) (hq : q.Comparable) : p.Le q ↔ p.rank ≤ q.rank := by
  rw [Le, hp.same_iff hq, hp.lt_iff hq, le_iff_eq_or_lt]

theorem Comparable.ge_iff (hp : p.Comparable) (hq : q.Comparable) : p.Ge q ↔ q.rank ≤ p.rank := by
  rw [Ge, hp.lt_iff hq, not_lt]

theorem SamePair.rank_le_iff (h : SamePair p q) : p.rank ≤ q.rank ↔ p.rate ≤ q.rate := by
  rw [rank, rank, h.1, h.2, Prod.Lex.toLex_le_toLex, Prod.Lex.toLex_le_toLex]
  simp only [lt_self_iff_false, false_or, true_and]

theorem SamePair.rank_lt_iff (h : SamePair p q) : p.rank < q.rank ↔ p.rate < q.rate := by
  rw [rank, rank, h.1, h.2, Prod.Lex.toLex_lt_toLex, Prod.Lex.toLex_lt_toLex]
  simp only [lt_self_iff_false, false_or, true_and]

theorem SamePair.rank_eq_iff (h : SamePair p q) : p.rank = q.rank ↔ p.rate = q.rate := by
  rw [rank, rank, h.1, h.2, toLex_inj, Prod.mk.injEq, toLex_inj, Prod.mk.injEq]
  simp only [true_and]

/-- Between two prices of a pair there are only prices of that pair. -/
theorem samePair_of_between (hpr : SamePair p r) (hpq : p.rank ≤ q.rank) (hqr : q.rank ≤ r.rank) :
    SamePair p q := by
  rw [rank, rank, Prod.Lex.toLex_le_toLex, Prod.Lex.toLex_le_toLex] at hpq hqr
  rw [hpr.1, hpr.2] at hqr
  have hbase : q.base.assetId = p.base.assetId := by
    rcases hpq with hlt | ⟨heq, -⟩
    · rcases hqr with hlt' | ⟨heq', -⟩
      · exact absurd hlt' hlt.asymm
      · exact heq'
    · exact heq.symm
  refine ⟨hbase, ?_⟩
  simp only [hbase, lt_self_iff_false, false_or, true_and] at hpq hqr
  rcases hpq with hlt | ⟨heq, -⟩
  · rcases hqr with hlt' | ⟨heq', -⟩
    · exact absurd hlt' hlt.asymm
    · exact heq'
  · exact heq.symm

/-- What holds of the comparison of prices. -/
structure Ordered (p q r : Price) : Prop where
  refl : p.Le p
  trans : p.Le q → q.Le r → p.Le r
  total : p.Le q ∨ q.Le p
  lt_iff : p.Lt q ↔ p.Le q ∧ ¬q.Le p
  gt_iff : p.Gt q ↔ q.Lt p
  ge_iff : p.Ge q ↔ q.Le p
  same_iff : p.Same q ↔ ¬p.Lt q ∧ ¬q.Lt p
  grouped : SamePair p r → p.Le q → q.Le r → SamePair p q
  le_ratio : SamePair p q → (p.Le q ↔ p.rate ≤ q.rate)
  lt_ratio : SamePair p q → (p.Lt q ↔ p.rate < q.rate)
  same_ratio : SamePair p q → (p.Same q ↔ p.rate = q.rate)
  inverse_le : SamePair p q → (p.inverse.Le q.inverse ↔ q.Le p)
  inverse_lt : SamePair p q → (p.inverse.Lt q.inverse ↔ q.Lt p)

theorem SamePair.symm (h : SamePair p q) : SamePair q p := ⟨h.1.symm, h.2.symm⟩

theorem SamePair.inverse (h : SamePair p q) : SamePair p.inverse q.inverse := ⟨h.2, h.1⟩

theorem ordered_of_positive (hp : p.Positive) (hq : q.Positive) (hr : r.Positive) :
    Ordered p q r := by
  have hpq := hp.comparable.le_iff hq.comparable
  have hqp := hq.comparable.le_iff hp.comparable
  have hlt := hp.comparable.lt_iff hq.comparable
  have hlt' := hq.comparable.lt_iff hp.comparable
  have hinverse : p.inverse.rate = p.rate⁻¹ ∧ q.inverse.rate = q.rate⁻¹ :=
    ⟨p.rate_inverse, q.rate_inverse⟩
  refine ⟨.inl ⟨rfl, rfl, rfl⟩, ?_, ?_, ?_, ?_, ?_, ?_, ?_, ?_, ?_, ?_, ?_, ?_⟩
  · rw [hpq, hq.comparable.le_iff hr.comparable, hp.comparable.le_iff hr.comparable]
    exact le_trans
  · rw [hpq, hqp]
    exact le_total _ _
  · rw [hlt, hpq, hqp]
    exact lt_iff_le_not_ge
  · rw [hp.comparable.gt_iff hq.comparable, hlt']
  · rw [hp.comparable.ge_iff hq.comparable, hqp]
  · rw [hp.comparable.same_iff hq.comparable, hlt, hlt', not_lt, not_lt]
    exact ⟨fun h ↦ ⟨h.ge, h.le⟩, fun h ↦ le_antisymm h.2 h.1⟩
  · intro hpr hle hle'
    exact samePair_of_between hpr (hpq.mp hle) ((hq.comparable.le_iff hr.comparable).mp hle')
  · intro h
    rw [hpq, h.rank_le_iff]
  · intro h
    rw [hlt, h.rank_lt_iff]
  · intro h
    rw [hp.comparable.same_iff hq.comparable, h.rank_eq_iff]
  · intro h
    rw [hp.inverse.comparable.le_iff hq.inverse.comparable, h.inverse.rank_le_iff, hinverse.1,
      hinverse.2, inv_le_inv₀ hp.rate_pos hq.rate_pos, hqp, h.symm.rank_le_iff]
  · intro h
    rw [hp.inverse.comparable.lt_iff hq.inverse.comparable, h.inverse.rank_lt_iff, hinverse.1,
      hinverse.2, inv_lt_inv₀ hp.rate_pos hq.rate_pos, hlt', h.symm.rank_lt_iff]

/-! ## Exchanging an amount -/

/-- An amount below zero wraps around, and its product is above the largest supply. -/
theorem maxShareSupply_lt_of_neg {x y z : ℤ} (hx : shareMin ≤ x) (hneg : x < 0) (hy : 0 < y)
    (hy' : y < shareEnd) (hz : 0 < z) (hz' : z < shareEnd) :
    maxShareSupply < mul128 x y / z := by
  have hlow : -2 ^ 126 ≤ x * y := by
    have hxy : shareMin * shareEnd ≤ x * y := by
      have hstep : shareMin * shareEnd ≤ shareMin * y :=
        mul_le_mul_of_nonpos_left hy'.le (by decide)
      exact hstep.trans (mul_le_mul_of_nonneg_right hx hy.le)
    exact le_trans (by decide) hxy
  have hhigh : x * y < 0 := mul_neg_of_neg_of_pos hneg hy
  have hwrapped : mul128 x y = x * y + 2 ^ 128 := by
    rw [mul128]
    omega
  have hprod : (maxShareSupply + 1) * z ≤ (maxShareSupply + 1) * shareEnd :=
    mul_le_mul_of_nonneg_left hz'.le (by decide)
  have hlarge : (maxShareSupply + 1) * shareEnd ≤ 2 ^ 128 - 2 ^ 126 := by decide
  have hdiv : maxShareSupply + 1 ≤ mul128 x y / z := by
    apply (Int.le_ediv_iff_mul_le hz).mpr
    rw [hwrapped]
    omega
  omega

/-- The amount `x` at the ratio of `y` to `z`, rounded down. -/
def exchanged (x y z : ℤ) : ℤ := x * y / z

theorem exchanged_back {x y z : ℤ} (hy : 0 < y) (hz : 0 < z) :
    exchanged (exchanged x y z) z y ≤ x := by
  have hfloor : x * y / z * z ≤ x * y := Int.ediv_mul_le _ hz.ne'
  exact Int.ediv_le_of_le_mul hy hfloor

theorem exchanged_mono {x x' y z : ℤ} (hx : x ≤ x') (hy : 0 < y) (hz : 0 < z) :
    exchanged x y z ≤ exchanged x' y z :=
  Int.ediv_le_ediv hz (mul_le_mul_of_nonneg_right hx hy.le)

/-- A larger ratio gives no less. -/
theorem exchanged_mono_ratio {x y z y' z' : ℤ} (hx : 0 ≤ x) (hz : 0 < z) (hz' : 0 < z')
    (hratio : y * z' ≤ y' * z) : exchanged x y z ≤ exchanged x y' z' := by
  apply (Int.le_ediv_iff_mul_le hz').mpr
  have hfloor : exchanged x y z * z ≤ x * y := Int.ediv_mul_le _ hz.ne'
  have hscaled : exchanged x y z * z' * z ≤ x * y' * z := calc
    exchanged x y z * z' * z = exchanged x y z * z * z' := by ring
    _ ≤ x * y * z' := mul_le_mul_of_nonneg_right hfloor hz'.le
    _ = x * (y * z') := by ring
    _ ≤ x * (y' * z) := mul_le_mul_of_nonneg_left hratio hx
    _ = x * y' * z := by ring
  exact le_of_mul_le_mul_right hscaled hz

/-- One side of a price is exchanged for the other one. -/
structure Exchange (a b : Asset) (here there : Asset) : Prop where
  from_eq : a.assetId = here.assetId
  to_eq : b.assetId = there.assetId
  amount : b.amount = exchanged a.amount there.amount here.amount

theorem Positive.exchange (hp : p.Positive) (ha : InShareRange a.amount) (h : times a p = .ok b) :
    0 ≤ a.amount ∧ b.amount ≤ maxShareSupply ∧ 0 ≤ b.amount ∧
      (Exchange a b p.base p.quote ∨
        a.assetId ≠ p.base.assetId ∧ Exchange a b p.quote p.base) := by
  have hb : 0 ≤ b.amount := times_nonneg h
  rcases times_eq_ok.mp h with ⟨hfrom, -, hle, rfl⟩ | ⟨hnot, hfrom, -, hle, rfl⟩
  · have hnonneg : 0 ≤ a.amount := by
      by_contra hneg
      exact absurd hle (not_le.mpr (maxShareSupply_lt_of_neg ha.1 (not_le.mp hneg) hp.quote
        hp.quote_lt hp.base hp.base_lt))
    refine ⟨hnonneg, hle, hb, .inl ⟨hfrom, rfl, ?_⟩⟩
    rw [exchanged, mul128_eq hnonneg ha.2 hp.quote.le hp.quote_lt]
  · have hnonneg : 0 ≤ a.amount := by
      by_contra hneg
      exact absurd hle (not_le.mpr (maxShareSupply_lt_of_neg ha.1 (not_le.mp hneg) hp.base
        hp.base_lt hp.quote hp.quote_lt))
    refine ⟨hnonneg, hle, hb, .inr ⟨hnot, hfrom, rfl, ?_⟩⟩
    rw [exchanged, mul128_eq hnonneg ha.2 hp.base.le hp.base_lt]

/-- A smaller amount can be exchanged where a larger one can. -/
theorem Positive.times_of_le (hp : p.Positive) (hnonneg : 0 ≤ a.amount) (hle : a.amount ≤ a'.amount)
    (ha' : InShareRange a'.amount) (hasset : a.assetId = a'.assetId) (h : times a' p = .ok b') :
    ∃ b, times a p = .ok b := by
  have hlt : a.amount < shareEnd := hle.trans_lt ha'.2
  rcases times_eq_ok.mp h with ⟨hfrom, hpos, hmax, rfl⟩ | ⟨hnot, hfrom, hpos, hmax, rfl⟩
  · refine ⟨_, times_eq_ok.mpr (.inl ⟨hasset.trans hfrom, hpos, ?_, rfl⟩)⟩
    rw [mul128_eq (hnonneg.trans hle) ha'.2 hp.quote.le hp.quote_lt] at hmax
    rw [mul128_eq hnonneg hlt hp.quote.le hp.quote_lt]
    exact (exchanged_mono hle hp.quote hpos).trans hmax
  · refine ⟨_, times_eq_ok.mpr (.inr ⟨hasset ▸ hnot, hasset.trans hfrom, hpos, ?_, rfl⟩)⟩
    rw [mul128_eq (hnonneg.trans hle) ha'.2 hp.base.le hp.base_lt] at hmax
    rw [mul128_eq hnonneg hlt hp.base.le hp.base_lt]
    exact (exchanged_mono hle hp.base hpos).trans hmax

theorem Positive.times_mono (hp : p.Positive) (ha : InShareRange a.amount)
    (ha' : InShareRange a'.amount) (hasset : a.assetId = a'.assetId) (hle : a.amount ≤ a'.amount)
    (h : times a p = .ok b) (h' : times a' p = .ok b') :
    b.assetId = b'.assetId ∧ b.amount ≤ b'.amount := by
  obtain ⟨-, -, -, hto⟩ := hp.exchange ha h
  obtain ⟨-, -, -, hto'⟩ := hp.exchange ha' h'
  rcases hto with hto | ⟨hnot, hto⟩ <;> rcases hto' with hto' | ⟨hnot', hto'⟩
  · rw [hto.amount, hto'.amount]
    exact ⟨hto.to_eq.trans hto'.to_eq.symm, exchanged_mono hle hp.quote hp.base⟩
  · exact absurd (hasset ▸ hto.from_eq) hnot'
  · exact absurd (hasset.trans hto'.from_eq) hnot
  · rw [hto.amount, hto'.amount]
    exact ⟨hto.to_eq.trans hto'.to_eq.symm, exchanged_mono hle hp.base hp.quote⟩

/-- There and back nothing is gained. -/
theorem Positive.times_back (hp : p.Positive) (hne : p.base.assetId ≠ p.quote.assetId)
    (ha : InShareRange a.amount) (h : times a p = .ok b) (h' : times b p = .ok a') :
    a'.assetId = a.assetId ∧ a'.amount ≤ a.amount := by
  obtain ⟨-, hmax, hnonneg, hto⟩ := hp.exchange ha h
  have hb : InShareRange b.amount :=
    ⟨le_trans (by decide) hnonneg, hmax.trans_lt (by decide)⟩
  obtain ⟨-, -, -, hback⟩ := hp.exchange hb h'
  rcases hto with hto | ⟨-, hto⟩ <;> rcases hback with hback | ⟨hnot, hback⟩
  · exact absurd (hback.from_eq.symm.trans hto.to_eq) hne
  · rw [hback.amount, hto.amount]
    exact ⟨hback.to_eq.trans hto.from_eq.symm, exchanged_back hp.quote hp.base⟩
  · rw [hback.amount, hto.amount]
    exact ⟨hback.to_eq.trans hto.from_eq.symm, exchanged_back hp.base hp.quote⟩
  · exact absurd hto.to_eq hnot

theorem Positive.times_mono_price (hp : p.Positive) (hq : q.Positive)
    (hne : p.base.assetId ≠ p.quote.assetId) (hpair : SamePair p q) (hle : p.Le q)
    (ha : InShareRange a.amount) (h : times a p = .ok b) (h' : times a q = .ok b') :
    (a.assetId = p.quote.assetId → b.amount ≤ b'.amount) ∧
      (a.assetId = p.base.assetId → b'.amount ≤ b.amount) := by
  obtain ⟨hnonneg, -, -, hto⟩ := hp.exchange ha h
  obtain ⟨-, -, -, hto'⟩ := hq.exchange ha h'
  have hratio : p.base.amount * q.quote.amount ≤ q.base.amount * p.quote.amount := by
    have hrate : p.rate ≤ q.rate :=
      hpair.rank_le_iff.mp ((hp.comparable.le_iff hq.comparable).mp hle)
    exact not_lt.mp fun hlt ↦
      not_lt.mpr hrate ((hq.comparable.rate_lt_iff hp.comparable).mpr hlt)
  rw [hpair.1] at hto'
  constructor
  · intro hfrom
    rcases hto with hto | ⟨-, hto⟩
    · exact absurd (hto.from_eq.symm.trans hfrom) hne
    rcases hto' with hto' | ⟨-, hto'⟩
    · exact absurd ((hto'.from_eq.trans hpair.1).symm.trans hfrom) hne
    · rw [hto.amount, hto'.amount]
      exact exchanged_mono_ratio hnonneg hp.quote hq.quote hratio
  · intro hfrom
    rcases hto with hto | ⟨hnot, -⟩
    · rcases hto' with hto' | ⟨hnot', -⟩
      · rw [hto.amount, hto'.amount]
        apply exchanged_mono_ratio hnonneg hq.base hp.base
        linarith
      · exact absurd hfrom hnot'
    · exact absurd hfrom hnot

/-- What holds of amounts that are exchanged at a price of two assets. -/
structure Exchanges (p q : Price) : Prop where
  back : ∀ a b a', InShareRange a.amount → times a p = .ok b → times b p = .ok a' →
    a'.assetId = a.assetId ∧ a'.amount ≤ a.amount
  defined : ∀ a a' b', 0 ≤ a.amount → a.amount ≤ a'.amount → InShareRange a'.amount →
    a.assetId = a'.assetId → times a' p = .ok b' → ∃ b, times a p = .ok b
  mono : ∀ a a' b b', InShareRange a.amount → InShareRange a'.amount → a.assetId = a'.assetId →
    a.amount ≤ a'.amount → times a p = .ok b → times a' p = .ok b' →
      b.assetId = b'.assetId ∧ b.amount ≤ b'.amount
  mono_price : SamePair p q → p.Le q → ∀ a b b', InShareRange a.amount → times a p = .ok b →
    times a q = .ok b' → (a.assetId = p.quote.assetId → b.amount ≤ b'.amount) ∧
      (a.assetId = p.base.assetId → b'.amount ≤ b.amount)

/-- The laws of prices with positive amounts. -/
theorem price_laws (hp : p.Positive) (hq : q.Positive) (hr : r.Positive) :
    Ordered p q r ∧ (p.base.assetId ≠ p.quote.assetId → Exchanges p q) := by
  refine ⟨ordered_of_positive hp hq hr, fun hne ↦ ⟨?_, ?_, ?_, ?_⟩⟩
  · exact fun _ _ _ ha h h' ↦ hp.times_back hne ha h h'
  · exact fun _ _ _ hnonneg hle ha' hasset h ↦ hp.times_of_le hnonneg hle ha' hasset h
  · exact fun _ _ _ _ ha ha' hasset hle h h' ↦ hp.times_mono ha ha' hasset hle h h'
  · exact fun hpair hle _ _ _ ha h h' ↦ hp.times_mono_price hq hne hpair hle ha h h'

def pricedAt (base quote : ℤ) : Price := ⟨⟨base, 0⟩, ⟨quote, 1⟩⟩

/-- Two prices of one pair and one of another. -/
theorem price_laws_instance :
    Ordered (pricedAt 2 3) (pricedAt 4 5) ⟨⟨1, 2⟩, ⟨1, 0⟩⟩ ∧
      Exchanges (pricedAt 2 3) (pricedAt 4 5) := by
  have hp : (pricedAt 2 3).Positive := ⟨by decide, by decide, by decide, by decide⟩
  have hq : (pricedAt 4 5).Positive := ⟨by decide, by decide, by decide, by decide⟩
  have hr : (⟨⟨1, 2⟩, ⟨1, 0⟩⟩ : Price).Positive := ⟨by decide, by decide, by decide, by decide⟩
  have hlaws := price_laws hp hq hr
  exact ⟨hlaws.1, hlaws.2 (by decide)⟩

/-- Three units that are exchanged and back: at the price between two others less is left. -/
theorem times_back_not_mono :
    (pricedAt 1 1).Lt (pricedAt 2 1) ∧ (pricedAt 2 1).Lt (pricedAt 3 1) ∧
    times ⟨3, 0⟩ (pricedAt 1 1) = .ok ⟨3, 1⟩ ∧ times ⟨3, 1⟩ (pricedAt 1 1) = .ok ⟨3, 0⟩ ∧
    times ⟨3, 0⟩ (pricedAt 2 1) = .ok ⟨1, 1⟩ ∧ times ⟨1, 1⟩ (pricedAt 2 1) = .ok ⟨2, 0⟩ ∧
    times ⟨3, 0⟩ (pricedAt 3 1) = .ok ⟨1, 1⟩ ∧ times ⟨1, 1⟩ (pricedAt 3 1) = .ok ⟨3, 0⟩ := by
  decide

end Price

end KarmaCore.Market
