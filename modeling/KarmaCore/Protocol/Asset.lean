import Mathlib
import KarmaCore.Lib.ExceptTriple
import KarmaCore.Lib.Truncation

/-!
# Shares, assets and their decimal text

`share_type` is a signed 64-bit integer whose operations throw instead of
wrapping.  `amount_to_string` prints an amount with the asset's precision, and
`amount_to_real` reads that text back as a real, here an exact rational.
-/

namespace KarmaCore

open Truncation

/-- The ways an evaluator or a block pass ends abnormally.  `danglingReference` is the
use of an object that has been removed, which in the source is undefined. -/
inductive ChainError
  | assertion (message : String)
  | unableToFindObject
  | shareOverflow
  | conversionOutOfRange
  | boostException
  | badRational
  | insufficientFeeds
  | unfilledMarginCall
  | blackSwan
  | danglingReference
  deriving DecidableEq, Repr

abbrev Checked := Except ChainError

/-- A checked sequence succeeds through an intermediate result. -/
theorem Checked.bind_eq_ok {α β : Type} {x : Checked α} {f : α → Checked β} {b : β} :
    (x >>= f) = .ok b ↔ ∃ a, x = .ok a ∧ f a = .ok b :=
  Except.bind_eq_ok

theorem Checked.pure_eq_ok {α : Type} {a b : α} : (pure a : Checked α) = .ok b ↔ a = b :=
  Except.pure_eq_ok

instance Checked.decidableExistsOk {α : Type} (x : Checked α) (p : α → Prop) [DecidablePred p] :
    Decidable (∃ a, x = .ok a ∧ p a) :=
  match x with
  | .ok a => decidable_of_iff (p a) (by simp)
  | .error _ => isFalse (by simp)

/-- `FC_ASSERT`. -/
def require (condition : Prop) [Decidable condition] (message : String) : Checked Unit :=
  if condition then .ok () else .error (.assertion message)

theorem require_eq_ok {condition : Prop} [Decidable condition] {message : String} {u : Unit} :
    require condition message = .ok u ↔ condition := by
  unfold require
  split <;> simp_all

/-- `FC_THROW_EXCEPTION` unless the condition holds. -/
def demand (condition : Prop) [Decidable condition] (error : ChainError) : Checked Unit :=
  if condition then .ok () else .error error

/-- A statement under an `if` that has no `else`. -/
def whenever {α : Type} (condition : Prop) [Decidable condition] (f : α → Checked α) (a : α) :
    Checked α :=
  if condition then f a else .ok a

theorem demand_eq_ok {condition : Prop} [Decidable condition] {error : ChainError} {u : Unit} :
    demand condition error = .ok u ↔ condition := by
  unfold demand
  split <;> simp_all

theorem whenever_eq_ok {α : Type} {condition : Prop} [Decidable condition] {f : α → Checked α}
    {a b : α} : whenever condition f a = .ok b ↔
      condition ∧ f a = .ok b ∨ ¬condition ∧ a = b := by
  unfold whenever
  split <;> simp_all

abbrev AccountId := ℕ
abbrev AssetId := ℕ

/-- The most negative and the first too large `share_type`. -/
def shareMin : ℤ := -2 ^ 63
def shareEnd : ℤ := 2 ^ 63

/-- `GRAPHENE_MAX_SHARE_SUPPLY`. -/
def maxShareSupply : ℤ := 1000000000000000

def InShareRange (x : ℤ) : Prop := shareMin ≤ x ∧ x < shareEnd

instance (x : ℤ) : Decidable (InShareRange x) := inferInstanceAs (Decidable (_ ∧ _))

/-- The result of an operation of `fc::safe<int64_t>`. -/
def checkedShare (x : ℤ) : Checked ℤ :=
  if InShareRange x then .ok x else .error .shareOverflow

/-- A `double` stored in a `share_type`. -/
def toShare (q : ℚ) : Checked ℤ :=
  if InShareRange (truncate q) then .ok (truncate q) else .error .conversionOutOfRange

theorem checkedShare_eq_ok {x y : ℤ} : checkedShare x = .ok y ↔ InShareRange x ∧ x = y := by
  unfold checkedShare
  split <;> simp_all

theorem toShare_eq_ok {q : ℚ} {y : ℤ} :
    toShare q = .ok y ↔ InShareRange (truncate q) ∧ truncate q = y := by
  unfold toShare
  split <;> simp_all

structure Asset where
  amount : ℤ
  assetId : AssetId
  deriving DecidableEq, Repr

namespace Asset

def neg (a : Asset) : Checked Asset := do
  return ⟨← checkedShare (-a.amount), a.assetId⟩

def sub (a b : Asset) : Checked Asset := do
  require (a.assetId = b.assetId) "a.asset_id == b.asset_id"
  return ⟨← checkedShare (a.amount - b.amount), a.assetId⟩

def add (a b : Asset) : Checked Asset := do
  require (a.assetId = b.assetId) "asset_id == o.asset_id"
  return ⟨← checkedShare (a.amount + b.amount), a.assetId⟩

/-- `a < b`, which asserts that both are of one asset. -/
def lt (a b : Asset) : Checked Bool := do
  require (a.assetId = b.assetId) "a.asset_id == b.asset_id"
  return a.amount < b.amount

/-- `a <= b`, written `(a == b) || (a < b)`. -/
def le (a b : Asset) : Checked Bool := if a = b then .ok true else a.lt b

/-- What an amount counts for in the sum over one asset. -/
def part (a : Asset) (assetId : AssetId) : ℤ := if a.assetId = assetId then a.amount else 0

theorem part_mk (amount : ℤ) (id assetId : AssetId) :
    (Asset.mk amount id).part assetId = if id = assetId then amount else 0 := rfl

theorem neg_eq_ok {a b : Asset} :
    a.neg = .ok b ↔ InShareRange (-a.amount) ∧ ⟨-a.amount, a.assetId⟩ = b := by
  simp only [neg, Checked.bind_eq_ok, checkedShare_eq_ok, Checked.pure_eq_ok]
  grind

theorem sub_eq_ok {a b c : Asset} : a.sub b = .ok c ↔
    a.assetId = b.assetId ∧ InShareRange (a.amount - b.amount) ∧
      ⟨a.amount - b.amount, a.assetId⟩ = c := by
  simp only [sub, Checked.bind_eq_ok, require_eq_ok, checkedShare_eq_ok, Checked.pure_eq_ok]
  grind

theorem add_eq_ok {a b c : Asset} : a.add b = .ok c ↔
    a.assetId = b.assetId ∧ InShareRange (a.amount + b.amount) ∧
      ⟨a.amount + b.amount, a.assetId⟩ = c := by
  simp only [add, Checked.bind_eq_ok, require_eq_ok, checkedShare_eq_ok, Checked.pure_eq_ok]
  grind

theorem lt_eq_ok {a b : Asset} {r : Bool} :
    a.lt b = .ok r ↔ a.assetId = b.assetId ∧ decide (a.amount < b.amount) = r := by
  simp only [lt, Checked.bind_eq_ok, require_eq_ok, Checked.pure_eq_ok]
  grind

theorem le_eq_ok {a b : Asset} {r : Bool} :
    a.le b = .ok r ↔ a.assetId = b.assetId ∧ decide (a.amount ≤ b.amount) = r := by
  unfold le
  split_ifs with h
  · subst h
    simp [eq_comm]
  · rw [lt_eq_ok]
    refine and_congr_right fun hid ↦ ?_
    have hne : a.amount ≠ b.amount := fun hamount ↦ h (by cases a; cases b; simp_all)
    have hlt : a.amount < b.amount ↔ a.amount ≤ b.amount := ⟨le_of_lt, fun hle ↦ hle.lt_of_ne hne⟩
    rw [decide_eq_decide.mpr hlt]

end Asset

/-- The fields of `asset_object` the credit code reads.  Above eighteen places
the power of ten overflows `share_type` and no amount can be printed. -/
structure AssetObject where
  symbol : String
  precision : ℕ
  precision_lt : precision < 19 := by decide
  deriving DecidableEq, Repr

namespace AssetObject

def scaledPrecision (o : AssetObject) : ℕ := 10 ^ o.precision

/-- `fc::to_string` of a signed integer. -/
def integerText (x : ℤ) : List Char :=
  if x < 0 then '-' :: Nat.toDigits 10 x.natAbs else Nat.toDigits 10 x.natAbs

/-- Division and remainder truncate toward zero, so for a negative amount the
erased first character is a digit of the fraction and not the leading one. -/
def amountToString (o : AssetObject) (amount : ℤ) : List Char :=
  let whole := integerText (amount.tdiv o.scaledPrecision)
  let decimals := amount.tmod o.scaledPrecision
  if decimals ≠ 0 then whole ++ '.' :: (integerText (o.scaledPrecision + decimals)).tail
  else whole

/-- The rational a run of digits after the point denotes. -/
def fractionValue (digits : List Char) : ℚ :=
  (Nat.ofDigitChars 10 digits 0 : ℚ) / 10 ^ digits.length

/-- An unsigned decimal read from a stream. -/
def unsignedValue (text : List Char) : ℚ :=
  (Nat.ofDigitChars 10 (text.takeWhile (· ≠ '.')) 0 : ℚ) +
    fractionValue ((text.dropWhile (· ≠ '.')).tail)

/-- Extraction of a `double` from a stream that holds a decimal. -/
def streamValue : List Char → ℚ
  | '-' :: text => -unsignedValue text
  | text => unsignedValue text

def amountToReal (o : AssetObject) (amount : ℤ) : ℚ := streamValue (o.amountToString amount)

/-! ## What the decimal text denotes -/

theorem scaledPrecision_pos (o : AssetObject) : 0 < o.scaledPrecision := by
  unfold scaledPrecision
  positivity

theorem isDigit_of_mem_toDigits {n : ℕ} {c : Char} (h : c ∈ Nat.toDigits 10 n) :
    c.isDigit = true :=
  Nat.isDigit_of_mem_toDigits (by norm_num) (by norm_num) h

theorem ne_point_of_mem_toDigits {n : ℕ} {c : Char} (h : c ∈ Nat.toDigits 10 n) : c ≠ '.' := by
  rintro rfl
  simpa using isDigit_of_mem_toDigits h

theorem toDigits_head_ne_minus (n : ℕ) (rest : List Char) :
    Nat.toDigits 10 n ≠ '-' :: rest := by
  intro h
  have hmem : '-' ∈ Nat.toDigits 10 n := by simp [h]
  simpa using isDigit_of_mem_toDigits hmem

theorem unsignedValue_digits (n : ℕ) : unsignedValue (Nat.toDigits 10 n) = n := by
  have hall : ∀ c ∈ Nat.toDigits 10 n, (c ≠ '.') = true := fun c hc ↦ by
    simpa using ne_point_of_mem_toDigits hc
  have htake : (Nat.toDigits 10 n).takeWhile (· ≠ '.') = Nat.toDigits 10 n :=
    List.takeWhile_eq_self_iff.mpr (by simpa using hall)
  have hdrop : (Nat.toDigits 10 n).dropWhile (· ≠ '.') = [] :=
    List.dropWhile_eq_nil_iff.mpr (by simpa using hall)
  rw [unsignedValue, htake, hdrop]
  simp [fractionValue, Nat.ofDigitChars_toDigits]

theorem unsignedValue_digits_point (n : ℕ) (frac : List Char) :
    unsignedValue (Nat.toDigits 10 n ++ '.' :: frac) = n + fractionValue frac := by
  have hall : ∀ c ∈ Nat.toDigits 10 n, (c ≠ '.') = true := fun c hc ↦ by
    simpa using ne_point_of_mem_toDigits hc
  have htake : (Nat.toDigits 10 n ++ '.' :: frac).takeWhile (· ≠ '.') = Nat.toDigits 10 n := by
    rw [List.takeWhile_append_of_pos (by simpa using hall)]
    simp
  have hdrop : (Nat.toDigits 10 n ++ '.' :: frac).dropWhile (· ≠ '.') = '.' :: frac := by
    rw [List.dropWhile_append_of_pos (by simpa using hall)]
    simp
  rw [unsignedValue, htake, hdrop]
  simp [Nat.ofDigitChars_toDigits]

theorem fractionValue_nonneg (digits : List Char) : 0 ≤ fractionValue digits := by
  unfold fractionValue
  positivity

theorem streamValue_digits_append (n : ℕ) (rest : List Char) :
    streamValue (Nat.toDigits 10 n ++ rest) = unsignedValue (Nat.toDigits 10 n ++ rest) := by
  rcases hd : Nat.toDigits 10 n with _ | ⟨c, cs⟩
  · exact absurd hd Nat.toDigits_ne_nil
  · have hc : c ≠ '-' := by
      rintro rfl
      exact toDigits_head_ne_minus n cs hd
    simp only [List.cons_append]
    unfold streamValue
    split
    · rename_i heq
      simp only [List.cons.injEq] at heq
      exact absurd heq.1 hc
    · rfl

/-- The digits of `10 ^ p + d`: a leading one, then `d` padded to `p` places. -/
theorem toDigits_pow_add (p : ℕ) : ∀ d < 10 ^ p, ∃ pad : List Char,
    Nat.toDigits 10 (10 ^ p + d) = '1' :: pad ∧ pad.length = p ∧
      Nat.ofDigitChars 10 pad 0 = d := by
  induction p with
  | zero =>
      intro d hd
      obtain rfl : d = 0 := by simpa using hd
      exact ⟨[], by simp [Nat.toDigits_of_lt_base], rfl, by simp⟩
  | succ p ih =>
      intro d hd
      obtain ⟨pad, hpad, hlen, hval⟩ := ih (d / 10) (by rw [pow_succ] at hd; omega)
      have hsplit : 10 ^ (p + 1) + d = 10 * (10 ^ p + d / 10) + d % 10 := by
        rw [pow_succ]
        omega
      have hlast : Nat.toDigits 10 (d % 10) = [(d % 10).digitChar] :=
        Nat.toDigits_of_lt_base (Nat.mod_lt _ (by norm_num))
      refine ⟨pad ++ [(d % 10).digitChar], ?_, by simp [hlen], ?_⟩
      · rw [hsplit, ← Nat.toDigits_append_toDigits (by norm_num) (by positivity)
          (Nat.mod_lt _ (by norm_num)), hpad, hlast, List.cons_append]
      · rw [Nat.ofDigitChars_append, hval,
          Nat.ofDigitChars_cons_digitChar_of_lt_ten (Nat.mod_lt _ (by norm_num))]
        simp
        omega

/-- A fraction of at most `p` places is a whole number of `10 ^ -p`. -/
theorem fractionValue_scaled {digits : List Char} {p : ℕ} (h : digits.length ≤ p) :
    ∃ z : ℕ, fractionValue digits * 10 ^ p = z := by
  refine ⟨Nat.ofDigitChars 10 digits 0 * 10 ^ (p - digits.length), ?_⟩
  have hpow : (10 : ℚ) ^ p = 10 ^ digits.length * 10 ^ (p - digits.length) := by
    rw [← pow_add, Nat.add_sub_cancel' h]
  unfold fractionValue
  rw [hpow]
  push_cast
  field_simp

theorem tmod_abs_lt (o : AssetObject) (a : ℤ) :
    -(o.scaledPrecision : ℤ) < a.tmod o.scaledPrecision ∧
      a.tmod o.scaledPrecision < o.scaledPrecision := by
  have hpos : (0 : ℤ) < o.scaledPrecision := by exact_mod_cast o.scaledPrecision_pos
  exact ⟨Int.lt_tmod_of_pos a hpos, Int.tmod_lt_of_pos a hpos⟩

/-- The digits written after the point. -/
def fractionText (o : AssetObject) (amount : ℤ) : List Char :=
  (integerText (o.scaledPrecision + amount.tmod o.scaledPrecision)).tail

theorem fractionText_length_le (o : AssetObject) (a : ℤ) :
    (o.fractionText a).length ≤ o.precision := by
  obtain ⟨hlow, hhigh⟩ := o.tmod_abs_lt a
  set m := (o.scaledPrecision : ℤ) + a.tmod o.scaledPrecision with hm
  have hnonneg : ¬m < 0 := by omega
  have hlt : m.natAbs < 10 ^ (o.precision + 1) := by
    have hdef : (o.scaledPrecision : ℤ) = 10 ^ o.precision := by simp [scaledPrecision]
    have : (m.natAbs : ℤ) < 10 ^ (o.precision + 1) := by
      rw [pow_succ]
      omega
    exact_mod_cast this
  have hlen := (Nat.length_toDigits_le_iff (b := 10) (by norm_num) (Nat.succ_pos _)).mpr hlt
  simp only [fractionText, integerText, ← hm, if_neg hnonneg, List.length_tail]
  omega

/-- The text is a sign, the digits of the whole units and a fraction. -/
theorem amountToReal_eq (o : AssetObject) (a : ℤ) :
    o.amountToReal a =
      (if a.tdiv o.scaledPrecision < 0 then -1 else 1) *
        (((a.tdiv o.scaledPrecision).natAbs : ℚ) +
          if a.tmod o.scaledPrecision ≠ 0 then fractionValue (o.fractionText a) else 0) := by
  unfold amountToReal amountToString
  by_cases hdec : a.tmod o.scaledPrecision ≠ 0 <;>
    by_cases hneg : a.tdiv o.scaledPrecision < 0 <;>
    simp only [hdec, hneg, integerText, if_true, if_false, ne_eq, not_false_eq_true, List.cons_append, fractionText]
  · rw [streamValue, unsignedValue_digits_point]
    ring
  · rw [streamValue_digits_append, unsignedValue_digits_point]
    ring
  · rw [streamValue, unsignedValue_digits]
    ring
  · rw [← List.append_nil (Nat.toDigits 10 _), streamValue_digits_append, List.append_nil,
      unsignedValue_digits]
    ring

/-- A non-negative amount is read back exactly. -/
theorem amountToReal_of_nonneg (o : AssetObject) {a : ℤ} (h : 0 ≤ a) :
    o.amountToReal a = a / 10 ^ o.precision := by
  have hpos : (0 : ℤ) < o.scaledPrecision := by exact_mod_cast o.scaledPrecision_pos
  have hwhole : 0 ≤ a.tdiv o.scaledPrecision := Int.tdiv_nonneg h hpos.le
  have hrest : 0 ≤ a.tmod o.scaledPrecision := Int.tmod_nonneg _ h
  have hsplit := Int.mul_tdiv_add_tmod a o.scaledPrecision
  have hscale : ((o.scaledPrecision : ℤ) : ℚ) = 10 ^ o.precision := by simp [scaledPrecision]
  have hfrac : (if a.tmod o.scaledPrecision ≠ 0 then fractionValue (o.fractionText a) else 0) =
      (a.tmod o.scaledPrecision : ℚ) / 10 ^ o.precision := by
    by_cases hz : a.tmod o.scaledPrecision = 0
    · simp [hz]
    · rw [if_pos hz]
      obtain ⟨-, hhigh⟩ := o.tmod_abs_lt a
      obtain ⟨d, hd⟩ := Int.eq_ofNat_of_zero_le hrest
      obtain ⟨pad, hpad, hlen, hval⟩ := toDigits_pow_add o.precision d (by
        rw [hd] at hhigh
        exact_mod_cast hhigh)
      have htext : o.fractionText a = pad := by
        have hm : (o.scaledPrecision : ℤ) + a.tmod o.scaledPrecision =
            ((10 ^ o.precision + d : ℕ) : ℤ) := by
          rw [hd]
          simp [scaledPrecision]
        rw [fractionText, hm, integerText, if_neg (by omega), Int.natAbs_natCast, hpad,
          List.tail_cons]
      rw [htext, fractionValue, hval, hlen, hd]
      simp
  rw [amountToReal_eq, if_neg (not_lt.mpr hwhole), hfrac, one_mul]
  have hcast : ((a.tdiv o.scaledPrecision).natAbs : ℚ) = (a.tdiv o.scaledPrecision : ℚ) := by
    rw [← Int.cast_natCast, Int.natAbs_of_nonneg hwhole]
  have hsplitQ : (o.scaledPrecision : ℚ) * (a.tdiv o.scaledPrecision : ℚ) +
      (a.tmod o.scaledPrecision : ℚ) = a := by exact_mod_cast hsplit
  have hscale' : (o.scaledPrecision : ℚ) = 10 ^ o.precision := by simpa using hscale
  rw [hcast, ← hsplitQ, hscale']
  field_simp

/-- A negative amount of less than one whole unit prints without its sign. -/
theorem amountToReal_nonneg_of_gt (o : AssetObject) {a : ℤ} (hlow : -(o.scaledPrecision : ℤ) < a)
    (hneg : a < 0) : 0 ≤ o.amountToReal a := by
  have hzero : a.tdiv o.scaledPrecision = 0 := by
    rw [← Int.neg_inj, ← Int.neg_tdiv, Int.neg_zero]
    exact Int.tdiv_eq_zero_of_lt (by omega) (by omega)
  rw [amountToReal_eq, hzero]
  simp only [lt_self_iff_false, if_false, one_mul, Int.natAbs_zero, Nat.cast_zero, zero_add]
  split
  · exact fractionValue_nonneg _
  · exact le_rfl

/-- A negative amount of one whole unit or more is read back as negative. -/
theorem amountToReal_neg_of_le (o : AssetObject) {a : ℤ} (h : a ≤ -(o.scaledPrecision : ℤ)) :
    o.amountToReal a < 0 := by
  have hpos : (0 : ℤ) < o.scaledPrecision := by exact_mod_cast o.scaledPrecision_pos
  have hwhole : a.tdiv o.scaledPrecision < 0 := by
    have hsplit := Int.mul_tdiv_add_tmod a o.scaledPrecision
    obtain ⟨hlow, -⟩ := o.tmod_abs_lt a
    by_contra hge
    push Not at hge
    have := mul_nonneg hpos.le hge
    have hmod : a.tmod o.scaledPrecision ≤ 0 := by
      have := Int.tmod_nonneg (o.scaledPrecision : ℤ) (a := -a) (by omega)
      rw [Int.neg_tmod] at this
      omega
    have hzero : (o.scaledPrecision : ℤ) * a.tdiv o.scaledPrecision ≤ -(o.scaledPrecision : ℤ) -
        a.tmod o.scaledPrecision := by omega
    omega
  have habs : (1 : ℚ) ≤ (a.tdiv o.scaledPrecision).natAbs := by
    have : 1 ≤ (a.tdiv o.scaledPrecision).natAbs := by omega
    exact_mod_cast this
  have hfrac : (0 : ℚ) ≤ if a.tmod o.scaledPrecision ≠ 0 then
      fractionValue (o.fractionText a) else 0 := by
    split
    · exact fractionValue_nonneg _
    · exact le_rfl
  rw [amountToReal_eq, if_pos hwhole]
  linarith

/-- Scaled by the precision the text is a whole number of shares, also for the
negative amounts whose text drops the sign. -/
theorem amountToReal_scaled (o : AssetObject) (a : ℤ) :
    ∃ z : ℤ, o.amountToReal a * 10 ^ o.precision = z := by
  obtain ⟨f, hf⟩ := fractionValue_scaled (o.fractionText_length_le a)
  rw [amountToReal_eq]
  generalize (a.tdiv o.scaledPrecision).natAbs = whole
  set sign : ℤ := if a.tdiv o.scaledPrecision < 0 then -1 else 1 with hsign
  have hcast : (if a.tdiv o.scaledPrecision < 0 then (-1 : ℚ) else 1) = sign := by
    rw [hsign]
    split <;> simp
  refine ⟨sign * (whole * 10 ^ o.precision +
    if a.tmod o.scaledPrecision ≠ 0 then f else 0), ?_⟩
  rw [hcast]
  push_cast
  by_cases hdec : a.tmod o.scaledPrecision = 0
  · simp [hdec]
    ring
  · simp only [ne_eq, hdec, not_false_eq_true, if_true, ← hf]
    ring

end AssetObject

end KarmaCore
