import Mathlib
import KarmaCore.Protocol.Asset

/-!
# Amounts as text

`amount_from_string` reads what `amount_to_string` prints.  It looks for the sign
anywhere in the text, and the printed fraction of a negative amount is not the
fraction of the amount.
-/

namespace KarmaCore

/-! ## Reading -/

/-- `std::stoll`, which stops at the first character that is no digit. -/
def stoll (text : List Char) : Checked ℤ :=
  let negative := text.head? = some '-'
  let digits := (if negative then text.tail else text).takeWhile Char.isDigit
  let value : ℤ := if negative then -Nat.ofDigitChars 10 digits 0 else Nat.ofDigitChars 10 digits 0
  if digits = [] then .error (.assertion "stoll")
  else if InShareRange value then .ok value else .error .conversionOutOfRange

/-- The loop over the characters: whether a sign and a point were found. -/
def checkCharacters : List Char → Bool → Bool → Checked (Bool × Bool)
  | [], negativeFound, decimalFound => .ok (negativeFound, decimalFound)
  | c :: cs, negativeFound, decimalFound =>
    if c.isDigit then checkCharacters cs negativeFound decimalFound
    else if c = '-' ∧ negativeFound = false then checkCharacters cs true decimalFound
    else if c = '.' ∧ decimalFound = false then checkCharacters cs negativeFound true
    else .error (.assertion "amount_string")

namespace AssetObject

/-- The shares of the part before the point. -/
def wholeShares (o : AssetObject) (lhs : List Char) : Checked ℤ :=
  if lhs = [] then return 0
  else do checkedShare ((← stoll lhs) * o.scaledPrecision)

/-- The shares with the part after the point added. -/
def addFraction (o : AssetObject) (rhs : List Char) (satoshis : ℤ) : Checked ℤ := do
  let maxRhsSize := (integerText o.scaledPrecision).tail.length
  require (rhs.length ≤ maxRhsSize) "rhs.size() <= max_rhs_size"
  let rhs := rhs ++ List.replicate (maxRhsSize - rhs.length) '0'
  if rhs = [] then return satoshis
  else do checkedShare (satoshis + (← stoll rhs))

def amountFromString (o : AssetObject) (text : List Char) : Checked ℤ := do
  let (negativeFound, decimalFound) ← checkCharacters text false false
  let decimalPos := text.idxOf '.'
  let satoshis ← o.wholeShares ((text.drop negativeFound.toNat).take decimalPos)
  let satoshis ← whenever (decimalFound = true) (o.addFraction (text.drop (decimalPos + 1))) satoshis
  require (satoshis ≤ maxShareSupply) "satoshis <= GRAPHENE_MAX_SHARE_SUPPLY"
  if negativeFound then checkedShare (-satoshis) else return satoshis

end AssetObject

/-! ## Numerals -/

/-- A decimal numeral: a sign or none, digits, and a point with digits or none. -/
structure Numeral where
  negative : Bool
  whole : List Char
  fraction : Option (List Char)
  whole_digits : ∀ c ∈ whole, c.isDigit = true
  fraction_digits : ∀ c ∈ fraction.getD [], c.isDigit = true
  some_digit : whole ≠ [] ∨ fraction.getD [] ≠ []

namespace Numeral

open AssetObject

def unsignedText (whole : List Char) : Option (List Char) → List Char
  | none => whole
  | some fraction => whole ++ '.' :: fraction

def text (n : Numeral) : List Char :=
  if n.negative then '-' :: unsignedText n.whole n.fraction else unsignedText n.whole n.fraction

def places (n : Numeral) : List Char := n.fraction.getD []

/-- The number without its sign. -/
def magnitude (n : Numeral) : ℚ := Nat.ofDigitChars 10 n.whole 0 + fractionValue n.places

def value (n : Numeral) : ℚ := if n.negative then -n.magnitude else n.magnitude

/-- The shares without their sign, for at most `p` places. -/
def shares (n : Numeral) (p : ℕ) : ℕ :=
  Nat.ofDigitChars 10 n.whole 0 * 10 ^ p + Nat.ofDigitChars 10 n.places 0 * 10 ^ (p - n.places.length)

theorem ne_point {c : Char} (h : c.isDigit = true) : c ≠ '.' := by
  rintro rfl
  simp at h

theorem ne_minus {c : Char} (h : c.isDigit = true) : c ≠ '-' := by
  rintro rfl
  simp at h

theorem unsignedValue_unsignedText {whole : List Char} (hwhole : ∀ c ∈ whole, c.isDigit = true)
    (fraction : Option (List Char)) : unsignedValue (unsignedText whole fraction) =
      Nat.ofDigitChars 10 whole 0 + fractionValue (fraction.getD []) := by
  have hpoint : ∀ c ∈ whole, decide (c ≠ '.') = true := fun c hc ↦ decide_eq_true (ne_point (hwhole c hc))
  cases fraction with
  | none =>
      rw [unsignedText, unsignedValue, List.takeWhile_eq_self_iff.mpr hpoint,
        List.dropWhile_eq_nil_iff.mpr hpoint]
      rfl
  | some fraction =>
      rw [unsignedText, unsignedValue, List.takeWhile_append_of_pos hpoint,
        List.dropWhile_append_of_pos hpoint]
      simp

theorem head_unsignedText {n : Numeral} : (unsignedText n.whole n.fraction).head? ≠ some '-' := by
  cases hwhole : n.whole with
  | nil => cases n.fraction <;> simp [unsignedText]
  | cons c whole =>
      have hc : c ≠ '-' := ne_minus (n.whole_digits c (by simp [hwhole]))
      cases n.fraction <;> simpa [unsignedText] using hc

/-- A numeral denotes its value. -/
theorem streamValue_text (n : Numeral) : streamValue n.text = n.value := by
  have hunsigned := unsignedValue_unsignedText n.whole_digits n.fraction
  unfold text value magnitude places
  split_ifs
  · rw [streamValue, hunsigned]
  · rw [← hunsigned]
    have hhead := n.head_unsignedText
    unfold streamValue
    split
    · next rest heq => exact absurd (by rw [heq]; rfl) hhead
    · rfl

theorem fractionValue_mul_pow {digits : List Char} {p : ℕ} (h : digits.length ≤ p) :
    fractionValue digits * 10 ^ p = Nat.ofDigitChars 10 digits 0 * 10 ^ (p - digits.length) := by
  have hpow : (10 : ℚ) ^ p = 10 ^ digits.length * 10 ^ (p - digits.length) := by
    rw [← pow_add, Nat.add_sub_cancel' h]
  unfold fractionValue
  rw [hpow]
  field_simp

/-- Scaled by at least as many places as it has, a numeral is a whole number of shares. -/
theorem magnitude_scaled (n : Numeral) {p : ℕ} (h : n.places.length ≤ p) :
    n.magnitude * 10 ^ p = n.shares p := by
  rw [magnitude, add_mul, fractionValue_mul_pow h, shares]
  push_cast
  rfl

end Numeral

/-- A text denotes a number when it is a numeral of that value. -/
def Denotes (text : List Char) (q : ℚ) : Prop := ∃ n : Numeral, n.text = text ∧ n.value = q

theorem Denotes.eq_streamValue {text : List Char} {q : ℚ} (h : Denotes text q) :
    q = AssetObject.streamValue text := by
  obtain ⟨n, rfl, rfl⟩ := h
  exact n.streamValue_text.symm

/-! ## Reading a numeral -/

theorem checkCharacters_digits {digits : List Char} (h : ∀ c ∈ digits, c.isDigit = true)
    (rest : List Char) (negativeFound decimalFound : Bool) :
    checkCharacters (digits ++ rest) negativeFound decimalFound =
      checkCharacters rest negativeFound decimalFound := by
  induction digits with
  | nil => rfl
  | cons c digits ih =>
      rw [List.cons_append, checkCharacters, if_pos (h c (by simp))]
      exact ih fun x hx ↦ h x (by simp [hx])

theorem stoll_digits {digits : List Char} (h : ∀ c ∈ digits, c.isDigit = true) (hne : digits ≠ [])
    {rest : List Char} (hrest : ∀ c ∈ rest.head?, c.isDigit = false) :
    stoll (digits ++ rest) = if InShareRange (Nat.ofDigitChars 10 digits 0) then
      .ok (Nat.ofDigitChars 10 digits 0 : ℤ) else .error .conversionOutOfRange := by
  have hhead : (digits ++ rest).head? ≠ some '-' := by
    cases digits with
    | nil => exact absurd rfl hne
    | cons c digits => simpa using Numeral.ne_minus (h c (by simp))
  have htake : (digits ++ rest).takeWhile Char.isDigit = digits := by
    rw [List.takeWhile_append_of_pos h]
    cases rest with
    | nil => simp
    | cons c rest => simp [hrest c rfl]
  unfold stoll
  simp only [hhead, if_false, htake, hne]

namespace AssetObject

variable {o : AssetObject} {x : ℤ}

theorem maxRhsSize_eq (o : AssetObject) :
    (integerText o.scaledPrecision).tail.length = o.precision := by
  obtain ⟨pad, hpad, hlen, -⟩ := toDigits_pow_add o.precision 0 (by positivity)
  have hscale : integerText o.scaledPrecision = Nat.toDigits 10 (10 ^ o.precision + 0) := by
    rw [integerText, if_neg (by omega)]
    rfl
  rw [hscale, hpad, List.tail_cons, hlen]

theorem wholeShares_eq_ok {whole rest : List Char} (hdigits : ∀ c ∈ whole, c.isDigit = true)
    (hrest : rest = [] ∨ rest = ['.']) : o.wholeShares (whole ++ rest) = .ok x ↔
      (whole = [] → rest = []) ∧ InShareRange (Nat.ofDigitChars 10 whole 0) ∧
        InShareRange (Nat.ofDigitChars 10 whole 0 * o.scaledPrecision) ∧
        (Nat.ofDigitChars 10 whole 0 * o.scaledPrecision : ℤ) = x := by
  unfold wholeShares
  cases whole with
  | nil =>
      rcases hrest with rfl | rfl
      · simp [InShareRange, shareMin, shareEnd, Checked.pure_eq_ok]
      · simp [stoll, Checked.bind_eq_ok]
  | cons c whole =>
      have hhead : ∀ c ∈ rest.head?, c.isDigit = false := by
        rcases hrest with rfl | rfl <;> simp
      rw [if_neg (by simp), stoll_digits hdigits (by simp) hhead]
      simp only [Checked.bind_eq_ok, checkedShare_eq_ok, reduceCtorEq, false_implies, true_and]
      split_ifs with hrange
      · simp only [Except.ok.injEq, exists_eq_left', hrange, true_and]
      · simp [hrange]

theorem addFraction_eq_ok {places : List Char} {satoshis : ℤ}
    (hdigits : ∀ c ∈ places, c.isDigit = true) (hsatoshis : InShareRange satoshis) :
    o.addFraction places satoshis = .ok x ↔ places.length ≤ o.precision ∧
      let added : ℤ := Nat.ofDigitChars 10 places 0 * 10 ^ (o.precision - places.length)
      InShareRange added ∧ InShareRange (satoshis + added) ∧ satoshis + added = x := by
  unfold addFraction
  rw [maxRhsSize_eq]
  set zeros := List.replicate (o.precision - places.length) '0' with hzeros
  have hall : ∀ c ∈ places ++ zeros, c.isDigit = true := by
    intro c hc
    rcases List.mem_append.mp hc with hc | hc
    · exact hdigits c hc
    · rw [List.eq_of_mem_replicate hc]
      rfl
  have hvalue : (Nat.ofDigitChars 10 (places ++ zeros) 0 : ℤ) =
      Nat.ofDigitChars 10 places 0 * 10 ^ (o.precision - places.length) := by
    rw [Nat.ofDigitChars_append, hzeros, Nat.ofDigitChars_replicate_zero, mul_comm]
    push_cast
    rfl
  simp only [← hzeros, Checked.bind_eq_ok, require_eq_ok, exists_const]
  refine and_congr_right fun _ ↦ ?_
  split_ifs with hempty
  · rw [hempty] at hvalue
    have hzero : InShareRange 0 := by decide
    simp only [← hvalue, Nat.ofDigitChars_nil, Nat.cast_zero, add_zero, hzero, hsatoshis, true_and,
      Checked.pure_eq_ok]
  · have hread := @stoll_digits _ hall hempty [] (by simp)
    rw [List.append_nil, hvalue] at hread
    simp only [Checked.bind_eq_ok, checkedShare_eq_ok, hread]
    split_ifs with hrange
    · simp only [Except.ok.injEq, exists_eq_left', hrange, true_and]
    · simp [hrange]

/-- What the two lookups of the point in a numeral find. -/
structure Split (text : List Char) (negative decimal : Bool) (whole point places : List Char) :
    Prop where
  characters : checkCharacters text false false = .ok (negative, decimal)
  lhs : (text.drop negative.toNat).take (text.idxOf '.') = whole ++ point
  rhs : decimal = true → text.drop (text.idxOf '.' + 1) = places

theorem idxOf_point {whole : List Char} (h : ∀ c ∈ whole, c.isDigit = true) (rest : List Char) :
    (whole ++ '.' :: rest).idxOf '.' = whole.length := by
  rw [List.idxOf_append_of_notMem fun hmem ↦ Numeral.ne_point (h _ hmem) rfl]
  simp

theorem split_text (n : Numeral) : Split n.text n.negative n.fraction.isSome n.whole
    (if n.negative ∧ n.fraction.isSome then ['.'] else []) n.places := by
  obtain ⟨negative, whole, fraction, hwhole, hfraction, -⟩ := n
  have hpoint : '.' ∉ whole := fun hmem ↦ Numeral.ne_point (hwhole _ hmem) rfl
  have hend := checkCharacters_digits hwhole []
  rw [List.append_nil] at hend
  cases fraction with
  | none =>
      have hfar : whole.length ≤ whole.idxOf '.' := (List.idxOf_eq_length hpoint).ge
      cases negative with
      | false =>
          exact ⟨hend false false, by simpa [Numeral.text, Numeral.unsignedText] using hfar, by simp⟩
      | true =>
          refine ⟨?_, ?_, by simp⟩
          · simpa [Numeral.text, Numeral.unsignedText, checkCharacters] using hend true false
          · simp only [Numeral.text, Numeral.unsignedText, if_true, Bool.toNat_true, List.drop_succ_cons,
              List.drop_zero, List.idxOf_cons_ne _ (by decide : '-' ≠ '.')]
            simpa using Nat.le_succ_of_le hfar
  | some places =>
      have hindex := idxOf_point hwhole places
      have hplaces := checkCharacters_digits hfraction []
      rw [Option.getD_some, List.append_nil] at hplaces
      have hchars : ∀ negative, checkCharacters (whole ++ '.' :: places) negative false =
          .ok (negative, true) := fun negative ↦ by
        rw [checkCharacters_digits hwhole, checkCharacters]
        simpa [checkCharacters] using hplaces negative true
      have hdrop : (whole ++ '.' :: places).drop (whole.length + 1) = places := by
        rw [← List.drop_drop, List.drop_left, List.drop_one, List.tail_cons]
      cases negative with
      | false =>
          simp only [Numeral.text, Numeral.unsignedText, Bool.false_eq_true, if_false]
          exact ⟨hchars false, by simp [hindex], fun _ ↦ by rw [hindex, hdrop]; rfl⟩
      | true =>
          simp only [Numeral.text, Numeral.unsignedText, if_true]
          have hindex' : ('-' :: (whole ++ '.' :: places)).idxOf '.' = whole.length + 1 := by
            rw [List.idxOf_cons_ne _ (by decide), hindex]
          refine ⟨by simpa [checkCharacters] using hchars true, ?_, fun _ ↦ ?_⟩
          · rw [hindex', Bool.toNat_true, List.drop_one, List.tail_cons, List.take_append]
            simp
          · rw [hindex', List.drop_succ_cons, hdrop]
            rfl

/-- What the places of a numeral add. -/
theorem addPlaces_eq_ok (n : Numeral) {satoshis : ℤ} (hsatoshis : InShareRange satoshis) :
    whenever (n.fraction.isSome = true) (o.addFraction (n.text.drop (n.text.idxOf '.' + 1))) satoshis =
        .ok x ↔ n.places.length ≤ o.precision ∧
      let added : ℤ := Nat.ofDigitChars 10 n.places 0 * 10 ^ (o.precision - n.places.length)
      InShareRange added ∧ InShareRange (satoshis + added) ∧ satoshis + added = x := by
  unfold whenever
  split_ifs with hsome
  · rw [(split_text n).rhs hsome]
    exact addFraction_eq_ok n.fraction_digits hsatoshis
  · have hnone : n.places = [] := by
      rw [Numeral.places, Option.not_isSome_iff_eq_none.mp hsome]
      rfl
    have hzero : InShareRange 0 := by decide
    simp [hnone, hzero, hsatoshis]

/-- A numeral is read as the shares it denotes, unless there is nothing between sign and point,
there are too many places, or it is too large. -/
theorem amountFromString_text (n : Numeral) : o.amountFromString n.text = .ok x ↔
    (n.whole = [] → ¬(n.negative = true ∧ n.fraction.isSome = true)) ∧
      n.places.length ≤ o.precision ∧ (n.shares o.precision : ℤ) ≤ maxShareSupply ∧
      (if n.negative = true then -(n.shares o.precision : ℤ) else n.shares o.precision) = x := by
  have hsplit := split_text n
  have hpoint : (if n.negative = true ∧ n.fraction.isSome = true then ['.'] else []) = [] ∨
      (if n.negative = true ∧ n.fraction.isSome = true then ['.'] else []) = ['.'] := by
    split_ifs <;> simp
  have hscale : (o.scaledPrecision : ℤ) = 10 ^ o.precision := by simp [scaledPrecision]
  have hshares : (n.shares o.precision : ℤ) = Nat.ofDigitChars 10 n.whole 0 * 10 ^ o.precision +
      Nat.ofDigitChars 10 n.places 0 * 10 ^ (o.precision - n.places.length) := by
    rw [Numeral.shares]
    push_cast
    rfl
  have hempty : (if n.negative = true ∧ n.fraction.isSome = true then ['.'] else []) = [] ↔
      ¬(n.negative = true ∧ n.fraction.isSome = true) := by
    split_ifs with hboth <;> simp [hboth]
  unfold amountFromString
  rw [hsplit.characters]
  simp only [Checked.bind_eq_ok, Except.ok.injEq, exists_eq_left', hsplit.lhs,
    wholeShares_eq_ok n.whole_digits hpoint, hempty, hscale]
  constructor
  · rintro ⟨_, ⟨hwhole, -, hrange, rfl⟩, satoshis, hplaces, _, hmax, hsign⟩
    obtain ⟨hlen, -, -, rfl⟩ := (addPlaces_eq_ok n hrange).mp hplaces
    rw [← hshares] at hmax hsign
    refine ⟨hwhole, hlen, require_eq_ok.mp hmax, ?_⟩
    split_ifs at hsign ⊢
    · exact (checkedShare_eq_ok.mp hsign).2
    · exact Checked.pure_eq_ok.mp hsign
  · rintro ⟨hwhole, hlen, hmax, rfl⟩
    have hend : maxShareSupply < shareEnd := by decide
    have hmin : shareMin ≤ -maxShareSupply := by decide
    have hdigits : Nat.ofDigitChars 10 n.whole 0 ≤ n.shares o.precision :=
      (Nat.le_mul_of_pos_right _ (by positivity)).trans (Nat.le_add_right _ _)
    have hunits : Nat.ofDigitChars 10 n.whole 0 * 10 ^ o.precision ≤ n.shares o.precision :=
      Nat.le_add_right _ _
    have hadded : Nat.ofDigitChars 10 n.places 0 * 10 ^ (o.precision - n.places.length) ≤
        n.shares o.precision := Nat.le_add_left _ _
    have hrange : ∀ y : ℕ, y ≤ n.shares o.precision → InShareRange y := fun y hy ↦ by
      have hy' : (y : ℤ) ≤ n.shares o.precision := by exact_mod_cast hy
      exact ⟨by unfold shareMin; omega, by omega⟩
    have hunitsRange := hrange _ hunits
    have haddedRange := hrange _ hadded
    have hsumRange := hrange _ le_rfl
    push_cast at hunitsRange haddedRange
    rw [hshares] at hsumRange
    refine ⟨_, ⟨hwhole, hrange _ hdigits, hunitsRange, rfl⟩, _,
      (addPlaces_eq_ok n hunitsRange).mpr ⟨hlen, haddedRange, hsumRange, rfl⟩, (), ?_, ?_⟩
    · exact require_eq_ok.mpr (hshares ▸ hmax)
    · rw [← hshares]
      split_ifs
      · refine checkedShare_eq_ok.mpr ⟨⟨by omega, ?_⟩, rfl⟩
        have : (0 : ℤ) < shareEnd := by decide
        omega
      · rfl

/-! ## Digits -/

theorem digit_le {c : Char} (h : c.isDigit = true) : c.toNat - '0'.toNat ≤ 9 := by
  simp only [Char.isDigit, Bool.and_eq_true, decide_eq_true_eq] at h
  have hle : c.toNat ≤ '9'.toNat := h.2
  have hnine : '9'.toNat = 57 := rfl
  have hzero : '0'.toNat = 48 := rfl
  omega

theorem ofDigitChars_lt {digits : List Char} (h : ∀ c ∈ digits, c.isDigit = true) :
    Nat.ofDigitChars 10 digits 0 < 10 ^ digits.length := by
  induction digits with
  | nil => simp
  | cons c digits ih =>
      have hlt := ih fun x hx ↦ h x (by simp [hx])
      have hle := digit_le (h c (by simp))
      rw [Nat.ofDigitChars_cons, Nat.ofDigitChars_eq_ofDigitChars_zero, List.length_cons, pow_succ]
      nlinarith

theorem eq_zero_of_ofDigitChars {digits : List Char} (h : ∀ c ∈ digits, c.isDigit = true) :
    Nat.ofDigitChars 10 digits 0 = 0 ↔ ∀ c ∈ digits, c = '0' := by
  induction digits with
  | nil => simp
  | cons c digits ih =>
      rw [Nat.ofDigitChars_cons, Nat.ofDigitChars_eq_ofDigitChars_zero, List.forall_mem_cons,
        ← ih fun x hx ↦ h x (by simp [hx])]
      have hzero : c.toNat - '0'.toNat = 0 ↔ c = '0' := by
        have hc := h c (by simp)
        simp only [Char.isDigit, Bool.and_eq_true, decide_eq_true_eq] at hc
        have hge : '0'.toNat ≤ c.toNat := hc.1
        rw [Nat.sub_eq_zero_iff_le]
        exact ⟨fun hle ↦ Char.toNat_inj.mp (le_antisymm hle hge), fun heq ↦ heq ▸ le_rfl⟩
      rw [← hzero]
      simp

/-- The digits after the first one of `10 ^ p - d`, taken as places, never denote `d`. -/
theorem fraction_ne {p m : ℕ} (hlt : m < 10 ^ p) (hpos : 0 < p) :
    Nat.ofDigitChars 10 (Nat.toDigits 10 m).tail 0 * 10 ^ (p - (Nat.toDigits 10 m).tail.length) + m ≠
      10 ^ p := by
  have hlen := (Nat.length_toDigits_le_iff (b := 10) (by norm_num) hpos).mpr hlt
  have hvalue := @Nat.ofDigitChars_ten_toDigits m
  have hdigits : ∀ c ∈ Nat.toDigits 10 m, c.isDigit = true := fun c hc ↦ isDigit_of_mem_toDigits hc
  cases htext : Nat.toDigits 10 m with
  | nil => exact absurd htext Nat.toDigits_ne_nil
  | cons c digits =>
      rw [htext] at hlen hvalue hdigits
      rw [Nat.ofDigitChars_cons, Nat.ofDigitChars_eq_ofDigitChars_zero] at hvalue
      have hle := digit_le (hdigits c (by simp))
      have hrest := ofDigitChars_lt (List.forall_mem_cons.mp hdigits).2
      rw [List.length_cons] at hlen
      rw [List.tail_cons]
      set j := digits.length
      set t := Nat.ofDigitChars 10 digits 0
      set d := c.toNat - '0'.toNat
      obtain ⟨k, hk⟩ : ∃ k, p - j = k + 1 := ⟨p - j - 1, by omega⟩
      have hpow : 10 ^ p = 10 ^ j * 10 ^ (k + 1) := by
        rw [← pow_add]
        congr 1
        omega
      intro heq
      rw [hk, ← hvalue, hpow] at heq
      have hdvd : 10 ^ j ∣ t * (10 ^ (k + 1) + 1) := by
        refine (Nat.dvd_add_right (dvd_mul_right (10 ^ j) d)).mp ⟨10 ^ (k + 1), ?_⟩
        linarith
      have hcoprime : Nat.Coprime (10 ^ j) (10 ^ (k + 1) + 1) := by
        refine Nat.Coprime.pow_left j ?_
        rw [pow_succ, Nat.coprime_mul_right_add_right]
        exact Nat.coprime_one_right 10
      have hzero : t = 0 := Nat.eq_zero_of_dvd_of_lt (hcoprime.dvd_of_dvd_mul_right hdvd) hrest
      rw [hzero] at heq
      have hd : d = 10 ^ (k + 1) := by
        refine Nat.eq_of_mul_eq_mul_left (by positivity : 0 < 10 ^ j) ?_
        linarith
      have : 10 ≤ 10 ^ (k + 1) := Nat.le_self_pow (by omega) 10
      omega

/-! ## Printing and reading -/

theorem isDigit_fraction (o : AssetObject) (a : ℤ) :
    ∀ c ∈ (if a.tmod o.scaledPrecision ≠ 0 then some (o.fractionText a) else none).getD [],
      c.isDigit = true := by
  intro c hc
  obtain ⟨hlow, -⟩ := o.tmod_abs_lt a
  split_ifs at hc
  · rw [Option.getD_some, fractionText, integerText, if_neg (by omega)] at hc
    exact isDigit_of_mem_toDigits (List.mem_of_mem_tail hc)
  · simp at hc

/-- The numeral that is printed for an amount. -/
def amountNumeral (o : AssetObject) (a : ℤ) : Numeral where
  negative := decide (a.tdiv o.scaledPrecision < 0)
  whole := Nat.toDigits 10 (a.tdiv o.scaledPrecision).natAbs
  fraction := if a.tmod o.scaledPrecision ≠ 0 then some (o.fractionText a) else none
  whole_digits := fun _ hc ↦ isDigit_of_mem_toDigits hc
  fraction_digits := o.isDigit_fraction a
  some_digit := .inl Nat.toDigits_ne_nil

theorem amountNumeral_text (o : AssetObject) (a : ℤ) :
    (o.amountNumeral a).text = o.amountToString a := by
  unfold amountNumeral amountToString Numeral.text fractionText integerText
  dsimp only
  split_ifs <;> simp_all [Numeral.unsignedText]

theorem amountNumeral_places (o : AssetObject) (a : ℤ) :
    (o.amountNumeral a).places.length ≤ o.precision := by
  unfold amountNumeral Numeral.places
  dsimp only
  split_ifs
  · exact o.fractionText_length_le a
  · exact Nat.zero_le _

theorem denotes_amountToString (o : AssetObject) (a : ℤ) :
    Denotes (o.amountToString a) (o.amountToReal a) :=
  ⟨o.amountNumeral a, o.amountNumeral_text a,
    by rw [← Numeral.streamValue_text, amountNumeral_text]; rfl⟩

theorem natAbs_tdiv {o : AssetObject} {a : ℤ} (h : a.tdiv o.scaledPrecision < 0) :
    ((a.tdiv o.scaledPrecision).natAbs : ℚ) = -(a.tdiv o.scaledPrecision : ℚ) := by
  rw [← Int.cast_natCast, Int.ofNat_natAbs_of_nonpos h.le]
  push_cast
  rfl

/-- What is printed denotes the amount unless it is negative and no whole number of units. -/
theorem amountToReal_exact_iff (o : AssetObject) (a : ℤ) :
    o.amountToReal a * 10 ^ o.precision = a ↔ 0 ≤ a ∨ (o.scaledPrecision : ℤ) ∣ a := by
  have hpos : (0 : ℤ) < o.scaledPrecision := by exact_mod_cast o.scaledPrecision_pos
  have hscale : (o.scaledPrecision : ℚ) = 10 ^ o.precision := by simp [scaledPrecision]
  have hsplit := Int.mul_tdiv_add_tmod a o.scaledPrecision
  have hsplitQ : (o.scaledPrecision : ℚ) * (a.tdiv o.scaledPrecision : ℚ) +
      (a.tmod o.scaledPrecision : ℚ) = a := by exact_mod_cast hsplit
  by_cases hnonneg : 0 ≤ a
  · rw [o.amountToReal_of_nonneg hnonneg]
    simp [hnonneg]
  · have hneg := not_le.mp hnonneg
    rw [or_iff_right hnonneg, Int.dvd_iff_tmod_eq_zero]
    by_cases hmod : a.tmod o.scaledPrecision = 0
    · have hwhole : a.tdiv o.scaledPrecision < 0 := by
        by_contra hge
        have := mul_nonneg hpos.le (not_lt.mp hge)
        omega
      rw [iff_true_right hmod, amountToReal_eq, if_pos hwhole, if_neg (by simpa using hmod),
        natAbs_tdiv hwhole, ← hsplitQ, hmod, ← hscale]
      push_cast
      ring
    · rw [iff_false_right hmod]
      intro heq
      obtain ⟨hlow, hhigh⟩ := o.tmod_abs_lt a
      have hrest : a.tmod o.scaledPrecision ≤ 0 := by
        have := Int.tmod_nonneg (o.scaledPrecision : ℤ) (a := -a) (by omega)
        rw [Int.neg_tmod] at this
        omega
      by_cases hwhole : a.tdiv o.scaledPrecision < 0
      · -- the fraction would have to be the one of the amount
        obtain ⟨m, hm⟩ := Int.eq_ofNat_of_zero_le
          (by omega : 0 ≤ (o.scaledPrecision : ℤ) + a.tmod o.scaledPrecision)
        have hlt : m < 10 ^ o.precision := by
          have : m < o.scaledPrecision := by omega
          exact this
        have hplaces : 0 < o.precision := by
          by_contra hzero
          rw [Nat.eq_zero_of_not_pos hzero, pow_zero] at hlt
          have hone : o.scaledPrecision = 1 := by
            rw [scaledPrecision, Nat.eq_zero_of_not_pos hzero, pow_zero]
          omega
        have htext : o.fractionText a = (Nat.toDigits 10 m).tail := by
          rw [fractionText, hm, integerText, if_neg (by omega), Int.natAbs_natCast]
        have hfraction := Numeral.fractionValue_mul_pow (o.fractionText_length_le a)
        rw [amountToReal_eq, if_pos hwhole, if_pos hmod, natAbs_tdiv hwhole] at heq
        have hsum : ((Nat.ofDigitChars 10 (o.fractionText a) 0 *
            10 ^ (o.precision - (o.fractionText a).length) : ℕ) : ℚ) + (m : ℚ) = 10 ^ o.precision := by
          have hm' : (o.scaledPrecision : ℚ) + (a.tmod o.scaledPrecision : ℚ) = m := by exact_mod_cast hm
          rw [← hscale] at hfraction heq ⊢
          rw [← hm']
          push_cast
          linarith
        rw [htext] at hsum
        exact fraction_ne hlt hplaces (by exact_mod_cast hsum)
      · have hzero : a.tdiv o.scaledPrecision = 0 := by
          by_contra hne
          have : (o.scaledPrecision : ℤ) * 1 ≤ o.scaledPrecision * a.tdiv o.scaledPrecision :=
            mul_le_mul_of_nonneg_left (by omega) hpos.le
          omega
        rw [hzero, mul_zero, zero_add] at hsplit
        have hreal := o.amountToReal_nonneg_of_gt (by omega) hneg
        have hless : (a : ℚ) < 0 := by exact_mod_cast hneg
        have : 0 ≤ o.amountToReal a * 10 ^ o.precision := by positivity
        linarith

/-- The shares of a numeral with its sign. -/
theorem value_scaled (n : Numeral) {p : ℕ} (h : n.places.length ≤ p) : n.value * 10 ^ p =
    ((if n.negative = true then -(n.shares p : ℤ) else n.shares p : ℤ) : ℚ) := by
  unfold Numeral.value
  split_ifs
  · rw [neg_mul, n.magnitude_scaled h]
    push_cast
    rfl
  · rw [n.magnitude_scaled h]
    push_cast
    rfl

/-- An amount comes back from its text unless it is negative and no whole number of units. -/
theorem roundTrip_iff (o : AssetObject) {a : ℤ} (ha : |a| ≤ maxShareSupply) :
    o.amountFromString (o.amountToString a) = .ok a ↔ 0 ≤ a ∨ (o.scaledPrecision : ℤ) ∣ a := by
  have hplaces := o.amountNumeral_places a
  have hvalue := value_scaled (o.amountNumeral a) hplaces
  rw [← Numeral.streamValue_text, amountNumeral_text] at hvalue
  rw [← amountToReal_exact_iff, amountToReal, hvalue, Int.cast_inj, ← amountNumeral_text,
    amountFromString_text]
  refine ⟨fun h ↦ h.2.2.2, fun h ↦ ⟨fun hempty ↦ absurd hempty Nat.toDigits_ne_nil, hplaces, ?_, h⟩⟩
  rw [abs_le] at ha
  split_ifs at h <;> omega

/-- The text is a numeral, and not a negative one with a fraction. -/
def Faithful (text : List Char) : Prop :=
  ∃ n : Numeral, n.text = text ∧ (n.negative = true → ∀ c ∈ n.places, c = '0')

/-- The places of a numeral are all zero when its shares are whole units. -/
theorem places_zero_iff (o : AssetObject) (n : Numeral) (h : n.places.length ≤ o.precision) :
    o.scaledPrecision ∣ n.shares o.precision ↔ ∀ c ∈ n.places, c = '0' := by
  have hzeros : Nat.ofDigitChars 10 n.places 0 = 0 ↔ ∀ c ∈ n.places, c = '0' :=
    eq_zero_of_ofDigitChars n.fraction_digits
  have hlt : Nat.ofDigitChars 10 n.places 0 < 10 ^ n.places.length := ofDigitChars_lt n.fraction_digits
  have hunits : o.scaledPrecision ∣ Nat.ofDigitChars 10 n.whole 0 * 10 ^ o.precision := dvd_mul_left _ _
  rw [← hzeros, Numeral.shares, Nat.dvd_add_right hunits]
  constructor
  · intro hdvd
    have hless : Nat.ofDigitChars 10 n.places 0 * 10 ^ (o.precision - n.places.length) <
        o.scaledPrecision := by
      have hpow : o.scaledPrecision = 10 ^ n.places.length * 10 ^ (o.precision - n.places.length) := by
        rw [scaledPrecision, ← pow_add, Nat.add_sub_cancel' h]
      rw [hpow]
      exact Nat.mul_lt_mul_of_pos_right hlt (by positivity)
    have hzero := Nat.eq_zero_of_dvd_of_lt hdvd hless
    rcases Nat.mul_eq_zero.mp hzero with hzero | hzero
    · exact hzero
    · exact absurd hzero (by positivity)
  · intro hzero
    rw [hzero, zero_mul]
    exact dvd_zero _

/-- What is printed for the amount read from a text denotes the same number as the text exactly
when the text is a numeral that is no negative fraction. -/
theorem reprint_iff (o : AssetObject) {text : List Char} {a : ℤ}
    (h : o.amountFromString text = .ok a) :
    (∃ q, Denotes text q ∧ Denotes (o.amountToString a) q) ↔ Faithful text := by
  have hprinted := o.denotes_amountToString a
  have hscale : (10 : ℚ) ^ o.precision ≠ 0 := by positivity
  -- a numeral that is read as the amount has its value
  have hread : ∀ n : Numeral, n.text = text →
      (n.value = o.amountToReal a ↔ (n.negative = true → ∀ c ∈ n.places, c = '0')) := by
    rintro n rfl
    obtain ⟨-, hlen, -, rfl⟩ := amountFromString_text n |>.mp h
    rw [← mul_left_inj' hscale, value_scaled n hlen, eq_comm, amountToReal_exact_iff,
      ← places_zero_iff o n hlen]
    cases n.negative with
    | false => simp
    | true =>
        simp only [if_true, forall_const, dvd_neg, Int.natCast_dvd_natCast]
        refine ⟨?_, .inr⟩
        rintro (hnonneg | hdvd)
        · rw [show n.shares o.precision = 0 by omega]
          exact dvd_zero _
        · exact hdvd
  constructor
  · rintro ⟨q, ⟨n, hn, rfl⟩, hq⟩
    exact ⟨n, hn, (hread n hn).mp (hq.eq_streamValue.trans hprinted.eq_streamValue.symm)⟩
  · rintro ⟨n, hn, hzero⟩
    exact ⟨_, ⟨n, hn, rfl⟩, (hread n hn).mpr hzero ▸ hprinted⟩

/-- Amounts and texts survive the round trip exactly when no negative fraction is printed. -/
theorem amountText_roundTrip (o : AssetObject) :
    (∀ a, |a| ≤ maxShareSupply → (o.amountFromString (o.amountToString a) = .ok a ↔
      0 ≤ a ∨ (o.scaledPrecision : ℤ) ∣ a)) ∧
    ∀ text a, o.amountFromString text = .ok a →
      ((∃ q, Denotes text q ∧ Denotes (o.amountToString a) q) ↔ Faithful text) :=
  ⟨fun _ ha ↦ o.roundTrip_iff ha, fun _ _ h ↦ o.reprint_iff h⟩

/-- At two places -1.50 is printed as -1.0. -/
theorem amountText_lost : let o : AssetObject := ⟨"CENTS", 2, by decide⟩
    |(-150 : ℤ)| ≤ maxShareSupply ∧ o.amountToString (-150) = ['-', '1', '.', '0'] ∧
      o.amountFromString (o.amountToString (-150)) = .ok (-100) ∧
      o.amountFromString (o.amountToString (-150)) ≠ .ok (-150) ∧
      o.amountFromString ['-', '1', '.', '5', '0'] = .ok (-150) := by
  decide

end AssetObject

end KarmaCore
