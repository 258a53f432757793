import Mathlib

/-!
# Account names

`is_valid_name` scans a name label by label.  A read outside the name would be
undefined; it gives no result here.
-/

namespace KarmaCore.AccountName

/-- `GRAPHENE_MIN_ACCOUNT_NAME_LENGTH` and `GRAPHENE_MAX_ACCOUNT_NAME_LENGTH`. -/
def minAccountNameLength : ℕ := 1
def maxAccountNameLength : ℕ := 63

/-! ## The scan -/

def IsLetter (c : Char) : Prop := 'a' ≤ c ∧ c ≤ 'z'
def IsDigit (c : Char) : Prop := '0' ≤ c ∧ c ≤ '9'

instance (c : Char) : Decidable (IsLetter c) := inferInstanceAs (Decidable (_ ∧ _))
instance (c : Char) : Decidable (IsDigit c) := inferInstanceAs (Decidable (_ ∧ _))

/-- Subtraction of two `size_t`. -/
def sizeSub (a b : ℕ) : ℕ := if b ≤ a then a - b else a + 2 ^ 64 - b

/-- `name.find_first_of( '.', begin )`, or the length of the name. -/
def labelEnd (name : List Char) (start : ℕ) : ℕ :=
  match (name.drop start).findIdx? (· = '.') with
  | some i => start + i
  | none => name.length

/-- The loop over the characters between the first and the last. -/
def scanInner (name : List Char) : ℕ → ℕ → Option Bool
  | 0, _ => some true
  | count + 1, i =>
    match name[i]? with
    | none => none
    | some c =>
      if IsLetter c ∨ IsDigit c ∨ c = '-' then scanInner name count (i + 1) else some false

def scanLabel (name : List Char) (start stop : ℕ) : Option Bool :=
  if sizeSub stop start < minAccountNameLength then some false
  else
    match name[start]? with
    | none => none
    | some first =>
      if ¬IsLetter first then some false
      else
        match name[sizeSub stop 1]? with
        | none => none
        | some last =>
          if ¬(IsLetter last ∨ IsDigit last) then some false
          else scanInner name (sizeSub stop 1 - (start + 1)) (start + 1)

theorem labelEnd_bounds {name : List Char} {start : ℕ} (h : labelEnd name start ≠ name.length) :
    start ≤ labelEnd name start ∧ labelEnd name start < name.length := by
  unfold labelEnd at h ⊢
  split at h
  · next i hi =>
      obtain ⟨hlt, -⟩ := List.findIdx?_eq_some_iff_getElem.mp hi
      simp only [List.length_drop] at hlt
      exact ⟨Nat.le_add_right _ _, by omega⟩
  · exact absurd rfl h

/-- The loop over the labels. -/
def scan (name : List Char) (start : ℕ) : Option Bool :=
  match scanLabel name start (labelEnd name start) with
  | none => none
  | some false => some false
  | some true =>
    if h : labelEnd name start = name.length then some true
    else scan name (labelEnd name start + 1)
termination_by name.length - start
decreasing_by
  have := labelEnd_bounds h
  omega

def isValidName (name : List Char) : Option Bool :=
  if name.length < minAccountNameLength then some false
  else if maxAccountNameLength < name.length then some false
  else scan name 0

/-! ## The grammar -/

structure IsLabel (label : List Char) : Prop where
  length : minAccountNameLength ≤ label.length
  first : ∀ c ∈ label.head?, IsLetter c
  last : ∀ c ∈ label.getLast?, IsLetter c ∨ IsDigit c
  inner : ∀ c ∈ label.tail.dropLast, IsLetter c ∨ IsDigit c ∨ c = '-'

structure IsName (name : List Char) : Prop where
  min : minAccountNameLength ≤ name.length
  max : name.length ≤ maxAccountNameLength
  labels : ∀ label ∈ name.splitOn '.', IsLabel label

/-! ## The scan decides the grammar -/

variable {pre label rest : List Char}

theorem getElem?_middle (pre : List Char) (c : Char) (rest : List Char) :
    (pre ++ c :: rest)[pre.length]? = some c := by
  rw [List.getElem?_append_right le_rfl, Nat.sub_self, List.getElem?_cons_zero]

theorem scanInner_append (pre inner rest : List Char) : ∃ b,
    scanInner (pre ++ inner ++ rest) inner.length pre.length = some b ∧
      (b = true ↔ ∀ c ∈ inner, IsLetter c ∨ IsDigit c ∨ c = '-') := by
  induction inner generalizing pre with
  | nil => exact ⟨true, rfl, by simp⟩
  | cons c inner ih =>
      have hread : (pre ++ c :: inner ++ rest)[pre.length]? = some c := by
        rw [List.append_assoc, List.cons_append, getElem?_middle]
      simp only [List.length_cons, scanInner, hread]
      split_ifs with hc
      · obtain ⟨b, hb, hiff⟩ := ih (pre ++ [c])
        rw [List.append_assoc pre, List.singleton_append, List.length_append] at hb
        exact ⟨b, hb, by rw [hiff, List.forall_mem_cons]; exact (and_iff_right hc).symm⟩
      · exact ⟨false, rfl, by simp [hc]⟩

theorem isLabel_singleton {c : Char} (hc : IsLetter c) : IsLabel [c] where
  length := le_rfl
  first := by simpa using hc
  last := by simpa using Or.inl hc
  inner := by simp

theorem isLabel_concat {c d : Char} {inner : List Char} : IsLabel (c :: (inner ++ [d])) ↔
    IsLetter c ∧ (IsLetter d ∨ IsDigit d) ∧ ∀ x ∈ inner, IsLetter x ∨ IsDigit x ∨ x = '-' := by
  have hlast : (c :: (inner ++ [d])).getLast? = some d := by
    rw [← List.cons_append, List.getLast?_concat]
  constructor
  · intro h
    exact ⟨h.first c rfl, h.last d hlast, by simpa using h.inner⟩
  · rintro ⟨hc, hd, hinner⟩
    exact ⟨Nat.le_add_left _ _, by simpa using hc, by simpa [hlast] using hd, by simpa using hinner⟩

/-- A label in its place in a name is scanned without a read outside. -/
theorem scanLabel_append (pre label rest : List Char) : ∃ b,
    scanLabel (pre ++ label ++ rest) pre.length (pre.length + label.length) = some b ∧
      (b = true ↔ IsLabel label) := by
  have hlength : sizeSub (pre.length + label.length) pre.length = label.length := by
    rw [sizeSub, if_pos (Nat.le_add_right _ _), Nat.add_sub_cancel_left]
  unfold scanLabel
  rw [hlength]
  split_ifs with hshort
  · exact ⟨false, rfl, by simpa using fun h : IsLabel label ↦ hshort.not_ge h.length⟩
  cases label with
  | nil => exact absurd Nat.one_pos hshort
  | cons c tail =>
      have hstop : sizeSub (pre.length + (c :: tail).length) 1 = pre.length + tail.length := by
        rw [sizeSub, List.length_cons, if_pos (by omega)]
        omega
      have hfirst : (pre ++ c :: tail ++ rest)[pre.length]? = some c := by
        rw [List.append_assoc, List.cons_append, getElem?_middle]
      simp only [hstop, hfirst]
      by_cases hc : IsLetter c
      · rw [if_neg (not_not.mpr hc)]
        -- the last character is the first one when the label has no other
        obtain rfl | ⟨inner, d, rfl⟩ := List.eq_nil_or_concat tail
        · simp only [List.length_nil, add_zero, hfirst]
          rw [if_neg (not_not.mpr (Or.inl hc)), Nat.sub_eq_zero_of_le (Nat.le_succ _)]
          exact ⟨true, rfl, by simpa using isLabel_singleton hc⟩
        · have hname : pre ++ c :: (inner ++ [d]) ++ rest = (pre ++ [c]) ++ inner ++ d :: rest := by
            simp
          have hindex : pre.length + (inner ++ [d]).length = ((pre ++ [c]) ++ inner).length := by
            simp only [List.length_append, List.length_singleton]
            omega
          simp only [List.concat_eq_append, hindex, hname, getElem?_middle]
          by_cases hd : IsLetter d ∨ IsDigit d
          · obtain ⟨b, hb, hiff⟩ := scanInner_append (pre ++ [c]) inner (d :: rest)
            have hcount : (pre ++ [c] ++ inner).length - (pre.length + 1) = inner.length := by
              simp only [List.length_append, List.length_singleton]
              omega
            rw [if_neg (not_not.mpr hd), hcount]
            rw [List.length_append, List.length_singleton] at hb
            exact ⟨b, hb, by rw [hiff, isLabel_concat, and_iff_right hc, and_iff_right hd]⟩
          · rw [if_pos hd]
            exact ⟨false, rfl, by simp [isLabel_concat, hd]⟩
      · rw [if_pos hc]
        exact ⟨false, rfl, by simpa using fun h : IsLabel (c :: tail) ↦ hc (h.first c rfl)⟩

/-- The rest of a name is a label, or a label, a dot and a rest. -/
theorem labels_cases (name : List Char) : '.' ∉ name ∨
    ∃ label rest, '.' ∉ label ∧ name = label ++ '.' :: rest := by
  by_cases hdot : '.' ∈ name
  · obtain ⟨label, rest, rfl, hlabel⟩ := List.eq_append_cons_of_mem hdot
    exact .inr ⟨label, rest, hlabel, rfl⟩
  · exact .inl hdot

theorem findIdx?_dot (hlabel : '.' ∉ label) : label.findIdx? (· = '.') = none := by
  refine List.findIdx?_eq_none_iff.mpr fun c hc ↦ decide_eq_false ?_
  rintro rfl
  exact hlabel hc

theorem labelEnd_last (pre : List Char) (hlabel : '.' ∉ label) :
    labelEnd (pre ++ label) pre.length = (pre ++ label).length := by
  unfold labelEnd
  rw [List.drop_left, findIdx?_dot hlabel]

theorem labelEnd_dot (pre rest : List Char) (hlabel : '.' ∉ label) :
    labelEnd (pre ++ (label ++ '.' :: rest)) pre.length = pre.length + label.length := by
  unfold labelEnd
  have hfind : (label ++ '.' :: rest).findIdx? (· = '.') = some label.length := by
    rw [List.findIdx?_append, findIdx?_dot hlabel]
    simp [List.findIdx?_cons]
  rw [List.drop_left, hfind]

theorem splitOn_last (hlabel : '.' ∉ label) : label.splitOn '.' = [label] :=
  List.splitOnP_eq_singleton fun c hc ↦ by simpa using fun h : c = '.' ↦ hlabel (h ▸ hc)

theorem splitOn_dot (rest : List Char) (hlabel : '.' ∉ label) :
    (label ++ '.' :: rest).splitOn '.' = label :: rest.splitOn '.' := by
  have hsplit : (label ++ '.' :: rest).splitOn '.' = label.splitOn '.' ++ rest.splitOn '.' :=
    List.splitOnP_append_cons label rest rfl
  rw [hsplit, splitOn_last hlabel]
  rfl

/-- From the start of a label on, the scan finds whether all that follow are well formed. -/
theorem scan_append (pre rest : List Char) : ∃ b,
    scan (pre ++ rest) pre.length = some b ∧
      (b = true ↔ ∀ label ∈ rest.splitOn '.', IsLabel label) := by
  induction h : rest.length using Nat.strong_induction_on generalizing pre rest with
  | _ n ih =>
    rw [scan]
    rcases labels_cases rest with hlast | ⟨label, rest, hlabel, rfl⟩
    · obtain ⟨b, hb, hiff⟩ := scanLabel_append pre rest []
      rw [List.append_nil, ← List.length_append] at hb
      rw [labelEnd_last pre hlast, hb, splitOn_last hlast]
      refine ⟨b, ?_, by simpa using hiff⟩
      cases b <;> simp
    · obtain ⟨b, hb, hiff⟩ := scanLabel_append pre label ('.' :: rest)
      rw [List.append_assoc] at hb
      rw [labelEnd_dot pre rest hlabel, hb, splitOn_dot rest hlabel, List.forall_mem_cons, ← hiff]
      cases b with
      | false => exact ⟨false, rfl, by simp⟩
      | true =>
          have hmore : pre.length + label.length ≠ (pre ++ (label ++ '.' :: rest)).length := by
            simp only [List.length_append, List.length_cons]
            omega
          obtain ⟨b, hb, hiff⟩ := ih rest.length (by simp at h; omega) (pre ++ (label ++ ['.'])) rest rfl
          refine ⟨b, ?_, by simpa using hiff⟩
          simp only [dif_neg hmore]
          rw [← hb]
          congr 1
          · simp
          · simp [add_assoc]

/-- The scan of a name never reads outside it and accepts exactly the grammar. -/
theorem isValidName_iff (name : List Char) :
    ∃ valid, isValidName name = some valid ∧ (valid = true ↔ IsName name) := by
  unfold isValidName
  split_ifs with hmin hmax
  · exact ⟨false, rfl, by simpa using fun h : IsName name ↦ hmin.not_ge h.min⟩
  · exact ⟨false, rfl, by simpa using fun h : IsName name ↦ hmax.not_ge h.max⟩
  · obtain ⟨b, hb, hiff⟩ := scan_append [] name
    exact ⟨b, hb, hiff.trans ⟨fun h ↦ ⟨not_lt.mp hmin, not_lt.mp hmax, h⟩, fun h ↦ h.labels⟩⟩

end KarmaCore.AccountName
