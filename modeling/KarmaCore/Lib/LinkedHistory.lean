import Mathlib

/-!
# Numbered entries that link back

A history is a list of entries under ids, the oldest first.  Entries have consecutive
numbers, and each leads to the one before it.  Entries are added at the end and
taken away at the beginning.
-/

namespace LinkedHistory

variable {ι α : Type*} {next : α → ι} {number : α → ℕ} {entries : List (ι × α)} {entry : ι × α}
  {before : ι} {a b : α} {n : ℕ}

/-- Each entry leads to the one before it, the oldest to `before`. -/
def Linked (next : α → ι) : ι → List (ι × α) → Prop
  | _, [] => True
  | before, (id, a) :: entries => next a = before ∧ Linked next id entries

/-- The id of the newest entry. -/
def newest (before : ι) (entries : List (ι × α)) : ι := (entries.map Prod.fst).getLastD before

/-- The entries have the numbers from `n` on. -/
def NumberedFrom (number : α → ℕ) (n : ℕ) (entries : List (ι × α)) : Prop :=
  entries.map (fun entry ↦ number entry.2) = List.range' n entries.length

@[simp] theorem newest_nil : newest before ([] : List (ι × α)) = before := rfl

@[simp] theorem newest_cons : newest before (entry :: entries) = newest entry.1 entries := by
  unfold newest
  rw [List.map_cons, List.getLastD_cons]

@[simp] theorem newest_append : newest before (entries ++ [entry]) = entry.1 := by
  simp [newest]

theorem linked_append : Linked next before (entries ++ [entry]) ↔
    Linked next before entries ∧ next entry.2 = newest before entries := by
  induction entries generalizing before with
  | nil => simp [Linked]
  | cons first entries ih =>
      rw [List.cons_append, Linked, Linked, ih, newest_cons, and_assoc]

theorem numberedFrom_append : NumberedFrom number n (entries ++ [entry]) ↔
    NumberedFrom number n entries ∧ number entry.2 = n + entries.length := by
  unfold NumberedFrom
  rw [List.map_append, List.length_append, List.length_singleton, List.range'_1_concat]
  constructor
  · intro h
    obtain ⟨hentries, hentry⟩ := List.append_inj' h rfl
    exact ⟨hentries, by simpa using hentry⟩
  · rintro ⟨hentries, hentry⟩
    rw [hentries, List.map_singleton, hentry]

theorem NumberedFrom.tail (h : NumberedFrom number n (entry :: entries)) :
    NumberedFrom number (n + 1) entries := by
  unfold NumberedFrom at h
  rw [List.map_cons, List.length_cons, List.range'_succ] at h
  exact (List.cons.inj h).2

theorem NumberedFrom.pairwise (h : NumberedFrom number n entries) :
    entries.Pairwise fun entry entry' ↦ number entry.2 < number entry'.2 := by
  have hsorted := List.pairwise_lt_range' (s := n) (n := entries.length)
  rw [← h] at hsorted
  exact List.pairwise_map.mp hsorted

end LinkedHistory
