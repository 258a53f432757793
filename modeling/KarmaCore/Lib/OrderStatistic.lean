import Mathlib

/-!
# Order statistics

The value that stands at a place of a list once the list is sorted.  As many
values as stand from that place on are at least as large, and of every larger
value there are fewer.
-/

namespace OrderStatistic

variable {α : Type*} [LinearOrder α] {l : List α} {i : ℕ} {x y : α}

/-- The value at the place `i` of the sorted list. -/
def nth (l : List α) (i : ℕ) : Option α := (l.insertionSort (· ≤ ·))[i]?

theorem countP_sorted (p : α → Bool) (l : List α) (i : ℕ) :
    l.countP p = ((l.insertionSort (· ≤ ·)).take i).countP p +
      ((l.insertionSort (· ≤ ·)).drop i).countP p := by
  rw [← List.countP_append, List.take_append_drop]
  exact ((List.perm_insertionSort (· ≤ ·) l).countP_eq p).symm

theorem nth_le_nth {j : ℕ} (hij : i ≤ j) (hx : nth l i = some x) (hy : nth l j = some y) :
    x ≤ y := by
  obtain ⟨hi, rfl⟩ := List.getElem?_eq_some_iff.mp hx
  obtain ⟨hj, rfl⟩ := List.getElem?_eq_some_iff.mp hy
  rcases hij.eq_or_lt with rfl | hlt
  · exact le_rfl
  · exact List.pairwise_iff_getElem.mp (List.pairwise_insertionSort (· ≤ ·) l) i j hi hj hlt

/-- Everything from the place on is as large as what stands there. -/
theorem le_countP (h : nth l i = some x) : l.length - i ≤ l.countP (fun y ↦ x ≤ y) := by
  have hlater : ∀ y ∈ (l.insertionSort (· ≤ ·)).drop i, x ≤ y := by
    intro y hy
    obtain ⟨j, hj⟩ := List.getElem?_of_mem hy
    rw [List.getElem?_drop] at hj
    exact nth_le_nth (Nat.le_add_right i j) h hj
  have hall : ((l.insertionSort (· ≤ ·)).drop i).countP (fun y ↦ x ≤ y) = l.length - i := by
    rw [List.countP_eq_length.mpr fun y hy ↦ decide_eq_true (hlater y hy), List.length_drop,
      List.length_insertionSort]
  rw [countP_sorted _ l i, hall]
  exact Nat.le_add_left _ _

/-- Only what stands behind the place can be larger than what stands there. -/
theorem countP_lt (h : nth l i = some x) (hxy : x < y) :
    l.countP (fun z ↦ y ≤ z) < l.length - i := by
  obtain ⟨hi, -⟩ := List.getElem?_eq_some_iff.mp h
  rw [List.length_insertionSort] at hi
  have hearlier : ∀ z ∈ (l.insertionSort (· ≤ ·)).take (i + 1), z ≤ x := by
    intro z hz
    obtain ⟨j, hj⟩ := List.getElem?_of_mem hz
    rw [List.getElem?_take] at hj
    split_ifs at hj with hle
    exact nth_le_nth (Nat.le_of_lt_succ hle) hj h
  have hnone : ((l.insertionSort (· ≤ ·)).take (i + 1)).countP (fun z ↦ y ≤ z) = 0 := by
    refine List.countP_eq_zero.mpr fun z hz ↦ ?_
    simpa using (hearlier z hz).trans_lt hxy
  rw [countP_sorted _ l (i + 1), hnone, zero_add]
  refine (List.countP_le_length).trans_lt ?_
  rw [List.length_drop, List.length_insertionSort]
  omega

end OrderStatistic
