import Mathlib

/-!
# The first elements of a ranking

A list is sorted by a ranking and cut off.  What is left goes before everything
that was cut off.
-/

namespace TopRanked

variable {α : Type*} {r : α → α → Prop} [DecidableRel r] {k : ℕ} {l chosen : List α}

/-- The first `k` of a list that is sorted by a ranking. -/
def top (r : α → α → Prop) [DecidableRel r] (k : ℕ) (l : List α) : List α :=
  (l.insertionSort r).take k

/-- `k` elements of a list, or all of them, are in order and before the others. -/
structure IsTop (r : α → α → Prop) (k : ℕ) (l chosen : List α) : Prop where
  subperm : chosen.Subperm l
  length_eq : chosen.length = min k l.length
  ranked : chosen.Pairwise r
  before : ∀ a ∈ chosen, ∀ b ∈ l, b ∉ chosen → r a b

theorem isTop_top [Std.Total r] [IsTrans α r] (k : ℕ) (l : List α) : IsTop r k l (top r k l) := by
  have hperm := List.perm_insertionSort r l
  have hsorted := List.pairwise_insertionSort r l
  refine ⟨(List.take_sublist k _).subperm.trans hperm.subperm, ?_, ?_, ?_⟩
  · rw [top, List.length_take, hperm.length_eq]
  · exact hsorted.sublist (List.take_sublist k _)
  · intro a ha b hb hcut
    rw [← hperm.mem_iff, ← List.take_append_drop k (l.insertionSort r), List.mem_append] at hb
    rw [← List.take_append_drop k (l.insertionSort r), List.pairwise_append] at hsorted
    exact hsorted.2.2 a ha b (hb.resolve_left hcut)

omit [DecidableRel r] in
theorem IsTop.mem (h : IsTop r k l chosen) {a : α} (ha : a ∈ chosen) : a ∈ l :=
  h.subperm.subset ha

omit [DecidableRel r] in
theorem IsTop.nodup_map {β : Type*} {f : α → β} (h : IsTop r k l chosen)
    (hnodup : (l.map f).Nodup) : (chosen.map f).Nodup := by
  obtain ⟨kept, hperm, hsub⟩ := h.subperm
  exact (hperm.map f).nodup_iff.mp (hnodup.sublist (hsub.map f))

end TopRanked
