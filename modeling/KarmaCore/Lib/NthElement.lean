import Mathlib

/-!
# Selecting the n-th element

`std::nth_element` rearranges a range so that nothing before a place belongs
after what stands there, and nothing after it belongs before.  How the rest is
arranged is left open.  What the place holds is told by the values alone.
-/

namespace NthElement

variable {α β : Type*} {before : α → α → Prop} [∀ a b, Decidable (before a b)] {k : ℕ}
  {xs ys : List α} {m m' : α}

/-- A rearrangement that puts an element at the place `k` which belongs there. -/
structure Selects (before : α → α → Prop) (k : ℕ) (xs ys : List α) (m : α) : Prop where
  perm : ys.Perm xs
  getElem? : ys[k]? = some m
  earlier : ∀ x ∈ ys.take k, ¬before m x
  later : ∀ x ∈ ys.drop k, ¬before x m

/-- At most `k` elements belong before `m`, and at most what is left after it. -/
structure IsNth (before : α → α → Prop) [∀ a b, Decidable (before a b)] (k : ℕ) (xs : List α)
    (m : α) : Prop where
  mem : m ∈ xs
  countP_before : xs.countP (fun x ↦ before x m) ≤ k
  countP_after : xs.countP (fun x ↦ before m x) + k < xs.length

theorem IsNth.of_perm (h : IsNth before k xs m) (hperm : xs.Perm ys) : IsNth before k ys m where
  mem := hperm.mem_iff.mp h.mem
  countP_before := (hperm.countP_eq _).symm.trans_le h.countP_before
  countP_after := by
    rw [← hperm.countP_eq, ← hperm.length_eq]
    exact h.countP_after

omit [∀ a b, Decidable (before a b)] in
theorem Selects.of_perm {zs : List α} (h : Selects before k xs ys m) (hperm : xs.Perm zs) :
    Selects before k zs ys m :=
  ⟨h.perm.trans hperm, h.getElem?, h.earlier, h.later⟩

theorem Selects.isNth (h : Selects before k xs ys m) : IsNth before k xs m := by
  have hk := (List.getElem?_eq_some_iff.mp h.getElem?).1
  have hsplit (p : α → Bool) : ys.countP p = (ys.take k).countP p + (ys.drop k).countP p := by
    rw [← List.countP_append, List.take_append_drop]
  apply IsNth.of_perm _ h.perm
  refine ⟨List.mem_of_getElem? h.getElem?, ?_, ?_⟩
  · have hlater : (ys.drop k).countP (fun x ↦ before x m) = 0 :=
      List.countP_eq_zero.mpr fun x hx ↦ by simpa using h.later x hx
    rw [hsplit, hlater, add_zero]
    exact List.countP_le_length.trans (List.length_take_le _ _)
  · have hearlier : (ys.take k).countP (fun x ↦ before m x) = 0 :=
      List.countP_eq_zero.mpr fun x hx ↦ by simpa using h.earlier x hx
    obtain ⟨hk', hm⟩ := List.getElem?_eq_some_iff.mp h.getElem?
    have hdrop : ys.drop k = m :: ys.drop (k + 1) := by
      rw [List.drop_eq_getElem_cons hk', hm]
    have hself : ¬before m m := h.later m (hdrop ▸ List.mem_cons_self)
    rw [hsplit, hearlier, zero_add, hdrop, List.countP_cons_of_neg (by simpa using hself)]
    have hle := List.countP_le_length (p := fun x ↦ decide (before m x)) (l := ys.drop (k + 1))
    rw [List.length_drop] at hle
    omega

/-- The same of a field of the elements. -/
theorem IsNth.map {field : α → β} {less : β → β → Prop} [∀ a b, Decidable (less a b)]
    (h : IsNth (fun a b ↦ less (field a) (field b)) k xs m) :
    IsNth less k (xs.map field) (field m) where
  mem := List.mem_map_of_mem h.mem
  countP_before := by
    rw [List.countP_map]
    exact h.countP_before
  countP_after := by
    rw [List.countP_map, List.length_map]
    exact h.countP_after

/-- Two elements that belong at one place do not belong before each other. -/
theorem IsNth.unique [LinearOrder β] {rank : α → β}
    (hrank : ∀ a ∈ xs, ∀ b ∈ xs, before a b ↔ rank a < rank b) (h : IsNth before k xs m)
    (h' : IsNth before k xs m') : rank m = rank m' := by
  have hle {a b : α} (ha : IsNth before k xs a) (hb : IsNth before k xs b) : rank b ≤ rank a := by
    by_contra hlt
    rw [not_le] at hlt
    have hcover : xs.countP (fun x ↦ !decide (before a x)) ≤ xs.countP (fun x ↦ before x b) := by
      apply List.countP_mono_left
      intro x hx hnot
      have hxa : ¬rank a < rank x := fun hax ↦ by
        rw [← hrank a ha.mem x hx] at hax
        exact absurd hnot (by simp [hax])
      exact decide_eq_true ((hrank x hx b hb.mem).mpr ((not_lt.mp hxa).trans_lt hlt))
    have hsplit := List.length_eq_countP_add_countP (l := xs) (fun x ↦ decide (before a x))
    simp only [Bool.decide_eq_true, decide_not] at hsplit
    have hbefore := hb.countP_before
    have hafter := ha.countP_after
    omega
  exact le_antisymm (hle h' h) (hle h h')

/-! ## Sorting selects at every place -/

theorem orderedInsert_congr {r s : α → α → Prop} [DecidableRel r] [DecidableRel s] {a : α}
    {l : List α} (h : ∀ b ∈ l, r a b ↔ s a b) : l.orderedInsert r a = l.orderedInsert s a := by
  induction l with
  | nil => rfl
  | cons b l ih =>
      have hb := h b List.mem_cons_self
      rw [List.orderedInsert, List.orderedInsert, ih fun c hc ↦ h c (List.mem_cons_of_mem b hc)]
      by_cases hr : r a b
      · rw [if_pos hr, if_pos (hb.mp hr)]
      · rw [if_neg hr, if_neg (mt hb.mpr hr)]

theorem insertionSort_congr {r s : α → α → Prop} [DecidableRel r] [DecidableRel s] {l : List α}
    (h : ∀ a ∈ l, ∀ b ∈ l, r a b ↔ s a b) : l.insertionSort r = l.insertionSort s := by
  induction l with
  | nil => rfl
  | cons a l ih =>
      have hrest := ih fun b hb c hc ↦
        h b (List.mem_cons_of_mem a hb) c (List.mem_cons_of_mem a hc)
      rw [List.insertionSort_cons, List.insertionSort_cons, hrest]
      apply orderedInsert_congr
      intro b hb
      rw [List.mem_insertionSort] at hb
      exact h a List.mem_cons_self b (List.mem_cons_of_mem a hb)

theorem selects_insertionSort [LinearOrder β] {rank : α → β}
    (hrank : ∀ a ∈ xs, ∀ b ∈ xs, before a b ↔ rank a < rank b)
    (hm : (xs.insertionSort fun a b ↦ ¬before b a)[k]? = some m) :
    Selects before k xs (xs.insertionSort fun a b ↦ ¬before b a) m := by
  have hsame : (xs.insertionSort fun a b ↦ ¬before b a) =
      xs.insertionSort fun a b ↦ rank a ≤ rank b := by
    apply insertionSort_congr
    intro a ha b hb
    rw [hrank b hb a ha, not_lt]
  have hperm := List.perm_insertionSort (fun a b ↦ ¬before b a) xs
  have hsorted : (xs.insertionSort fun a b ↦ ¬before b a).Pairwise
      (fun a b ↦ rank a ≤ rank b) := by
    rw [hsame]
    have : Std.Total fun a b ↦ rank a ≤ rank b := ⟨fun a b ↦ le_total (rank a) (rank b)⟩
    have : IsTrans α fun a b ↦ rank a ≤ rank b := ⟨fun _ _ _ hab hbc ↦ hab.trans hbc⟩
    exact List.pairwise_insertionSort _ xs
  obtain ⟨hk, rfl⟩ := List.getElem?_eq_some_iff.mp hm
  have hmem (i : ℕ) (hi : i < (xs.insertionSort fun a b ↦ ¬before b a).length) :
      (xs.insertionSort fun a b ↦ ¬before b a)[i] ∈ xs :=
    hperm.mem_iff.mp (List.getElem_mem hi)
  have hle {i j : ℕ} (hij : i ≤ j) (hj : j < (xs.insertionSort fun a b ↦ ¬before b a).length) :
      ¬before ((xs.insertionSort fun a b ↦ ¬before b a)[j])
        ((xs.insertionSort fun a b ↦ ¬before b a)[i]) := by
    rw [hrank _ (hmem j hj) _ (hmem i (hij.trans_lt hj)), not_lt]
    rcases hij.eq_or_lt with rfl | hlt
    · exact le_rfl
    · exact List.pairwise_iff_getElem.mp hsorted i j (hij.trans_lt hj) hj hlt
  refine ⟨hperm, hm, ?_, ?_⟩
  · intro x hx
    obtain ⟨i, hi, rfl⟩ := List.mem_take_iff_getElem.mp hx
    exact hle (Nat.le_of_lt (lt_of_lt_of_le hi (min_le_left _ _))) hk
  · intro x hx
    obtain ⟨i, hi, rfl⟩ := List.mem_drop_iff_getElem.mp hx
    exact hle (Nat.le_add_right k i) _

end NthElement
