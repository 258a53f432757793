import Mathlib

/-!
# Folding a list in pairs

Neighbours are combined level by level until one value is left, and a last value
without a neighbour is carried up as it is.  Where combining has no collisions,
lists of one length have different roots.
-/

namespace PairTree

variable {α : Type} (combine : α → α → α)

/-- The next level. -/
def level : List α → List α
  | a :: b :: rest => combine a b :: level rest
  | [a] => [a]
  | [] => []

/-- The pairs that are combined on one level. -/
def pairs : List α → List (α × α)
  | a :: b :: rest => (a, b) :: pairs rest
  | [_] => []
  | [] => []

theorem length_level (l : List α) : (level combine l).length = (l.length + 1) / 2 := by
  induction l using level.induct with
  | case1 a b rest ih =>
      simp only [level, List.length_cons, ih]
      omega
  | case2 a => simp [level]
  | case3 => simp [level]

/-- An even part of a list has a level of its own. -/
theorem level_append {l : List α} (h : l.length % 2 = 0) (m : List α) :
    level combine (l ++ m) = level combine l ++ level combine m := by
  induction l using level.induct with
  | case1 a b rest ih =>
      have hrest : rest.length % 2 = 0 := by
        simp only [List.length_cons] at h
        omega
      simp only [List.cons_append, level, ih hrest]
  | case2 a => exact absurd h (by simp)
  | case3 => simp [level]

/-- The value that is left, if there is any. -/
def root : List α → Option α
  | [] => none
  | [a] => some a
  | a :: b :: rest => root (level combine (a :: b :: rest))
termination_by l => l.length
decreasing_by
  simp only [length_level, List.length_cons]
  omega

/-- All pairs that are combined on the way to the root. -/
def combined : List α → List (α × α)
  | [] => []
  | [_] => []
  | a :: b :: rest =>
      pairs (a :: b :: rest) ++ combined (level combine (a :: b :: rest))
termination_by l => l.length
decreasing_by
  simp only [length_level, List.length_cons]
  omega

variable {combine} {l l' : List α}

theorem root_of_two_le (h : 2 ≤ l.length) : root combine l = root combine (level combine l) := by
  match l, h with
  | a :: b :: rest, _ => rw [root]

theorem combined_of_two_le (h : 2 ≤ l.length) :
    combined combine l = pairs l ++ combined combine (level combine l) := by
  match l, h with
  | a :: b :: rest, _ => rw [combined]

theorem root_isSome (h : l ≠ []) : ∃ a, root combine l = some a := by
  induction hlength : l.length using Nat.strong_induction_on generalizing l with
  | h n ih =>
      match l, h with
      | [a], _ => exact ⟨a, by rw [root]⟩
      | a :: b :: rest, _ =>
          rw [root_of_two_le (by simp)]
          have hlevel := length_level combine (a :: b :: rest)
          apply ih (level combine (a :: b :: rest)).length _ _ rfl
          · rw [hlevel, ← hlength]
            simp only [List.length_cons]
            omega
          · apply List.ne_nil_of_length_pos
            rw [hlevel]
            simp only [List.length_cons]
            omega

/-- A level without collisions tells the level below it. -/
theorem level_inj (hlength : l.length = l'.length)
    (hfree : ∀ x ∈ pairs l, ∀ y ∈ pairs l', combine x.1 x.2 = combine y.1 y.2 → x = y)
    (h : level combine l = level combine l') : l = l' := by
  induction l using level.induct generalizing l' with
  | case1 a b rest ih =>
      match l', hlength with
      | c :: d :: rest', hlength =>
          obtain ⟨hhead, htail⟩ := List.cons.inj h
          have hpair := hfree (a, b) List.mem_cons_self (c, d) List.mem_cons_self hhead
          obtain ⟨rfl, rfl⟩ := Prod.mk.inj hpair
          have hrest := ih (Nat.succ_injective (Nat.succ_injective hlength))
            (fun x hx y hy ↦ hfree x (List.mem_cons_of_mem _ hx) y (List.mem_cons_of_mem _ hy)) htail
          rw [hrest]
  | case2 a =>
      match l', hlength with
      | [c], _ => exact h
  | case3 => exact (List.length_eq_zero_iff.mp hlength.symm).symm

/-- Where no pairs that are combined collide, lists of one length with one root are the same. -/
theorem root_inj (hlength : l.length = l'.length)
    (hfree : ∀ x ∈ combined combine l, ∀ y ∈ combined combine l',
      combine x.1 x.2 = combine y.1 y.2 → x = y)
    (h : root combine l = root combine l') : l = l' := by
  induction hn : l.length using Nat.strong_induction_on generalizing l l' with
  | h n ih =>
      match l, l', hlength with
      | [], [], _ => rfl
      | [a], [c], _ =>
          rw [root, root] at h
          rw [Option.some.inj h]
      | a :: b :: rest, c :: d :: rest', hlength =>
          have htwo : 2 ≤ (a :: b :: rest).length := by simp
          have htwo' : 2 ≤ (c :: d :: rest').length := by simp
          rw [root_of_two_le htwo, root_of_two_le htwo'] at h
          rw [combined_of_two_le htwo, combined_of_two_le htwo'] at hfree
          have hlevel := length_level combine (a :: b :: rest)
          have hlevel' := length_level combine (c :: d :: rest')
          apply level_inj hlength
          · exact fun x hx y hy ↦
              hfree x (List.mem_append_left _ hx) y (List.mem_append_left _ hy)
          · apply ih (level combine (a :: b :: rest)).length _ (by rw [hlevel, hlevel', hlength])
              (fun x hx y hy ↦ hfree x (List.mem_append_right _ hx) y (List.mem_append_right _ hy)) h
              rfl
            rw [hlevel, ← hn]
            omega

end PairTree
