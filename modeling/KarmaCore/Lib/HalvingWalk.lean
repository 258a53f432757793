import Mathlib

/-!
# Walking up to a number in halves

Every step of the walk goes just past the middle of what is left, and the walk
ends at the top.  A walk that is cut at a number is the part of it that is not
above that number, so that another one can go on from there.
-/

namespace HalvingWalk

/-- The number after `low` on the way to `top`. -/
def next (top low : ℕ) : ℕ := low + (top - low + 2) / 2

/-- The numbers from `low` up to `top`. -/
def steps (top low : ℕ) : List ℕ :=
  low :: if low < top then steps top (next top low) else []
termination_by top - low
decreasing_by
  rw [next]
  omega

variable {top low high k : ℕ}

theorem lt_next : low < next top low := by
  rw [next]
  omega

theorem next_le (h : low < top) : next top low ≤ top := by
  rw [next]
  omega

theorem next_top : next top top = top + 1 := by simp [next]

/-- Half of the gap is left. -/
theorem gap_next (h : low < top) : top - next top low = (top - low - 1) / 2 := by
  rw [next]
  omega

/-- The number at which half of the gap is left is the next one. -/
theorem eq_next (hlow : low < k) (hk : k ≤ top) (hgap : top - k = (top - low - 1) / 2) :
    k = next top low := by
  rw [next]
  omega

theorem steps_of_lt (h : low < top) : steps top low = low :: steps top (next top low) := by
  rw [steps, if_pos h]

theorem steps_of_le (h : top ≤ low) : steps top low = [low] := by
  rw [steps, if_neg (not_lt.mpr h)]

theorem head?_steps : (steps top low).head? = some low := by
  rw [steps]
  rfl

theorem mem_steps (hlow : low ≤ top) (hk : k ∈ steps top low) : low ≤ k ∧ k ≤ top := by
  induction low using steps.induct top with
  | case1 low ih =>
      rcases hlow.eq_or_lt with rfl | hlt
      · rw [steps_of_le le_rfl, List.mem_singleton] at hk
        exact ⟨hk.ge, hk.le⟩
      · rw [steps_of_lt hlt] at hk
        rcases List.mem_cons.mp hk with rfl | hk
        · exact ⟨le_rfl, hlt.le⟩
        · obtain ⟨hge, hle⟩ := ih hlt (next_le hlt) hk
          exact ⟨lt_next.le.trans hge, hle⟩

theorem pairwise_steps (hlow : low ≤ top) : (steps top low).Pairwise (· < ·) := by
  induction low using steps.induct top with
  | case1 low ih =>
      rcases hlow.eq_or_lt with rfl | hlt
      · rw [steps_of_le le_rfl]
        exact List.pairwise_singleton _ _
      · rw [steps_of_lt hlt, List.pairwise_cons]
        refine ⟨fun k hk ↦ ?_, ih hlt (next_le hlt)⟩
        exact lt_next.trans_le (mem_steps (next_le hlt) hk).1

theorem getLast?_steps (hlow : low ≤ top) : (steps top low).getLast? = some top := by
  induction low using steps.induct top with
  | case1 low ih =>
      rcases hlow.eq_or_lt with rfl | hlt
      · rw [steps_of_le le_rfl]
        rfl
      · have hlast := ih hlt (next_le hlt)
        rw [steps_of_lt hlt]
        obtain ⟨rest, hrest⟩ : ∃ rest, steps top (next top low) = next top low :: rest := by
          rw [steps]
          exact ⟨_, rfl⟩
        rw [hrest] at hlast ⊢
        rwa [List.getLast?_cons_cons]

theorem isChain_steps (hlow : low ≤ top) :
    (steps top low).IsChain fun a b ↦ a < b ∧ top - b = (top - a - 1) / 2 := by
  induction low using steps.induct top with
  | case1 low ih =>
      rcases hlow.eq_or_lt with rfl | hlt
      · rw [steps_of_le le_rfl]
        exact List.isChain_singleton _
      · have htail := ih hlt (next_le hlt)
        rw [steps_of_lt hlt]
        apply List.isChain_cons.mpr
        refine ⟨fun b hb ↦ ?_, htail⟩
        rw [head?_steps] at hb
        obtain rfl := Option.some.inj hb
        exact ⟨lt_next, gap_next hlt⟩

/-! ## A walk that is cut -/

/-- The numbers up to `high`, which is not above the top. -/
def stepsUpTo (top high low : ℕ) : List ℕ := (steps top low).filter (· ≤ high)

theorem stepsUpTo_top (hlow : low ≤ top) : stepsUpTo top top low = steps top low :=
  List.filter_eq_self.mpr fun _ hk ↦ decide_eq_true (mem_steps hlow hk).2

theorem stepsUpTo_of_lt (hlow : low ≤ top) (h : high < low) : stepsUpTo top high low = [] := by
  apply List.filter_eq_nil_iff.mpr
  intro k hk
  have := (mem_steps hlow hk).1
  simpa using h.trans_le this

/-- The walk goes on as long as the next number is not above `high`. -/
theorem stepsUpTo_cons (hlow : low ≤ high) (htop : high ≤ top) :
    stepsUpTo top high low = low ::
      if next top low ≤ high then stepsUpTo top high (next top low) else [] := by
  rw [stepsUpTo]
  rcases hlow.trans htop |>.eq_or_lt with rfl | hlt
  · rw [steps_of_le le_rfl, if_neg (by rw [next_top]; omega)]
    simpa using hlow
  · rw [steps_of_lt hlt, List.filter_cons_of_pos (by simpa using hlow), ← stepsUpTo]
    split_ifs with hnext
    · rfl
    · rw [stepsUpTo_of_lt (next_le hlt) (not_le.mp hnext)]

theorem filter_append_filter {l : List ℕ} (hl : l.Pairwise (· < ·)) (high : ℕ) :
    l.filter (· ≤ high) ++ l.filter (high < ·) = l := by
  induction l with
  | nil => rfl
  | cons a l ih =>
      obtain ⟨hlt, hl⟩ := List.pairwise_cons.mp hl
      by_cases ha : a ≤ high
      · rw [List.filter_cons_of_pos (by simpa using ha), List.filter_cons_of_neg (by simpa using ha),
          List.cons_append, ih hl]
      · have hnone : l.filter (· ≤ high) = [] := by
          apply List.filter_eq_nil_iff.mpr
          intro k hk
          have := hlt k hk
          simp only [decide_eq_true_eq]
          omega
        have hall : l.filter (high < ·) = l := by
          apply List.filter_eq_self.mpr
          intro k hk
          have := hlt k hk
          simp only [decide_eq_true_eq]
          omega
        rw [List.filter_cons_of_neg (by simpa using ha), hnone,
          List.filter_cons_of_pos (by simpa using ha), hall, List.nil_append]

/-- What is left of the walk comes after the cut. -/
theorem stepsUpTo_append (hlow : low ≤ top) :
    stepsUpTo top high low ++ (steps top low).filter (high < ·) = steps top low :=
  filter_append_filter (pairwise_steps hlow) high

theorem mem_stepsUpTo (hlow : low ≤ top) (hk : k ∈ stepsUpTo top high low) : low ≤ k ∧ k ≤ high := by
  obtain ⟨hmem, hle⟩ := List.mem_filter.mp hk
  exact ⟨(mem_steps hlow hmem).1, of_decide_eq_true hle⟩

theorem isChain_stepsUpTo (hlow : low ≤ top) :
    (stepsUpTo top high low).IsChain fun a b ↦ a < b ∧ top - b = (top - a - 1) / 2 := by
  have hchain := isChain_steps hlow
  have happend : stepsUpTo top high low ++ _ = steps top low := stepsUpTo_append hlow
  rw [← happend] at hchain
  exact hchain.left_of_append

/-- The cut is at the last number whose next one is above it. -/
theorem getLast?_stepsUpTo (hlow : low ≤ high) (htop : high ≤ top) :
    ∃ k ∈ (stepsUpTo top high low).getLast?, high < next top k := by
  induction low using steps.induct top with
  | case1 low ih =>
      rw [stepsUpTo_cons hlow htop]
      by_cases hnext : next top low ≤ high
      · have hlt : low < top := by
          have : low < next top low := lt_next
          omega
        obtain ⟨k, hk, hpast⟩ := ih hlt hnext
        refine ⟨k, ?_, hpast⟩
        rw [if_pos hnext]
        rw [stepsUpTo_cons hnext htop] at hk ⊢
        rwa [List.getLast?_cons_cons]
      · exact ⟨low, by rw [if_neg hnext]; rfl, not_le.mp hnext⟩

end HalvingWalk
