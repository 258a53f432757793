import Mathlib

/-!
# Triples of computations that may throw

A triple that is partial in its exceptions says what a result satisfies if the
computation has one.
-/

open Std.Do

namespace Except

variable {ε α β : Type} {P : Prop} {Q : α → Prop}

/-- A sequence succeeds through an intermediate result. -/
theorem bind_eq_ok {x : Except ε α} {f : α → Except ε β} {b : β} :
    (x >>= f) = .ok b ↔ ∃ a, x = .ok a ∧ f a = .ok b := by
  cases x <;> simp [bind, Except.bind]

theorem pure_eq_ok {a b : α} : (pure a : Except ε α) = .ok b ↔ a = b := by
  simp [pure, Except.pure]

/-- A list of computations whose results are known. -/
theorem mapM_eq_ok_map_iff {f : α → Except ε β} {g : α → β} {l : List α} :
    l.mapM f = .ok (l.map g) ↔ ∀ a ∈ l, f a = .ok (g a) := by
  induction l with
  | nil => simp [pure, Except.pure]
  | cons a l ih =>
      rw [List.mapM_cons, bind_eq_ok, List.map_cons, List.forall_mem_cons, ← ih]
      simp only [bind_eq_ok, pure, Except.pure, ok.injEq, List.cons.injEq]
      constructor
      · rintro ⟨b, hb, bs, hbs, rfl, rfl⟩
        exact ⟨hb, hbs⟩
      · rintro ⟨hb, hbs⟩
        exact ⟨_, hb, _, hbs, rfl, rfl⟩

/-- Where a result tells what it was computed from, so does the list of results. -/
theorem map_of_mapM_eq_ok {f : α → Except ε β} {g : β → α} (hg : ∀ a b, f a = .ok b → g b = a)
    {l : List α} {bs : List β} (h : l.mapM f = .ok bs) : bs.map g = l := by
  induction l generalizing bs with
  | nil =>
      obtain rfl := ok.inj h
      rfl
  | cons a l ih =>
      rw [List.mapM_cons, bind_eq_ok] at h
      obtain ⟨b, hb, h⟩ := h
      obtain ⟨rest, hrest, h⟩ := bind_eq_ok.mp h
      obtain rfl := ok.inj h
      rw [List.map_cons, hg a b hb, ih hrest]

theorem triple_iff {x : Except ε α} :
    ⦃⌜P⌝⦄ x ⦃⇓? a => ⌜Q a⌝⦄ ↔ (P → ∀ a, x = .ok a → Q a) := by
  cases x with
  | error e => exact ⟨fun _ _ _ h ↦ (nomatch h), fun _ _ ↦ trivial⟩
  | ok a =>
      constructor
      · intro h hP b hb
        obtain rfl := ok.inj hb
        exact h hP
      · intro h hP
        exact h hP a rfl

/-- A result of which nothing is asked. -/
theorem triple_any (x : Except ε α) : ⦃⌜True⌝⦄ x ⦃⇓? _ => ⌜True⌝⦄ :=
  triple_iff.mpr fun _ _ _ ↦ trivial

@[spec] theorem triple_ok {a : α} {post : PostCond α (.except ε .pure)} :
    ⦃post.1 a⦄ (ok a : Except ε α) ⦃post⦄ := fun h ↦ h

@[spec] theorem triple_error {e : ε} {post : PostCond α (.except ε .pure)} :
    ⦃post.2.1 e⦄ (error e : Except ε α) ⦃post⦄ := fun h ↦ h

end Except
