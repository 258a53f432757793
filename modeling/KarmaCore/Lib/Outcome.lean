import Mathlib

/-!
# Calls that keep their state when they throw

A call on a mutable state either returns or throws, and in both cases leaves a
state behind.  Sequencing stops at the first exception, with the state of that
moment.
-/

/-- How a call on a state of type `σ` ended. -/
inductive Outcome (ε σ : Type*)
  | returned (s : σ)
  | threw (error : ε) (s : σ)
  deriving DecidableEq, Repr

namespace Outcome

variable {ε σ τ α : Type*}

/-- The state a call leaves behind. -/
def state : Outcome ε σ → σ
  | returned s => s
  | threw _ s => s

@[simp] theorem state_returned (s : σ) : (returned s : Outcome ε σ).state = s := rfl
@[simp] theorem state_threw (e : ε) (s : σ) : (threw e s).state = s := rfl

/-- Go on with the next call unless this one threw. -/
def andThen (x : Outcome ε σ) (f : σ → Outcome ε σ) : Outcome ε σ :=
  match x with
  | returned s => f s
  | threw e s => threw e s

@[simp] theorem returned_andThen (s : σ) (f : σ → Outcome ε σ) : (returned s).andThen f = f s := rfl

@[simp] theorem threw_andThen (e : ε) (s : σ) (f : σ → Outcome ε σ) :
    (threw e s).andThen f = threw e s := rfl

theorem andThen_eq_returned {x : Outcome ε σ} {f : σ → Outcome ε σ} {t : σ} :
    x.andThen f = returned t ↔ ∃ s, x = returned s ∧ f s = returned t := by
  cases x <;> simp

/-- What both calls preserve holds of the state they leave behind. -/
theorem state_andThen {p : σ → Prop} {x : Outcome ε σ} {f : σ → Outcome ε σ} (hx : p x.state)
    (hf : ∀ s, p s → p (f s).state) : p (x.andThen f).state := by
  cases x with
  | returned s => exact hf s hx
  | threw e s => exact hx

/-- A call for each element of a list, in order. -/
def forEach (f : α → σ → Outcome ε σ) : List α → σ → Outcome ε σ
  | [], s => returned s
  | a :: as, s => (f a s).andThen (forEach f as)

@[simp] theorem forEach_nil (f : α → σ → Outcome ε σ) (s : σ) : forEach f [] s = returned s := rfl

@[simp] theorem forEach_cons (f : α → σ → Outcome ε σ) (a : α) (as : List α) (s : σ) :
    forEach f (a :: as) s = (f a s).andThen (forEach f as) := rfl

/-- What the state of each call has, whether it returns or throws, the state of the loop has. -/
theorem state_forEach {p : σ → Prop} {f : α → σ → Outcome ε σ} {as : List α} {s : σ} (hs : p s)
    (hf : ∀ a ∈ as, ∀ s, p s → p (f a s).state) : p (forEach f as s).state := by
  induction as generalizing s with
  | nil => exact hs
  | cons a as ih =>
      have htail := fun b hb ↦ hf b (List.mem_cons_of_mem a hb)
      exact state_andThen (hf a List.mem_cons_self s hs) fun s hs ↦ ih hs htail

/-- What the calls that return preserve holds after a loop that returns. -/
theorem forEach_returned {p : σ → Prop} {f : α → σ → Outcome ε σ} {as : List α} {s t : σ}
    (hs : p s) (hf : ∀ a s t, p s → f a s = returned t → p t) (ht : forEach f as s = returned t) :
    p t := by
  induction as generalizing s with
  | nil => exact returned.inj ht ▸ hs
  | cons a as ih =>
      obtain ⟨u, hu, htail⟩ := andThen_eq_returned.mp ht
      exact ih (hf a s u hs hu) htail

/-- The call on a part of a larger state. -/
def map (put : σ → τ) : Outcome ε σ → Outcome ε τ
  | returned s => returned (put s)
  | threw e s => threw e (put s)

theorem state_map {put : σ → τ} (x : Outcome ε σ) : (x.map put).state = put x.state := by
  cases x <;> rfl

theorem map_eq_returned {x : Outcome ε σ} {put : σ → τ} {t : τ} :
    x.map put = returned t ↔ ∃ s, x = returned s ∧ put s = t := by
  cases x <;> simp [map]

/-- A sequence of calls on a part of a larger state. -/
theorem map_andThen {put : σ → τ} {x : Outcome ε σ} {y : Outcome ε τ} {f : σ → Outcome ε σ}
    {g : τ → Outcome ε τ} (hx : x.map put = y) (hf : ∀ s, (f s).map put = g (put s)) :
    (x.andThen f).map put = y.andThen g := by
  subst hx
  cases x with
  | returned s => exact hf s
  | threw e s => rfl

theorem map_forEach {put : σ → τ} {f : α → σ → Outcome ε σ} {g : α → τ → Outcome ε τ}
    {as : List α} {s : σ} (hf : ∀ a s, (f a s).map put = g a (put s)) :
    (forEach f as s).map put = forEach g as (put s) := by
  induction as generalizing s with
  | nil => rfl
  | cons a as ih => exact map_andThen (hf a s) fun s ↦ ih

end Outcome
