import Mathlib

/-!
# Calls that throw and never turn back

A call on a mutable state returns or throws, and what it wrote before stays
written in both cases.  A clock on the states that no single write turns back is
turned back by no call.
-/

variable {ε σ τ α β : Type} [Preorder τ] {clock : σ → τ}

/-- The state a call ends in. -/
def endState : EStateM.Result ε σ α → σ
  | .ok _ s => s
  | .error _ s => s

/-- A call that may throw and leaves no state with an earlier clock. -/
structure ForwardCall (ε : Type) (clock : σ → τ) (α : Type) where
  run : EStateM ε σ α
  forward : ∀ s, clock s ≤ clock (endState (run s))

namespace ForwardCall

/-! ## Sequences -/

instance : Monad (ForwardCall ε clock) where
  pure a := ⟨pure a, fun _ ↦ le_rfl⟩
  bind x f :=
    { run := x.run >>= fun a ↦ (f a).run
      forward := fun s ↦ by
        have hx := x.forward s
        change _ ≤ clock (endState (EStateM.bind x.run (fun a ↦ (f a).run) s))
        unfold EStateM.bind
        split
        · next a t ht =>
            rw [ht] at hx
            exact hx.trans ((f a).forward t)
        · next e t ht =>
            rw [ht] at hx
            exact hx }

/-- The state as it is. -/
def read : ForwardCall ε clock σ := ⟨get, fun _ ↦ le_rfl⟩

/-- A check that writes nothing. -/
def check : Except ε α → ForwardCall ε clock α
  | .ok a => pure a
  | .error e => ⟨throw e, fun _ ↦ le_rfl⟩

/-- A single write, which is not made if its value cannot be had. -/
def write (f : σ → Except ε (α × σ)) (hf : ∀ s a s', f s = .ok (a, s') → clock s ≤ clock s') :
    ForwardCall ε clock α where
  run s :=
    match f s with
    | .ok (a, s') => .ok a s'
    | .error e => .error e s
  forward s := by
    split
    · next a s' h => exact hf s a s' h
    · exact le_rfl

/-! ## Results -/

/-- What a call returns, when the state it leaves at an exception is of no interest. -/
def result (x : ForwardCall ε clock α) (s : σ) : Except ε (α × σ) :=
  match x.run s with
  | .ok a s' => .ok (a, s')
  | .error e _ => .error e

variable {x : ForwardCall ε clock α} {s s' : σ}

@[simp] theorem result_pure (a : α) : (pure a : ForwardCall ε clock α).result s = pure (a, s) := rfl

@[simp] theorem result_bind (x : ForwardCall ε clock α) (f : α → ForwardCall ε clock β) :
    (x >>= f).result s = x.result s >>= fun p ↦ (f p.1).result p.2 := by
  change (match EStateM.bind x.run (fun a ↦ (f a).run) s with
    | .ok b t => Except.ok (b, t)
    | .error e _ => .error e) = _
  unfold EStateM.bind result
  cases x.run s <;> rfl

@[simp] theorem result_read : (read : ForwardCall ε clock σ).result s = pure (s, s) := rfl

@[simp] theorem result_check (a : Except ε α) :
    (check a : ForwardCall ε clock α).result s = a >>= fun a ↦ pure (a, s) := by
  cases a <;> rfl

@[simp] theorem result_ite (condition : Prop) [Decidable condition] (x y : ForwardCall ε clock α) :
    (if condition then x else y).result s = if condition then x.result s else y.result s := by
  split_ifs <;> rfl

@[simp] theorem result_write {f : σ → Except ε (α × σ)}
    {hf : ∀ s a s', f s = .ok (a, s') → clock s ≤ clock s'} : (write f hf).result s = f s := by
  unfold result write
  dsimp only
  cases f s <;> rfl

theorem result_eq_ok {a : α} : x.result s = .ok (a, s') ↔ x.run s = .ok a s' := by
  unfold result
  cases x.run s <;> simp

theorem result_eq_error {e : ε} : x.result s = .error e ↔ ∃ t, x.run s = .error e t := by
  unfold result
  cases x.run s <;> simp

/-! ## How a sequence ends -/

section ends

variable {a : α} {b : β} {e : ε} {f : α → ForwardCall ε clock β}

theorem run_bind (x : ForwardCall ε clock α) (f : α → ForwardCall ε clock β) (s : σ) :
    (x >>= f).run s = EStateM.bind x.run (fun a ↦ (f a).run) s := rfl

theorem run_bind_of_ok (h : x.run s = .ok a s') : (x >>= f).run s = (f a).run s' := by
  rw [run_bind, EStateM.bind, h]

theorem bind_eq_error : (x >>= f).run s = .error e s' ↔
    x.run s = .error e s' ∨ ∃ a t, x.run s = .ok a t ∧ (f a).run t = .error e s' := by
  rw [run_bind, EStateM.bind]
  cases x.run s <;> simp

theorem bind_eq_ok : (x >>= f).run s = .ok b s' ↔
    ∃ a t, x.run s = .ok a t ∧ (f a).run t = .ok b s' := by
  rw [run_bind, EStateM.bind]
  cases x.run s <;> simp

theorem pure_eq_ok {c : α} : (pure c : ForwardCall ε clock α).run s = .ok a s' ↔ c = a ∧ s = s' := by
  change EStateM.Result.ok c s = .ok a s' ↔ _
  simp

theorem pure_ne_error {c : α} : (pure c : ForwardCall ε clock α).run s ≠ .error e s' := by
  change EStateM.Result.ok c s ≠ .error e s'
  simp

theorem read_eq_ok {t : σ} : (read : ForwardCall ε clock σ).run s = .ok t s' ↔ t = s ∧ s' = s := by
  change EStateM.Result.ok s s = .ok t s' ↔ _
  simp [eq_comm]

theorem read_ne_error : (read : ForwardCall ε clock σ).run s ≠ .error e s' := by
  change EStateM.Result.ok s s ≠ .error e s'
  simp

theorem check_eq_ok {c : Except ε α} :
    (check c : ForwardCall ε clock α).run s = .ok a s' ↔ c = .ok a ∧ s' = s := by
  cases c with
  | ok c =>
      change EStateM.Result.ok c s = .ok a s' ↔ _
      simp [eq_comm]
  | error c =>
      change EStateM.Result.error c s = .ok a s' ↔ _
      simp

theorem check_eq_error {c : Except ε α} :
    (check c : ForwardCall ε clock α).run s = .error e s' ↔ c = .error e ∧ s' = s := by
  cases c with
  | ok c =>
      change EStateM.Result.ok c s = .error e s' ↔ _
      simp
  | error c =>
      change EStateM.Result.error c s = .error e s' ↔ _
      simp [eq_comm]

theorem write_eq_error {g : σ → Except ε (α × σ)}
    {hg : ∀ s a s', g s = .ok (a, s') → clock s ≤ clock s'} :
    (write g hg).run s = .error e s' ↔ g s = .error e ∧ s' = s := by
  unfold write
  dsimp only
  cases g s <;> simp [eq_comm]

end ends

end ForwardCall
