import Mathlib

/-!
# Bounded stacks of sessions

A stack of entries, the newest first, of which the newest ones belong to
sessions that are still active and the others to committed ones.  Starting a
session first drops the oldest entries beyond a bound.
-/

/-- `stack` is newest first. -/
structure SessionStack (α : Type*) where
  stack : List α
  activeSessions : ℕ
  maxSize : ℕ
  deriving DecidableEq, Repr

namespace SessionStack

variable {α β : Type*}

/-- An empty stack. -/
def empty (maxSize : ℕ) : SessionStack α := ⟨[], 0, maxSize⟩

def size (s : SessionStack α) : ℕ := s.stack.length

def setMaxSize (maxSize : ℕ) (s : SessionStack α) : SessionStack α := { s with maxSize }

/-- Trim to the bound and push the entry of a new session. -/
def start (a : α) (s : SessionStack α) : SessionStack α :=
  { s with stack := a :: s.stack.take s.maxSize, activeSessions := s.activeSessions + 1 }

/-- Drop the newest entry with its session. -/
def drop (s : SessionStack α) : SessionStack α :=
  { s with stack := s.stack.tail, activeSessions := s.activeSessions - 1 }

/-- End the newest session and leave its entry to the committed ones. -/
def commit (s : SessionStack α) : SessionStack α :=
  { s with activeSessions := s.activeSessions - 1 }

/-- Drop the newest committed entry. -/
def pop (s : SessionStack α) : SessionStack α := { s with stack := s.stack.tail }

/-- The stack with other entries in the same positions. -/
def map (f : α → β) (s : SessionStack α) : SessionStack β :=
  ⟨s.stack.map f, s.activeSessions, s.maxSize⟩

@[simp] theorem stack_start (a : α) (s : SessionStack α) :
    (s.start a).stack = a :: s.stack.take s.maxSize := rfl

@[simp] theorem activeSessions_start (a : α) (s : SessionStack α) :
    (s.start a).activeSessions = s.activeSessions + 1 := rfl

@[simp] theorem maxSize_start (a : α) (s : SessionStack α) : (s.start a).maxSize = s.maxSize := rfl

@[simp] theorem stack_drop (s : SessionStack α) : s.drop.stack = s.stack.tail := rfl

@[simp] theorem activeSessions_drop (s : SessionStack α) :
    s.drop.activeSessions = s.activeSessions - 1 := rfl

@[simp] theorem maxSize_drop (s : SessionStack α) : s.drop.maxSize = s.maxSize := rfl

@[simp] theorem stack_commit (s : SessionStack α) : s.commit.stack = s.stack := rfl

@[simp] theorem activeSessions_commit (s : SessionStack α) :
    s.commit.activeSessions = s.activeSessions - 1 := rfl

@[simp] theorem maxSize_commit (s : SessionStack α) : s.commit.maxSize = s.maxSize := rfl

@[simp] theorem stack_pop (s : SessionStack α) : s.pop.stack = s.stack.tail := rfl

@[simp] theorem activeSessions_pop (s : SessionStack α) :
    s.pop.activeSessions = s.activeSessions := rfl

@[simp] theorem maxSize_pop (s : SessionStack α) : s.pop.maxSize = s.maxSize := rfl

@[simp] theorem stack_setMaxSize (n : ℕ) (s : SessionStack α) : (s.setMaxSize n).stack = s.stack :=
  rfl

@[simp] theorem activeSessions_setMaxSize (n : ℕ) (s : SessionStack α) :
    (s.setMaxSize n).activeSessions = s.activeSessions := rfl

end SessionStack
