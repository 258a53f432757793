import Mathlib

/-!
# Runs of a deterministic machine

A machine is a step function on states and events.  A run meets a condition
when every event is taken in a state where the condition holds of the two.
-/

namespace Run

variable {State Event : Type*} {step : State → Event → State}

/-- The states a run from `start` visits while its steps meet `guard`. -/
inductive Reaches (step : State → Event → State) (guard : State → Event → Prop) (start : State) :
    State → Prop
  | refl : Reaches step guard start start
  | next {s : State} (event : Event) (hs : Reaches step guard start s) (hguard : guard s event) :
      Reaches step guard start (step s event)

namespace Reaches

variable {guard guard' : State → Event → Prop} {start s : State}

/-- What holds at the start and survives every step holds all along a run. -/
theorem invariant (Inv : State → Prop) (hs : Reaches step guard start s) (hstart : Inv start)
    (hstep : ∀ s event, Inv s → guard s event → Inv (step s event)) : Inv s := by
  induction hs with
  | refl => exact hstart
  | next event _ hguard ih => exact hstep _ event ih hguard

/-- A condition may be replaced by one that every invariant state's step meets. -/
theorem mono (hs : Reaches step guard start s) (h : ∀ s event, guard s event → guard' s event) :
    Reaches step guard' start s := by
  induction hs with
  | refl => exact .refl
  | next event _ hguard ih => exact .next event ih (h _ event hguard)

theorem trans {mid : State} (hmid : Reaches step guard start mid) (hs : Reaches step guard mid s) :
    Reaches step guard start s := by
  induction hs with
  | refl => exact hmid
  | next event _ hguard ih => exact .next event ih hguard

end Reaches

/-- Each event of a list is taken in a state where the condition holds. -/
def Meets (step : State → Event → State) (guard : State → Event → Prop) :
    State → List Event → Prop
  | _, [] => True
  | s, event :: events => guard s event ∧ Meets step guard (step s event) events

theorem reaches_foldl {guard : State → Event → Prop} {start : State} {events : List Event}
    (h : Meets step guard start events) : Reaches step guard start (events.foldl step start) := by
  suffices hfrom : ∀ s, Reaches step guard start s → Meets step guard s events →
      Reaches step guard start (events.foldl step s) from hfrom start .refl h
  clear h
  induction events with
  | nil => exact fun s hs _ ↦ hs
  | cons event events ih => exact fun s hs h ↦ ih _ (hs.next event h.1) h.2

end Run
