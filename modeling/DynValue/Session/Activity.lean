import DynValue.Event

/-!
# The reads of an object

What an observer of one object sees: which reads were begun since it last
looked, how many are in flight now, and the most that were in flight at a
time. All of it follows from the events (`Activity.observe`).
-/

namespace DynValue

/-- **The reads of one object**, since they were last asked for. -/
structure Activity where
  /-- The reads begun, oldest first. -/
  begun : Array Read := #[]
  /-- How many reads are begun and not over. -/
  inFlight : Nat := 0
  /-- The most that were in flight at a time. -/
  peak : Nat := 0

namespace Activity

/-- One more read has begun. -/
def begin (a : Activity) (read : Read) : Activity where
  begun := a.begun.push read
  inFlight := a.inFlight + 1
  peak := max a.peak (a.inFlight + 1)

/-- One read is over. -/
def finish (a : Activity) : Activity := { a with inFlight := a.inFlight - 1 }

/-- The activity after it was asked for. -/
def restart (a : Activity) : Activity := ⟨#[], a.inFlight, a.inFlight⟩

/-- What an event does to the activity of an object. -/
def observe {C : CallerTypes} (r : Ref) (a : Activity) : Event C → Activity
  | .began r' read => if r' = r then a.begin read else a
  | .ended r' _ => if r' = r then a.finish else a
  | .diagnostic _ => a

end Activity

end DynValue
