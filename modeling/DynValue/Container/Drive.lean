import DynValue.Container.Collect

/-!
# Driving a container conversion to its end

A container conversion is polled until it is ready. How often it can be
pending is bounded: a poll that leaves it pending has used up one of the
polls that some read stays pending. A container of `n` entries waits for
its size, then for each entry and for the conversion of that entry, so
with delays up to `d` a conversion whose elements are pending at most `k`
times is pending at most `d + n * (d + k)` times. `pollBound` is this
bound, taken over everything that can be reached.
-/

namespace DynValue

open Schedule

/-- **Polls until ready**, at most as often as given. -/
def Conversion.drive {C : CallerTypes} (c : Conversion C) (held : RefSet) :
    Nat → c.State → Reported C (Option (Except (CastError C) (Payload C)))
  | 0, _ => pure none
  | n + 1, state => do
    match ← c.poll held state with
    | .ready outcome => pure (some outcome)
    | .pending state' => drive c held n state'

/-- How often the conversion to a type can be pending, if reads are pending
up to `delay` times and nothing has more than `breadth` entries. -/
def pollBound {C : CallerTypes} (delay breadth : Nat) : Ty C → Nat
  | .seq _ t => delay + breadth * (delay + pollBound delay breadth t)
  | .map _ t => delay + breadth * (delay + pollBound delay breadth t)
  | _ => 0

/-- **A container conversion that is kept**: what is asked for, and what
was settled or taken when it was asked for. -/
structure Pending (C : CallerTypes) where
  /-- The shape of the container. -/
  shape : Shape
  /-- The type of its elements. -/
  elem : Ty C
  /-- What asking for it gave. -/
  begun : Begun C

namespace Pending

variable {C : CallerTypes}

/-- The type asked for. -/
def type (f : Pending C) : Ty C := f.shape.type f.elem

/-- What a kept conversion holds. -/
def holds (f : Pending C) : RefSet := f.begun.holds

/-- How many polls are enough to end a conversion. -/
def pollLimit (f : Pending C) (S : Setting C) : Nat :=
  pollBound S.heap.delayBound (max S.heap.breadth f.begun.breadth) f.type + 1

/-- **The end of a conversion**: its outcome, and all that is reported until
then. -/
def finish (S : Setting C) (held : RefSet) (f : Pending C) :
    Reported C (Option (Except (CastError C) (Payload C))) :=
  let elem := Conversion.of S f.elem
  (Conversion.container S f.shape f.elem elem).drive held (f.pollLimit S) (.begun f.begun)

end Pending

/-- The shape and the element type of a container type. -/
def Ty.shape? {C : CallerTypes} : Ty C → Option (Shape × Ty C)
  | seq k t => some (.sequence k, t)
  | map k t => some (.mapping k, t)
  | _ => none

/-- Asks a variant for a container and keeps the conversion. -/
def Variant.pend {C : CallerTypes} (alive : RefSet) (shape : Shape) (elem : Ty C)
    (v : Variant C) : Reported C (Pending C) := do
  let b ← v.begin alive (shape.type elem)
  pure ⟨shape, elem, b⟩

end DynValue
