import DynValue.Event
import DynValue.Variant

/-!
# Shared values and external objects

A reference refers to a cell of the heap: a shared value, or an external
object. An object is read one piece at a time: its length or its keys,
then elements or properties. Each read takes a number of polls, which is
all that is said about how far away the object lives.

Cells are never taken out of the heap. Whether one is still *alive* is a
question about who holds it: something is alive if a strong reference to
it is held by one of the roots, or by something alive (`Heap.alive`).
-/

namespace DynValue

/-- **An external object**: what it answers, and how many polls each of
its reads stays pending. -/
structure ExternalObject (C : CallerTypes) where
  /-- The number of elements that it reports. -/
  length : Nat
  /-- The elements that it has. -/
  elements : List (Variant C)
  /-- The keys that it reports. -/
  keys : List String
  /-- The properties that it has. -/
  properties : List (String × Variant C)
  /-- How many polls a read stays pending. -/
  delay : Nat
  /-- Reads, by name, that stay pending for a number of polls of their own. -/
  delays : List (String × Nat)

namespace ExternalObject

variable {C : CallerTypes}

/-- The object without elements and properties. -/
def blank : ExternalObject C := ⟨0, [], [], [], 0, []⟩

/-- The element at an index, a variant without a value if there is none. -/
def element (o : ExternalObject C) (index : Nat) : Variant C :=
  o.elements[index]?.getD .empty

/-- The first property of a name, a variant without a value if there is none. -/
def property (o : ExternalObject C) (key : String) : Variant C :=
  (o.properties.lookup key).getD .empty

/-- How many polls a read stays pending. -/
def delayOf (o : ExternalObject C) (read : Read) : Nat :=
  (o.delays.lookup read.name).getD o.delay

/-- What an object holds strongly. -/
def holds (o : ExternalObject C) : RefSet :=
  RefSet.union (RefSet.unionOf Variant.holds o.elements)
    (RefSet.unionOf (fun e => e.2.holds) o.properties)

/-- A bound on the number of polls that a read stays pending. -/
def delayBound (o : ExternalObject C) : Nat :=
  (o.delays.map Prod.snd).foldl max o.delay

/-- A bound on the number of elements, of keys, and of entries of every
container within. -/
def breadth (o : ExternalObject C) : Nat :=
  let within := o.elements.map Variant.breadth ++ o.properties.map fun e => e.2.breadth
  within.foldl max (max o.length o.keys.length)

end ExternalObject

/-- What a reference refers to. -/
inductive Cell (C : CallerTypes) where
  /-- A shared value. -/
  | value (p : Payload C)
  /-- An external object. -/
  | object (o : ExternalObject C)

/-- What a cell holds strongly. -/
def Cell.holds {C : CallerTypes} : Cell C → RefSet
  | value p => p.holds
  | object o => o.holds

/-- **All that was ever made to be shared**, each at the place that is its
reference. -/
structure Heap (C : CallerTypes) where
  /-- The cells, oldest first. -/
  cells : List (Cell C)

namespace Heap

variable {C : CallerTypes}

/-- The heap without cells. -/
def empty : Heap C := ⟨[]⟩

/-- The heap with one more cell, and the reference to it. -/
def alloc (h : Heap C) (cell : Cell C) : Heap C × Ref :=
  (⟨h.cells ++ [cell]⟩, h.cells.length)

/-- The object at a reference, a blank one if there is none. -/
def object (h : Heap C) (r : Ref) : ExternalObject C :=
  match h.cells[r]? with
  | some (.object o) => o
  | _ => .blank

/-- What a reference's cell holds strongly. -/
def heldBy (h : Heap C) (r : Ref) : RefSet :=
  match h.cells[r]? with
  | some cell => cell.holds
  | none => RefSet.none

/-! ## Liveness -/

/-- The references that are among some living ones or held by one of them. -/
def grow (h : Heap C) (living : List Ref) : List Ref :=
  (List.range h.cells.length).filter fun r =>
    living.contains r || living.any fun s => h.heldBy s r

/-- **What the roots keep alive**: the references that they hold, then what
those hold, and so on. Every step that adds anything adds a cell, so as
many steps as there are cells reach everything. -/
def living (h : Heap C) (roots : RefSet) : List Ref :=
  Nat.repeat h.grow h.cells.length ((List.range h.cells.length).filter roots)

/-- **Whether something is alive.** -/
def alive (h : Heap C) (roots : RefSet) (r : Ref) : Bool :=
  (h.living roots).contains r

/-! ## Bounds -/

/-- A bound on the number of polls that a read of any object stays pending. -/
def delayBound (h : Heap C) : Nat :=
  (h.cells.map fun
    | .object o => o.delayBound
    | .value _ => 0).foldl max 0

/-- A bound on the number of entries of everything on the heap. -/
def breadth (h : Heap C) : Nat :=
  (h.cells.map fun
    | .object o => o.breadth
    | .value _ => 0).foldl max 0

end Heap

end DynValue
