import DynValue.Heap
import DynValue.Scalar.Convert

/-!
# Sources of containers

A container is assembled from a **source**: an external object, or a list
or dictionary of variants in memory. Asking a variant for a container
takes the source out of it at once, so what later happens to the variant
does not matter; nothing is read yet. A variant that holds just that
container gives it as it is, and one without a source gives a failure.
-/

namespace DynValue

/-- **Where the entries of a container come from.** -/
inductive Source (C : CallerTypes) where
  /-- An external object. -/
  | object (r : Ref)
  /-- A list of variants. -/
  | list (items : List (Variant C))
  /-- A dictionary of variants. -/
  | dictionary (entries : List (String × Variant C))

namespace Source

variable {C : CallerTypes}

/-- The type that a source counts as in errors. -/
def type : Source C → Ty C
  | object _ => .object
  | list _ => .variants
  | dictionary _ => .dictionary

/-- What a source holds. -/
def holds : Source C → RefSet
  | object r => RefSet.single r
  | list items => RefSet.unionOf Variant.holds items
  | dictionary entries => RefSet.unionOf (fun e => e.2.holds) entries

/-- A bound on the number of entries of a source and of every container
within. -/
def breadth : Source C → Nat
  | object _ => 0
  | list items => (items.map Variant.breadth).foldl max items.length
  | dictionary entries => (entries.map fun e => e.2.breadth).foldl max entries.length

end Source

/-- **The source that a variant holds**, or why it holds none. -/
def Variant.source {C : CallerTypes} (alive : RefSet) (v : Variant C) :
    Except Reason (Source C) :=
  match v.payload with
  | some (.object r) => .ok (.object r)
  | some (.weak .externalObject r) => if alive r then .ok (.object r) else .error .released
  | some (.seq .vector .variant items) => .ok (.list (items.map Variant.ofEntry))
  | some (.map .sorted .variant entries) =>
    .ok (.dictionary (entries.map fun e => (e.1, Variant.ofEntry e.2)))
  | _ => .error .notStructured

/-- **A container conversion that was asked for**: settled already, or with
its source taken. -/
inductive Begun (C : CallerTypes) where
  | settled (outcome : Except (CastError C) (Payload C))
  | sourced (source : Source C)

namespace Begun

variable {C : CallerTypes}

/-- What a conversion holds before it is driven. -/
def holds : Begun C → RefSet
  | settled (.ok p) => p.holds
  | settled (.error _) => RefSet.none
  | sourced source => source.holds

/-- A bound on the number of entries of everything a conversion starts from. -/
def breadth : Begun C → Nat
  | settled _ => 0
  | sourced source => source.breadth

end Begun

/-- **Asks a variant for a container.** -/
def Variant.begin {C : CallerTypes} (alive : RefSet) (t : Ty C) (v : Variant C) :
    Reported C (Begun C) :=
  match v.exactly? t with
  | some p => pure (.settled (.ok p))
  | none =>
    match v.source alive with
    | .ok source => pure (.sourced source)
    | .error reason => do
      let e := (v.castError t).because reason
      Logged.report (.diagnostic (.containerFailed e))
      pure (.settled (.error e))

end DynValue
