import DynValue.Container.Source
import DynValue.Schedule.Join

/-!
# Conversions of elements

Each entry of a container is converted to the container's element type. A
`Conversion` is how that is done for one type: it starts from a variant
and is then polled. A scalar converts as it starts and is ready at the
first poll; a container is assembled from a source of its own, which is
what `Container.Collect` adds.

Around it stand the entries of one source. An entry of an object is read
first (`Entry.reading`), an entry of a dictionary waits until it is polled
(`Entry.stored`), and an entry of a list is converting from the beginning.
-/

namespace DynValue

open Schedule

/-- What conversions can consult: the heap, and how the caller's own types
are converted to. -/
structure Setting (C : CallerTypes) where
  /-- The shared values and the objects. -/
  heap : Heap C
  /-- How the caller's own types are converted to. -/
  converters : Converters C

/-- **How variants are converted to one type.** -/
structure Conversion (C : CallerTypes) where
  /-- A conversion under way. -/
  State : Type
  /-- Starts to convert a variant, given what is held elsewhere. -/
  start : RefSet → Variant C → Reported C State
  /-- One poll, given what is held elsewhere. -/
  poll : RefSet → State → Reported C (Poll State (Except (CastError C) (Payload C)))
  /-- What a conversion under way holds. -/
  holds : State → RefSet
  /-- What is reported when one is dropped. -/
  dropped : State → List (Event C)

namespace Conversion

variable {C : CallerTypes}

/-- What an outcome holds. -/
def outcomeHolds : Except (CastError C) (Payload C) → RefSet
  | .ok p => p.holds
  | .error _ => RefSet.none

/-- **Conversion to a scalar**: done as it starts. -/
def scalar (S : Setting C) (t : Ty C) : Conversion C where
  State := Except (CastError C) (Payload C)
  start held v := v.convert S.converters (S.heap.alive held) t
  poll _ outcome := pure (.ready outcome)
  holds := outcomeHolds
  dropped _ := []

end Conversion

/-- **One entry of a source on its way** to its element type, with the
states `σ` of that type's conversion. -/
inductive Entry (C : CallerTypes) (σ : Type) where
  /-- To be read from an object. Once begun, the read stays pending for a
  number of polls. -/
  | reading (r : Ref) (read : Read) (left : Option Nat)
  /-- In memory, and not converted before it is polled. -/
  | stored (v : Variant C)
  /-- Being converted; `read` is how it was read, if it was. -/
  | converting (read : Option Read) (state : σ)

namespace Entry

variable {C : CallerTypes}

/-- The diagnostic of an entry that was read and does not convert. -/
def failure? (read : Option Read) (e : CastError C) : List (Event C) :=
  match read with
  | some (.element index) => [.diagnostic (.elementFailed index e)]
  | some (.property key) => [.diagnostic (.propertyFailed key e)]
  | _ => []

/-- What an object answers to the read of an entry. -/
def answer (o : ExternalObject C) : Read → Variant C
  | .element index => o.element index
  | .property key => o.property key
  | _ => .empty

section Polling

variable (S : Setting C) (elem : Conversion C)

/-- Polls an entry that is being converted. -/
def pollConverting (held : RefSet) (read : Option Read) (state : elem.State) :
    Reported C (Poll (Entry C elem.State) (Except (CastError C) (Payload C))) := do
  match ← elem.poll held state with
  | .pending state' => pure (.pending (.converting read state'))
  | .ready (.ok p) => pure (.ready (.ok p))
  | .ready (.error e) => do
    Logged.tell (failure? read e)
    pure (.ready (.error e))

/-- Polls a read that stays pending for a number of polls. Once it is
answered the entry is converted without delay. -/
def pollReading (held : RefSet) (r : Ref) (read : Read) :
    Nat → Reported C (Poll (Entry C elem.State) (Except (CastError C) (Payload C)))
  | left + 1 => pure (.pending (.reading r read (some left)))
  | 0 => do
    Logged.report (.ended r read)
    let state ← elem.start held (answer (S.heap.object r) read)
    pollConverting elem held (some read) state

/-- **One poll of an entry.** -/
def poll (held : RefSet) :
    Entry C elem.State →
      Reported C (Poll (Entry C elem.State) (Except (CastError C) (Payload C)))
  | reading r read (some left) => pollReading S elem held r read left
  | reading r read none => do
    Logged.report (.began r read)
    pollReading S elem held r read ((S.heap.object r).delayOf read)
  | stored v => do
    let state ← elem.start held v
    pollConverting elem held none state
  | converting read state => pollConverting elem held read state

/-- What an entry holds. -/
def holds : Entry C elem.State → RefSet
  | reading r _ _ => RefSet.single r
  | stored v => v.holds
  | converting _ state => elem.holds state

/-- What is reported when an entry is dropped: a read that is begun is over. -/
def dropped : Entry C elem.State → List (Event C)
  | reading r read (some _) => [.ended r read]
  | reading _ _ none => []
  | stored _ => []
  | converting _ state => elem.dropped state

/-- **Entries as tasks.** -/
def kind : TaskKind (Event C) (CastError C) (Entry C elem.State) (Payload C) where
  poll := poll S elem
  holds := holds elem
  resultHolds := Payload.holds
  dropped := dropped elem

end Polling

end Entry

end DynValue
