import DynValue.Container.Element

/-!
# Assembling containers

A container conversion goes through stages. Driven for the first time it
looks at its source. An object is asked how many elements it has, or which
keys, and then its entries are read and converted through a window of
sixteen. A list or a dictionary is converted entry by entry in memory, and
a list has no keys for a mapping, nor a dictionary an order for a
sequence. The results in order make the container.

`Conversion.of` is the conversion to any type. It recurses in the type
alone: the entries of a container convert to its element type, whatever
the objects refer to.
-/

namespace DynValue

open Schedule

/-- **The shape of a container**, its element type left out. -/
inductive Shape where
  | sequence (k : SeqKind)
  | mapping (k : MapKind)
  deriving DecidableEq, Repr

namespace Shape

variable {C : CallerTypes}

/-- The type of containers of a shape. -/
def type (shape : Shape) (t : Ty C) : Ty C :=
  match shape with
  | sequence k => .seq k t
  | mapping k => .map k t

/-- What an object is asked before its entries are read. -/
def sizeRead : Shape → Read
  | sequence _ => .length
  | mapping _ => .keys

/-- **The container of converted entries.** A mapping takes their keys, and
of several entries for one key the last. -/
def assemble (shape : Shape) (t : Ty C) (keys : List String)
    (values : List (Payload C)) : Payload C :=
  match shape with
  | sequence k => .seq k t values
  | mapping k => Payload.mapOf k t (keys.zip values)

end Shape

/-- The most entries of an object under way or kept at a time. -/
def windowWidth : Nat := 16

/-- **The entries that an object has for a container.** -/
inductive Contents where
  /-- As many elements. -/
  | elements (count : Nat)
  /-- The properties of some keys. -/
  | properties (keys : List String)
  deriving DecidableEq, Repr

namespace Contents

variable {C : CallerTypes}

/-- What an object says it has for a shape. -/
def ofObject (shape : Shape) (o : ExternalObject C) : Contents :=
  match shape with
  | .sequence _ => .elements o.length
  | .mapping _ => .properties o.keys

/-- How many entries there are. -/
def count : Contents → Nat
  | elements count => count
  | properties keys => keys.length

/-- The keys of the entries; elements have none. -/
def keys : Contents → List String
  | elements _ => []
  | properties keys => keys

/-- The read of an entry by its number. -/
def read? : Contents → Nat → Option Read
  | elements count, n => if n < count then some (.element n) else none
  | properties keys, n => keys[n]?.map .property

/-- The diagnostic of starting to read. -/
def diagnostic (t : Ty C) : Contents → Diagnostic C
  | elements count => .readingElements count t
  | properties keys => .readingProperties keys.length t

end Contents

/-- **A container conversion under way**, with the states `σ` of the
conversion of its elements. -/
inductive Stage (C : CallerTypes) (σ : Type) where
  /-- Not driven yet. -/
  | begun (b : Begun C)
  /-- Waiting for the length or the keys of an object. -/
  | sizing (r : Ref) (left : Nat)
  /-- Reading the entries of an object. -/
  | reading (r : Ref) (contents : Contents)
      (window : Window (CastError C) (Entry C σ) (Payload C))
  /-- Converting entries in memory. -/
  | joining (keys : List String) (join : Join (CastError C) (Entry C σ) (Payload C))

namespace Stage

variable {C : CallerTypes}

section Polling

variable (S : Setting C) (shape : Shape) (t : Ty C) (elem : Conversion C)

/-- The outcome of one poll of a container conversion. -/
abbrev Polled : Type :=
  Reported C (Poll (Stage C elem.State) (Except (CastError C) (Payload C)))

/-- Polls the reading of an object's entries. -/
def pollReading (held : RefSet) (r : Ref) (contents : Contents)
    (window : Window (CastError C) (Entry C elem.State) (Payload C)) : Polled elem := do
  let supply := fun n => (contents.read? n).map fun read => Entry.reading r read none
  let steps := contents.count - window.delivered.size + 1
  match ← window.run (Entry.kind S elem) windowWidth supply
      (RefSet.union held (RefSet.single r)) steps with
  | .pending window' => pure (.pending (.reading r contents window'))
  | .ready (.ok values) =>
    pure (.ready (.ok (shape.assemble t contents.keys values.toList)))
  | .ready (.error e) => pure (.ready (.error e))

/-- Polls the question for the length or the keys. Once it is answered the
entries are read without delay. -/
def pollSizing (held : RefSet) (r : Ref) : Nat → Polled elem
  | left + 1 => pure (.pending (.sizing r left))
  | 0 => do
    Logged.report (.ended r shape.sizeRead)
    let contents := Contents.ofObject shape (S.heap.object r)
    Logged.report (.diagnostic (contents.diagnostic (shape.type t)))
    pollReading S shape t elem held r contents .start

/-- Polls the conversion of entries in memory. -/
def pollJoining (held : RefSet) (keys : List String)
    (join : Join (CastError C) (Entry C elem.State) (Payload C)) : Polled elem := do
  match ← join.poll (Entry.kind S elem) held with
  | .pending join' => pure (.pending (.joining keys join'))
  | .ready (.ok values) => pure (.ready (.ok (shape.assemble t keys values)))
  | .ready (.error e) => pure (.ready (.error e))

/-- **Starts to convert the items of a list**, one after the other and all
of them before any is polled. Those started, the latest first, and those
still to come hold what they refer to. -/
def startAll (held : RefSet) (started : List elem.State) :
    List (Variant C) → Reported C (List elem.State)
  | [] => pure started.reverse
  | v :: vs => do
    let others := RefSet.union (RefSet.unionOf elem.holds started)
      (RefSet.unionOf Variant.holds vs)
    let state ← elem.start (RefSet.union held others) v
    startAll held (state :: started) vs

/-- Polls a conversion for the first time. -/
def pollSourced (held : RefSet) : Source C → Polled elem
  | .object r => do
    Logged.report (.began r shape.sizeRead)
    pollSizing S shape t elem held r ((S.heap.object r).delayOf shape.sizeRead)
  | .list items =>
    match shape with
    | .sequence _ => do
      Logged.report (.diagnostic (.convertingList items.length (shape.type t)))
      let states ← startAll elem held [] items
      pollJoining S shape t elem held [] (.ofList (states.map (.converting none)))
    | .mapping _ =>
      let e : CastError C := ⟨.variants, shape.type t, none⟩
      pure (.ready (.error (e.because .listAsMapping)))
  | .dictionary entries =>
    match shape with
    | .sequence _ =>
      let e : CastError C := ⟨.dictionary, shape.type t, none⟩
      pure (.ready (.error (e.because .dictionaryAsSequence)))
    | .mapping _ => do
      Logged.report (.diagnostic (.convertingDictionary entries.length (shape.type t)))
      pollJoining S shape t elem held (entries.map Prod.fst)
        (.ofList (entries.map fun e => .stored e.2))

/-- **One poll of a container conversion.** -/
def poll (held : RefSet) : Stage C elem.State → Polled elem
  | begun (.settled outcome) => pure (.ready outcome)
  | begun (.sourced source) => pollSourced S shape t elem held source
  | sizing r left => pollSizing S shape t elem held r left
  | reading r contents window => pollReading S shape t elem held r contents window
  | joining keys join => pollJoining S shape t elem held keys join

/-- What a container conversion holds. -/
def holds : Stage C elem.State → RefSet
  | begun b => b.holds
  | sizing r _ => RefSet.single r
  | reading r _ window =>
    RefSet.union (RefSet.single r) (window.holds (Entry.kind S elem))
  | joining _ join => join.holds (Entry.kind S elem)

/-- What is reported when a container conversion is dropped. -/
def dropped : Stage C elem.State → List (Event C)
  | begun _ => []
  | sizing r _ => [.ended r shape.sizeRead]
  | reading _ _ window => window.dropped (Entry.kind S elem)
  | joining _ join => join.dropped (Entry.kind S elem)

end Polling

end Stage

namespace Conversion

variable {C : CallerTypes}

/-- **Conversion to a container** of a shape, given how its elements are
converted. -/
def container (S : Setting C) (shape : Shape) (t : Ty C) (elem : Conversion C) :
    Conversion C where
  State := Stage C elem.State
  start held v := do
    let b ← v.begin (S.heap.alive held) (shape.type t)
    pure (.begun b)
  poll := Stage.poll S shape t elem
  holds := Stage.holds S elem
  dropped := Stage.dropped S shape elem

/-- **Conversion to a type**: to a container by way of its element type, to
any other type as a scalar. -/
def of (S : Setting C) : Ty C → Conversion C
  | .seq k t => container S (.sequence k) t (of S t)
  | .map k t => container S (.mapping k) t (of S t)
  | t => scalar S t

end Conversion

end DynValue
