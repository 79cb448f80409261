import DynValue.CastError
import DynValue.Logged
import DynValue.Payload

/-!
# What is reported while a value is read

Two kinds of event are reported. A **diagnostic** is meant for a log: a
conversion that failed, or a container conversion that starts on a
source. A **read event** says that a read of an external object has begun,
or that it is over, because it was answered or because nobody waits for
it any more.

A diagnostic is data; `Diagnostic.level` and `Diagnostic.fields` say how
it is written.
-/

namespace DynValue

/-- **A read of an external object.** -/
inductive Read where
  /-- How many elements there are. -/
  | length
  /-- One element. -/
  | element (index : Nat)
  /-- Which keys there are. -/
  | keys
  /-- The value under a key. -/
  | property (key : String)
  deriving DecidableEq, Repr

/-- The name of a read. -/
def Read.name : Read → String
  | length => "length"
  | element index => "element " ++ IntKind.text index
  | keys => "keys"
  | property key => "property " ++ key

/-- How much a diagnostic matters. -/
inductive Level where
  | debug
  | trace
  deriving DecidableEq, Repr

/-- The name of a level. -/
def Level.name : Level → String
  | debug => "DEBUG"
  | trace => "TRACE"

/-- **A diagnostic.** -/
inductive Diagnostic (C : CallerTypes) where
  /-- A value does not convert to a type. -/
  | conversionFailed (e : CastError C)
  /-- A value is no source for a container. -/
  | containerFailed (e : CastError C)
  /-- The elements of an object are about to be read. -/
  | readingElements (count : Nat) (target : Ty C)
  /-- An element of an object does not convert. -/
  | elementFailed (index : Nat) (e : CastError C)
  /-- The properties of an object are about to be read. -/
  | readingProperties (count : Nat) (target : Ty C)
  /-- A property of an object does not convert. -/
  | propertyFailed (key : String) (e : CastError C)
  /-- The entries of a list are about to be converted. -/
  | convertingList (count : Nat) (target : Ty C)
  /-- The entries of a dictionary are about to be converted. -/
  | convertingDictionary (count : Nat) (target : Ty C)
  deriving DecidableEq

namespace Diagnostic

variable {C : CallerTypes}

/-- The level of a diagnostic: conversions inside memory are traced only. -/
def level : Diagnostic C → Level
  | readingProperties .. | convertingList .. | convertingDictionary .. => .trace
  | _ => .debug

/-- The text of a diagnostic. -/
def message : Diagnostic C → String
  | conversionFailed _ => "variant conversion failed"
  | containerFailed _ => "container conversion failed"
  | readingElements .. => "converting array object"
  | elementFailed .. => "array element conversion failed"
  | readingProperties .. => "converting property bag"
  | propertyFailed .. => "property conversion failed"
  | convertingList .. => "converting variant list"
  | convertingDictionary .. => "converting variant dictionary"

/-- The particulars of a diagnostic, by name. -/
def details : Diagnostic C → List (String × String)
  | conversionFailed e =>
    [("from", e.stored.name), ("to", e.requested.name),
      ("message", Text.quoteOption e.detail)]
  | containerFailed e => [("from", e.stored.name), ("to", e.requested.name)]
  | readingElements count target | convertingList count target =>
    [("len", IntKind.text count), ("target", target.name)]
  | readingProperties count target | convertingDictionary count target =>
    [("keys", IntKind.text count), ("target", target.name)]
  | elementFailed index e => [("index", IntKind.text index), ("error", e.message)]
  | propertyFailed key e => [("key", key), ("error", e.message)]

/-- **The fields of a diagnostic**: its text, then the particulars. -/
def fields (d : Diagnostic C) : List (String × String) :=
  ("message", d.message) :: d.details

end Diagnostic

/-- **An event.** -/
inductive Event (C : CallerTypes) where
  | diagnostic (d : Diagnostic C)
  /-- A read of an object has begun. -/
  | began (r : Ref) (read : Read)
  /-- A read of an object is over. -/
  | ended (r : Ref) (read : Read)
  deriving DecidableEq

/-- The diagnostic of an event, if it is one. -/
def Event.diagnostic? {C : CallerTypes} : Event C → Option (Diagnostic C)
  | diagnostic d => some d
  | _ => none

/-- A computation that reports events. -/
abbrev Reported (C : CallerTypes) (α : Type) : Type := Logged (Event C) α

end DynValue
