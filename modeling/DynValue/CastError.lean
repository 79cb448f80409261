import DynValue.Text.Quoted
import DynValue.Ty

/-!
# The error of a cast

There is one way to fail: the value stored has one type and another was
asked for. A `CastError` names both and may carry an explanation. The
explanations that the library itself gives are listed as `Reason`, with
their wording in one place.
-/

namespace DynValue

/-- Why a value of an acceptable type cannot be converted. -/
inductive Reason where
  /-- The text does not denote a number of the type asked for. -/
  | notNumeric (text : String)
  /-- The text denotes no truth value. -/
  | notTruthValue (text : String)
  /-- The number has no counterpart in the type asked for. -/
  | outOfRange
  /-- The text has no character, or more than one. -/
  | notOneCharacter
  /-- The referent of a weak reference is gone. -/
  | released
  /-- The value has neither elements nor properties. -/
  | notStructured
  /-- A sequence was asked for, and the value has keys. -/
  | dictionaryAsSequence
  /-- A mapping was asked for, and the value has no keys. -/
  | listAsMapping
  deriving DecidableEq, Repr

/-- The wording of a reason. -/
def Reason.wording : Reason → String
  | notNumeric text => "`" ++ text ++ "` is not a valid number of this type"
  | notTruthValue text => "`" ++ text ++ "` is not a boolean literal"
  | outOfRange => "value is out of range for the destination type"
  | notOneCharacter => "text must hold exactly one character"
  | released => "the referenced object has been released"
  | notStructured => "value is not a structured object"
  | dictionaryAsSequence => "a dictionary cannot be converted into a sequence"
  | listAsMapping => "a list cannot be converted into a mapping"

/-- **A failed cast**: the type stored, the type requested, and perhaps an
explanation. -/
structure CastError (C : CallerTypes) where
  /-- The type of the value that was there. -/
  stored : Ty C
  /-- The type that was asked for. -/
  requested : Ty C
  /-- The explanation. -/
  detail : Option String := none
  deriving DecidableEq

namespace CastError

variable {C : CallerTypes}

/-- The error with an explanation, in place of any that it had. -/
def withDetail (e : CastError C) (detail : String) : CastError C :=
  { e with detail := some detail }

/-- The error with one of the library's reasons. -/
def because (e : CastError C) (reason : Reason) : CastError C :=
  e.withDetail reason.wording

/-- The same failure seen from a request for another type. -/
def retarget (e : CastError C) (t : Ty C) : CastError C :=
  { e with requested := t }

/-- **The text of an error**: both names, then the explanation. -/
def message (e : CastError C) : String :=
  "cannot cast `" ++ e.stored.name ++ "` to `" ++ e.requested.name ++ "`" ++
    match e.detail with
    | none => ""
    | some detail => ": " ++ detail

/-- The debugging form. -/
def debugText (e : CastError C) : String :=
  "CastError \x7b from: " ++ e.stored.debugText ++ ", to: " ++ e.requested.debugText ++
    ", message: " ++ Text.quoteOption e.detail ++ " \x7d"

end CastError

end DynValue
