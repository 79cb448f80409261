import DynValue.Session.State

/-!
# What a caller asks

A `Query` is a question to one variant about one type. Asking changes no
slot, but a conversion may report events, and those of reads count for the
objects they were made of.
-/

namespace DynValue

/-- **What a caller can ask a variant** about one type. -/
inductive Query (C : CallerTypes) where
  | convert (t : Ty C)
  | canBe (t : Ty C)
  | cast (t : Ty C)
  | view (t : Ty C)
  | isA (t : Ty C)
  /-- Whether the type reported is the one asked for. -/
  | hasType (t : Ty C)
  | container (shape : Shape) (elem : Ty C)

/-- **The answer to a question.** -/
inductive Answer (C : CallerTypes) where
  | flag (b : Bool)
  | outcome (r : Except (CastError C) (Payload C))
  /-- A conversion that did not end within its bound. -/
  | unfinished

namespace Session

variable {C : CallerTypes}

/-- **One question to a variant** of the session. It changes nothing, but a
container conversion is asked for and driven to its end at once, and its
reads are among what is reported. -/
def ask (K : Converters C) (s : Session C) (v : Variant C) :
    Query C → Reported C (Answer C)
  | .convert t => do
    let outcome ← v.convert K s.alive t
    pure (.outcome outcome)
  | .canBe t => do
    let b ← v.canBe K s.alive t
    pure (.flag b)
  | .cast t => pure (.outcome (v.cast t))
  | .view t => pure (.outcome (v.view t))
  | .isA t => pure (.flag (v.isA t))
  | .hasType t => pure (.flag (decide (v.type = t)))
  | .container shape elem => do
    let f ← v.pend s.alive shape elem
    match ← f.finish (s.setting K) s.roots with
    | some outcome => pure (.outcome outcome)
    | none => pure .unfinished

end Session

end DynValue
