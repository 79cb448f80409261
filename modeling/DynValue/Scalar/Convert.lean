import DynValue.Event
import DynValue.Scalar.Number
import DynValue.Variant

/-!
# Conversion of scalars

Where a cast asks for exactly the stored type, a conversion accepts what
can be represented. A stored number is first taken as an exact number,
whatever its kind (`Payload.number?`), and then brought into the kind
asked for, with one check against that kind's range. Text is parsed by
the kind's own grammar.

A conversion to the stored type itself always gives the stored value, and
the rules of the target type are consulted otherwise (`attempt`). A
failure is reported once for every type that was asked for on the way:
asking for an optional number asks for a number, asking for wide text
asks for text.
-/

namespace DynValue

/-- The truth value that a text denotes: a word or a digit, the letters in
either case. -/
def Text.truthValue? (s : String) : Option Bool :=
  let word := String.ofList (s.toList.map Char.toLower)
  if word = "true" ∨ word = "1" then some true
  else if word = "false" ∨ word = "0" then some false
  else none

/-- **How the caller's own types are converted to.** A rule is told which
references are alive, and may report events. -/
structure Converters (C : CallerTypes) where
  /-- The rule of a type, for variants that hold no value of it. -/
  rule : (tag : C.Tag) → RefSet → Variant C → Reported C (Except (CastError C) (C.Val tag))

/-- No conversion to any of the caller's own types. -/
def Converters.refusing (C : CallerTypes) : Converters C :=
  ⟨fun tag _ v => pure (.error (v.castError (.caller tag)))⟩

namespace Variant

variable {C : CallerTypes}

/-! ## The rules of the targets -/

/-- To an integer kind. -/
def toInt (v : Variant C) (k : IntKind) : Except (CastError C) (Payload C) :=
  let error := v.castError (.int k)
  match v.text? with
  | some s =>
    match k.ofText? s with
    | some n => .ok (.int k n)
    | none => .error (error.because (.notNumeric s))
  | none =>
    match v.payload.bind Payload.number? with
    | some number =>
      match number.toInt? k with
      | some n => .ok (.int k n)
      | none => .error (error.because .outOfRange)
    | none => .error error

/-- To a float kind. -/
def toFloat (v : Variant C) (K : FloatKind) : Except (CastError C) (Payload C) :=
  let error := v.castError (.float K)
  match v.text? with
  | some s =>
    match Fp.ofText? K s with
    | some x => .ok (.float K x)
    | none => .error (error.because (.notNumeric s))
  | none =>
    match v.payload.bind Payload.number? with
    | some number =>
      match number.toFloat? K with
      | some x => .ok (.float K x)
      | none => .error (error.because .outOfRange)
    | none => .error error

/-- To a truth value: of a number, whether it is not zero. -/
def toBool (v : Variant C) : Except (CastError C) (Payload C) :=
  let error := v.castError .bool
  match v.text? with
  | some s =>
    match Text.truthValue? s with
    | some b => .ok (.bool b)
    | none => .error (error.because (.notTruthValue s))
  | none =>
    match v.payload.bind Payload.number? with
    | some number => .ok (.bool !number.isZero)
    | none => .error error

/-- To a character: from a text of one. -/
def toChar (v : Variant C) : Except (CastError C) (Payload C) :=
  let error := v.castError .char
  match v.text? with
  | some s =>
    match s.toList with
    | [c] => .ok (.char c)
    | _ => .error (error.because .notOneCharacter)
  | none => .error error

/-- To text: from scalars. -/
def toText (v : Variant C) : Except (CastError C) (Payload C) :=
  match v.payload.bind Payload.scalarText? with
  | some s => .ok (.text s)
  | none => .error (v.castError .text)

/-- To a shared reference to an object: from a weak one, while the object
is alive. -/
def toObject (alive : RefSet) (v : Variant C) : Except (CastError C) (Payload C) :=
  let error := v.castError .object
  match v.payload with
  | some (.weak .externalObject r) =>
    if alive r then .ok (.object r) else .error (error.because .released)
  | _ => .error error

/-! ## Conversion -/

/-- **One level of a conversion**: the stored value if it is exactly of
the type, otherwise what the type's rule gives; a failure is reported. -/
def attempt (v : Variant C) (t : Ty C)
    (rule : Reported C (Except (CastError C) (Payload C))) :
    Reported C (Except (CastError C) (Payload C)) :=
  match v.exactly? t with
  | some p => pure (.ok p)
  | none => do
    let outcome ← rule
    match outcome with
    | .ok p => pure (.ok p)
    | .error e => do
      Logged.report (.diagnostic (.conversionFailed e))
      pure (.error e)

/-- What an attempt answers does not depend on what it reports. -/
theorem attempt_value {v : Variant C} (t : Ty C)
    (rule : Reported C (Except (CastError C) (Payload C))) :
    (v.attempt t rule).value = match v.exactly? t with
      | some p => .ok p
      | none => rule.value := by
  unfold attempt
  cases v.exactly? t with
  | some p => rfl
  | none =>
    rw [Logged.value_bind]
    cases rule.value <;> rfl

/-- **The rule of a type**, for variants that do not hold a value of it. An
option is absent for the explicit null and for a variant without a value,
and otherwise holds what its own type's conversion gives. -/
def convertFrom (K : Converters C) (alive : RefSet) :
    Ty C → Variant C → Reported C (Except (CastError C) (Payload C))
  | .int k, v => pure (v.toInt k)
  | .float K, v => pure (v.toFloat K)
  | .bool, v => pure v.toBool
  | .char, v => pure v.toChar
  | .text, v => pure v.toText
  | .wide, v => do
    match ← v.attempt .text (pure v.toText) with
    | .ok (.text s) => pure (.ok (.wide (WideText.ofString s)))
    | _ => pure (.error (v.castError .wide))
  | .variant, v => pure (.ok v.toPayload)
  | .empty, v => pure (if v.isEmpty then .ok .empty else .error (v.castError .empty))
  | .shared .externalObject, v => pure (v.toObject alive)
  | .option t, v =>
    if v.isNull || v.isEmpty then pure (.ok (.option t none))
    else do
      match ← v.attempt t (convertFrom K alive t v) with
      | .ok p => pure (.ok (.option t (some p)))
      | .error e => pure (.error (e.retarget (.option t)))
  | .caller tag, v => do
    match ← K.rule tag alive v with
    | .ok x => pure (.ok (.caller tag x))
    | .error e => pure (.error e)
  | t, v => pure (.error (v.castError t))

/-- **Conversion of a variant to a type.** -/
def convert (K : Converters C) (alive : RefSet) (t : Ty C) (v : Variant C) :
    Reported C (Except (CastError C) (Payload C)) :=
  v.attempt t (convertFrom K alive t v)

/-- A stored value of the type asked for is given as it is. -/
theorem convert_of_type {v : Variant C} {t : Ty C} {p : Payload C} (K : Converters C)
    (alive : RefSet) (held : v.payload = some p) (type : p.type = t) :
    (v.convert K alive t).value = .ok p := by
  rw [convert, attempt_value, exactly?_eq_some_iff.2 ⟨held, type⟩]

/-- Any other is converted by the rule of the type. -/
theorem convert_of_type_ne {v : Variant C} {t : Ty C} {p : Payload C} (K : Converters C)
    (alive : RefSet) (held : v.payload = some p) (other : p.type ≠ t) :
    (v.convert K alive t).value = (convertFrom K alive t v).value := by
  have inexact : v.exactly? t = none := by
    rw [exactly?, held]
    exact if_neg (mt of_decide_eq_true other)
  rw [convert, attempt_value, inexact]

/-- **Whether a variant is of a type or converts to it.** The question
reports no failure of its own. -/
def canBe (K : Converters C) (alive : RefSet) (t : Ty C) (v : Variant C) :
    Reported C Bool :=
  if v.isA t then pure true
  else do
    match ← convertFrom K alive t v with
    | .ok _ => pure true
    | .error _ => pure false

end Variant

end DynValue
