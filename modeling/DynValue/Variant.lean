import DynValue.CastError
import DynValue.Order

/-!
# Variants

A variant is a slot for a value of any type. It holds one payload or
none, and the ordering that was bound when the payload was assigned; the
two always change together.

Storing a value **natively** (`native`) brings it into the form in
which variants keep it: static text and wide text are kept as owned text,
and the marker of the empty type empties the variant. Storing it
**unordered** keeps it as it is. Reference constructors bind to the order
of referents.

Reading back is exact: `cast` and `view` give the payload if it has the
type asked for and never convert, except that owned text is also given as
wide text by `cast`.
-/

namespace DynValue

/-- **A variant.** -/
structure Variant (C : CallerTypes) where
  /-- What it holds, if anything. -/
  payload : Option (Payload C)
  /-- The ordering bound to the payload. -/
  binding : Binding C

namespace Variant

variable {C : CallerTypes}

/-! ## Storing -/

/-- The variant without a value. -/
def empty : Variant C := ⟨none, .unordered⟩

instance : Inhabited (Variant C) := ⟨empty⟩

/-- A payload with the order of its own type. -/
def storeNative (p : Payload C) : Variant C := ⟨some p, .native p.type⟩

/-- **A value with its type's own order**, in the form in which variants
keep it. -/
def native : Payload C → Variant C
  | .staticText s => storeNative (.text s)
  | .wide w => storeNative (.text w.toText)
  | .empty => empty
  | p => storeNative p

/-- **A value without an order**, kept as it is. -/
def unordered (p : Payload C) : Variant C := ⟨some p, .unordered⟩

/-- A variant of a copy of a text. -/
def ofText (s : String) : Variant C := native (.text s)

/-- A variant of UTF-16 text, unpaired surrogates replaced. -/
def ofWideText (w : WideText) : Variant C := native (.text w.toText)

/-- A shared reference to a value, ordered by its referent. -/
def ofShared (r : Ref) (content : Payload C) : Variant C :=
  ⟨some (.shared r content), .shared content.type⟩

/-- A shared reference to an external object, ordered by its referent. -/
def ofObject (r : Ref) : Variant C := ⟨some (.object r), .shared .externalObject⟩

/-- A weak reference, ordered by its referent. -/
def ofWeak (t : Ty C) (r : Ref) : Variant C := ⟨some (.weak t r), .weak t⟩

/-- **The variant of a value**, by the constructor that suits its type.
Of an option the layers are taken off: something becomes the variant of
what is inside, nothing becomes the explicit null. A variant is itself. -/
def ofValue : Payload C → Variant C
  | .option _ (some p) => ofValue p
  | .option _ none => native .null
  | .variant content binding => ⟨content, binding⟩
  | .object r => ofObject r
  | .weak t r => ofWeak t r
  | .seq k t items => unordered (.seq k t items)
  | .map k t entries => unordered (.map k t entries)
  | p => native p

/-- The variant as a value. -/
def toPayload (v : Variant C) : Payload C := .variant v.payload v.binding

/-- The variant that an entry of a list or dictionary of variants is. -/
def ofEntry : Payload C → Variant C
  | .variant content binding => ⟨content, binding⟩
  | p => unordered p

@[simp] theorem ofEntry_toPayload (v : Variant C) : ofEntry v.toPayload = v := rfl

/-! ## Queries -/

/-- Whether there is no value. -/
def isEmpty (v : Variant C) : Bool := v.payload.isNone

/-- **The type of the stored value**, the empty type if there is none. -/
def type (v : Variant C) : Ty C :=
  match v.payload with
  | some p => p.type
  | none => .empty

/-- **Whether the stored value is exactly of a type.** Owned text also
counts as wide text, and a variant without a value as the empty type. -/
def isA (v : Variant C) (t : Ty C) : Bool :=
  match v.payload with
  | some p => decide (p.type = t) || (decide (t = .wide) && decide (p.type = .text))
  | none => decide (t = .empty)

/-- Whether the explicit null is stored. -/
def isNull (v : Variant C) : Bool := v.isA .null

/-- The error of asking for a type. -/
def castError (v : Variant C) (t : Ty C) : CastError C := ⟨v.type, t, none⟩

/-- The stored value, if it is exactly of a type. -/
def exactly? (v : Variant C) (t : Ty C) : Option (Payload C) :=
  v.payload.filter fun p => decide (p.type = t)

/-- The stored text, if text is stored. -/
def text? (v : Variant C) : Option String :=
  match v.payload with
  | some (.text s) => some s
  | _ => none

/-- **The stored value by reference**, if it is exactly of the type asked
for. -/
def view (v : Variant C) (t : Ty C) : Except (CastError C) (Payload C) :=
  match v.exactly? t with
  | some p => .ok p
  | none => .error (v.castError t)

theorem exactly?_eq_some_iff {v : Variant C} {t : Ty C} {p : Payload C} :
    v.exactly? t = some p ↔ v.payload = some p ∧ p.type = t := by
  simp [exactly?, Option.filter_eq_some_iff]

/-- A view is the stored value itself. -/
theorem view_eq_ok_iff {v : Variant C} {t : Ty C} {p : Payload C} :
    v.view t = .ok p ↔ v.payload = some p ∧ p.type = t := by
  rw [← exactly?_eq_some_iff]
  unfold view
  split <;> simp_all

/-- **A copy of the stored value**, if it is exactly of the type asked for.
Wide text is made from stored text, and from nothing else. -/
def cast (v : Variant C) (t : Ty C) : Except (CastError C) (Payload C) :=
  if t = .wide then
    match v.text? with
    | some s => .ok (.wide (WideText.ofString s))
    | none => .error (v.castError t)
  else v.view t

/-! ## Order -/

/-- **The order of variants.** Two values of one type are ordered as they
were bound, and differently bound ones not at all. Different types are
ordered by name, a variant without a value by the name of the empty type.
Different types are assumed to have different names: those of one name are
not ordered here (`Ty.before`). -/
def less (v w : Variant C) : Bool :=
  match v.payload, w.payload with
  | some p, some q =>
    if p.type = q.type then v.binding.less w.binding p q else p.type.before q.type
  | none, none => false
  | _, _ => v.type.before w.type

/-! ## Text -/

/-- **The debugging form**: the type with the text of a scalar, a text in
quotes, and of everything else the type alone. -/
def debugText (v : Variant C) : String :=
  let inside :=
    match v.payload.bind Payload.scalarText? with
    | some text => v.type.name ++ ": " ++ text
    | none =>
      match v.text? with
      | some text => Text.quote text
      | none => v.type.name
  "Variant(" ++ inside ++ ")"

/-! ## What a variant keeps alive -/

/-- The references that a variant holds strongly. -/
def holds (v : Variant C) : RefSet := Payload.optionHolds v.payload

/-- A bound on the number of entries of every container within. -/
def breadth (v : Variant C) : Nat := Payload.optionBreadth v.payload

end Variant

end DynValue
