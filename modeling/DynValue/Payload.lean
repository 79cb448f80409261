import DynValue.Number.Shortest
import DynValue.Ref
import DynValue.Text.Wide
import DynValue.Ty

/-!
# Payloads

What a variant holds. A payload is a value of any type, and the type can
be read off it (`Payload.type`). Containers and options carry the type of
their entries, so that an empty one has a type too.

References to shared values and external objects are by `Ref`. A shared
reference to a plain value carries the value as well, since it never
changes; an external object has a behaviour instead of a value and is
looked up where it is used.

A payload may hold variants, and a variant's payload comes with the
ordering it was bound to. That `Binding` is therefore declared here; what
it means is said beside the comparison.
-/

namespace DynValue

/-- **The ordering that a variant was bound to** when its value was
assigned, at the type it was bound for. -/
inductive Binding (C : CallerTypes) where
  /-- No order. -/
  | unordered
  /-- The order of the values of a type. -/
  | native (t : Ty C)
  /-- The order of the referents' identities, for shared references to a type. -/
  | shared (t : Ty C)
  /-- The order of the referents' identities, for weak references to a type. -/
  | weak (t : Ty C)
  deriving DecidableEq

/-- **A value of any type.** -/
inductive Payload (C : CallerTypes) where
  | int (k : IntKind) (n : k.Value)
  | float (K : FloatKind) (x : Fp K)
  | bool (b : Bool)
  | char (c : Char)
  | text (s : String)
  | staticText (s : String)
  | wide (w : WideText)
  | null
  | empty
  /-- A variant as a value: its payload, if it has one, and its binding. -/
  | variant (content : Option (Payload C)) (binding : Binding C)
  /-- Perhaps a value of a type. -/
  | option (t : Ty C) (content : Option (Payload C))
  /-- A sequence of values of a type. -/
  | seq (k : SeqKind) (t : Ty C) (items : List (Payload C))
  /-- A mapping from text to values of a type, in key order. -/
  | map (k : MapKind) (t : Ty C) (entries : List (String × Payload C))
  /-- A shared reference to a value. -/
  | shared (r : Ref) (content : Payload C)
  /-- A shared reference to an external object. -/
  | object (r : Ref)
  /-- A weak reference to something of a type. -/
  | weak (t : Ty C) (r : Ref)
  /-- A value of one of the caller's own types. -/
  | caller (tag : C.Tag) (v : C.Val tag)

namespace Payload

variable {C : CallerTypes}

/-- **The type of a payload.** -/
def type : Payload C → Ty C
  | int k _ => .int k
  | float K _ => .float K
  | bool _ => .bool
  | char _ => .char
  | text _ => .text
  | staticText _ => .staticText
  | wide _ => .wide
  | null => .null
  | empty => .empty
  | variant _ _ => .variant
  | option t _ => .option t
  | seq k t _ => .seq k t
  | map k t _ => .map k t
  | shared _ p => .shared p.type
  | object _ => .object
  | weak t _ => .weak t
  | caller tag _ => .caller tag

/-! ## Well-typed payloads -/

mutual

/-- **The entries of a container have the type it says**, at every depth. -/
def WellTyped : Payload C → Prop
  | variant content _ => OptionWellTyped content
  | option t content => OptionWellTyped content ∧ ∀ p ∈ content, p.type = t
  | seq _ t items => ListWellTyped items ∧ ∀ p ∈ items, p.type = t
  | map _ t entries => EntriesWellTyped entries ∧ ∀ e ∈ entries, e.2.type = t
  | shared _ p => WellTyped p
  | _ => True

/-- A payload that may be missing is well typed if it is there. -/
def OptionWellTyped : Option (Payload C) → Prop
  | none => True
  | some p => WellTyped p

/-- Every payload of a list is well typed. -/
def ListWellTyped : List (Payload C) → Prop
  | [] => True
  | p :: ps => WellTyped p ∧ ListWellTyped ps

/-- Every value of a list of entries is well typed. -/
def EntriesWellTyped : List (String × Payload C) → Prop
  | [] => True
  | (_, p) :: es => WellTyped p ∧ EntriesWellTyped es

end

/-! ## What a payload keeps alive

A shared reference keeps its referent alive, at whatever depth of the
payload it stands; a weak reference does not. -/

mutual

/-- **The references that a payload holds strongly.** -/
def holds : Payload C → RefSet
  | variant content _ => optionHolds content
  | option _ content => optionHolds content
  | seq _ _ items => listHolds items
  | map _ _ entries => entriesHold entries
  | shared r p => RefSet.union (RefSet.single r) (holds p)
  | object r => RefSet.single r
  | _ => RefSet.none

/-- What a payload that may be missing holds. -/
def optionHolds : Option (Payload C) → RefSet
  | none => RefSet.none
  | some p => holds p

/-- What the payloads of a list hold together. -/
def listHolds : List (Payload C) → RefSet
  | [] => RefSet.none
  | p :: ps => RefSet.union (holds p) (listHolds ps)

/-- What the values of a list of entries hold together. -/
def entriesHold : List (String × Payload C) → RefSet
  | [] => RefSet.none
  | (_, p) :: es => RefSet.union (holds p) (entriesHold es)

end

/-! ## How wide a payload is -/

mutual

/-- **A bound on the number of entries** of every container within a
payload. -/
def breadth : Payload C → Nat
  | variant content _ => optionBreadth content
  | option _ content => optionBreadth content
  | seq _ _ items => max items.length (listBreadth items)
  | map _ _ entries => max entries.length (entriesBreadth entries)
  | shared _ p => breadth p
  | _ => 0

/-- The bound for a payload that may be missing. -/
def optionBreadth : Option (Payload C) → Nat
  | none => 0
  | some p => breadth p

/-- The bound for the payloads of a list. -/
def listBreadth : List (Payload C) → Nat
  | [] => 0
  | p :: ps => max (breadth p) (listBreadth ps)

/-- The bound for the values of a list of entries. -/
def entriesBreadth : List (String × Payload C) → Nat
  | [] => 0
  | (_, p) :: es => max (breadth p) (entriesBreadth es)

end

/-! ## Mappings -/

/-- An entry put in its place among entries in key order, over any entry
of the same key. -/
def insertEntry (key : String) (p : Payload C) :
    List (String × Payload C) → List (String × Payload C)
  | [] => [(key, p)]
  | (k, q) :: es =>
    if key < k then (key, p) :: (k, q) :: es
    else if key = k then (key, p) :: es
    else (k, q) :: insertEntry key p es

/-- Putting an entry in changes what its own key has, and no other. -/
theorem lookup_insertEntry (key other : String) (p : Payload C)
    (entries : List (String × Payload C)) :
    (insertEntry key p entries).lookup other =
      if other = key then some p else entries.lookup other := by
  fun_induction insertEntry key p entries <;> grind

/-- **The mapping of a list of pairs**: in key order, and of several
values for one key the last. -/
def mapOf (k : MapKind) (t : Ty C) (pairs : List (String × Payload C)) : Payload C :=
  .map k t (pairs.foldl (fun es e => insertEntry e.1 e.2 es) [])

/-! ## Text of scalars -/

/-- **The text of a number, a truth value or a character.** Other payloads
have none. -/
def scalarText? : Payload C → Option String
  | int _ n => some (IntKind.text n.1)
  | float _ x => some x.text
  | bool b => some (if b then "true" else "false")
  | char c => some (String.singleton c)
  | _ => none

end Payload

end DynValue
