import DynValue.Payload

/-!
# Orderings bound to a value

Two relations order values of one type. The **native** order is that of
the values themselves, and it may be partial: floats that are not numbers
compare with nothing, and neither do the values of a type without an
order. The **identity** order is for references: it asks which referent
comes first and never looks at what the referents are.

`Payload.compare?` is the comparison of values. Containers compare entry
by entry and the first pair that is not equal decides, also when that
pair is not related at all; where one runs out first, the shorter is less.

`Binding.less` is the relation that a variant is bound to. Two values of
one type are in relation only if both are bound to the same kind of order.
-/

namespace DynValue

namespace Payload

variable {C : CallerTypes}

mutual

/-- **Comparison of two values of one type**, `none` where they are not
related. -/
def compare? : Payload C → Payload C → Option Ordering
  | int _ m, int _ n => some (compare m.1 n.1)
  | float _ x, float _ y => x.compare? y
  | bool a, bool b => some (compare a b)
  | char c, char d => some (compare c d)
  | text s, text t => some (compare s t)
  | staticText s, staticText t => some (compare s t)
  | wide v, wide w => some (v.compareUnits w)
  | null, null => some .eq
  | empty, empty => some .eq
  | option _ content, option _ content' => compareOption content content'
  | seq _ _ items, seq _ _ items' => compareList items items'
  | map .sorted _ entries, map .sorted _ entries' => compareEntries entries entries'
  | shared _ p, shared _ q => compare? p q
  | caller tag v, caller tag' v' =>
    if h : tag = tag' then C.compare? tag' (h ▸ v) v' else none
  | _, _ => none
termination_by structural p => p

/-- Nothing comes before something. -/
def compareOption : Option (Payload C) → Option (Payload C) → Option Ordering
  | none, none => some .eq
  | none, some _ => some .lt
  | some _, none => some .gt
  | some p, some q => compare? p q
termination_by structural p => p

/-- The first pair of items that is not equal decides. -/
def compareList : List (Payload C) → List (Payload C) → Option Ordering
  | [], [] => some .eq
  | [], _ :: _ => some .lt
  | _ :: _, [] => some .gt
  | p :: ps, q :: qs =>
    match compare? p q with
    | some .eq => compareList ps qs
    | other => other
termination_by structural p => p

/-- The first pair of entries that is not equal decides, by its keys and
then by its values. -/
def compareEntries :
    List (String × Payload C) → List (String × Payload C) → Option Ordering
  | [], [] => some .eq
  | [], _ :: _ => some .lt
  | _ :: _, [] => some .gt
  | (k, p) :: es, (l, q) :: fs =>
    match compare k l with
    | .eq =>
      match compare? p q with
      | some .eq => compareEntries es fs
      | other => other
    | other => some other
termination_by structural p => p

end

/-- **What a reference refers to.** -/
def referent? : Payload C → Option Ref
  | shared r _ => some r
  | object r => some r
  | weak _ r => some r
  | _ => none

/-- The order of referents, for two references of one type. -/
def refersBefore (p : Payload C) (t : Ty C) (q : Payload C) : Bool :=
  match p.referent?, q.referent? with
  | some r, some s => decide (p.type = t) && decide (q.type = t) && decide (r < s)
  | _, _ => false

end Payload

/-- **Whether the values of a type have an order** of their own, total or
not. Those of hashed mappings, of variants and of references to objects do
not; a shared reference to a value is ordered as the value is. -/
def Ty.hasOrder {C : CallerTypes} : Ty C → Bool
  | .map .hashed _ | .variant | .weak _ | .externalObject => false
  | .option t | .seq _ t | .map .sorted t | .slice t | .shared t => t.hasOrder
  | _ => true

/-- What a binding orders by, its type left out. -/
inductive OrderKind where
  | unordered
  | native
  | identity
  deriving DecidableEq, Repr

namespace Binding

variable {C : CallerTypes}

/-- **The kind of order of a binding.** Both kinds of reference are ordered
by identity. -/
def kind : Binding C → OrderKind
  | unordered => .unordered
  | native _ => .native
  | shared _ => .identity
  | weak _ => .identity

/-- **The relation of a binding** on two payloads. Payloads that are not
of the type it was bound for are not in relation. -/
def relates : Binding C → Payload C → Payload C → Bool
  | unordered, _, _ => false
  | native t, p, q =>
    decide (p.type = t) && decide (q.type = t) && p.compare? q == some .lt
  | shared t, p, q => p.refersBefore (.shared t) q
  | weak t, p, q => p.refersBefore (.weak t) q

/-- **Less-than of two payloads of one type**, each with its binding. -/
def less (l r : Binding C) (p q : Payload C) : Bool :=
  decide (l.kind = r.kind) && l.relates p q

end Binding

end DynValue
