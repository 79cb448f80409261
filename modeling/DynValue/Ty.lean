import DynValue.Number.Float
import DynValue.Number.Integer

/-!
# Types at run time

A variant knows the type of what it holds, and every query is about a
type. A `Ty` is the identity of a type: two are equal exactly when they
are the same type. Its `name` is what error messages show, and what
variants of different types are ordered by.

The types that a variant can hold are open: callers store values of their
own. `CallerTypes` is what the library has to know about those, and
everything else takes it as a parameter.
-/

namespace DynValue

/-- **The caller's own types**: how to tell them apart, what they are
called, which values they have and how two values of one type compare. -/
structure CallerTypes where
  /-- One tag for each type. -/
  Tag : Type
  /-- Tags can be told apart. -/
  decEq : DecidableEq Tag
  /-- The full name of a type. -/
  name : Tag → String
  /-- The values of a type. -/
  Val : Tag → Type
  /-- The type's own comparison; `none` where two values are not related. -/
  compare? : (tag : Tag) → Val tag → Val tag → Option Ordering

instance (C : CallerTypes) : DecidableEq C.Tag := C.decEq

/-- No types beyond the library's own. -/
def CallerTypes.none : CallerTypes where
  Tag := PEmpty
  decEq := fun a => a.elim
  name := fun a => a.elim
  Val := fun a => a.elim
  compare? := fun a => a.elim

/-- The two kinds of sequence. -/
inductive SeqKind where
  /-- A growable array. -/
  | vector
  /-- A double-ended queue. -/
  | deque
  deriving DecidableEq, Repr

/-- The two kinds of mapping with text keys. -/
inductive MapKind where
  /-- Kept in key order. -/
  | sorted
  /-- Kept by hash. -/
  | hashed
  deriving DecidableEq, Repr

/-- **The identity of a type.** -/
inductive Ty (C : CallerTypes) where
  | int (k : IntKind)
  | float (K : FloatKind)
  | bool
  | char
  /-- Owned text. -/
  | text
  /-- Text of static lifetime, held by reference. -/
  | staticText
  /-- Bare text, which has no size of its own. -/
  | textSlice
  /-- UTF-16 text. -/
  | wide
  /-- The type of the explicit null. -/
  | null
  /-- The type that a variant without a value reports. -/
  | empty
  | unit
  /-- A variant as a value. -/
  | variant
  /-- A value or nothing. -/
  | option (t : Ty C)
  | seq (k : SeqKind) (t : Ty C)
  | map (k : MapKind) (t : Ty C)
  /-- A bare run of values, which has no size of its own. -/
  | slice (t : Ty C)
  /-- A shared reference, which keeps its referent alive. -/
  | shared (t : Ty C)
  /-- A weak reference, which does not. -/
  | weak (t : Ty C)
  /-- An external object, reached through a reference only. -/
  | externalObject
  /-- One of the caller's own types. -/
  | caller (tag : C.Tag)
  deriving DecidableEq

namespace Ty

variable {C : CallerTypes}

/-- A shared reference to an external object. -/
abbrev object : Ty C := .shared .externalObject

/-- A weak reference to an external object. -/
abbrev weakObject : Ty C := .weak .externalObject

/-- A list of variants, the in-memory source of sequences. -/
abbrev variants : Ty C := .seq .vector .variant

/-- A dictionary of variants, the in-memory source of mappings. -/
abbrev dictionary : Ty C := .map .sorted .variant

/-- **The full name of a type.** -/
def name : Ty C → String
  | int k => k.name
  | float K => K.name
  | bool => "bool"
  | char => "char"
  | text => "alloc::string::String"
  | staticText => "&str"
  | textSlice => "str"
  | wide => "sovran_variant::text::WideString"
  | null => "sovran_variant::sentinel::Null"
  | empty => "sovran_variant::sentinel::Empty"
  | unit => "()"
  | variant => "sovran_variant::variant::Variant"
  | option t => "core::option::Option<" ++ t.name ++ ">"
  | seq .vector t => "alloc::vec::Vec<" ++ t.name ++ ">"
  | seq .deque t => "alloc::collections::vec_deque::VecDeque<" ++ t.name ++ ">"
  | map .sorted t =>
    "alloc::collections::btree::map::BTreeMap<alloc::string::String, " ++ t.name ++ ">"
  | map .hashed t =>
    "std::collections::hash::map::HashMap<alloc::string::String, " ++ t.name ++ ">"
  | slice t => "[" ++ t.name ++ "]"
  | shared t => "alloc::sync::Arc<" ++ t.name ++ ">"
  | weak t => "alloc::sync::Weak<" ++ t.name ++ ">"
  | externalObject => "dyn sovran_variant::object::ExternalObject"
  | caller tag => C.name tag

/-- **The order of different types**: that of their names, character by
character in code point order. Two types of one name are not ordered: which
of them would come first depends on numbers that stand for the types, and
these are left out. Where it matters different types are assumed to have
different names (`Variant.UniformlyBound.type_eq`). -/
def before (s t : Ty C) : Bool := decide (s.name < t.name)

/-- The debugging form. -/
def debugText (t : Ty C) : String := "VariantType(" ++ t.name ++ ")"

end Ty

end DynValue
