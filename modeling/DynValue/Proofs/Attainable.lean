import DynValue.Session.Command

/-!
# The values that a caller can have

Not every payload is a value that somebody can bring along. The entries of a
list are of the list's type, and a variant among them was made by one of the
constructions, from a value that was itself there to be had. This is
`Payload.Attainable`, and two things follow from it. Such a payload is well
typed at every depth (`Payload.Attainable.wellTyped`), and a variant that is
made of it is bound at the type that it stores (`Construction.build_wellBound`).

A binding is a comparison of two payloads at the type that it was made for,
and each payload has to be taken to be of this type before it can be looked
at. `Binding.Accepts` says that this succeeds. Where it does for both, the
binding compares them and does nothing else (`Binding.relates_iff`).
-/

namespace DynValue

variable {C : CallerTypes}

/-! ## Attainable values -/

namespace Construction

/-- The value that a construction is given, if it is given one of any type. -/
def given? : Construction C → Option (Payload C)
  | native p | unordered p | ofValue p | ofShared _ p => some p
  | _ => none

end Construction

/-- **A value that a caller can have**: containers have entries of their type,
and a variant was made by a construction. -/
inductive Payload.Attainable : Payload C → Prop
  | int (k : IntKind) (n : k.Value) : Attainable (.int k n)
  | float (K : FloatKind) (x : Fp K) : Attainable (.float K x)
  | bool (b : Bool) : Attainable (.bool b)
  | char (c : Char) : Attainable (.char c)
  | text (s : String) : Attainable (.text s)
  | staticText (s : String) : Attainable (.staticText s)
  | wide (w : WideText) : Attainable (.wide w)
  | null : Attainable .null
  | empty : Attainable .empty
  | variant (c : Construction C) (given : ∀ p ∈ c.given?, Attainable p) :
    Attainable c.build.toPayload
  | option {t : Ty C} {content : Option (Payload C)} (parts : ∀ p ∈ content, Attainable p)
    (type : ∀ p ∈ content, p.type = t) : Attainable (.option t content)
  | seq (k : SeqKind) {t : Ty C} {items : List (Payload C)} (parts : ∀ p ∈ items, Attainable p)
    (type : ∀ p ∈ items, p.type = t) : Attainable (.seq k t items)
  | map (k : MapKind) {t : Ty C} {entries : List (String × Payload C)}
    (parts : ∀ e ∈ entries, Attainable e.2) (type : ∀ e ∈ entries, e.2.type = t) :
    Attainable (.map k t entries)
  | shared (r : Ref) {p : Payload C} (part : Attainable p) : Attainable (.shared r p)
  | object (r : Ref) : Attainable (.object r)
  | weak (t : Ty C) (r : Ref) : Attainable (.weak t r)
  | caller (tag : C.Tag) (v : C.Val tag) : Attainable (.caller tag v)

/-- A construction from a value that a caller can have. -/
def Construction.Attainable (c : Construction C) : Prop := ∀ p ∈ c.given?, p.Attainable

/-! ## Types -/

namespace Payload

theorem optionWellTyped_iff {content : Option (Payload C)} :
    OptionWellTyped content ↔ ∀ p ∈ content, p.WellTyped := by
  cases content <;> simp [OptionWellTyped]

theorem listWellTyped_iff {items : List (Payload C)} :
    ListWellTyped items ↔ ∀ p ∈ items, p.WellTyped := by
  induction items with
  | nil => simp [ListWellTyped]
  | cons p items ih => rw [ListWellTyped, ih, List.forall_mem_cons]

theorem entriesWellTyped_iff {entries : List (String × Payload C)} :
    EntriesWellTyped entries ↔ ∀ e ∈ entries, e.2.WellTyped := by
  induction entries with
  | nil => simp [EntriesWellTyped]
  | cons e entries ih => rw [EntriesWellTyped, ih, List.forall_mem_cons]

end Payload

namespace Variant

theorem native_wellTyped {p : Payload C} (h : p.WellTyped) :
    Payload.OptionWellTyped (native p).payload := by
  cases p with
  | staticText s => trivial
  | wide w => trivial
  | empty => trivial
  | _ => exact h

theorem ofValue_wellTyped {p : Payload C} (h : p.WellTyped) :
    Payload.OptionWellTyped (ofValue p).payload := by
  fun_induction ofValue p with
  | case1 t p ih => exact ih h.1
  | case2 => trivial
  | case8 p => exact native_wellTyped h
  | _ => exact h

end Variant

/-- A construction from a well-typed value stores a well-typed value. -/
theorem Construction.build_wellTyped {c : Construction C} (h : ∀ p ∈ c.given?, p.WellTyped) :
    Payload.OptionWellTyped c.build.payload := by
  cases c with
  | native p => exact Variant.native_wellTyped (h p rfl)
  | unordered p => exact h p rfl
  | ofValue p => exact Variant.ofValue_wellTyped (h p rfl)
  | ofShared r p => exact h p rfl
  | _ => trivial

/-- **A value that a caller can have is well typed.** -/
theorem Payload.Attainable.wellTyped {p : Payload C} (h : p.Attainable) : p.WellTyped := by
  induction h with
  | variant c given ih => exact c.build_wellTyped ih
  | option parts type ih => exact ⟨optionWellTyped_iff.2 ih, type⟩
  | seq k parts type ih => exact ⟨listWellTyped_iff.2 ih, type⟩
  | map k parts type ih => exact ⟨entriesWellTyped_iff.2 ih, type⟩
  | shared r part ih => exact ih
  | _ => trivial

/-! ## Bindings -/

namespace Binding

/-- **A payload is of the type that a binding was made for**, so that it can
be taken to be of this type. -/
def Accepts : Binding C → Payload C → Prop
  | unordered, _ => True
  | native t, p => p.type = t
  | shared t, p => p.type = .shared t
  | weak t, p => p.type = .weak t

end Binding

/-- **The relation of two payloads** by a kind of order, with no question
asked about their types. -/
def OrderKind.Relates : OrderKind → Payload C → Payload C → Prop
  | unordered, _, _ => False
  | native, p, q => p.compare? q = some .lt
  | identity, p, q => ∃ r ∈ p.referent?, ∃ s ∈ q.referent?, r < s

namespace Payload

theorem referent?_isSome_of_shared {p : Payload C} {t : Ty C} (h : p.type = .shared t) :
    p.referent?.isSome = true := by
  cases p with
  | shared r p => rfl
  | object r => rfl
  | _ => cases h

theorem referent?_isSome_of_weak {p : Payload C} {t : Ty C} (h : p.type = .weak t) :
    p.referent?.isSome = true := by
  cases p with
  | weak t r => rfl
  | _ => cases h

theorem refersBefore_iff {p q : Payload C} {t : Ty C} :
    p.refersBefore t q = true ↔ p.type = t ∧ q.type = t ∧ OrderKind.identity.Relates p q := by
  rw [refersBefore, OrderKind.Relates]
  cases p.referent? <;> cases q.referent? <;> simp [and_assoc]

end Payload

namespace Binding

variable {b b' : Binding C} {p q : Payload C}

/-- A binding relates payloads of its type only. -/
theorem relates_eq_true_iff :
    b.relates p q = true ↔ b.Accepts p ∧ b.Accepts q ∧ b.kind.Relates p q := by
  cases b with
  | unordered => simp [relates, kind, OrderKind.Relates]
  | native t => simp [relates, kind, OrderKind.Relates, Accepts, and_assoc]
  | shared t => exact Payload.refersBefore_iff
  | weak t => exact Payload.refersBefore_iff

/-- **A binding compares two payloads that it accepts** by its kind of order
and by nothing else. -/
theorem relates_iff (hp : b.Accepts p) (hq : b.Accepts q) :
    b.relates p q = true ↔ b.kind.Relates p q := by
  rw [relates_eq_true_iff]
  exact ⟨fun h => h.2.2, fun h => ⟨hp, hq, h⟩⟩

theorem eq_unordered (h : b.kind = .unordered) : b = .unordered := by
  cases b with
  | unordered => rfl
  | _ => cases h

/-- What a binding by identity accepts is a reference. -/
theorem Accepts.referent?_isSome (h : b.Accepts p) (kind : b.kind = .identity) :
    p.referent?.isSome = true := by
  cases b with
  | unordered => cases kind
  | native t => cases kind
  | shared t => exact Payload.referent?_isSome_of_shared h
  | weak t => exact Payload.referent?_isSome_of_weak h

/-- A binding depends on the type of a payload only. -/
theorem Accepts.of_type (h : b.Accepts p) (type : p.type = q.type) : b.Accepts q := by
  cases b with
  | unordered => trivial
  | native t => exact type.symm.trans h
  | shared t => exact type.symm.trans h
  | weak t => exact type.symm.trans h

/-- **For a type the kind of order determines the binding.** -/
theorem Accepts.eq_of_kind (h : b.Accepts p) (h' : b'.Accepts p) (kind : b.kind = b'.kind) :
    b = b' := by
  cases b with
  | unordered => exact (eq_unordered kind.symm).symm
  | native t =>
    cases b' with
    | native t' => rw [← (h : p.type = t), ← (h' : p.type = t')]
    | _ => cases kind
  | shared t =>
    cases b' with
    | shared t' => cases (h : p.type = _).symm.trans h'; rfl
    | weak t' => cases (h : p.type = _).symm.trans h'
    | _ => cases kind
  | weak t =>
    cases b' with
    | weak t' => cases (h : p.type = _).symm.trans h'; rfl
    | shared t' => cases (h : p.type = _).symm.trans h'
    | _ => cases kind

end Binding

/-! ## Bound variants -/

namespace Variant

/-- **A variant is bound at the type that it stores**, and to no order if it
stores nothing. -/
def WellBound (v : Variant C) : Prop :=
  match v.payload with
  | some p => v.binding.Accepts p
  | none => v.binding = .unordered

theorem native_wellBound (p : Payload C) : (native p).WellBound := by
  cases p <;> rfl

/-- What is given to a construction is the only source of a binding that the
construction does not make itself. -/
theorem build_wellBound_of_ofValue {c : Construction C}
    (h : ∀ p ∈ c.given?, (ofValue p).WellBound) : c.build.WellBound := by
  cases c with
  | native p => exact native_wellBound p
  | unordered p => trivial
  | ofValue p => exact h p rfl
  | _ => rfl

theorem ofValue_wellBound {p : Payload C} (h : p.Attainable) : (ofValue p).WellBound := by
  induction h with
  | variant c given ih => exact build_wellBound_of_ofValue ih
  | @option t content parts type ih =>
    cases content with
    | none => exact native_wellBound .null
    | some p => exact ih p rfl
  | seq k parts type => trivial
  | map k parts type => trivial
  | _ => rfl

end Variant

/-- **Every construction binds at the type that it stores.** -/
theorem Construction.build_wellBound {c : Construction C} (h : c.Attainable) :
    c.build.WellBound :=
  Variant.build_wellBound_of_ofValue fun p given => Variant.ofValue_wellBound (h p given)

end DynValue
