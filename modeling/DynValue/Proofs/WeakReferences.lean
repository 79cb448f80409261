import DynValue.Container.Element
import DynValue.Proofs.Liveness

/-!
# What a conversion learns of liveness

A conversion is told which references are alive, and the only thing it can
learn from that is whether a weak reference that it comes upon is still
good. `Variant.refersWeakly` are the weak references of a variant at every
depth, and where two answers to what is alive agree on those, a variant
gives the same source and converts to the same (`Variant.source_eq`,
`Variant.convert_value_eq`).

The caller's own conversion rules are code from outside. That they learn no
more than this is an assumption about them, `Setting.Local`.
-/

namespace DynValue

variable {C : CallerTypes}

/-! ## Weak references -/

namespace Payload

mutual

/-- **The weak references in a payload**, at every depth. -/
def refersWeakly : Payload C → RefSet
  | variant content _ => optionRefersWeakly content
  | option _ content => optionRefersWeakly content
  | seq _ _ items => listRefersWeakly items
  | map _ _ entries => entriesReferWeakly entries
  | shared _ p => refersWeakly p
  | weak _ r => RefSet.single r
  | _ => RefSet.none

/-- Those in a payload that may be missing. -/
def optionRefersWeakly : Option (Payload C) → RefSet
  | none => RefSet.none
  | some p => refersWeakly p

/-- Those in the payloads of a list. -/
def listRefersWeakly : List (Payload C) → RefSet
  | [] => RefSet.none
  | p :: ps => RefSet.union (refersWeakly p) (listRefersWeakly ps)

/-- Those in the values of a list of entries. -/
def entriesReferWeakly : List (String × Payload C) → RefSet
  | [] => RefSet.none
  | (_, p) :: es => RefSet.union (refersWeakly p) (entriesReferWeakly es)

end

theorem listRefersWeakly_of_mem {ps : List (Payload C)} {p : Payload C} {r : Ref}
    (hp : p ∈ ps) (hr : p.refersWeakly r = true) : listRefersWeakly ps r = true := by
  induction ps with
  | nil => cases hp
  | cons q ps ih =>
    rw [listRefersWeakly, RefSet.union_apply, Bool.or_eq_true]
    cases hp with
    | head => exact .inl hr
    | tail _ hp => exact .inr (ih hp)

theorem entriesReferWeakly_of_mem {es : List (String × Payload C)} {e : String × Payload C}
    {r : Ref} (he : e ∈ es) (hr : e.2.refersWeakly r = true) :
    entriesReferWeakly es r = true := by
  induction es with
  | nil => cases he
  | cons q es ih =>
    obtain ⟨k, q⟩ := q
    rw [entriesReferWeakly, RefSet.union_apply, Bool.or_eq_true]
    cases he with
    | head => exact .inl hr
    | tail _ he => exact .inr (ih he)

end Payload

namespace Variant

/-- The weak references in a variant. -/
def refersWeakly (v : Variant C) : RefSet := Payload.optionRefersWeakly v.payload

@[simp] theorem refersWeakly_ofEntry (p : Payload C) :
    (ofEntry p).refersWeakly = p.refersWeakly := by
  cases p <;> rfl

@[simp] theorem holds_ofEntry (p : Payload C) : (ofEntry p).holds = p.holds := by
  cases p <;> rfl

@[simp] theorem breadth_ofEntry (p : Payload C) : (ofEntry p).breadth = p.breadth := by
  cases p <;> rfl

theorem refersWeakly_weak {v : Variant C} {t : Ty C} {r : Ref}
    (h : v.payload = some (.weak t r)) : v.refersWeakly r = true := by
  rw [refersWeakly, h]
  exact beq_self_eq_true r

end Variant

/-- The weak references in what an object has. -/
def ExternalObject.refersWeakly (o : ExternalObject C) : RefSet :=
  RefSet.union (RefSet.unionOf Variant.refersWeakly o.elements)
    (RefSet.unionOf (fun e => e.2.refersWeakly) o.properties)

/-- The weak references in a cell. -/
def Cell.refersWeakly : Cell C → RefSet
  | value p => p.refersWeakly
  | object o => o.refersWeakly

/-- The weak references anywhere on the heap. -/
def Heap.refersWeakly (h : Heap C) : RefSet := RefSet.unionOf Cell.refersWeakly h.cells

/-- What a conversion of a variant can learn of liveness: the weak references
in the variant and on the heap. -/
def Setting.Sees (S : Setting C) (v : Variant C) (r : Ref) : Prop :=
  v.refersWeakly r = true ∨ S.heap.refersWeakly r = true

/-- **The caller's rules learn of liveness only through weak references.** -/
def Setting.Local (S : Setting C) : Prop :=
  ∀ (tag : C.Tag) (a b : RefSet) (v : Variant C), (∀ r, S.Sees v r → a r = b r) →
    (S.converters.rule tag a v).value = (S.converters.rule tag b v).value

/-! ## The same answers give the same source -/

namespace Variant

variable {v : Variant C} {a b : RefSet}

theorem source_eq (h : ∀ r, v.refersWeakly r = true → a r = b r) :
    v.source a = v.source b := by
  unfold source
  split
  · rfl
  · rename_i r payload
    rw [h r (refersWeakly_weak payload)]
  · rfl
  · rfl
  · rfl

theorem toObject_eq (h : ∀ r, v.refersWeakly r = true → a r = b r) :
    v.toObject a = v.toObject b := by
  unfold toObject
  split
  · rename_i r payload
    rw [h r (refersWeakly_weak payload)]
  · rfl

theorem convertFrom_value_eq {K : Converters C} (h : ∀ r, v.refersWeakly r = true → a r = b r)
    (rules : ∀ tag, (K.rule tag a v).value = (K.rule tag b v).value) (t : Ty C) :
    (convertFrom K a t v).value = (convertFrom K b t v).value := by
  induction t with
  | option t ih =>
    rw [convertFrom, convertFrom]
    split
    · rfl
    · rw [Logged.value_bind, Logged.value_bind, attempt_value, attempt_value, ih]
  | caller tag =>
    rw [convertFrom, convertFrom, Logged.value_bind, Logged.value_bind, rules]
  | shared t =>
    cases t with
    | externalObject =>
      rw [convertFrom, convertFrom, toObject_eq h]
    | _ => rfl
  | _ => rfl

/-- **Where two answers to what is alive agree** on the weak references of a
variant, it converts to the same. -/
theorem convert_value_eq {K : Converters C} (h : ∀ r, v.refersWeakly r = true → a r = b r)
    (rules : ∀ tag, (K.rule tag a v).value = (K.rule tag b v).value) (t : Ty C) :
    (v.convert K a t).value = (v.convert K b t).value := by
  rw [convert, convert, attempt_value, attempt_value, convertFrom_value_eq h rules t]

/-! ## What a conversion gives holds nothing new -/

theorem holds_of_exactly? {t : Ty C} {p : Payload C} (h : v.exactly? t = some p) :
    p.holds = v.holds := by
  rw [holds, (exactly?_eq_some_iff.1 h).1]
  rfl

theorem holds_attempt {t : Ty C} {rule : Reported C (Except (CastError C) (Payload C))}
    {p : Payload C} {r : Ref}
    (step : ∀ {p}, rule.value = .ok p → p.holds r = true → v.holds r = true ∨ a r = true)
    (h : (v.attempt t rule).value = .ok p) (hr : p.holds r = true) :
    v.holds r = true ∨ a r = true := by
  rw [attempt_value] at h
  cases hx : v.exactly? t with
  | some q =>
    rw [hx] at h
    obtain rfl := Except.ok.inj h
    exact .inl (holds_of_exactly? hx ▸ hr)
  | none =>
    rw [hx] at h
    exact step h hr

theorem holds_toInt {k : IntKind} {p : Payload C} (h : v.toInt k = .ok p) :
    p.holds = RefSet.none := by
  grind [toInt, Payload.holds]

theorem holds_toFloat {K : FloatKind} {p : Payload C} (h : v.toFloat K = .ok p) :
    p.holds = RefSet.none := by
  grind [toFloat, Payload.holds]

theorem holds_toBool {p : Payload C} (h : v.toBool = .ok p) : p.holds = RefSet.none := by
  grind [toBool, Payload.holds]

theorem holds_toChar {p : Payload C} (h : v.toChar = .ok p) : p.holds = RefSet.none := by
  grind [toChar, Payload.holds]

theorem holds_toText {p : Payload C} (h : v.toText = .ok p) : p.holds = RefSet.none := by
  grind [toText, Payload.holds]

theorem holds_convertFrom {K : Converters C} {t : Ty C} {p : Payload C} {r : Ref}
    (h : (convertFrom K a t v).value = .ok p) (hr : p.holds r = true) :
    v.holds r = true ∨ a r = true := by
  have nothing : ∀ {p : Payload C}, p.holds = RefSet.none → p.holds r = true → False := by
    intro p none hr
    rw [none] at hr
    cases hr
  induction t generalizing p with
  | option t ih =>
    rw [convertFrom] at h
    split at h
    · obtain rfl := Except.ok.inj h
      cases hr
    · rw [Logged.value_bind] at h
      cases hc : (v.attempt t (convertFrom K a t v)).value with
      | ok q =>
        rw [hc] at h
        obtain rfl := Except.ok.inj h
        exact holds_attempt (fun h hr => ih h hr) hc hr
      | error e => rw [hc] at h; cases h
  | caller tag =>
    rw [convertFrom, Logged.value_bind] at h
    split at h
    · obtain rfl := Except.ok.inj h
      cases hr
    · cases h
  | shared t =>
    cases t with
    | externalObject =>
      have h : v.toObject a = .ok p := h
      unfold toObject at h
      split at h
      · rename_i s payload
        split at h
        · rename_i alive
          obtain rfl := Except.ok.inj h
          have same : r = s := by simpa [Payload.holds] using hr
          exact .inr (same ▸ alive)
        · cases h
      · cases h
    | _ => cases h
  | variant =>
    obtain rfl := Except.ok.inj h
    exact .inl hr
  | int k => exact (nothing (holds_toInt h) hr).elim
  | float K => exact (nothing (holds_toFloat h) hr).elim
  | bool => exact (nothing (holds_toBool h) hr).elim
  | char => exact (nothing (holds_toChar h) hr).elim
  | text => exact (nothing (holds_toText h) hr).elim
  | wide =>
    rw [convertFrom, Logged.value_bind] at h
    split at h
    · obtain rfl := Except.ok.inj h
      cases hr
    · cases h
  | empty =>
    have h : (if v.isEmpty then Except.ok .empty else .error (v.castError .empty)) = .ok p := h
    split at h
    · obtain rfl := Except.ok.inj h
      cases hr
    · cases h
  | _ => cases h

/-- **What a conversion gives** holds what the variant held, or what was a
weak reference and is alive. -/
theorem holds_convert {K : Converters C} {t : Ty C} {p : Payload C} {r : Ref}
    (h : (v.convert K a t).value = .ok p) (hr : p.holds r = true) :
    v.holds r = true ∨ a r = true := by
  exact holds_attempt (fun h hr => holds_convertFrom h hr) h hr

end Variant

end DynValue
