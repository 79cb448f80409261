import DynValue.Proofs.Order.Values
import DynValue.Proofs.Session.History

/-!
# The order of variants

Variants are ordered by two relations put together: where the types differ the
names of the types decide, and where they agree the relation that both
variants are bound to. Two reachable variants of one type and one kind of
order have the same binding, so a chain of variants of one type is a chain of
that one relation, and a chain that passes from one type to another one is a
chain of names.

The relation of a type is the order of referents, or no order, or the `<` of
its values. The last is a strict partial order for every type of the library
(`Ty.strictlyOrdered_of_not_mentions`). For the types that callers bring along
this is an assumption on each of them (`CallerTypes.StrictlyOrdered`), and then
the order of reachable variants is a strict partial order
(`Variant.less_strictPartialOrder`).

A list of a caller's values asks for more than their `<`, since it looks at what
is behind two values that are equal. For lists, and only for these, the
comparisons of a caller's type are taken to belong together, as those of every
type with an order are to (`Coherent`). How much of this is needed is said by
`Variant.less_iff_wellCompared`.
-/

namespace DynValue

variable {C : CallerTypes}

/-! ## Strictly ordered types -/

/-- **The `<` of the values of a type is a strict partial order.** -/
structure Ty.StrictlyOrdered (t : Ty C) : Prop where
  /-- No value is before itself. -/
  irrefl : ∀ p : Payload C, p.WellTyped → p.type = t → p.compare? p ≠ some .lt
  /-- What is before a value is before all that this value is before. -/
  trans : ∀ p q r : Payload C, p.WellTyped → q.WellTyped → r.WellTyped →
    p.type = t → q.type = t → r.type = t →
    p.compare? q = some .lt → q.compare? r = some .lt → p.compare? r = some .lt

namespace CallerTypes

/-- **The `<` of each of the caller's types is a strict partial order.** -/
structure StrictlyOrdered (C : CallerTypes) : Prop where
  /-- No value is before itself. -/
  irrefl : ∀ tag (v : C.Val tag), C.compare? tag v v ≠ some .lt
  /-- What is before a value is before all that this value is before. -/
  trans : ∀ tag (u v w : C.Val tag), C.compare? tag u v = some .lt →
    C.compare? tag v w = some .lt → C.compare? tag u w = some .lt

/-- The values of each of the caller's types compare well. -/
def WellCompared (C : CallerTypes) : Prop := ∀ tag (v : C.Val tag), ComparesWell (C.compare? tag) v

end CallerTypes

namespace Ty

theorem strictlyOrdered_of_comparesWell {t : Ty C}
    (callers : ∀ tag, t.Mentions tag → ∀ v, ComparesWell (C.compare? tag) v) :
    t.StrictlyOrdered where
  irrefl _ typed type := (Payload.comparesWell typed (type ▸ callers)).irrefl
  trans _ _ _ typed _ _ type _ _ := (Payload.comparesWell typed (type ▸ callers)).lt_trans

/-- The library's own types are strictly ordered. -/
theorem strictlyOrdered_of_not_mentions {t : Ty C} (h : ∀ tag, ¬ t.Mentions tag) :
    t.StrictlyOrdered :=
  strictlyOrdered_of_comparesWell fun tag mentions => absurd mentions (h tag)

end Ty

/-! ## Types made of a caller's types -/

/-- **A type lists a caller's type**: it is a type of sequences or of dictionaries
with values of the caller's type in them, or of what holds one of these. -/
def Ty.Lists (tag : C.Tag) : Ty C → Prop
  | option t | shared t => t.Lists tag
  | seq _ t | map _ t => t.Mentions tag
  | _ => False

namespace Payload

theorem eq_caller_of_type {p : Payload C} {tag : C.Tag} (type : p.type = .caller tag) :
    ∃ v, p = caller tag v := by
  cases p <;> cases type
  exact ⟨_, rfl⟩

theorem eq_option_of_type {p : Payload C} {t : Ty C} (type : p.type = .option t) :
    ∃ content, p = option t content := by
  cases p <;> cases type
  exact ⟨_, rfl⟩

theorem eq_shared_of_type {p : Payload C} {t : Ty C} (type : p.type = .shared t) :
    (∃ r q, p = shared r q ∧ q.type = t) ∨ ∃ r, p = object r := by
  cases p <;> cases type
  · exact .inl ⟨_, _, rfl, rfl⟩
  · exact .inr ⟨_, rfl⟩

end Payload

namespace Ty.StrictlyOrdered

variable {t : Ty C}

/-- A caller's own type. -/
theorem caller (ordered : C.StrictlyOrdered) (tag : C.Tag) : (Ty.caller tag).StrictlyOrdered where
  irrefl p _ type := by
    obtain ⟨v, rfl⟩ := Payload.eq_caller_of_type type
    simpa [Payload.compare?] using ordered.irrefl tag v
  trans p q r _ _ _ hp hq hr first second := by
    obtain ⟨u, rfl⟩ := Payload.eq_caller_of_type hp
    obtain ⟨v, rfl⟩ := Payload.eq_caller_of_type hq
    obtain ⟨w, rfl⟩ := Payload.eq_caller_of_type hr
    simp only [Payload.compare?, dite_true] at first second ⊢
    exact ordered.trans tag u v w first second

/-- Nothing comes before something. -/
theorem option (h : t.StrictlyOrdered) : (Ty.option t).StrictlyOrdered where
  irrefl p typed type := by
    obtain ⟨- | q, rfl⟩ := Payload.eq_option_of_type type
    · exact nofun
    · exact h.irrefl q typed.1 (typed.2 q rfl)
  trans p q r tp tq tr hp hq hr first second := by
    obtain ⟨content, rfl⟩ := Payload.eq_option_of_type hp
    obtain ⟨content', rfl⟩ := Payload.eq_option_of_type hq
    obtain ⟨- | r, rfl⟩ := Payload.eq_option_of_type hr
    · cases content' <;> cases second
    · cases content with
      | none => rfl
      | some p =>
        cases content' with
        | none => cases first
        | some q =>
          exact h.trans p q r tp.1 tq.1 tr.1 (tp.2 p rfl) (tq.2 q rfl) (tr.2 r rfl) first second

/-- A shared value is compared as the value is, and an object with nothing. -/
theorem shared (h : t.StrictlyOrdered) : (Ty.shared t).StrictlyOrdered where
  irrefl p typed type := by
    obtain ⟨_, q, rfl, inner⟩ | ⟨_, rfl⟩ := Payload.eq_shared_of_type type
    · exact h.irrefl q typed inner
    · exact nofun
  trans p q r tp tq tr hp hq hr first second := by
    obtain ⟨_, p', rfl, inner⟩ | ⟨_, rfl⟩ := Payload.eq_shared_of_type hp
    · obtain ⟨_, q', rfl, inner'⟩ | ⟨_, rfl⟩ := Payload.eq_shared_of_type hq
      · obtain ⟨_, r', rfl, inner''⟩ | ⟨_, rfl⟩ := Payload.eq_shared_of_type hr
        · exact h.trans p' q' r' tp tq tr inner inner' inner'' first second
        · cases second
      · cases first
    · cases q <;> cases first

/-- A weak reference is compared with nothing. -/
theorem weak (t : Ty C) : (Ty.weak t).StrictlyOrdered where
  irrefl p _ type := by
    cases p <;> cases type
    exact nofun
  trans p q r _ _ _ type _ _ first _ := by
    cases p <;> cases type
    cases q <;> cases first

/-- A bare run of values is nothing that a variant could hold. -/
theorem slice (t : Ty C) : (Ty.slice t).StrictlyOrdered where
  irrefl p _ type := by cases p <;> cases type
  trans p q r _ _ _ type := by cases p <;> cases type

end Ty.StrictlyOrdered

/-- **A type is strictly ordered** if the caller's types are, and if the comparisons
belong together of those that it lists. -/
theorem CallerTypes.StrictlyOrdered.type (ordered : C.StrictlyOrdered) {t : Ty C}
    (listed : ∀ tag, t.Lists tag → Coherent (C.compare? tag)) : t.StrictlyOrdered := by
  have of_mentions {t : Ty C} (coherent : ∀ tag, t.Mentions tag → Coherent (C.compare? tag)) :
      t.StrictlyOrdered :=
    t.strictlyOrdered_of_comparesWell fun tag mentions =>
      .of_coherent (coherent tag mentions) (ordered.irrefl tag) (ordered.trans tag)
  induction t with
  | caller tag => exact .caller ordered tag
  | option t ih => exact (ih listed).option
  | shared t ih => exact (ih listed).shared
  | seq k t | map k t => exact of_mentions listed
  | weak t => exact .weak t
  | slice t => exact .slice t
  | _ => exact Ty.strictlyOrdered_of_not_mentions fun _ => id

/-- Where the values of the caller's types compare well all types are strictly
ordered. -/
theorem CallerTypes.WellCompared.type (callers : C.WellCompared) (t : Ty C) :
    t.StrictlyOrdered :=
  t.strictlyOrdered_of_comparesWell fun tag _ => callers tag

namespace Ty

variable {s t u : Ty C}

theorem before_irrefl : t.before t = false :=
  decide_eq_false (String.lt_irrefl _)

theorem before_trans (hst : s.before t = true) (htu : t.before u = true) :
    s.before u = true :=
  decide_eq_true (String.lt_trans (of_decide_eq_true hst) (of_decide_eq_true htu))

end Ty

/-! ## Lists of a caller's values -/

/-- A list of values of one of the caller's types. -/
def Payload.ofCaller (tag : C.Tag) (vs : List (C.Val tag)) : Payload C :=
  .seq .vector (.caller tag) (vs.map (.caller tag))

theorem Payload.ofCaller_attainable (tag : C.Tag) (vs : List (C.Val tag)) :
    (Payload.ofCaller tag vs).Attainable := by
  refine .seq .vector (fun p member => ?_) (fun p member => ?_)
  · obtain ⟨v, -, rfl⟩ := List.mem_map.1 member
    exact .caller tag v
  · obtain ⟨v, -, rfl⟩ := List.mem_map.1 member
    rfl

theorem Payload.ofCaller_compare? (tag : C.Tag) (vs ws : List (C.Val tag)) :
    (Payload.ofCaller tag vs).compare? (.ofCaller tag ws)
      = compareItems (C.compare? tag) vs ws := by
  rw [ofCaller, ofCaller, compare?, compareList_eq, compareItems_map]
  simp [compare?]

namespace OrderKind

variable {k : OrderKind} {p q r : Payload C}

theorem Relates.irrefl (ordered : p.type.StrictlyOrdered) (typed : p.WellTyped) :
    ¬ k.Relates p p := by
  cases k with
  | unordered => exact id
  | native => exact ordered.irrefl p typed rfl
  | identity =>
    rintro ⟨r, hr, s, hs, less⟩
    cases Option.mem_unique hr hs
    exact absurd less (Nat.lt_irrefl r)

theorem Relates.trans (ordered : p.type.StrictlyOrdered)
    (hp : p.WellTyped) (hq : q.WellTyped) (hr : r.WellTyped)
    (hpq : p.type = q.type) (hqr : q.type = r.type)
    (first : k.Relates p q) (second : k.Relates q r) : k.Relates p r := by
  cases k with
  | unordered => exact first
  | native =>
    exact ordered.trans p q r hp hq hr rfl hpq.symm (hpq.trans hqr).symm first second
  | identity =>
    obtain ⟨a, ha, b, hb, less⟩ := first
    obtain ⟨b', hb', c, hc, less'⟩ := second
    cases Option.mem_unique hb hb'
    exact ⟨a, ha, c, hc, Nat.lt_trans less less'⟩

end OrderKind

namespace Variant

variable {v w u : Variant C}

/-! ## The two ways to be less -/

/-- **Less by value**: both variants have a value, of one type and under one
kind of order, and this relates the two. -/
def LessByValue (v w : Variant C) : Prop :=
  ∃ p q, v.payload = some p ∧ w.payload = some q ∧ p.type = q.type
    ∧ v.binding.kind = w.binding.kind ∧ v.binding.kind.Relates p q

theorem LessByValue.type_eq (h : v.LessByValue w) : v.type = w.type := by
  obtain ⟨p, q, hp, hq, type, -⟩ := h
  rw [type_of_payload hp, type_of_payload hq, type]

/-- **Variants that are bound at their types are less** by value or by the
name of their types. -/
theorem WellBound.less_iff_or (hv : v.WellBound) (hw : w.WellBound) :
    v.less w = true ↔ v.LessByValue w ∨ v.type.before w.type = true := by
  cases hp : v.payload with
  | none =>
    have no_value : ¬ v.LessByValue w := by simp [LessByValue, hp]
    cases hq : w.payload with
    | none => simp [less, type, hp, hq, no_value, Ty.before_irrefl]
    | some q => simp [less, hp, hq, no_value]
  | some p =>
    cases hq : w.payload with
    | none => simp [less, hp, hq, LessByValue]
    | some q =>
      by_cases type : v.type = w.type
      · by_cases kind : v.binding.kind = w.binding.kind
        · rw [(hv.less_iff hw hp hq type kind).2.2, type, Ty.before_irrefl]
          rw [type_of_payload hp, type_of_payload hq] at type
          simp [LessByValue, hp, hq, type, kind]
        · have payloads := type
          rw [type_of_payload hp, type_of_payload hq] at payloads
          simp [less, Binding.less, LessByValue, hp, hq, payloads, kind, type, Ty.before_irrefl]
      · rw [type_of_payload hp, type_of_payload hq] at type ⊢
        simp [less, LessByValue, hp, hq, type]

/-! ## The main statement -/

theorem LessByValue.irrefl (ordered : v.type.StrictlyOrdered) (hv : v.Reachable) :
    ¬ v.LessByValue v := by
  rintro ⟨p, q, hp, hq, -, -, relates⟩
  cases hp.symm.trans hq
  rw [type_of_payload hp] at ordered
  exact relates.irrefl ordered (hv.wellTyped hp)

theorem LessByValue.trans (ordered : v.type.StrictlyOrdered) (hv : v.Reachable)
    (hw : w.Reachable) (hu : u.Reachable) (first : v.LessByValue w) (second : w.LessByValue u) :
    v.LessByValue u := by
  obtain ⟨p, q, hp, hq, type, kind, relates⟩ := first
  obtain ⟨q', r, hq', hr, type', kind', relates'⟩ := second
  cases hq.symm.trans hq'
  rw [type_of_payload hp] at ordered
  rw [← kind] at relates'
  exact ⟨p, r, hp, hr, type.trans type', kind.trans kind',
    relates.trans ordered (hv.wellTyped hp) (hw.wellTyped hq) (hu.wellTyped hr)
      type type' relates'⟩

theorem Reachable.less_irrefl (ordered : v.type.StrictlyOrdered) (hv : v.Reachable) :
    v.less v = false := by
  rw [Bool.eq_false_iff, Ne, hv.wellBound.less_iff_or hv.wellBound, Ty.before_irrefl]
  rintro (value | name)
  · exact value.irrefl ordered hv
  · cases name

theorem Reachable.less_trans (ordered : v.type.StrictlyOrdered) (hv : v.Reachable)
    (hw : w.Reachable) (hu : u.Reachable) (first : v.less w = true) (second : w.less u = true) :
    v.less u = true := by
  rw [hv.wellBound.less_iff_or hu.wellBound]
  rcases (hv.wellBound.less_iff_or hw.wellBound).1 first with value | name <;>
    rcases (hw.wellBound.less_iff_or hu.wellBound).1 second with value' | name'
  · exact .inl (value.trans ordered hv hw hu value')
  · exact .inr (value.type_eq ▸ name')
  · exact .inr (value'.type_eq ▸ name)
  · exact .inr (Ty.before_trans name name')

/-- Natively stored lists of a caller's values are compared as lists of these. -/
theorem native_ofCaller_less_iff (tag : C.Tag) (vs ws : List (C.Val tag)) :
    (native (.ofCaller tag vs)).less (native (.ofCaller tag ws)) = true
      ↔ compareItems (C.compare? tag) vs ws = some .lt := by
  rw [← Payload.ofCaller_compare?]
  simp [native, Payload.ofCaller, storeNative, less, Binding.less, Binding.relates, Payload.type]

/-- **The order of reachable variants is irreflexive and transitive exactly if the
values of the caller's types compare well**: lists of them are among what
variants hold. -/
theorem less_iff_wellCompared :
    C.WellCompared
      ↔ (∀ v : Variant C, v.Reachable → v.less v = false)
        ∧ ∀ v w u : Variant C, v.Reachable → w.Reachable → u.Reachable →
          v.less w = true → w.less u = true → v.less u = true := by
  refine ⟨fun callers => ⟨fun v hv => hv.less_irrefl (callers.type v.type),
    fun v w u hv hw hu => hv.less_trans (callers.type v.type) hw hu⟩, ?_⟩
  rintro ⟨irrefl, trans⟩ tag
  have reachable (vs : List (C.Val tag)) : (native (.ofCaller tag vs)).Reachable :=
    reachable_native (Payload.ofCaller_attainable tag vs)
  refine comparesWell_iff_items.2 ⟨fun vs less => ?_, fun vs ws us first second => ?_⟩
  · rw [← native_ofCaller_less_iff, irrefl _ (reachable vs)] at less
    cases less
  · rw [← native_ofCaller_less_iff] at first second ⊢
    exact trans _ _ _ (reachable vs) (reachable ws) (reachable us) first second

end Variant

end DynValue
