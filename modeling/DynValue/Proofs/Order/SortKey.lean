import DynValue.Proofs.Order.Variants
import Mathlib.Data.Set.Basic
import Mathlib.Data.String.Basic
import Mathlib.Order.RelIso.Basic

/-!
# Variants as sort keys

A sort needs more of an order than that it is a strict partial one: what is not
less either way has to be alike, so that it forms classes. The order of variants
does not do this in general, since the same type may be bound in two ways and a
float may be no number. On a collection where every type is bound in one way, and
where that is the `<` of the type this is a strict weak order of the values that
are there (`Variant.UniformlyBound`), it does (`Variant.less_strictWeakOrder`).

The order is put together from the names of the types, which is linear, and for
each type from one of three relations: no order has one class, the order of
referents has one for every referent, and the `<` of the type has its own. So there
is one general statement, about an order by a key and within the fibres of the key
(`StrictWeakOn.of_fibres`), and one small one for each kind of binding.
-/

namespace DynValue

/-! ## Strict weak orders of some things -/

/-- **A relation is a strict weak order of the members of a set.** -/
def StrictWeakOn {α : Type} (lt : α → α → Prop) (s : Set α) : Prop :=
  IsStrictWeakOrder s fun a b => lt a b

/-- Neither of two things is less. -/
def Incomparable {α : Type} (lt : α → α → Prop) (a b : α) : Prop := ¬ lt a b ∧ ¬ lt b a

namespace StrictWeakOn

variable {α β : Type} {lt : α → α → Prop} {s : Set α}

/-- Where nothing is less, all is alike. -/
theorem of_not_lt (none : ∀ a ∈ s, ∀ b ∈ s, ¬ lt a b) : StrictWeakOn lt s where
  irrefl a := none a a.2 a a.2
  trans a b _ less := absurd less (none a a.2 b b.2)
  incomp_trans a _ c _ _ := ⟨none a a.2 c c.2, none c c.2 a a.2⟩

/-- **What is compared by something else** is ordered as this is. -/
theorem comap {lt' : β → β → Prop} {s' : Set β} (h : StrictWeakOn lt' s') (f : s → s')
    (same : ∀ a b : s, lt a b ↔ lt' (f a) (f b)) : StrictWeakOn lt s := by
  have : IsStrictWeakOrder s' (fun a b => lt' a b) := h
  have along : (fun a b : s => lt a b) = Order.Preimage f fun a b : s' => lt' a b :=
    funext fun a => funext fun b => propext (same a b)
  rw [StrictWeakOn, along]
  exact Order.Preimage.instIsStrictWeakOrder

/-- What is compared by a key in a linear order is ordered. -/
theorem of_key [LinearOrder β] (key : s → β) (same : ∀ a b : s, lt a b ↔ key a < key b) :
    StrictWeakOn lt s where
  irrefl a less := lt_irrefl _ ((same a a).1 less)
  trans a b c hab hbc := (same a c).2 (((same a b).1 hab).trans ((same b c).1 hbc))
  incomp_trans a b c := by
    rw [same, same, same, same, same, same]
    rintro ⟨hab, hba⟩ ⟨hbc, hcb⟩
    exact ⟨not_lt.2 ((not_lt.1 hbc).trans (not_lt.1 hab)),
      not_lt.2 ((not_lt.1 hba).trans (not_lt.1 hcb))⟩

/-- **An order by a key, and within the fibres of the key.** -/
theorem of_fibres [LinearOrder β] (key : α → β)
    (across : ∀ a ∈ s, ∀ b ∈ s, key a ≠ key b → (lt a b ↔ key a < key b))
    (within : ∀ k, StrictWeakOn lt {a | a ∈ s ∧ key a = k}) : StrictWeakOn lt s := by
  have fibre (a : s) : a.1 ∈ {b | b ∈ s ∧ key b = key a} := ⟨a.2, rfl⟩
  -- within one fibre the laws are those of the fibre, between two of them those of the keys
  have alike (a b : s) (h : ¬ lt a b ∧ ¬ lt b a) : key b = key a := by
    by_contra other
    rcases lt_or_gt_of_ne other with less | less
    · exact h.2 ((across b b.2 a a.2 other).2 less)
    · exact h.1 ((across a a.2 b b.2 (Ne.symm other)).2 less)
  refine { irrefl := fun a => ?_, trans := fun a b c hab hbc => ?_,
           incomp_trans := fun a b c hab hbc => ?_ }
  · exact (within (key a)).irrefl ⟨a, fibre a⟩
  · have upwards (a b : s) (h : lt a b) : key a ≤ key b := by
      by_contra less
      exact absurd ((across a a.2 b b.2 fun same => less same.le).1 h) (fun h => less h.le)
    rcases (upwards a b hab).lt_or_eq with less | same
    · have below : key a < key c := less.trans_le (upwards b c hbc)
      exact (across a a.2 c c.2 below.ne).2 below
    · rcases (upwards b c hbc).lt_or_eq with less | same'
      · have below : key a < key c := same ▸ less
        exact (across a a.2 c c.2 below.ne).2 below
      · exact (within (key a)).trans ⟨a, fibre a⟩ ⟨b, b.2, same.symm⟩
          ⟨c, c.2, (same.trans same').symm⟩ hab hbc
  · have same := alike a b hab
    have same' := alike b c hbc
    exact (within (key a)).incomp_trans ⟨a, fibre a⟩ ⟨b, b.2, same⟩
      ⟨c, c.2, same'.trans same⟩ hab hbc

end StrictWeakOn

variable {C : CallerTypes}

/-! ## Values -/

/-- One value is less than another one by the `<` of their type. -/
def Payload.Less (p q : Payload C) : Prop := p.compare? q = some .lt

/-- **Floats are weakly ordered by their `<`** if all of them are numbers. -/
theorem Payload.strictWeakOn_floats {K : FloatKind} {s : Set (Fp K)}
    (numbers : ∀ x ∈ s, x.place?.isSome) :
    StrictWeakOn Less (float (C := C) K '' s) := by
  have exists_place (p : float (C := C) K '' s) : ∃ (n : Int) (x : Fp K), p.1 = float K x ∧
      x.place? = some n := by
    obtain ⟨-, x, mem, rfl⟩ := p
    exact (Option.isSome_iff_exists.1 (numbers x mem)).imp fun n hn => ⟨x, rfl, hn⟩
  choose place x held at_place using exists_place
  refine .of_key place fun p q => ?_
  rw [Less, held, held, compare?, Fp.compare?, at_place, at_place]
  simp [compare_lt_iff_lt]

/-! ## Uniformly bound variants -/

namespace Variant

/-- **Variants that are bound uniformly**: all of one type in one way, and where
this is the `<` of the type, it is a strict weak order of the values there. Names
of types are as good as types. -/
structure UniformlyBound (vs : Set (Variant C)) : Prop where
  reachable : ∀ v ∈ vs, v.Reachable
  kind_eq : ∀ v ∈ vs, ∀ w ∈ vs, v.type = w.type → v.binding.kind = w.binding.kind
  native : ∀ t : Ty C, StrictWeakOn Payload.Less
    {p | ∃ v ∈ vs, v.payload = some p ∧ p.type = t ∧ v.binding.kind = .native}
  type_eq : ∀ v ∈ vs, ∀ w ∈ vs, v.type.name = w.type.name → v.type = w.type

/-- Less, as a relation. -/
def Less (v w : Variant C) : Prop := v.less w = true

variable {vs : Set (Variant C)} {v w : Variant C}

/-- A variant that is bound to an order has a value. -/
theorem WellBound.exists_payload (h : v.WellBound) (ordered : v.binding.kind ≠ .unordered) :
    ∃ p, v.payload = some p := by
  cases held : v.payload with
  | none => exact absurd (congrArg Binding.kind (h.unordered held)) ordered
  | some p => exact ⟨p, rfl⟩

/-- **Two variants of one type and one kind of order** are less by what the kind
relates, if they have values. -/
theorem WellBound.less_iff_of_type (hv : v.WellBound) (hw : w.WellBound) (type : v.type = w.type)
    (kind : v.binding.kind = w.binding.kind) :
    v.Less w ↔ ∃ p q, v.payload = some p ∧ w.payload = some q ∧ v.binding.kind.Relates p q := by
  rw [Less, hv.less_iff_or hw, type, Ty.before_irrefl]
  constructor
  · rintro (⟨p, q, hp, hq, -, -, relates⟩ | none)
    · exact ⟨p, q, hp, hq, relates⟩
    · cases none
  · rintro ⟨p, q, hp, hq, relates⟩
    rw [type_of_payload hp, type_of_payload hq] at type
    exact .inl ⟨p, q, hp, hq, type, kind, relates⟩

/-- Two variants of different types are less by the names of their types. -/
theorem WellBound.less_iff_name (hv : v.WellBound) (hw : w.WellBound) (other : v.type ≠ w.type) :
    v.Less w ↔ v.type.name < w.type.name := by
  rw [Less, hv.less_iff_or hw, Ty.before, decide_eq_true_iff]
  exact or_iff_right fun value => other value.type_eq

/-- **Variants of one type without an order** are alike. -/
theorem incomparable_of_unordered (type : v.type = w.type)
    (unordered : v.binding = .unordered) (unordered' : w.binding = .unordered) :
    Incomparable Less v w := by
  cases hp : v.payload <;> cases hq : w.payload <;> rw [Variant.type, Variant.type, hp, hq] at type
  all_goals
    simp [Incomparable, Less, less, Variant.type, hp, hq, unordered, unordered', Binding.less,
      Binding.relates, type, Ty.before_irrefl]

/-- So are variants without a value. -/
theorem incomparable_of_isEmpty (hv : v.isEmpty = true) (hw : w.isEmpty = true) :
    Incomparable Less v w := by
  rw [isEmpty, Option.isNone_iff_eq_none] at hv hw
  simp [Incomparable, Less, less, hv, hw]

/-- **References that are bound by identity** are less by their referents. -/
theorem WellBound.less_iff_referents (hv : v.WellBound) (hw : w.WellBound)
    (type : v.type = w.type) (identity : v.binding.kind = .identity)
    (identity' : w.binding.kind = .identity) :
    ∃ p q r s, v.payload = some p ∧ w.payload = some q ∧ p.referent? = some r
      ∧ q.referent? = some s ∧ (v.Less w ↔ r < s) := by
  obtain ⟨p, hp⟩ := hv.exists_payload (by rw [identity]; rintro ⟨⟩)
  obtain ⟨q, hq⟩ := hw.exists_payload (by rw [identity']; rintro ⟨⟩)
  obtain ⟨r, hr⟩ := Option.isSome_iff_exists.1 ((hv.accepts hp).referent?_isSome identity)
  obtain ⟨s, hs⟩ := Option.isSome_iff_exists.1 ((hw.accepts hq).referent?_isSome identity')
  refine ⟨p, q, r, s, hp, hq, hr, hs, ?_⟩
  rw [hv.less_iff_of_type hw type (identity.trans identity'.symm), identity]
  simp [hp, hq, hr, hs, OrderKind.Relates]

/-- Values that are bound by their type's own `<` are less by it. -/
theorem WellBound.less_iff_values (hv : v.WellBound) (hw : w.WellBound) (type : v.type = w.type)
    (native : v.binding.kind = .native) (native' : w.binding.kind = .native) {p q : Payload C}
    (hp : v.payload = some p) (hq : w.payload = some q) : v.Less w ↔ p.Less q := by
  rw [hv.less_iff_of_type hw type (native.trans native'.symm), native]
  simp [hp, hq, OrderKind.Relates, Payload.Less]

namespace UniformlyBound

/-- **Within one type** the order is that of the kind that all are bound to. -/
theorem strictWeakOn_type (h : UniformlyBound vs) (name : String) :
    StrictWeakOn Less {v | v ∈ vs ∧ v.type.name = name} := by
  have bound {v} (mem : v ∈ {v | v ∈ vs ∧ v.type.name = name}) : v.WellBound :=
    (h.reachable v mem.1).wellBound
  have type {v w} (hv : v ∈ {v | v ∈ vs ∧ v.type.name = name})
      (hw : w ∈ {v | v ∈ vs ∧ v.type.name = name}) : v.type = w.type :=
    h.type_eq v hv.1 w hw.1 (hv.2.trans hw.2.symm)
  have kind {v w} (hv : v ∈ {v | v ∈ vs ∧ v.type.name = name})
      (hw : w ∈ {v | v ∈ vs ∧ v.type.name = name}) : v.binding.kind = w.binding.kind :=
    h.kind_eq v hv.1 w hw.1 (type hv hw)
  rcases Set.eq_empty_or_nonempty {v | v ∈ vs ∧ v.type.name = name} with none | ⟨u, hu⟩
  · rw [none]
    exact .of_not_lt fun v mem => absurd mem (Set.notMem_empty v)
  · cases hk : u.binding.kind with
    | unordered =>
      have unordered {v} (hv : v ∈ {v | v ∈ vs ∧ v.type.name = name}) : v.binding = .unordered :=
        Binding.eq_unordered ((kind hv hu).trans hk)
      exact .of_not_lt fun v hv w hw =>
        (incomparable_of_unordered (type hv hw) (unordered hv) (unordered hw)).1
    | identity =>
      refine .of_key (fun v => (v.1.payload.bind Payload.referent?).getD 0) fun v w => ?_
      obtain ⟨p, q, r, s, hp, hq, hr, hs, less⟩ := (bound v.2).less_iff_referents (bound w.2)
        (type v.2 w.2) ((kind v.2 hu).trans hk) ((kind w.2 hu).trans hk)
      rw [less, hp, hq, Option.bind_some, Option.bind_some, hr, hs, Option.getD_some,
        Option.getD_some]
    | native =>
      have native (v : {v | v ∈ vs ∧ v.type.name = name}) : v.1.binding.kind = .native :=
        (kind v.2 hu).trans hk
      have exists_value (v : {v | v ∈ vs ∧ v.type.name = name}) : ∃ p, v.1.payload = some p :=
        (bound v.2).exists_payload (by rw [native v]; rintro ⟨⟩)
      choose value held using exists_value
      refine (h.native u.type).comap (fun v => ⟨value v, v.1, v.2.1, held v,
        (type_of_payload (held v)).symm.trans (type v.2 hu), native v⟩) fun v w => ?_
      exact (bound v.2).less_iff_values (bound w.2) (type v.2 w.2) (native v) (native w)
        (held v) (held w)

/-- **The whole collection** is ordered by the names of the types, and then within
each type. -/
theorem strictWeakOn (h : UniformlyBound vs) : StrictWeakOn Less vs := by
  refine .of_fibres (fun v => v.type.name) (fun v hv w hw other => ?_) h.strictWeakOn_type
  exact (h.reachable v hv).wellBound.less_iff_name (h.reachable w hw).wellBound
    fun same => other (congrArg Ty.name same)

/-- Two variants of different types are never alike. -/
theorem not_incomparable (h : UniformlyBound vs) (hv : v ∈ vs) (hw : w ∈ vs)
    (other : v.type ≠ w.type) : ¬ Incomparable Less v w := by
  have bound := (h.reachable v hv).wellBound
  have bound' := (h.reachable w hw).wellBound
  rw [Incomparable, bound.less_iff_name bound' other, bound'.less_iff_name bound other.symm]
  rcases lt_or_gt_of_ne (fun same => other (h.type_eq v hv w hw same)) with less | less
  · exact fun alike => alike.1 less
  · exact fun alike => alike.2 less

/-- **References bound by identity are alike** if they have one referent. -/
theorem incomparable_iff_referent?_eq (h : UniformlyBound vs) (hv : v ∈ vs) (hw : w ∈ vs)
    (type : v.type = w.type) (identity : v.binding.kind = .identity) :
    Incomparable Less v w
      ↔ v.payload.bind Payload.referent? = w.payload.bind Payload.referent? := by
  have identity' := (h.kind_eq v hv w hw type).symm.trans identity
  have bound := (h.reachable v hv).wellBound
  have bound' := (h.reachable w hw).wellBound
  obtain ⟨p, q, r, s, hp, hq, hr, hs, less⟩ :=
    bound.less_iff_referents bound' type identity identity'
  obtain ⟨q', p', s', r', hq', hp', hs', hr', less'⟩ :=
    bound'.less_iff_referents bound type.symm identity' identity
  cases hp.symm.trans hp'
  cases hq.symm.trans hq'
  cases hr.symm.trans hr'
  cases hs.symm.trans hs'
  rw [Incomparable, less, less', hp, hq, Option.bind_some, Option.bind_some, hr, hs,
    Option.some_inj]
  constructor
  · rintro ⟨left, right⟩
    exact Nat.le_antisymm (Nat.not_lt.1 right) (Nat.not_lt.1 left)
  · rintro rfl
    exact ⟨Nat.lt_irrefl r, Nat.lt_irrefl r⟩

end UniformlyBound

/-! ## The main statement -/

/-- **On variants that are bound uniformly the order is a strict weak order**, so it
can be sorted by. Variants of different types are never alike; variants without a
value are, and values of one type without an order. References bound by identity
are alike if they have one referent. -/
theorem less_strictWeakOrder (h : UniformlyBound vs) :
    StrictWeakOn Less vs
    ∧ (∀ v ∈ vs, ∀ w ∈ vs, v.type ≠ w.type → ¬ Incomparable Less v w)
    ∧ (∀ v w : Variant C, v.isEmpty = true → w.isEmpty = true → Incomparable Less v w)
    ∧ (∀ v w : Variant C, v.type = w.type → v.binding = .unordered → w.binding = .unordered →
        Incomparable Less v w)
    ∧ ∀ v ∈ vs, ∀ w ∈ vs, v.type = w.type → v.binding.kind = .identity →
        (Incomparable Less v w
          ↔ v.payload.bind Payload.referent? = w.payload.bind Payload.referent?) :=
  ⟨h.strictWeakOn, fun _ hv _ hw => h.not_incomparable hv hw,
    fun _ _ => incomparable_of_isEmpty, fun _ _ => incomparable_of_unordered,
    fun _ hv _ hw => h.incomparable_iff_referent?_eq hv hw⟩

/-- Variants of several types: floats by their `<`, references by their referents, and
others without an order. -/
def assorted : List (Variant .none) :=
  [native (.float .double (.zero .double false)), native (.float .double (.inf true)),
    native (.float .double (.zero .double true)), ofObject 1, ofObject 0, ofObject 1, empty,
    unordered .empty, unordered (.seq .vector .variant [])]

theorem assorted_uniformlyBound : UniformlyBound {v | v ∈ assorted} where
  reachable v mem := by
    have native (x : Fp .double) : (native (.float (C := .none) .double x)).Reachable :=
      reachable_native (.float .double x)
    have object (r : Ref) : (ofObject (C := .none) r).Reachable :=
      reachable_iff.2 ⟨.ofObject r, by rintro p ⟨⟩, rfl⟩
    simp only [assorted, Set.mem_ofPred_eq, List.mem_cons, List.not_mem_nil, or_false] at mem
    rcases mem with rfl | rfl | rfl | rfl | rfl | rfl | rfl | rfl | rfl
    · exact native _
    · exact native _
    · exact native _
    · exact object 1
    · exact object 0
    · exact object 1
    · exact reachable_iff.2 ⟨.empty, by rintro p ⟨⟩, rfl⟩
    · exact reachable_unordered .empty
    · exact reachable_unordered (.seq .vector (by rintro p ⟨⟩) (by rintro p ⟨⟩))
  kind_eq := by
    show ∀ v ∈ assorted, ∀ w ∈ assorted, _
    decide +kernel
  native t := by
    have numbers : StrictWeakOn Payload.Less
        (Payload.float (C := .none) .double '' {x | x.place?.isSome = true}) :=
      Payload.strictWeakOn_floats fun x number => number
    refine numbers.comap (fun p => ⟨p.1, ?_⟩) fun _ _ => Iff.rfl
    obtain ⟨p, v, mem, held, -, native⟩ := p
    simp only [assorted, Set.mem_ofPred_eq, List.mem_cons, List.not_mem_nil, or_false] at mem
    rcases mem with rfl | rfl | rfl | rfl | rfl | rfl | rfl | rfl | rfl <;> cases native <;>
      cases held <;> exact ⟨_, rfl, rfl⟩
  type_eq := by
    show ∀ v ∈ assorted, ∀ w ∈ assorted, _
    decide +kernel

/-- The two zeros are alike, and so are the two variants that report the empty type; two
references are not alike if their referents differ. -/
theorem less_strictWeakOrder_assorted :
    StrictWeakOn Less {v | v ∈ assorted}
    ∧ Incomparable Less (empty : Variant .none) (unordered .empty)
    ∧ ¬ Incomparable Less (ofObject 0 : Variant .none) (ofObject 1)
    ∧ ¬ Incomparable Less (ofObject 0 : Variant .none) empty := by
  obtain ⟨weak, types, -, alike, identity⟩ := less_strictWeakOrder assorted_uniformlyBound
  have object (r : Ref) (mem : r = 0 ∨ r = 1) : ofObject (C := .none) r ∈ {v | v ∈ assorted} := by
    rcases mem with rfl | rfl <;> simp [assorted]
  refine ⟨weak, alike empty (unordered .empty) rfl rfl rfl, ?_,
    types _ (object 0 (.inl rfl)) _ ?_ ?_⟩
  · rw [identity _ (object 0 (.inl rfl)) _ (object 1 (.inr rfl)) rfl rfl]
    rintro ⟨⟩
  · simp [assorted]
  · rintro ⟨⟩

end Variant

end DynValue
