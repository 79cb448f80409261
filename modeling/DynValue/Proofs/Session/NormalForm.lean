import DynValue.Proofs.Session.History

/-!
# The form in which values are kept

Text is kept as owned text, and a variant without a value keeps nothing: wide
text and the marker of the empty type are not among the values that a variant
should be found to hold (`Payload.Normal`). Storing with the type's own order
sees to this. Storing without an order does not, and it is the only way around
it: where such a value is held after some history, the contents of the slot go
back to a construction that stored exactly this value without an order, or to
one that was given a variant made so (`Construction.StoresUnordered`).

The two values differ in what follows. Wide text is of a type that no other
query expects to be stored. The marker makes a variant that holds something
report the type of one that holds nothing, so that the reported type decides
whether a variant is empty for every variant but this one
(`Variant.isEmpty_iff_type`).
-/

namespace DynValue

variable {C : CallerTypes}

/-! ## Normal payloads -/

/-- **A value in the form in which variants keep it**: no wide text, and not
the marker of the empty type. -/
def Payload.Normal (p : Payload C) : Prop := p.type ≠ .wide ∧ p.type ≠ .empty

instance (p : Payload C) : Decidable p.Normal := inferInstanceAs (Decidable (_ ∧ _))

namespace Variant

/-- A variant that holds nothing, or a value in the form in which variants keep
it. -/
def Normal (v : Variant C) : Prop := ∀ p ∈ v.payload, p.Normal

theorem empty_normal : (empty : Variant C).Normal := nofun

theorem storeNative_normal {p : Payload C} (h : p.Normal) : (storeNative p).Normal := by
  rintro _ ⟨⟩
  exact h

/-- **Storing with the type's own order** brings every value into this form. -/
theorem native_normal (p : Payload C) : (native p).Normal := by
  cases p with
  | empty => exact empty_normal
  | _ => exact storeNative_normal ⟨nofun, nofun⟩

/-! ## Emptiness and the type reported -/

/-- **The type reported decides whether a variant is empty**, unless the marker
of the empty type is held. -/
theorem isEmpty_iff_type (v : Variant C) :
    (v.isEmpty = true ↔ v.type = .empty) ↔ v.payload ≠ some .empty := by
  obtain ⟨content, binding⟩ := v
  cases content with
  | none => exact iff_of_true (iff_of_true rfl rfl) nofun
  | some p =>
    cases p with
    | empty => exact iff_of_false (fun h => Bool.false_ne_true (h.2 rfl)) (absurd rfl)
    | _ => exact iff_of_true (iff_of_false nofun nofun) nofun

theorem Normal.payload_ne_empty {v : Variant C} (h : v.Normal) : v.payload ≠ some .empty :=
  fun held => (h .empty held).2 rfl

end Variant

/-! ## Constructions -/

/-- **A construction stores a value without an order**: as it was given, from a
variant that was made so, or from options around one of these. -/
inductive Construction.StoresUnordered : Construction C → Payload C → Prop
  | unordered (p : Payload C) : StoresUnordered (.unordered p) p
  | variant {c : Construction C} {p : Payload C} (inner : StoresUnordered c p) :
    StoresUnordered (.ofValue c.build.toPayload) p
  | option {t : Ty C} {q p : Payload C} (inner : StoresUnordered (.ofValue q) p) :
    StoresUnordered (.ofValue (.option t (some q))) p

namespace Construction

variable {c : Construction C} {p : Payload C}

/-- What is stored without an order is stored as it is. -/
theorem StoresUnordered.payload_eq (h : c.StoresUnordered p) : c.build.payload = some p := by
  induction h with
  | unordered p => rfl
  | variant inner ih => exact ih
  | option inner ih => exact ih

/-- A construction that is no storing of a value of any type, or one with the
type's own order, stores a value in normal form. What remains is a storing
without an order, or of a value by the constructor that suits its type. -/
theorem storesUnordered_of_ofValue (held : c.build.payload = some p) (raw : ¬ p.Normal)
    (given : ∀ q ∈ c.given?, (Variant.ofValue q).payload = some p →
      StoresUnordered (.ofValue q) p) : c.StoresUnordered p := by
  cases c with
  | unordered q =>
    cases held
    exact .unordered p
  | ofValue q => exact given q rfl held
  | empty => cases held
  | native q => exact absurd (Variant.native_normal q p held) raw
  | _ =>
    cases held
    exact absurd ⟨nofun, nofun⟩ raw

theorem ofValue_storesUnordered {q : Payload C} (attainable : q.Attainable)
    (held : (Variant.ofValue q).payload = some p) (raw : ¬ p.Normal) :
    StoresUnordered (.ofValue q) p := by
  induction attainable with
  | variant c given ih => exact .variant (storesUnordered_of_ofValue held raw ih)
  | @option t content parts type ih =>
    cases content with
    | none => exact absurd (Variant.native_normal .null p held) raw
    | some q => exact .option (ih q rfl held)
  | object _ | weak _ _ | seq _ _ _ | map _ _ _ =>
    cases held
    exact absurd ⟨nofun, nofun⟩ raw
  | _ => exact absurd (Variant.native_normal _ p held) raw

/-- **A value that is not in normal form was stored without an order.** -/
theorem storesUnordered_of_not_normal (attainable : c.Attainable)
    (held : c.build.payload = some p) (raw : ¬ p.Normal) : c.StoresUnordered p :=
  storesUnordered_of_ofValue held raw fun q given held =>
    ofValue_storesUnordered (attainable q given) held raw

/-- A construction makes a variant in normal form exactly if each value that it
stores without an order is in normal form. -/
theorem build_normal_iff (attainable : c.Attainable) :
    c.build.Normal ↔ ∀ p, c.StoresUnordered p → p.Normal := by
  refine ⟨fun normal p stored => normal p stored.payload_eq, fun normal p held => ?_⟩
  exact Decidable.byContradiction fun raw =>
    raw (normal p (storesUnordered_of_not_normal attainable held raw))

end Construction

/-! ## Histories -/

/-- **A command stores a value without an order**, in whatever slot. -/
def Command.StoresUnordered (c : Command C) (p : Payload C) : Prop :=
  ∃ slot construction, c.receives? = some (slot, construction) ∧ construction.StoresUnordered p

namespace Session

/-- **A slot holds a value in normal form exactly if the construction that its
contents go back to stored no other value without an order.** Whether it holds
a value at all can be told from the type reported, unless this value is the
marker of the empty type. So where no command of a history stores wide text or
the marker without an order, all slots have values in normal form, and the type
tells which of them are empty. -/
theorem normal_iff_origin (K : Converters C) (history : List (Command C))
    (attainable : ∀ c ∈ history, c.Attainable) :
    (∀ slot v, (after K history).slot? slot = some v →
      (v.Normal ↔ ∀ c p, origin history slot = some c → c.StoresUnordered p → p.Normal)
      ∧ ((v.isEmpty = true ↔ v.type = .empty) ↔ v.payload ≠ some .empty))
    ∧ ((∀ c ∈ history, ∀ p, c.StoresUnordered p → p.Normal) →
        ∀ slot v, (after K history).slot? slot = some v →
          v.Normal ∧ (v.isEmpty = true ↔ v.type = .empty)) := by
  have normal_iff (slot : String) (v : Variant C) (held : (after K history).slot? slot = some v) :
      v.Normal ↔ ∀ c p, origin history slot = some c → c.StoresUnordered p → p.Normal := by
    rw [slot?_after] at held
    obtain ⟨c, back, rfl⟩ := Option.map_eq_some_iff.1 held
    rw [Construction.build_normal_iff (origin_attainable attainable back)]
    refine ⟨fun normal c' p back' => ?_, fun normal p => normal c p back⟩
    obtain rfl : c = c' := Option.some.inj (back.symm.trans back')
    exact normal p
  refine ⟨fun slot v held => ⟨normal_iff slot v held, v.isEmpty_iff_type⟩,
    fun stores slot v held => ?_⟩
  have normal : v.Normal := by
    refine (normal_iff slot v held).2 fun construction p back stored => ?_
    obtain ⟨c, member, target, received⟩ := exists_receives_of_origin back
    exact stores c member p ⟨target, construction, received, stored⟩
  exact ⟨normal, v.isEmpty_iff_type.2 normal.payload_ne_empty⟩

/-- Wide text is stored without an order, and the variant is copied; then the
marker is assigned to the first slot. -/
def wideKept : List (Command .none) :=
  [.assign "a" .empty, .clone "b" "a", .assignUnordered "a" (.wide ⟨[0x61]⟩), .make "a" .empty]

/-- The same with the text stored with its order. -/
def wideTaken : List (Command .none) :=
  [.assign "a" .empty, .clone "b" "a", .assign "a" (.wide ⟨[0x61]⟩), .make "a" .empty]

/-- The copy is not in normal form in the first case and is in the second, where
the slot that was assigned the marker reports the empty type and is empty. -/
theorem normal_iff_origin_wide :
    (∃ v, (after (.refusing .none) wideKept).slot? "b" = some v ∧ ¬ v.Normal)
    ∧ ∃ v, (after (.refusing .none) wideTaken).slot? "a" = some v
      ∧ v.Normal ∧ v.isEmpty = true ∧ v.type = .empty := by
  have attainable (history : List (Command .none)) (h : history = wideKept ∨ history = wideTaken) :
      ∀ c ∈ history, c.Attainable := by
    rintro c member slot construction received
    rcases h with rfl | rfl <;>
      simp only [wideKept, wideTaken, List.mem_cons, List.not_mem_nil, or_false] at member <;>
      rcases member with rfl | rfl | rfl | rfl <;> cases received <;> rintro p ⟨⟩
    · exact .empty
    · exact .wide _
    · exact .empty
    · exact .wide _
  have ordered : ∀ c ∈ wideTaken, ∀ p, c.StoresUnordered p → p.Normal := by
    rintro c member p ⟨slot, construction, received, stored⟩
    simp only [wideTaken, List.mem_cons, List.not_mem_nil, or_false] at member
    rcases member with rfl | rfl | rfl | rfl <;> cases received <;> cases stored
  have kept := (normal_iff_origin (.refusing .none) wideKept (attainable _ (.inl rfl))).1 "b" _ rfl
  have taken := (normal_iff_origin (.refusing .none) wideTaken (attainable _ (.inr rfl))).2 ordered
    "a" _ rfl
  refine ⟨⟨_, rfl, fun normal => ?_⟩, ⟨_, rfl, taken.1, rfl, taken.2.1 rfl⟩⟩
  exact (kept.1.1 normal _ _ rfl (.unordered _)).1 rfl

end Session

namespace Variant

/-- **Wide text and the marker of the empty type are kept as they are if they
are stored without an order**, and the variant of the marker holds a value
although it reports the type of none. -/
theorem unordered_not_normal :
    (unordered (.wide ⟨[0x61]⟩) : Variant .none).Reachable
    ∧ ¬ (unordered (.wide ⟨[0x61]⟩) : Variant .none).Normal
    ∧ (unordered .empty : Variant .none).Reachable
    ∧ ¬ (unordered .empty : Variant .none).Normal
    ∧ (unordered .empty : Variant .none).isEmpty = false
    ∧ (unordered .empty : Variant .none).type = .empty :=
  ⟨reachable_unordered (.wide _), fun normal => (normal _ rfl).1 rfl,
    reachable_unordered .empty, fun normal => (normal _ rfl).2 rfl, rfl, rfl⟩

end Variant

end DynValue
