import DynValue.Proofs.Container.Completion
import DynValue.Proofs.Container.Offender
import DynValue.Proofs.Session.History

/-!
# Conversion to variants

Every variant converts to a variant. It is given as it is, payload and ordering, unless
it holds a variant itself: then what is asked for is exactly what is stored, and the
variant inside is given (`Variant.opened`, `Variant.convert_variant`). Only one layer is
taken off in this way.

Neither the rules of callers nor what is alive has a say in this. So a container of
variants is assembled from its source without a failure, in whatever order the entries
are read, and its entries are those of the source (`Source.finish_variants`). No weak
reference needs to stay alive for it, other than for containers of other types.
-/

namespace DynValue

open Schedule
open RefSet (Below Between)

variable {C : CallerTypes}

namespace Variant

/-! ## One variant -/

/-- **What a variant gives as a variant**: of one that holds a variant the variant
inside, and otherwise itself. -/
def opened (v : Variant C) : Variant C :=
  match v.payload with
  | some (.variant content binding) => ⟨content, binding⟩
  | _ => v

variable {v w : Variant C}

theorem opened_of_holds (held : v.payload = some w.toPayload) : v.opened = w := by
  rw [opened, held]
  rfl

theorem opened_of_not_holds (other : ∀ w, v.payload ≠ some (toPayload w)) : v.opened = v := by
  unfold opened
  split
  · exact absurd ‹_› (other ⟨_, _⟩)
  · rfl

/-- **Conversion to a variant** succeeds, whatever is held and whatever is alive. -/
theorem convert_variant (K : Converters C) (alive : RefSet) (v : Variant C) :
    (v.convert K alive .variant).value = .ok v.opened.toPayload := by
  rw [convert, attempt_value, exactly?, opened]
  cases v.payload with
  | none => rfl
  | some p =>
    cases p with
    | variant content binding => rfl
    | _ => rfl

/-- A value of the type of variants is one. -/
theorem toPayload_ofEntry {p : Payload C} (type : p.type = .variant) :
    (ofEntry p).toPayload = p := by
  cases p with
  | variant content binding => rfl
  | _ => cases type

/-- **A list of variants** that a caller can have. -/
theorem Reachable.exists_list (reachable : v.Reachable) (type : v.type = .variants) :
    ∃ ws : List (Variant C), v.payload = some (.seq .vector .variant (ws.map toPayload)) := by
  cases held : v.payload with
  | none => cases type.symm.trans (by rw [Variant.type, held])
  | some p =>
    rw [type_of_payload held] at type
    have typed := reachable.wellTyped held
    cases p with
    | seq k t items =>
      cases type
      have same : (items.map ofEntry).map toPayload = items := by
        rw [List.map_map]
        exact (List.map_congr_left fun p mem => toPayload_ofEntry (typed.2 p mem)).trans
          (List.map_id items)
      exact ⟨items.map ofEntry, by rw [same]⟩
    | _ => cases type

/-- **A dictionary of variants** that a caller can have. -/
theorem Reachable.exists_dictionary (reachable : v.Reachable) (type : v.type = .dictionary) :
    ∃ es : List (String × Variant C),
      v.payload = some (.map .sorted .variant (es.map fun e => (e.1, e.2.toPayload))) := by
  cases held : v.payload with
  | none => cases type.symm.trans (by rw [Variant.type, held])
  | some p =>
    rw [type_of_payload held] at type
    have typed := reachable.wellTyped held
    cases p with
    | map k t entries =>
      cases type
      have same : (entries.map fun e => (e.1, ofEntry e.2)).map (fun e => (e.1, e.2.toPayload))
          = entries := by
        rw [List.map_map]
        exact (List.map_congr_left fun e mem =>
          congrArg (Prod.mk e.1) (toPayload_ofEntry (typed.2 e mem))).trans (List.map_id entries)
      exact ⟨entries.map fun e => (e.1, ofEntry e.2), by rw [same]⟩
    | _ => cases type

end Variant

/-! ## Containers of variants -/

/-- Every set is below all that there is. -/
theorem RefSet.Below.everything (R : RefSet) : R.Below fun _ => True := fun _ _ => trivial

/-- **The conversion to variants refines** what each variant gives, with nothing asked of
what is held. -/
theorem Conversion.variant_refines (S : Setting C) (base alive : RefSet) (bound : Nat)
    (v : Variant C) :
    (Conversion.of S .variant).Refines base (fun _ => True) bound v
      (v.sequential S.converters S.heap.answers alive .variant) := by
  refine ⟨.ok v.opened.toPayload, 0, Nat.zero_le bound, ⟨_, fun _ => v.convert_variant _ _,
    .ready (.everything _) (.everything _) fun _ => rfl⟩, fun p => ?_⟩
  show _ ↔ (v.convert S.converters alive .variant).value = .ok p
  rw [v.convert_variant]

/-- So do the parts of every source. -/
theorem Source.partsRefine_variant (S : Setting C) (base alive : RefSet) {source : Source C}
    {breadth : Nat} (few : source.breadth ≤ breadth) (bound : Nat) :
    source.PartsRefine S base (fun _ => True) breadth bound (Conversion.of S .variant)
      (Variant.sequential S.converters S.heap.answers alive .variant) := by
  cases source with
  | object r => exact ⟨trivial, fun read => Conversion.variant_refines S _ alive bound _⟩
  | list items =>
    exact ⟨(le_foldl_max _ _).trans few, fun w _ =>
      ⟨.everything _, Conversion.variant_refines S base alive bound w⟩⟩
  | dictionary entries =>
    exact ⟨(le_foldl_max _ _).trans few, fun e _ =>
      ⟨.everything _, Conversion.variant_refines S base alive bound e.2⟩⟩

/-- **A container of variants has the entries of its source**, in their order. -/
theorem Source.finish_variants (S : Setting C) (held : RefSet) {source : Source C}
    {shape : Shape} {keys : List String} {parts : List (Variant C)}
    (has : source.parts S.heap.answers shape = .ok (keys, parts)) :
    ((⟨shape, .variant, .sourced source⟩ : Pending C).finish S held).value
      = some (.ok (shape.assemble .variant keys (parts.map fun w => w.opened.toPayload))) := by
  obtain ⟨o, finished, alike⟩ : ∃ o,
      ((⟨shape, .variant, .sourced source⟩ : Pending C).finish S held).value = some o ∧ _ :=
    Pending.finish_source (.everything held) (.self (.everything held))
      (Source.partsRefine_variant S held .none (Nat.le_max_right _ _) _)
  rw [finished, (alike _).2 ((Source.gives_iff has).2 ⟨_, ?_, rfl⟩)]
  rw [List.map_map]
  exact List.map_congr_left fun w _ => w.convert_variant _ _

namespace Variant

variable {v : Variant C} {alive : RefSet} {shape : Shape} {t : Ty C} {source : Source C}

/-- **What is assembled from a source** is asked for with the source taken. -/
theorem pend_of_source (other : v.exactly? (shape.type t) = none)
    (has : v.source alive = .ok source) :
    (v.pend alive shape t).value = ⟨shape, t, .sourced source⟩ := by
  show Pending.mk shape t (v.begin alive (shape.type t)).value = _
  rw [begin_value, other, has]

end Variant

/-- Values that are changed are found under the same keys. -/
theorem lookup_map_values {α β : Type} (f : α → β) (es : List (String × α)) (key : String) :
    (es.map fun e => (e.1, f e.2)).lookup key = (es.lookup key).map f := by
  induction es with
  | nil => rfl
  | cons e es ih =>
    rw [List.map_cons, List.lookup_cons, List.lookup_cons]
    cases key == e.1 with
    | true => rfl
    | false => exact ih

/-- A value that is made of the key is found under each of the keys. -/
theorem lookup_map_keys {β : Type} (f : String → β) (keys : List String) (key : String) :
    (keys.map fun k => (k, f k)).lookup key = if key ∈ keys then some (f key) else none := by
  split
  · exact List.lookup_graph f ‹_›
  · rw [List.lookup_eq_none_iff]
    intro e mem
    obtain ⟨k, found, rfl⟩ := List.mem_map.1 mem
    exact bne_iff_ne.2 fun same => ‹key ∉ keys› (same ▸ found)

/-! ## The main statement -/

namespace Variant

variable {v : Variant C} {alive : RefSet}

/-- A list of variants, converted to another kind of sequence. -/
theorem finish_list {ws : List (Variant C)}
    (held : v.payload = some (.seq .vector .variant (ws.map toPayload))) (S : Setting C)
    (holds : RefSet) :
    ((v.pend alive (.sequence .deque) .variant).value.finish S holds).value
      = some (.ok (.seq .deque .variant (ws.map fun w => w.opened.toPayload))) := by
  have source : v.source alive = .ok (.list ws) := by
    rw [Variant.source, held]
    show Except.ok (Source.list ((ws.map toPayload).map ofEntry)) = _
    rw [List.map_map]
    exact congrArg (Except.ok ∘ Source.list) (List.map_id ws)
  have other : v.exactly? (.seq .deque .variant) = none :=
    (exactly?_inMemory source fun _ => nofun).2 nofun
  rw [pend_of_source other source, Source.finish_variants S holds rfl]
  rfl

/-- A dictionary of variants, converted to another kind of mapping. -/
theorem finish_dictionary {es : List (String × Variant C)}
    (held : v.payload = some (.map .sorted .variant (es.map fun e => (e.1, e.2.toPayload))))
    (S : Setting C) (holds : RefSet) :
    ∃ found, ((v.pend alive (.mapping .hashed) .variant).value.finish S holds).value
        = some (.ok (.map .hashed .variant found))
      ∧ ∀ key, found.lookup key = (es.reverse.lookup key).map fun w => w.opened.toPayload := by
  have source : v.source alive = .ok (.dictionary es) := by
    rw [Variant.source, held]
    show Except.ok (Source.dictionary ((es.map _).map _)) = _
    rw [List.map_map]
    exact congrArg (Except.ok ∘ Source.dictionary) (List.map_id es)
  have other : v.exactly? (.map .hashed .variant) = none :=
    (exactly?_inMemory source fun _ => nofun).2 nofun
  rw [pend_of_source other source, Source.finish_variants S holds rfl]
  refine ⟨_, rfl, fun key => ?_⟩
  rw [Payload.lookup_mapOf, List.map_map, List.zip_map', ← List.map_reverse]
  exact lookup_map_values (fun w : Variant C => w.opened.toPayload) es.reverse key

/-- What an object has, converted to a container of variants. -/
theorem finish_object {r : Ref} (source : v.source alive = .ok (.object r)) (S : Setting C)
    (holds : RefSet) :
    (∀ k, ((v.pend alive (.sequence k) .variant).value.finish S holds).value
      = some (.ok (.seq k .variant ((List.range (S.heap.object r).length).map
          fun i => ((S.heap.object r).element i).opened.toPayload))))
    ∧ ∀ k, ∃ found, ((v.pend alive (.mapping k) .variant).value.finish S holds).value
        = some (.ok (.map k .variant found))
      ∧ ∀ key, found.lookup key = if key ∈ (S.heap.object r).keys
          then some ((S.heap.object r).property key).opened.toPayload else none := by
  refine ⟨fun k => ?_, fun k => ?_⟩
  · rw [pend_of_source (exactly?_of_object source _ _) source,
      Source.finish_variants S holds rfl, List.map_map]
    rfl
  · rw [pend_of_source (exactly?_of_object source _ _) source,
      Source.finish_variants S holds rfl]
    refine ⟨_, rfl, fun key => ?_⟩
    rw [Payload.lookup_mapOf, List.map_map, ← List.map_prod_left_eq_zip, ← List.map_reverse,
      lookup_map_keys]
    simp only [List.mem_reverse]
    rfl

/-- **Every variant that does not hold a variant converts to itself**, and one that does
converts to the variant inside. So the containers of variants that lists, dictionaries
and objects are converted to have as entries what these have, each converted in this
way: nothing fails, nothing is lost, and no entry is anything else. -/
theorem convert_variant_verbatim (K : Converters C) (alive : RefSet) (reachable : v.Reachable) :
    (v.convert K alive .variant).value = .ok v.opened.toPayload
    ∧ (∀ w, v.payload = some (toPayload w) → v.opened = w)
    ∧ ((∀ w, v.payload ≠ some (toPayload w)) → v.opened = v)
    ∧ ∀ (S : Setting C) (holds : RefSet),
      (v.type = .variants →
        ∃ ws : List (Variant C), v.payload = some (.seq .vector .variant (ws.map toPayload))
          ∧ ((v.pend alive (.sequence .deque) .variant).value.finish S holds).value
            = some (.ok (.seq .deque .variant (ws.map fun w => w.opened.toPayload))))
      ∧ (v.type = .dictionary →
        ∃ es : List (String × Variant C),
          v.payload = some (.map .sorted .variant (es.map fun e => (e.1, e.2.toPayload)))
          ∧ ∃ found, ((v.pend alive (.mapping .hashed) .variant).value.finish S holds).value
              = some (.ok (.map .hashed .variant found))
            ∧ ∀ key, found.lookup key
              = (es.reverse.lookup key).map fun w => w.opened.toPayload)
      ∧ ∀ r, v.source alive = .ok (.object r) →
        (∀ k, ((v.pend alive (.sequence k) .variant).value.finish S holds).value
          = some (.ok (.seq k .variant ((List.range (S.heap.object r).length).map
              fun i => ((S.heap.object r).element i).opened.toPayload))))
        ∧ ∀ k, ∃ found, ((v.pend alive (.mapping k) .variant).value.finish S holds).value
            = some (.ok (.map k .variant found))
          ∧ ∀ key, found.lookup key = if key ∈ (S.heap.object r).keys
              then some ((S.heap.object r).property key).opened.toPayload else none := by
  refine ⟨v.convert_variant K alive, fun _ => opened_of_holds, opened_of_not_holds,
    fun S holds => ⟨fun type => ?_, fun type => ?_, fun r source => finish_object source S holds⟩⟩
  · obtain ⟨ws, held⟩ := reachable.exists_list type
    exact ⟨ws, held, finish_list held S holds⟩
  · obtain ⟨es, held⟩ := reachable.exists_dictionary type
    exact ⟨es, held, finish_dictionary held S holds⟩

/-- A variant that holds a variant. -/
def nestedFlag : Variant .none := unordered (native (.bool true)).toPayload

theorem nestedFlag_attainable : nestedFlag.toPayload.Attainable :=
  .variant (.unordered (native (.bool true)).toPayload) fun
    | _, rfl => .variant (.native (.bool true)) fun
      | _, rfl => .bool true

/-- It converts to the variant inside, and not to itself. -/
theorem nestedFlag_convert_ne :
    nestedFlag.Reachable
    ∧ (nestedFlag.convert (.refusing .none) .none .variant).value
      = .ok (native (.bool true)).toPayload
    ∧ (nestedFlag.convert (.refusing .none) .none .variant).value ≠ .ok nestedFlag.toPayload := by
  refine ⟨?_, rfl, nofun⟩
  exact reachable_unordered (.variant (.native (.bool true)) fun | _, rfl => .bool true)

/-- Among the entries of a list it is replaced by the variant inside, and entries without
a value or with the explicit null stay what they are. -/
theorem convert_variant_verbatim_nestedFlag :
    (((unordered (.seq .vector .variant ([nestedFlag, empty, native .null].map toPayload))).pend
        .none (.sequence .deque) .variant).value.finish ⟨.empty, .refusing .none⟩ .none).value
      = some (.ok (.seq .deque .variant
          ([native (.bool true), empty, native .null].map toPayload))) := by
  have entries : ∀ w ∈ [nestedFlag, empty, native .null], w.toPayload.Attainable := by
    simp only [List.forall_mem_cons, List.not_mem_nil, false_implies, implies_true, and_true]
    exact ⟨nestedFlag_attainable, .variant .empty nofun, .variant (.native .null) fun
      | _, rfl => .null⟩
  have reachable : (unordered (.seq .vector .variant
      ([nestedFlag, empty, native .null].map toPayload))).Reachable :=
    reachable_unordered (.seq .vector (List.forall_mem_map.2 entries)
      (List.forall_mem_map.2 fun _ _ => rfl))
  obtain ⟨-, -, -, containers⟩ :=
    convert_variant_verbatim (.refusing .none) RefSet.none reachable
  obtain ⟨ws, held, finished⟩ := (containers ⟨.empty, .refusing .none⟩ .none).1 rfl
  have same : [nestedFlag, empty, native .null] = ws := by
    refine List.map_injective_iff.2 (fun v w same => ?_)
      (Payload.seq.inj (Option.some.inj held)).2.2
    exact (ofEntry_toPayload v).symm.trans ((congrArg ofEntry same).trans (ofEntry_toPayload w))
  subst same
  exact finished

end Variant

end DynValue
