import DynValue.Container.Drive
import DynValue.Proofs.Container.Scene
import DynValue.Proofs.Container.Sequential

/-!
# Container conversion refines sequential conversion

However the entries of a container are scheduled, the conversion ends, and
it succeeds exactly when the plain sequential conversion does, with the same
container (`Conversion.of_refines`). The proof is by recursion in the type,
as the conversion is: if the conversion to the element type refines, then
each entry settles, and so does the container of them all.
-/

namespace DynValue

open Schedule
open RefSet (Between Below)

variable {C : CallerTypes} {S : Setting C} {base : RefSet} {top weak : Ref → Prop}
  {shape : Shape} {t : Ty C} {elem : Conversion C} {breadth bound : Nat} {v : Variant C}
  {convert : Variant C → Except (CastError C) (Payload C)}

/-- **A conversion refines an outcome**: it settles within a bound, and
succeeds exactly as the outcome does. -/
def Conversion.Refines (c : Conversion C) (base : RefSet) (top : Ref → Prop) (bound : Nat)
    (v : Variant C) (reference : Except (CastError C) (Payload C)) : Prop :=
  ∃ o, ∃ n ≤ bound, c.Settles base top v o n ∧ ∀ p, o = .ok p ↔ reference = .ok p

/-! ## Parts by number -/

/-- The parts of an object are its answers to the reads of its entries. -/
theorem Source.parts_object (h : Heap C) (r : Ref) (shape : Shape) :
    ∃ parts, Source.parts h.answers shape (.object r)
        = .ok ((Contents.ofObject shape (h.object r)).keys, parts)
      ∧ parts.length = (Contents.ofObject shape (h.object r)).count
      ∧ ∀ k, parts[k]?
        = ((Contents.ofObject shape (h.object r)).read? k).map (Entry.answer (h.object r)) := by
  cases shape with
  | sequence kind =>
    refine ⟨_, rfl, (List.length_map _).trans List.length_range, fun k => ?_⟩
    show ((List.range (h.object r).length).map (h.object r).element)[k]?
      = Option.map _ (if k < (h.object r).length then some (Read.element k) else none)
    rw [List.getElem?_map]
    split
    · rename_i lt
      rw [List.getElem?_range lt]
      rfl
    · rename_i le
      rw [List.getElem?_eq_none (by rw [List.length_range]; exact Nat.le_of_not_lt le)]
      rfl
  | mapping kind =>
    refine ⟨_, rfl, List.length_map _, fun k => ?_⟩
    show ((h.object r).keys.map (h.object r).property)[k]?
      = Option.map _ ((h.object r).keys[k]?.map Read.property)
    rw [List.getElem?_map, Option.map_map]
    rfl

/-- Outcomes and the times to wait for them can be chosen for all parts at once. -/
theorem exists_outcomes (parts : List (Variant C))
    (P : Variant C → Except (CastError C) (Payload C) → Nat → Prop)
    (h : ∀ v ∈ parts, ∃ o n, P v o n) :
    ∃ (out : Nat → Except (CastError C) (Payload C)) (waits : Nat → Nat),
      ∀ k v, parts[k]? = some v → P v (out k) (waits k) := by
  have each : ∀ k : Nat, ∃ o n, ∀ v, parts[k]? = some v → P v o n := by
    intro k
    cases hk : parts[k]? with
    | none => exact ⟨.error ⟨.empty, .empty, none⟩, 0, fun v h => nomatch h⟩
    | some v =>
      obtain ⟨o, n, ho⟩ := h v (List.mem_of_getElem? hk)
      exact ⟨o, n, fun w hw => Option.some.inj hw ▸ ho⟩
  choose out waits chosen using each
  exact ⟨out, waits, chosen⟩

/-- Two lists of outcomes that succeed alike have the same results. -/
theorem eq_map_ok_of_alike {φ α : Type} {xs ys : List (Except φ α)} {values : List α}
    (length : ys.length = xs.length)
    (alike : ∀ (k : Nat) a, xs[k]? = some (Except.ok a) → ys[k]? = some (Except.ok a))
    (h : xs = values.map Except.ok) : ys = values.map Except.ok := by
  subst h
  refine List.ext_getElem? (fun k => ?_)
  cases hk : values[k]? with
  | some a =>
    have here : (values.map Except.ok : List (Except φ α))[k]? = some (Except.ok a) := by
      rw [List.getElem?_map, hk]
      rfl
    rw [here]
    exact alike k a here
  | none =>
    rw [List.getElem?_map, hk]
    rw [List.length_map] at length
    exact List.getElem?_eq_none (length ▸ List.getElem?_eq_none_iff.1 hk)

/-- **A container of outcomes that succeed as the parts convert** succeeds as
the parts together do. -/
theorem ends_eq_ok_iff {keys : List String} {parts : List (Variant C)}
    {fails : (Nat → Except (CastError C) (Payload C)) → Nat → CastError C → Prop}
    {out : Nat → Except (CastError C) (Payload C)} {o : Except (CastError C) (Payload C)}
    (someFails : ∀ e, fails out parts.length e → FailsSome out parts.length e)
    (alike : ∀ k v, parts[k]? = some v → ∀ p, out k = .ok p ↔ convert v = .ok p)
    (ends : Ends shape t keys fails out parts.length o) (p : Payload C) :
    o = .ok p ↔ ∃ values, parts.map convert = values.map Except.ok
      ∧ p = shape.assemble t keys values := by
  have number : ∀ {k : Nat} {a}, (parts.map convert)[k]? = some (Except.ok a) →
      ((List.range parts.length).map out)[k]? = some (Except.ok a) := by
    intro k a h
    rw [List.getElem?_map] at h ⊢
    obtain ⟨v, hv, converts⟩ := Option.map_eq_some_iff.1 h
    rw [List.getElem?_range (List.getElem?_eq_some_iff.1 hv).1]
    exact congrArg Option.some ((alike k v hv a).2 converts)
  have gathers : ∀ {values}, parts.map convert = values.map Except.ok →
      Gathers out parts.length values :=
    fun h => eq_map_ok_of_alike (by simp) (fun _ _ => number) h
  cases o with
  | ok q =>
    obtain ⟨values, all, rfl⟩ := ends
    constructor
    · intro h
      obtain rfl := Except.ok.inj h
      refine ⟨values, eq_map_ok_of_alike (by simp) (fun k a h => ?_) all, rfl⟩
      rw [List.getElem?_map] at h ⊢
      obtain ⟨k', hk, gives⟩ := Option.map_eq_some_iff.1 h
      have lt : k < parts.length := by
        have := (List.getElem?_eq_some_iff.1 hk).1
        rwa [List.length_range] at this
      rw [List.getElem?_range lt] at hk
      obtain rfl := Option.some.inj hk
      rw [List.getElem?_eq_getElem lt]
      exact congrArg Option.some ((alike k _ (List.getElem?_eq_getElem lt) a).1 gives)
    · rintro ⟨values', each, rfl⟩
      have same : values.map Except.ok = values'.map (Except.ok : _ → Except (CastError C) _) :=
        all.symm.trans (gathers each)
      rw [List.map_injective_iff.2 (fun _ _ => Except.ok.inj) same]
  | error e =>
    refine iff_of_false (fun h => nomatch h) ?_
    rintro ⟨values, each, -⟩
    obtain ⟨k, lt, failed⟩ := someFails e ends
    obtain ⟨a, -, gives⟩ := (gathers each).getElem? lt
    cases failed.symm.trans gives

/-! ## Containers -/

theorem Source.gives_iff {objects : Ref → Answers C} {source : Source C}
    {keys : List String} {parts : List (Variant C)} {p : Payload C}
    (h : source.parts objects shape = .ok (keys, parts)) :
    source.Gives objects shape t convert p ↔ ∃ values,
      parts.map convert = values.map Except.ok ∧ p = shape.assemble t keys values := by
  constructor
  · rintro ⟨_, _, values, h', each, rfl⟩
    obtain ⟨rfl, rfl⟩ := Prod.mk.inj (Except.ok.inj (h.symm.trans h'))
    exact ⟨values, each, rfl⟩
  · rintro ⟨values, each, rfl⟩
    exact ⟨keys, parts, values, h, each, rfl⟩

/-- A source that is refused gives nothing. -/
theorem Source.not_gives {objects : Ref → Answers C} {source : Source C} {reason : Reason}
    {p : Payload C} (h : source.parts objects shape = .error reason) :
    ¬ source.Gives objects shape t convert p :=
  fun ⟨_, _, _, h', _⟩ => nomatch h.symm.trans h'

/-- **The parts of a source refine** what they convert to, and are as many as
the bound allows. Those of an object convert while it is held. -/
def Source.PartsRefine (S : Setting C) (base : RefSet) (top : Ref → Prop)
    (breadth bound : Nat) (elem : Conversion C)
    (convert : Variant C → Except (CastError C) (Payload C)) : Source C → Prop
  | .object r => top r ∧ ∀ read, elem.Refines (RefSet.union base (RefSet.single r)) top bound
      (Entry.answer (S.heap.object r) read) (convert (Entry.answer (S.heap.object r) read))
  | .list items => items.length ≤ breadth
      ∧ ∀ w ∈ items, w.holds.Below top ∧ elem.Refines base top bound w (convert w)
  | .dictionary entries => entries.length ≤ breadth
      ∧ ∀ e ∈ entries, e.2.holds.Below top ∧ elem.Refines base top bound e.2 (convert e.2)

theorem Source.PartsRefine.holds {source : Source C}
    (h : source.PartsRefine S base top breadth bound elem convert) :
    source.holds.Below top := by
  cases source with
  | object r => exact .single h.1
  | list items => exact .unionOf fun w hw => (h.2 w hw).1
  | dictionary entries => exact .unionOf fun e he => (h.2 e he).1

/-- A conversion that fails at the first poll settles. -/
theorem Stage.settles_of_refused {source : Source C} {e : CastError C}
    (holds : source.holds.Below top)
    (polled : ∀ R, Stage.pollSourced S shape t elem R source = pure (.ready (.error e))) :
    (Conversion.container S shape t elem).kind.Settles base top (.begun (.sourced source))
      (.error e) 0 :=
  .ready holds .none fun _ => congrArg Logged.value (polled _)

theorem Source.settles_object {r : Ref} (hb : base.Below top)
    (hB : S.heap.breadth ≤ breadth)
    (h : (Source.object r).PartsRefine S base top breadth bound elem convert) :
    ∃ o, ∃ n ≤ S.heap.delayBound + breadth * (S.heap.delayBound + bound),
      (Conversion.container S shape t elem).kind.Settles base top
        (.begun (.sourced (.object r))) o n
      ∧ ∀ p, o = .ok p ↔ (Source.object r).Gives S.heap.answers shape t convert p := by
  obtain ⟨hr, elems⟩ := h
  obtain ⟨parts, hparts, length, number⟩ := Source.parts_object S.heap r shape
  obtain ⟨out, waits, hout⟩ := exists_outcomes parts
    (fun v o n => n ≤ bound ∧ elem.Settles (RefSet.union base (RefSet.single r)) top v o n
      ∧ ∀ p, o = .ok p ↔ convert v = .ok p) (by
    intro v hv
    obtain ⟨k, hk⟩ := List.mem_iff_getElem?.1 hv
    rw [number] at hk
    obtain ⟨read, -, rfl⟩ := Option.map_eq_some_iff.1 hk
    exact elems read)
  have entries : ∀ k read, (Contents.ofObject shape (S.heap.object r)).read? k = some read →
      ∃ n ≤ S.heap.delayBound + bound,
        (Entry.kind S elem).Settles (RefSet.union base (RefSet.single r)) top
          (.reading r read none) (out k) n := by
    intro k read hread
    obtain ⟨le, settles, -⟩ := hout k _ (by rw [number, hread]; rfl)
    exact ⟨_, Nat.add_le_add (S.heap.delayOf_le r read) le, Entry.fresh_settles settles hr⟩
  obtain ⟨o, n, le, settles, ends⟩ := Stage.object_settles (t := t) hr hb entries
  refine ⟨o, n, le.trans (Nat.add_le_add (S.heap.delayOf_le r _) ?_), settles, fun p => ?_⟩
  · exact Nat.mul_le_mul_right _ ((S.heap.count_le r shape).trans hB)
  · rw [← length] at ends
    rw [Source.gives_iff hparts]
    exact ends_eq_ok_iff (fun _ first => first.some) (fun k v hv => (hout k v hv).2.2) ends p

/-- As many entries as the bound allows wait no longer than the bound. -/
theorem mul_le_pollBound {delay count : Nat} (le : count ≤ breadth) :
    count * bound ≤ delay + breadth * (delay + bound) :=
  (Nat.mul_le_mul le (Nat.le_add_left bound delay)).trans (Nat.le_add_left _ _)

/-- **The conversion of a source in memory** settles if those of its parts do, with the
container of all results or the failure that is met. -/
theorem Source.settles_met {source : Source C} {keys : List String} {parts : List (Variant C)}
    {out : Nat → Except (CastError C) (Payload C)} {waits : Nat → Nat} (hb : base.Below top)
    (inMemory : ∀ r, source ≠ .object r)
    (has : source.parts S.heap.answers shape = .ok (keys, parts))
    (each : ∀ k w, parts[k]? = some w →
      w.holds.Below top ∧ waits k ≤ bound ∧ elem.Settles base top w (out k) (waits k)) :
    ∃ o, ∃ n ≤ parts.length * bound,
      (Conversion.container S shape t elem).kind.Settles base top (.begun (.sourced source)) o n
      ∧ Ends shape t keys (FailsMet waits) out parts.length o := by
  cases source with
  | object r => exact absurd rfl (inMemory r)
  | list items =>
    cases shape with
    | mapping k => cases has
    | sequence k =>
      cases has
      exact Stage.list_settles hb each
  | dictionary entries =>
    cases shape with
    | sequence k => cases has
    | mapping k =>
      obtain ⟨rfl, rfl⟩ := Prod.mk.inj (Except.ok.inj has)
      rw [List.length_map]
      refine Stage.dictionary_settles hb fun n e found => each n e.2 ?_
      rw [List.getElem?_map, found]
      rfl

/-- It succeeds as the source does, if its parts convert as they should. -/
theorem Source.settles_of_parts {source : Source C} {keys : List String}
    {parts : List (Variant C)} (hb : base.Below top) (inMemory : ∀ r, source ≠ .object r)
    (has : source.parts S.heap.answers shape = .ok (keys, parts)) (few : parts.length ≤ breadth)
    (each : ∀ w ∈ parts, w.holds.Below top ∧ elem.Refines base top bound w (convert w)) :
    ∃ o, ∃ n ≤ S.heap.delayBound + breadth * (S.heap.delayBound + bound),
      (Conversion.container S shape t elem).kind.Settles base top (.begun (.sourced source)) o n
      ∧ ∀ p, o = .ok p ↔ source.Gives S.heap.answers shape t convert p := by
  obtain ⟨out, waits, hout⟩ := exists_outcomes parts
    (fun v o n => v.holds.Below top ∧ n ≤ bound ∧ elem.Settles base top v o n
      ∧ ∀ p, o = .ok p ↔ convert v = .ok p) (by
    intro v hv
    obtain ⟨holds, o, n, refines⟩ := each v hv
    exact ⟨o, n, holds, refines⟩)
  obtain ⟨o, n, le, settles, ends⟩ := settles_met (t := t) hb inMemory has fun k v hv => by
    obtain ⟨holds, le, settles, -⟩ := hout k v hv
    exact ⟨holds, le, settles⟩
  refine ⟨o, n, le.trans (mul_le_pollBound few), settles, fun p => ?_⟩
  rw [Source.gives_iff has]
  exact ends_eq_ok_iff (fun _ met => met.some) (fun k v hv => (hout k v hv).2.2.2) ends p

theorem Source.settles_list {items : List (Variant C)} (hb : base.Below top)
    (h : (Source.list items).PartsRefine S base top breadth bound elem convert) :
    ∃ o, ∃ n ≤ S.heap.delayBound + breadth * (S.heap.delayBound + bound),
      (Conversion.container S shape t elem).kind.Settles base top
        (.begun (.sourced (.list items))) o n
      ∧ ∀ p, o = .ok p ↔ (Source.list items).Gives S.heap.answers shape t convert p := by
  cases shape with
  | mapping k =>
    exact ⟨_, 0, Nat.zero_le _, Stage.settles_of_refused h.holds (fun _ => rfl),
      fun p => iff_of_false (fun h => nomatch h) (Source.not_gives rfl)⟩
  | sequence k => exact settles_of_parts hb nofun rfl h.1 h.2

theorem Source.settles_dictionary {entries : List (String × Variant C)} (hb : base.Below top)
    (h : (Source.dictionary entries).PartsRefine S base top breadth bound elem convert) :
    ∃ o, ∃ n ≤ S.heap.delayBound + breadth * (S.heap.delayBound + bound),
      (Conversion.container S shape t elem).kind.Settles base top
        (.begun (.sourced (.dictionary entries))) o n
      ∧ ∀ p, o = .ok p
        ↔ (Source.dictionary entries).Gives S.heap.answers shape t convert p := by
  cases shape with
  | sequence k =>
    exact ⟨_, 0, Nat.zero_le _, Stage.settles_of_refused h.holds (fun _ => rfl),
      fun p => iff_of_false (fun h => nomatch h) (Source.not_gives rfl)⟩
  | mapping k =>
    exact settles_of_parts hb nofun rfl ((List.length_map _).trans_le h.1)
      (List.forall_mem_map.2 h.2)

/-- **The conversion of a source** whose parts refine settles, and succeeds
as the source does. -/
theorem Source.settles {source : Source C} (hb : base.Below top)
    (hB : S.heap.breadth ≤ breadth)
    (h : source.PartsRefine S base top breadth bound elem convert) :
    ∃ o, ∃ n ≤ S.heap.delayBound + breadth * (S.heap.delayBound + bound),
      (Conversion.container S shape t elem).kind.Settles base top (.begun (.sourced source)) o n
      ∧ ∀ p, o = .ok p ↔ source.Gives S.heap.answers shape t convert p := by
  cases source with
  | object r => exact Source.settles_object hb hB h
  | list items => exact Source.settles_list hb h
  | dictionary entries => exact Source.settles_dictionary hb h

/-! ## Conversions -/

/-- **A source that a conversion can come upon** in a scene. -/
def Source.AllKnown (top weak : Ref → Prop) (breadth : Nat) : Source C → Prop
  | .object r => top r
  | .list items => items.length ≤ breadth ∧ ∀ w ∈ items, Known top weak breadth w
  | .dictionary entries => entries.length ≤ breadth
      ∧ ∀ e ∈ entries, Known top weak breadth e.2

/-- The parts of a source are known if the variant is. -/
theorem Scene.allKnown (sc : Scene S base top weak) (hv : Known top weak breadth v)
    {source : Source C} (hs : v.source (S.heap.alive base) = .ok source) :
    source.AllKnown top weak breadth := by
  cases source with
  | object r => exact sc.object_below hv hs
  | list items =>
    obtain ⟨length, parts⟩ := Variant.partOf_list hs
    exact ⟨length.trans hv.breadth_le, fun w hw => hv.of_partOf (parts w hw)⟩
  | dictionary entries =>
    obtain ⟨length, parts⟩ := Variant.partOf_dictionary hs
    exact ⟨length.trans hv.breadth_le, fun e he => hv.of_partOf (parts e he)⟩

/-- The parts of a known source refine what known variants refine. -/
theorem Scene.partsRefine (sc : Scene S base top weak) (hB : S.heap.breadth ≤ breadth)
    {source : Source C} (known : source.AllKnown top weak breadth)
    (elems : ∀ w, Known top weak breadth w → elem.Refines base top bound w (convert w)) :
    source.PartsRefine S base top breadth bound elem convert := by
  cases source with
  | object r =>
    refine ⟨known, fun read => ?_⟩
    obtain ⟨o, n, le, settles, alike⟩ := elems _ (.answer sc known hB read)
    refine ⟨o, n, le, settles.narrow (fun r' hr' => ?_), alike⟩
    rw [RefSet.union_apply, hr', Bool.true_or]
  | list items => exact ⟨known.1, fun w hw => ⟨(known.2 w hw).holds, elems w (known.2 w hw)⟩⟩
  | dictionary entries =>
    exact ⟨known.1, fun e he => ⟨(known.2 e he).holds, elems e.2 (known.2 e he)⟩⟩

/-- A conversion that is settled when it is asked for settles. -/
theorem Stage.settled_settles {o : Except (CastError C) (Payload C)}
    (kept : (Conversion.outcomeHolds o).Below top) :
    (Conversion.container S shape t elem).kind.Settles base top (.begun (.settled o)) o 0 := by
  cases o with
  | ok p => exact .ready kept kept (fun _ => rfl)
  | error e => exact .ready .none .none (fun _ => rfl)

theorem Variant.begin_value (alive : RefSet) (v : Variant C) (t : Ty C) :
    (v.begin alive t).value = match v.exactly? t with
      | some p => .settled (.ok p)
      | none => match v.source alive with
        | .ok source => .sourced source
        | .error reason => .settled (.error ((v.castError t).because reason)) := by
  unfold Variant.begin
  cases v.exactly? t with
  | some p => rfl
  | none => cases v.source alive <;> rfl

theorem Conversion.scalar_refines (sc : Scene S base top weak) (hv : Known top weak breadth v)
    (t : Ty C) :
    (Conversion.scalar S t).Refines base top 0 v
      (v.convert S.converters (S.heap.alive base) t).value := by
  refine ⟨_, 0, Nat.le_refl 0, ⟨_, fun hR => sc.convert_eq hv hR t, ?_⟩, fun p => Iff.rfl⟩
  have kept : (Conversion.outcomeHolds
      (v.convert S.converters (S.heap.alive base) t).value).Below top := by
    cases h : (v.convert S.converters (S.heap.alive base) t).value with
    | ok p => exact sc.convert_below hv h
    | error e => exact .none
  refine .ready kept ?_ (fun _ => rfl)
  generalize (v.convert S.converters (S.heap.alive base) t).value = o at kept
  cases o <;> exact kept

theorem Conversion.container_start (sc : Scene S base top weak)
    (hv : Known top weak breadth v) {R : RefSet} (hR : Between base top R) :
    ((Conversion.container S shape t elem).start R v).value
      = .begun (v.begin (S.heap.alive base) (shape.type t)).value := by
  show Stage.begun (v.begin (S.heap.alive R) (shape.type t)).value = _
  rw [Variant.begin_value, Variant.begin_value, sc.source_eq hv hR]

/-- **The conversion to a container** refines the plain one if that of its
elements does. -/
theorem Conversion.container_refines (sc : Scene S base top weak)
    (hB : S.heap.breadth ≤ breadth) (hv : Known top weak breadth v)
    (elems : ∀ w, Known top weak breadth w → elem.Refines base top bound w (convert w)) :
    (Conversion.container S shape t elem).Refines base top
      (S.heap.delayBound + breadth * (S.heap.delayBound + bound)) v
      (v.sequentialContainer S.heap.answers (S.heap.alive base) shape t convert) := by
  have starts := @Conversion.container_start _ _ _ _ _ shape t elem _ _ sc hv
  have value := Variant.begin_value (S.heap.alive base) v (shape.type t)
  have reference : ∀ p, v.sequentialContainer S.heap.answers (S.heap.alive base) shape t convert
      = .ok p ↔ _ := fun p => Variant.sequentialContainer_eq_ok_iff
  cases hx : v.exactly? (shape.type t) with
  | some q =>
    rw [hx] at value
    have kept : (Conversion.outcomeHolds (.ok q)).Below top := by
      show q.holds.Below top
      rw [Variant.holds_of_exactly? hx]
      exact hv.holds
    refine ⟨.ok q, 0, Nat.zero_le _, ⟨_, starts, ?_⟩, fun p => ?_⟩
    · rw [value]
      exact Stage.settled_settles kept
    · rw [reference, hx]
      simp
  | none =>
    rw [hx] at value
    cases hs : v.source (S.heap.alive base) with
    | error reason =>
      rw [hs] at value
      refine ⟨.error ((v.castError (shape.type t)).because reason), 0, Nat.zero_le _,
        ⟨_, starts, ?_⟩, fun p => ?_⟩
      · rw [value]
        exact Stage.settled_settles .none
      · rw [reference, hx, hs]
        simp
    | ok source =>
      rw [hs] at value
      obtain ⟨o, n, le, settles, alike⟩ := Source.settles sc.below hB
        (sc.partsRefine hB (sc.allKnown hv hs) elems)
      refine ⟨o, n, le, ⟨_, starts, ?_⟩, fun p => ?_⟩
      · rw [value]
        exact settles
      · rw [alike, reference, hx, hs]
        simp

/-- **The conversion to any type refines the plain one**, and is pending at
most as often as the bound on polls says. -/
theorem Conversion.of_refines (sc : Scene S base top weak) (hB : S.heap.breadth ≤ breadth)
    (t : Ty C) (hv : Known top weak breadth v) :
    (Conversion.of S t).Refines base top (pollBound S.heap.delayBound breadth t) v
      (v.sequential S.converters S.heap.answers (S.heap.alive base) t) := by
  induction t generalizing v with
  | seq k t ih => exact Conversion.container_refines sc hB hv (fun w hw => ih hw)
  | map k t ih => exact Conversion.container_refines sc hB hv (fun w hw => ih hw)
  | _ => exact Conversion.scalar_refines sc hv _

end DynValue
