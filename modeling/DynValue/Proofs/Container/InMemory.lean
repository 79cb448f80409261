import DynValue.Proofs.Container.Completion
import DynValue.Proofs.Container.Lives
import DynValue.Proofs.Container.Offender

/-!
# Conversion within memory

A list or a dictionary in which there is no external object, at any depth, has nothing
to wait for. Its conversion is ready when it is polled for the first time, and comes to
just what the plain sequential conversion does: the container of all results, or the
failure of the first entry that fails, however many entries there are
(`Variant.inMemory_ready`).

Nothing has to be assumed of weak references but that the objects behind them are gone
as well (`Variant.InMemory`). What is not alive when the container is asked for or
polled does not come alive meanwhile, so every variant within has the same source
throughout (`Variant.InMemory.source_eq`). Then no entry waits, and where nothing waits
the failure met is the first (`FailsMet.first`). The proof is by recursion in the type,
as the conversion is (`Conversion.of_settles_inMemory`).
-/

namespace DynValue

open Schedule
open RefSet (Between Below)

variable {C : CallerTypes} {S : Setting C} {base R held asked alive : RefSet}
  {top : Ref → Prop} {gone : Ref → Prop} {shape : Shape} {t : Ty C} {elem : Conversion C}
  {v w : Variant C} {source : Source C} {keys : List String} {parts : List (Variant C)}
  {convert : Variant C → Except (CastError C) (Payload C)}

/-! ## What fails in turn -/

/-- **A container of the outcomes of its parts** is what they come to in turn, if none
of them waits. -/
theorem ends_eq_inTurn {out : Nat → Except (CastError C) (Payload C)} {waits : Nat → Nat}
    {o : Except (CastError C) (Payload C)}
    (idle : ∀ k w, parts[k]? = some w → out k = convert w ∧ waits k = 0)
    (ends : Ends shape t keys (FailsMet waits) out parts.length o) :
    o = (parts.mapM convert >>= fun values => pure (shape.assemble t keys values)) := by
  have same := fun k w found => (idle k w found).1
  have prefixes : ∀ k ≤ parts.length, (List.range k).map out = (parts.take k).map convert := by
    intro k le
    refine List.ext_getElem (by simp [le]) fun i hi hi' => ?_
    rw [List.length_map, List.length_range] at hi
    rw [List.getElem_map, List.getElem_range, List.getElem_map, List.getElem_take]
    exact same i _ (List.getElem?_eq_getElem (hi.trans_le le))
  cases o with
  | ok p =>
    obtain ⟨values, all, rfl⟩ := ends
    rw [Gathers, prefixes _ (Nat.le_refl _), List.take_length] at all
    rw [mapM_eq_ok_iff.2 all]
    rfl
  | error e =>
    obtain ⟨k, lt, failed, values, before⟩ : FailsFirst out parts.length e :=
      FailsMet.first ends fun k lt => (idle k _ (List.getElem?_eq_getElem lt)).2
    rw [Gathers, prefixes k lt.le] at before
    have here := same k _ (List.getElem?_eq_getElem lt)
    have first : parts.mapM convert = .error e := by
      refine mapM_eq_error_iff.2 ⟨parts.take k, parts[k], parts.drop (k + 1), ?_,
        fun x mem => ?_, here.symm.trans failed⟩
      · rw [List.getElem_cons_drop, List.take_append_drop]
      · obtain ⟨a, -, good⟩ := List.mem_map.1 (before ▸ List.mem_map_of_mem (f := convert) mem)
        exact ⟨a, good.symm⟩
    rw [first]
    rfl

/-! ## Variants without an object -/

namespace Variant

/-- **A variant within another**: itself, or within an entry of a list or a
dictionary. -/
inductive Contains : Variant C → Variant C → Prop
  | here (v : Variant C) : Contains v v
  | item {v w x : Variant C} {living : RefSet} {items : List (Variant C)}
      (list : v.source living = .ok (.list items)) (mem : w ∈ items) (rest : Contains w x) :
      Contains v x
  | entry {v x : Variant C} {living : RefSet} {entries : List (String × Variant C)}
      {e : String × Variant C} (dictionary : v.source living = .ok (.dictionary entries))
      (mem : e ∈ entries) (rest : Contains e.2 x) : Contains v x

/-- **No external object is within**, nor a weak reference to one that is alive. -/
def InMemory (alive : RefSet) (v : Variant C) : Prop :=
  ∀ w, v.Contains w → ∀ r, w.source alive ≠ .ok (.object r)

namespace InMemory

theorem item {living : RefSet} {items : List (Variant C)} (h : v.InMemory alive)
    (list : v.source living = .ok (.list items)) (mem : w ∈ items) : w.InMemory alive :=
  fun x contains => h x (.item list mem contains)

theorem entry {living : RefSet} {entries : List (String × Variant C)}
    {e : String × Variant C} (h : v.InMemory alive)
    (dictionary : v.source living = .ok (.dictionary entries)) (mem : e ∈ entries) :
    e.2.InMemory alive :=
  fun x contains => h x (.entry dictionary mem contains)

/-- **The source of a variant in memory** is the same when less is alive. -/
theorem source_eq (h : v.InMemory alive) {living : RefSet}
    (le : ∀ r, living r = true → alive r = true) : v.source living = v.source alive := by
  cases found : v.source living with
  | ok source => exact (source_mono found le).symm
  | error reason =>
    rcases source_eq_error found with ⟨rfl, always⟩ | ⟨rfl, r, weak, dead⟩
    · exact (always alive).symm
    · have unreached := h v (.here v) r
      unfold source at unreached ⊢
      rw [weak] at unreached ⊢
      dsimp only at unreached ⊢
      split
      · rename_i live
        rw [if_pos live] at unreached
        exact absurd rfl unreached
      · rfl

end InMemory

/-- What is within another variant is a part of it. -/
theorem Contains.partOf (h : v.Contains w) : w.PartOf v := by
  have trans : ∀ {x y z : Variant C}, x.PartOf y → y.PartOf z → x.PartOf z := fun hx hy =>
    ⟨fun r held => hy.holds r (hx.holds r held),
      fun r refers => hy.refersWeakly r (hx.refersWeakly r refers), hx.breadth.trans hy.breadth⟩
  induction h with
  | here v => exact ⟨fun _ => id, fun _ => id, Nat.le_refl _⟩
  | item list mem _ ih => exact trans ih ((partOf_list list).2 _ mem)
  | entry dictionary mem _ ih => exact trans ih ((partOf_dictionary dictionary).2 _ mem)

/-- A variant that refers to nothing is in memory. -/
theorem inMemory_of_refers_not (holds : ∀ r, v.holds r = false)
    (refersWeakly : ∀ r, v.refersWeakly r = false) : v.InMemory alive := by
  intro w within r object
  rcases payload_of_object object with payload | ⟨payload, -⟩
  · have held : v.holds r = true := within.partOf.holds r (by
      rw [Variant.holds, payload]
      exact beq_self_eq_true r)
    rw [holds] at held
    cases held
  · have refers : v.refersWeakly r = true := within.partOf.refersWeakly r (by
      rw [Variant.refersWeakly, payload]
      exact beq_self_eq_true r)
    rw [refersWeakly] at refers
    cases refers

end Variant

/-! ## Nothing waits -/

/-- The conversion to a scalar does not wait. -/
theorem Conversion.scalar_settles (outlook : Outlook S base top alive gone)
    (hb : base.Below top) (scalar : t.IsScalarElement) (hv : v.holds.Below top) :
    (Conversion.scalar S t).Settles base top v (v.convert S.converters alive t).value 0 := by
  have same := fun a b : RefSet =>
    congrArg Logged.value (Variant.convert_scalarElement scalar S.converters v a b)
  have kept : (outcomeHolds (v.convert S.converters alive t).value).Below top := by
    cases outcome : (v.convert S.converters alive t).value with
    | ok p =>
      rw [same alive (S.heap.alive base)] at outcome
      intro r held
      exact (Variant.holds_convert outcome held).elim (hv r)
        fun live => (outlook.found (.self hb) live).1
    | error e => exact .none
  refine ⟨_, fun hR => same _ alive, .ready kept ?_ fun _ => rfl⟩
  generalize (v.convert S.converters alive t).value = o at kept
  cases o <;> exact kept

/-- **The conversion of a source in memory** of which no part waits does not wait, and
comes to what its parts come to in turn. -/
theorem Source.settles_inTurn (hb : base.Below top) (inMemory : ∀ r, source ≠ .object r)
    (has : source.parts S.heap.answers shape = .ok (keys, parts))
    (each : ∀ w ∈ parts, w.holds.Below top ∧ elem.Settles base top w (convert w) 0) :
    (Conversion.container S shape t elem).kind.Settles base top (.begun (.sourced source))
      (parts.mapM convert >>= fun values => pure (shape.assemble t keys values)) 0 := by
  obtain ⟨out, waits, chosen⟩ := exists_outcomes parts
    (fun w o n => o = convert w ∧ n = 0) fun w _ => ⟨_, _, rfl, rfl⟩
  have entries : ∀ n w, parts[n]? = some w →
      w.holds.Below top ∧ waits n ≤ 0 ∧ elem.Settles base top w (out n) (waits n) := by
    intro n w found
    obtain ⟨outcome, idle⟩ := chosen n w found
    obtain ⟨holds, settles⟩ := each w (List.mem_of_getElem? found)
    rw [outcome, idle]
    exact ⟨holds, Nat.le_refl 0, settles⟩
  obtain ⟨o, n, le, settles, ends⟩ := settles_met (t := t) hb inMemory has entries
  obtain rfl : n = 0 := Nat.le_zero.1 (by rwa [Nat.mul_zero] at le)
  rwa [ends_eq_inTurn chosen ends] at settles

/-- The plain conversion of a variant that holds just what is asked for. -/
theorem Variant.sequentialContainer_of_exactly {objects : Ref → Answers C} {p : Payload C}
    (exactly : v.exactly? (shape.type t) = some p) :
    v.sequentialContainer objects alive shape t convert = .ok p := by
  rw [sequentialContainer, exactly]

/-- The plain conversion of a variant whose source has parts for the shape. -/
theorem Variant.sequentialContainer_of_parts (other : v.exactly? (shape.type t) = none)
    (found : v.source alive = .ok source)
    (has : source.parts S.heap.answers shape = .ok (keys, parts)) :
    v.sequentialContainer S.heap.answers alive shape t convert
      = (parts.mapM convert >>= fun values => pure (shape.assemble t keys values)) := by
  have taken : (v.source alive >>= Source.parts S.heap.answers shape) = .ok (keys, parts) := by
    rw [found]
    exact has
  rw [sequentialContainer, other, taken]

/-- The plain conversion of a variant whose source has none. -/
theorem Variant.sequentialContainer_of_refused {reason : Reason}
    (other : v.exactly? (shape.type t) = none) (found : v.source alive = .ok source)
    (refused : source.parts S.heap.answers shape = .error reason) :
    v.sequentialContainer S.heap.answers alive shape t convert
      = .error ((v.castError (shape.type t)).because reason) := by
  have taken : (v.source alive >>= Source.parts S.heap.answers shape) = .error reason := by
    rw [found]
    exact refused
  rw [sequentialContainer, other, taken]

/-- **The source of a variant in memory** does not wait if its parts do not, and comes
to what the plain conversion does. -/
theorem Source.settles_inMemory (hb : base.Below top) (hv : v.holds.Below top)
    (memory : v.InMemory alive) (other : v.exactly? (shape.type t) = none)
    (found : v.source alive = .ok source)
    (elems : ∀ w, w.holds.Below top → w.InMemory alive → elem.Settles base top w (convert w) 0) :
    (Conversion.container S shape t elem).kind.Settles base top (.begun (.sourced source))
      (v.sequentialContainer S.heap.answers alive shape t convert) 0 := by
  cases source with
  | object r => exact absurd found (memory v (.here v) r)
  | list items =>
    have part : ∀ w ∈ items, w.holds.Below top := fun w mem r held =>
      hv r (((Variant.partOf_list found).2 w mem).holds r held)
    cases shape with
    | sequence k =>
      rw [Variant.sequentialContainer_of_parts (S := S) other found rfl]
      exact settles_inTurn hb nofun rfl fun w mem =>
        ⟨part w mem, elems w (part w mem) (memory.item found mem)⟩
    | mapping k =>
      obtain ⟨ps, payload⟩ := Variant.payload_of_list found
      have type : v.type = .variants := Variant.type_of_payload payload
      rw [Variant.sequentialContainer_of_refused (S := S) other found rfl, Variant.castError, type]
      exact Stage.settles_of_refused (.unionOf part) fun _ => rfl
  | dictionary entries =>
    have part : ∀ e ∈ entries, e.2.holds.Below top := fun e mem r held =>
      hv r (((Variant.partOf_dictionary found).2 e mem).holds r held)
    cases shape with
    | sequence k =>
      obtain ⟨ps, payload⟩ := Variant.payload_of_dictionary found
      have type : v.type = .dictionary := Variant.type_of_payload payload
      rw [Variant.sequentialContainer_of_refused (S := S) other found rfl, Variant.castError, type]
      exact Stage.settles_of_refused (.unionOf part) fun _ => rfl
    | mapping k =>
      rw [Variant.sequentialContainer_of_parts (S := S) other found rfl]
      exact settles_inTurn hb nofun rfl <| List.forall_mem_map.2 fun e mem =>
        ⟨part e mem, elems e.2 (part e mem) (memory.entry found mem)⟩

/-- What asking for a container gives does not wait either. -/
theorem Stage.begun_settles_inMemory (hb : base.Below top) (hv : v.holds.Below top)
    (memory : v.InMemory alive)
    (elems : ∀ w, w.holds.Below top → w.InMemory alive → elem.Settles base top w (convert w) 0) :
    (Conversion.container S shape t elem).kind.Settles base top
      (.begun (v.begin alive (shape.type t)).value)
      (v.sequentialContainer S.heap.answers alive shape t convert) 0 := by
  rw [Variant.begin_value]
  cases other : v.exactly? (shape.type t) with
  | some p =>
    have kept : (Conversion.outcomeHolds (.ok p)).Below top := fun r held =>
      hv r (Variant.holds_of_exactly? other ▸ held)
    rw [Variant.sequentialContainer_of_exactly other]
    exact settled_settles kept
  | none =>
    cases found : v.source alive with
    | ok source => exact Source.settles_inMemory hb hv memory other found elems
    | error reason =>
      have unfounded : v.sequentialContainer S.heap.answers alive shape t convert
          = .error ((v.castError (shape.type t)).because reason) := by
        rw [Variant.sequentialContainer, other, found]
        rfl
      rw [unfounded]
      exact settled_settles .none

/-- Asked for earlier or later, a variant in memory gives the same. -/
theorem Variant.InMemory.begin_eq (memory : v.InMemory alive) {living : RefSet}
    (le : ∀ r, living r = true → alive r = true) (u : Ty C) :
    (v.begin living u).value = (v.begin alive u).value := by
  rw [Variant.begin_value, Variant.begin_value, memory.source_eq le]

/-- **The conversion of a variant in memory does not wait**, and comes to what the plain
conversion does. -/
theorem Conversion.of_settles_inMemory (outlook : Outlook S base top alive gone)
    (hb : base.Below top) (element : t.IsElement) (hv : v.holds.Below top)
    (memory : v.InMemory alive) :
    (Conversion.of S t).Settles base top v
      (v.sequential S.converters S.heap.answers alive t) 0 := by
  induction t generalizing v with
  | seq k t ih =>
    refine ⟨_, fun hR => congrArg Stage.begun (memory.begin_eq (fun r live =>
      (outlook.found hR live).2) (Shape.type (.sequence k) t)), ?_⟩
    exact Stage.begun_settles_inMemory hb hv memory fun w hw within => ih element hw within
  | map k t ih =>
    refine ⟨_, fun hR => congrArg Stage.begun (memory.begin_eq (fun r live =>
      (outlook.found hR live).2) (Shape.type (.mapping k) t)), ?_⟩
    exact Stage.begun_settles_inMemory hb hv memory fun w hw within => ih element hw within
  | int _ | float _ | bool | char | text | wide | null | variant | option _ =>
    exact Conversion.scalar_settles outlook hb element hv
  | _ => exact element.elim

/-! ## Ready at the first poll -/

/-- What does not wait is ready when it is polled for the first time. -/
theorem Conversion.pollAll_of_settles {c : Conversion C} {s : c.State}
    {o : Except (CastError C) (Payload C)} (h : c.kind.Settles base top s o 0)
    (hR : Between base top R) (surroundings : List RefSet) :
    (c.pollAll (R :: surroundings) s).value = some o := by
  cases h with
  | ready _ _ polled =>
    have polled : (c.poll R s).value = .ready o := polled hR
    rw [pollAll, Logged.value_bind, polled]
    rfl

/-- A list or a dictionary of variants is given as it is only if it is asked for with
variants as its elements. -/
theorem Variant.elem_eq_variant {p : Payload C} (found : v.source alive = .ok source)
    (exactly : v.exactly? (shape.type t) = some p) : t = .variant := by
  have agree (inMemory : ∀ r, source ≠ .object r) : source.type = shape.type t := by
    by_contra differ
    cases exactly.symm.trans ((exactly?_inMemory found inMemory).2 differ)
  cases source with
  | object r => cases exactly.symm.trans (exactly?_of_object found shape t)
  | list items | dictionary entries =>
    have same := agree nofun
    cases shape <;> cases same
    rfl

/-- Every variant is one. -/
theorem Variant.exists_convert_variant (K : Converters C) (living : RefSet) (w : Variant C) :
    ∃ q, (w.convert K living .variant).value = .ok q := by
  rw [convert_value]
  split <;> exact ⟨_, rfl⟩

/-- The parts of a source in memory are in memory as well. -/
theorem Variant.InMemory.part (memory : v.InMemory alive) {living : RefSet}
    (le : ∀ r, living r = true → alive r = true) (found : v.source living = .ok source)
    (has : source.parts S.heap.answers shape = .ok (keys, parts)) (mem : w ∈ parts) :
    w.PartOf v ∧ w.InMemory alive := by
  cases source with
  | object r => exact absurd (source_mono found le) (memory v (.here v) r)
  | list items =>
    cases shape with
    | sequence k =>
      cases has
      exact ⟨(partOf_list found).2 w mem, memory.item found mem⟩
    | mapping k => cases has
  | dictionary entries =>
    cases shape with
    | sequence k => cases has
    | mapping k =>
      cases has
      obtain ⟨e, here, rfl⟩ := List.mem_map.1 mem
      exact ⟨(partOf_dictionary found).2 e here, memory.entry found here⟩

/-- Every part converts exactly if all convert in turn. -/
theorem exists_inTurn_eq_ok_iff {p : List (Payload C) → Payload C} :
    (∃ q, (parts.mapM convert >>= fun values => pure (p values)) = Except.ok q)
      ↔ ∀ w ∈ parts, ∃ q, convert w = .ok q := by
  constructor
  · rintro ⟨q, succeeds⟩ w mem
    obtain ⟨values, each, -⟩ := mapM_bind_eq_ok_iff.1 succeeds
    obtain ⟨a, -, same⟩ := List.mem_map.1 (each ▸ List.mem_map_of_mem (f := convert) mem)
    exact ⟨a, same.symm⟩
  · intro each
    cases inTurn : parts.mapM convert with
    | ok values => exact ⟨_, rfl⟩
    | error e =>
      obtain ⟨before, w, after, rfl, -, failed⟩ := mapM_eq_error_iff.1 inTurn
      obtain ⟨q, succeeds⟩ := each w (List.mem_append_right _ List.mem_cons_self)
      cases failed.symm.trans succeeds

theorem inTurn_eq_error_iff {p : List (Payload C) → Payload C} {e : CastError C} :
    (parts.mapM convert >>= fun values => pure (p values)) = Except.error e
      ↔ ∃ before w after, parts = before ++ w :: after
        ∧ (∀ x ∈ before, ∃ q, convert x = .ok q) ∧ convert w = .error e := by
  rw [← mapM_eq_error_iff]
  cases parts.mapM convert with
  | ok values => exact iff_of_false nofun nofun
  | error e' => exact ⟨fun failed => by cases failed; rfl, fun failed => by cases failed; rfl⟩

/-- **What the plain conversion of a source comes to**, by its parts: it succeeds exactly
if all of them convert, and fails exactly as the first that does not. -/
theorem Variant.sequentialContainer_spec (found : v.source alive = .ok source)
    (has : source.parts S.heap.answers shape = .ok (keys, parts)) :
    let convert := Variant.sequential S.converters S.heap.answers alive t
    let outcome := v.sequentialContainer S.heap.answers alive shape t convert
    ((∃ p, outcome = .ok p) ↔ ∀ w ∈ parts, ∃ q, convert w = .ok q)
    ∧ (∀ p, outcome = .ok p ↔ v.exactly? (shape.type t) = some p
      ∨ v.exactly? (shape.type t) = none ∧ ∃ values,
          parts.map convert = values.map Except.ok ∧ p = shape.assemble t keys values)
    ∧ ∀ e, outcome = .error e ↔ ∃ before w after, parts = before ++ w :: after
        ∧ (∀ x ∈ before, ∃ q, convert x = .ok q) ∧ convert w = .error e := by
  intro convert outcome
  cases exactly : v.exactly? (shape.type t) with
  | some p =>
    have stored : outcome = .ok p := sequentialContainer_of_exactly exactly
    obtain rfl := elem_eq_variant found exactly
    have each : ∀ w, ∃ q, convert w = .ok q := exists_convert_variant S.converters _
    rw [stored]
    refine ⟨iff_of_true ⟨p, rfl⟩ fun w _ => each w, fun q => ?_, fun e => ?_⟩
    · exact ⟨fun same => .inl (congrArg some (Except.ok.inj same)), fun h =>
        congrArg Except.ok (Option.some.inj (h.resolve_right fun other => nomatch other.1))⟩
    · refine iff_of_false nofun ?_
      rintro ⟨before, w, after, -, -, failed⟩
      obtain ⟨q, succeeds⟩ := each w
      cases failed.symm.trans succeeds
  | none =>
    have inTurn : outcome
        = (parts.mapM convert >>= fun values => pure (shape.assemble t keys values)) :=
      sequentialContainer_of_parts exactly found has
    rw [inTurn]
    refine ⟨exists_inTurn_eq_ok_iff, fun p => ?_, fun e => inTurn_eq_error_iff⟩
    exact mapM_bind_eq_ok_iff.trans
      ⟨fun each => .inr ⟨rfl, each⟩, fun h => (h.resolve_left nofun).2⟩

/-- **The conversion of a list or a dictionary in memory is ready at the first poll**,
whatever the number of entries. Every part converts at once as well, if it is asked for
alone. The whole succeeds exactly if every part does, with the container of their
results (or with the stored container, if just that is asked for), and it fails exactly
as the first part in order that fails. The parts may be containers themselves, of which
the same is true. -/
theorem Variant.inMemory_ready (element : t.IsElement)
    (memory : v.InMemory (RefSet.union asked (S.heap.alive (RefSet.union held v.holds))))
    (found : v.source asked = .ok source)
    (has : source.parts S.heap.answers shape = .ok (keys, parts))
    (surroundings : List RefSet) :
    let convert := Variant.sequential S.converters S.heap.answers
      (RefSet.union asked (S.heap.alive (RefSet.union held v.holds))) t
    (∀ w ∈ parts, ((Conversion.of S t).pollAll (held :: surroundings)
        ((Conversion.of S t).start held w).value).value = some (convert w))
    ∧ ∃ outcome,
        ((v.pend asked shape t).value.pollAll S (held :: surroundings)).value = some outcome
        ∧ ((∃ p, outcome = .ok p) ↔ ∀ w ∈ parts, ∃ q, convert w = .ok q)
        ∧ (∀ p, outcome = .ok p ↔ v.exactly? (shape.type t) = some p
          ∨ v.exactly? (shape.type t) = none ∧ ∃ values,
              parts.map convert = values.map Except.ok ∧ p = shape.assemble t keys values)
        ∧ ∀ e, outcome = .error e ↔ ∃ before w after, parts = before ++ w :: after
            ∧ (∀ x ∈ before, ∃ q, convert x = .ok q) ∧ convert w = .error e := by
  intro convert
  have outlook := Outlook.of_held S asked held v.holds
  have hb : held.Below (S.heap.Reach (RefSet.union held v.holds)) :=
    RefSet.below_reach_union S.heap held v.holds
  have hv : v.holds.Below (S.heap.Reach (RefSet.union held v.holds)) :=
    fun r holds => .root (by rw [RefSet.union_apply, holds, Bool.or_true])
  have earlier : ∀ r, asked r = true →
      RefSet.union asked (S.heap.alive (RefSet.union held v.holds)) r = true :=
    fun r live => by rw [RefSet.union_apply, live, Bool.true_or]
  have settles : (Conversion.container S shape t (Conversion.of S t)).kind.Settles held
      (S.heap.Reach (RefSet.union held v.holds)) (.begun (v.begin asked (shape.type t)).value)
      (v.sequentialContainer S.heap.answers
        (RefSet.union asked (S.heap.alive (RefSet.union held v.holds))) shape t convert) 0 := by
    rw [memory.begin_eq earlier]
    exact Stage.begun_settles_inMemory hb hv memory
      fun w hw within => Conversion.of_settles_inMemory outlook hb element hw within
  refine ⟨fun w mem => ?_, _, Conversion.pollAll_of_settles settles (.self hb) surroundings,
    sequentialContainer_spec (source_mono found earlier) has⟩
  obtain ⟨part, within⟩ := memory.part earlier found has mem
  obtain ⟨s, starts, settled⟩ := Conversion.of_settles_inMemory outlook hb element
    (fun r holds => hv r (part.holds r holds)) within
  rw [starts (.self hb)]
  exact Conversion.pollAll_of_settles settled (.self hb) surroundings

/-- A list of two lists of texts, of which the second has one that is no number, fails
with the error of that text as soon as it is polled. -/
theorem Variant.inMemory_ready_numberLists :
    ((numberLists.pend .none (.sequence .vector) (.seq .vector (.int .widestSigned))).value.pollAll
      ⟨.empty, .refusing .none⟩ [.none]).value
      = some (.error ⟨.text, .int .widestSigned, some (Reason.notNumeric "x").wording⟩) := by
  have memory : numberLists.InMemory (RefSet.union .none
      (Heap.alive (C := .none) .empty (RefSet.union .none numberLists.holds))) :=
    inMemory_of_refers_not (fun _ => rfl) fun _ => rfl
  have element : (Ty.seq .vector (.int .widestSigned) : Ty .none).IsElement := trivial
  obtain ⟨-, outcome, ready, -, -, failed⟩ :=
    inMemory_ready (S := ⟨.empty, .refusing .none⟩) element memory rfl
      (rfl : Source.parts _ (.sequence .vector) _ = _) []
  rw [ready]
  refine congrArg some ((failed _).2 ⟨[_], _, [], rfl, ?_, rfl⟩)
  exact List.forall_mem_singleton.2 ⟨_, rfl⟩

end DynValue
