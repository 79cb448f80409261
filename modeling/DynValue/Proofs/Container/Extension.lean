import DynValue.Proofs.Container.Completion
import DynValue.Proofs.Container.Diagnosed

/-!
# Entries behind a failure

If a list or a dictionary in memory does not convert, one might expect that further
entries behind its own, which convert without fail, do not change the error. They can:
of at most thirty entries the failure that is met first is returned, and of more than
thirty the failure of the first entry in order. So what is added decides on the error
exactly where it takes the number of entries past thirty, and then the error is that of
the first entry that fails (`Variant.extension_failure`). On either side of this limit it
stays the same.

Entries are judged by what they come to alone (`Variant.ComesTo`). As for the comparison
with the plain conversion it has to be assumed that no weak reference goes bad while the
entries are let go of.
-/

namespace DynValue

open Schedule
open RefSet (Between Below)

variable {C : CallerTypes} {S : Setting C} {base held asked asked' : RefSet} {top : Ref → Prop}
  {shape : Shape} {t : Ty C} {v w : Variant C} {source source' : Source C}
  {parts more : List (Variant C)} {e : CastError C} {bound : Nat}
  {o o' : Except (CastError C) (Payload C)}

/-! ## Alone -/

/-- **What a variant comes to alone**: its conversion is started while the variant is
held, and is then driven to an end. -/
def Variant.ComesTo (S : Setting C) (held : RefSet) (t : Ty C) (v : Variant C)
    (o : Except (CastError C) (Payload C)) : Prop :=
  ∃ n, ((Conversion.of S t).drive held n
    ((Conversion.of S t).start (RefSet.union held v.holds) v).value).value = some o

/-- A conversion that settles comes to nothing but its outcome. -/
theorem Conversion.eq_of_drive {c : Conversion C} {s : c.State} {n m : Nat}
    (h : c.kind.Settles base top s o n) (hR : Between base top held)
    (driven : (c.drive held m s).value = some o') : o' = o := by
  induction h generalizing m with
  | ready _ _ polled =>
    cases m with
    | zero => cases driven
    | succ m =>
      have polled : (c.poll held _).value = _ := polled hR
      rw [drive, Logged.value_bind, polled] at driven
      exact (Option.some.inj driven).symm
  | pending _ polled _ ih =>
    cases m with
    | zero => cases driven
    | succ m =>
      have polled : (c.poll held _).value = _ := polled hR
      rw [drive, Logged.value_bind, polled] at driven
      exact ih driven

theorem Conversion.Settles.comesTo_iff {n : Nat} (h : (Conversion.of S t).Settles held top v o n)
    (hb : held.Below top) (hv : v.holds.Below top) : v.ComesTo S held t o' ↔ o' = o := by
  obtain ⟨s, starts, settles⟩ := h
  have around : Between held top (RefSet.union held v.holds) :=
    (Between.self hb).union hv
  rw [Variant.ComesTo, starts around]
  refine ⟨fun ⟨m, driven⟩ => eq_of_drive settles (.self hb) driven, ?_⟩
  rintro rfl
  exact ⟨n + 1, drive_value settles (.self hb) (Nat.lt_succ_self n)⟩

/-- **The first of some variants that fails alone**, and its error. -/
def FirstFails (S : Setting C) (held : RefSet) (t : Ty C) (parts : List (Variant C))
    (e : CastError C) : Prop :=
  ∃ before x after, parts = before ++ x :: after
    ∧ (∀ y ∈ before, ∃ p, y.ComesTo S held t (.ok p)) ∧ x.ComesTo S held t (.error e)

/-! ## Sources in memory -/

/-- **A source in memory is extended** by further entries, placed behind its own. -/
inductive Source.ExtendedBy (parts more : List (Variant C)) : Source C → Source C → Prop
  | list : ExtendedBy parts more (.list parts) (.list (parts ++ more))
  | dictionary {entries further : List (String × Variant C)}
      (own : entries.map Prod.snd = parts) (added : further.map Prod.snd = more) :
      ExtendedBy parts more (.dictionary entries) (.dictionary (entries ++ further))

namespace Source.ExtendedBy

theorem inMemory (h : source.ExtendedBy parts more source') :
    (∀ r, source ≠ .object r) ∧ ∀ r, source' ≠ .object r := by
  cases h <;> exact ⟨nofun, nofun⟩

theorem type_eq (h : source.ExtendedBy parts more source') : source'.type = source.type := by
  cases h <;> rfl

/-- If the source is of the kind that the shape asks for, its parts are the first of
those that there are with the extension. -/
theorem exists_keys (h : source.ExtendedBy parts more source') (fits : ¬ source.OtherKind shape)
    (objects : Ref → Answers C) :
    ∃ keys keys', source.parts objects shape = .ok (keys, parts)
      ∧ source'.parts objects shape = .ok (keys', parts ++ more) := by
  cases h with
  | list =>
    cases shape with
    | sequence k => exact ⟨_, _, rfl, rfl⟩
    | mapping k => exact absurd (.list k _) fits
  | @dictionary entries further own added =>
    cases shape with
    | sequence k => exact absurd (.dictionary k _) fits
    | mapping k =>
      refine ⟨entries.map Prod.fst, (entries ++ further).map Prod.fst, ?_, ?_⟩
      · rw [← own]
        rfl
      · rw [← own, ← added, ← List.map_append]
        rfl

/-- If it is of the other kind, it is refused as its extension is. -/
theorem exists_refusal (h : source.ExtendedBy parts more source') (other : source.OtherKind shape)
    (S : Setting C) (held : RefSet) (t : Ty C) :
    ∃ e, ((⟨shape, t, .sourced source⟩ : Pending C).finish S held).value = some (.error e)
      ∧ ((⟨shape, t, .sourced source'⟩ : Pending C).finish S held).value = some (.error e) := by
  cases h with
  | list =>
    cases other
    exact ⟨_, rfl, rfl⟩
  | dictionary =>
    cases other
    exact ⟨_, rfl, rfl⟩

end Source.ExtendedBy

namespace Variant

/-- A conversion that fails was not settled when it was asked for. -/
theorem exactly?_of_failed (failed : v.converted S held shape t = some (.error e)) :
    v.exactly? (shape.type t) = none := by
  cases held' : v.exactly? (shape.type t) with
  | none => rfl
  | some p =>
    rw [converted, begun_pending, held'] at failed
    cases failed

/-- Asked for a container, it gives its source. -/
theorem pending_inMemory (found : v.source asked = .ok source)
    (inMemory : ∀ r, source ≠ .object r) (other : v.exactly? (shape.type t) = none) :
    v.pending S held shape t = ⟨shape, t, .sourced source⟩ := by
  rw [begun_pending, other, source_inMemory found inMemory]

end Variant

/-! ## The main statement -/

/-- **A source that is extended**, between bounds within which all parts settle. -/
theorem Source.ExtendedBy.failure (hb : held.Below top)
    (extended : source.ExtendedBy parts more source') (fits : ¬ source.OtherKind shape)
    (each : ∀ x ∈ parts ++ more, x.holds.Below top
      ∧ ∃ o, ∃ n ≤ bound, (Conversion.of S t).Settles held top x o n)
    (enough : (parts ++ more).length * bound
      ≤ pollBound S.heap.delayBound (max S.heap.breadth source'.breadth) (shape.type t))
    (good : ∀ y ∈ more, ∃ p, y.ComesTo S held t (.ok p))
    (failed : ((⟨shape, t, .sourced source⟩ : Pending C).finish S held).value
      = some (.error e)) :
    ∃ e', ((⟨shape, t, .sourced source'⟩ : Pending C).finish S held).value = some (.error e')
      ∧ (parts.length + more.length ≤ Join.roundLimit ∨ Join.roundLimit < parts.length → e' = e)
      ∧ (Join.roundLimit < parts.length + more.length → FirstFails S held t parts e') := by
  obtain ⟨keys, keys', own, all⟩ := extended.exists_keys fits S.heap.answers
  obtain ⟨out, waits, chosen⟩ := exists_outcomes (parts ++ more)
    (fun x o n => x.holds.Below top ∧ n ≤ bound ∧ (Conversion.of S t).Settles held top x o n)
    fun x mem => by
      obtain ⟨holds, o, n, le, settles⟩ := each x mem
      exact ⟨o, n, holds, le, settles⟩
  have alone : ∀ {k x}, (parts ++ more)[k]? = some x →
      ∀ o, x.ComesTo S held t o ↔ o = out k := by
    intro k x found o
    obtain ⟨holds, -, settles⟩ := chosen k x found
    exact settles.comesTo_iff hb holds
  have added : ∀ k < more.length, ∃ a, out (parts.length + k) = .ok a := by
    intro k lt
    have found : (parts ++ more)[parts.length + k]? = some more[k] := by
      rw [List.getElem?_append_right (Nat.le_add_right _ _), Nat.add_sub_cancel_left,
        List.getElem?_eq_getElem lt]
    obtain ⟨p, converts⟩ := good _ (List.getElem_mem lt)
    exact ⟨p, ((alone found _).1 converts).symm⟩
  have within : ∀ {k x}, parts[k]? = some x → (parts ++ more)[k]? = some x := fun found =>
    (List.getElem?_append_left (List.getElem?_eq_some_iff.1 found).1).trans found
  obtain ⟨o, n, -, settles, ends⟩ := Source.settles_met (t := t) hb extended.inMemory.1 own
    fun k x found => chosen k x (within found)
  obtain rfl : .error e = o := Conversion.eq_of_drive settles (.self hb) failed
  obtain ⟨o', n', le, settles', ends'⟩ :=
    Source.settles_met (t := t) hb extended.inMemory.2 all chosen
  have finished : ((⟨shape, t, .sourced source'⟩ : Pending C).finish S held).value = some o' :=
    Pending.finish_value settles' (le.trans enough) (.self hb)
  rw [List.length_append] at ends'
  cases o' with
  | ok p =>
    obtain ⟨values, gathers, -⟩ := ends'
    obtain ⟨k, lt, fails⟩ := FailsMet.some ends
    obtain ⟨a, -, succeeds⟩ := gathers.getElem? (Nat.lt_add_right _ lt)
    cases fails.symm.trans succeeds
  | error e' =>
    refine ⟨e', finished, fun side => (FailsMet.extend ends added side).unique ends',
      fun many => ?_⟩
    obtain ⟨k, lt, fails, before⟩ := failsFirst_iff.1 (FailsMet.many ends' many)
    have lt : k < parts.length := by
      by_contra past
      obtain ⟨i, rfl⟩ := Nat.exists_eq_add_of_le (Nat.le_of_not_lt past)
      obtain ⟨a, succeeds⟩ := added i (Nat.lt_of_add_lt_add_left lt)
      cases fails.symm.trans succeeds
    refine ⟨parts.take k, parts[k], parts.drop (k + 1), ?_, fun y mem => ?_, ?_⟩
    · rw [List.getElem_cons_drop, List.take_append_drop]
    · obtain ⟨j, found⟩ := List.mem_iff_getElem?.1 mem
      obtain ⟨earlier, -⟩ := List.getElem?_eq_some_iff.1 found
      rw [List.length_take] at earlier
      obtain ⟨a, succeeds⟩ := before j (by omega)
      rw [List.getElem?_take_of_lt (by omega)] at found
      exact ⟨a, (alone (within found) _).2 succeeds.symm⟩
    · exact (alone (within (List.getElem?_eq_getElem lt)) _).2 fails.symm

/-- The parts of a source that is extended, and those behind them, are known if the
extension is. -/
theorem Source.ExtendedBy.known {weak : Ref → Prop} {breadth : Nat}
    (extended : source.ExtendedBy parts more source')
    (h : source'.AllKnown top weak breadth) :
    (parts ++ more).length ≤ breadth ∧ ∀ x ∈ parts ++ more, Known top weak breadth x := by
  cases extended with
  | list => exact h
  | @dictionary entries further own added =>
    rw [← own, ← added, ← List.map_append, List.length_map]
    exact ⟨h.1, List.forall_mem_map.2 h.2⟩

/-- **Further entries that convert change the error only by their number.** If a list or
a dictionary in memory does not convert, neither does it with further entries behind its
own that convert alone. The error is the same, if the number of entries stays on one side
of the limit up to which they are polled in rounds, or if the source is of the other kind
than is asked for. Past the limit it is the error of the first entry in order that
fails. -/
theorem Variant.extension_failure (rules : S.Local) (stays : w.KeepsAlive S held shape t)
    (found : v.source asked = .ok source) (found' : w.source asked' = .ok source')
    (extended : source.ExtendedBy parts more source')
    (good : ∀ y ∈ more, ∃ p, y.ComesTo S held t (.ok p))
    (failed : v.converted S held shape t = some (.error e)) :
    ∃ e', w.converted S held shape t = some (.error e')
      ∧ (source.OtherKind shape ∨ parts.length + more.length ≤ Join.roundLimit
        ∨ Join.roundLimit < parts.length → e' = e)
      ∧ (¬ source.OtherKind shape → Join.roundLimit < parts.length + more.length →
        FirstFails S held t parts e') := by
  have inexact := exactly?_of_failed failed
  have inexact' : w.exactly? (shape.type t) = none := by
    rw [exactly?_inMemory found' extended.inMemory.2, extended.type_eq,
      ← exactly?_inMemory found extended.inMemory.1]
    exact inexact
  have taken : w.pending S held shape t = ⟨shape, t, .sourced source'⟩ :=
    pending_inMemory found' extended.inMemory.2 inexact'
  rw [converted, taken]
  rw [converted, pending_inMemory found extended.inMemory.1 inexact] at failed
  by_cases other : source.OtherKind shape
  · obtain ⟨e', refused, refused'⟩ := extended.exists_refusal other S held t
    refine ⟨e', refused', fun _ => ?_, fun fits => absurd other fits⟩
    exact Except.error.inj (Option.some.inj (refused.symm.trans failed))
  · have stays' : ∀ r, S.Sees w r → S.heap.alive (RefSet.union held w.holds) r = true →
        S.heap.alive held r = true := by
      intro r sees alive
      have kept := stays r sees alive
      have nothing : RefSet.union held (Begun.sourced source').keeps = held := by
        cases extended <;> exact RefSet.union_none held
      rwa [taken, nothing] at kept
    have sc := Scene.steady rules stays'
    obtain ⟨count, known⟩ := extended.known (sc.allKnown (.of_source S held found')
      (source_inMemory found' extended.inMemory.2 _))
    obtain ⟨e', finished, same, first⟩ := extended.failure sc.below other
      (fun x mem => by
        obtain ⟨o, n, le, settles, -⟩ :=
          Conversion.of_refines sc (Nat.le_max_left _ _) t (known x mem)
        exact ⟨(known x mem).holds, o, n, le, settles⟩)
      (by rw [pollBound_type]; exact mul_le_pollBound count) good failed
    exact ⟨e', finished, fun side => same (side.resolve_left other), fun _ => first⟩

/-- An object with a single element, which is no number and takes a while. -/
def ExternalObject.slowNull : ExternalObject CallerTypes.none where
  length := 1
  elements := [.native .null]
  keys := []
  properties := []
  delay := 1
  delays := []

/-- An object with a single element, which is nothing at all and is there at once. -/
def ExternalObject.quickEmpty : ExternalObject CallerTypes.none where
  length := 1
  elements := [.empty]
  keys := []
  properties := []
  delay := 0
  delays := []

/-- Lists of numbers. -/
def Ty.numbers : Ty CallerTypes.none := .seq .vector (.int ⟨true, .w32⟩)

/-- A heap with these two objects. -/
def Setting.uneven : Setting .none :=
  ⟨⟨[.object .slowNull, .object .quickEmpty]⟩, .refusing .none⟩

namespace Variant

/-- A list of the two objects and further entries. -/
def unevenObjects (more : List (Variant .none)) : Variant .none :=
  ofValue (.seq .vector .variant (([ofObject 0, ofObject 1] ++ more).map toPayload))

/-- A list without items. -/
def noItems : Variant .none := ofValue (.seq .vector .variant [])

theorem source_unevenObjects (more : List (Variant .none)) (alive : RefSet) :
    (unevenObjects more).source alive = .ok (.list ([ofObject 0, ofObject 1] ++ more)) := by
  have same : (([ofObject 0, ofObject 1] ++ more).map toPayload).map ofEntry
      = [ofObject 0, ofObject 1] ++ more := by
    rw [List.map_map]
    exact List.map_id _
  exact congrArg (fun items => Except.ok (Source.list items)) same

/-- Asked for lists of numbers, the two objects and an empty list fail with the
element that is there at once, as the two objects do. -/
theorem extension_failure_unevenObjects :
    (unevenObjects [noItems]).converted .uneven .none (.sequence .vector) .numbers
      = some (.error ⟨.empty, .int ⟨true, .w32⟩, none⟩) := by
  have stays : (unevenObjects [noItems]).KeepsAlive .uneven .none (.sequence .vector) .numbers := by
    rintro r (refers | refers) alive
    · cases (rfl : (unevenObjects [noItems]).refersWeakly r = false).symm.trans refers
    · cases (rfl : Setting.uneven.heap.refersWeakly r = false).symm.trans refers
  have good : ∀ y ∈ [noItems], ∃ p, y.ComesTo .uneven .none .numbers (.ok p) :=
    List.forall_mem_singleton.2 ⟨_, 1, rfl⟩
  have fails : (unevenObjects []).converted .uneven .none (.sequence .vector) .numbers
      = some (.error ⟨.empty, .int ⟨true, .w32⟩, none⟩) := rfl
  obtain ⟨e', failed, same, -⟩ := extension_failure (fun tag => PEmpty.elim tag) stays
    (source_unevenObjects [] .none) (source_unevenObjects [noItems] .none) .list good fails
  rw [failed, same (.inr (.inl (by decide)))]

set_option maxRecDepth 4000 in
/-- **Entries that convert change the error**: with twenty-nine empty lists behind them,
the two objects fail with the element that takes a while. -/
theorem unevenObjects_failure_ne :
    (∀ y ∈ List.replicate 29 noItems, ∃ p, y.ComesTo .uneven .none .numbers (.ok p))
    ∧ ∃ e e', e' ≠ e
      ∧ (unevenObjects []).converted .uneven .none (.sequence .vector) .numbers = some (.error e)
      ∧ (unevenObjects (List.replicate 29 noItems)).converted .uneven .none
          (.sequence .vector) .numbers = some (.error e') :=
  ⟨fun _ mem => List.eq_of_mem_replicate mem ▸ ⟨_, 1, rfl⟩,
    ⟨.empty, .int ⟨true, .w32⟩, none⟩, ⟨.null, .int ⟨true, .w32⟩, none⟩, nofun, rfl, rfl⟩

end Variant

end DynValue
